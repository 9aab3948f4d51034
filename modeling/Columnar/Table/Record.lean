import Columnar.Store.Memory
import Columnar.Table.Iterator

/-!
# Table records

A saved table is a chunk file and a record, which is a settings tree:

    table_impl                     "lazy"
    table_id                       the number of the table
    table_spec                     names and types of the columns, as two lists
    table_derived_settings
      FAST_TABLE_CONTAINER_SIZE    the number of rows
      FAST_TABLE_CONTAINER_TYPE    the name of the store factory
      FAST_TABLE_MAPPING_TYPE      the name of the schema mapping
      FAST_TABLE_SCHEMA_MAPPER     what the mapping has to say

**Types.** The five built-in types have names of their own, an extension type has its name behind
`extension:`. An empty extension name can be written but is refused when read.
-/

namespace Columnar

/-- The name of a column type in a record. -/
def ColumnType.key : ColumnType → String
  | .primitive p => p.className
  | .extension name => "extension:" ++ name

/-- The text behind a given beginning. -/
def dropStart? (start s : String) : Option String :=
  if s.toList.take start.length = start.toList then
    some (String.ofList (s.toList.drop start.length))
  else none

/-- The column type with this name. -/
def ColumnType.ofKey (key : String) : Outcome ColumnType :=
  match Primitive.all.find? (·.className == key) with
  | some p => .ok (.primitive p)
  | none =>
    match dropStart? "extension:" key with
    | some name =>
      if name = "" then Outcome.fail (.invalidSettings (.columnType key))
      else .ok (.extension name)
    | none => Outcome.fail (.invalidSettings (.columnType key))

namespace TableSpec

def namesKey : String := "column_names"

def typesKey : String := "column_types"

/-- Describe a table spec in a settings tree. -/
def save (spec : TableSpec) (s : Settings) : Settings :=
  (s.addStrings namesKey (spec.columns.map Column.name)).addStrings typesKey
    (spec.columns.map (·.type.key))

/-- Columns of the given names and types, one by one. -/
def columnsOf : List String → List String → Outcome (List Column)
  | name :: names, key :: keys => do
    let type ← ColumnType.ofKey key
    return ⟨name, type⟩ :: (← columnsOf names keys)
  | _, _ => return []

/-- The table spec described in a settings tree. -/
def load (s : Settings) : Outcome TableSpec := do
  let names ← s.getStrings namesKey
  let types ← s.getStrings typesKey
  if names.length ≠ types.length then
    Outcome.fail (.invalidSettings (.columnCounts names.length types.length))
  else return ⟨← columnsOf names types⟩

end TableSpec

namespace Record

def kindKey : String := "table_impl"
def idKey : String := "table_id"
def specKey : String := "table_spec"
def derivedKey : String := "table_derived_settings"
def sizeKey : String := "FAST_TABLE_CONTAINER_SIZE"
def factoryKey : String := "FAST_TABLE_CONTAINER_TYPE"
def mappingKey : String := "FAST_TABLE_MAPPING_TYPE"
def schemaKey : String := "FAST_TABLE_SCHEMA_MAPPER"

/-- The only kind of table that is saved. -/
def lazyKind : String := "lazy"

/-- What a record says about the data of a table. -/
def derived (t : TableInfo) (factory : String) : Settings :=
  ((((Settings.empty.addString factoryKey factory).addLong sizeKey (Int64.ofNat t.size)).addString
    mappingKey SchemaMapping.name).addTree schemaKey (t.mapping.save .empty))

/-- Describe a table in a settings tree. -/
def describe (t : TableInfo) (factory : String) (s : Settings) : Settings :=
  (((s.addString kindKey lazyKind).addLong idKey t.id).addTree specKey (t.spec.save .empty)).addTree
    derivedKey (derived t factory)

/-- Save a table whose rows are in a memory store. The settings are filled in before the chunk
file is written. -/
def save (t : TableInfo) (factory : String) (store : MemoryStore) (path : String) :
    Action (Files × Settings) Unit := do
  if t.size < longLimit then
    Action.modify fun (fs, s) => (fs, describe t factory s)
    (store.save path).on Prod.fst fun fs (_, s) => (fs, s)
  else Action.fail (.illegalState (.tableSize t.size))

/-! ## Loading -/

/-- What it takes to load a saved table. -/
structure LoadContext where
  id : Int64
  spec : TableSpec
  derived : Settings
  dataFile : String

/-- What a record says about a table. -/
def context (s : Settings) (dataFile : String) (id : Int64) : Outcome LoadContext := do
  let kind ← s.getString kindKey
  if kind ≠ lazyKind then Outcome.fail (.invalidSettings (.tableKind kind))
  else
    let spec ← TableSpec.load (← s.getTree specKey)
    return ⟨id, spec, ← s.getTree derivedKey, dataFile⟩

/-- A row count, which is not negative. -/
def rowCount (n : Int64) : Outcome Nat :=
  if n < 0 then Outcome.fail (.invalidSettings (.tableSize n)) else .ok n.toInt.toNat

/-- The mapping with this name, as described in a settings tree. -/
def loadMapping (name : String) (spec : TableSpec) (serializers : SerializerRegistry)
    (s : Settings) : Outcome SchemaMapping :=
  if name = SchemaMapping.name then SchemaMapping.load spec serializers s
  else Outcome.fail (.notFound .schemaMapping name)

/-- The facts about a saved table, and the name of the factory of its store. -/
def load (c : LoadContext) (serializers : SerializerRegistry) : Outcome (TableInfo × String) := do
  let size ← rowCount (← c.derived.getLong sizeKey)
  let name ← c.derived.getString mappingKey
  let mapping ← loadMapping name c.spec serializers (← c.derived.getTree schemaKey)
  return (⟨c.id, c.spec, mapping, size⟩, ← c.derived.getString factoryKey)

end Record

end Columnar
