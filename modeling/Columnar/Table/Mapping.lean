import Columnar.Cell
import Columnar.Column.Access
import Columnar.Settings.Basic

/-!
# Table specs and schema mappings

A table spec lists the data columns of a table by name and type. The row key is no data column.

A schema mapping stores a table spec as physical columns: a column of row keys if the table has
them, then a pair of chunks for every data column. All data columns share the class tags of the
table. Only columns of a built-in type can be stored.

A mapping is saved as the flag for row keys and the classes in tag order.
-/

namespace Columnar

/-! ## Specs -/

/-- The type of a data column. -/
inductive ColumnType
  | primitive (p : Primitive)
  /-- A cell class without a columnar mapping. -/
  | extension (name : String)
deriving DecidableEq

/-- The name of a column type shown to a reader. -/
def ColumnType.text : ColumnType → String
  | .primitive .int => "INTEGER"
  | .primitive .long => "LONG"
  | .primitive .double => "DOUBLE"
  | .primitive .boolean => "BOOLEAN"
  | .primitive .string => "STRING"
  | .extension name => name

/-- The built-in class that stores a column, if there is one. -/
def ColumnType.primitive? : ColumnType → Option Primitive
  | .primitive p => some p
  | .extension _ => none

/-- A data column. -/
structure Column where
  name : String
  type : ColumnType
deriving DecidableEq

/-- The data columns of a table, in order. -/
structure TableSpec where
  columns : List Column
deriving DecidableEq

/-- The number of data columns. -/
def TableSpec.size (spec : TableSpec) : Nat := spec.columns.length

/-- The columns as `name: type`, separated by commas. -/
def TableSpec.text (spec : TableSpec) : String :=
  ", ".intercalate (spec.columns.map fun c => c.name ++ ": " ++ c.type.text)

/-! ## Mappings -/

structure SchemaMapping where
  /-- Whether the table stores row keys. -/
  hasKeys : Bool
  primitives : List Primitive
  tags : ClassTags

/-- The first data column without a columnar mapping. -/
def TableSpec.unsupported? (spec : TableSpec) : Option Column :=
  spec.columns.find? (·.type.primitive?.isNone)

/-- Whether every column has a columnar mapping. -/
def TableSpec.isSupported (spec : TableSpec) : Bool := spec.unsupported?.isNone

namespace SchemaMapping

/-- The name under which a table record refers to this mapping. -/
def name : String := "legacy"

def keysKey : String := "TABLE_SCHEMA_MAPPING_ROWKEY"

def classesKey : String := "TABLE_SCHEMA_MAPPING_TYPES"

/-- The mapping of a spec over the given class tags. -/
def ofTags (spec : TableSpec) (hasKeys : Bool) (tags : ClassTags) : Outcome SchemaMapping :=
  match spec.unsupported? with
  | some c => Outcome.fail (.unsupportedColumn c.name c.type.text)
  | none => .ok ⟨hasKeys, spec.columns.filterMap (·.type.primitive?), tags⟩

/-- The mapping of a spec, no class having a tag yet. -/
def create (spec : TableSpec) (hasKeys : Bool) (serializers : SerializerRegistry) :
    Outcome SchemaMapping :=
  ofTags spec hasKeys (ClassTags.empty serializers)

/-- The physical columns. -/
def schema (m : SchemaMapping) : Schema :=
  (if m.hasKeys then [.rowKey] else []) ++ m.primitives.map .data

/-- The number of physical columns before the first data column. -/
def keyColumns (m : SchemaMapping) : Nat := if m.hasKeys then 1 else 0

/-- Describe the class tags in a settings tree. -/
def saveTags (tags : ClassTags) (s : Settings) : Settings := s.addStrings classesKey tags.classes

/-- Describe the mapping in a settings tree. -/
def save (m : SchemaMapping) (s : Settings) : Settings :=
  (saveTags m.tags s).addBool keysKey m.hasKeys

/-- Class tags for classes that must all have a serializer. -/
def loadClasses (tags : ClassTags) : List String → Outcome ClassTags
  | [] => return tags
  | c :: cs => do
    let _ ← tags.serializers.get c
    loadClasses (← tags.insert c) cs

/-- The class tags described in a settings tree. -/
def loadTags (serializers : SerializerRegistry) (s : Settings) : Outcome ClassTags := do
  loadClasses (ClassTags.empty serializers) (← s.getStrings classesKey)

/-- The mapping of a spec that is described in a settings tree. -/
def load (spec : TableSpec) (serializers : SerializerRegistry) (s : Settings) :
    Outcome SchemaMapping := do
  let hasKeys ← s.getBool keysKey
  ofTags spec hasKeys (← loadTags serializers s)

end SchemaMapping

end Columnar
