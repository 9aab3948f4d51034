import Columnar.Cursor.Write
import Columnar.Table.Iterator

/-!
# Row containers

A row container takes the rows of a new table one by one, until it is closed, and counts them. A
row is refused if it does not fit the table, or if one of its cells cannot be read or written; in
the latter case the part of it that was written is rolled back.

The rows go into a memory store, which is part of the state of the actions here.
-/

namespace Columnar

structure Container where
  id : Int64
  spec : TableSpec
  mapping : SchemaMapping
  /-- The cursor that rows are written with, none once the container is closed. -/
  cursor? : Option WriteCursor
  /-- The number of rows taken. -/
  size : Nat

namespace Container

/-- A container for a table, and the store it fills. -/
def create (id : Int64) (spec : TableSpec) (mapping : SchemaMapping) (options : StoreOptions) :
    Outcome (Container × MemoryStore) := do
  let cursor ← WriteCursor.create mapping.schema options.chunkSize
  let store := MemoryStore.empty mapping.schema.specs options.checksum
  return (⟨id, spec, mapping, some cursor, 0⟩, store)

/-- The key under which a row is stored, none if the table has no row keys. -/
def keyOf (c : Container) (row : Row) : Outcome (Option String) :=
  if c.mapping.hasKeys then
    match row.key? with
    | some key => .ok (some key)
    | none => Outcome.fail (.illegalState .rowWithoutKey)
  else .ok none

/-- Write cells into the current row from a column on. -/
def writeCells : (column : Nat) → List (Outcome Cell) → Action (WriteState × ClassTags) Unit
  | _, [] => return ()
  | column, outcome :: outcomes => do
    let cell ← outcome
    WriteCursor.writeCell column cell
    writeCells (column + 1) outcomes

/-- Write key and cells into the current row. -/
def writeRow (key? : Option String) (row : Row) : Action (WriteState × ClassTags) Unit := do
  match key? with
  | none => writeCells 0 row.outcomes
  | some key =>
    (WriteCursor.write 0 fun chunk i => chunk.setText i key).on Prod.fst
      fun t (_, tags) => (t, tags)
    writeCells 1 row.outcomes

/-- Write key and cells into a new row, which is dropped again if that fails. -/
def appendRow (key? : Option String) (row : Row) : Action (WriteState × ClassTags) Unit := do
  WriteCursor.forward.on Prod.fst fun t (_, tags) => (t, tags)
  match ← (writeRow key? row).attempt with
  | .ok () => return ()
  | .error (.abort a) => Outcome.abort a
  | .error (.error e) =>
    WriteCursor.dropRow.on Prod.fst fun t (_, tags) => (t, tags)
    Action.fail e

/-- The container after its cursor and class tags have changed. -/
def update (c : Container) (cursor? : Option WriteCursor) (tags : ClassTags) : Container :=
  { c with cursor? := cursor?, mapping := { c.mapping with tags := tags } }

/-- Take a row. -/
def add (row : Row) : Action (Container × MemoryStore) Unit := do
  let (c, _) ← Action.get
  match c.cursor? with
  | none => Action.fail (.closed .rowContainer)
  | some cursor =>
    if row.size ≠ c.spec.size then
      Action.fail (.illegalState (.rowWidth row.size c.spec.size))
    else
      let key? ← c.keyOf row
      (appendRow key? row).on (fun (c, s) => (⟨cursor, s⟩, c.mapping.tags))
        fun (t, tags) (c, _) => (c.update (some t.cursor) tags, t.store)
      Action.modify fun (c, s) => ({ c with size := c.size + 1 }, s)

/-- Take no more rows. Only the first call has an effect. -/
def close : Action (Container × MemoryStore) Unit := do
  let (c, _) ← Action.get
  match c.cursor? with
  | none => return ()
  | some cursor =>
    WriteCursor.close.on (fun (_, s) => ⟨cursor, s⟩)
      fun t (c, _) => (c.update none c.mapping.tags, t.store)

/-- Take no more rows and give up those taken. An error is dropped. -/
def clear : Action (Container × MemoryStore) Unit := do
  close.quietly
  Action.modify fun (c, s) => (c, s.close)

/-- The table of the rows taken. -/
def info (c : Container) : TableInfo := ⟨c.id, c.spec, c.mapping, c.size⟩

end Container

end Columnar
