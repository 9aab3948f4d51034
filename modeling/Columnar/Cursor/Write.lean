import Columnar.Column.Access
import Columnar.Store.Memory

/-!
# Write cursors

A write cursor fills batches of a fixed number of rows and hands each full one to a store. Rows
begin with `forward` and are written column by column; a column that is not written is missing.
`rollback` drops the current row. `close` hands over the rows of the last batch.

**The open batch** has one chunk for every column, made for as many rows as a batch can have, and
the number of rows that have begun, of which the last is the current one. Dropping a row resets its
slots, and the next row uses them again. Slots that no row has used are cut off when the batch is
handed over. It is full only when the next row begins, so the last row can still be dropped.
-/

namespace Columnar

structure WriteCursor where
  schema : Schema
  /-- Rows per batch. -/
  chunkSize : Nat
  /-- The chunks of the open batch, none until it has a row. -/
  chunks? : Option (List Chunk)
  /-- The rows of the open batch, including the current row. -/
  rowsInBatch : Nat
  closed : Bool

/-- A cursor and the store it writes to. -/
structure WriteState where
  cursor : WriteCursor
  store : MemoryStore

/-- The slot of a column at the current row. -/
structure WriteValue where
  access : PhysicalColumn
  chunk : Chunk
  index : Nat

namespace WriteCursor

def create (schema : Schema) (chunkSize : Nat) : Outcome WriteCursor :=
  if 0 < chunkSize then .ok ⟨schema, chunkSize, none, 0, false⟩
  else Outcome.abort .chunkSizeZero

/-- Hand the rows of the open batch to the store. If the store refuses them, they are lost. -/
def flush : Action WriteState Unit := do
  let ⟨c, s⟩ ← Action.get
  match c.chunks? with
  | none => return ()
  | some chunks =>
    Action.set ⟨{ c with chunks? := none, rowsInBatch := 0 }, s⟩
    if c.rowsInBatch = 0 then return ()
    else
      let batch ← Batch.ofChunks c.rowsInBatch (chunks.map (·.truncate c.rowsInBatch))
      (MemoryStore.write batch).on WriteState.store fun s t => { t with store := s }

/-- The chunks of the open batch, which are made if there are none. -/
def openChunks (c : WriteCursor) : Outcome (List Chunk) :=
  match c.chunks? with
  | some chunks => .ok chunks
  | none => c.schema.specs.mapM (·.create c.chunkSize)

/-- Begin a new row in the open batch. -/
def beginRow : Action WriteState Unit := do
  let ⟨c, s⟩ ← Action.get
  let chunks ← c.openChunks
  Action.set ⟨{ c with chunks? := some chunks, rowsInBatch := c.rowsInBatch + 1 }, s⟩

/-- Begin a new row. A full batch is handed over first. -/
def forward : Action WriteState Unit := do
  let ⟨c, _⟩ ← Action.get
  if c.closed then Action.fail (.closed .writeCursor)
  else
    if c.rowsInBatch = c.chunkSize then flush
    beginRow

/-- The slot of a column at the current row. -/
def get (c : WriteCursor) (column : Nat) : Outcome WriteValue :=
  match c.chunks?, c.rowsInBatch with
  | some chunks, index + 1 =>
    match chunks[column]?, c.schema[column]? with
    | some chunk, some access => .ok ⟨access, chunk, index⟩
    | _, _ => Outcome.fail (.invalidColumn column)
  | _, _ => Outcome.fail (.illegalState .notOnRow)

/-- Put back the chunk of a column. -/
def setChunk (c : WriteCursor) (column : Nat) (chunk : Chunk) : WriteCursor :=
  { c with chunks? := c.chunks?.map (·.set column chunk) }

/-- Write a plain value in the current row of a column. -/
def write (column : Nat) (f : Chunk → Nat → Outcome Chunk) : Action WriteState Unit := do
  let ⟨c, _⟩ ← Action.get
  let value ← c.get column
  let chunk ← f value.chunk value.index
  Action.modify fun t => { t with cursor := t.cursor.setChunk column chunk }

/-- Write to the slot of a column at the current row, which may hand out class tags. -/
def atSlot (column : Nat) (m : PhysicalColumn → Nat → Action WriteTarget Unit) :
    Action (WriteState × ClassTags) Unit := do
  let (⟨c, _⟩, tags) ← Action.get
  let value ← c.get column
  Action.on (fun _ => (⟨value.chunk, tags⟩ : WriteTarget))
    (fun target (t, _) => ({ t with cursor := t.cursor.setChunk column target.chunk }, target.tags))
    (m value.access value.index)

/-- Write a cell in the current row of a column. -/
def writeCell (column : Nat) (cell : Cell) : Action (WriteState × ClassTags) Unit :=
  atSlot column fun access index => access.writeCell index cell

/-- The cursor before its current row, the slots of which are reset. -/
def beforeRow (c : WriteCursor) : Outcome WriteCursor :=
  match c.chunks?, c.rowsInBatch with
  | some chunks, index + 1 => do
    return { c with chunks? := some (← chunks.mapM (·.reset index)), rowsInBatch := index }
  | _, _ => .ok c

/-- Drop the current row. The row before it, if it is of the same batch, is current again. -/
def dropRow : Action WriteState Unit := do
  let ⟨c, s⟩ ← Action.get
  Action.set ⟨← c.beforeRow, s⟩

/-- The cursor that dropping the current row leaves. -/
def rollback (c : WriteCursor) : WriteCursor :=
  match c.beforeRow with
  | .ok c => c
  | .error _ => c

/-- Hand over the rows of the last batch. Only the first call has an effect. -/
def close : Action WriteState Unit := do
  let ⟨c, s⟩ ← Action.get
  if c.closed then return ()
  else
    Action.set ⟨{ c with closed := true }, s⟩
    flush

end WriteCursor

end Columnar
