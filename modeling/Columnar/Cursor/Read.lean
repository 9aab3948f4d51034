import Columnar.Chunk.Basic
import Columnar.Column.Access

/-!
# Read cursors

A read cursor visits the rows of a store in order, batch by batch, and skips empty batches. It
starts before the first row. At a row it gives access to the selected columns through the chunks
of the row's batch, which it loads when it enters the batch.

**Selections** are strictly increasing lists of the columns that are wanted. Every selected column
has a slot, its place in the list; the slot table says which slot belongs to a column.

**Failure.** Loading the chunks of a batch goes column by column. If a chunk cannot be read, the
cursor stays at its row, but the chunks of the columns before are already those of the new batch.

**Row counts are live**: batches that are appended behind the cursor are visited too.
-/

namespace Columnar

/-! ## Selections -/

structure Selection where
  columns : List Nat
  increasing : columns.Pairwise (· < ·)
deriving DecidableEq

namespace Selection

def empty : Selection := ⟨[], .nil⟩

/-- The columns `0, …, n - 1`. -/
def all (n : Nat) : Selection := ⟨List.range n, List.pairwise_lt_range⟩

/-- Put a column into an increasing list, unless it is there. -/
def insert (column : Nat) : List Nat → List Nat
  | [] => [column]
  | c :: cs =>
    if column < c then column :: c :: cs
    else if column = c then c :: cs
    else c :: insert column cs

theorem mem_insert {column c : Nat} {cs : List Nat} :
    c ∈ insert column cs ↔ c = column ∨ c ∈ cs := by
  induction cs with
  | nil => simp [insert]
  | cons d cs ih =>
    unfold insert
    split
    · simp
    · split
      · rename_i h
        simp [h]
      · rw [List.mem_cons, ih, List.mem_cons]
        exact or_left_comm

theorem pairwise_insert (column : Nat) {cs : List Nat} (h : cs.Pairwise (· < ·)) :
    (insert column cs).Pairwise (· < ·) := by
  induction cs with
  | nil => exact List.pairwise_singleton _ _
  | cons d cs ih =>
    obtain ⟨hd, hcs⟩ := List.pairwise_cons.mp h
    unfold insert
    split
    · rename_i hlt
      refine List.pairwise_cons.mpr ⟨fun c hc => ?_, h⟩
      rcases List.mem_cons.mp hc with rfl | hc
      · exact hlt
      · exact Nat.lt_trans hlt (hd c hc)
    · split
      · exact h
      · refine List.pairwise_cons.mpr ⟨fun c hc => ?_, ih hcs⟩
        rcases mem_insert.mp hc with rfl | hc
        · omega
        · exact hd c hc

theorem pairwise_foldr_insert (columns : List Nat) :
    (columns.foldr insert []).Pairwise (· < ·) := by
  induction columns with
  | nil => exact .nil
  | cons c cs ih => exact pairwise_insert c ih

/-- The given columns, in any order and with any repetitions. -/
def ofList (columns : List Nat) : Selection :=
  ⟨columns.foldr insert [], pairwise_foldr_insert columns⟩

theorem mem_ofList {columns : List Nat} {c : Nat} : c ∈ (ofList columns).columns ↔ c ∈ columns := by
  induction columns with
  | nil => rfl
  | cons d columns ih => exact mem_insert.trans (by rw [List.mem_cons, ← ih]; rfl)

def contains (s : Selection) (column : Nat) : Bool := s.columns.contains column

/-- The first selected column that is not below `n`. -/
def outside? (s : Selection) (n : Nat) : Option Nat := s.columns.find? (n ≤ ·)

/-- Enter columns into a table, each with the next slot. -/
def enterSlots (slot : Nat) : List Nat → Array (Option Nat) → Array (Option Nat)
  | [], table => table
  | column :: columns, table =>
    enterSlots (slot + 1) columns (table.setIfInBounds column (some slot))

/-- The slot of each of `n` columns, none if it is not selected. -/
def slotTable (s : Selection) (n : Nat) : Array (Option Nat) :=
  enterSlots 0 s.columns (Array.replicate n none)

end Selection

/-! ## Cursors -/

structure ReadCursor where
  schema : Schema
  selection : Selection
  /-- The chunks loaded for the selected columns, in their order. -/
  chunks : List Chunk
  /-- Batch and row, none before the first row. -/
  position? : Option (Nat × Nat)
  closed : Bool

/-- One column of a batch, with what it takes to read its cells. -/
structure CellSource where
  column : PhysicalColumn
  chunk : Chunk

def CellSource.cell (s : CellSource) (tags : ClassTags) (i : Nat) : Outcome Cell :=
  s.column.readCell tags s.chunk i

namespace ReadCursor

variable {σ : Type}

/-- A cursor over the selected columns, which must all be in the schema. -/
def create (schema : Schema) (selection : Selection) : Outcome ReadCursor :=
  match selection.outside? schema.length with
  | some column => Outcome.fail (.invalidColumn column)
  | none => .ok ⟨schema, selection, [], none, false⟩

/-- The next row of the batch the cursor is in. -/
def sameBatch? (r : ChunkReader σ) (s : σ) : Option (Nat × Nat) → Option (Nat × Nat)
  | some (batch, row) => if row + 1 < r.rowCount s batch then some (batch, row + 1) else none
  | none => none

/-- The next batch with rows after the one the cursor is in. -/
def nextBatch? (r : ChunkReader σ) (s : σ) : Option (Nat × Nat) → Option Nat
  | some (batch, _) => r.nextBatch? s (batch + 1)
  | none => r.nextBatch? s 0

/-- Whether there is a next row. -/
def canForward (c : ReadCursor) (r : ChunkReader σ) (s : σ) : Bool :=
  !c.closed &&
    ((sameBatch? r s c.position?).isSome || (nextBatch? r s c.position?).isSome)

/-- Load the chunks of some columns of a batch one after the other. -/
def loadChunks (r : ChunkReader σ) (batch : Nat) : List Nat → Action (ReadCursor × σ) Unit
  | [] => return ()
  | column :: columns => do
    let chunk ← (r.readChunk batch column).on Prod.snd fun s (c, _) => (c, s)
    Action.modify fun (c, s) => ({ c with chunks := c.chunks ++ [chunk] }, s)
    loadChunks r batch columns

/-- Move to the next row. -/
def forward (r : ChunkReader σ) : Action (ReadCursor × σ) Unit := do
  let (c, s) ← Action.get
  if c.closed then Action.fail (.closed .readCursor)
  else
    match sameBatch? r s c.position? with
    | some p => Action.set ({ c with position? := some p }, s)
    | none =>
      match nextBatch? r s c.position? with
      | none => Action.fail (.illegalState .pastLastRow)
      | some batch =>
        Action.set ({ c with chunks := [] }, s)
        loadChunks r batch c.selection.columns
        Action.modify fun (c, s) => ({ c with position? := some (batch, 0) }, s)

/-- The slot of each column of the schema, none if it is not selected. -/
def slotTable (c : ReadCursor) : Array (Option Nat) := c.selection.slotTable c.schema.length

/-- Whether a column of the schema is selected. -/
def isSelected (c : ReadCursor) (column : Nat) : Bool := c.slotTable[column]?.join.isSome

/-- What a slot gives access to: the column that it belongs to, with the chunk in it. -/
def source (c : ReadCursor) (slot : Nat) : Outcome CellSource := do
  let chunk ← Outcome.ofIndex c.chunks[slot]?
  let column ← Outcome.ofIndex (c.selection.columns[slot]?.bind (c.schema[·]?))
  return ⟨column, chunk⟩

/-- The chunk of a selected column at the current row, and the row's index in it. -/
def get (c : ReadCursor) (column : Nat) : Outcome (CellSource × Nat) :=
  match c.position? with
  | none => Outcome.fail (.illegalState .notOnRow)
  | some (_, row) =>
    match c.slotTable[column]? with
    | none => Outcome.fail (.invalidColumn column)
    | some none => Outcome.fail (.columnNotSelected column)
    | some (some slot) => (·, row) <$> c.source slot

/-- Give up the chunks. -/
def close (c : ReadCursor) : ReadCursor :=
  if c.closed then c else { c with chunks := [], closed := true }

end ReadCursor

end Columnar
