import Columnar.Cursor.Read
import Columnar.Error
import Columnar.Table.Mapping

/-!
# Row iterators

**Rows.** A row is a sequence of cells with an optional key. The cells of a row read from a table are
decoded on access, so each of them is an `Outcome`; a row put together from given cells has only
successes.

**Filters** restrict which data columns an iterator reads. Without a selection it reads all.

**Iterators** read the rows of a table one by one. How one reads depends on the filter:

- all data columns are selected: every cell is read;
- some are: the others stay unmaterialized;
- none is, and the table has row keys: only those are read;
- none is, and there are no row keys: the rows are counted off without a look at the store.

All but the last move a read cursor over the physical columns they need. `next` gives none at the
end, and otherwise a row or the reason why it could not be read. The chunks of a batch are looked up
at the cursor for every row. An iterator could keep them from the first row of a batch on: as long
as it gives rows of one batch, the cursor has the same chunks.
-/

namespace Columnar

/-! ## Rows -/

structure Row where
  key? : Option String
  outcomes : List (Outcome Cell)
deriving DecidableEq

namespace Row

/-- A row of given cells. -/
def ofCells (key? : Option String) (cells : List Cell) : Row := ⟨key?, cells.map .ok⟩

/-- The number of cells. -/
def size (r : Row) : Nat := r.outcomes.length

/-- The key, which the caller must know to be there. -/
def key (r : Row) : Outcome String :=
  match r.key? with
  | some k => .ok k
  | none => Outcome.abort .rowKeyAbsent

/-- The cell at an index. -/
def cell (r : Row) (i : Nat) : Outcome Cell :=
  match r.outcomes[i]? with
  | some c => c
  | none => Outcome.fail (.invalidColumn i)

/-- All cells, or the first failure. -/
def cells (r : Row) : Outcome (List Cell) := r.outcomes.mapM id

end Row

/-! ## Filters -/

structure ColumnFilter where
  selection? : Option Selection
deriving DecidableEq

namespace ColumnFilter

def all : ColumnFilter := ⟨none⟩

/-- Read only the given data columns. -/
def only (columns : List Nat) : ColumnFilter := ⟨some (Selection.ofList columns)⟩

/-- Check the selection against a table of `n` data columns. -/
def validate (f : ColumnFilter) (n : Nat) : Outcome Unit :=
  match f.selection?.bind (·.outside? n) with
  | some column => Outcome.fail (.invalidColumn column)
  | none => .ok ()

end ColumnFilter

/-! ## Iterators -/

/-- The fixed facts about a table. -/
structure TableInfo where
  id : Int64
  spec : TableSpec
  mapping : SchemaMapping
  /-- The number of rows. -/
  size : Nat

/-- How rows are put together from physical columns. -/
structure RowLayout where
  tags : ClassTags
  hasKeys : Bool
  /-- The physical column of every data column, none if it is not selected. -/
  columns : List (Option Nat)

inductive RowIterator
  /-- Reads the cells of all data columns, or of some. -/
  | cells (complete : Bool) (cursor : ReadCursor) (layout : RowLayout)
  /-- Reads row keys only. -/
  | keys (cursor : ReadCursor) (width : Nat)
  /-- Reads nothing. -/
  | blank (remaining width : Nat)

namespace RowIterator

variable {σ ρ : Type}

/-! ## Creation -/

/-- Whether the iterator of a filter has to read from the store. -/
def needsStore (t : TableInfo) (f : ColumnFilter) : Bool :=
  t.mapping.hasKeys || f.selection? != some .empty

/-- The physical columns of the selected data columns, and of the row key. -/
def physicalSelection (t : TableInfo) (selection : Selection) : Selection where
  columns :=
    let shifted := selection.columns.map (· + t.mapping.keyColumns)
    if t.mapping.hasKeys then 0 :: shifted else shifted
  increasing := by
    have hshifted : (selection.columns.map (· + t.mapping.keyColumns)).Pairwise (· < ·) :=
      List.pairwise_map.mpr (selection.increasing.imp fun h => Nat.add_lt_add_right h _)
    dsimp only
    split
    · rename_i hkeys
      refine List.pairwise_cons.mpr ⟨fun c hc => ?_, hshifted⟩
      obtain ⟨d, -, rfl⟩ := List.mem_map.mp hc
      simp [SchemaMapping.keyColumns, hkeys]
    · exact hshifted

/-- The layout of rows with the cells of the selected data columns. -/
def layout (t : TableInfo) (isSelected : Nat → Bool) : RowLayout where
  tags := t.mapping.tags
  hasKeys := t.mapping.hasKeys
  columns := (List.range t.spec.size).map fun c =>
    if isSelected c then some (c + t.mapping.keyColumns) else none

/-- An iterator over all data columns. -/
def ofAll (t : TableInfo) : Outcome RowIterator := do
  let cursor ← ReadCursor.create t.mapping.schema (Selection.all t.mapping.schema.length)
  return cells true cursor (layout t fun _ => true)

/-- The iterator of a filter that has been validated. -/
def ofFilter (t : TableInfo) (f : ColumnFilter) : Outcome RowIterator := do
  match f.selection? with
  | none => ofAll t
  | some selection =>
    if selection.columns.isEmpty then
      if t.mapping.hasKeys then
        return keys (← ReadCursor.create t.mapping.schema (.all 1)) t.spec.size
      else return blank t.size t.spec.size
    else if selection.columns.length < t.spec.size then
      let cursor ← ReadCursor.create t.mapping.schema (physicalSelection t selection)
      return cells false cursor (layout t selection.contains)
    else ofAll t

/-- An iterator over a table, and the store it reads from. The store is accessed only if rows are
read from it. -/
def create (t : TableInfo) (f : ColumnFilter) (access : Action σ ρ) :
    Action σ (RowIterator × Option ρ) := do
  f.validate t.spec.size
  let store? ← if needsStore t f then some <$> access else pure none
  return (← ofFilter t f, store?)

/-! ## Iteration -/

/-- Whether there is a next row. -/
def hasNext (it : RowIterator) (r : ChunkReader σ) (s : σ) : Bool :=
  match it with
  | cells _ c _ | keys c _ => c.canForward r s
  | blank remaining _ => 0 < remaining

/-- The text in a row key column at the current row. -/
def readKey (c : ReadCursor) : Outcome String := do
  let (source, row) ← c.get 0
  source.chunk.getText row

/-- The cells of the current row, each decoded on its own. -/
def readCells (c : ReadCursor) (tags : ClassTags) :
    List (Option Nat) → Outcome (List (Outcome Cell))
  | [] => return []
  | none :: columns => return .ok .unmaterialized :: (← readCells c tags columns)
  | some column :: columns => do
    let (source, row) ← c.get column
    return source.cell tags row :: (← readCells c tags columns)

/-- The row a cursor is at. -/
def readRow (l : RowLayout) (c : ReadCursor) : Outcome Row := do
  let key? ← if l.hasKeys then some <$> readKey c else pure none
  return ⟨key?, ← readCells c l.tags l.columns⟩

/-- Move a cursor to the next row and read it. -/
def step (r : ChunkReader σ) (read : ReadCursor → Outcome Row) : Action (ReadCursor × σ) Row := do
  ReadCursor.forward r
  let (c, _) ← Action.get
  read c

/-- A row of cells that were not read. -/
def blankRow (key? : Option String) (width : Nat) : Row :=
  ⟨key?, List.replicate width (.ok .unmaterialized)⟩

/-- The row a cursor is at, with its key alone. -/
def readKeyRow (width : Nat) (c : ReadCursor) : Outcome Row :=
  return blankRow (some (← readKey c)) width

/-- The next row, none at the end. -/
def next (r : ChunkReader σ) : Action (RowIterator × σ) (Option Row) := do
  let (it, s) ← Action.get
  if !it.hasNext r s then return none
  else
    match it with
    | cells complete c l =>
      let row ← (step r (readRow l)).on (fun (_, s) => (c, s))
        fun (c, s) _ => (cells complete c l, s)
      return some row
    | keys c width =>
      let row ← (step r (readKeyRow width)).on (fun (_, s) => (c, s))
        fun (c, s) _ => (keys c width, s)
      return some row
    | blank remaining width =>
      Action.set (blank (remaining - 1) width, s)
      return some (blankRow none width)

/-- Up to `limit` rows, and the failure that ended the run before. -/
def take (r : ChunkReader σ) : (limit : Nat) → Action (RowIterator × σ) (List Row × Option Failure)
  | 0 => return ([], none)
  | limit + 1 => do
    match ← (next r).attempt with
    | .ok none => return ([], none)
    | .ok (some row) =>
      let (rows, failure) ← take r limit
      return (row :: rows, failure)
    | .error failure => return ([], some failure)

/-- A limit that the number of rows left does not exceed. -/
def atMost (it : RowIterator) (r : ChunkReader σ) (s : σ) : Nat :=
  match it with
  | blank remaining _ => remaining
  | _ => r.totalRows s

/-- Least and, if known, greatest number of rows left. -/
def sizeHint : RowIterator → Nat × Option Nat
  | blank remaining _ => (remaining, some remaining)
  | _ => (0, none)

/-- Give up the cursor. -/
def close : RowIterator → RowIterator
  | cells complete c l => cells complete c.close l
  | keys c width => keys c.close width
  | blank _ width => blank 0 width

end RowIterator

end Columnar
