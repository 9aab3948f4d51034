import Columnar.Proofs.Cursor.Moves
import Columnar.Proofs.Cursor.Slots
import Columnar.Proofs.Cursor.Stored

/-!
# Reading rows in order

**Readers** (`ChunkReader.Shows`). A reader shows some batches while an invariant of its state
holds: it gives their number, their row counts and their chunks, and reading a chunk keeps the
invariant. How the chunks are kept, and what else reading does to the state, does not matter.

**Positions** (`remaining`). The rows behind a position are those of the batch it is in, from the
next one on, and then those of all later batches. The position that a cursor moves to has the first
of them, and the others behind it (`nextPosition?_cases`). What a row is taken to be does not matter
here: only that the reader counts them (`ChunkReader.Counts`), as it does if it shows batches of as
many rows (`BatchesCount`).

**Moving on** (`Advances`). A cursor with rows behind it goes to the first of them, or stays where it
is because the batch of that row cannot be read (`forward_advances`).

Main result: `forward_spec`, if the reader shows the batches the cursor does go there, and then has
all its selected cells at hand.
-/

namespace Columnar

variable {σ α : Type}

/-- While the invariant `I` holds, the reader gives the contents of the batches. -/
structure ChunkReader.Shows (r : ChunkReader σ) (I : σ → Prop) (bs : List Batch) : Prop where
  batchCount : ∀ {s}, I s → r.batchCount s = bs.length
  rowCount : ∀ {s}, I s → ∀ i, r.rowCount s i = (bs[i]?.map Batch.rowCount).getD 0
  readChunk : ∀ {s}, I s → ∀ {i j : Nat} {b : Batch} {c : Chunk}, bs[i]? = some b →
    b.chunks[j]? = some c → ∃ s', r.readChunk i j s = (.ok c, s') ∧ I s'

/-- In this state the reader counts the rows of the groups, batch by batch. -/
structure ChunkReader.Counts (r : ChunkReader σ) (s : σ) (groups : List (List α)) : Prop where
  batchCount : r.batchCount s = groups.length
  rowCount : ∀ i, r.rowCount s i = (groups[i]?.getD []).length

/-- The batches have `width` columns, and as many rows as there are in the groups. -/
structure BatchesCount (width : Nat) (bs : List Batch) (groups : List (List α)) : Prop where
  length_eq : bs.length = groups.length
  batch : ∀ {i : Nat} {b : Batch} {rows : List α}, bs[i]? = some b → groups[i]? = some rows →
    b.rowCount = rows.length ∧ b.chunks.length = width

theorem BatchesHold.count {schema : Schema} {tags : ClassTags} {bs : List Batch} {groups : Groups}
    (h : BatchesHold schema tags bs groups) : BatchesCount schema.length bs groups :=
  ⟨h.length_eq, fun hb hg => ⟨(h.batch hb hg).rowCount_eq, (h.batch hb hg).shapes.length_eq⟩⟩

theorem batchesCount_nil : BatchesCount (α := α) 0 [] [] :=
  ⟨rfl, fun h => by cases h⟩

theorem ChunkReader.Shows.counts {r : ChunkReader σ} {I : σ → Prop} {bs : List Batch} {width : Nat}
    {groups : List (List α)} {s : σ} (hr : r.Shows I bs) (hb : BatchesCount width bs groups)
    (hs : I s) : r.Counts s groups where
  batchCount := (hr.batchCount hs).trans hb.length_eq
  rowCount i := by
    rw [hr.rowCount hs]
    cases hi : bs[i]? with
    | none =>
      have hle : bs.length ≤ i := List.getElem?_eq_none_iff.mp hi
      rw [List.getElem?_eq_none (hb.length_eq ▸ hle)]
      rfl
    | some b =>
      have hlt : i < groups.length := hb.length_eq ▸ (List.getElem?_eq_some_iff.mp hi).1
      have hg : groups[i]? = some groups[i] := List.getElem?_eq_getElem hlt
      rw [hg]
      exact (hb.batch hi hg).1

namespace ReadCursor

/-! ## Positions -/

/-- The rows behind a position. -/
def remaining (groups : List (List α)) : Option (Nat × Nat) → List α
  | none => groups.flatten
  | some (batch, row) =>
    (groups[batch]?.getD []).drop (row + 1) ++ (groups.drop (batch + 1)).flatten

/-- The row at a position. -/
def rowAt? (groups : List (List α)) (p : Nat × Nat) : Option α := (groups[p.1]?.getD [])[p.2]?

variable {r : ChunkReader σ} {I : σ → Prop} {bs : List Batch} {schema : Schema} {tags : ClassTags}
  {width : Nat} {groups : List (List α)} {s : σ}

theorem rowAt?_eq_some {p : Nat × Nat} {row : α} :
    rowAt? groups p = some row ↔ ∃ rows, groups[p.1]? = some rows ∧ rows[p.2]? = some row := by
  unfold rowAt?
  cases groups[p.1]? <;> simp

/-- More rows at the end are behind every position in the batches before. -/
theorem remaining_append {position? : Option (Nat × Nat)}
    (h : ∀ p, position? = some p → p.1 < groups.length) (rows : List α) :
    remaining (groups ++ [rows]) position? = remaining groups position? ++ rows := by
  cases position? with
  | none => simp [remaining]
  | some p =>
    have hlt := h p rfl
    simp only [remaining, List.getElem?_append_left hlt, List.append_assoc]
    rw [List.drop_append_of_le_length hlt, List.flatten_append, List.flatten_singleton]

/-- The first batch with rows, and what lies behind its first row. -/
theorem firstNonEmpty?_eq (hcount : ∀ i, r.rowCount s i = (groups[i]?.getD []).length) (n : Nat)
    (batch : Nat) (hn : n = groups.length - batch) :
    ((groups.drop batch).flatten = [] ∧ r.firstNonEmpty? s n batch = none) ∨
    ∃ b row rest, r.firstNonEmpty? s n batch = some b ∧ groups[b]? = some (row :: rest) ∧
      (groups.drop batch).flatten = row :: (rest ++ (groups.drop (b + 1)).flatten) := by
  induction n generalizing batch with
  | zero =>
    left
    rw [List.drop_eq_nil_of_le (by omega)]
    exact ⟨rfl, rfl⟩
  | succ n ih =>
    have hlt : batch < groups.length := by omega
    have hg : groups[batch]? = some groups[batch] := List.getElem?_eq_getElem hlt
    have hrows := hcount batch
    rw [hg, Option.getD_some] at hrows
    rw [List.drop_eq_getElem_cons hlt, List.flatten_cons, ChunkReader.firstNonEmpty?, hrows]
    cases hrow : groups[batch] with
    | nil =>
      simpa using ih (batch + 1) (by omega)
    | cons row rest =>
      right
      refine ⟨batch, row, rest, by simp, hrow ▸ hg, rfl⟩

theorem nextBatch?_eq (h : r.Counts s groups) (batch : Nat) :
    ((groups.drop batch).flatten = [] ∧ r.nextBatch? s batch = none) ∨
    ∃ b row rest, r.nextBatch? s batch = some b ∧ groups[b]? = some (row :: rest) ∧
      (groups.drop batch).flatten = row :: (rest ++ (groups.drop (b + 1)).flatten) := by
  rw [ChunkReader.nextBatch?, h.batchCount]
  exact firstNonEmpty?_eq h.rowCount _ batch rfl

theorem exists_batch (hb : BatchesCount width bs groups) {p : Nat × Nat} {row : α}
    (h : rowAt? groups p = some row) :
    ∃ batch, bs[p.1]? = some batch ∧ batch.chunks.length = width := by
  obtain ⟨rows, hg, -⟩ := rowAt?_eq_some.mp h
  have hlt : p.1 < bs.length := hb.length_eq ▸ (List.getElem?_eq_some_iff.mp hg).1
  have hbatch : bs[p.1]? = some bs[p.1] := List.getElem?_eq_getElem hlt
  exact ⟨bs[p.1], hbatch, (hb.batch hbatch hg).2⟩

/-- Where a cursor moves to: to the next row of its batch, or to the first row of a later one. -/
theorem nextPosition?_cases (h : r.Counts s groups) (position? : Option (Nat × Nat)) :
    (remaining groups position? = [] ∧ sameBatch? r s position? = none ∧
      nextBatch? r s position? = none) ∨
    (∃ b i row rest, sameBatch? r s position? = some (b, i + 1) ∧ position? = some (b, i) ∧
      rowAt? groups (b, i + 1) = some row ∧ remaining groups position? = row :: rest ∧
      remaining groups (some (b, i + 1)) = rest) ∨
    (∃ b row rest, sameBatch? r s position? = none ∧ nextBatch? r s position? = some b ∧
      rowAt? groups (b, 0) = some row ∧ remaining groups position? = row :: rest ∧
      remaining groups (some (b, 0)) = rest) := by
  -- where the batch has no further row the cursor goes to a later one
  have hlater : ∀ batch, sameBatch? r s position? = none →
      nextBatch? r s position? = r.nextBatch? s batch →
      remaining groups position? = (groups.drop batch).flatten →
      (remaining groups position? = [] ∧ sameBatch? r s position? = none ∧
        nextBatch? r s position? = none) ∨
      ∃ b row rest, sameBatch? r s position? = none ∧ nextBatch? r s position? = some b ∧
        rowAt? groups (b, 0) = some row ∧ remaining groups position? = row :: rest ∧
        remaining groups (some (b, 0)) = rest := by
    intro batch hsame hnext hrest
    rw [hnext, hrest]
    obtain ⟨hnil, hnone⟩ | ⟨b, row, rest, hsome, hg, hcons⟩ := nextBatch?_eq h batch
    · exact .inl ⟨hnil, hsame, hnone⟩
    · refine .inr ⟨b, row, rest ++ (groups.drop (b + 1)).flatten, hsame, hsome, ?_, hcons, ?_⟩
      · simp [rowAt?, hg]
      · simp [remaining, hg]
  cases position? with
  | none => exact (hlater 0 rfl rfl rfl).imp id .inr
  | some p =>
    obtain ⟨b, i⟩ := p
    have hcount := h.rowCount b
    by_cases hlt : i + 1 < r.rowCount s b
    · rw [hcount] at hlt
      refine .inr (.inl ⟨b, i, (groups[b]?.getD [])[i + 1], _, ?_, rfl, ?_, ?_, rfl⟩)
      · rw [sameBatch?, if_pos (hcount ▸ hlt)]
      · exact List.getElem?_eq_getElem hlt
      · rw [remaining, List.drop_eq_getElem_cons hlt]
        rfl
    · have hend : (groups[b]?.getD []).drop (i + 1) = [] :=
        List.drop_eq_nil_of_le (by omega)
      have hnone : sameBatch? r s (some (b, i)) = none := by rw [sameBatch?, if_neg hlt]
      exact (hlater (b + 1) hnone rfl (by rw [remaining, hend, List.nil_append])).imp id .inr

/-! ## Moving a cursor -/

/-- The cursor reads the selected columns of the batches, and `rest` are the rows behind it. -/
structure Before (schema : Schema) (selection : Selection) (bs : List Batch)
    (groups : List (List α)) (c : ReadCursor) (rest : List α) : Prop where
  schema_eq : c.schema = schema
  selection_eq : c.selection = selection
  open_eq : c.closed = false
  rest_eq : remaining groups c.position? = rest
  loaded : ∀ {b i : Nat}, c.position? = some (b, i) → ∃ batch, bs[b]? = some batch ∧
    c.chunks.map some = selection.columns.map (batch.chunks[·]?)

/-- The cursor is at a row. -/
def OnRow (groups : List (List α)) (c : ReadCursor) (row : α) : Prop :=
  ∃ p, c.position? = some p ∧ rowAt? groups p = some row

theorem create_of_lt {selection : Selection} (h : ∀ j ∈ selection.columns, j < schema.length) :
    create schema selection = .ok ⟨schema, selection, [], none, false⟩ := by
  have hout : selection.outside? schema.length = none := by
    rw [Selection.outside?, List.find?_eq_none]
    intro j hj
    simpa using h j hj
  rw [create, hout]

theorem create_before {selection : Selection} (h : ∀ j ∈ selection.columns, j < schema.length)
    (bs : List Batch) (groups : List (List α)) :
    ∃ c, create schema selection = .ok c ∧ c.Before schema selection bs groups groups.flatten :=
  ⟨_, create_of_lt h, rfl, rfl, rfl, rfl, fun h => by cases h⟩

theorem canForward_nil (h : r.Counts s groups) {c : ReadCursor}
    (hrest : remaining groups c.position? = []) : c.canForward r s = false := by
  obtain ⟨-, hsame, hnext⟩ | ⟨_, _, _, _, -, -, -, hcons, -⟩ | ⟨_, _, _, -, -, -, hcons, -⟩ :=
    nextPosition?_cases h c.position?
  · simp [canForward, hsame, hnext]
  · rw [hrest] at hcons
    cases hcons
  · rw [hrest] at hcons
    cases hcons

theorem canForward_cons (h : r.Counts s groups) {c : ReadCursor} (hopen : c.closed = false)
    {row : α} {rest : List α} (hrest : remaining groups c.position? = row :: rest) :
    c.canForward r s = true := by
  obtain ⟨hnil, -⟩ | ⟨_, _, _, _, hsame, -⟩ | ⟨_, _, _, -, hnext, -⟩ :=
    nextPosition?_cases h c.position?
  · rw [hrest] at hnil
    cases hnil
  · simp [canForward, hopen, hsame]
  · simp [canForward, hopen, hnext]

theorem forward_nil (h : r.Counts s groups) {c : ReadCursor} (hopen : c.closed = false)
    (hrest : remaining groups c.position? = []) :
    forward r (c, s) = (Outcome.fail (.illegalState .pastLastRow), (c, s)) := by
  have hcan := canForward_nil h hrest
  have hmoved := forward_moved r c s
  generalize forward r (c, s) = result at hmoved
  cases hmoved with
  | closed hclosed => rw [hopen] at hclosed; cases hclosed
  | ended _ _ _ => rfl
  | within _ hsame => simp [canForward, hopen, hsame] at hcan
  | entered _ _ hnext _ => simp [canForward, hopen, hnext] at hcan
  | refused _ _ hnext _ => simp [canForward, hopen, hnext] at hcan

/-- What moving a cursor can do that has rows behind it: to go to the first of them, or to stay
where it is because the batch of that row cannot be read. -/
inductive Advances (r : ChunkReader σ) (groups : List (List α)) (c : ReadCursor) (s : σ) (row : α)
    (rest : List α) : Outcome Unit × (ReadCursor × σ) → Prop
  | within {b i : Nat} (hp : c.position? = some (b, i)) (hrow : rowAt? groups (b, i + 1) = some row)
    (hrest : remaining groups (some (b, i + 1)) = rest) :
    Advances r groups c s row rest (.ok (), ({ c with position? := some (b, i + 1) }, s))
  | entered {b : Nat} {chunks : List Chunk} {s' : σ} (hrow : rowAt? groups (b, 0) = some row)
    (hrest : remaining groups (some (b, 0)) = rest)
    (hloads : Loads r b c.selection.columns chunks s s') :
    Advances r groups c s row rest
      (.ok (), ({ c with chunks := chunks, position? := some (b, 0) }, s'))
  | refused {b : Nat} {before : List Nat} {column : Nat} {chunks : List Chunk} {e : Failure}
    {s' : σ} (hsame : sameBatch? r s c.position? = none) (hnext : nextBatch? r s c.position? = some b)
    (hrow : rowAt? groups (b, 0) = some row)
    (hstops : StopsAt r b c.selection.columns before column chunks e s s') :
    Advances r groups c s row rest (.error e, ({ c with chunks := chunks }, s'))

/-- **Moving on** goes by the rows that the reader counts. -/
theorem forward_advances (h : r.Counts s groups) {c : ReadCursor} (hopen : c.closed = false)
    {row : α} {rest : List α} (hrest : remaining groups c.position? = row :: rest) :
    Advances r groups c s row rest (forward r (c, s)) := by
  have hmoved := forward_moved r c s
  obtain ⟨hnil, -, -⟩ | ⟨b, i, row', rest', hsame, hp, hrow, hcons, htail⟩ |
      ⟨b, row', rest', hsame, hnext, hrow, hcons, htail⟩ := nextPosition?_cases h c.position?
  · -- there are rows behind the cursor
    rw [hrest] at hnil
    cases hnil
  · rw [hrest] at hcons
    cases hcons
    generalize forward r (c, s) = result at hmoved
    cases hmoved with
    | closed hclosed => rw [hopen] at hclosed; cases hclosed
    | ended _ hsame' _ => rw [hsame] at hsame'; cases hsame'
    | within _ hsame' => rw [hsame] at hsame'; cases hsame'; exact .within hp hrow htail
    | entered _ hsame' _ _ => rw [hsame] at hsame'; cases hsame'
    | refused _ hsame' _ _ => rw [hsame] at hsame'; cases hsame'
  · rw [hrest] at hcons
    cases hcons
    generalize forward r (c, s) = result at hmoved
    cases hmoved with
    | closed hclosed => rw [hopen] at hclosed; cases hclosed
    | ended _ _ hnext' => rw [hnext] at hnext'; cases hnext'
    | within _ hsame' => rw [hsame] at hsame'; cases hsame'
    | entered _ _ hnext' hloads =>
      rw [hnext] at hnext'
      cases hnext'
      exact .entered hrow htail hloads
    | refused _ _ hnext' hstops =>
      rw [hnext] at hnext'
      cases hnext'
      exact .refused hsame hnext hrow hstops

theorem Loads.shows (hr : r.Shows I bs) {i : Nat} {b : Batch} (hi : bs[i]? = some b)
    {columns : List Nat} {chunks : List Chunk} {s s' : σ} (h : Loads r i columns chunks s s')
    (hcolumns : ∀ j ∈ columns, j < b.chunks.length) (hs : I s) :
    I s' ∧ chunks.map some = columns.map (b.chunks[·]?) := by
  induction h with
  | nil => exact ⟨hs, rfl⟩
  | @cons j columns chunk chunks s₁ s₂ s₃ hread _ ih =>
    have hlt := hcolumns j List.mem_cons_self
    have hj : b.chunks[j]? = some b.chunks[j] := List.getElem?_eq_getElem hlt
    obtain ⟨s', hread', hs'⟩ := hr.readChunk hs hi hj
    cases hread.symm.trans hread'
    obtain ⟨hs₃, heq⟩ := ih (fun k hk => hcolumns k (List.mem_cons_of_mem j hk)) hs'
    exact ⟨hs₃, by rw [List.map_cons, List.map_cons, heq, hj]⟩

theorem StopsAt.not_shows (hr : r.Shows I bs) {i : Nat} {b : Batch} (hi : bs[i]? = some b)
    {columns before : List Nat} {column : Nat} {chunks : List Chunk} {e : Failure} {s s' : σ}
    (h : StopsAt r i columns before column chunks e s s')
    (hcolumns : ∀ j ∈ columns, j < b.chunks.length) (hs : I s) : False := by
  obtain ⟨after, rfl⟩ := h.split
  obtain ⟨s₁, hloads, hfailed⟩ := h.failed
  have hs₁ := (hloads.shows hr hi (fun j hj => hcolumns j (List.mem_append_left _ hj)) hs).1
  have hlt := hcolumns column (List.mem_append_right before List.mem_cons_self)
  have hj : b.chunks[column]? = some b.chunks[column] := List.getElem?_eq_getElem hlt
  obtain ⟨s₂, hread, -⟩ := hr.readChunk hs₁ hi hj
  cases hfailed.symm.trans hread

/-- **A cursor moves to the next row** if there is one. -/
theorem forward_spec {selection : Selection} {c : ReadCursor} (hr : r.Shows I bs)
    (hb : BatchesCount width bs groups) (hsel : ∀ j ∈ selection.columns, j < width)
    (hs : I s) {row : α} {rest : List α}
    (hc : c.Before schema selection bs groups (row :: rest)) :
    ∃ c' s', forward r (c, s) = (.ok (), (c', s')) ∧ I s' ∧
      c'.Before schema selection bs groups rest ∧ c'.OnRow groups row := by
  have hadvances := forward_advances (hr.counts hb hs) hc.open_eq hc.rest_eq
  generalize forward r (c, s) = result at hadvances
  cases hadvances with
  | within hp hrow htail =>
    refine ⟨_, s, rfl, hs, ⟨hc.schema_eq, hc.selection_eq, hc.open_eq, htail, fun h => ?_⟩,
      ⟨_, rfl, hrow⟩⟩
    cases h
    exact hc.loaded hp
  | @entered b chunks s' hrow htail hloads =>
    obtain ⟨batch, hbatch, hwidth⟩ := exists_batch hb hrow
    rw [hc.selection_eq] at hloads
    obtain ⟨hs', heq⟩ := hloads.shows hr hbatch (fun j hj => hwidth ▸ hsel j hj) hs
    refine ⟨_, s', rfl, hs', ⟨hc.schema_eq, hc.selection_eq, hc.open_eq, htail, fun h => ?_⟩,
      ⟨_, rfl, hrow⟩⟩
    cases h
    exact ⟨batch, hbatch, heq⟩
  | refused _ _ hrow hstops =>
    obtain ⟨batch, hbatch, hwidth⟩ := exists_batch hb hrow
    rw [hc.selection_eq] at hstops
    exact (hstops.not_shows hr hbatch (fun j hj => hwidth ▸ hsel j hj) hs).elim

theorem get_eq {selection : Selection} {c : ReadCursor} {rest : List α}
    (hc : c.Before schema selection bs groups rest) {b i : Nat} (hp : c.position? = some (b, i))
    {batch : Batch} (hbatch : bs[b]? = some batch) {j : Nat} {column : PhysicalColumn}
    {chunk : Chunk} (hsel : j ∈ selection.columns) (hj : schema[j]? = some column)
    (hchunk : batch.chunks[j]? = some chunk) : c.get j = .ok (⟨column, chunk⟩, i) := by
  obtain ⟨batch', hbatch', hloaded⟩ := hc.loaded hp
  obtain rfl : batch = batch' := Option.some.inj (hbatch.symm.trans hbatch')
  obtain ⟨slot, hslot⟩ := List.getElem?_of_mem hsel
  have hget : c.chunks[slot]? = some chunk := by
    have h : (c.chunks.map some)[slot]? = some (some chunk) := by
      rw [hloaded, List.getElem?_map, hslot, Option.map_some, hchunk]
    rw [List.getElem?_map, Option.map_eq_some_iff] at h
    obtain ⟨chunk', hchunk', hsome⟩ := h
    rw [hchunk', hsome]
  rw [← hc.schema_eq] at hj
  rw [← hc.selection_eq] at hslot
  rw [get_of_slot hp hj hslot, hget]
  rfl

theorem get_spec {groups : Groups} {selection : Selection} {c : ReadCursor}
    (hb : BatchesHold schema tags bs groups) {rest : List RowOutcomes}
    (hc : c.Before schema selection bs groups rest) {cells : RowOutcomes}
    (hrow : c.OnRow groups cells) {j : Nat} {column : PhysicalColumn} {cell : Outcome Cell}
    (hsel : j ∈ selection.columns) (hj : schema[j]? = some column) (hcell : cells[j]? = some cell) :
    ∃ chunk i, c.get j = .ok (⟨column, chunk⟩, i) ∧ column.Holds tags i chunk cell := by
  obtain ⟨⟨b, i⟩, hp, hrow⟩ := hrow
  obtain ⟨batch, hbatch, -⟩ := hc.loaded hp
  obtain ⟨rows, hg, hrow⟩ := rowAt?_eq_some.mp hrow
  have hholds := hb.batch hbatch hg
  obtain ⟨chunk, hchunk, -⟩ := hholds.shapes.exists_chunk hj
  exact ⟨chunk, i, get_eq hc hp hbatch hsel hj hchunk, (hholds.row hrow).holds hj hchunk hcell⟩

end ReadCursor

end Columnar
