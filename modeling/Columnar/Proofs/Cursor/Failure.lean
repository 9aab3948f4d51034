import Columnar.Proofs.Cursor.Moves
import Columnar.Proofs.Cursor.Slots

/-!
# Moves that fail

Main result: `forward_failed`, what a move that fails leaves of the cursor. It stays at its row, but
if it was to enter another batch its chunks are those of that batch, as far as they were read. So at
a row no selected column has the access it had before (`Torn`).
-/

namespace Columnar.ReadCursor

variable {σ : Type} {r : ChunkReader σ} {batch : Nat} {c c' : ReadCursor} {s s' : σ} {e : Failure}

/-- Away from the rows, and in the columns that are not selected, the chunks do not matter. -/
theorem get_of_not_selected {j : Nat} (h : c.position? = none ∨ j ∉ c.selection.columns)
    (chunks : List Chunk) : ({ c with chunks := chunks } : ReadCursor).get j = c.get j := by
  obtain hp | ⟨⟨b, row⟩, hp⟩ := Option.eq_none_or_eq_some c.position?
  · simp only [get, hp]
  have hsel : j ∉ c.selection.columns := h.resolve_left (by simp [hp])
  have hp' : ({ c with chunks := chunks } : ReadCursor).position? = some (b, row) := hp
  rcases Nat.lt_or_ge j c.schema.length with hlt | hge
  · rw [get_of_unselected hp hlt hsel, get_of_unselected hp' hlt hsel]
  · rw [get_of_outside hp hge, get_of_outside hp' hge]

theorem le_of_firstNonEmpty? {n start b : Nat} (h : r.firstNonEmpty? s n start = some b) :
    start ≤ b := by
  induction n generalizing start with
  | zero => cases h
  | succ n ih =>
    unfold ChunkReader.firstNonEmpty? at h
    split at h
    · cases h
      exact Nat.le_refl _
    · exact Nat.le_of_succ_le (ih h)

theorem lt_of_nextBatch? {b row : Nat} (hp : c.position? = some (b, row))
    (h : nextBatch? r s c.position? = some batch) : b < batch := by
  rw [hp] at h
  exact le_of_firstNonEmpty? h

/-- What is at hand at a row after the batch behind it could not be entered. The columns that were
read have chunks of that batch, which are taken for those of the row. The others have none, and an
access to them ends the run. -/
structure Torn (c c' : ReadCursor) (before : List Nat) (chunks : List Chunk) (row : Nat) :
    Prop where
  replaced : ∀ {j k : Nat} {column : PhysicalColumn} {chunk : Chunk}, before[k]? = some j →
    chunks[k]? = some chunk → c.schema[j]? = some column → c'.get j = .ok (⟨column, chunk⟩, row)
  lost : ∀ {j : Nat}, j ∈ c.selection.columns → j ∉ before → j < c.schema.length →
    c'.get j = Outcome.abort .outOfRange

theorem torn_of_stopsAt {columns before : List Nat} {column : Nat} {chunks : List Chunk}
    {b row : Nat} (hcolumns : columns = c.selection.columns) (hp : c.position? = some (b, row))
    (h : StopsAt r batch columns before column chunks e s s') :
    Torn c { c with chunks := chunks } before chunks row := by
  subst hcolumns
  obtain ⟨after, hsplit⟩ := h.split
  obtain ⟨s₁, hloads, -⟩ := h.failed
  refine ⟨fun {j k access chunk} hk hchunk hj => ?_, fun {j} hsel hnot hlt => ?_⟩
  · have hslot : c.selection.columns[k]? = some j := by
      rw [hsplit, List.getElem?_append_left (List.getElem?_eq_some_iff.mp hk).1, hk]
    rw [get_of_slot (c := { c with chunks := chunks }) hp hj hslot, hchunk]
    rfl
  · obtain ⟨k, hk⟩ := List.getElem?_of_mem hsel
    have hge : chunks.length ≤ k := by
      rw [hloads.length_eq]
      refine Nat.le_of_not_lt fun hlt' => ?_
      rw [hsplit, List.getElem?_append_left hlt'] at hk
      exact hnot (List.mem_of_getElem? hk)
    rw [get_of_slot (c := { c with chunks := chunks }) hp (List.getElem?_eq_getElem hlt) hk,
      List.getElem?_eq_none hge]
    rfl

/-- **A move that fails** leaves the cursor at its row, and the columns that are not selected as
they were.

If there is no row to move to, nothing else has changed either. Otherwise the next row is in another
batch, one of whose chunks cannot be read. The cursor is left with the chunks of that batch in the
selected columns before the failing one, and with none in the others; if it was at a row, these take
the place of the chunks of the row. -/
theorem forward_failed (h : forward r (c, s) = (.error e, (c', s'))) :
    c'.position? = c.position? ∧
    (∀ j, c.position? = none ∨ j ∉ c.selection.columns → c'.get j = c.get j) ∧
    ((c' = c ∧ s' = s ∧ c.canForward r s = false) ∨
      ∃ batch before column chunks, sameBatch? r s c.position? = none ∧
        nextBatch? r s c.position? = some batch ∧
        StopsAt r batch c.selection.columns before column chunks e s s' ∧
        c' = { c with chunks := chunks } ∧
        ∀ b row, c.position? = some (b, row) → b < batch ∧ Torn c c' before chunks row) := by
  have hmoved := forward_moved r c s
  rw [h] at hmoved
  cases hmoved with
  | closed hclosed => exact ⟨rfl, fun _ _ => rfl, .inl ⟨rfl, rfl, by simp [canForward, hclosed]⟩⟩
  | ended hopen hsame hnext =>
    exact ⟨rfl, fun _ _ => rfl, .inl ⟨rfl, rfl, by simp [canForward, hsame, hnext]⟩⟩
  | @refused batch before column chunks _ _ hopen hsame hnext hstops =>
    refine ⟨rfl, fun j hj => get_of_not_selected hj chunks,
      .inr ⟨batch, before, column, chunks, hsame, hnext, hstops, rfl, fun b row hp => ?_⟩⟩
    exact ⟨lt_of_nextBatch? hp hnext, torn_of_stopsAt rfl hp hstops⟩

/-- A chunk of one row key. -/
def keyChunk (key : Bytes) : Chunk := .plain .rowKey (.ofList [⟨key, false⟩])

/-- Two batches of one row in two columns. The last chunk cannot be read. -/
def sampleTorn : ChunkReader Unit where
  batchCount _ := 2
  rowCount _ batch := if batch < 2 then 1 else 0
  readChunk batch column := Action.ofOutcome <|
    if batch = 0 then .ok (keyChunk [0x61])
    else if column = 0 then .ok (keyChunk [0x62])
    else Outcome.fail .io

/-- A new cursor over both columns. -/
def sampleCursor : ReadCursor := ⟨[.rowKey, .rowKey], .all 2, [], none, false⟩

/-- The cursor at the first row. -/
def sampleFirst : ReadCursor :=
  ⟨[.rowKey, .rowKey], .all 2, [keyChunk [0x61], keyChunk [0x61]], some (0, 0), false⟩

/-- The cursor after it could not move on. -/
def sampleStuck : ReadCursor :=
  ⟨[.rowKey, .rowKey], .all 2, [keyChunk [0x62]], some (0, 0), false⟩

theorem forward_sampleFirst : forward sampleTorn (sampleFirst, ()) =
    (Outcome.fail .io, (sampleStuck, ())) := rfl

theorem forward_failed_sample : forward sampleTorn (sampleFirst, ()) =
      (Outcome.fail .io, (sampleStuck, ())) ∧
    ∃ batch before chunks, nextBatch? sampleTorn () sampleFirst.position? = some batch ∧
      sampleStuck = { sampleFirst with chunks := chunks } ∧ 0 < batch ∧
      Torn sampleFirst sampleStuck before chunks 0 := by
  refine ⟨forward_sampleFirst, ?_⟩
  obtain ⟨-, -, ⟨-, -, hend⟩ | ⟨batch, before, column, chunks, -, hnext, -, heq, hrow⟩⟩ :=
    forward_failed forward_sampleFirst
  · cases hend
  · exact ⟨batch, before, chunks, hnext, heq, hrow 0 0 rfl⟩

/-- **A failed move may pair the row with the chunk of another batch**, and take away the access to
a column. -/
theorem failed_move_mixes_batches :
    create [.rowKey, .rowKey] (.all 2) = .ok sampleCursor ∧
    forward sampleTorn (sampleCursor, ()) = (.ok (), (sampleFirst, ())) ∧
    forward sampleTorn (sampleFirst, ()) = (Outcome.fail .io, (sampleStuck, ())) ∧
    sampleStuck.position? = some (0, 0) ∧
    sampleTorn.readChunk 0 0 () = (.ok (keyChunk [0x61]), ()) ∧
    sampleTorn.readChunk 1 0 () = (.ok (keyChunk [0x62]), ()) ∧
    sampleFirst.get 0 = .ok (⟨.rowKey, keyChunk [0x61]⟩, 0) ∧
    sampleStuck.get 0 = .ok (⟨.rowKey, keyChunk [0x62]⟩, 0) ∧
    sampleFirst.get 0 ≠ sampleStuck.get 0 ∧
    sampleFirst.get 1 = .ok (⟨.rowKey, keyChunk [0x61]⟩, 0) ∧
    sampleStuck.get 1 = Outcome.abort .outOfRange := by
  refine ⟨rfl, rfl, rfl, rfl, rfl, rfl, rfl, rfl, fun h => ?_, rfl, rfl⟩
  have h : keyChunk [0x61] = keyChunk [0x62] := congrArg (·.1.chunk) (Except.ok.inj h)
  have hvalue := congrArg (·.getBytes 0) h
  cases hvalue

end Columnar.ReadCursor
