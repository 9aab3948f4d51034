import Columnar.Proofs.Chunk.Uniform
import Columnar.Proofs.Cursor.Moves
import Columnar.Proofs.Cursor.Slots

/-!
# Cursors over any chunks

**Readers** (`ChunkReader.Delivers`). A reader delivers batches of some row counts while an
invariant of its state holds: whatever chunk is asked for, the answer is an error or a chunk with
that many slots. Of what the slots hold, and of which columns there are, nothing is said.

**Cursors** (`ReadCursor.Fit`). A cursor whose next row is in the batch it is in has the chunks of
that batch. At the last row of a batch nothing is said of its chunks, since a move from there may
have failed halfway. So the invariant holds of a cursor that was refused and is moved again.

Main results: `forward_delivers`, a move keeps the invariant and ends at a row whose chunks are at
hand or in an error; and `get_meets`, the access to a column at such a row.
-/

namespace Columnar

variable {σ : Type} {r : ChunkReader σ} {I : σ → Prop} {rows : Nat → Nat} {s s' : σ}

/-- While the invariant `I` holds, the batches have these row counts, and reading a chunk gives one
of that many slots or an error. -/
structure ChunkReader.Delivers (r : ChunkReader σ) (I : σ → Prop) (rows : Nat → Nat) : Prop where
  rowCount : ∀ {s}, I s → r.rowCount s = rows
  readChunk : ∀ {s}, I s → ∀ batch column,
    (r.readChunk batch column s).1.Meets (Chunk.Uniform (rows batch))
  keeps : r.Keeps I

namespace ReadCursor

/-- There is a chunk of `n` slots for every selected column. -/
structure Loaded (n : Nat) (c : ReadCursor) : Prop where
  length_eq : c.chunks.length = c.selection.columns.length
  uniform : ∀ chunk ∈ c.chunks, chunk.Uniform n

/-- As long as the next row is in the batch of the cursor, the cursor has the chunks of that
batch. -/
def Fit (rows : Nat → Nat) (c : ReadCursor) : Prop :=
  ∀ b i, c.position? = some (b, i) → i + 1 < rows b → c.Loaded (rows b)

/-- The cursor is at a row and has the chunks of its batch. -/
def AtRow (rows : Nat → Nat) (c : ReadCursor) : Prop :=
  ∃ b i, c.position? = some (b, i) ∧ i < rows b ∧ c.Loaded (rows b)

variable {c : ReadCursor}

theorem AtRow.fit (h : c.AtRow rows) : c.Fit rows := by
  intro b i hp _
  obtain ⟨b', i', hp', -, hloaded⟩ := h
  cases hp.symm.trans hp'
  exact hloaded

/-! ## Moving -/

theorem Loads.uniform (hr : r.Delivers I rows) {batch : Nat} {columns : List Nat}
    {chunks : List Chunk} (h : Loads r batch columns chunks s s') (hs : I s) :
    ∀ chunk ∈ chunks, chunk.Uniform (rows batch) := by
  induction h with
  | nil => exact fun _ h => absurd h List.not_mem_nil
  | @cons column columns chunk chunks s₁ s₂ s₃ hread _ ih =>
    have hkeeps := hr.keeps batch column s₁ hs
    rw [hread] at hkeeps
    intro d hd
    rcases List.mem_cons.mp hd with rfl | hd
    · exact (hr.readChunk hs batch column).of_eq_ok (congrArg Prod.fst hread)
    · exact ih hkeeps d hd

theorem StopsAt.returns (hr : r.Delivers I rows) {batch column : Nat} {columns before : List Nat}
    {chunks : List Chunk} {e : Failure} (h : StopsAt r batch columns before column chunks e s s')
    (hs : I s) : Outcome.Returns (.error e : Outcome Unit) := by
  obtain ⟨s₁, hloads, hfailed⟩ := h.failed
  have hread := (hr.readChunk (hloads.keeps hr.keeps hs) batch column).returns
  rw [hfailed] at hread
  exact hread.error

theorem lt_of_sameBatch? {position? : Option (Nat × Nat)} {b i : Nat}
    (h : sameBatch? r s position? = some (b, i)) :
    ∃ i', position? = some (b, i') ∧ i = i' + 1 ∧ i' + 1 < r.rowCount s b := by
  rcases position? with _ | ⟨batch, row⟩
  · cases h
  · by_cases hlt : row + 1 < r.rowCount s batch
    · rw [sameBatch?, if_pos hlt] at h
      cases h
      exact ⟨row, rfl, rfl, hlt⟩
    · rw [sameBatch?, if_neg hlt] at h
      cases h

theorem pos_of_firstNonEmpty? {n start b : Nat} (h : r.firstNonEmpty? s n start = some b) :
    0 < r.rowCount s b := by
  induction n generalizing start with
  | zero => cases h
  | succ n ih =>
    unfold ChunkReader.firstNonEmpty? at h
    split at h
    · cases h
      assumption
    · exact ih h

theorem pos_of_nextBatch? {position? : Option (Nat × Nat)} {b : Nat}
    (h : nextBatch? r s position? = some b) : 0 < r.rowCount s b := by
  cases position? <;> exact pos_of_firstNonEmpty? h

/-- At the last row of a batch the chunks do not matter. -/
theorem fit_of_sameBatch?_none (hrows : r.rowCount s = rows)
    (h : sameBatch? r s c.position? = none) : c.Fit rows := by
  intro b i hp hlt
  rw [hp, sameBatch?, hrows, if_pos hlt] at h
  cases h

/-- **A move** ends at a row whose chunks are at hand or in an error, and keeps the cursor fit. -/
theorem forward_delivers (hr : r.Delivers I rows) (hc : c.Fit rows) (hs : I s) :
    (forward r (c, s)).1.Returns ∧ (forward r (c, s)).2.1.Fit rows ∧
      ((forward r (c, s)).1 = .ok () → (forward r (c, s)).2.1.AtRow rows) := by
  have hrows := hr.rowCount hs
  have hmoved := forward_moved r c s
  generalize forward r (c, s) = result at hmoved
  cases hmoved with
  | closed _ => exact ⟨trivial, hc, fun h => by cases h⟩
  | ended _ _ _ => exact ⟨trivial, hc, fun h => by cases h⟩
  | @within p _ hsame =>
    obtain ⟨i, hp, hi, hlt⟩ := lt_of_sameBatch? hsame
    rw [hrows] at hlt
    have hloaded := hc _ i hp hlt
    have hrow : ({ c with position? := some p } : ReadCursor).AtRow rows :=
      ⟨p.1, p.2, rfl, hi ▸ hlt, hloaded.length_eq, hloaded.uniform⟩
    exact ⟨trivial, hrow.fit, fun _ => hrow⟩
  | @entered batch chunks s' _ _ hnext hloads =>
    have hpos := pos_of_nextBatch? hnext
    rw [hrows] at hpos
    have hrow :
        ({ c with chunks := chunks, position? := some (batch, 0) } : ReadCursor).AtRow rows :=
      ⟨batch, 0, rfl, hpos, hloads.length_eq, hloads.uniform hr hs⟩
    exact ⟨trivial, hrow.fit, fun _ => hrow⟩
  | refused _ hsame _ hstops =>
    exact ⟨hstops.returns hr hs, fit_of_sameBatch?_none hrows hsame, fun h => by cases h⟩

/-! ## Access -/

/-- **At a row every column** has a chunk with a slot for the row, or is refused with an error. -/
theorem get_meets (h : c.AtRow rows) (column : Nat) :
    (c.get column).Meets fun p => ∃ n, p.1.chunk.Uniform n ∧ p.2 < n := by
  obtain ⟨b, i, hp, hi, hloaded⟩ := h
  rcases Nat.lt_or_ge column c.schema.length with hlt | hge
  · by_cases hsel : column ∈ c.selection.columns
    · obtain ⟨slot, hslot⟩ := List.getElem?_of_mem hsel
      have hloaded' : slot < c.chunks.length :=
        hloaded.length_eq ▸ (List.getElem?_eq_some_iff.mp hslot).1
      rw [get_of_slot hp (List.getElem?_eq_getElem hlt) hslot, List.getElem?_eq_getElem hloaded']
      exact ⟨rows b, hloaded.uniform _ (List.getElem_mem hloaded'), hi⟩
    · rw [get_of_unselected hp hlt hsel]
      trivial
  · rw [get_of_outside hp hge]
    trivial

end ReadCursor

end Columnar
