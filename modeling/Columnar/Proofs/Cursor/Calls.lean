import Columnar.Proofs.Cursor.Agreement
import Columnar.Proofs.Cursor.Failure
import Columnar.Proofs.Cursor.Order

/-!
# Calls on a read cursor

**Calls** (`ReadCursor.Call`). The user of a cursor moves it, asks for its position, for its
selection or for the access to a column, and closes it, in any order. An abort ends the call it
happens in and no other.

**Chunks that can be read** (`ChunksRead`). A reader can be made to note whether all the chunks that
it was asked for could be read (`ChunkReader.watched`). It agrees with the reader it is made of.

**The past of a cursor** (`Used`). What matters of the calls so far is whether one of them closed
the cursor and whether one moved it. An open cursor that was moved has a chunk for every selected
column, a closed one has none, and keeps its position.

Main result: `get_after_calls`. An access to a column does not ask whether the cursor is closed, so
after closing it at a row there is no chunk for it (`get_after_close_aborts`).
-/

namespace Columnar

variable {σ : Type}

namespace ChunkReader

/-- The reader with a note whether all chunks that it was asked for could be read. -/
def watched (r : ChunkReader σ) : ChunkReader (σ × Bool) where
  batchCount p := r.batchCount p.1
  rowCount p := r.rowCount p.1
  readChunk batch column := fun (s, good) =>
    let (o, s) := r.readChunk batch column s
    (o, (s, good && o.isOk))

variable {r : ChunkReader σ}

theorem agree_watched (r : ChunkReader σ) (wanted : Nat → Prop) :
    r.watched.Agree r wanted fun p s => p.1 = s where
  batchCount h := congrArg r.batchCount h
  rowCount h := congrArg r.rowCount h
  readChunk batch column _ := by
    rintro p _ rfl
    exact ⟨rfl, rfl⟩

theorem watched_keeps (r : ChunkReader σ) : r.watched.Keeps fun p => p.2 = false := by
  rintro batch column ⟨s, good⟩ (rfl : good = false)
  rfl

end ChunkReader

namespace ReadCursor

/-! ## Calls -/

/-- What the user of a cursor asks for. -/
inductive Call
  | forward
  | get (column : Nat)
  | isSelected (column : Nat)
  | position
  | close
deriving DecidableEq

/-- What a call answers. -/
inductive Reply
  | moved (o : Outcome Unit)
  | cell (o : Outcome (CellSource × Nat))
  | selected (yes : Bool)
  | position (p : Option (Nat × Nat))
  | closed

/-- Perform a call on a cursor. -/
def perform (r : ChunkReader σ) (call : Call) (c : ReadCursor) (s : σ) :
    Reply × (ReadCursor × σ) :=
  match call with
  | .forward =>
    let (o, x) := forward r (c, s)
    (.moved o, x)
  | .get column => (.cell (c.get column), (c, s))
  | .isSelected column => (.selected (c.isSelected column), (c, s))
  | .position => (.position c.position?, (c, s))
  | .close => (.closed, (c.close, s))

/-- Perform calls one after the other. -/
def performAll (r : ChunkReader σ) : List Call → ReadCursor × σ → List Reply × (ReadCursor × σ)
  | [], x => ([], x)
  | call :: calls, (c, s) =>
    let (reply, x) := perform r call c s
    let (replies, x) := performAll r calls x
    (reply :: replies, x)

/-- All chunks that the calls ask for can be read. -/
def ChunksRead (r : ChunkReader σ) (calls : List Call) (c : ReadCursor) (s : σ) : Prop :=
  (performAll r.watched calls (c, (s, true))).2.2.2 = true

variable {r : ChunkReader σ} {c c' : ReadCursor} {s s' : σ} {schema : Schema}
  {selection : Selection} {calls : List Call} {replies : List Reply}

theorem performAll_cons (call : Call) :
    performAll r (call :: calls) (c, s) =
      ((perform r call c s).1 :: (performAll r calls (perform r call c s).2).1,
        (performAll r calls (perform r call c s).2).2) := rfl

/-! ## The run that takes the note -/

/-- A call asks for the same chunks and answers the same, whether a note is taken or not. -/
theorem perform_watched (r : ChunkReader σ) (call : Call) (c : ReadCursor) (p : σ × Bool) :
    (perform r.watched call c p).1 = (perform r call c p.1).1 ∧
      (perform r.watched call c p).2.1 = (perform r call c p.1).2.1 ∧
      (perform r.watched call c p).2.2.1 = (perform r call c p.1).2.2 := by
  cases call with
  | forward =>
    obtain ⟨ho, hc, hs⟩ := forward_agrees (c := c) (r.agree_watched fun _ => True)
      (fun _ _ => trivial) (rfl : p.1 = p.1)
    exact ⟨congrArg Reply.moved ho, hc, hs⟩
  | get column => exact ⟨rfl, rfl, rfl⟩
  | isSelected column => exact ⟨rfl, rfl, rfl⟩
  | position => exact ⟨rfl, rfl, rfl⟩
  | close => exact ⟨rfl, rfl, rfl⟩

theorem cursor_performAll_watched (r : ChunkReader σ) (calls : List Call) (c : ReadCursor)
    (p : σ × Bool) :
    (performAll r.watched calls (c, p)).2.1 = (performAll r calls (c, p.1)).2.1 := by
  induction calls generalizing c p with
  | nil => rfl
  | cons call calls ih =>
    obtain ⟨-, hc, hs⟩ := perform_watched r call c p
    rw [performAll_cons, performAll_cons]
    show (performAll r.watched calls (_, _)).2.1 = (performAll r calls (_, _)).2.1
    rw [ih, hc, hs]

theorem perform_watched_false (call : Call) {x : ReadCursor × (σ × Bool)} (h : x.2.2 = false) :
    (perform r.watched call x.1 x.2).2.2.2 = false := by
  cases call with
  | forward => exact keeps_forward r.watched_keeps x h
  | get column => exact h
  | isSelected column => exact h
  | position => exact h
  | close => exact h

theorem performAll_watched_false {x : ReadCursor × (σ × Bool)} (h : x.2.2 = false) :
    (performAll r.watched calls x).2.2.2 = false := by
  induction calls generalizing x with
  | nil => exact h
  | cons call calls ih => exact ih (perform_watched_false call h)

theorem StopsAt.note_eq {batch column : Nat} {columns before : List Nat} {chunks : List Chunk}
    {e : Failure} {p p' : σ × Bool}
    (h : StopsAt r.watched batch columns before column chunks e p p') : p'.2 = false := by
  obtain ⟨⟨s₁, good⟩, -, hfailed⟩ := h.failed
  simp only [ChunkReader.watched, Prod.mk.injEq] at hfailed
  obtain ⟨hfailed, rfl⟩ := hfailed
  simp [hfailed]

theorem ChunksRead.cons {call : Call} (h : ChunksRead r (call :: calls) c s) :
    (perform r.watched call c (s, true)).2.2.2 = true ∧
      ChunksRead r calls (perform r call c s).2.1 (perform r call c s).2.2 := by
  obtain ⟨-, hc, hs⟩ := perform_watched r call c (s, true)
  rw [ChunksRead, performAll_cons] at h
  rw [ChunksRead, ← hc, ← hs]
  rcases hp : perform r.watched call c (s, true) with ⟨reply, c₁, s₁, good⟩
  rw [hp] at h
  cases good with
  | true => exact ⟨rfl, h⟩
  | false => exact absurd h (by simp [performAll_watched_false])

/-! ## The past of a cursor -/

/-- The cursor as the calls have left it that were answered so. -/
structure Used (schema : Schema) (selection : Selection) (calls : List Call)
    (replies : List Reply) (c : ReadCursor) : Prop where
  schema_eq : c.schema = schema
  selection_eq : c.selection = selection
  closed_iff : c.closed = true ↔ .close ∈ calls
  onRow_iff : c.position? ≠ none ↔ .moved (.ok ()) ∈ replies
  loaded : c.closed = false → c.position? ≠ none →
    c.chunks.length = selection.columns.length
  givenUp : c.closed = true → c.chunks = []
  returns : ∀ o, .moved o ∈ replies → o.Returns

theorem used_create (h : create schema selection = .ok c) : Used schema selection [] [] c := by
  rw [create_of_lt (within_of_create h)] at h
  cases h
  exact ⟨rfl, rfl, by simp, by simp, by simp, by simp, by simp⟩

theorem Used.same (h : Used schema selection calls replies c) {call : Call} {reply : Reply}
    (hcall : call ≠ .close) (hreply : ∀ o, reply ≠ .moved o) :
    Used schema selection (calls ++ [call]) (replies ++ [reply]) c where
  schema_eq := h.schema_eq
  selection_eq := h.selection_eq
  closed_iff := by simp [h.closed_iff, hcall.symm]
  onRow_iff := by simp [h.onRow_iff, (hreply _).symm]
  loaded := h.loaded
  givenUp := h.givenUp
  returns o ho := h.returns o (by simpa [(hreply o).symm] using ho)

theorem Used.close (h : Used schema selection calls replies c) :
    Used schema selection (calls ++ [.close]) (replies ++ [.closed]) c.close := by
  have hclose : c.close = { c with chunks := [], closed := true } := by
    unfold ReadCursor.close
    cases hclosed : c.closed with
    | false => rfl
    | true =>
      have hchunks := h.givenUp hclosed
      cases c
      simp_all
  rw [hclose]
  exact ⟨h.schema_eq, h.selection_eq, by simp, by simpa using h.onRow_iff, by simp, by simp,
    by simpa using h.returns⟩

theorem Used.refuse (h : Used schema selection calls replies c) (e : Error) :
    Used schema selection (calls ++ [.forward]) (replies ++ [.moved (Outcome.fail e)]) c where
  schema_eq := h.schema_eq
  selection_eq := h.selection_eq
  closed_iff := by simp [h.closed_iff]
  onRow_iff := by simp [h.onRow_iff, Outcome.fail]
  loaded := h.loaded
  givenUp := h.givenUp
  returns o ho := by
    rcases List.mem_append.mp ho with ho | ho
    · exact h.returns o ho
    · cases List.mem_singleton.mp ho
      trivial

theorem Used.move (h : Used schema selection calls replies c) (hopen : c.closed = false)
    {chunks : List Chunk} {p : Nat × Nat} (hchunks : chunks.length = selection.columns.length) :
    Used schema selection (calls ++ [.forward]) (replies ++ [.moved (.ok ())])
      { c with chunks := chunks, position? := some p } where
  schema_eq := h.schema_eq
  selection_eq := h.selection_eq
  closed_iff := by simp [h.closed_iff]
  onRow_iff := by simp
  loaded _ _ := hchunks
  givenUp hclosed := by rw [hopen] at hclosed; cases hclosed
  returns o ho := by
    rcases List.mem_append.mp ho with ho | ho
    · exact h.returns o ho
    · cases List.mem_singleton.mp ho
      trivial

/-- **One call** for which all chunks could be read. -/
theorem Used.perform (h : Used schema selection calls replies c) (call : Call) {p : σ × Bool}
    (hread : (perform r.watched call c p).2.2.2 = true) :
    Used schema selection (calls ++ [call])
      (replies ++ [(ReadCursor.perform r.watched call c p).1])
      (ReadCursor.perform r.watched call c p).2.1 := by
  cases call with
  | get column => exact h.same (by simp) (by simp [ReadCursor.perform])
  | isSelected column => exact h.same (by simp) (by simp [ReadCursor.perform])
  | position => exact h.same (by simp) (by simp [ReadCursor.perform])
  | close => exact h.close
  | forward =>
    have hmoved := forward_moved r.watched c p
    simp only [ReadCursor.perform] at hread ⊢
    generalize ReadCursor.forward r.watched (c, p) = result at hmoved hread
    cases hmoved with
    | closed hclosed => exact h.refuse _
    | ended hopen hsame hnext => exact h.refuse _
    | within hopen hsame =>
      have hrow : c.position? ≠ none := by
        intro hnone
        rw [hnone] at hsame
        cases hsame
      exact h.move hopen (h.loaded hopen hrow)
    | entered hopen hsame hnext hloads =>
      rw [h.selection_eq] at hloads
      exact h.move hopen hloads.length_eq
    -- a chunk that could not be read would have been noted
    | refused hopen hsame hnext hstops =>
      cases hstops.note_eq.symm.trans hread

/-- **Any calls** for which all chunks could be read. -/
theorem Used.performAll {past : List Call} {answers : List Reply}
    (h : Used schema selection past answers c) (hread : ChunksRead r calls c s)
    (hrun : ReadCursor.performAll r calls (c, s) = (replies, (c', s'))) :
    Used schema selection (past ++ calls) (answers ++ replies) c' := by
  induction calls generalizing past answers replies c s with
  | nil =>
    cases hrun
    simpa using h
  | cons call calls ih =>
    obtain ⟨hfirst, hrest⟩ := hread.cons
    obtain ⟨hreply, hc, -⟩ := perform_watched r call c (s, true)
    have hstep := h.perform call hfirst
    rw [hreply, hc] at hstep
    rw [performAll_cons, Prod.mk.injEq] at hrun
    obtain ⟨rfl, hx⟩ := hrun
    simpa using ih hstep hrest (Prod.ext rfl hx)

/-! ## Access -/

/-- What an access to a column comes to, whatever the calls before. -/
theorem Used.get (h : Used schema selection calls replies c)
    (hschema : ∀ j ∈ selection.columns, j < schema.length) (column : Nat) :
    (¬ (.moved (.ok ()) ∈ replies ∧ column ∈ selection.columns) ∧
      ∃ e, c.get column = Outcome.fail e) ∨
    (.moved (.ok ()) ∈ replies ∧ column ∈ selection.columns ∧ .close ∉ calls ∧
      ∃ cell, c.get column = .ok cell) ∨
    (.moved (.ok ()) ∈ replies ∧ column ∈ selection.columns ∧ .close ∈ calls ∧
      c.get column = Outcome.abort .outOfRange) := by
  rw [← h.onRow_iff, ← h.closed_iff, ← h.selection_eq]
  rw [← h.selection_eq, ← h.schema_eq] at hschema
  rcases hp : c.position? with _ | ⟨b, row⟩
  · exact .inl ⟨fun h => h.1 rfl, _, by rw [ReadCursor.get, hp]⟩
  by_cases hsel : column ∈ c.selection.columns
  · obtain ⟨k, hk⟩ := List.getElem?_of_mem hsel
    have hget := get_of_slot hp (List.getElem?_eq_getElem (hschema column hsel)) hk
    refine .inr ?_
    cases hclosed : c.closed with
    | true =>
      rw [h.givenUp hclosed] at hget
      exact .inr ⟨by simp, hsel, rfl, hget⟩
    | false =>
      have hlt : k < c.chunks.length := by
        rw [h.loaded hclosed (by simp [hp]), ← h.selection_eq]
        exact (List.getElem?_eq_some_iff.mp hk).1
      rw [List.getElem?_eq_getElem hlt] at hget
      exact .inl ⟨by simp, hsel, by simp, _, hget⟩
  · refine .inl ⟨fun h => hsel h.2, ?_⟩
    rcases Nat.lt_or_ge column c.schema.length with hlt | hge
    · exact ⟨_, get_of_unselected hp hlt hsel⟩
    · exact ⟨_, get_of_outside hp hge⟩

/-- **Using a read cursor.** Take any calls on a new cursor for which all chunks can be read.

- Moving the cursor never aborts, and it is at a row once it was moved.
- The access to a column succeeds if the cursor was moved, has not been closed, and the column is
  selected.
- It aborts if the cursor was moved, has been closed, and the column is selected.
- It fails with an error if the cursor was not moved or the column is not selected. -/
theorem get_after_calls (hcreate : create schema selection = .ok c) (hread : ChunksRead r calls c s)
    (hrun : performAll r calls (c, s) = (replies, (c', s'))) (column : Nat) :
    (∀ o, .moved o ∈ replies → o.Returns) ∧
    (c'.position? ≠ none ↔ .moved (.ok ()) ∈ replies) ∧
    ((c'.get column).isOk = true ↔
      .moved (.ok ()) ∈ replies ∧ .close ∉ calls ∧ column ∈ selection.columns) ∧
    (c'.get column = Outcome.abort .outOfRange ↔
      .moved (.ok ()) ∈ replies ∧ .close ∈ calls ∧ column ∈ selection.columns) ∧
    ((∃ e, c'.get column = Outcome.fail e) ↔
      ¬ (.moved (.ok ()) ∈ replies ∧ column ∈ selection.columns)) := by
  have hused : Used schema selection calls replies c' := (used_create hcreate).performAll hread hrun
  refine ⟨hused.returns, hused.onRow_iff, ?_⟩
  obtain ⟨hnot, e, hget⟩ | ⟨hmoved, hsel, hclose, cell, hget⟩ | ⟨hmoved, hsel, hclose, hget⟩ :=
    hused.get (within_of_create hcreate) column
  · rw [hget]
    exact ⟨⟨nofun, fun h => absurd ⟨h.1, h.2.2⟩ hnot⟩, ⟨nofun, fun h => absurd ⟨h.1, h.2.2⟩ hnot⟩,
      ⟨fun _ => hnot, fun _ => ⟨e, rfl⟩⟩⟩
  · rw [hget]
    exact ⟨⟨fun _ => ⟨hmoved, hclose, hsel⟩, fun _ => rfl⟩, ⟨nofun, fun h => absurd h.2.1 hclose⟩,
      ⟨nofun, fun h => absurd ⟨hmoved, hsel⟩ h⟩⟩
  · rw [hget]
    exact ⟨⟨nofun, fun h => absurd hclose h.2.1⟩, ⟨fun _ => ⟨hmoved, hclose, hsel⟩, fun _ => rfl⟩,
      ⟨nofun, fun h => absurd ⟨hmoved, hsel⟩ h⟩⟩

/-- A cursor over the first column of two batches. The last chunk of the second column, which cannot
be read, is not asked for. -/
def sampleNarrow : ReadCursor := ⟨[.rowKey, .rowKey], .ofList [0], [], none, false⟩

/-- The cursor is moved to the end and over it, with other calls between. -/
def sampleCalls : List Call :=
  [.get 0, .forward, .isSelected 1, .forward, .get 0, .position, .forward, .get 1]

theorem get_after_calls_sample :
    create [.rowKey, .rowKey] (.ofList [0]) = .ok sampleNarrow ∧
    ChunksRead sampleTorn sampleCalls sampleNarrow () ∧
    ((performAll sampleTorn sampleCalls (sampleNarrow, ())).2.1.get 0).isOk = true ∧
    (∃ e, (performAll sampleTorn sampleCalls (sampleNarrow, ())).2.1.get 1 = Outcome.fail e) ∧
    ChunksRead sampleTorn (sampleCalls ++ [.close, .close]) sampleNarrow () ∧
    (performAll sampleTorn (sampleCalls ++ [.close, .close]) (sampleNarrow, ())).2.1.get 0 =
      Outcome.abort .outOfRange := by
  have hcreate : create [.rowKey, .rowKey] (.ofList [0]) = .ok sampleNarrow := rfl
  have hread : ChunksRead sampleTorn sampleCalls sampleNarrow () := rfl
  have hclose : ChunksRead sampleTorn (sampleCalls ++ [.close, .close]) sampleNarrow () := rfl
  obtain ⟨-, -, hok, -, -⟩ := get_after_calls hcreate hread rfl 0
  obtain ⟨-, -, -, -, hfail⟩ := get_after_calls hcreate hread rfl 1
  obtain ⟨-, -, -, habort, -⟩ := get_after_calls hcreate hclose rfl 0
  refine ⟨hcreate, hread, hok.mpr ⟨?_, by decide, by decide⟩, hfail.mpr fun h => ?_, hclose,
    habort.mpr ⟨?_, by decide, by decide⟩⟩
  · exact List.mem_of_getElem? (i := 1) rfl
  · exact absurd h.2 (by decide)
  · exact List.mem_of_getElem? (i := 1) rfl

/-- **An access to a selected column aborts** if the cursor was closed at a row, here at the first
of three keys in a store in memory. -/
theorem get_after_close_aborts :
    ∃ c₀ replies c s, create [.rowKey] (.all 1) = .ok c₀ ∧
      sampleKeys.Written [.plain .rowKey] .none ∧
      ChunksRead MemoryStore.reader [.forward, .close] c₀ sampleKeys ∧
      performAll MemoryStore.reader [.forward, .close] (c₀, sampleKeys) = (replies, (c, s)) ∧
      c.position? = some (0, 0) ∧ c.closed = true ∧ c.isSelected 0 = true ∧
      c.get 0 = Outcome.abort .outOfRange ∧ ¬ (c.get 0).Returns :=
  ⟨_, _, _, _, rfl, .write .empty _ (uniform_keyBatch _), rfl, rfl, rfl, rfl, rfl, rfl, fun h => h⟩

end ReadCursor

end Columnar
