import Columnar.Cursor.Read
import Columnar.Proofs.Action

/-!
# Moves of a cursor

A cursor that enters a batch reads one chunk for every selected column, one after the other, and any
of them may fail.

**Loading** (`Loads`, `StopsAt`). Either all columns are read, or there is a first one that fails;
the columns before it have been read by then (`loadChunks_cases`).

**Moves** (`Moved`). Everything that a move can do, whatever the reader does and wherever the cursor
is (`forward_moved`). A move does no more to the state than reading some chunks (`keeps_forward`).

**Steady readers** (`ChunkReader.Steady`). Reading a chunk may change the state of a store. A reader
is steady if it changes nothing about what there is to read.
-/

namespace Columnar

variable {σ : Type}

/-- Whatever reading a chunk does to the state, it keeps the property. -/
def ChunkReader.Keeps (r : ChunkReader σ) (P : σ → Prop) : Prop :=
  ∀ batch column, (r.readChunk batch column).Keeps P

namespace ReadCursor

variable {r : ChunkReader σ} {batch : Nat} {c : ReadCursor} {s s' : σ} {e : Failure}

/-! ## Loading -/

/-- The columns of a batch are read one after the other, which gives the chunks. -/
inductive Loads (r : ChunkReader σ) (batch : Nat) : List Nat → List Chunk → σ → σ → Prop
  | nil (s : σ) : Loads r batch [] [] s s
  | cons {column : Nat} {columns : List Nat} {chunk : Chunk} {chunks : List Chunk} {s s' s'' : σ}
    (h : r.readChunk batch column s = (.ok chunk, s'))
    (hrest : Loads r batch columns chunks s' s'') :
    Loads r batch (column :: columns) (chunk :: chunks) s s''

/-- The columns of a batch are read one after the other until one fails. Those before it have given
the chunks. -/
structure StopsAt (r : ChunkReader σ) (batch : Nat) (columns before : List Nat) (column : Nat)
    (chunks : List Chunk) (e : Failure) (s s' : σ) : Prop where
  split : ∃ after, columns = before ++ column :: after
  failed : ∃ s₁, Loads r batch before chunks s s₁ ∧ r.readChunk batch column s₁ = (.error e, s')

theorem Loads.length_eq {columns : List Nat} {chunks : List Chunk}
    (h : Loads r batch columns chunks s s') : chunks.length = columns.length := by
  induction h with
  | nil => rfl
  | cons _ _ ih => rw [List.length_cons, List.length_cons, ih]

theorem StopsAt.cons {columns before : List Nat} {column first : Nat} {chunk : Chunk}
    {chunks : List Chunk} {s₁ : σ} (hread : r.readChunk batch first s = (.ok chunk, s₁))
    (h : StopsAt r batch columns before column chunks e s₁ s') :
    StopsAt r batch (first :: columns) (first :: before) column (chunk :: chunks) e s s' where
  split := by
    obtain ⟨after, rfl⟩ := h.split
    exact ⟨after, rfl⟩
  failed := by
    obtain ⟨s₂, hloads, hfail⟩ := h.failed
    exact ⟨s₂, .cons hread hloads, hfail⟩

/-- **Loading columns** adds the chunks that were read to those there are. -/
theorem loadChunks_cases (r : ChunkReader σ) (batch : Nat) (columns : List Nat) (c : ReadCursor)
    (s : σ) :
    (∃ chunks s', Loads r batch columns chunks s s' ∧
      loadChunks r batch columns (c, s) =
        (.ok (), ({ c with chunks := c.chunks ++ chunks }, s'))) ∨
    ∃ before column chunks e s', StopsAt r batch columns before column chunks e s s' ∧
      loadChunks r batch columns (c, s) =
        (.error e, ({ c with chunks := c.chunks ++ chunks }, s')) := by
  induction columns generalizing c s with
  | nil => exact .inl ⟨[], s, .nil s, by simp [loadChunks]⟩
  | cons column columns ih =>
    rcases hread : r.readChunk batch column s with ⟨e | chunk, s₁⟩
    · refine .inr ⟨[], column, [], e, s₁, ⟨⟨columns, rfl⟩, s, .nil s, hread⟩, ?_⟩
      simp only [loadChunks, Action.bind_apply, Action.on_apply, hread, List.append_nil]
    · obtain ⟨chunks, s', hloads, hrun⟩ | ⟨before, failing, chunks, e, s', hstops, hrun⟩ :=
        ih { c with chunks := c.chunks ++ [chunk] } s₁
      · refine .inl ⟨chunk :: chunks, s', .cons hread hloads, ?_⟩
        simp only [loadChunks, Action.bind_apply, Action.on_apply, hread, Action.modify_apply, hrun,
          List.append_assoc, List.singleton_append]
      · refine .inr ⟨column :: before, failing, chunk :: chunks, e, s', hstops.cons hread, ?_⟩
        simp only [loadChunks, Action.bind_apply, Action.on_apply, hread, Action.modify_apply, hrun,
          List.append_assoc, List.singleton_append]

/-! ## Moves -/

/-- Everything that moving a cursor can do. -/
inductive Moved (r : ChunkReader σ) (c : ReadCursor) (s : σ) :
    Outcome Unit × (ReadCursor × σ) → Prop
  | closed (h : c.closed = true) : Moved r c s (Outcome.fail (.closed .readCursor), (c, s))
  /-- There are no rows behind the cursor. -/
  | ended (hopen : c.closed = false) (hsame : sameBatch? r s c.position? = none)
    (hnext : nextBatch? r s c.position? = none) :
    Moved r c s (Outcome.fail (.illegalState .pastLastRow), (c, s))
  /-- The next row is in the batch the cursor is in. -/
  | within {p : Nat × Nat} (hopen : c.closed = false)
    (hsame : sameBatch? r s c.position? = some p) :
    Moved r c s (.ok (), ({ c with position? := some p }, s))
  /-- The next row is in another batch, and its chunks can be read. -/
  | entered {batch : Nat} {chunks : List Chunk} {s' : σ} (hopen : c.closed = false)
    (hsame : sameBatch? r s c.position? = none) (hnext : nextBatch? r s c.position? = some batch)
    (hloads : Loads r batch c.selection.columns chunks s s') :
    Moved r c s (.ok (), ({ c with chunks := chunks, position? := some (batch, 0) }, s'))
  /-- The next row is in another batch, and one of its chunks cannot be read. -/
  | refused {batch : Nat} {before : List Nat} {column : Nat} {chunks : List Chunk} {e : Failure}
    {s' : σ} (hopen : c.closed = false) (hsame : sameBatch? r s c.position? = none)
    (hnext : nextBatch? r s c.position? = some batch)
    (hstops : StopsAt r batch c.selection.columns before column chunks e s s') :
    Moved r c s (.error e, ({ c with chunks := chunks }, s'))

theorem forward_moved (r : ChunkReader σ) (c : ReadCursor) (s : σ) :
    Moved r c s (forward r (c, s)) := by
  obtain ⟨schema, selection, chunks, position?, closed⟩ := c
  cases closed with
  | true => exact .closed rfl
  | false =>
    cases hsame : sameBatch? r s position? with
    | some p =>
      have hrun : forward r (⟨schema, selection, chunks, position?, false⟩, s) =
          (.ok (), (⟨schema, selection, chunks, some p, false⟩, s)) := by
        simp only [forward, Action.bind_apply, Action.get_apply, Bool.false_eq_true, if_false,
          hsame, Action.set_apply]
      exact hrun ▸ .within rfl hsame
    | none =>
      cases hnext : nextBatch? r s position? with
      | none =>
        have hrun : forward r (⟨schema, selection, chunks, position?, false⟩, s) =
            (Outcome.fail (.illegalState .pastLastRow),
              (⟨schema, selection, chunks, position?, false⟩, s)) := by
          simp only [forward, Action.bind_apply, Action.get_apply, Bool.false_eq_true, if_false,
            hsame, hnext, Action.fail_apply]
        exact hrun ▸ .ended rfl hsame hnext
      | some batch =>
        -- the chunks are dropped before the first column of the next batch is read
        obtain ⟨loaded, s', hloads, hload⟩ | ⟨before, column, loaded, e, s', hstops, hload⟩ :=
          loadChunks_cases r batch selection.columns ⟨schema, selection, [], position?, false⟩ s
        · have hrun : forward r (⟨schema, selection, chunks, position?, false⟩, s) =
              (.ok (), (⟨schema, selection, loaded, some (batch, 0), false⟩, s')) := by
            simp only [forward, Action.bind_apply, Action.get_apply, Bool.false_eq_true, if_false,
              hsame, hnext, Action.set_apply, hload, Action.modify_apply, List.nil_append]
          exact hrun ▸ .entered rfl hsame hnext hloads
        · have hrun : forward r (⟨schema, selection, chunks, position?, false⟩, s) =
              (.error e, (⟨schema, selection, loaded, position?, false⟩, s')) := by
            simp only [forward, Action.bind_apply, Action.get_apply, Bool.false_eq_true, if_false,
              hsame, hnext, Action.set_apply, hload, List.nil_append]
          exact hrun ▸ .refused rfl hsame hnext hstops

/-! ## What moving keeps -/

section Keeps

variable {P : σ → Prop} {columns : List Nat} {chunks : List Chunk}

theorem Loads.keeps (hr : r.Keeps P) (h : Loads r batch columns chunks s s') (hs : P s) : P s' := by
  induction h with
  | nil => exact hs
  | @cons column columns chunk chunks s₁ s₂ s₃ hread _ ih =>
    have hkeeps := hr batch column s₁ hs
    rw [hread] at hkeeps
    exact ih hkeeps

theorem StopsAt.keeps (hr : r.Keeps P) {before : List Nat} {column : Nat}
    (h : StopsAt r batch columns before column chunks e s s') (hs : P s) : P s' := by
  obtain ⟨s₁, hloads, hfailed⟩ := h.failed
  have hkeeps := hr batch column s₁ (hloads.keeps hr hs)
  rw [hfailed] at hkeeps
  exact hkeeps

/-- **Moving a cursor**, wherever it is, keeps what reading chunks keeps. -/
theorem keeps_forward (hr : r.Keeps P) : (forward r).Keeps fun p => P p.2 := by
  intro ⟨c, s⟩ hs
  have hmoved := forward_moved r c s
  generalize forward r (c, s) = result at hmoved
  cases hmoved with
  | closed _ => exact hs
  | ended _ _ _ => exact hs
  | within _ _ => exact hs
  | entered _ _ _ hloads => exact hloads.keeps hr hs
  | refused _ _ _ hstops => exact hstops.keeps hr hs

end Keeps

end ReadCursor

/-! ## Steady readers -/

namespace ChunkReader

variable {r : ChunkReader σ} {s s' : σ} {batch : Nat}

/-- In both states there is the same to read. -/
structure Same (r : ChunkReader σ) (s s' : σ) : Prop where
  batchCount : r.batchCount s' = r.batchCount s
  rowCount : r.rowCount s' = r.rowCount s
  readChunk : ∀ batch column, (r.readChunk batch column s').1 = (r.readChunk batch column s).1

theorem Same.refl (r : ChunkReader σ) (s : σ) : r.Same s s := ⟨rfl, rfl, fun _ _ => rfl⟩

theorem Same.trans {s'' : σ} (h : r.Same s s') (h' : r.Same s' s'') : r.Same s s'' where
  batchCount := h'.batchCount.trans h.batchCount
  rowCount := h'.rowCount.trans h.rowCount
  readChunk batch column := (h'.readChunk batch column).trans (h.readChunk batch column)

/-- Reading a chunk changes nothing about what there is to read. -/
def Steady (r : ChunkReader σ) : Prop := ∀ s, r.Keeps (r.Same s)

theorem Steady.same_of_readChunk (hr : r.Steady) {column : Nat} {o : Outcome Chunk}
    (h : r.readChunk batch column s = (o, s')) : r.Same s s' := by
  have hkeeps := hr s batch column s (.refl r s)
  rwa [h] at hkeeps

end ChunkReader

end Columnar
