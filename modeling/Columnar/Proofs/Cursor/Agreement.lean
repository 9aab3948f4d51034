import Columnar.Proofs.Cursor.Moves

/-!
# Two cursors over readers that agree

Two readers agree on some columns (`ChunkReader.Agree`) when they count the same rows and give the
same chunk, or the same failure, in each of these columns. About the other columns nothing is said:
the readers may give anything there, or fail. Two cursors that are alike then stay alike
(`forward_agrees`), because a cursor asks for the columns it has selected and for no others.

**Records** (`ChunkReader.traced`). A reader can be made to write down which chunks it is asked for.
It agrees with the reader it is made of, so the record tells what is asked of that one.
-/

namespace Columnar

variable {σ τ α : Type}

/-- The two go on from the same value in related states. -/
def Alongside (R : σ → τ → Prop) (p : α × σ) (q : α × τ) : Prop := p.1 = q.1 ∧ R p.2 q.2

namespace ChunkReader

/-- In related states there are the same rows to read, and the same chunks or failures in the
columns that are wanted. -/
structure Agree (r : ChunkReader σ) (r' : ChunkReader τ) (wanted : Nat → Prop)
    (R : σ → τ → Prop) : Prop where
  batchCount : ∀ {s t}, R s t → r.batchCount s = r'.batchCount t
  rowCount : ∀ {s t}, R s t → r.rowCount s = r'.rowCount t
  readChunk : ∀ batch {column}, wanted column →
    Action.Agrees R (r.readChunk batch column) (r'.readChunk batch column)

variable {r : ChunkReader σ} {r' : ChunkReader τ} {wanted : Nat → Prop} {R : σ → τ → Prop}
  {s : σ} {t : τ}

theorem Agree.firstNonEmpty?_eq (h : r.Agree r' wanted R) (hs : R s t) (n batch : Nat) :
    r.firstNonEmpty? s n batch = r'.firstNonEmpty? t n batch := by
  induction n generalizing batch with
  | zero => rfl
  | succ n ih => rw [firstNonEmpty?, firstNonEmpty?, h.rowCount hs, ih]

theorem Agree.nextBatch?_eq (h : r.Agree r' wanted R) (hs : R s t) (batch : Nat) :
    r.nextBatch? s batch = r'.nextBatch? t batch := by
  rw [nextBatch?, nextBatch?, h.batchCount hs, h.firstNonEmpty?_eq hs]

/-! ## Records -/

/-- The reader with a record of the chunks that it was asked for, by batch and column. -/
def traced (r : ChunkReader σ) : ChunkReader (σ × List (Nat × Nat)) where
  batchCount p := r.batchCount p.1
  rowCount p := r.rowCount p.1
  readChunk batch column :=
    (r.readChunk batch column).on Prod.fst fun s p => (s, p.2 ++ [(batch, column)])

theorem agree_traced (r : ChunkReader σ) (wanted : Nat → Prop) :
    r.traced.Agree r wanted fun p s => p.1 = s where
  batchCount h := congrArg r.batchCount h
  rowCount h := congrArg r.rowCount h
  readChunk batch column _ := by
    rintro p _ rfl
    exact ⟨rfl, rfl⟩

/-- Readers that agree are asked for the same chunks. -/
theorem Agree.traced (h : r.Agree r' wanted R) :
    r.traced.Agree r'.traced wanted fun p q => R p.1 q.1 ∧ p.2 = q.2 where
  batchCount hp := h.batchCount hp.1
  rowCount hp := h.rowCount hp.1
  readChunk batch column hcolumn := by
    refine (h.readChunk batch hcolumn).on (fun _ _ hp => hp.1) ?_
    intro p q s t hp hs
    exact ⟨hs, congrArg (· ++ [(batch, column)]) hp.2⟩

end ChunkReader

namespace ReadCursor

variable {r : ChunkReader σ} {r' : ChunkReader τ} {wanted : Nat → Prop} {R : σ → τ → Prop}
  {s : σ} {t : τ} {c : ReadCursor} {batch : Nat}

/-! ## Two moves -/

theorem sameBatch?_agree (h : r.Agree r' wanted R) (hs : R s t) (position? : Option (Nat × Nat)) :
    sameBatch? r s position? = sameBatch? r' t position? := by
  cases position? with
  | none => rfl
  | some p => rw [sameBatch?, sameBatch?, h.rowCount hs]

theorem nextBatch?_agree (h : r.Agree r' wanted R) (hs : R s t) (position? : Option (Nat × Nat)) :
    nextBatch? r s position? = nextBatch? r' t position? := by
  cases position? with
  | none => exact h.nextBatch?_eq hs 0
  | some p => exact h.nextBatch?_eq hs (p.1 + 1)

theorem canForward_agree (h : r.Agree r' wanted R) (hs : R s t) (c : ReadCursor) :
    c.canForward r s = c.canForward r' t := by
  rw [canForward, canForward, sameBatch?_agree h hs, nextBatch?_agree h hs]

theorem loadChunks_agrees (h : r.Agree r' wanted R) (batch : Nat) {columns : List Nat}
    (hcolumns : ∀ j ∈ columns, wanted j) :
    Action.Agrees (Alongside R) (loadChunks r batch columns) (loadChunks r' batch columns) := by
  induction columns with
  | nil => exact Action.agrees_liftM (.ok ())
  | cons column columns ih =>
    obtain ⟨hcolumn, hcolumns⟩ := List.forall_mem_cons.mp hcolumns
    refine ((h.readChunk batch hcolumn).on (fun _ _ hp => hp.2) ?_).bind fun chunk => ?_
    · intro p q s t hp hs
      exact ⟨hp.1, hs⟩
    · refine (Action.agrees_modify ?_).bind fun _ => ih hcolumns
      rintro ⟨c, s⟩ ⟨_, t⟩ ⟨rfl, hs⟩
      exact ⟨rfl, hs⟩

/-- **Two cursors that are alike move alike** over readers that agree on their columns. -/
theorem forward_agrees (h : r.Agree r' wanted R) (hc : ∀ j ∈ c.selection.columns, wanted j)
    (hs : R s t) :
    (forward r (c, s)).1 = (forward r' (c, t)).1 ∧
      Alongside R (forward r (c, s)).2 (forward r' (c, t)).2 := by
  unfold forward
  simp only [Action.bind_apply, Action.get_apply]
  rw [← sameBatch?_agree h hs, ← nextBatch?_agree h hs]
  cases c.closed with
  | true => exact ⟨rfl, rfl, hs⟩
  | false =>
    cases sameBatch? r s c.position? with
    | some p => exact ⟨rfl, rfl, hs⟩
    | none =>
      cases nextBatch? r s c.position? with
      | none => exact ⟨rfl, rfl, hs⟩
      | some batch =>
        refine (Action.agrees_set (R := Alongside R) ⟨rfl, hs⟩).bind (fun _ => ?_) (c, s) (c, t)
          ⟨rfl, hs⟩
        refine (loadChunks_agrees h batch hc).bind fun _ => Action.agrees_modify ?_
        rintro ⟨c, s⟩ ⟨_, t⟩ ⟨rfl, hs⟩
        exact ⟨rfl, hs⟩

/-! ## The record of a move -/

section Traced

variable {columns : List Nat} {chunks : List Chunk} {p p' : σ × List (Nat × Nat)} {e : Failure}

theorem Loads.of_traced (h : Loads r.traced batch columns chunks p p') :
    Loads r batch columns chunks p.1 p'.1 ∧ p'.2 = p.2 ++ columns.map (batch, ·) := by
  induction h with
  | nil p => exact ⟨.nil p.1, (List.append_nil p.2).symm⟩
  | @cons column columns chunk chunks p p₁ p₂ hread _ ih =>
    rcases hrun : r.readChunk batch column p.1 with ⟨o, s₁⟩
    simp only [ChunkReader.traced, Action.on_apply, hrun, Prod.mk.injEq] at hread
    obtain ⟨rfl, rfl⟩ := hread
    obtain ⟨hloads, hrecord⟩ := ih
    refine ⟨.cons hrun hloads, ?_⟩
    rw [hrecord, List.append_assoc, List.map_cons, List.singleton_append]

theorem StopsAt.of_traced {before : List Nat} {column : Nat}
    (h : StopsAt r.traced batch columns before column chunks e p p') :
    StopsAt r batch columns before column chunks e p.1 p'.1 ∧
      p'.2 = p.2 ++ (before ++ [column]).map (batch, ·) := by
  obtain ⟨p₁, hloads, hread⟩ := h.failed
  obtain ⟨hloads, hrecord⟩ := hloads.of_traced
  rcases hrun : r.readChunk batch column p₁.1 with ⟨o, s₁⟩
  simp only [ChunkReader.traced, Action.on_apply, hrun, Prod.mk.injEq] at hread
  obtain ⟨rfl, rfl⟩ := hread
  refine ⟨⟨h.split, p₁.1, hloads, hrun⟩, ?_⟩
  rw [hrecord, List.map_append, List.append_assoc, List.map_singleton]

end Traced

end ReadCursor

end Columnar
