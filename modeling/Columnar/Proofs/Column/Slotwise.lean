import Columnar.Proofs.Chunk.Join
import Columnar.Proofs.Column.Access

/-!
# Writing cells slot by slot

Writing a cell to slot `i` of joined chunks does to the `i`-th of them, and to the class tags, what
writing it there alone does (`PhysicalColumn.slotwise_writeCell`). This holds of refused cells as
well, which may have changed the slot before. Writing is made of operations on the chunk and a look
at the tags, and each of them works slot by slot (`Slotwise.bind`).
-/

namespace Columnar.PhysicalColumn

variable {α β : Type} {spec : ChunkSpec} {p : Primitive}

/-- What the action does to slot `i` of joined chunks, and to the tags, it does to the `i`-th of
them. -/
structure Slotwise (spec : ChunkSpec) (m : Nat → Action WriteTarget α) : Prop where
  keeps : ∀ {t : WriteTarget}, t.chunk.spec = spec → t.chunk.Uniform 1 →
    (m 0 t).2.chunk.spec = spec ∧ (m 0 t).2.chunk.Uniform 1
  join : ∀ {cs : List Chunk} {i : Nat} {c : Chunk}, (∀ c ∈ cs, c.spec = spec ∧ c.Uniform 1) →
    cs[i]? = some c → ∀ tags : ClassTags, m i ⟨spec.join cs, tags⟩ =
      ((m 0 ⟨c, tags⟩).1, ⟨spec.join (cs.set i (m 0 ⟨c, tags⟩).2.chunk), (m 0 ⟨c, tags⟩).2.tags⟩)

theorem slotwise_tags {m : Nat → Action WriteTarget α}
    (h : ∀ i t, (m i t).2.chunk = t.chunk)
    (hsame : ∀ i j c d tags, (m i ⟨c, tags⟩).1 = (m j ⟨d, tags⟩).1 ∧
      (m i ⟨c, tags⟩).2.tags = (m j ⟨d, tags⟩).2.tags) : Slotwise spec m where
  keeps {t} hspec huni := by
    rw [h]
    exact ⟨hspec, huni⟩
  join {cs i c} _ hi tags := by
    rw [h 0, set_of_getElem? hi]
    refine Prod.ext (hsame i 0 _ c tags).1 ?_
    have hchunk := h i ⟨spec.join cs, tags⟩
    have htags := (hsame i 0 (spec.join cs) c tags).2
    generalize m i ⟨spec.join cs, tags⟩ = r at hchunk htags
    obtain ⟨o, chunk, tags'⟩ := r
    obtain rfl : chunk = spec.join cs := hchunk
    exact congrArg (WriteTarget.mk _) htags

theorem slotwise_fail (e : Error) :
    Slotwise spec fun _ => (Action.fail e : Action WriteTarget α) :=
  slotwise_tags (fun _ _ => rfl) fun _ _ _ _ _ => ⟨rfl, rfl⟩

/-- An operation on the chunk. One that is refused leaves it as it is. -/
theorem slotwise_changeChunk {f : Chunk → Nat → Outcome Chunk} (hf : spec.Slotwise f) :
    Slotwise spec fun i => changeChunk (f · i) where
  keeps {t} hspec huni := by
    simp only [changeChunk, Action.bind_apply, Action.get_apply, Action.liftM_apply]
    cases hc : f t.chunk 0 with
    | error e => exact ⟨hspec, huni⟩
    | ok c => exact hf.keeps hspec huni hc
  join {cs i c} h hi tags := by
    simp only [changeChunk, Action.bind_apply, Action.get_apply, Action.liftM_apply, hf.join h hi]
    cases f c 0 with
    | error e =>
      show (Except.error e, _) = _
      rw [set_of_getElem? hi]
    | ok c' => rfl

/-- **One action after the other.** -/
theorem Slotwise.bind {m : Nat → Action WriteTarget α} {f : α → Nat → Action WriteTarget β}
    (hm : Slotwise spec m) (hf : ∀ a, Slotwise spec (f a)) :
    Slotwise spec fun i => m i >>= fun a => f a i where
  keeps {t} hspec huni := by
    have hkeeps := hm.keeps hspec huni
    rcases hrun : m 0 t with ⟨e | a, t'⟩ <;> rw [hrun] at hkeeps
    · rw [Action.bind_error hrun]
      exact hkeeps
    · rw [Action.bind_ok hrun]
      exact (hf a).keeps hkeeps.1 hkeeps.2
  join {cs i c} h hi tags := by
    obtain ⟨hspec, huni⟩ := h c (List.mem_of_getElem? hi)
    obtain ⟨hspec', huni'⟩ := hm.keeps (t := ⟨c, tags⟩) hspec huni
    have hrun := hm.join h hi tags
    rcases hrun₀ : m 0 ⟨c, tags⟩ with ⟨e | a, c', tags'⟩ <;>
      rw [hrun₀] at hrun hspec' huni'
    · rw [Action.bind_error hrun, Action.bind_error hrun₀]
    · rw [Action.bind_ok hrun, Action.bind_ok hrun₀]
      -- the chunks are still of one slot each, and the changed one is in its place
      have hset : ∀ d ∈ cs.set i c', d.spec = spec ∧ d.Uniform 1 := by
        intro d hd
        rcases List.mem_or_eq_of_mem_set hd with hd | rfl
        · exact h d hd
        · exact ⟨hspec', huni'⟩
      have hi' : (cs.set i c')[i]? = some c' :=
        List.getElem?_set_self (List.getElem?_eq_some_iff.mp hi).1
      rw [(hf a).join hset hi' tags', List.set_set]

theorem slotwise_setSupplement (inner : ChunkSpec) (bytes : Bytes) :
    Slotwise (.paired inner) fun i => changeChunk (·.modifySupplement (·.set i bytes)) :=
  slotwise_changeChunk
    (ChunkSpec.slotwise_supplement ⟨bytes, false⟩ (f := fun c i =>
      c.modifySupplement (·.set i bytes)) fun _ _ _ => rfl)

theorem slotwise_clearSupplement (inner : ChunkSpec) :
    Slotwise (.paired inner) fun i => changeChunk (·.modifySupplement (·.clear [] i)) :=
  slotwise_changeChunk
    (ChunkSpec.slotwise_supplement ⟨[], true⟩ (f := fun c i =>
      c.modifySupplement (·.clear [] i)) fun _ _ _ => rfl)

theorem slotwise_store (spec : ChunkSpec) (p : Primitive) (cell : Cell) :
    Slotwise spec fun i => changeChunk (p.store · i cell) := by
  refine slotwise_changeChunk ?_
  cases p with
  | string => exact ChunkSpec.slotwise_setBytes spec _
  | int | long | double | boolean => exact ChunkSpec.slotwise_set spec _ _

theorem slotwise_serialize (cell : Cell) :
    Slotwise spec fun _ => (ClassTags.writeCell cell).on WriteTarget.tags fun tags t =>
      { t with tags := tags } :=
  slotwise_tags (fun _ _ => rfl) fun _ _ _ _ _ => ⟨rfl, rfl⟩

theorem slotwise_writeData (p : Primitive) (cell : Cell) :
    Slotwise (data p).spec fun i => writeData p i cell := by
  by_cases hclass : cell.className?.isSome
  · simp only [writeData_value p _ hclass]
    by_cases hm : p.matches? cell
    · simp only [hm, if_true]
      exact (slotwise_store _ p cell).bind fun _ => slotwise_clearSupplement _
    · simp only [hm, if_false, Bool.false_eq_true]
      exact (slotwise_store _ p cell).bind fun _ =>
        (slotwise_serialize cell).bind fun bytes => slotwise_setSupplement _ bytes
  · have hmissing := slotwise_changeChunk (ChunkSpec.slotwise_setMissing (data p).spec)
    cases cell with
    | missing cause =>
      cases cause with
      | none => exact hmissing.bind fun _ => slotwise_clearSupplement _
      | some cause => exact hmissing.bind fun _ => slotwise_setSupplement _ _
    | unmaterialized => exact slotwise_fail _
    | _ => exact absurd rfl hclass

/-- **Writing a cell** works slot by slot. -/
theorem slotwise_writeCell (column : PhysicalColumn) (cell : Cell) :
    Slotwise column.spec fun i => column.writeCell i cell := by
  cases column with
  | rowKey =>
    cases cell with
    | string key => exact slotwise_changeChunk (ChunkSpec.slotwise_setText _ key)
    | _ => exact slotwise_fail _
  | data p => exact slotwise_writeData p cell

/-- **Resetting a slot** makes it a new one. -/
theorem reset_join (column : PhysicalColumn) {cs : List Chunk}
    (h : ∀ c ∈ cs, c.spec = column.spec ∧ c.Uniform 1) {i : Nat} (hi : i < cs.length) :
    (column.spec.join cs).reset i = .ok (column.spec.join (cs.set i (column.spec.fresh 1))) := by
  cases column with
  | rowKey => exact ChunkSpec.reset_join_plain h hi
  | data p => exact ChunkSpec.reset_join_pair h hi

end Columnar.PhysicalColumn
