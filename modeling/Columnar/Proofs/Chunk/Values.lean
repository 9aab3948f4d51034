import Columnar.Proofs.Action
import Columnar.Proofs.Chunk.Uniform

/-!
# Values of slots

What is read of a slot is the same in every chunk that has it (`SameSlot.isMissing_eq`,
`SameSlot.get_eq`, `SameSlot.getBytes_eq`).

**Changes** (`Chunk.Changes`). Writing a value is refused by a chunk of another kind, and otherwise
gives a chunk of the same shape in which the value is read.
-/

namespace Columnar.Chunk

variable {c d : Chunk} {i j n : Nat}

/-! ## The same slot -/

theorem SameSlot.spec_eq (h : c.SameSlot i j d) : c.spec = d.spec := by
  induction h with
  | plain h => rfl
  | paired h hs ih => exact congrArg ChunkSpec.paired ih

theorem SameSlot.isMissing_eq (h : c.SameSlot i j d) : c.isMissing i = d.isMissing j := by
  induction h with
  | plain h => simp only [isMissing, Slots.isMissing, h]
  | paired h hs ih => exact ih

theorem SameSlot.get_eq (h : c.SameSlot i j d) (k : Kind) : c.get k i = d.get k j := by
  have hplain : ∀ {k' : Kind} {s t : Slots k'.Value}, s.slots[i]? = t.slots[j]? →
      (Chunk.plain k' s).get k i = (Chunk.plain k' t).get k j := by
    intro k' s t hst
    by_cases hk : k' = k
    · subst hk
      simp only [get, primary, Slots.value, hst, dif_pos]
    · simp only [get, primary, hk, dif_neg, not_false_iff, wrongShape, spec]
  cases h with
  | plain h => exact hplain h
  | paired h hs =>
    cases h with
    | plain h => exact hplain h
    | paired h ht => simp only [get, primary, wrongShape, spec, h.spec_eq]

theorem SameSlot.getBytes_eq (h : c.SameSlot i j d) : c.getBytes i = d.getBytes j := by
  have hplain : ∀ {k : Kind} {s t : Slots k.Value}, s.slots[i]? = t.slots[j]? →
      (Chunk.plain k s).getBytes i = (Chunk.plain k t).getBytes j := by
    intro k s t hst
    cases k <;> simp only [getBytes, primary, byteSlots?, Slots.value, hst, wrongShape, spec]
  cases h with
  | plain h => exact hplain h
  | paired h hs =>
    cases h with
    | plain h => exact hplain h
    | paired h ht => simp only [getBytes, primary, byteSlots?, wrongShape, spec, h.spec_eq]

/-! ## Reading what was written -/

theorem getText_of_getBytes {text : String} (h : c.getBytes i = .ok (Utf8.encode text)) :
    c.getText i = .ok text := by
  simp only [getText, h, Outcome.ok_bind, Utf8.decode_encode]
  rfl

theorem exists_of_get {k : Kind} {v : k.Value} (h : c.get k i = .ok v) :
    ∃ s : Slots k.Value, c.primary = plain k s ∧ s.value i = .ok v := by
  unfold get at h
  split at h
  · rename_i k' s hprimary
    split at h
    · rename_i hk
      subst hk
      exact ⟨s, hprimary, h⟩
    · cases h
  · cases h

/-- The values of some kinds are read as bytes. -/
theorem getBytes_of_get {v : Bytes}
    (h : c.get .string i = .ok v ∨ c.get .rowKey i = .ok v ∨ c.get .binary i = .ok v) :
    c.getBytes i = .ok v := by
  rcases h with h | h | h <;> obtain ⟨s, hprimary, hvalue⟩ := exists_of_get h <;>
    rw [getBytes, hprimary] <;> exact hvalue

/-- What changing a chunk of `n` slots comes to: a refusal, or a chunk of the same shape. -/
inductive Changes (n : Nat) (c : Chunk) (P : Chunk → Prop) : Outcome Chunk → Prop
  | refused (e : Error) : Changes n c P (Outcome.fail e)
  | changed {c' : Chunk} (hspec : c'.spec = c.spec) (huni : c'.Uniform n) (h : P c') :
    Changes n c P (.ok c')

theorem Changes.imp {P Q : Chunk → Prop} (h : ∀ c', P c' → Q c') {o : Outcome Chunk}
    (hc : Changes n c P o) : Changes n c Q o := by
  cases hc with
  | refused e => exact .refused e
  | changed hspec huni hP => exact .changed hspec huni (h _ hP)

theorem setMissing_changes (huni : c.Uniform n) (hi : i < n) :
    Changes n c (·.isMissing i = .ok true) (c.setMissing i) := by
  induction c with
  | plain k s =>
    have his : i < s.slots.size := by rwa [Slots.Uniform.size_eq huni]
    rw [setMissing, Slots.clear, Slots.put_eq his]
    exact .changed rfl (Slots.Uniform.replace huni i _)
      (Slots.isMissing_of_getElem? (Slots.getElem?_replace_self his _))
  | paired inner t ih =>
    have hinner := ih huni.1
    rw [setMissing]
    generalize inner.setMissing i = o at hinner
    cases hinner with
    | refused e => exact .refused e
    | changed hspec huni' h => exact .changed (congrArg ChunkSpec.paired hspec) ⟨huni', huni.2⟩ h

theorem set_changes (huni : c.Uniform n) (hi : i < n) (k : Kind) (v : k.Value) :
    Changes n c (fun c' => c'.isMissing i = .ok false ∧ c'.get k i = .ok v) (c.set k i v) := by
  -- a plain chunk either is of the kind or is not
  have hplain : ∀ {k' : Kind} {s : Slots k'.Value}, s.Uniform n →
      (∃ e, (plain k' s).set k i v = Outcome.fail e) ∨
        ∃ s' : Slots k.Value, k' = k ∧ s'.Uniform n ∧ s'.slots[i]? = some ⟨v, false⟩ ∧
          (plain k' s).set k i v = .ok (plain k s') := by
    intro k' s hs
    by_cases hk : k = k'
    · subst hk
      have his : i < s.slots.size := by rwa [hs.size_eq]
      refine .inr ⟨s.replace i ⟨v, false⟩, rfl, hs.replace i _,
        Slots.getElem?_replace_self his _, ?_⟩
      simp only [set, modifyPrimary, dif_pos, Slots.set, Slots.put_eq his]
      rfl
    · refine .inl ⟨.decode (.chunkShape (.kind k) (.plain k')), ?_⟩
      simp only [set, modifyPrimary, hk, dif_neg, not_false_iff, wrongShape, spec]
  have hread : ∀ {s' : Slots k.Value}, s'.slots[i]? = some ⟨v, false⟩ →
      s'.isMissing i = .ok false ∧ s'.value i = .ok v :=
    fun h => ⟨Slots.isMissing_of_getElem? h, Slots.value_of_getElem? h⟩
  cases c with
  | plain k' s =>
    obtain ⟨e, he⟩ | ⟨s', rfl, hs', hslot, hset⟩ := hplain huni
    · rw [he]
      exact .refused e
    · rw [hset]
      exact .changed rfl hs' ⟨(hread hslot).1, by simpa [get, primary] using (hread hslot).2⟩
  | paired inner t =>
    cases inner with
    | plain k' s =>
      have hpair : (paired (plain k' s) t).set k i v =
          (fun c => paired c t) <$> (plain k' s).set k i v := by
        simp only [set, modifyPrimary]
        rfl
      rw [hpair]
      obtain ⟨e, he⟩ | ⟨s', rfl, hs', hslot, hset⟩ := hplain huni.1
      · rw [he]
        exact .refused e
      · rw [hset]
        exact .changed rfl ⟨hs', huni.2⟩
          ⟨(hread hslot).1, by simpa [get, primary] using (hread hslot).2⟩
    | paired inner t' => exact .refused _

theorem setBytes_cases (c : Chunk) (i : Nat) (v : Bytes) :
    (∃ e, c.setBytes i v = Outcome.fail e) ∨ c.setBytes i v = c.set .string i v ∨
      c.setBytes i v = c.set .rowKey i v ∨ c.setBytes i v = c.set .binary i v := by
  have hother : ∀ {e : Error}, (∃ e', (Outcome.fail e : Outcome Chunk) = Outcome.fail e') :=
    ⟨_, rfl⟩
  rcases c with ⟨_ | _ | _ | _ | _ | _ | _, s⟩ | ⟨⟨_ | _ | _ | _ | _ | _ | _, s⟩ | _, t⟩
  case plain.string | paired.plain.string => exact .inr (.inl rfl)
  case plain.rowKey | paired.plain.rowKey => exact .inr (.inr (.inl rfl))
  case plain.binary | paired.plain.binary => exact .inr (.inr (.inr rfl))
  all_goals exact .inl hother

theorem setBytes_changes (huni : c.Uniform n) (hi : i < n) (v : Bytes) :
    Changes n c (fun c' => c'.isMissing i = .ok false ∧ c'.getBytes i = .ok v)
      (c.setBytes i v) := by
  obtain ⟨e, h⟩ | h | h | h := setBytes_cases c i v <;> rw [h]
  · exact .refused e
  · exact (set_changes huni hi .string v).imp fun c' hc' =>
      ⟨hc'.1, getBytes_of_get (.inl hc'.2)⟩
  · exact (set_changes huni hi .rowKey v).imp fun c' hc' =>
      ⟨hc'.1, getBytes_of_get (.inr (.inl hc'.2))⟩
  · exact (set_changes huni hi .binary v).imp fun c' hc' =>
      ⟨hc'.1, getBytes_of_get (.inr (.inr hc'.2))⟩

end Columnar.Chunk
