import Columnar.Proofs.Action
import Columnar.Proofs.Chunk.Uniform

/-!
# Operations on joined chunks

Chunks of one slot that are joined can be worked on as one chunk.

**Slot by slot** (`ChunkSpec.Slotwise`). What an operation does to slot `i` of the joined chunks is
what it does to the `i`-th of them, and it is refused there if it is refused here. Every setter is
of this kind (`slotwise_set`, `slotwise_setBytes`, `slotwise_setMissing`): at the bottom of each is
one slot that is put in place of another (`slotwise_put`, `slotwise_supplement`), or a refusal.

**The ends.** New slots are the join of new chunks (`join_replicate_fresh`), and new slots at the
end can be cut off again (`truncate_join`).
-/

namespace Columnar

section Lists

variable {α β : Type} {f : α → List β} {l : List α}

theorem set_of_getElem? {i : Nat} {a : α} (h : l[i]? = some a) : l.set i a = l := by
  obtain ⟨hlt, rfl⟩ := List.getElem?_eq_some_iff.mp h
  exact List.set_getElem_self hlt

theorem flatMap_set_of_one (h : ∀ a ∈ l, (f a).length = 1) (i : Nat) {a : α} {b : β}
    (ha : f a = [b]) : (l.set i a).flatMap f = (l.flatMap f).set i b := by
  induction l generalizing i with
  | nil => rfl
  | cons x l ih =>
    obtain ⟨y, hy⟩ := List.length_eq_one_iff.mp (h x List.mem_cons_self)
    cases i with
    | zero => simp [hy, ha]
    | succ i => simp [hy, ih fun c hc => h c (List.mem_cons_of_mem x hc)]

theorem flatMap_set_eq {i : Nat} {a a' : α} (hi : l[i]? = some a) (h : f a' = f a) :
    (l.set i a').flatMap f = l.flatMap f := by
  obtain ⟨hlt, rfl⟩ := List.getElem?_eq_some_iff.mp hi
  rw [List.flatMap_def, List.flatMap_def, List.map_set, h, ← List.map_set, List.set_getElem_self]

theorem flatMap_replicate_of_one (n : Nat) {a : α} {b : β} (ha : f a = [b]) :
    (List.replicate n a).flatMap f = List.replicate n b := by
  rw [List.flatMap_replicate, ha, List.flatten_replicate_singleton]

end Lists

namespace Slots

variable {α : Type}

theorem replace_ofList (l : List (Slot α)) (i : Nat) (slot : Slot α) :
    (ofList l).replace i slot = ofList (l.set i slot) := by
  simp [ofList, replace]

theorem put_ofList {l : List (Slot α)} {i : Nat} (hi : i < l.length) (slot : Slot α) :
    (ofList l).put i slot = .ok (ofList (l.set i slot)) := by
  rw [put_eq (by simpa [ofList] using hi), replace_ofList]

theorem toList_replace_zero {s : Slots α} (h : s.Uniform 1) (slot : Slot α) :
    (s.replace 0 slot).slots.toList = [slot] := by
  obtain ⟨a, ha⟩ := List.length_eq_one_iff.mp (Array.length_toList.trans h.size_eq)
  simp [replace, ha]

theorem ofList_replicate (default : α) (n : Nat) :
    ofList (List.replicate n ⟨default, true⟩) = fresh default n := by
  simp [ofList, fresh]

/-- **New slots at the end are cut off** without a trace: the padding is that of new slots. -/
theorem truncate_ofList (default : α) (l : List (Slot α)) (n : Nat) :
    (ofList (l ++ List.replicate n ⟨default, true⟩)).truncate l.length = ofList l := by
  have huni := (uniform_ofList (l ++ List.replicate n ⟨default, true⟩)).truncate l.length
  have hpadding := huni.padding_length
  rw [List.length_append, Nat.min_eq_left (Nat.le_add_right _ _)] at hpadding
  unfold truncate at hpadding ⊢
  split at hpadding
  · rename_i hlt
    rw [if_pos hlt]
    refine congr (congrArg Slots.mk ?_) (List.eq_replicate_iff.mpr ⟨hpadding, fun b hb => ?_⟩)
    · simp [ofList]
    · -- the flags that are cut off are those of new slots, and the padding before was all set
      rcases List.mem_append.mp (List.mem_of_mem_take hb) with hb | hb
      · obtain ⟨slot, hslot, rfl⟩ := List.mem_map.mp hb
        rw [Array.toList_extract, ofList, List.extract_eq_take_drop, List.drop_left] at hslot
        rw [List.eq_of_mem_replicate (List.mem_of_mem_take hslot)]
      · exact List.eq_of_mem_replicate hb
  · rename_i hge
    obtain rfl : n = 0 := by
      simp [size, ofList] at hge
      omega
    rw [if_neg hge, List.replicate_zero, List.append_nil]

end Slots

namespace ChunkSpec

/-- What the operation does to slot `i` of joined chunks it does to the `i`-th of them. -/
structure Slotwise (spec : ChunkSpec) (f : Chunk → Nat → Outcome Chunk) : Prop where
  keeps : ∀ {c c' : Chunk}, c.spec = spec → c.Uniform 1 → f c 0 = .ok c' →
    c'.spec = spec ∧ c'.Uniform 1
  join : ∀ {cs : List Chunk} {i : Nat} {c : Chunk}, (∀ c ∈ cs, c.spec = spec ∧ c.Uniform 1) →
    cs[i]? = some c → f (spec.join cs) i = (fun c' => spec.join (cs.set i c')) <$> f c 0

variable {k : Kind} {inner spec : ChunkSpec} {f g : Chunk → Nat → Outcome Chunk}

/-! ## What setters are made of -/

theorem slotwise_fail {e : Error} (hf : ∀ c i, c.spec = spec → f c i = Outcome.fail e) :
    spec.Slotwise f where
  keeps {c c'} hspec _ hok := by
    rw [hf c 0 hspec] at hok
    cases hok
  join {cs i c} h hi := by
    rw [hf _ i (spec_join spec cs), hf c 0 (h c (List.mem_of_getElem? hi)).1]
    rfl

theorem slotwise_put (slot : Slot k.Value)
    (hf : ∀ s i, f (.plain k s) i = Chunk.plain k <$> s.put i slot) : Slotwise (.plain k) f where
  keeps {c c'} hspec huni hok := by
    obtain ⟨s, rfl⟩ := Chunk.exists_of_spec_plain hspec
    have hs : s.Uniform 1 := huni
    rw [hf, Slots.put_eq (by rw [hs.size_eq]; exact Nat.one_pos)] at hok
    cases hok
    exact ⟨rfl, hs.replace 0 slot⟩
  join {cs i c} h hi := by
    obtain ⟨s, rfl⟩ := Chunk.exists_of_spec_plain (h c (List.mem_of_getElem? hi)).1
    have hs : s.Uniform 1 := (h _ (List.mem_of_getElem? hi)).2
    have hlt : i < (cs.flatMap (·.slotsOf k)).length := by
      rw [length_flatMap_of_one (length_slotsOf h)]
      exact (List.getElem?_eq_some_iff.mp hi).1
    have hslots : (Chunk.plain k (s.replace 0 slot)).slotsOf k = [slot] := by
      rw [slotsOf_plain, Slots.toList_replace_zero hs]
    rw [join, hf, hf, Slots.put_ofList hlt,
      Slots.put_eq (by rw [hs.size_eq]; exact Nat.one_pos)]
    show _ = Except.ok (join (.plain k) (cs.set i (.plain k (s.replace 0 slot))))
    rw [join, flatMap_set_of_one (length_slotsOf h) i hslots]
    rfl

theorem slotwise_supplement (slot : Slot Bytes)
    (hf : ∀ c s i, f (.paired c s) i = Chunk.paired c <$> s.put i slot) :
    Slotwise (.paired inner) f where
  keeps {c c'} hspec huni hok := by
    obtain ⟨d, s, rfl, hd⟩ := Chunk.exists_of_spec_paired hspec
    have hs : s.Uniform 1 := huni.2
    rw [hf, Slots.put_eq (by rw [hs.size_eq]; exact Nat.one_pos)] at hok
    cases hok
    exact ⟨hspec, huni.1, hs.replace 0 slot⟩
  join {cs i c} h hi := by
    obtain ⟨d, s, rfl, hd⟩ := Chunk.exists_of_spec_paired (h c (List.mem_of_getElem? hi)).1
    have hs : s.Uniform 1 := (h _ (List.mem_of_getElem? hi)).2.2
    have hlt : i < (cs.flatMap Chunk.supplementSlots).length := by
      rw [length_flatMap_of_one (length_supplementSlots h)]
      exact (List.getElem?_eq_some_iff.mp hi).1
    have hprimary : (cs.set i (.paired d (s.replace 0 slot))).map Chunk.primary =
        cs.map Chunk.primary := by
      obtain ⟨hi', hget⟩ := List.getElem?_eq_some_iff.mp hi
      rw [List.map_set, Chunk.primary, show d = cs[i].primary by rw [hget, Chunk.primary],
        ← List.map_set, List.set_getElem_self]
    rw [join, hf, hf, Slots.put_ofList hlt,
      Slots.put_eq (by rw [hs.size_eq]; exact Nat.one_pos)]
    show _ = Except.ok (join (.paired inner) (cs.set i (.paired d (s.replace 0 slot))))
    have hslots : (Chunk.paired d (s.replace 0 slot)).supplementSlots = [slot] :=
      Slots.toList_replace_zero hs slot
    rw [join, hprimary, flatMap_set_of_one (length_supplementSlots h) i hslots]
    rfl

/-- An operation on the inner chunk of a pair. -/
theorem slotwise_inner (hg : inner.Slotwise g)
    (hf : ∀ c s i, c.spec = inner → f (.paired c s) i = (Chunk.paired · s) <$> g c i) :
    Slotwise (.paired inner) f where
  keeps {c c'} hspec huni hok := by
    obtain ⟨d, s, rfl, hd⟩ := Chunk.exists_of_spec_paired hspec
    rw [hf d s 0 hd] at hok
    cases hd' : g d 0 with
    | error e =>
      rw [hd'] at hok
      cases hok
    | ok d' =>
      rw [hd'] at hok
      cases hok
      obtain ⟨hspec', huni'⟩ := hg.keeps hd huni.1 hd'
      exact ⟨congrArg ChunkSpec.paired hspec', huni', huni.2⟩
  join {cs i c} h hi := by
    obtain ⟨d, s, rfl, hd⟩ := Chunk.exists_of_spec_paired (h c (List.mem_of_getElem? hi)).1
    have hprimary : (cs.map Chunk.primary)[i]? = some d := by
      rw [List.getElem?_map, hi]
      rfl
    rw [join, hf _ _ _ (spec_join _ _), hf d s 0 hd, hg.join (of_mem_map_primary h) hprimary]
    cases g d 0 with
    | error e => rfl
    | ok d' =>
      show _ = Except.ok (join (.paired inner) (cs.set i (.paired d' s)))
      -- the supplements stay where they are, whatever becomes of the inner chunks
      have hslots : (cs.set i (.paired d' s)).flatMap Chunk.supplementSlots =
          cs.flatMap Chunk.supplementSlots := flatMap_set_eq hi rfl
      rw [join, List.map_set, hslots]
      rfl

/-- An operation on plain chunks, which is done to the inner chunk of a pair and refused where that
is a pair again. -/
theorem slotwise_of_plain {e : ChunkSpec → Error} (hplain : ∀ k, Slotwise (.plain k) f)
    (hpaired : ∀ {k : Kind} (t : Slots k.Value) (s : Slots Bytes) (i : Nat),
      f (.paired (.plain k t) s) i = (Chunk.paired · s) <$> f (.plain k t) i)
    (hnested : ∀ c t s i, f (.paired (.paired c t) s) i = Outcome.fail (e (.paired c.spec)))
    (spec : ChunkSpec) : spec.Slotwise f := by
  cases spec with
  | plain k => exact hplain k
  | paired inner =>
    cases inner with
    | plain k =>
      refine slotwise_inner (hplain k) fun c s i hspec => ?_
      obtain ⟨t, rfl⟩ := Chunk.exists_of_spec_plain hspec
      exact hpaired t s i
    | paired inner =>
      refine slotwise_fail (e := e (.paired inner)) fun c i hspec => ?_
      obtain ⟨d, s, rfl, hd⟩ := Chunk.exists_of_spec_paired hspec
      obtain ⟨d, t, rfl, rfl⟩ := Chunk.exists_of_spec_paired hd
      exact hnested d t s i

/-! ## Setters -/

theorem slotwise_setMissing (spec : ChunkSpec) : spec.Slotwise fun c i => c.setMissing i := by
  induction spec with
  | plain k => exact slotwise_put _ fun s i => rfl
  | paired inner ih => exact slotwise_inner ih fun c s i _ => rfl

theorem slotwise_set_plain (k k' : Kind) (v : k.Value) :
    Slotwise (.plain k') fun c i => c.set k i v := by
  by_cases hk : k = k'
  · subst hk
    refine slotwise_put ⟨v, false⟩ fun s i => ?_
    simp only [Chunk.set, Chunk.modifyPrimary, dif_pos, Slots.set]
    rfl
  · refine slotwise_fail (e := .decode (.chunkShape (.kind k) (.plain k'))) fun c i hspec => ?_
    obtain ⟨s, rfl⟩ := Chunk.exists_of_spec_plain hspec
    simp only [Chunk.set, Chunk.modifyPrimary, hk, dif_neg, not_false_iff, Chunk.wrongShape,
      Chunk.spec]

theorem slotwise_set (spec : ChunkSpec) (k : Kind) (v : k.Value) :
    spec.Slotwise fun c i => c.set k i v :=
  slotwise_of_plain (e := fun found => .decode (.chunkShape (.kind k) found))
    (slotwise_set_plain k · v) (fun _ _ _ => rfl) (fun _ _ _ _ => rfl) spec

theorem slotwise_setBytes_plain (k : Kind) (v : Bytes) :
    Slotwise (.plain k) fun c i => c.setBytes i v := by
  have hrefused : (∀ s : Slots k.Value, (Chunk.plain k s).byteSlots? = none) →
      Slotwise (.plain k) fun c i => c.setBytes i v := by
    intro hnone
    refine slotwise_fail (e := .decode (.chunkShape .varLength (.plain k))) fun c i hspec => ?_
    obtain ⟨s, rfl⟩ := Chunk.exists_of_spec_plain hspec
    have := hnone s
    cases k <;> first | rfl | cases this
  cases k with
  | string | rowKey | binary => exact slotwise_put ⟨v, false⟩ fun s i => rfl
  | int | long | double | boolean => exact hrefused fun s => rfl

theorem slotwise_setBytes (spec : ChunkSpec) (v : Bytes) :
    spec.Slotwise fun c i => c.setBytes i v :=
  slotwise_of_plain (e := fun found => .decode (.chunkShape .varLength found))
    (slotwise_setBytes_plain · v) (fun _ _ _ => rfl) (fun _ _ _ _ => rfl) spec

theorem slotwise_setText (spec : ChunkSpec) (v : String) :
    spec.Slotwise fun c i => c.setText i v :=
  slotwise_setBytes spec (Utf8.encode v)

/-! ## New chunks -/

theorem slotsOf_fresh (k : Kind) :
    ((ChunkSpec.plain k).fresh 1).slotsOf k = [⟨k.default, true⟩] :=
  slotsOf_plain k _

theorem supplementSlots_fresh (inner : ChunkSpec) :
    ((paired inner).fresh 1).supplementSlots = [⟨[], true⟩] := rfl

theorem join_replicate_fresh (spec : ChunkSpec) (n : Nat) :
    spec.join (List.replicate n (spec.fresh 1)) = spec.fresh n := by
  induction spec with
  | plain k =>
    rw [join, flatMap_replicate_of_one n (slotsOf_fresh k), Slots.ofList_replicate]
    rfl
  | paired inner ih =>
    rw [join, List.map_replicate, flatMap_replicate_of_one n (supplementSlots_fresh inner),
      Slots.ofList_replicate]
    exact congrArg (Chunk.paired · _) ih

/-- **Cutting off new chunks** at the end. -/
theorem truncate_join {cs : List Chunk} (h : ∀ c ∈ cs, c.spec = spec ∧ c.Uniform 1) (n : Nat) :
    (spec.join (cs ++ List.replicate n (spec.fresh 1))).truncate cs.length = spec.join cs := by
  induction spec generalizing cs with
  | plain k =>
    rw [join, List.flatMap_append, flatMap_replicate_of_one n (slotsOf_fresh k),
      ← length_flatMap_of_one (length_slotsOf h), Chunk.truncate, Slots.truncate_ofList]
    rfl
  | paired inner ih =>
    have hinner := ih (of_mem_map_primary h)
    rw [List.length_map] at hinner
    have hmap : (cs ++ List.replicate n ((paired inner).fresh 1)).map Chunk.primary =
        cs.map Chunk.primary ++ List.replicate n (inner.fresh 1) := by
      rw [List.map_append, List.map_replicate]
      rfl
    rw [join, hmap, List.flatMap_append, flatMap_replicate_of_one n (supplementSlots_fresh inner),
      Chunk.truncate, hinner, ← length_flatMap_of_one (length_supplementSlots h),
      Slots.truncate_ofList]
    rfl

/-- **Resetting a slot** makes it a new one, in a chunk without nested pairs. -/
theorem reset_join_plain {cs : List Chunk}
    (h : ∀ c ∈ cs, c.spec = .plain k ∧ c.Uniform 1) {i : Nat} (hi : i < cs.length) :
    (join (.plain k) cs).reset i = .ok (join (.plain k) (cs.set i (fresh (.plain k) 1))) := by
  have hlt : i < (cs.flatMap (·.slotsOf k)).length := by
    rwa [length_flatMap_of_one (length_slotsOf h)]
  rw [join, join, flatMap_set_of_one (length_slotsOf h) i (slotsOf_fresh k), Chunk.reset,
    Chunk.setMissing, Slots.clear, Slots.put_ofList hlt]
  · rfl
  · intro _ _ h
    cases h

theorem reset_join_pair {cs : List Chunk}
    (h : ∀ c ∈ cs, c.spec = .paired (.plain k) ∧ c.Uniform 1) {i : Nat} (hi : i < cs.length) :
    (join (.paired (.plain k)) cs).reset i =
      .ok (join (.paired (.plain k)) (cs.set i (fresh (.paired (.plain k)) 1))) := by
  have hprimary := of_mem_map_primary h
  have hlt : i < ((cs.map Chunk.primary).flatMap (·.slotsOf k)).length := by
    rwa [length_flatMap_of_one (length_slotsOf hprimary), List.length_map]
  have hlt' : i < (cs.flatMap Chunk.supplementSlots).length := by
    rwa [length_flatMap_of_one (length_supplementSlots h)]
  have hset : join (.paired (.plain k)) (cs.set i (fresh (.paired (.plain k)) 1)) =
      .paired (.plain k (.ofList (((cs.map Chunk.primary).flatMap (·.slotsOf k)).set i
        ⟨k.default, true⟩)))
        (.ofList ((cs.flatMap Chunk.supplementSlots).set i ⟨[], true⟩)) := by
    rw [join, List.map_set, join]
    show Chunk.paired (.plain k (.ofList (((cs.map Chunk.primary).set i
      (fresh (.plain k) 1)).flatMap (·.slotsOf k)))) _ = _
    rw [flatMap_set_of_one (length_slotsOf hprimary) i (slotsOf_fresh k),
      flatMap_set_of_one (length_supplementSlots h) i (supplementSlots_fresh _)]
  rw [hset]
  simp only [join, Chunk.reset, Slots.clear, Slots.put_ofList hlt', Slots.put_ofList hlt,
    Outcome.ok_bind, Chunk.setMissing]
  rfl

end ChunkSpec

end Columnar
