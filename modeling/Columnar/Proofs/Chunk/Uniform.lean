import Columnar.Chunk.Basic

/-!
# Chunks of one size

**Uniform chunks** (`Chunk.Uniform`). All parts of a chunk have the same number of slots: a chunk
and its supplement, and the flags with the padding that fills up their bitmap. Fresh chunks are
uniform, and replacing a slot keeps them so.

**Joining.** The chunks of an open batch have one slot each. Joined they are a uniform chunk, whose
slots are theirs in order, with their supplements (`join_sameSlot`).
-/

namespace Columnar

namespace Slots

variable {α : Type}

/-- There are `n` slots, and the padding fills up a bitmap of `n` bits. -/
structure Uniform (n : Nat) (s : Slots α) : Prop where
  size_eq : s.slots.size = n
  padding_length : s.padding.length = paddingSize n

/-- The slots with one of them replaced. -/
def replace (s : Slots α) (i : Nat) (slot : Slot α) : Slots α :=
  ⟨s.slots.setIfInBounds i slot, s.padding⟩

theorem put_eq {s : Slots α} {i : Nat} (h : i < s.slots.size) (slot : Slot α) :
    s.put i slot = .ok (s.replace i slot) := by
  simp [put, replace, h, Array.setIfInBounds]

theorem getElem?_replace_self {s : Slots α} {i : Nat} (h : i < s.slots.size) (slot : Slot α) :
    (s.replace i slot).slots[i]? = some slot := by
  simp [replace, h]

theorem getElem?_replace_of_ne (s : Slots α) {i j : Nat} (h : j ≠ i) (slot : Slot α) :
    (s.replace i slot).slots[j]? = s.slots[j]? :=
  Array.getElem?_setIfInBounds_ne h.symm

theorem replace_getElem (s : Slots α) {i : Nat} (h : i < s.slots.size) :
    s.replace i s.slots[i] = s := by
  simp [replace, Array.setIfInBounds, h]

theorem Uniform.replace {s : Slots α} {n : Nat} (h : s.Uniform n) (i : Nat) (slot : Slot α) :
    (s.replace i slot).Uniform n :=
  ⟨by simp [Slots.replace, h.size_eq], h.padding_length⟩

/-- The flags that are cut off go into the padding, which fills up the last byte again. -/
theorem Uniform.truncate {s : Slots α} {n : Nat} (h : s.Uniform n) (m : Nat) :
    (s.truncate m).Uniform (min m n) := by
  have hsize := h.size_eq
  have hpadding := h.padding_length
  unfold Slots.truncate Slots.size
  split
  · refine ⟨by simp; omega, ?_⟩
    rw [paddingSize] at hpadding
    simp only [List.length_take, List.length_append, List.length_map, Array.length_toList,
      Array.size_extract, hpadding, hsize, paddingSize]
    omega
  · rwa [Nat.min_eq_right (by omega)]

theorem uniform_fresh (default : α) (n : Nat) : (fresh default n).Uniform n :=
  ⟨by simp [fresh], by simp [fresh]⟩

theorem uniform_ofList (slots : List (Slot α)) : (ofList slots).Uniform slots.length :=
  ⟨by simp [ofList], by simp [ofList]⟩

theorem length_values (s : Slots α) : s.values.length = s.size := by simp [values, size]

theorem length_flags (s : Slots α) : s.flags.length = s.size := by simp [flags, size]

theorem Uniform.length_values {s : Slots α} {n : Nat} (h : s.Uniform n) : s.values.length = n :=
  s.length_values.trans h.size_eq

theorem Uniform.length_flags {s : Slots α} {n : Nat} (h : s.Uniform n) : s.flags.length = n :=
  s.length_flags.trans h.size_eq

@[simp] theorem getElem?_ofList (slots : List (Slot α)) (i : Nat) :
    (ofList slots).slots[i]? = slots[i]? := by
  simp [ofList]

theorem value_of_getElem? {s : Slots α} {i : Nat} {slot : Slot α} (h : s.slots[i]? = some slot) :
    s.value i = .ok slot.value := by
  simp [value, h, Outcome.ofIndex]

theorem isMissing_of_getElem? {s : Slots α} {i : Nat} {slot : Slot α}
    (h : s.slots[i]? = some slot) : s.isMissing i = .ok slot.missing := by
  simp [isMissing, h, Outcome.ofIndex]

end Slots

namespace Chunk

/-- Every part of the chunk has `n` slots. -/
def Uniform (n : Nat) : Chunk → Prop
  | plain _ s => s.Uniform n
  | paired inner s => inner.Uniform n ∧ s.Uniform n

/-- Slot `i` of a chunk is slot `j` of another, and so are the slots of the supplements. -/
inductive SameSlot (i j : Nat) : Chunk → Chunk → Prop
  | plain {k : Kind} {s t : Slots k.Value} (h : s.slots[i]? = t.slots[j]?) :
    SameSlot i j (.plain k s) (.plain k t)
  | paired {c d : Chunk} {s t : Slots Bytes} (h : SameSlot i j c d)
    (hs : s.slots[i]? = t.slots[j]?) : SameSlot i j (.paired c s) (.paired d t)

theorem Uniform.size_eq {n : Nat} {c : Chunk} (h : c.Uniform n) : c.size = n := by
  induction c with
  | plain k s => exact h.1
  | paired inner s ih => exact ih h.1

theorem exists_of_spec_plain {k : Kind} {c : Chunk} (h : c.spec = .plain k) :
    ∃ s, c = plain k s := by
  cases c with
  | plain k' s =>
    cases h
    exact ⟨s, rfl⟩
  | paired inner s => cases h

theorem exists_of_spec_paired {spec : ChunkSpec} {c : Chunk} (h : c.spec = .paired spec) :
    ∃ inner s, c = paired inner s ∧ inner.spec = spec := by
  cases c with
  | plain k s => cases h
  | paired inner s =>
    cases h
    exact ⟨inner, s, rfl, rfl⟩

end Chunk

namespace ChunkSpec

theorem spec_fresh (spec : ChunkSpec) (n : Nat) : (spec.fresh n).spec = spec := by
  induction spec with
  | plain k => rfl
  | paired inner ih => simp [fresh, Chunk.spec, ih]

theorem uniform_fresh (spec : ChunkSpec) (n : Nat) : (spec.fresh n).Uniform n := by
  induction spec with
  | plain k => exact Slots.uniform_fresh k.default n
  | paired inner ih => exact ⟨ih, Slots.uniform_fresh [] n⟩

/-! ## Joining chunks of one slot -/

theorem length_flatMap_of_one {α β : Type} {f : α → List β} {l : List α}
    (h : ∀ a ∈ l, (f a).length = 1) : (l.flatMap f).length = l.length := by
  induction l with
  | nil => rfl
  | cons a l ih =>
    have ha := h a List.mem_cons_self
    have hl := ih fun b hb => h b (List.mem_cons_of_mem a hb)
    rw [List.flatMap_cons, List.length_append, ha, hl, List.length_cons, Nat.add_comm]

theorem getElem?_flatMap_of_one {α β : Type} {f : α → List β} {l : List α}
    (h : ∀ a ∈ l, (f a).length = 1) (i : Nat) :
    (l.flatMap f)[i]? = l[i]?.bind fun a => (f a)[0]? := by
  induction l generalizing i with
  | nil => simp
  | cons a l ih =>
    have ha := h a List.mem_cons_self
    rw [List.flatMap_cons]
    cases i with
    | zero =>
      rw [List.getElem?_append_left (by omega)]
      rfl
    | succ i =>
      rw [List.getElem?_append_right (by omega), ha]
      simpa using ih (fun b hb => h b (List.mem_cons_of_mem a hb)) i

theorem slotsOf_plain (k : Kind) (s : Slots k.Value) :
    (Chunk.plain k s).slotsOf k = s.slots.toList := by
  simp [Chunk.slotsOf]

theorem spec_join (spec : ChunkSpec) (cs : List Chunk) : (spec.join cs).spec = spec := by
  induction spec generalizing cs with
  | plain k => rfl
  | paired inner ih => simp [join, Chunk.spec, ih]

theorem of_mem_map_primary {spec : ChunkSpec} {cs : List Chunk}
    (h : ∀ c ∈ cs, c.spec = .paired spec ∧ c.Uniform 1) :
    ∀ c ∈ cs.map Chunk.primary, c.spec = spec ∧ c.Uniform 1 := by
  intro c hc
  obtain ⟨d, hd, rfl⟩ := List.mem_map.mp hc
  obtain ⟨hspec, huni⟩ := h d hd
  obtain ⟨inner, t, rfl, hi⟩ := Chunk.exists_of_spec_paired hspec
  exact ⟨hi, huni.1⟩

theorem length_slotsOf {k : Kind} {cs : List Chunk}
    (h : ∀ c ∈ cs, c.spec = .plain k ∧ c.Uniform 1) : ∀ c ∈ cs, (c.slotsOf k).length = 1 := by
  intro c hc
  obtain ⟨hspec, huni⟩ := h c hc
  obtain ⟨s, rfl⟩ := Chunk.exists_of_spec_plain hspec
  rw [slotsOf_plain]
  exact huni.size_eq

theorem length_supplementSlots {spec : ChunkSpec} {cs : List Chunk}
    (h : ∀ c ∈ cs, c.spec = .paired spec ∧ c.Uniform 1) :
    ∀ c ∈ cs, c.supplementSlots.length = 1 := by
  intro c hc
  obtain ⟨hspec, huni⟩ := h c hc
  obtain ⟨inner, t, rfl, -⟩ := Chunk.exists_of_spec_paired hspec
  exact huni.2.size_eq

theorem uniform_join {spec : ChunkSpec} {cs : List Chunk}
    (h : ∀ c ∈ cs, c.spec = spec ∧ c.Uniform 1) : (spec.join cs).Uniform cs.length := by
  induction spec generalizing cs with
  | plain k =>
    show (Slots.ofList _).Uniform cs.length
    rw [← length_flatMap_of_one (length_slotsOf h)]
    exact Slots.uniform_ofList _
  | paired inner ih =>
    refine ⟨?_, ?_⟩
    · simpa using ih (of_mem_map_primary h)
    · show (Slots.ofList _).Uniform cs.length
      rw [← length_flatMap_of_one (length_supplementSlots h)]
      exact Slots.uniform_ofList _

/-- **Chunks of one slot join to a chunk that has their slots** in order. -/
theorem join_sameSlot {spec : ChunkSpec} {cs : List Chunk}
    (h : ∀ c ∈ cs, c.spec = spec ∧ c.Uniform 1) {i : Nat} {d : Chunk} (hi : cs[i]? = some d) :
    (spec.join cs).SameSlot i 0 d := by
  induction spec generalizing cs d with
  | plain k =>
    obtain ⟨s, rfl⟩ := Chunk.exists_of_spec_plain (h d (List.mem_of_getElem? hi)).1
    refine .plain ?_
    rw [Slots.getElem?_ofList, getElem?_flatMap_of_one (length_slotsOf h), hi, Option.bind_some,
      slotsOf_plain, Array.getElem?_toList]
  | paired spec ih =>
    obtain ⟨inner, t, rfl, -⟩ :=
      Chunk.exists_of_spec_paired (h d (List.mem_of_getElem? hi)).1
    refine .paired (ih (of_mem_map_primary h) ?_) ?_
    · rw [List.getElem?_map, hi]
      rfl
    · rw [Slots.getElem?_ofList, getElem?_flatMap_of_one (length_supplementSlots h), hi,
        Option.bind_some, ← Array.getElem?_toList]
      rfl

end ChunkSpec

end Columnar
