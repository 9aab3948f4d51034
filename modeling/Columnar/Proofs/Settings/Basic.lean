import Columnar.Settings.Basic

/-!
# Ordered settings trees

**Order** (`Settings.Ordered`). The keys of a tree are in ascending order, and so are those of the
trees in it. Adding an entry keeps the order (`Ordered.insert`), and the entry is found again
(`find?_insert`). Adding it once more changes nothing (`Ordered.insert_of_find?`).

**Reading in order.** Entries that come one by one with greater and greater keys make up the tree
they are read from (`insert_of_above`).
-/

namespace Columnar.Settings

/-- All keys of the tree are greater. -/
def Above (key : String) (s : Settings) : Prop := ∀ k ∈ s.keys, key < k

/-- The keys are in ascending order, also within the trees of the tree. -/
def Ordered : Settings → Prop
  | empty => True
  | scalar k _ rest => Above k rest ∧ rest.Ordered
  | nested k t rest => Above k rest ∧ t.Ordered ∧ rest.Ordered

/-- The value has its keys in order if it is a tree. -/
def Value.Ordered : Value → Prop
  | .scalar _ => True
  | .tree t => t.Ordered

variable {key : String} {v : Value} {s : Settings}

/-! ## Insertion -/

theorem keys_cons : (cons key v s).keys = key :: s.keys := by
  cases v <;> rfl

theorem ordered_cons : (cons key v s).Ordered ↔ Above key s ∧ v.Ordered ∧ s.Ordered := by
  cases v with
  | scalar v => exact ⟨fun h => ⟨h.1, trivial, h.2⟩, fun h => ⟨h.1, h.2.2⟩⟩
  | tree t => exact Iff.rfl

theorem above_empty (key : String) : Above key empty := fun _ h => nomatch h

theorem Above.trans {k : String} (hs : Above k s) (h : key < k) : Above key s :=
  fun k' hk' => String.lt_trans h (hs k' hk')

theorem cons_cases (s : Settings) : s = empty ∨ ∃ key v rest, s = cons key v rest := by
  cases s with
  | empty => exact .inl rfl
  | scalar k v rest => exact .inr ⟨k, .scalar v, rest, rfl⟩
  | nested k t rest => exact .inr ⟨k, .tree t, rest, rfl⟩

theorem insert_cons (key : String) (v : Value) (k : String) (w : Value) (rest : Settings) :
    (cons k w rest).insert key v =
      if key < k then cons key v (cons k w rest)
      else if key = k then cons key v rest
      else cons k w (rest.insert key v) := by
  cases w <;> rfl

theorem find?_cons (key k : String) (w : Value) (rest : Settings) :
    (cons k w rest).find? key = if key = k then some w else rest.find? key := by
  cases w <;> rfl

/-- Induction over entries, whatever their values. -/
theorem cons_induction {motive : Settings → Prop} (hempty : motive empty)
    (hcons : ∀ key v rest, motive rest → motive (cons key v rest)) (s : Settings) : motive s := by
  induction s with
  | empty => exact hempty
  | scalar k v rest ih => exact hcons k (.scalar v) rest ih
  | nested k t rest _ ih => exact hcons k (.tree t) rest ih

theorem mem_keys_insert {k : String} (h : k ∈ (s.insert key v).keys) : k = key ∨ k ∈ s.keys := by
  induction s using cons_induction with
  | hempty => exact List.mem_cons.mp (keys_cons (s := empty) ▸ h)
  | hcons k' w rest ih =>
    rw [insert_cons] at h
    rw [keys_cons]
    split at h
    · rw [keys_cons, keys_cons] at h
      exact List.mem_cons.mp h
    split at h
    · rw [keys_cons] at h
      exact (List.mem_cons.mp h).imp_right (List.mem_cons_of_mem k')
    · rw [keys_cons] at h
      rcases List.mem_cons.mp h with rfl | h
      · exact .inr List.mem_cons_self
      · exact (ih h).imp_right (List.mem_cons_of_mem k')

/-- **Adding an entry keeps the order.** -/
theorem Ordered.insert (hs : s.Ordered) (hv : v.Ordered) : (s.insert key v).Ordered := by
  induction s using cons_induction with
  | hempty => exact ordered_cons.mpr ⟨above_empty key, hv, trivial⟩
  | hcons k w rest ih =>
    obtain ⟨habove, hw, hrest⟩ := ordered_cons.mp hs
    rw [insert_cons]
    split
    · rename_i hlt
      refine ordered_cons.mpr ⟨?_, hv, hs⟩
      intro k' hk'
      rw [keys_cons] at hk'
      rcases List.mem_cons.mp hk' with rfl | hk'
      · exact hlt
      · exact habove.trans hlt k' hk'
    split
    · rename_i heq
      exact ordered_cons.mpr ⟨heq ▸ habove, hv, hrest⟩
    · rename_i hle hne
      refine ordered_cons.mpr ⟨?_, hw, ih hrest⟩
      intro k' hk'
      rcases mem_keys_insert hk' with rfl | hk'
      · -- neither smaller nor equal
        refine String.not_le.mp fun hge => hne (String.le_antisymm hge (String.not_lt.mp hle))
      · exact habove k' hk'

/-- **An entry that was added is found**, and hides no other. -/
theorem find?_insert (key key' : String) (v : Value) (s : Settings) :
    (s.insert key v).find? key' = if key' = key then some v else s.find? key' := by
  induction s using cons_induction with
  | hempty => exact find?_cons key' key v empty
  | hcons k w rest ih =>
    rw [insert_cons]
    split
    · rw [find?_cons]
    split
    · rename_i heq
      rw [find?_cons, find?_cons, heq]
      split <;> rfl
    · rename_i hne
      rw [find?_cons, find?_cons, ih]
      split
      · rename_i heq
        rw [if_neg fun h => hne (h.symm.trans heq)]
      · rfl

theorem find?_of_above (h : Above key s) : s.find? key = none := by
  induction s using cons_induction with
  | hempty => rfl
  | hcons k w rest ih =>
    rw [Above, keys_cons] at h
    have hlt := h k List.mem_cons_self
    rw [find?_cons, if_neg (String.ne_of_lt hlt),
      ih fun k' hk' => h k' (List.mem_cons_of_mem k hk')]

/-- The tree has all entries of the other. -/
def Includes (s t : Settings) : Prop := ∀ key v, t.find? key = some v → s.find? key = some v

/-- **Adding an entry that is there changes nothing.** -/
theorem Ordered.insert_of_find? (hs : s.Ordered) (h : s.find? key = some v) :
    s.insert key v = s := by
  induction s using cons_induction with
  | hempty => cases h
  | hcons k w rest ih =>
    obtain ⟨habove, -, hrest⟩ := ordered_cons.mp hs
    rw [find?_cons] at h
    rw [insert_cons]
    by_cases heq : key = k
    · rw [if_pos heq] at h
      cases h
      rw [if_neg (heq ▸ String.lt_irrefl _), if_pos heq, heq]
    · rw [if_neg heq] at h
      -- an entry behind the first has a greater key
      have hlt : ¬ key < k := fun hlt => by
        rw [find?_of_above (habove.trans hlt)] at h
        cases h
      rw [if_neg hlt, if_neg heq, ih hrest h]

theorem getAs_insert {α : Type} (expected : EntryType) (project : Value → Option α)
    (key key' : String) (v : Value) (s : Settings) :
    (s.insert key v).getAs expected project key' =
      if key' = key then
        Outcome.ofOption (.invalidSettings (.wrongType key' v.type expected)) (project v)
      else s.getAs expected project key' := by
  rw [getAs, find?_insert]
  by_cases h : key' = key
  · rw [if_pos h, if_pos h]
  · rw [if_neg h, if_neg h, getAs]

/-! ## Entries in order -/

/-- The entries of one tree behind those of another. -/
def append : Settings → Settings → Settings
  | empty, t => t
  | scalar k v rest, t => scalar k v (rest.append t)
  | nested k u rest, t => nested k u (rest.append t)

theorem cons_append (k : String) (w : Value) (rest t : Settings) :
    (cons k w rest).append t = cons k w (rest.append t) := by
  cases w <;> rfl

theorem append_cons (key : String) (v : Value) (s t : Settings) :
    (s.append (cons key v empty)).append t = s.append (cons key v t) := by
  induction s using cons_induction with
  | hempty => exact cons_append key v empty t
  | hcons k w rest ih => rw [cons_append, cons_append, cons_append, ih]

theorem mem_keys_append_cons {k : String} :
    k ∈ (s.append (cons key v empty)).keys ↔ k ∈ s.keys ∨ k = key := by
  induction s using cons_induction with
  | hempty =>
    rw [show empty.append (cons key v empty) = cons key v empty from rfl, keys_cons]
    simp [keys]
  | hcons k' w rest ih =>
    rw [cons_append, keys_cons, keys_cons, List.mem_cons, List.mem_cons, ih, or_assoc]

/-- An entry with a key greater than all others goes to the end. -/
theorem insert_of_above (h : ∀ k ∈ s.keys, k < key) :
    s.insert key v = s.append (cons key v empty) := by
  induction s using cons_induction with
  | hempty => rfl
  | hcons k w rest ih =>
    rw [keys_cons] at h
    have hlt := h k List.mem_cons_self
    rw [insert_cons, if_neg (String.lt_asymm hlt), if_neg (String.ne_of_lt hlt).symm, cons_append,
      ih fun k' hk' => h k' (List.mem_cons_of_mem k hk')]

end Columnar.Settings
