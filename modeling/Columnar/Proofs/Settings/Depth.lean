import Mathlib
import Columnar.Proofs.Settings.Text

/-!
# Every tree that can be made comes back from its file

**Making a tree** (`Settings.Made`). Trees are made entry by entry, an entry being a scalar or a
tree that was made before. These are the trees whose keys ascend (`made_iff_ordered`), whatever
the order in which the entries were added.

**Depth.** A file nests two objects for each tree within a tree, and a list of texts takes one
array more, so that a tree `n` deep needs a nesting of at most `2 * n + 3` (`nesting_le_depth`).

Main result: `load_of_save_made`. A tree of a depth up to 60 that was saved is loaded as it was,
every entry with its own type: a number of 32 bits does not come back as one of 64.
-/

namespace Columnar.Settings

/-! ## Trees made entry by entry -/

/-- The trees that come from the empty one by adding entries. -/
inductive Made : Settings → Prop
  | empty : Made empty
  | scalar (key : String) (v : Scalar) (hs : Made s) : Made (s.insert key (.scalar v))
  | tree (key : String) (ht : Made t) (hs : Made s) : Made (s.insert key (.tree t))

variable {key path : String} {v : Value} {s : Settings} {fs fs' : Files}

/-- An entry with a key smaller than all others goes to the front. -/
theorem insert_of_above_key (h : Above key s) : s.insert key v = cons key v s := by
  rcases cons_cases s with rfl | ⟨k, w, rest, rfl⟩
  · rfl
  · have hlt : key < k := by
      apply h
      rw [keys_cons]
      exact List.mem_cons_self
    rw [insert_cons, if_pos hlt]

/-- **The trees that can be made are those whose keys ascend.** -/
theorem made_iff_ordered : s.Made ↔ s.Ordered := by
  constructor
  · intro h
    induction h with
    | empty => trivial
    | scalar key v _ ih => exact ih.insert trivial
    | tree key _ _ iht ih => exact ih.insert iht
  · intro h
    -- the first entry is the one that is added last
    induction s with
    | empty => exact .empty
    | scalar k v rest ih =>
      obtain ⟨habove, hrest⟩ := h
      have hmade := Made.scalar k v (ih hrest)
      rwa [insert_of_above_key habove] at hmade
    | nested k t rest iht ih =>
      obtain ⟨habove, ht, hrest⟩ := h
      have hmade := Made.tree k (iht ht) (ih hrest)
      rwa [insert_of_above_key habove] at hmade

/-! ## Depth -/

/-- How many trees are within one another below a tree. -/
def depth : Settings → Nat
  | empty => 0
  | scalar _ _ rest => rest.depth
  | nested _ t rest => max (t.depth + 1) rest.depth

theorem nesting_scalar_le (v : Scalar) : v.nesting ≤ 2 := by
  cases v <;> simp [Scalar.nesting]

/-- **The nesting of a tree in its file is bounded by its depth.** -/
theorem nesting_le_depth (s : Settings) : s.nesting ≤ 2 * s.depth + 3 := by
  induction s with
  | empty => simp [nesting, depth]
  | scalar k v rest ih =>
    have hscalar := nesting_scalar_le v
    rw [nesting, depth]
    omega
  | nested k t rest iht ih =>
    rw [nesting, depth]
    omega

theorem Made.readable (h : s.Made) (hdepth : s.depth ≤ 60) : s.Readable maxNesting where
  ordered := made_iff_ordered.mp h
  nesting_le := by
    have hnesting := nesting_le_depth s
    rw [maxNesting]
    omega

/-! ## The round trip -/

/-- **A tree that was saved is loaded as it was**, wherever it was saved and whatever the file held
before. Trees that are equal have entries of the same types under the same keys. -/
theorem load_of_save_made (hmade : s.Made) (hdepth : s.depth ≤ 60)
    (hsave : s.save path fs = (.ok (), fs')) : load fs' path = .ok s :=
  load_of_save (hmade.readable hdepth) hsave

/-- A tree whose texts need escapes, with the limits of both widths and a tree in a tree. -/
def sampleTree : Settings :=
  empty
    |>.addTree "z" (empty.addTree "" (empty.addInt "low" (-2147483648)))
    |>.addStrings "none" []
    |>.addStrings "some" ["\t", "a\"b"]
    |>.addInt "int" 7
    |>.addLong "long" 7
    |>.addLong "low" (-9223372036854775808)
    |>.addBool "on" true
    |>.addString "q\"\u0001\\" "é\n"

theorem load_of_save_made_sampleTree :
    sampleTree.Made ∧ sampleTree.depth ≤ 60 ∧
      ∃ fs', sampleTree.save "s" .empty = (.ok (), fs') ∧
        load fs' "s" = .ok sampleTree := by
  have hinner : (empty.addTree "" (empty.addInt "low" (-2147483648))).Made :=
    .tree _ (.scalar _ _ .empty) .empty
  have hmade : sampleTree.Made :=
    .scalar _ _ <| .scalar _ _ <| .scalar _ _ <| .scalar _ _ <| .scalar _ _ <|
      .scalar _ _ <| .scalar _ _ <| .tree _ hinner .empty
  have hdepth : sampleTree.depth ≤ 60 := by decide +kernel
  have hname : Files.nameOf? "s" = some "s" := by cbv
  obtain ⟨fs', hsave⟩ := sampleTree.save_of_name .empty hname (by cbv)
  exact ⟨hmade, hdepth, fs', hsave, load_of_save_made hmade hdepth hsave⟩

end Columnar.Settings
