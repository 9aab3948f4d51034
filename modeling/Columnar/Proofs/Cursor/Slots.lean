import Columnar.Cursor.Read
import Mathlib.Order.Bounds.Defs

/-!
# Slots of selected columns

**Selections.** However the columns are listed, the selection has each of them once, in ascending
order, so the first that is not in the schema is the least (`outside?_ofList`).

**Two maps.** The selection leads from a slot to its column, the slot table from a column to its
slot. The table is filled in slot by slot. As no column has two slots, no entry is overwritten, and
the maps are inverse to each other (`getElem?_slotTable`).

**Access.** At a row there are three cases: the column is not in the schema (`get_of_outside`), it is
not selected (`get_of_unselected`), or it has a slot, which gives the column's own type and the chunk
in the slot (`get_of_slot`).
-/

namespace Columnar

namespace Selection

variable {slot column k n : Nat} {columns : List Nat} {table : Array (Option Nat)}
  {selection : Selection}

theorem contains_ofList {columns : List Nat} {j : Nat} :
    (ofList columns).contains j = true ↔ j ∈ columns := by
  rw [contains, List.contains_iff_mem, mem_ofList]

theorem outside?_ofList {columns : List Nat} {n j : Nat}
    (h : IsLeast {i | i ∈ columns ∧ n ≤ i} j) : (ofList columns).outside? n = some j := by
  obtain ⟨⟨hmem, hle⟩, hleast⟩ := h
  have hj : j ∈ (ofList columns).columns := mem_ofList.mpr hmem
  have hfind : ((ofList columns).columns.find? (n ≤ ·)).isSome = true :=
    List.find?_isSome.mpr ⟨j, hj, by simpa using hle⟩
  obtain ⟨i, hi⟩ := Option.isSome_iff_exists.mp hfind
  obtain ⟨hni, before, after, hsplit, hbefore⟩ := List.find?_eq_some_iff_append.mp hi
  have hin : i ∈ (ofList columns).columns := by rw [hsplit]; simp
  have hji : j ≤ i := hleast ⟨mem_ofList.mp hin, by simpa using hni⟩
  have hincreasing := (ofList columns).increasing
  rw [hsplit] at hj hincreasing
  rw [outside?, hi]
  rcases List.mem_append.mp hj with hj | hj
  · simpa [hle] using hbefore j hj
  · rcases List.mem_cons.mp hj with rfl | hj
    · rfl
    · have hlt := (List.pairwise_cons.mp (List.pairwise_append.mp hincreasing).2.1).1 j hj
      omega

/-! ## The slot table -/

theorem size_enterSlots (slot : Nat) (columns : List Nat) (table : Array (Option Nat)) :
    (enterSlots slot columns table).size = table.size := by
  induction columns generalizing slot table with
  | nil => rfl
  | cons c columns ih => rw [enterSlots, ih, Array.size_setIfInBounds]

theorem getElem?_enterSlots_of_not_mem (h : column ∉ columns) :
    (enterSlots slot columns table)[column]? = table[column]? := by
  induction columns generalizing slot table with
  | nil => rfl
  | cons c columns ih =>
    obtain ⟨hne, hnot⟩ := List.ne_and_not_mem_of_not_mem_cons h
    rw [enterSlots, ih hnot, Array.getElem?_setIfInBounds_ne (Ne.symm hne)]

/-- A column has the slot that it was entered with, since it is not entered a second time. -/
theorem getElem?_enterSlots (hnodup : columns.Nodup) (hk : columns[k]? = some column)
    (hlt : column < table.size) :
    (enterSlots slot columns table)[column]? = some (some (slot + k)) := by
  induction columns generalizing slot table k with
  | nil => cases hk
  | cons c columns ih =>
    obtain ⟨hnot, hnodup⟩ := List.nodup_cons.mp hnodup
    cases k with
    | zero =>
      cases hk
      rw [enterSlots, getElem?_enterSlots_of_not_mem hnot,
        Array.getElem?_setIfInBounds_self_of_lt hlt, Nat.add_zero]
    | succ k =>
      rw [enterSlots, ih hnodup hk (by rwa [Array.size_setIfInBounds]), Nat.add_right_comm,
        Nat.add_assoc]

theorem getElem?_slotTable_of_le (h : n ≤ column) : (selection.slotTable n)[column]? = none := by
  refine Array.getElem?_eq_none ?_
  rwa [slotTable, size_enterSlots, Array.size_replicate]

theorem getElem?_slotTable_of_not_mem (hlt : column < n) (h : column ∉ selection.columns) :
    (selection.slotTable n)[column]? = some none := by
  rw [slotTable, getElem?_enterSlots_of_not_mem h, Array.getElem?_replicate, if_pos hlt]

theorem getElem?_slotTable (hlt : column < n) (hk : selection.columns[k]? = some column) :
    (selection.slotTable n)[column]? = some (some k) := by
  have hnodup : selection.columns.Nodup := selection.increasing.imp Nat.ne_of_lt
  rw [slotTable, getElem?_enterSlots hnodup hk (by rwa [Array.size_replicate]), Nat.zero_add]

end Selection

namespace ReadCursor

variable {c : ReadCursor} {b row j k : Nat} {column : PhysicalColumn}

/-! ## Access -/

theorem isSelected_iff : c.isSelected j = true ↔ j < c.schema.length ∧ j ∈ c.selection.columns := by
  rw [isSelected, slotTable]
  rcases Nat.lt_or_ge j c.schema.length with hlt | hge
  · by_cases hsel : j ∈ c.selection.columns
    · obtain ⟨k, hk⟩ := List.getElem?_of_mem hsel
      simp [Selection.getElem?_slotTable hlt hk, hlt, hsel]
    · simp [Selection.getElem?_slotTable_of_not_mem hlt hsel, hsel]
  · simp [Selection.getElem?_slotTable_of_le hge, Nat.not_lt.mpr hge]

theorem get_of_outside (hp : c.position? = some (b, row)) (hj : c.schema.length ≤ j) :
    c.get j = Outcome.fail (.invalidColumn j) := by
  simp only [get, hp, slotTable, Selection.getElem?_slotTable_of_le hj]

theorem get_of_unselected (hp : c.position? = some (b, row)) (hj : j < c.schema.length)
    (hsel : j ∉ c.selection.columns) : c.get j = Outcome.fail (.columnNotSelected j) := by
  simp only [get, hp, slotTable, Selection.getElem?_slotTable_of_not_mem hj hsel]

theorem get_of_slot (hp : c.position? = some (b, row)) (hj : c.schema[j]? = some column)
    (hk : c.selection.columns[k]? = some j) :
    c.get j = (fun chunk => (⟨column, chunk⟩, row)) <$> Outcome.ofIndex c.chunks[k]? := by
  have hlt : j < c.schema.length := (List.getElem?_eq_some_iff.mp hj).1
  have hcolumn : c.selection.columns[k]?.bind (c.schema[·]?) = some column := by
    rw [hk, Option.bind_some, hj]
  simp only [get, hp, slotTable, Selection.getElem?_slotTable hlt hk, source, hcolumn]
  cases c.chunks[k]? <;> rfl

/-- An access that succeeds has found the chunk in the slot of the column. -/
theorem exists_slot_of_get {i : Nat} {source : CellSource} (hp : c.position? = some (b, row))
    (hget : c.get j = .ok (source, i)) : ∃ k : Nat, c.selection.columns[k]? = some j ∧
      c.schema[j]? = some source.column ∧ c.chunks[k]? = some source.chunk ∧ i = row := by
  rcases Nat.lt_or_ge j c.schema.length with hlt | hge
  · by_cases hsel : j ∈ c.selection.columns
    · obtain ⟨k, hk⟩ := List.getElem?_of_mem hsel
      have hcolumn := List.getElem?_eq_getElem hlt
      rw [get_of_slot hp hcolumn hk] at hget
      cases hchunk : c.chunks[k]? with
      | none =>
        rw [hchunk] at hget
        cases hget
      | some chunk =>
        rw [hchunk] at hget
        cases hget
        exact ⟨k, hk, hcolumn, hchunk, rfl⟩
    · rw [get_of_unselected hp hlt hsel] at hget
      cases hget
  · rw [get_of_outside hp hge] at hget
    cases hget

end ReadCursor

end Columnar
