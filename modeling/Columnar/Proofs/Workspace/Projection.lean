import Columnar.Proofs.Workspace.Saving

/-!
# What filters show

**Filters** (`ColumnFilter.FirstOutside`, `ColumnFilter.Within`). A filter has a first column that
the table does not have, or all its columns are there (`firstOutside_or_within`).

**Rows** (`Row.ProjectionOf`). A row that is read with a filter has the key of the full row, its
cells in the selected columns, and the mark of a column that was left out in all others.

Main result: `filter_projects`, for every table that is made.
-/

namespace Columnar

/-! ## Filters -/

/-- The columns of a selection increase, so the first that is not below `n` is the smallest. -/
theorem Selection.outside?_eq_some {s : Selection} {n j : Nat} :
    s.outside? n = some j ↔ j ∈ s.columns ∧ n ≤ j ∧ ∀ k ∈ s.columns, n ≤ k → j ≤ k := by
  have hfirst : ∀ {j}, s.outside? n = some j →
      j ∈ s.columns ∧ n ≤ j ∧ ∀ k ∈ s.columns, n ≤ k → j ≤ k := by
    intro j hfind
    obtain ⟨hj, front, back, hsplit, hfront⟩ := List.find?_eq_some_iff_append.mp hfind
    refine ⟨hsplit ▸ by simp, by simpa using hj, ?_⟩
    intro k hk hn
    have hincreasing := s.increasing
    rw [hsplit] at hk hincreasing
    rcases List.mem_append.mp hk with hk | hk
    · have hnot := hfront k hk
      simp [hn] at hnot
    · rcases List.mem_cons.mp hk with rfl | hk
      · exact Nat.le_refl _
      · exact Nat.le_of_lt
          ((List.pairwise_cons.mp (List.pairwise_append.mp hincreasing).2.1).1 k hk)
  refine ⟨hfirst, fun ⟨hj, hn, hleast⟩ => ?_⟩
  cases hfind : s.outside? n with
  | none =>
    have hnot := List.find?_eq_none.mp hfind j hj
    simp [hn] at hnot
  | some k =>
    obtain ⟨hk, hnk, hleastk⟩ := hfirst hfind
    rw [Nat.le_antisymm (hleastk j hj hn) (hleast k hk hnk)]

namespace ColumnFilter

/-- The smallest column of the filter that is none of the `n` data columns. -/
structure FirstOutside (f : ColumnFilter) (n j : Nat) : Prop where
  selected : ∃ s, f.selection? = some s ∧ j ∈ s.columns
  outside : n ≤ j
  least : ∀ s, f.selection? = some s → ∀ k ∈ s.columns, n ≤ k → j ≤ k

/-- All columns of the filter are among the `n` data columns. -/
def Within (f : ColumnFilter) (n : Nat) : Prop :=
  ∀ s, f.selection? = some s → ∀ j ∈ s.columns, j < n

variable {f : ColumnFilter} {n : Nat}

theorem validate_of_firstOutside {j : Nat} (h : f.FirstOutside n j) :
    f.validate n = Outcome.fail (.invalidColumn j) := by
  obtain ⟨s, hs, hj⟩ := h.selected
  have hfirst := Selection.outside?_eq_some.mpr ⟨hj, h.outside, h.least s hs⟩
  rw [validate, hs, Option.bind_some, hfirst]

theorem validate_of_within (h : f.Within n) : f.validate n = .ok () := by
  unfold validate
  cases hs : f.selection? with
  | none => rfl
  | some s =>
    have hnone : s.outside? n = none := by
      refine List.find?_eq_none.mpr fun j hj => ?_
      simpa using h s hs j hj
    rw [Option.bind_some, hnone]

theorem firstOutside_or_within (f : ColumnFilter) (n : Nat) :
    (∃ j, f.FirstOutside n j) ∨ f.Within n := by
  cases hs : f.selection? with
  | none => exact .inr fun s h => by rw [hs] at h; cases h
  | some s =>
    cases hfind : s.outside? n with
    | none =>
      refine .inr ?_
      intro s' hs' j hj
      rw [hs] at hs'
      cases hs'
      simpa using List.find?_eq_none.mp hfind j hj
    | some j =>
      obtain ⟨hj, hn, hleast⟩ := Selection.outside?_eq_some.mp hfind
      refine .inl ⟨j, ⟨s, hs, hj⟩, hn, ?_⟩
      intro s' hs'
      rw [hs] at hs'
      cases hs'
      exact hleast

end ColumnFilter

/-! ## Rows -/

/-- What the filter leaves of a row of `width` cells. -/
structure Row.ProjectionOf (f : ColumnFilter) (width : Nat) (row full : Row) : Prop where
  key_eq : row.key? = full.key?
  size_eq : row.size = width
  selected : ∀ j < width, f.selects j = true → row.cell j = full.cell j
  others : ∀ j < width, f.selects j = false → row.cell j = .ok .unmaterialized
  outside : ∀ j, width ≤ j → row.cell j = Outcome.fail (.invalidColumn j)

namespace Row

theorem size_masked (hasKeys : Bool) (isSelected : Nat → Bool) (r : Row) :
    (r.masked hasKeys isSelected).size = r.size := List.length_mapIdx

theorem cell_masked {hasKeys : Bool} {isSelected : Nat → Bool} {r : Row} {j : Nat}
    (h : j < r.size) :
    (r.masked hasKeys isSelected).cell j =
      if isSelected j then r.cell j else .ok .unmaterialized := by
  have hget : r.outcomes[j]? = some r.outcomes[j] := List.getElem?_eq_getElem h
  simp only [cell, masked, List.getElem?_mapIdx, hget, Option.map_some]

theorem cell_outside {r : Row} {j : Nat} (h : r.size ≤ j) :
    r.cell j = Outcome.fail (.invalidColumn j) := by
  rw [cell, List.getElem?_eq_none h]

theorem projectionOf_masked {hasKeys : Bool} {width : Nat} {r : Row}
    (h : r.Suits hasKeys width) (f : ColumnFilter) :
    (r.masked hasKeys f.selects).ProjectionOf f width
      (r.masked hasKeys ColumnFilter.all.selects) := by
  obtain rfl : r.size = width := h.length_eq
  exact {
    key_eq := rfl
    size_eq := size_masked _ _ r
    selected := fun j hj hs => by
      rw [cell_masked hj, cell_masked hj, hs]
      rfl
    others := fun j hj hs => by
      rw [cell_masked hj, hs]
      rfl
    outside := fun j hj => cell_outside (Nat.le_trans (Nat.le_of_eq (size_masked _ _ r)) hj) }

end Row

/-! ## Tables -/

namespace Workspace

variable {w : Workspace} {table : TableId}

/-- **A filter shows a projection of the table.** The table has a row for each number below its
size, as an iterator without a filter shows. A filter with columns that the table does not have is
refused for the smallest of them, and nothing is opened or changed. Every other filter gets an
iterator over as many rows, and these are the projections of the full rows. -/
theorem filter_projects {serializers : SerializerRegistry} (h : Made serializers w table) :
    ∃ t full, w.tables[table.index]? = some t ∧ full.length = t.info.size ∧
      w.Iterates table .all full ∧ ∀ f : ColumnFilter,
        (∀ j, f.FirstOutside t.info.spec.size j →
          iterate table f w = (Outcome.fail (.invalidColumn j), w)) ∧
        (f.Within t.info.spec.size → ∃ rows, w.Iterates table f rows ∧ rows.length = t.info.size ∧
          ∀ {i : Nat} {fullRow row : Row}, full[i]? = some fullRow → rows[i]? = some row →
            row.ProjectionOf f t.info.spec.size fullRow) := by
  obtain ⟨info, rows, hserves, -⟩ := h.serves
  obtain ⟨t, bs, ht, rfl, hfrom⟩ := id hserves
  have hholds := hfrom.holds
  refine ⟨t, rows.map (·.masked t.info.mapping.hasKeys ColumnFilter.all.selects), ht, ?_,
    iterate_of_serves hserves rfl, fun f => ⟨fun j hj => ?_, fun hf => ?_⟩⟩
  · rw [List.length_map, hholds.size_eq]
  · exact iterate_refused ht (ColumnFilter.validate_of_firstOutside hj)
  · refine ⟨_, iterate_of_serves hserves (ColumnFilter.validate_of_within hf), ?_, ?_⟩
    · rw [List.length_map, hholds.size_eq]
    · intro i fullRow row hfull hrow
      rw [List.getElem?_map] at hfull hrow
      obtain ⟨r, hr, rfl⟩ := Option.map_eq_some_iff.mp hfull
      rw [hr, Option.map_some] at hrow
      cases hrow
      exact Row.projectionOf_masked (hholds.suits r (List.mem_of_getElem? hr)) f

theorem filter_projects_sample :
    ∃ full rows, sampleMade.Iterates ⟨0⟩ .all full ∧ full.length = 3 ∧
      sampleMade.Iterates ⟨0⟩ (.only [1]) rows ∧ rows.length = 3 ∧
      (∀ {i : Nat} {fullRow row : Row}, full[i]? = some fullRow → rows[i]? = some row →
        row.ProjectionOf (.only [1]) 2 fullRow) ∧
      iterate ⟨0⟩ (.only [7, 0, 2]) sampleMade = (Outcome.fail (.invalidColumn 2), sampleMade) := by
  obtain ⟨t, full, ht, hlength, hall, hfilter⟩ := filter_projects
    (.container (show sampleSaver.serializers = .builtin from rfl) sampleRows_return sampleMade_run)
  rw [sampleMade_table] at ht
  cases ht
  obtain ⟨rows, hiterates, hsize, hrows⟩ := (hfilter (.only [1])).2 (by
    intro s hs j hj
    cases hs
    obtain rfl : j = 1 := List.mem_singleton.mp (Selection.mem_ofList.mp hj)
    decide)
  have hrefused := (hfilter (.only [7, 0, 2])).1 2 {
    selected := ⟨_, rfl, by decide⟩
    outside := by decide
    least := fun s hs => by
      cases hs
      decide }
  exact ⟨full, rows, hall, hlength, hiterates, hsize, hrows, hrefused⟩

end Workspace

end Columnar
