import Columnar.Proofs.Cursor.Read
import Columnar.Proofs.Table.Rows

/-!
# What iterators give

**Masked rows** (`Row.masked`). A filter shows of a row its key, the selected cells, and the mark
of a column that was left out in the place of every other cell.

**Every iterator** over a table is before its masked rows, whichever way it reads them
(`awaits_ofFilter`). The iterators that move a cursor differ in how they read the row it is at
(`Moves`), and all of them read a masked row (`readRow_spec`, `readKeyRow_spec`).

An iterator that was created is before the first row (`ofFilter_start`).

**What an iterator awaits** (`Awaits`) it gives one by one, and then it ends (`Awaits.take`).
-/

namespace Columnar

/-- The row as a reader of some of its data columns sees it. -/
def Row.masked (hasKeys : Bool) (isSelected : Nat → Bool) (r : Row) : Row :=
  ⟨if hasKeys then r.key? else none,
    r.outcomes.mapIdx fun j o => if isSelected j then o else .ok .unmaterialized⟩

theorem Row.masked_congr {p q : Nat → Bool} (hasKeys : Bool) {r : Row}
    (h : ∀ j < r.outcomes.length, p j = q j) : r.masked hasKeys p = r.masked hasKeys q := by
  unfold masked
  congr 1
  apply List.ext_getElem (by simp)
  intro j hj _
  rw [List.length_mapIdx] at hj
  simp [h j hj]

/-- Whether a data column is read. -/
def ColumnFilter.selects (f : ColumnFilter) (column : Nat) : Bool :=
  match f.selection? with
  | none => true
  | some selection => selection.contains column

namespace RowIterator

variable {σ : Type} {r : ChunkReader σ} {I : σ → Prop} {bs : List Batch} {schema : Schema}
  {selection : Selection} {groups : Groups} {tags : ClassTags}

/-! ## Reading the row of a cursor -/

theorem readKey_spec {c : ReadCursor} (hb : BatchesHold schema tags bs groups)
    {rest : List RowOutcomes} (hc : c.Before schema selection bs groups rest) {cells : RowOutcomes}
    (hrow : c.OnRow groups cells) (hsel : 0 ∈ selection.columns) (hkey : schema[0]? = some .rowKey)
    {key : String} (hcell : cells[0]? = some (.ok (.string key))) : readKey c = .ok key := by
  obtain ⟨chunk, i, hget, hholds⟩ := ReadCursor.get_spec hb hc hrow hsel hkey hcell
  rw [readKey, hget, Outcome.ok_bind]
  exact hholds.getText

/-- What is read from a physical column, if anything is. -/
def cellOf (cells : RowOutcomes) : Option Nat → Outcome Cell
  | none => .ok .unmaterialized
  | some j => cells[j]?.getD (.ok .unmaterialized)

theorem readCells_spec {c : ReadCursor} (hb : BatchesHold schema tags bs groups)
    {rest : List RowOutcomes} (hc : c.Before schema selection bs groups rest) {cells : RowOutcomes}
    (hrow : c.OnRow groups cells) {columns : List (Option Nat)}
    (hcolumns : ∀ j, some j ∈ columns →
      j ∈ selection.columns ∧ (∃ column, schema[j]? = some column) ∧
        ∃ cell, cells[j]? = some cell) :
    readCells c tags columns = .ok (columns.map (cellOf cells)) := by
  induction columns with
  | nil => rfl
  | cons column columns ih =>
    have ih := ih fun j hj => hcolumns j (List.mem_cons_of_mem column hj)
    cases column with
    | none =>
      rw [readCells, ih]
      rfl
    | some j =>
      obtain ⟨hsel, ⟨column, hj⟩, cell, hcell⟩ := hcolumns j List.mem_cons_self
      obtain ⟨chunk, i, hget, hholds⟩ := ReadCursor.get_spec hb hc hrow hsel hj hcell
      have hread : CellSource.cell ⟨column, chunk⟩ tags i = cell := hholds.readCell
      simp only [readCells, hget, ih, Outcome.ok_bind, hread, List.map_cons, cellOf, hcell,
        Option.getD_some]
      rfl

theorem readRow_eq (l : RowLayout) (c : ReadCursor) :
    readRow l c = ((if l.hasKeys then some <$> readKey c else pure none) >>= fun key? =>
      readCells c l.tags l.columns >>= fun cells => pure ⟨key?, cells⟩) := by
  unfold readRow
  cases l.hasKeys <;> rfl

section Table

variable {t : TableInfo} {rows : List Row} {isSelected : Nat → Bool}

theorem readKey_row {c : ReadCursor} (hb : BatchesHold t.mapping.schema tags bs groups)
    {rest : List RowOutcomes} (hc : c.Before t.mapping.schema selection bs groups rest)
    {row : Row} (hrow : c.OnRow groups (row.physical t.mapping.hasKeys))
    (hsuits : row.Suits t.mapping.hasKeys t.spec.size) (hhas : t.mapping.hasKeys = true)
    (hsel : 0 ∈ selection.columns) : (some <$> readKey c) = .ok row.key? := by
  obtain ⟨key, hkey⟩ := hsuits.key hhas
  have hread : readKey c = .ok key :=
    readKey_spec hb hc hrow hsel (SchemaMapping.getElem?_schema_key hhas)
      (by simp [Row.physical, hhas, hkey])
  rw [hread, hkey]
  rfl

/-- The cells laid out for a row are those of the masked row. -/
theorem map_cellOf_layout (t : TableInfo) {row : Row}
    (hwidth : row.outcomes.length = t.spec.size) (isSelected : Nat → Bool) :
    (layout t isSelected).columns.map (cellOf (row.physical t.mapping.hasKeys)) =
      (row.masked t.mapping.hasKeys isSelected).outcomes := by
  apply List.ext_getElem?
  intro j
  simp only [layout, Row.masked, List.map_map, List.getElem?_map, List.getElem?_mapIdx]
  by_cases hj : j < t.spec.size
  · have hcell : row.outcomes[j]? = some row.outcomes[j] := List.getElem?_eq_getElem (hwidth ▸ hj)
    rw [List.getElem?_range hj, hcell]
    cases hs : isSelected j <;> simp [hs, cellOf, Row.getElem?_physical, hcell]
  · rw [List.getElem?_eq_none (by rw [List.length_range]; omega),
      List.getElem?_eq_none (l := row.outcomes) (by omega)]
    rfl

theorem readRow_spec {c : ReadCursor} (hb : BatchesHold t.mapping.schema t.mapping.tags bs groups)
    (hwidth : t.mapping.primitives.length = t.spec.size) {rest : List RowOutcomes}
    (hc : c.Before t.mapping.schema selection bs groups rest) {row : Row}
    (hrow : c.OnRow groups (row.physical t.mapping.hasKeys))
    (hsuits : row.Suits t.mapping.hasKeys t.spec.size)
    (hkeys : t.mapping.hasKeys = true → 0 ∈ selection.columns)
    (hsel : ∀ j < t.spec.size, isSelected j = true →
      j + t.mapping.keyColumns ∈ selection.columns) :
    readRow (layout t isSelected) c = .ok (row.masked t.mapping.hasKeys isSelected) := by
  have hcells : readCells c t.mapping.tags (layout t isSelected).columns =
      .ok (row.masked t.mapping.hasKeys isSelected).outcomes := by
    rw [readCells_spec hb hc hrow, map_cellOf_layout t hsuits.length_eq]
    intro k hk
    obtain ⟨j, hj, hjk⟩ := List.mem_map.mp hk
    have hj := List.mem_range.mp hj
    split at hjk
    · rename_i hselected
      cases hjk
      have hlt : j < row.outcomes.length := hsuits.length_eq ▸ hj
      refine ⟨hsel j hj hselected, ⟨.data t.mapping.primitives[j], ?_⟩, row.outcomes[j], ?_⟩
      · rw [SchemaMapping.getElem?_schema_data, List.getElem?_eq_getElem (hwidth ▸ hj)]
        rfl
      · rw [Row.getElem?_physical]
        exact List.getElem?_eq_getElem _
    · cases hjk
  have hkey : (if t.mapping.hasKeys then some <$> readKey c else pure none) =
      (.ok (row.masked t.mapping.hasKeys isSelected).key? : Outcome (Option String)) := by
    cases hhas : t.mapping.hasKeys with
    | false => rfl
    | true =>
      have hread : (some <$> readKey c) = .ok row.key? :=
        readKey_row hb hc hrow hsuits hhas (hkeys hhas)
      exact hread
  rw [readRow_eq]
  show (if t.mapping.hasKeys then some <$> readKey c else pure none) >>= _ = _
  rw [hkey, Outcome.ok_bind]
  show readCells c t.mapping.tags (layout t isSelected).columns >>= _ = _
  rw [hcells]
  rfl

theorem readKeyRow_spec {c : ReadCursor} (hb : BatchesHold t.mapping.schema tags bs groups)
    {rest : List RowOutcomes} (hc : c.Before t.mapping.schema selection bs groups rest)
    {row : Row} (hrow : c.OnRow groups (row.physical t.mapping.hasKeys))
    (hsuits : row.Suits t.mapping.hasKeys t.spec.size) (hhas : t.mapping.hasKeys = true)
    (hsel : 0 ∈ selection.columns) :
    readKeyRow t.spec.size c = .ok (row.masked t.mapping.hasKeys fun _ => false) := by
  have hkey := readKey_row hb hc hrow hsuits hhas hsel
  cases hread : readKey c with
  | error e =>
    rw [hread] at hkey
    cases hkey
  | ok key =>
    rw [hread] at hkey
    have hkey : row.key? = some key := (Except.ok.inj hkey).symm
    have hcells : (List.replicate t.spec.size (.ok .unmaterialized) : List (Outcome Cell)) =
        row.outcomes.mapIdx fun _ _ => .ok .unmaterialized := by
      rw [← hsuits.length_eq]
      apply List.ext_getElem <;> simp
    simp only [readKeyRow, hread, Row.masked, blankRow, hhas, if_true, hkey, hcells]
    rfl

end Table

/-! ## Moving on -/

/-- The iterators that move a cursor, with how they read the row it is at. -/
inductive Moves : (ReadCursor → RowIterator) → (ReadCursor → Outcome Row) → Prop
  | cells (complete : Bool) (l : RowLayout) : Moves (cells complete · l) (readRow l)
  | keys (width : Nat) : Moves (keys · width) (readKeyRow width)

variable {wrap : ReadCursor → RowIterator} {read : ReadCursor → Outcome Row} {s : σ}

theorem next_apply (h : Moves wrap read) {c : ReadCursor} (hnext : c.canForward r s = true) :
    next r (wrap c, s) =
      (some <$> (step r read (c, s)).1,
        (wrap (step r read (c, s)).2.1, (step r read (c, s)).2.2)) := by
  cases h with
  | cells complete l =>
    have hgo : (cells complete c l).hasNext r s = true := hnext
    simp only [next, Action.bind_apply, Action.get_apply, hgo, Bool.not_true, Bool.false_eq_true,
      if_false, Action.on_apply]
    cases step r (readRow l) (c, s) with
    | mk o p => cases o <;> rfl
  | keys width =>
    have hgo : (keys c width).hasNext r s = true := hnext
    simp only [next, Action.bind_apply, Action.get_apply, hgo, Bool.not_true, Bool.false_eq_true,
      if_false, Action.on_apply]
    cases step r (readKeyRow width) (c, s) with
    | mk o p => cases o <;> rfl

theorem next_of_end (hm : Moves wrap read) {c : ReadCursor} (hend : c.canForward r s = false) :
    next r (wrap c, s) = (.ok none, (wrap c, s)) := by
  cases hm <;> simp [next, Action.bind_apply, hasNext, hend]

theorem next_of_forward (hm : Moves wrap read) {c c' : ReadCursor} {s' : σ} {o : Outcome Unit}
    (hcan : c.canForward r s = true) (h : ReadCursor.forward r (c, s) = (o, (c', s'))) :
    next r (wrap c, s) = (o >>= fun _ => some <$> read c', (wrap c', s')) := by
  have hstep : step r read (c, s) = (o >>= fun _ => read c', (c', s')) := by
    cases o <;> simp only [step, Action.bind_apply, h, Action.get_apply, Action.liftM_apply] <;> rfl
  rw [next_apply hm hcan, hstep]
  cases o <;> rfl

/-- The rows are those that the iterator has still to give, as far as it is let read the batches: it
counts them off, or its cursor has their cells before it and what it reads at a row is that row. -/
inductive Awaits (schema : Schema) (bs : List Batch) (groups : Groups) :
    RowIterator → List Row → Prop
  | blank (n width : Nat) :
    Awaits schema bs groups (blank n width) (List.replicate n (blankRow none width))
  | moves {wrap : ReadCursor → RowIterator} {read : ReadCursor → Outcome Row}
    {selection : Selection} {c : ReadCursor} {rows : List Row} {physical : Row → RowOutcomes}
    {render : Row → Row} (hm : Moves wrap read) (hsel : ∀ j ∈ selection.columns, j < schema.length)
    (hread : ∀ {c rest row}, row ∈ rows → c.Before schema selection bs groups rest →
      c.OnRow groups (physical row) → read c = .ok (render row))
    (hc : c.Before schema selection bs groups (rows.map physical)) :
    Awaits schema bs groups (wrap c) (rows.map render)

variable {it : RowIterator} {row : Row} {rows : List Row}

theorem Awaits.next_nil (h : Awaits schema bs groups it []) (hcount : r.Counts s groups) :
    next r (it, s) = (.ok none, (it, s)) := by
  generalize hrows : ([] : List Row) = rows at h
  cases h with
  | blank n width =>
    cases n with
    | zero => rfl
    | succ n => cases hrows
  | moves hm hsel hread hc =>
    rw [List.map_eq_nil_iff.mp hrows.symm] at hc
    exact next_of_end hm (ReadCursor.canForward_nil hcount hc.rest_eq)

/-- **An iterator gives the next row** if the reader shows the batches. -/
theorem Awaits.next_cons (h : Awaits schema bs groups it (row :: rows)) (hr : r.Shows I bs)
    (hb : BatchesCount schema.length bs groups) (hs : I s) :
    ∃ it' s', next r (it, s) = (.ok (some row), (it', s')) ∧ I s' ∧
      Awaits schema bs groups it' rows := by
  generalize hrows : row :: rows = all at h
  cases h with
  | blank n width =>
    cases n with
    | zero => cases hrows
    | succ n =>
      cases hrows
      exact ⟨_, s, rfl, hs, .blank n width⟩
  | @moves wrap read selection c before physical render hm hsel hread hc =>
    cases before with
    | nil => cases hrows
    | cons first before =>
      cases hrows
      have hcan := ReadCursor.canForward_cons (hr.counts hb hs) hc.open_eq hc.rest_eq
      obtain ⟨c', s', hrun, hs', hc', hrow⟩ := ReadCursor.forward_spec hr hb hsel hs hc
      refine ⟨wrap c', s', ?_, hs',
        .moves hm hsel (fun hm => hread (List.mem_cons_of_mem first hm)) hc'⟩
      rw [next_of_forward hm hcan hrun, hread List.mem_cons_self hc' hrow]
      rfl

/-- **A run of an iterator** gives the rows and ends. -/
theorem Awaits.take (h : Awaits schema bs groups it rows) (hr : r.Shows I bs)
    (hb : BatchesCount schema.length bs groups) (limit : Nat) (hs : I s) :
    ∃ it' s', take r limit (it, s) = (.ok (rows.take limit, none), (it', s')) ∧ I s' := by
  induction limit generalizing it rows s with
  | zero => exact ⟨it, s, rfl, hs⟩
  | succ limit ih =>
    cases rows with
    | nil =>
      refine ⟨it, s, ?_, hs⟩
      simp only [RowIterator.take, Action.bind_apply, Action.attempt_apply,
        h.next_nil (hr.counts hb hs)]
      rfl
    | cons row rows =>
      obtain ⟨it', s', hnext, hs', h'⟩ := h.next_cons hr hb hs
      obtain ⟨it'', s'', htake, hs''⟩ := ih h' hs'
      refine ⟨it'', s'', ?_, hs''⟩
      simp only [RowIterator.take, Action.bind_apply, Action.attempt_apply, hnext, htake]
      rfl

/-! ## What iterating keeps -/

section Keeps

variable {P : σ → Prop}

theorem keeps_step (hr : r.Keeps P) (read : ReadCursor → Outcome Row) :
    (step r read).Keeps fun p => P p.2 :=
  (ReadCursor.keeps_forward hr).bind fun _ => Action.keeps_get_bind fun _ h => h

theorem keeps_next (hr : r.Keeps P) : (next r).Keeps fun p => P p.2 := by
  refine Action.keeps_get_bind fun ⟨it, s⟩ hs => ?_
  dsimp only
  split
  · exact hs
  cases it with
  | cells complete c l =>
    have hrun := keeps_step hr (readRow l) (c, s) hs
    simp only [Action.bind_apply, Action.on_apply]
    cases hstep : step r (readRow l) (c, s) with
    | mk o p =>
      rw [hstep] at hrun
      cases o <;> exact hrun
  | keys c width =>
    have hrun := keeps_step hr (readKeyRow width) (c, s) hs
    simp only [Action.bind_apply, Action.on_apply]
    cases hstep : step r (readKeyRow width) (c, s) with
    | mk o p =>
      rw [hstep] at hrun
      cases o <;> exact hrun
  | blank remaining width => exact hs

/-- **A run of an iterator**, whatever it yields, keeps what reading chunks keeps. -/
theorem keeps_take (hr : r.Keeps P) (limit : Nat) : (take r limit).Keeps fun p => P p.2 := by
  induction limit with
  | zero => exact fun _ h => h
  | succ limit ih =>
    refine (keeps_next hr).attempt.bind ?_
    intro o
    cases o with
    | error e => exact fun _ h => h
    | ok row? =>
      cases row? with
      | none => exact fun _ h => h
      | some row => exact ih.bind fun _ _ h => h

end Keeps

/-! ## The iterators of a table -/

section Table

variable {t : TableInfo} {rows : List Row}

theorem awaits_cells (h : t.Holds bs rows)
    (hstored : BatchesHold t.mapping.schema t.mapping.tags bs groups)
    (hrows : groups.flatten = rows.map (·.physical t.mapping.hasKeys)) (complete : Bool)
    (isSelected : Nat → Bool) (hin : ∀ j ∈ selection.columns, j < t.mapping.schema.length)
    (hkeys : t.mapping.hasKeys = true → 0 ∈ selection.columns)
    (hsel : ∀ j < t.spec.size, isSelected j = true →
      j + t.mapping.keyColumns ∈ selection.columns) :
    ∃ c, ReadCursor.create t.mapping.schema selection = .ok c ∧
      Awaits t.mapping.schema bs groups (cells complete c (layout t isSelected))
        (rows.map (·.masked t.mapping.hasKeys isSelected)) := by
  obtain ⟨c, hcreate, hc⟩ := ReadCursor.create_before hin bs groups
  rw [hrows] at hc
  exact ⟨c, hcreate, .moves (.cells complete (layout t isSelected)) hin
    (fun hm hc hrow => readRow_spec hstored h.width_eq hc hrow (h.suits _ hm) hkeys hsel) hc⟩

theorem awaits_ofAll (h : t.Holds bs rows)
    (hstored : BatchesHold t.mapping.schema t.mapping.tags bs groups)
    (hrows : groups.flatten = rows.map (·.physical t.mapping.hasKeys)) :
    ∃ it, ofAll t = .ok it ∧ Awaits t.mapping.schema bs groups it
      (rows.map (·.masked t.mapping.hasKeys fun _ => true)) := by
  have hmem : ∀ j, j ∈ (Selection.all t.mapping.schema.length).columns ↔
      j < t.mapping.schema.length := fun j => List.mem_range
  obtain ⟨c, hcreate, hawaits⟩ := awaits_cells h hstored hrows true (fun _ => true)
    (fun j hj => (hmem j).mp hj)
    (fun hhas => (hmem 0).mpr
      (List.getElem?_eq_some_iff.mp (SchemaMapping.getElem?_schema_key hhas)).1)
    (fun j hj _ => (hmem _).mpr (by
      rw [SchemaMapping.length_schema, h.width_eq]
      omega))
  exact ⟨_, by rw [ofAll, hcreate]; rfl, hawaits⟩

theorem lt_of_mem_keys (hhas : t.mapping.hasKeys = true) :
    ∀ j ∈ (Selection.all 1).columns, j < t.mapping.schema.length := by
  intro j hj
  rw [Nat.lt_one_iff.mp (List.mem_range.mp hj)]
  exact (List.getElem?_eq_some_iff.mp (SchemaMapping.getElem?_schema_key hhas)).1

theorem awaits_keys (h : t.Holds bs rows)
    (hstored : BatchesHold t.mapping.schema t.mapping.tags bs groups)
    (hrows : groups.flatten = rows.map (·.physical t.mapping.hasKeys))
    (hhas : t.mapping.hasKeys = true) :
    ∃ c, ReadCursor.create t.mapping.schema (.all 1) = .ok c ∧
      Awaits t.mapping.schema bs groups (keys c t.spec.size)
        (rows.map (·.masked t.mapping.hasKeys fun _ => false)) := by
  have hin := lt_of_mem_keys hhas
  obtain ⟨c, hcreate, hc⟩ := ReadCursor.create_before hin bs groups
  rw [hrows] at hc
  exact ⟨c, hcreate, .moves (.keys t.spec.size) hin
    (fun hm hc hrow => readKeyRow_spec hstored hc hrow (h.suits _ hm) hhas
      (List.mem_range.mpr Nat.one_pos)) hc⟩

/-- Rows counted off are those of a table without keys of which nothing is selected. -/
theorem replicate_blankRow (h : t.Holds bs rows) (hhas : t.mapping.hasKeys = false) :
    List.replicate t.size (blankRow none t.spec.size) =
      rows.map (·.masked t.mapping.hasKeys fun _ => false) := by
  rw [h.size_eq]
  symm
  refine List.eq_replicate_iff.mpr ⟨List.length_map _, ?_⟩
  intro row hrow
  obtain ⟨r, hr, rfl⟩ := List.mem_map.mp hrow
  rw [← (h.suits r hr).length_eq, Row.masked, hhas, blankRow]
  congr 1
  apply List.ext_getElem <;> simp

theorem mem_of_length_le {l : List Nat} (hl : l.Pairwise (· < ·)) (a n : Nat)
    (hbounds : ∀ x ∈ l, a ≤ x ∧ x < a + n) (hlen : n ≤ l.length) :
    ∀ x, a ≤ x → x < a + n → x ∈ l := by
  induction n generalizing a l with
  | zero => intro x hle hlt; omega
  | succ n ih =>
    cases l with
    | nil => cases hlen
    | cons c cs =>
      obtain ⟨hc, hcs⟩ := List.pairwise_cons.mp hl
      have hcb := hbounds c List.mem_cons_self
      have ih := ih hcs (a + 1) (fun x hx => by
        have := hc x hx
        have := hbounds x (List.mem_cons_of_mem c hx)
        omega) (by simpa using hlen)
      intro x hle hlt
      rcases Nat.eq_or_lt_of_le hle with rfl | hlt'
      · -- the rest would need one more place if it began behind the first column
        by_cases hca : c = a
        · exact hca ▸ List.mem_cons_self
        · exfalso
          rcases Nat.eq_zero_or_pos n with rfl | hn
          · omega
          · have := hc _ (ih c (by omega) (by omega))
            omega
      · exact List.mem_cons_of_mem c (ih x hlt' (by omega))

theorem lt_of_validate {f : ColumnFilter} {n : Nat} (hf : f.validate n = .ok ())
    {selection : Selection} (hs : f.selection? = some selection) :
    ∀ j ∈ selection.columns, j < n := by
  intro j hj
  unfold ColumnFilter.validate at hf
  rw [hs, Option.bind_some] at hf
  cases hout : selection.outside? n with
  | some column =>
    rw [hout] at hf
    cases hf
  | none =>
    have hnot := List.find?_eq_none.mp hout j hj
    simpa using hnot

/-- The physical columns of some data columns. -/
theorem physicalSelection_spec {selection : Selection}
    (hwidth : t.mapping.primitives.length = t.spec.size)
    (hlt : ∀ j ∈ selection.columns, j < t.spec.size) :
    (∀ j ∈ (physicalSelection t selection).columns, j < t.mapping.schema.length) ∧
    (t.mapping.hasKeys = true → 0 ∈ (physicalSelection t selection).columns) ∧
    ∀ j < t.spec.size, selection.contains j = true →
      j + t.mapping.keyColumns ∈ (physicalSelection t selection).columns := by
  have hschema := t.mapping.length_schema
  have hshifted : ∀ k ∈ selection.columns.map (· + t.mapping.keyColumns),
      k < t.mapping.schema.length := by
    intro k hk
    obtain ⟨j, hj, rfl⟩ := List.mem_map.mp hk
    have := hlt j hj
    omega
  have hmem : ∀ j, selection.contains j = true →
      j + t.mapping.keyColumns ∈ selection.columns.map (· + t.mapping.keyColumns) :=
    fun j hj => List.mem_map.mpr ⟨j, by simpa [Selection.contains] using hj, rfl⟩
  unfold physicalSelection
  dsimp only
  split
  · rename_i hhas
    refine ⟨fun j hj => ?_, fun _ => List.mem_cons_self,
      fun j _ hj => List.mem_cons_of_mem 0 (hmem j hj)⟩
    rcases List.mem_cons.mp hj with rfl | hj
    · exact (List.getElem?_eq_some_iff.mp (SchemaMapping.getElem?_schema_key hhas)).1
    · exact hshifted j hj
  · rename_i hhas
    exact ⟨hshifted, fun h => absurd h hhas, fun j _ hj => hmem j hj⟩

/-- The iterator of an empty selection reads row keys, or nothing if there are none. -/
theorem awaits_ofFilter_empty (h : t.Holds bs rows)
    (hstored : BatchesHold t.mapping.schema t.mapping.tags bs groups)
    (hrows : groups.flatten = rows.map (·.physical t.mapping.hasKeys)) {f : ColumnFilter}
    (hf : f.selection? = some .empty) :
    ∃ it, ofFilter t f = .ok it ∧ Awaits t.mapping.schema bs groups it
      (rows.map (·.masked t.mapping.hasKeys fun _ => false)) := by
  rw [ofFilter, hf]
  cases hhas : t.mapping.hasKeys with
  | true =>
    obtain ⟨c, hcreate, hawaits⟩ := awaits_keys h hstored hrows hhas
    rw [hhas] at hawaits
    refine ⟨keys c t.spec.size, ?_, hawaits⟩
    simp only [Selection.empty, List.isEmpty_nil, if_true, hcreate]
    rfl
  | false =>
    refine ⟨blank t.size t.spec.size, rfl, ?_⟩
    have hblank : Awaits t.mapping.schema bs groups (blank t.size t.spec.size) _ := .blank _ _
    rwa [replicate_blankRow h hhas, hhas] at hblank

theorem awaits_ofFilter_some (h : t.Holds bs rows)
    (hstored : BatchesHold t.mapping.schema t.mapping.tags bs groups)
    (hrows : groups.flatten = rows.map (·.physical t.mapping.hasKeys)) {f : ColumnFilter}
    {selection : Selection} (hf : f.selection? = some selection)
    (hempty : selection.columns.isEmpty = false) (hlt : ∀ j ∈ selection.columns, j < t.spec.size) :
    ∃ it, ofFilter t f = .ok it ∧ Awaits t.mapping.schema bs groups it
      (rows.map (·.masked t.mapping.hasKeys selection.contains)) := by
  rw [ofFilter, hf]
  by_cases hpart : selection.columns.length < t.spec.size
  · obtain ⟨hin, hkeys, hsel⟩ := physicalSelection_spec h.width_eq hlt
    obtain ⟨c, hcreate, hawaits⟩ :=
      awaits_cells h hstored hrows false selection.contains hin hkeys hsel
    refine ⟨_, ?_, hawaits⟩
    simp only [hempty, Bool.false_eq_true, if_false, hpart, if_true, hcreate]
    rfl
  · have hmem := mem_of_length_le selection.increasing 0 t.spec.size
      (fun x hx => ⟨Nat.zero_le x, (Nat.zero_add t.spec.size).symm ▸ hlt x hx⟩)
      (Nat.le_of_not_lt hpart)
    have hmasked : rows.map (·.masked t.mapping.hasKeys selection.contains) =
        rows.map (·.masked t.mapping.hasKeys fun _ => true) := by
      refine List.map_congr_left fun row hrow => Row.masked_congr _ ?_
      intro j hj
      rw [(h.suits row hrow).length_eq] at hj
      simpa [Selection.contains] using hmem j (Nat.zero_le j) (by omega)
    rw [hmasked]
    simp only [hempty, Bool.false_eq_true, if_false, hpart]
    exact awaits_ofAll h hstored hrows

/-- **The iterator of a filter** is before the masked rows of the table. -/
theorem awaits_ofFilter (h : t.Holds bs rows)
    (hstored : BatchesHold t.mapping.schema t.mapping.tags bs groups)
    (hrows : groups.flatten = rows.map (·.physical t.mapping.hasKeys)) {f : ColumnFilter}
    (hf : f.validate t.spec.size = .ok ()) :
    ∃ it, ofFilter t f = .ok it ∧
      Awaits t.mapping.schema bs groups it (rows.map (·.masked t.mapping.hasKeys f.selects)) := by
  cases hs : f.selection? with
  | none =>
    have hselects : f.selects = fun _ => true := by
      funext j
      rw [ColumnFilter.selects, hs]
    rw [ofFilter, hs, hselects]
    exact awaits_ofAll h hstored hrows
  | some selection =>
    have hselects : f.selects = selection.contains := by
      funext j
      rw [ColumnFilter.selects, hs]
    rw [hselects]
    obtain ⟨columns, hincreasing⟩ := selection
    cases columns with
    | nil =>
      have hnone : Selection.contains ⟨[], hincreasing⟩ = fun _ => false := by
        funext j
        rfl
      rw [hnone]
      exact awaits_ofFilter_empty h hstored hrows hs
    | cons c cs => exact awaits_ofFilter_some h hstored hrows hs rfl (lt_of_validate hf hs)

theorem exists_ofFilter (hwidth : t.mapping.primitives.length = t.spec.size)
    (hf : f.validate t.spec.size = .ok ()) : ∃ it, ofFilter t f = .ok it := by
  have hall : ∃ it, ofAll t = .ok it := by
    have hin : ∀ j ∈ (Selection.all t.mapping.schema.length).columns, j < t.mapping.schema.length :=
      fun j hj => List.mem_range.mp hj
    exact ⟨_, by rw [ofAll, ReadCursor.create_of_lt hin]; rfl⟩
  unfold ofFilter
  cases hs : f.selection? with
  | none => exact hall
  | some selection =>
    dsimp only
    split
    · split
      · rename_i hkeys
        exact ⟨_, by rw [ReadCursor.create_of_lt (lt_of_mem_keys hkeys)]; rfl⟩
      · exact ⟨_, rfl⟩
    · split
      · obtain ⟨hin, -⟩ := physicalSelection_spec hwidth (lt_of_validate hf hs)
        exact ⟨_, by rw [ReadCursor.create_of_lt hin]; rfl⟩
      · exact hall

theorem create_eq_start {c : ReadCursor} (h : ReadCursor.create schema selection = .ok c) :
    c = ⟨schema, selection, [], none, false⟩ := by
  unfold ReadCursor.create at h
  split at h <;> cases h
  rfl

theorem wrap_of_create {wrap : ReadCursor → RowIterator} {it : RowIterator}
    (h : (ReadCursor.create schema selection >>= fun c => pure (wrap c)) = .ok it) :
    it = wrap ⟨schema, selection, [], none, false⟩ := by
  cases hcreate : ReadCursor.create schema selection with
  | error e =>
    rw [hcreate] at h
    cases h
  | ok c =>
    rw [hcreate, create_eq_start hcreate] at h
    cases h
    rfl

/-- **The iterator of a filter** counts rows off, or moves a cursor that is before the first row. -/
theorem ofFilter_start {it : RowIterator} (h : ofFilter t f = .ok it) :
    (needsStore t f = false ∧ it = blank t.size t.spec.size) ∨
      ∃ wrap read selection, Moves wrap read ∧
        it = wrap ⟨t.mapping.schema, selection, [], none, false⟩ := by
  have hall : ∀ {it}, ofAll t = .ok it → ∃ wrap read selection, Moves wrap read ∧
      it = wrap ⟨t.mapping.schema, selection, [], none, false⟩ := fun h =>
    ⟨_, _, _, .cells true (layout t fun _ => true), wrap_of_create h⟩
  unfold ofFilter at h
  cases hselection : f.selection? with
  | none =>
    rw [hselection] at h
    exact .inr (hall h)
  | some selection =>
    rw [hselection] at h
    dsimp only at h
    split at h
    · rename_i hempty
      split at h
      · exact .inr ⟨_, _, _, .keys t.spec.size, wrap_of_create h⟩
      · rename_i hkeys
        cases h
        obtain ⟨columns, hincreasing⟩ := selection
        cases List.isEmpty_iff.mp hempty
        have hselects : (f.selection? != some .empty) = false := by
          rw [hselection]
          exact bne_self_eq_false _
        exact .inl ⟨by rw [needsStore, hselects, Bool.or_false, Bool.eq_false_iff.mpr hkeys], rfl⟩
    · split at h
      · exact .inr ⟨_, _, _, .cells false (layout t selection.contains), wrap_of_create h⟩
      · exact .inr (hall h)

end Table

end RowIterator

end Columnar
