import Columnar.Proofs.Cursor.Agreement
import Columnar.Proofs.Cursor.Failure
import Columnar.Proofs.Table.Draining
import Columnar.Proofs.Table.Opened

/-!
# Columns that are not selected

The answers of an iterator depend on the row keys and on the columns that its filter selects. What
the other columns hold, and whether they can be read at all, makes no difference.

**What an answer asks for** (`Asked`). To move within a batch a cursor asks for nothing. To enter
another batch, which comes after the one it is in, it asks for the selected columns one by one, each
once, until one cannot be read (`next_asked`).

**A run** asks for no column that is not wanted. A batch that has been entered is not asked for
again. If the reader is steady, a batch that could not be entered never will be, so every chunk of a
batch that is entered is asked for once in the whole run (`Once`).

Main result: `answers_of_agree`.
-/

namespace Columnar

namespace RowIterator

open ReadCursor (Loads StopsAt Moved)

variable {σ τ : Type} {r : ChunkReader σ} {r' : ChunkReader τ} {R : σ → τ → Prop}
  {wanted : Nat → Prop} {wrap : ReadCursor → RowIterator} {read : ReadCursor → Outcome Row}
  {c c' : ReadCursor} {it it' : RowIterator} {s : σ} {u : τ}

/-- The batch an iterator is in. -/
def batch? : RowIterator → Option Nat
  | cells _ c _ | keys c _ => c.position?.map Prod.fst
  | blank _ _ => none

theorem Moves.batch?_eq (hm : Moves wrap read) (c : ReadCursor) :
    (wrap c).batch? = c.position?.map Prod.fst := by
  cases hm <;> rfl

theorem Moves.physicalColumns_eq (hm : Moves wrap read) (c : ReadCursor) :
    (wrap c).physicalColumns = c.selection.columns := by
  cases hm <;> rfl

theorem moves_or_blank (it : RowIterator) :
    (∃ wrap read c, Moves wrap read ∧ it = wrap c) ∨ ∃ n width, it = blank n width := by
  cases it with
  | cells complete c l => exact .inl ⟨_, _, c, .cells complete l, rfl⟩
  | keys c width => exact .inl ⟨_, _, c, .keys width, rfl⟩
  | blank n width => exact .inr ⟨n, width, rfl⟩

theorem next_blank (r : ChunkReader σ) (n width : Nat) (s : σ) :
    next r (blank n width, s) =
      (if n = 0 then .ok none else .ok (some (blankRow none width)), (blank (n - 1) width, s)) := by
  cases n <;> rfl

theorem selection_forward (r : ChunkReader σ) (c : ReadCursor) (s : σ) :
    (ReadCursor.forward r (c, s)).2.1.selection = c.selection := by
  have hmoved := ReadCursor.forward_moved r c s
  generalize ReadCursor.forward r (c, s) = result at hmoved
  cases hmoved <;> rfl

theorem physicalColumns_next (r : ChunkReader σ) (it : RowIterator) (s : σ) :
    (next r (it, s)).2.1.physicalColumns = it.physicalColumns := by
  obtain ⟨wrap, read, c, hm, rfl⟩ | ⟨n, width, rfl⟩ := moves_or_blank it
  · cases hcan : c.canForward r s with
    | false => rw [next_of_end hm hcan]
    | true =>
      have hselection := selection_forward r c s
      rcases hforward : ReadCursor.forward r (c, s) with ⟨o, c', s'⟩
      rw [hforward] at hselection
      rw [next_of_forward hm hcan hforward, hm.physicalColumns_eq, hm.physicalColumns_eq,
        hselection]
  · rw [next_blank]
    rfl

/-! ## Two runs -/

/-- The same iterator, reading only what is wanted, over readers in related states. -/
def Reading (wanted : Nat → Prop) (R : σ → τ → Prop) (p : RowIterator × σ) (q : RowIterator × τ) :
    Prop := Alongside R p q ∧ ∀ j ∈ p.1.physicalColumns, wanted j

/-- **Readers that agree on what is wanted give the same answers.** -/
theorem next_agrees (h : r.Agree r' wanted R) :
    Action.Agrees (Reading wanted R) (next r) (next r') := by
  rintro ⟨it, s⟩ ⟨_, u⟩ ⟨⟨rfl, hs⟩, hwanted⟩
  -- the columns of an iterator stay, so only the answers and the states are left
  suffices hboth : (next r (it, s)).1 = (next r' (it, u)).1 ∧
      Alongside R (next r (it, s)).2 (next r' (it, u)).2 by
    refine ⟨hboth.1, hboth.2, ?_⟩
    rwa [physicalColumns_next]
  obtain ⟨wrap, read, c, hm, rfl⟩ | ⟨n, width, rfl⟩ := moves_or_blank it
  · have hcan := ReadCursor.canForward_agree h hs c
    cases hcan' : c.canForward r' u with
    | false =>
      rw [hcan'] at hcan
      rw [next_of_end hm hcan, next_of_end hm hcan']
      exact ⟨rfl, rfl, hs⟩
    | true =>
      rw [hcan'] at hcan
      rw [hm.physicalColumns_eq] at hwanted
      obtain ⟨ho, hmoved⟩ := ReadCursor.forward_agrees h hwanted hs
      rcases hforward : ReadCursor.forward r (c, s) with ⟨o, c₁, s₁⟩
      rcases hforward' : ReadCursor.forward r' (c, u) with ⟨o', c₂, u₁⟩
      rw [hforward, hforward'] at ho hmoved
      obtain ⟨hc, hs₁⟩ := hmoved
      cases ho
      cases hc
      rw [next_of_forward hm hcan hforward, next_of_forward hm hcan' hforward']
      exact ⟨rfl, rfl, hs₁⟩
  · rw [next_blank, next_blank]
    exact ⟨rfl, rfl, hs⟩

/-! ## What an answer asks for -/

/-- What an iterator in one batch, or in none, asks of the reader until it is in another. -/
inductive Asked (r : ChunkReader σ) (s : σ) (columns : List Nat) (b? : Option Nat) :
    Option Nat → List (Nat × Nat) → Prop
  | nothing : Asked r s columns b? b? []
  /-- All columns of the batch that is entered. -/
  | wholly {b : Nat} {chunks : List Chunk} {s' : σ} (hlater : ∀ b' ∈ b?, b' < b)
    (hloads : Loads r b columns chunks s s') :
    Asked r s columns b? (some b) (columns.map (b, ·))
  /-- The columns, up to one that fails, of a batch that is not entered. -/
  | partly {b : Nat} {before : List Nat} {column : Nat} {chunks : List Chunk} {e : Failure} {s' : σ}
    (hlater : ∀ b' ∈ b?, b' < b) (hstops : StopsAt r b columns before column chunks e s s') :
    Asked r s columns b? b? ((before ++ [column]).map (b, ·))

theorem lt_of_nextBatch?_eq {batch : Nat}
    (h : ReadCursor.nextBatch? r s c.position? = some batch) :
    ∀ b ∈ c.position?.map Prod.fst, b < batch := by
  intro b hb
  obtain ⟨⟨b', i⟩, hp, rfl⟩ := Option.mem_map.mp hb
  exact ReadCursor.lt_of_nextBatch? hp h

theorem asked_of_moved {p p' : σ × List (Nat × Nat)} {o : Outcome Unit}
    (h : Moved r.traced c p (o, (c', p'))) :
    ∃ added, p'.2 = p.2 ++ added ∧
      Asked r p.1 c.selection.columns (c.position?.map Prod.fst) (c'.position?.map Prod.fst)
        added := by
  cases h with
  | closed _ => exact ⟨[], (List.append_nil p.2).symm, .nothing⟩
  | ended _ _ _ => exact ⟨[], (List.append_nil p.2).symm, .nothing⟩
  | @within q hopen hsame =>
    refine ⟨[], (List.append_nil p.2).symm, ?_⟩
    have hbatch : c.position?.map Prod.fst = some q.1 := by
      cases hp : c.position? with
      | none =>
        rw [hp] at hsame
        cases hsame
      | some q' =>
        rw [hp, ReadCursor.sameBatch?] at hsame
        split at hsame
        · cases hsame
          rfl
        · cases hsame
    rw [hbatch]
    exact .nothing
  | entered hopen hsame hnext hloads =>
    obtain ⟨hloads, hrecord⟩ := hloads.of_traced
    exact ⟨_, hrecord, .wholly (lt_of_nextBatch?_eq hnext) hloads⟩
  | refused hopen hsame hnext hstops =>
    obtain ⟨hstops, hrecord⟩ := hstops.of_traced
    exact ⟨_, hrecord, .partly (lt_of_nextBatch?_eq hnext) hstops⟩

/-- **What the next answer asks for.** -/
theorem next_asked (r : ChunkReader σ) (it : RowIterator) (p : σ × List (Nat × Nat)) :
    ∃ added, (next r.traced (it, p)).2.2.2 = p.2 ++ added ∧
      Asked r p.1 it.physicalColumns it.batch? (next r.traced (it, p)).2.1.batch? added := by
  obtain ⟨wrap, read, c, hm, rfl⟩ | ⟨n, width, rfl⟩ := moves_or_blank it
  · cases hcan : c.canForward r.traced p with
    | false =>
      rw [next_of_end hm hcan]
      exact ⟨[], (List.append_nil p.2).symm, .nothing⟩
    | true =>
      have hmoved := ReadCursor.forward_moved r.traced c p
      rcases hforward : ReadCursor.forward r.traced (c, p) with ⟨o, c', p'⟩
      rw [hforward] at hmoved
      rw [next_of_forward hm hcan hforward, hm.physicalColumns_eq, hm.batch?_eq, hm.batch?_eq]
      exact asked_of_moved hmoved
  · rw [next_blank]
    exact ⟨[], (List.append_nil p.2).symm, .nothing⟩

namespace Asked

variable {columns : List Nat} {b? b?' : Option Nat} {added : List (Nat × Nat)} {b j : Nat}

theorem mem (h : Asked r s columns b? b?' added) : ∀ q ∈ added, q.2 ∈ columns := by
  intro q hq
  cases h with
  | nothing => cases hq
  | wholly _ _ =>
    obtain ⟨j, hj, rfl⟩ := List.mem_map.mp hq
    exact hj
  | partly _ hstops =>
    obtain ⟨j, hj, rfl⟩ := List.mem_map.mp hq
    obtain ⟨after, rfl⟩ := hstops.split
    have hprefix := List.mem_append_left after hj
    rwa [List.append_assoc, List.singleton_append] at hprefix

theorem count_eq_zero (h : Asked r s columns b? b?' added) (hb : ∃ b' ∈ b?, b ≤ b') :
    added.count (b, j) = 0 := by
  obtain ⟨b', hb', hle⟩ := hb
  refine List.count_eq_zero.mpr fun hmem => ?_
  cases h with
  | nothing => cases hmem
  | wholly hlater _ =>
    obtain ⟨_, -, heq⟩ := List.mem_map.mp hmem
    cases heq
    exact Nat.not_lt.mpr hle (hlater b' hb')
  | partly hlater _ =>
    obtain ⟨_, -, heq⟩ := List.mem_map.mp hmem
    cases heq
    exact Nat.not_lt.mpr hle (hlater b' hb')

theorem batch_le (h : Asked r s columns b? b?' added) (hb : ∃ b' ∈ b?, b ≤ b') :
    ∃ b' ∈ b?', b ≤ b' := by
  cases h with
  | nothing => exact hb
  | wholly hlater _ =>
    obtain ⟨b', hb', hle⟩ := hb
    exact ⟨_, rfl, Nat.le_of_lt (Nat.lt_of_le_of_lt hle (hlater b' hb'))⟩
  | partly _ _ => exact hb

/-- A chunk of a batch that can be entered is asked for to enter that batch, and then once. -/
theorem entering (h : Asked r s columns b? b?' added) (hr : r.Steady) (hcolumns : columns.Nodup)
    (hb : r.failure? s columns b = none) :
    added.count (b, j) = 0 ∨ ((∀ b' ∈ b?, b' < b) ∧ b?' = some b ∧ added.count (b, j) ≤ 1) := by
  cases h with
  | nothing => exact .inl rfl
  | @wholly b₁ chunks s' hlater hloads =>
    by_cases heq : b₁ = b
    · subst heq
      refine .inr ⟨hlater, rfl, ?_⟩
      refine List.nodup_iff_count_le_one.mp (hcolumns.map ?_) _
      exact fun _ _ heq => congrArg Prod.snd heq
    · refine .inl (List.count_eq_zero.mpr fun hmem => ?_)
      obtain ⟨_, -, hq⟩ := List.mem_map.mp hmem
      exact heq (congrArg Prod.fst hq)
  | @partly b₁ before column chunks e s' hlater hstops =>
    refine .inl (List.count_eq_zero.mpr fun hmem => ?_)
    obtain ⟨_, -, hq⟩ := List.mem_map.mp hmem
    obtain rfl : b₁ = b := congrArg Prod.fst hq
    rw [(hr.failure?_of_stopsAt hstops).1] at hb
    cases hb

end Asked

/-! ## What a run asks for -/

section Run

variable {columns : List Nat} {s₀ : σ} {b : Nat}

/-- Only the columns are read, and only they have been asked for. -/
def AsksOnly (columns : List Nat) (p : RowIterator × (σ × List (Nat × Nat))) : Prop :=
  p.1.physicalColumns = columns ∧ ∀ q ∈ p.2.2, q.2 ∈ columns

theorem keeps_asksOnly (r : ChunkReader σ) (columns : List Nat) :
    (next r.traced).Keeps (AsksOnly columns) := by
  rintro ⟨it, p⟩ ⟨rfl, hmem⟩
  obtain ⟨added, hrecord, hasked⟩ := next_asked r it p
  refine ⟨physicalColumns_next r.traced it p, ?_⟩
  intro q hq
  rw [hrecord] at hq
  rcases List.mem_append.mp hq with hq | hq
  · exact hmem q hq
  · exact hasked.mem q hq

/-- The iterator has come to the batch, and its chunks were asked for that many times. -/
def Passed (b : Nat) (times : Nat → Nat) (p : RowIterator × (σ × List (Nat × Nat))) : Prop :=
  (∃ b' ∈ p.1.batch?, b ≤ b') ∧ ∀ j, p.2.2.count (b, j) = times j

theorem keeps_passed (r : ChunkReader σ) (b : Nat) (times : Nat → Nat) :
    (next r.traced).Keeps (Passed b times) := by
  rintro ⟨it, p⟩ ⟨hb, htimes⟩
  obtain ⟨added, hrecord, hasked⟩ := next_asked r it p
  refine ⟨hasked.batch_le hb, fun j => ?_⟩
  rw [hrecord, List.count_append, hasked.count_eq_zero hb, Nat.add_zero]
  exact htimes j

/-- The columns are read in the batches that can be entered. No chunk of these has been asked for
twice, and none if the batch comes after the one that the iterator is in. -/
structure Once (r : ChunkReader σ) (s₀ : σ) (columns : List Nat)
    (p : RowIterator × (σ × List (Nat × Nat))) : Prop where
  columns_eq : p.1.physicalColumns = columns
  same : r.Same s₀ p.2.1
  entered : ∀ b ∈ p.1.batch?, r.failure? s₀ columns b = none
  le_one : ∀ b j, r.failure? s₀ columns b = none → p.2.2.count (b, j) ≤ 1
  fresh : ∀ b j, r.failure? s₀ columns b = none → (∀ b' ∈ p.1.batch?, b' < b) →
    p.2.2.count (b, j) = 0

theorem keeps_traced {P : σ → Prop} (hr : r.Keeps P) : r.traced.Keeps fun p => P p.1 := by
  intro batch column p hp
  exact hr batch column p.1 hp

theorem keeps_once (hr : r.Steady) (hcolumns : columns.Nodup) (s₀ : σ) :
    (next r.traced).Keeps (Once r s₀ columns) := by
  rintro ⟨it, p⟩ h
  obtain ⟨added, hrecord, hasked⟩ := next_asked r it p
  rw [h.columns_eq] at hasked
  have hfailure : ∀ b, r.failure? p.1 columns b = r.failure? s₀ columns b := by
    intro b
    exact h.same.failure?_eq columns b
  have hentering : ∀ b j, r.failure? s₀ columns b = none → added.count (b, j) = 0 ∨
      ((∀ b' ∈ it.batch?, b' < b) ∧ (next r.traced (it, p)).2.1.batch? = some b ∧
        added.count (b, j) ≤ 1) := by
    intro b j hb
    exact hasked.entering hr hcolumns ((hfailure b).trans hb)
  refine ⟨(physicalColumns_next r.traced it p).trans h.columns_eq,
    keeps_next (keeps_traced (hr s₀)) (it, p) h.same, ?_, ?_, ?_⟩
  · intro b hb
    -- the batch is left as it was unless all its chunks could be read
    generalize (next r.traced (it, p)).2.1.batch? = b?' at hasked hb
    cases hasked with
    | nothing => exact h.entered b hb
    | wholly hlater hloads =>
      cases hb
      exact (hfailure b).symm.trans (hr.failure?_of_loads hloads).1
    | partly _ _ => exact h.entered b hb
  · intro b j hb
    rw [hrecord, List.count_append]
    obtain hzero | ⟨hlater, -, hone⟩ := hentering b j hb
    · rw [hzero]
      exact h.le_one b j hb
    · rw [h.fresh b j hb hlater, Nat.zero_add]
      exact hone
  · intro b j hb hlater
    rw [hrecord, List.count_append]
    obtain hzero | ⟨-, hbatch, -⟩ := hentering b j hb
    · rw [hzero, Nat.add_zero]
      refine h.fresh b j hb fun b' hb' => ?_
      obtain ⟨b'', hb'', hle⟩ := hasked.batch_le ⟨b', hb', Nat.le_refl b'⟩
      exact Nat.lt_of_le_of_lt hle (hlater b'' hb'')
    · -- a batch that has just been entered is not a later one
      exact absurd (hlater b hbatch) (Nat.lt_irrefl b)

end Run

/-! ## The columns of a filter -/

section Filter

variable {t : TableInfo} {f : ColumnFilter}

/-- Whether a physical column is needed: it holds the row keys or a selected data column. -/
def Wanted (t : TableInfo) (f : ColumnFilter) (k : Nat) : Prop :=
  (t.mapping.hasKeys = true ∧ k = 0) ∨
    ∃ j < t.spec.size, f.selects j = true ∧ k = j + t.mapping.keyColumns

/-- All physical columns are wanted if all data columns are selected. -/
theorem wanted_of_lt (hwidth : t.mapping.primitives.length = t.spec.size)
    (hall : ∀ j < t.spec.size, f.selects j = true) {k : Nat} (hk : k < t.mapping.schema.length) :
    Wanted t f k := by
  rw [t.mapping.length_schema, hwidth] at hk
  by_cases hkeys : k < t.mapping.keyColumns
  · left
    unfold SchemaMapping.keyColumns at hkeys
    split at hkeys
    · rename_i hhas
      exact ⟨hhas, Nat.lt_one_iff.mp hkeys⟩
    · cases hkeys
  · right
    exact ⟨k - t.mapping.keyColumns, by omega, hall _ (by omega), by omega⟩

theorem physicalColumns_ofAll (h : ofAll t = .ok it) :
    it.physicalColumns = List.range t.mapping.schema.length := by
  obtain rfl := wrap_of_create h
  rfl

/-- **An iterator reads the columns that its filter wants**, and no others. -/
theorem wanted_of_mem (hwidth : t.mapping.primitives.length = t.spec.size)
    (hf : f.validate t.spec.size = .ok ()) (h : ofFilter t f = .ok it) :
    ∀ k ∈ it.physicalColumns, Wanted t f k := by
  -- an iterator over all columns wants them all
  have hall : ofAll t = .ok it → (∀ j < t.spec.size, f.selects j = true) →
      ∀ k ∈ it.physicalColumns, Wanted t f k := by
    intro h hselects k hk
    rw [physicalColumns_ofAll h] at hk
    exact wanted_of_lt hwidth hselects (List.mem_range.mp hk)
  unfold ofFilter at h
  cases hselection : f.selection? with
  | none =>
    rw [hselection] at h
    exact hall h fun j _ => by rw [ColumnFilter.selects, hselection]
  | some selection =>
    have hlt := lt_of_validate hf hselection
    have hselects : ∀ j, f.selects j = true ↔ j ∈ selection.columns := by
      intro j
      rw [ColumnFilter.selects, hselection]
      exact List.contains_iff_mem
    rw [hselection] at h
    dsimp only at h
    split at h
    · split at h
      · -- only the row keys are read
        rename_i hkeys
        obtain rfl := wrap_of_create h
        intro k hk
        exact .inl ⟨hkeys, Nat.lt_one_iff.mp (List.mem_range.mp hk)⟩
      · cases h
        intro k hk
        cases hk
    · split at h
      · obtain rfl := wrap_of_create h
        have hshifted : ∀ k ∈ selection.columns.map (· + t.mapping.keyColumns), Wanted t f k := by
          intro k hk
          obtain ⟨j, hj, rfl⟩ := List.mem_map.mp hk
          exact .inr ⟨j, hlt j hj, (hselects j).mpr hj, rfl⟩
        intro k hk
        simp only [physicalColumns, physicalSelection] at hk
        split at hk
        · rename_i hkeys
          rcases List.mem_cons.mp hk with rfl | hk
          · exact .inl ⟨hkeys, rfl⟩
          · exact hshifted k hk
        · exact hshifted k hk
      · -- a selection of as many columns as there are has them all
        rename_i hlen
        refine hall h fun j hj => (hselects j).mpr ?_
        refine mem_of_length_le selection.increasing 0 t.spec.size (fun x hx => ?_)
          (Nat.le_of_not_lt hlen) j (Nat.zero_le j) (by omega)
        exact ⟨Nat.zero_le x, by have := hlt x hx; omega⟩

end Filter

/-! ## Runs over stores that differ elsewhere -/

theorem agree_of_steady (hr : r.Steady) (hr' : r'.Steady)
    (hbatches : r.batchCount s = r'.batchCount u) (hrows : r.rowCount s = r'.rowCount u)
    (hchunks : ∀ b j, wanted j → (r.readChunk b j s).1 = (r'.readChunk b j u).1) :
    r.Agree r' wanted fun s₁ u₁ => r.Same s s₁ ∧ r'.Same u u₁ where
  batchCount h := by rw [h.1.batchCount, h.2.batchCount, hbatches]
  rowCount h := by rw [h.1.rowCount, h.2.rowCount, hrows]
  readChunk b j hj := by
    rintro s₁ u₁ ⟨hs, hu⟩
    refine ⟨?_, hr s b j s₁ hs, hr' u b j u₁ hu⟩
    rw [hs.readChunk, hu.readChunk, hchunks b j hj]

/-- The chunks that are asked for until an iterator has answered `n` times, by batch and column. -/
def requests (r : ChunkReader σ) (it : RowIterator) (s : σ) (n : Nat) : List (Nat × Nat) :=
  ((next r.traced).after n (it, (s, []))).2.2

/-- What is asked of the reader in a run. -/
structure Confined (r : ChunkReader σ) (it : RowIterator) (s : σ) (wanted : Nat → Prop) :
    Prop where
  /-- The run with a record has the same answers. -/
  recorded : ∀ n, (next r.traced).nth n (it, (s, [])) = (next r).nth n (it, s)
  wanted : ∀ n, ∀ q ∈ requests r it s n, wanted q.2
  /-- A batch that has been entered is not asked for again. -/
  entered : ∀ {k b}, ((next r).after k (it, s)).1.batch? = some b →
    ∀ n j, (requests r it s (k + n)).count (b, j) = (requests r it s k).count (b, j)
  /-- If there is always the same to read, the attempt that succeeds is the only one. -/
  once : r.Steady → ∀ {k b}, ((next r).after k (it, s)).1.batch? = some b →
    ∀ n j, (requests r it s n).count (b, j) ≤ 1

/-- An iterator that has not moved yet asks for its columns only, and for none of them in vain. -/
theorem confined_of_start (r : ChunkReader σ) (hbatch : it.batch? = none)
    (hcolumns : it.physicalColumns.Nodup) (hwanted : ∀ j ∈ it.physicalColumns, wanted j) (s : σ) :
    Confined r it s wanted := by
  have hagrees := next_agrees (r.agree_traced wanted)
  have hstart : Reading wanted (fun (p : σ × List (Nat × Nat)) s => p.1 = s) (it, (s, []))
      (it, s) := ⟨⟨rfl, rfl⟩, hwanted⟩
  -- the traced reader gives the same answers, so a statement about its runs is one about these
  have hsame : ∀ k, ((next r.traced).after k (it, (s, []))).1 = ((next r).after k (it, s)).1 := by
    intro k
    exact (hagrees.after k hstart).1.1
  refine ⟨fun n => hagrees.nth n hstart, ?_, ?_, ?_⟩
  · intro n q hq
    have honly := (keeps_asksOnly r it.physicalColumns).after n (s := (it, (s, [])))
      ⟨rfl, fun _ h => absurd h List.not_mem_nil⟩
    exact hwanted _ (honly.2 q hq)
  · intro k b hb n j
    have hpassed : Passed b (fun j => (requests r it s k).count (b, j))
        ((next r.traced).after k (it, (s, []))) := by
      refine ⟨⟨b, ?_, Nat.le_refl b⟩, fun _ => rfl⟩
      rw [hsame]
      exact hb
    rw [requests, Action.after_add]
    exact ((keeps_passed r b _).after n hpassed).2 j
  · intro hr k b hb n j
    have honce : ∀ k, Once r s it.physicalColumns ((next r.traced).after k (it, (s, []))) := by
      intro k
      refine (keeps_once hr hcolumns s).after k ⟨rfl, .refl r s, ?_, ?_, ?_⟩
      · intro b hb
        rw [hbatch] at hb
        cases hb
      · exact fun _ _ _ => Nat.zero_le 1
      · exact fun _ _ _ _ => rfl
    rw [← hsame] at hb
    exact (honce n).le_one b j ((honce k).entered b hb)

/-- **Columns that are not selected do not matter.**

Let two stores have the same batches and agree, chunk by chunk and failure by failure, on the row
keys and on the selected columns. Then an iterator gives the same answers over both, with the same
rows and cells and the same errors in the same places, and asks both for the same chunks. All of
these are chunks of row keys or of selected columns. Once a batch could be entered it is not read
again, and if a chunk that cannot be read stays so no chunk of it has been asked for twice. -/
theorem answers_of_agree {t : TableInfo} {hasKeys : Bool} {tags : ClassTags} {f : ColumnFilter}
    (hmapping : SchemaMapping.ofTags t.spec hasKeys tags = .ok t.mapping)
    (hf : f.validate t.spec.size = .ok ()) (h : r.Agree r' (Wanted t f) R) (hs : R s u) :
    ∃ it, ofFilter t f = .ok it ∧
      (∀ n, (next r).nth n (it, s) = (next r').nth n (it, u)) ∧
      (∀ n, requests r it s n = requests r' it u n) ∧
      Confined r it s (Wanted t f) ∧ Confined r' it u (Wanted t f) := by
  have hwidth := (SchemaMapping.mapsTo_of_ofTags hmapping).length_eq
  obtain ⟨it, hfilter⟩ := exists_ofFilter hwidth hf
  have hwanted := wanted_of_mem hwidth hf hfilter
  obtain ⟨hbatch, hcolumns⟩ : it.batch? = none ∧ it.physicalColumns.Nodup := by
    obtain ⟨-, rfl⟩ | ⟨wrap, read, selection, hm, rfl⟩ := ofFilter_start hfilter
    · exact ⟨rfl, List.nodup_nil⟩
    · rw [hm.batch?_eq, hm.physicalColumns_eq]
      exact ⟨rfl, selection.increasing.imp Nat.ne_of_lt⟩
  refine ⟨it, hfilter, ?_, ?_, confined_of_start r hbatch hcolumns hwanted s,
    confined_of_start r' hbatch hcolumns hwanted u⟩
  · intro n
    exact (next_agrees h).nth n ⟨⟨rfl, hs⟩, hwanted⟩
  · intro n
    have hafter := (next_agrees h.traced).after n (s := (it, (s, []))) (t := (it, (u, [])))
      ⟨⟨rfl, hs, rfl⟩, hwanted⟩
    exact hafter.1.2.2

/-- A table of two columns of numbers, with row keys. -/
def samplePair : TableInfo :=
  ⟨1, ⟨[⟨"a", .primitive .int⟩, ⟨"b", .primitive .int⟩]⟩, ⟨true, [.int, .int], .empty .builtin⟩, 2⟩

/-- A chunk of one number. -/
def numberChunk (n : Int32) : Chunk :=
  .paired (.plain .int (.ofList [⟨n, false⟩])) (.ofList [⟨[], true⟩])

/-- Two batches of one row. In the second one the first number cannot be read; the last column is
given. -/
def sampleHalf (last : Outcome Chunk) : ChunkReader Unit where
  batchCount _ := 2
  rowCount _ batch := if batch < 2 then 1 else 0
  readChunk batch column := Action.ofOutcome <|
    if column = 0 then .ok (.plain .rowKey (.ofList [⟨[0x6B], false⟩]))
    else if column = 1 then if batch = 0 then .ok (numberChunk 7) else Outcome.fail .io
    else last

theorem answers_of_agree_sampleHalf :
    ((sampleHalf (.ok (numberChunk 8))).readChunk 0 2 ()).1 = .ok (numberChunk 8) ∧
    ((sampleHalf (Outcome.fail .io)).readChunk 0 2 ()).1 = Outcome.fail .io ∧
    ∃ it, ofFilter samplePair (.only [0]) = .ok it ∧
      (next (sampleHalf (.ok (numberChunk 8)))).nth 0 (it, ()) =
        .ok (some ⟨some "k", [.ok (.int 7), .ok .unmaterialized]⟩) ∧
      (next (sampleHalf (.ok (numberChunk 8)))).nth 1 (it, ()) = Outcome.fail .io ∧
      (∀ n, (next (sampleHalf (.ok (numberChunk 8)))).nth n (it, ()) =
        (next (sampleHalf (Outcome.fail .io))).nth n (it, ())) ∧
      requests (sampleHalf (.ok (numberChunk 8))) it () 2 = [(0, 0), (0, 1), (1, 0), (1, 1)] := by
  have hsteady : ∀ last, (sampleHalf last).Steady := fun last s batch column s' hs' => hs'
  have hchunks : ∀ b j, Wanted samplePair (.only [0]) j →
      ((sampleHalf (.ok (numberChunk 8))).readChunk b j ()).1 =
        ((sampleHalf (Outcome.fail .io)).readChunk b j ()).1 := by
    rintro b _ (⟨-, rfl⟩ | ⟨j, -, hj, rfl⟩)
    · rfl
    · obtain rfl : j = 0 := by
        simpa [ColumnFilter.selects, ColumnFilter.only, Selection.contains, Selection.ofList,
          Selection.insert] using hj
      rfl
  have hagree := agree_of_steady (hsteady (.ok (numberChunk 8))) (hsteady (Outcome.fail .io)) rfl
    rfl hchunks
  have hmapping : SchemaMapping.ofTags samplePair.spec true (.empty .builtin) =
      .ok samplePair.mapping := rfl
  obtain ⟨it, hfilter, hanswers, -⟩ :=
    answers_of_agree hmapping rfl hagree ⟨.refl _ (), .refl _ ()⟩
  cases hfilter
  exact ⟨rfl, rfl, _, rfl, by cbv, by cbv, hanswers, by cbv⟩

end RowIterator

end Columnar
