import Columnar.Proofs.Table.Draining

/-!
# Iterators over a closed store

A chunk store keeps its index when it is closed, so there are as many rows as before, but no chunk
can be read any more (`ChunkReader.Shut`). An iterator goes on in the batch that it has read and
gives the rows of it. Then it is at the border of that batch (`AtBorder`) and stays there
(`Awaits.next_shut`, `AtBorder.next`).

A memory store forgets its batches, so there are no rows to go on to (`next_of_no_batches`).
-/

namespace Columnar

variable {σ : Type} {r : ChunkReader σ} {s s' : σ} {e : Failure}

/-! ## Reading after a store was closed -/

/-- Every chunk that is asked for gives the failure, and nothing changes. -/
def ChunkReader.Shut (r : ChunkReader σ) (s : σ) (e : Failure) : Prop :=
  ∀ batch column, r.readChunk batch column s = (.error e, s)

namespace ReadCursor

variable {batch : Nat} {columns : List Nat} {chunks : List Chunk}

theorem Loads.of_shut (h : Loads r batch columns chunks s s') (hshut : r.Shut s e) :
    columns = [] ∧ chunks = [] ∧ s' = s := by
  cases h with
  | nil => exact ⟨rfl, rfl, rfl⟩
  | cons hread _ =>
    rw [hshut] at hread
    cases hread

theorem StopsAt.of_shut {before : List Nat} {column : Nat} {e' : Failure}
    (h : StopsAt r batch columns before column chunks e' s s') (hshut : r.Shut s e) :
    columns ≠ [] ∧ chunks = [] ∧ e' = e ∧ s' = s := by
  obtain ⟨after, rfl⟩ := h.split
  obtain ⟨s₁, hloads, hfail⟩ := h.failed
  obtain ⟨-, rfl, rfl⟩ := hloads.of_shut hshut
  rw [hshut] at hfail
  cases hfail
  exact ⟨by simp, rfl, rfl, rfl⟩

end ReadCursor

namespace RowIterator

open ReadCursor

variable {schema : Schema} {bs : List Batch} {groups : Groups} {it : RowIterator} {row : Row}
  {rows : List Row}

/-- The next row of the iterator is in a batch that it has not read. -/
inductive AtBorder (r : ChunkReader σ) (s : σ) : RowIterator → Prop
  | intro {wrap : ReadCursor → RowIterator} {read : ReadCursor → Outcome Row} {c : ReadCursor}
    {batch : Nat} (hm : Moves wrap read) (hopen : c.closed = false)
    (hcolumns : c.selection.columns ≠ []) (hsame : sameBatch? r s c.position? = none)
    (hnext : nextBatch? r s c.position? = some batch) : AtBorder r s (wrap c)

/-- At the border of a batch there is no way on. -/
theorem AtBorder.next (h : AtBorder r s it) (hshut : r.Shut s e) :
    ∃ it', next r (it, s) = (.error e, (it', s)) ∧ AtBorder r s it' := by
  obtain ⟨hm, hopen, hcolumns, hsame, hnext⟩ := h
  rename_i wrap read c batch
  have hcan : c.canForward r s = true := by simp [canForward, hopen, hnext]
  have hmoved := forward_moved r c s
  rcases hforward : forward r (c, s) with ⟨o, c', s'⟩
  rw [hforward] at hmoved
  cases hmoved with
  | closed hclosed => rw [hopen] at hclosed; cases hclosed
  | ended _ _ hnone => rw [hnext] at hnone; cases hnone
  | within _ hsome => rw [hsame] at hsome; cases hsome
  | entered _ _ _ hloads => exact absurd (hloads.of_shut hshut).1 hcolumns
  | refused _ _ _ hstops =>
    obtain ⟨-, rfl, rfl, rfl⟩ := hstops.of_shut hshut
    exact ⟨_, next_of_forward hm hcan hforward, .intro hm hopen hcolumns hsame hnext⟩

/-- **An iterator whose store was closed** gives the next row if it has read the batch of it. -/
theorem Awaits.next_shut (h : Awaits schema bs groups it (row :: rows)) (hshut : r.Shut s e)
    (hcount : r.Counts s groups) (hb : BatchesCount schema.length bs groups) :
    (∃ it', next r (it, s) = (.ok (some row), (it', s)) ∧ Awaits schema bs groups it' rows) ∨
    ∃ it', next r (it, s) = (.error e, (it', s)) ∧ AtBorder r s it' := by
  generalize hrows : row :: rows = all at h
  cases h with
  | blank n width =>
    cases n with
    | zero => cases hrows
    | succ n =>
      cases hrows
      exact .inl ⟨_, rfl, .blank n width⟩
  | @moves wrap read selection c before physical render hm hsel hread hc =>
    cases before with
    | nil => cases hrows
    | cons first before =>
      cases hrows
      have hcan := canForward_cons hcount hc.open_eq hc.rest_eq
      have hrest := fun {c rest row} hm =>
        @hread c rest row (List.mem_cons_of_mem first hm)
      have hadvances := forward_advances hcount hc.open_eq hc.rest_eq
      rcases hforward : forward r (c, s) with ⟨o, c', s'⟩
      rw [hforward] at hadvances
      cases hadvances with
      -- the chunks of the batch are at hand, so nothing is asked of the store
      | @within b i hp hrow htail =>
        have hc' : Before schema selection bs groups { c with position? := some (b, i + 1) }
            (before.map physical) :=
          ⟨hc.schema_eq, hc.selection_eq, hc.open_eq, htail, fun h => by
            cases h
            exact hc.loaded hp⟩
        refine .inl ⟨_, ?_, .moves hm hsel hrest hc'⟩
        rw [next_of_forward hm hcan hforward, hread List.mem_cons_self hc' ⟨_, rfl, hrow⟩]
        rfl
      | @entered b _ _ hrow htail hloads =>
        -- only an iterator without columns enters a batch
        obtain ⟨hnil, rfl, rfl⟩ := hloads.of_shut hshut
        obtain ⟨batch, hbatch, -⟩ := exists_batch hb hrow
        have hc' : Before schema selection bs groups
            { c with chunks := [], position? := some (b, 0) } (before.map physical) :=
          ⟨hc.schema_eq, hc.selection_eq, hc.open_eq, htail, fun h => by
            cases h
            exact ⟨batch, hbatch, by rw [← hc.selection_eq, hnil]; rfl⟩⟩
        refine .inl ⟨_, ?_, .moves hm hsel hrest hc'⟩
        rw [next_of_forward hm hcan hforward, hread List.mem_cons_self hc' ⟨_, rfl, hrow⟩]
        rfl
      | refused hsame hnext _ hstops =>
        obtain ⟨hne, rfl, rfl, rfl⟩ := hstops.of_shut hshut
        exact .inr ⟨_, next_of_forward hm hcan hforward, .intro hm hc.open_eq hne hsame hnext⟩

/-- Whether an iterator reads from a store. The others count rows off. -/
def readsStore : RowIterator → Bool
  | blank _ _ => false
  | _ => true

theorem readsStore_next (it : RowIterator) (s : σ) :
    (next r (it, s)).2.1.readsStore = it.readsStore := by
  have hmoves : ∀ {wrap : ReadCursor → RowIterator} {read : ReadCursor → Outcome Row},
      Moves wrap read → ∀ c, (next r (wrap c, s)).2.1.readsStore = (wrap c).readsStore := by
    intro wrap read hm c
    cases hcan : c.canForward r s with
    | true =>
      rw [next_apply hm hcan]
      cases hm <;> rfl
    | false => rw [next_of_end hm hcan]
  cases it with
  | cells complete c l => exact hmoves (.cells complete l) c
  | keys c width => exact hmoves (.keys width) c
  | blank n width => cases n <;> rfl

theorem next_of_no_batches (hit : it.readsStore = true) (hcount : r.Counts s ([] : Groups)) :
    next r (it, s) = (.ok none, (it, s)) := by
  have hend : ∀ c : ReadCursor, c.canForward r s = false := fun c =>
    canForward_nil hcount (by cases c.position? <;> simp [remaining])
  cases it with
  | cells complete c l => exact next_of_end (.cells complete l) (hend c)
  | keys c width => exact next_of_end (.keys width) (hend c)
  | blank n width => cases hit

end RowIterator

end Columnar
