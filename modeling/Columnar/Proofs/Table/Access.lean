import Columnar.Proofs.Table.Iterator
import Columnar.Workspace.Basic

/-!
# Getting hold of the store of a table

An iterator is created with access to the store if it has to read from it, and does to the store
what getting hold of it does (`RowIterator.create_apply`, `create_snd`).

**Tables** do that and whatever else they do to a store in any surroundings: what creates and closes
stores is left to them (`Table.access_saved`, `Table.clear_apply`).
-/

namespace Columnar

namespace RowIterator

variable {σ ρ : Type}

theorem create_apply {t : TableInfo} {f : ColumnFilter}
    (hf : f.validate t.spec.size = .ok ()) {it : RowIterator} (hfilter : ofFilter t f = .ok it)
    (access : Action σ ρ) (s : σ) :
    create t f access s =
      if needsStore t f then ((it, some ·) <$> (access s).1, (access s).2)
      else (.ok (it, none), s) := by
  cases hneeds : needsStore t f with
  | false =>
    simp only [create, Action.bind_apply, hf, Action.liftM_apply, hneeds, hfilter]
    rfl
  | true =>
    simp only [create, Action.bind_apply, hf, Action.liftM_apply, hneeds, if_true,
      Action.map_apply, hfilter]
    cases access s with
    | mk o s' => cases o <;> rfl

/-- Creating an iterator does at most what getting hold of the store does. -/
theorem create_snd (t : TableInfo) (f : ColumnFilter) (access : Action σ ρ) (s : σ) :
    (create t f access s).2 = s ∨ (create t f access s).2 = (access s).2 := by
  simp only [create, Action.bind_apply, Action.liftM_apply]
  cases f.validate t.spec.size with
  | error e => exact .inl rfl
  | ok _ =>
    cases needsStore t f with
    | false =>
      left
      cases ofFilter t f <;> rfl
    | true =>
      right
      simp only [if_true, Action.bind_apply, Action.map_apply, Action.liftM_apply]
      rcases access s with ⟨_ | _, s'⟩
      · rfl
      · cases ofFilter t f <;> rfl

/-- An iterator is created for a filter that fits the table. If it has to read from the store, that
can be had. -/
theorem create_eq_ok {t : TableInfo} {f : ColumnFilter} {it : RowIterator} {store? : Option ρ}
    {access : Action σ ρ} {w w' : σ}
    (h : create t f access w = (.ok (it, store?), w')) :
    f.validate t.spec.size = .ok () ∧ ofFilter t f = .ok it ∧
      if needsStore t f then ∃ store, store? = some store ∧ access w = (.ok store, w')
      else store? = none ∧ w' = w := by
  obtain ⟨_, w₁, hf, h₁⟩ := Action.bind_eq_ok h
  obtain ⟨hvalid, rfl⟩ := Action.liftM_eq_ok hf
  refine ⟨hvalid, ?_⟩
  dsimp only at h₁
  cases hneeds : needsStore t f with
  -- the store is accessed before the iterator is made
  | true =>
    rw [hneeds, if_pos rfl] at h₁
    obtain ⟨opened?, w₂, hstore, h₂⟩ := Action.bind_eq_ok h₁
    obtain ⟨rows, w₃, hrows, h₃⟩ := Action.bind_eq_ok h₂
    obtain ⟨hfilter, rfl⟩ := Action.liftM_eq_ok hrows
    cases h₃
    refine ⟨hfilter, ?_⟩
    rw [Action.map_apply] at hstore
    rcases haccess : access w₁ with ⟨e | store, w₄⟩
    · rw [haccess] at hstore
      cases hstore
    · rw [haccess] at hstore
      cases hstore
      rw [if_pos rfl]
      exact ⟨store, rfl, rfl⟩
  | false =>
    rw [hneeds, if_neg Bool.false_ne_true] at h₁
    obtain ⟨opened?, w₂, hstore, h₂⟩ := Action.bind_eq_ok h₁
    obtain ⟨rows, w₃, hrows, h₃⟩ := Action.bind_eq_ok h₂
    obtain ⟨hfilter, rfl⟩ := Action.liftM_eq_ok hrows
    cases h₃
    cases hstore
    rw [if_neg Bool.false_ne_true]
    exact ⟨hfilter, rfl, rfl⟩

end RowIterator

namespace Table

variable {σ : Type} {t : Table}

/-- The store that a table is open on. -/
def store? (t : Table) : Option StoreId :=
  match t.backing with
  | .finalized _ store => some store
  | .saved _ (.opened store) => some store
  | .saved _ _ => none

/-- A table once it is cleared. -/
def shut (t : Table) : Table where
  info := t.info
  backing := match t.backing with
    | .finalized factory store => .finalized factory store
    | .saved task _ => .saved task .cleared
  cleared := true

theorem access_saved (create : OpenTask → Action σ StoreId) (info : TableInfo) (task : OpenTask)
    (state : LazyStore StoreId) (cleared : Bool) (s : σ) :
    access create (⟨info, .saved task state, cleared⟩, s) =
      ((LazyStore.access (task.run create) (state, s)).1,
        (⟨info, .saved task (LazyStore.access (task.run create) (state, s)).2.1, cleared⟩,
          (LazyStore.access (task.run create) (state, s)).2.2)) := rfl

theorem iterate_apply (create : OpenTask → Action σ StoreId) (f : ColumnFilter) (t : Table)
    (s : σ) : iterate create f (t, s) = RowIterator.create t.info f (access create) (t, s) := rfl

theorem clear_of_cleared (h : t.cleared = true) (close : StoreId → Action σ Unit) (s : σ) :
    clear close (t, s) = (.ok (), (t, s)) := by
  simp only [clear, Action.bind_apply, Action.get_apply, h, if_true, Action.pure_apply]

/-- The first time, the store that the table is open on is closed. -/
theorem clear_apply (h : t.cleared = false) (close : StoreId → Action σ Unit) (s : σ) :
    clear close (t, s) = match t.store? with
      | some store => ((close store s).1.quiet, (t.shut, (close store s).2))
      | none => (.ok (), (t.shut, s)) := by
  obtain ⟨info, ⟨factory, store⟩ | ⟨task, _ | store | _⟩, cleared⟩ := t <;> cases h <;> rfl

end Table

end Columnar
