import Columnar.Proofs.Workspace.Saving

/-!
# What a repository holds

**Histories.** A repository is asked to register tables, to remove tables, to remove ids, and for
the table of an id. Which table is registered under an id is a matter of the last call about that
id (`Workspace.registered?`). Several tables may have the same id.

**Step and run.** Every call keeps the agreement between the repository and its history
(`Registers.step`), so it holds after any number of them (`registers_after`).

Main result: `removeTable_after`. Removing a table removes the one entry under its id, whichever
table that is.
-/

namespace Columnar

/-! ## Repositories -/

namespace Repository

variable {ρ : Type} {r : Repository ρ} {id : Int64}

/-- No two tables have the same id. -/
def Distinct (r : Repository ρ) : Prop := (r.entries.map Prod.fst).Nodup

theorem find?_cons (k : Int64) (table : ρ) (entries : List (Int64 × ρ)) (id : Int64) :
    find? ⟨(k, table) :: entries⟩ id = if id = k then some table else find? ⟨entries⟩ id := by
  by_cases h : id = k
  · subst h
    simp [find?]
  · rw [if_neg h, find?, List.lookup_cons, beq_false_of_ne h, find?]

theorem find?_erase (r : Repository ρ) (id id' : Int64) :
    (r.erase id).find? id' = if id' = id then none else r.find? id' := by
  obtain ⟨entries⟩ := r
  induction entries with
  | nil => exact (ite_self _).symm
  | cons entry entries ih =>
    obtain ⟨k, table⟩ := entry
    rw [erase] at ih ⊢
    by_cases hk : k = id
    · rw [List.filter_cons_of_neg (by simp [hk]), ih, find?_cons]
      by_cases hid : id' = id
      · rw [if_pos hid, if_pos hid]
      · rw [if_neg hid, if_neg hid, if_neg (hk ▸ hid)]
    · rw [List.filter_cons_of_pos (by simp [hk]), find?_cons, find?_cons, ih]
      by_cases hid : id' = id
      · rw [if_pos hid, if_pos hid, if_neg (hid ▸ Ne.symm hk)]
      · rw [if_neg hid, if_neg hid]

theorem find?_insert (r : Repository ρ) (id : Int64) (table : ρ) (id' : Int64) :
    (r.insert id table).find? id' = if id' = id then some table else r.find? id' := by
  have herase : find? ⟨(r.erase id).entries⟩ id' = _ := r.find?_erase id id'
  rw [insert, find?_cons, herase]
  by_cases h : id' = id
  · rw [if_pos h, if_pos h]
  · rw [if_neg h, if_neg h, if_neg h]

theorem ne_of_find?_eq_none (h : r.find? id = none) : ∀ entry ∈ r.entries, entry.1 ≠ id := by
  intro entry hentry heq
  have := List.lookup_eq_none_iff.mp h entry hentry
  simp [heq] at this

theorem erase_of_find?_eq_none (h : r.find? id = none) : r.erase id = r := by
  obtain ⟨entries⟩ := r
  exact congrArg mk (List.filter_eq_self.mpr fun entry hentry =>
    decide_eq_true (ne_of_find?_eq_none h entry hentry))

theorem eq_empty (h : r.entries = []) : r = .empty := by
  cases r
  cases h
  rfl

theorem distinct_empty : (empty : Repository ρ).Distinct := List.nodup_nil

theorem Distinct.erase (h : r.Distinct) (id : Int64) : (r.erase id).Distinct :=
  h.sublist (List.filter_sublist.map Prod.fst)

theorem Distinct.insert (h : r.Distinct) (id : Int64) (table : ρ) :
    (r.insert id table).Distinct := by
  refine List.nodup_cons.mpr ⟨fun hid => ?_, h.erase id⟩
  obtain ⟨entry, hentry, heq⟩ := List.mem_map.mp hid
  exact of_decide_eq_true (List.mem_filter.mp hentry).2 heq

/-- **One entry at most is removed.** -/
theorem Distinct.size_erase (h : r.Distinct) {table : ρ} (hfind : r.find? id = some table) :
    (r.erase id).size + 1 = r.size := by
  obtain ⟨entries⟩ := r
  induction entries with
  | nil => cases hfind
  | cons entry entries ih =>
    obtain ⟨k, table'⟩ := entry
    rw [Distinct, List.map_cons, List.nodup_cons] at h
    rw [size, size, Repository.erase] at ih ⊢
    by_cases hk : k = id
    · have hrest : entries.filter (·.1 ≠ id) = entries := List.filter_eq_self.mpr
        fun e he => decide_eq_true fun heq => h.1 (List.mem_map.mpr ⟨e, he, heq.trans hk.symm⟩)
      rw [List.filter_cons_of_neg (by simp [hk]), hrest, List.length_cons]
    · rw [find?_cons, if_neg (Ne.symm hk)] at hfind
      rw [List.filter_cons_of_pos (by simp [hk]), List.length_cons, List.length_cons,
        ih h.2 hfind]

end Repository

/-! ## Calls -/

/-- What a repository is asked to do. -/
inductive RepositoryCall
  | put (table : TableId)
  | removeTable (table : TableId)
  | remove (id : Int64)
  | get (id : Int64)

/-- What it answers: the table it had under the id, or whether it had one. -/
inductive RepositoryAnswer
  | table (table? : Option TableId)
  | removed (there : Bool)

namespace Workspace

variable {w w' : Workspace} {past : List RepositoryCall}

/-- Ask the repository of the workspace. -/
def ask : RepositoryCall → Action Workspace RepositoryAnswer
  | .put table => return .table (← putTable table)
  | .removeTable table => return .removed (← removeTable table)
  | .remove id => return .removed (← removeById id)
  | .get id => return .table ((← Action.get).repository.find? id)

/-- The workspace after some calls, of which the latest comes first. -/
def afterCalls (w : Workspace) : List RepositoryCall → Workspace
  | [] => w
  | call :: past => (ask call (w.afterCalls past)).2

/-- The id of a table. -/
def idOf? (w : Workspace) (table : TableId) : Option Int64 :=
  w.tables[table.index]?.map (·.info.id)

/-- The table under an id after some calls, of which the latest comes first. -/
def registered? (w : Workspace) (id : Int64) : List RepositoryCall → Option TableId
  | [] => none
  | .put table :: past => if w.idOf? table = some id then some table else w.registered? id past
  | .removeTable table :: past => if w.idOf? table = some id then none else w.registered? id past
  | .remove id' :: past => if id' = id then none else w.registered? id past
  | .get _ :: past => w.registered? id past

/-! ### What a call does -/

section

variable {table : TableId} {t : Table}

theorem putTable_apply (ht : w.tables[table.index]? = some t) :
    putTable table w = (.ok (w.repository.find? t.info.id),
      { w with repository := w.repository.insert t.info.id table }) := by
  simp only [putTable, Workspace.table, ht, Outcome.ofIndex, Action.bind_apply]
  rfl

theorem removeTable_apply (ht : w.tables[table.index]? = some t) :
    removeTable table w = (.ok (w.repository.find? t.info.id).isSome,
      { w with repository := w.repository.erase t.info.id }) := by
  simp only [removeTable, Workspace.table, ht, Outcome.ofIndex, Action.bind_apply]
  rfl

/-- A table of the same id is enough to remove the one that is registered. -/
theorem removeTable_of_find? {other : TableId} (ht : w.tables[table.index]? = some t)
    (hfind : w.repository.find? t.info.id = some other) :
    removeTable table w = (.ok true, { w with repository := w.repository.erase t.info.id }) := by
  rw [removeTable_apply ht, hfind]
  rfl

theorem ask_put (ht : w.tables[table.index]? = some t) :
    ask (.put table) w = (.ok (.table (w.repository.find? t.info.id)),
      { w with repository := w.repository.insert t.info.id table }) := by
  simp only [ask, Action.bind_apply, putTable_apply ht]
  rfl

theorem ask_removeTable (ht : w.tables[table.index]? = some t) :
    ask (.removeTable table) w = (.ok (.removed (w.repository.find? t.info.id).isSome),
      { w with repository := w.repository.erase t.info.id }) := by
  simp only [ask, Action.bind_apply, removeTable_apply ht]
  rfl

theorem ask_of_no_table (ht : w.tables[table.index]? = none) :
    (ask (.put table) w).2 = w ∧ (ask (.removeTable table) w).2 = w := by
  simp only [ask, putTable, removeTable, Workspace.table, ht, Outcome.ofIndex, Action.bind_apply]
  exact ⟨rfl, rfl⟩

end

theorem ask_remove (id : Int64) (w : Workspace) :
    ask (.remove id) w = (.ok (.removed (w.repository.find? id).isSome),
      { w with repository := w.repository.erase id }) := rfl

theorem ask_get (id : Int64) (w : Workspace) :
    ask (.get id) w = (.ok (.table (w.repository.find? id)), w) := rfl

/-! ### Histories -/

/-- Nothing but the repository has changed, and it holds what has been registered. -/
structure Registers (w : Workspace) (past : List RepositoryCall) (w' : Workspace) : Prop where
  frame : w' = { w with repository := w'.repository }
  distinct : w'.repository.Distinct
  find?_eq : ∀ id, w'.repository.find? id = w.registered? id past

theorem Registers.tables_eq (h : w.Registers past w') : w'.tables = w.tables := by
  rw [h.frame]

/-- **A call keeps the agreement** between the repository and its history. -/
theorem Registers.step (h : w.Registers past w') (call : RepositoryCall) :
    w.Registers (call :: past) (ask call w').2 := by
  -- the calls change the repository only
  have hframe : ∀ r : Repository TableId,
      ({ w' with repository := r } : Workspace) = { w with repository := r } := fun r => by
    rw [h.frame]
  cases call with
  | put table =>
    cases ht : w.tables[table.index]? with
    | none =>
      rw [(ask_of_no_table (h.tables_eq ▸ ht)).1]
      refine ⟨h.frame, h.distinct, fun id => ?_⟩
      rw [registered?, idOf?, ht, h.find?_eq]
      rfl
    | some t =>
      rw [ask_put (h.tables_eq ▸ ht)]
      refine ⟨hframe _, h.distinct.insert _ _, fun id => ?_⟩
      simp only [registered?, idOf?, ht, Option.map_some, Option.some.injEq, ← h.find?_eq,
        Repository.find?_insert, eq_comm (a := id)]
  | removeTable table =>
    cases ht : w.tables[table.index]? with
    | none =>
      rw [(ask_of_no_table (h.tables_eq ▸ ht)).2]
      refine ⟨h.frame, h.distinct, fun id => ?_⟩
      rw [registered?, idOf?, ht, h.find?_eq]
      rfl
    | some t =>
      rw [ask_removeTable (h.tables_eq ▸ ht)]
      refine ⟨hframe _, h.distinct.erase _, fun id => ?_⟩
      simp only [registered?, idOf?, ht, Option.map_some, Option.some.injEq, ← h.find?_eq,
        Repository.find?_erase, eq_comm (a := id)]
  | remove id' =>
    rw [ask_remove]
    refine ⟨hframe _, h.distinct.erase _, fun id => ?_⟩
    simp only [registered?, ← h.find?_eq, Repository.find?_erase, eq_comm (a := id)]
  | get id' => exact ⟨h.frame, h.distinct, h.find?_eq⟩

/-- **After any calls** the repository holds what has been registered. -/
theorem registers_after (hempty : w.repository = .empty) (past : List RepositoryCall) :
    w.Registers past (w.afterCalls past) := by
  induction past with
  | nil =>
    refine ⟨rfl, hempty ▸ Repository.distinct_empty, fun id => ?_⟩
    rw [afterCalls, hempty]
    rfl
  | cons call past ih => exact ih.step call

/-- What is registered under an id has been put there, and has that id. -/
theorem put_of_registered? {id : Int64} {table : TableId} (h : w.registered? id past = some table) :
    .put table ∈ past ∧ w.idOf? table = some id := by
  induction past with
  | nil => cases h
  | cons call past ih =>
    cases call with
    | put table' =>
      rw [registered?] at h
      split at h
      · rename_i hid
        cases h
        exact ⟨List.mem_cons_self, hid⟩
      · exact (ih h).imp_left (List.mem_cons_of_mem _)
    | removeTable table' =>
      rw [registered?] at h
      split at h
      · cases h
      · exact (ih h).imp_left (List.mem_cons_of_mem _)
    | remove id' =>
      rw [registered?] at h
      split at h
      · cases h
      · exact (ih h).imp_left (List.mem_cons_of_mem _)
    | get id' => exact (ih h).imp_left (List.mem_cons_of_mem _)

/-- **Removing a table**, after any calls on a repository that was empty.

- The answer is whether a table is registered under the id of the table, be it this one or another
  of the same id.
- If so, the entry of that id is removed and no other; otherwise nothing changes. Nothing but the
  repository changes in any case.
- The entry is that of the table itself unless another table of the same id was put there. -/
theorem removeTable_after (hempty : w.repository = .empty) (past : List RepositoryCall)
    {table : TableId} {t : Table} (ht : w.tables[table.index]? = some t) :
    ∃ r, removeTable table (w.afterCalls past) =
        (.ok (w.registered? t.info.id past).isSome, { w.afterCalls past with repository := r }) ∧
      (∀ id, (w.afterCalls past).repository.find? id = w.registered? id past) ∧
      (∀ id, r.find? id = if id = t.info.id then none else w.registered? id past) ∧
      (∀ other, w.registered? t.info.id past = some other →
        r.size + 1 = (w.afterCalls past).repository.size ∧
        .put other ∈ past ∧ w.idOf? other = some t.info.id) ∧
      (w.registered? t.info.id past = none → r = (w.afterCalls past).repository) := by
  have h := registers_after hempty past
  refine ⟨(w.afterCalls past).repository.erase t.info.id, ?_, h.find?_eq, fun id => ?_,
    fun other hother => ⟨?_, put_of_registered? hother⟩, fun hnone => ?_⟩
  · rw [removeTable_apply (h.tables_eq.symm ▸ ht), h.find?_eq]
  · rw [Repository.find?_erase, h.find?_eq]
  · exact h.distinct.size_erase ((h.find?_eq _).trans hother)
  · exact Repository.erase_of_find?_eq_none ((h.find?_eq _).trans hnone)

/-! ## Two tables of one id -/

/-- A second table with the id of the sample table, which has no rows. -/
def sampleTwins : Workspace := (makeTable sampleSaver 5 sampleSpec true [] sampleMade).2

theorem sampleTwins_repository : sampleTwins.repository = .empty :=
  Repository.eq_empty (by decide +kernel)

/-- The second table is made the one under the id, in the place of the first. -/
theorem removeTable_after_sample : ∃ t r,
    sampleTwins.tables[0]? = some t ∧
      removeTable ⟨0⟩ (sampleTwins.afterCalls [.get 5, .put ⟨1⟩, .put ⟨0⟩]) =
        (.ok true,
          { sampleTwins.afterCalls [.get 5, .put ⟨1⟩, .put ⟨0⟩] with repository := r }) ∧
      (sampleTwins.afterCalls [.get 5, .put ⟨1⟩, .put ⟨0⟩]).repository.find? 5 = some ⟨1⟩ ∧
      r.find? 5 = none := by
  have hfirst : sampleTwins.idOf? ⟨0⟩ = some 5 := by decide +kernel
  have hsecond : sampleTwins.idOf? ⟨1⟩ = some 5 := by decide +kernel
  have hregistered : sampleTwins.registered? 5 [.get 5, .put ⟨1⟩, .put ⟨0⟩] = some ⟨1⟩ := by
    simp only [registered?, hsecond, if_true]
  obtain ⟨t, ht, hid⟩ := Option.map_eq_some_iff.mp hfirst
  obtain ⟨r, hremove, hbefore, hafter, -⟩ :=
    removeTable_after sampleTwins_repository [.get 5, .put ⟨1⟩, .put ⟨0⟩] ht
  rw [hid, hregistered] at hremove
  refine ⟨t, r, ht, hremove, (hbefore 5).trans hregistered, ?_⟩
  rw [hafter, if_pos hid.symm]

/-- **Removing a table may remove another one** of the same id. -/
theorem twin_removed : ∃ w₁ w₂, putTable ⟨0⟩ sampleTwins = (.ok none, w₁) ∧
    w₁.repository.find? 5 = some ⟨0⟩ ∧ removeTable ⟨1⟩ w₁ = (.ok true, w₂) ∧
    w₂.repository.find? 5 = none := by
  obtain ⟨t, ht, hid⟩ := Option.map_eq_some_iff.mp
    (show sampleTwins.idOf? ⟨0⟩ = some 5 by decide +kernel)
  obtain ⟨t', ht', hid'⟩ := Option.map_eq_some_iff.mp
    (show sampleTwins.idOf? ⟨1⟩ = some 5 by decide +kernel)
  have hempty := sampleTwins_repository
  -- what the workspace is made of does not matter from here on
  generalize sampleTwins = w at ht ht' hempty ⊢
  have hput := putTable_apply ht
  rw [hid, hempty] at hput
  have hfind : (Repository.insert .empty 5 (⟨0⟩ : TableId)).find? 5 = some ⟨0⟩ := by decide
  have hremove := removeTable_of_find? (w := { w with repository := .insert .empty 5 ⟨0⟩ }) ht'
    (by rw [hid']; exact hfind)
  refine ⟨_, _, hput, hfind, hremove, ?_⟩
  show Repository.find? (Repository.erase _ t'.info.id) 5 = none
  rw [Repository.find?_erase, if_pos hid'.symm]

end Workspace

end Columnar
