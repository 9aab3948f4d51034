import Columnar.Proofs.Workspace.Reading

/-!
# Runs that read

**Runs** (`Workspace.Reads`). A run asks for iterators and takes rows of them, over any tables, in
any order and with whatever success.

**What a run keeps** (`Workspace.Keeps`). It opens stores, counts refusals and fills caches. It
leaves the files and the memory stores alone; a store that shows batches goes on showing them, a
task that can be run goes on being so, and behind every table there is the same to be had.

Main result: `Reads.serves`, a table that serves rows serves them after every run.
-/

namespace Columnar

namespace Workspace

variable {w w' w'' : Workspace}

/-- Whatever could be read in `w` can be read in `w'`. -/
structure Keeps (w w' : Workspace) : Prop where
  files_eq : w'.files = w.files
  memory : ∀ {i : Nat} {s : MemoryStore}, w.stores[i]? = some (.memory s) →
    w'.stores[i]? = some (.memory s)
  stores : ∀ {id : StoreId} {bs : List Batch}, w.StoreShows id bs → w'.StoreShows id bs
  tasks : ∀ {task : OpenTask} {bs : List Batch}, w.CanOpen task bs → w'.CanOpen task bs
  tables : ∀ {i : Nat} {t : Table}, w.tables[i]? = some t → ∃ t', w'.tables[i]? = some t' ∧
    t'.info = t.info ∧ t'.cleared = t.cleared ∧ ∀ {specs : List ChunkSpec} {bs : List Batch},
      w.BackingShows specs bs t.backing → w'.BackingShows specs bs t'.backing

theorem Keeps.refl (w : Workspace) : w.Keeps w where
  files_eq := rfl
  memory h := h
  stores h := h
  tasks h := h
  tables h := ⟨_, h, rfl, rfl, fun h => h⟩

theorem Keeps.trans (h : w.Keeps w') (h' : w'.Keeps w'') : w.Keeps w'' where
  files_eq := h'.files_eq.trans h.files_eq
  memory hs := h'.memory (h.memory hs)
  stores hs := h'.stores (h.stores hs)
  tasks ht := h'.tasks (h.tasks ht)
  tables ht := by
    obtain ⟨t', ht', hinfo, hcleared, hshows⟩ := h.tables ht
    obtain ⟨t'', ht'', hinfo', hcleared', hshows'⟩ := h'.tables ht'
    exact ⟨t'', ht'', hinfo'.trans hinfo, hcleared'.trans hcleared, fun hb => hshows' (hshows hb)⟩

theorem Keeps.serves (h : w.Keeps w') {id : TableId} {info : TableInfo} {rows : List Row}
    (hw : w.Serves id info rows) : w'.Serves id info rows := by
  obtain ⟨t, bs, ht, rfl, hserves⟩ := hw
  obtain ⟨t', ht', hinfo, hcleared, hshows⟩ := h.tables ht
  refine ⟨t', bs, ht', hinfo, hcleared.trans hserves.not_cleared, hinfo ▸ hserves.holds, ?_⟩
  rw [hinfo]
  exact hshows hserves.shows

/-- What is behind a table is there as long as stores and tasks are. -/
theorem BackingShows.mono (hmemory : ∀ {i : Nat} {s : MemoryStore},
      w.stores[i]? = some (.memory s) → w'.stores[i]? = some (.memory s))
    (hstores : ∀ {id : StoreId} {bs : List Batch}, w.StoreShows id bs → w'.StoreShows id bs)
    (htasks : ∀ {task : OpenTask} {bs : List Batch}, w.CanOpen task bs → w'.CanOpen task bs)
    {specs : List ChunkSpec} {bs : List Batch} {backing : Backing}
    (h : w.BackingShows specs bs backing) : w'.BackingShows specs bs backing := by
  cases h with
  | finalized factory hstore hopen hspecs hbatches =>
    exact .finalized factory (hmemory hstore) hopen hspecs hbatches
  | unopened h => exact .unopened (htasks h)
  | opened task h => exact .opened task (hstores h)

theorem Keeps.of_tables_eq (hfiles : w'.files = w.files) (htables : w'.tables = w.tables)
    (hmemory : ∀ {i : Nat} {s : MemoryStore}, w.stores[i]? = some (.memory s) →
      w'.stores[i]? = some (.memory s))
    (hstores : ∀ {id : StoreId} {bs : List Batch}, w.StoreShows id bs → w'.StoreShows id bs)
    (htasks : ∀ {task : OpenTask} {bs : List Batch}, w.CanOpen task bs → w'.CanOpen task bs) :
    w.Keeps w' where
  files_eq := hfiles
  memory := hmemory
  stores := hstores
  tasks := htasks
  tables ht := ⟨_, htables ▸ ht, rfl, rfl, fun hb => hb.mono hmemory hstores htasks⟩

/-! ## Reading chunks -/

theorem keeps_setStore {id : StoreId} {d d' : DiskStore} (h : w.stores[id.index]? = some (.disk d))
    (hd : ∀ {bs}, d.Mirrors w.files bs → d'.Mirrors w.files bs) :
    w.Keeps (w.setStore id (.disk d')) := by
  have hother : ∀ {i : Nat} {st : Store}, i ≠ id.index → w.stores[i]? = some st →
      (w.setStore id (.disk d')).stores[i]? = some st := by
    intro i st hne hst
    rwa [setStore, Array.getElem?_setIfInBounds_ne hne.symm]
  have hmemory : ∀ {i : Nat} {s : MemoryStore}, w.stores[i]? = some (.memory s) →
      (w.setStore id (.disk d')).stores[i]? = some (.memory s) := by
    intro i s hs
    refine hother (?_) hs
    intro heq
    rw [heq, h] at hs
    cases hs
  have hstores : ∀ {id' : StoreId} {bs : List Batch}, w.StoreShows id' bs →
      (w.setStore id (.disk d')).StoreShows id' bs := by
    rintro id' bs ⟨st, hst, hshows⟩
    by_cases heq : id'.index = id.index
    · rw [heq, h] at hst
      cases hst
      refine ⟨.disk d', ?_, hd hshows⟩
      rw [heq]
      exact getElem?_setStore_self h _
    · exact ⟨st, hother heq hst, hshows⟩
  exact .of_tables_eq rfl rfl hmemory hstores fun h => ⟨h.factory, h.opens⟩

theorem keeps_readChunk (id : StoreId) (i j : Nat) (w : Workspace) :
    w.Keeps (readChunk id i j w).2 := by
  cases hstore : w.stores[id.index]? with
  | none => exact (readChunk_none hstore i j) ▸ .refl w
  | some st =>
    cases st with
    | memory s => exact (readChunk_memory hstore i j) ▸ .refl w
    | disk d =>
      rw [readChunk_diskStore hstore, DiskStore.readChunk_disk]
      refine keeps_setStore hstore fun hd => ?_
      obtain ⟨d', hread, hd'⟩ := hd.readChunk i j
      rw [hread]
      exact hd'

theorem readerOf_keeps (w : Workspace) (store? : Option StoreId) :
    (readerOf store?).Keeps w.Keeps := by
  intro i j w' h
  cases store? with
  | none => exact h
  | some id => exact h.trans (keeps_readChunk id i j w')

/-! ## Opening stores -/

theorem keeps_afterRefusal {id : FactoryId} {f : StoreFactory}
    (h : w.factories[id.index]? = some f) (hrefuse : 0 < f.refusals) :
    w.Keeps (w.afterRefusal id f) := by
  refine .of_tables_eq rfl rfl (fun h => h) (fun h => h) ?_
  rintro task bs ⟨⟨f', hf', hzero⟩, hopens⟩
  -- a task that can be run has a factory that does not refuse
  have hne : id.index ≠ task.factory.index := by
    intro heq
    rw [← heq, h] at hf'
    cases hf'
    omega
  exact ⟨⟨f', by rwa [afterRefusal, Array.getElem?_setIfInBounds_ne hne], hzero⟩, hopens⟩

theorem keeps_addStore (w : Workspace) (st : Store) :
    w.Keeps { w with stores := w.stores.push st } := by
  have hpush : ∀ {i : Nat} {st' : Store}, w.stores[i]? = some st' →
      (w.stores.push st)[i]? = some st' := by
    intro i st' hst'
    have hlt := (Array.getElem?_eq_some_iff.mp hst').1
    rw [Array.getElem?_push_lt hlt, ← Array.getElem?_eq_getElem hlt, hst']
  refine .of_tables_eq rfl rfl hpush ?_ fun h => ⟨h.factory, h.opens⟩
  rintro id bs ⟨st', hst', hshows⟩
  exact ⟨st', hpush hst', hshows⟩

theorem keeps_setOpened {id : TableId} {info : TableInfo} {task : OpenTask} {cleared : Bool}
    (ht : w.tables[id.index]? = some ⟨info, .saved task .unopened, cleared⟩) {store : StoreId}
    {d : DiskStore} (hstore : w.stores[store.index]? = some (.disk d))
    (hd : DiskStore.openFile w.files task.path task.specs = .ok d) :
    w.Keeps (w.setTable id ⟨info, .saved task (.opened store), cleared⟩) := by
  have hmemory : ∀ {i : Nat} {s : MemoryStore}, w.stores[i]? = some (.memory s) →
      (w.setTable id ⟨info, .saved task (.opened store), cleared⟩).stores[i]? =
        some (.memory s) := fun h => h
  have hstores : ∀ {id' : StoreId} {bs : List Batch}, w.StoreShows id' bs →
      (w.setTable id ⟨info, .saved task (.opened store), cleared⟩).StoreShows id' bs :=
    fun h => setTable_storeShows h id _
  have htasks : ∀ {task' : OpenTask} {bs : List Batch}, w.CanOpen task' bs →
      (w.setTable id ⟨info, .saved task (.opened store), cleared⟩).CanOpen task' bs :=
    fun h => ⟨h.factory, h.opens⟩
  refine ⟨rfl, hmemory, hstores, htasks, fun {i t} hi => ?_⟩
  by_cases heq : i = id.index
  · subst heq
    rw [ht] at hi
    cases hi
    have hlt := (Array.getElem?_eq_some_iff.mp ht).1
    refine ⟨_, Array.getElem?_setIfInBounds_self_of_lt hlt, rfl, rfl, fun hb => ?_⟩
    -- what the task opens is what was opened
    cases hb with
    | unopened h =>
      obtain ⟨d', hd', hmirrors⟩ := h.opens
      rw [hd] at hd'
      cases hd'
      exact .opened task ⟨.disk d, hstore, hmirrors⟩
  · refine ⟨t, ?_, rfl, rfl, fun hb => hb.mono hmemory hstores htasks⟩
    rw [setTable, Array.getElem?_setIfInBounds_ne fun h => heq h.symm, hi]

theorem keeps_opened {id : TableId} {info : TableInfo} {task : OpenTask} {cleared : Bool}
    (ht : w.tables[id.index]? = some ⟨info, .saved task .unopened, cleared⟩) {d : DiskStore}
    (hd : DiskStore.openFile w.files task.path task.specs = .ok d) :
    w.Keeps (setTable { w with stores := w.stores.push (.disk d) } id
      ⟨info, .saved task (.opened ⟨w.stores.size⟩), cleared⟩) :=
  (keeps_addStore w (.disk d)).trans
    (keeps_setOpened (w := { w with stores := w.stores.push (.disk d) }) ht
      Array.getElem?_push_size hd)

/-- What running a task does: it adds the store that it opens, or leaves stores and tables alone. -/
theorem run_createStore_cases (task : OpenTask) (w : Workspace) :
    (∃ d, DiskStore.openFile w.files task.path task.specs = .ok d ∧
      task.run createStore w =
        (.ok ⟨w.stores.size⟩, { w with stores := w.stores.push (.disk d) })) ∨
    ∃ e w', task.run createStore w = (.error e, w') ∧ w.Keeps w' ∧ w'.stores = w.stores ∧
      w'.tables = w.tables := by
  cases hfactory : w.factories[task.factory.index]? with
  | none =>
    refine .inr ⟨.abort .outOfRange, w, ?_, .refl w, rfl, rfl⟩
    simp [OpenTask.run, createStore, Action.bind_apply, factory, hfactory, Outcome.ofIndex,
      Outcome.abort]
    rfl
  | some f =>
    rw [run_createStore hfactory]
    by_cases hrefuse : 0 < f.refusals
    · exact .inr ⟨_, _, by rw [if_pos hrefuse]; rfl, keeps_afterRefusal hfactory hrefuse, rfl, rfl⟩
    · rw [if_neg hrefuse]
      cases hopen : DiskStore.openFile w.files task.path task.specs with
      | ok d => exact .inl ⟨d, rfl, rfl⟩
      | error e => cases e <;> exact .inr ⟨_, w, rfl, .refl w, rfl, rfl⟩

/-- What getting hold of a store does: the table gets the store that its task opens, or all stores
and tables stay as they are. -/
theorem accessStore_cases (id : TableId) (w : Workspace) :
    (∃ info task cleared d, w.tables[id.index]? = some ⟨info, .saved task .unopened, cleared⟩ ∧
      DiskStore.openFile w.files task.path task.specs = .ok d ∧
      accessStore id w = (.ok ⟨w.stores.size⟩,
        setTable { w with stores := w.stores.push (.disk d) } id
          ⟨info, .saved task (.opened ⟨w.stores.size⟩), cleared⟩)) ∨
    ∃ o w', accessStore id w = (o, w') ∧ w.Keeps w' ∧ w'.stores = w.stores ∧
      w'.tables = w.tables ∧ ∀ store, o = .ok store →
        ∃ t, w.tables[id.index]? = some t ∧ t.store? = some store := by
  cases ht : w.tables[id.index]? with
  | none =>
    exact .inr ⟨_, w, onTable_none ht _, .refl w, rfl, rfl, fun _ h => by cases h⟩
  | some t =>
    obtain ⟨info, ⟨factory, store⟩ | ⟨task, state⟩, cleared⟩ := t
    · refine .inr ⟨_, w, accessStore_finalized ht, .refl w, rfl, rfl, fun _ h => ?_⟩
      cases cleared <;> cases h
      exact ⟨_, rfl, rfl⟩
    cases state with
    | opened store =>
      exact .inr ⟨_, w, accessStore_opened ht, .refl w, rfl, rfl,
        fun _ h => by cases h; exact ⟨_, rfl, rfl⟩⟩
    | cleared =>
      exact .inr ⟨_, w, accessStore_cleared ht, .refl w, rfl, rfl, fun _ h => by cases h⟩
    | unopened =>
      rw [accessStore_unopened ht]
      obtain ⟨d, hopen, hrun⟩ | ⟨e, w', hrun, hkeeps, hstores, htables⟩ :=
        run_createStore_cases task w
      · exact .inl ⟨info, task, cleared, d, rfl, hopen, by rw [hrun]⟩
      · refine .inr ⟨.error e, w', ?_, hkeeps, hstores, htables, fun _ h => by cases h⟩
        rw [hrun]
        exact congrArg (Prod.mk _) (setTable_self (htables ▸ ht))

/-- **Getting hold of a store** keeps what can be read, whether it succeeds or not. -/
theorem keeps_accessStore (id : TableId) (w : Workspace) : w.Keeps (accessStore id w).2 := by
  obtain ⟨info, task, cleared, d, ht, hopen, hrun⟩ | ⟨o, w', hrun, hkeeps, -⟩ :=
    accessStore_cases id w
  · rw [hrun]
    exact keeps_opened ht hopen
  · rw [hrun]
    exact hkeeps

/-! ## Runs -/

theorem keeps_iterate_of_access {P : Workspace → Prop} {table : TableId}
    (haccess : (accessStore table).Keeps P) (f : ColumnFilter) : (iterate table f).Keeps P := by
  intro w h
  obtain hw | hw := iterate_snd table f w <;> rw [hw]
  · exact h
  · exact haccess w h

theorem keeps_iterate (table : TableId) (f : ColumnFilter) (w : Workspace) :
    w.Keeps (iterate table f w).2 :=
  keeps_iterate_of_access (fun w' h => h.trans (keeps_accessStore table w')) f w (.refl w)

theorem keeps_takeRows (limit : Nat) (it : OpenIterator) (w : Workspace) :
    w.Keeps (takeRows limit (it, w)).2.2 := by
  rw [takeRows_apply]
  exact RowIterator.keeps_take (readerOf_keeps w it.store?) limit (it.rows, w) (.refl w)

/-- The workspaces that a run of reading leads to. -/
inductive Reads (w : Workspace) : Workspace → Prop
  | refl : Reads w w
  /-- An iterator is asked for. -/
  | iterate {w' : Workspace} (h : Reads w w') (table : TableId) (f : ColumnFilter) :
    Reads w (Workspace.iterate table f w').2
  /-- Rows are taken of some iterator. -/
  | takeRows {w' : Workspace} (h : Reads w w') (it : OpenIterator) (limit : Nat) :
    Reads w (Workspace.takeRows limit (it, w')).2.2

theorem Reads.keeps (h : Reads w w') : w.Keeps w' := by
  induction h with
  | refl => exact .refl w
  | iterate h table f ih => exact ih.trans (keeps_iterate table f _)
  | takeRows h it limit ih => exact ih.trans (keeps_takeRows limit it _)

/-- **A table goes on serving its rows**, whatever is read. -/
theorem Reads.serves (h : Reads w w') {id : TableId} {info : TableInfo} {rows : List Row}
    (hw : w.Serves id info rows) : w'.Serves id info rows := h.keeps.serves hw

end Workspace

end Columnar
