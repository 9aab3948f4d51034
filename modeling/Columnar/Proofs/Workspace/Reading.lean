import Columnar.Proofs.Store.Contents
import Columnar.Proofs.Table.Access
import Columnar.Workspace.Tables

/-!
# Reading tables of a workspace

**Stores** (`Workspace.StoreShows`). A store of a workspace shows some batches, from memory or from
a chunk file. Reading a chunk may change the cache of the store and changes nothing else, so the
store goes on showing them (`reader_shows`).

**Tables** (`Workspace.Serves`). A table serves rows if the store behind it is there or can be
opened, and shows batches that hold the rows (`BackingShows`). Then every filter that fits the table
gets an iterator that gives the masked rows (`iterate_of_serves`), and no other filter gets to the
store (`iterate_refused`).
-/

namespace Columnar

/-- The store shows the batches. -/
def Store.Shows (fs : Files) (bs : List Batch) : Store → Prop
  | .memory s => s.closed = false ∧ s.batches.toList = bs
  | .disk d => d.Mirrors fs bs

namespace Workspace

/-- The store with this handle shows the batches. -/
def StoreShows (id : StoreId) (bs : List Batch) (w : Workspace) : Prop :=
  ∃ st : Store, w.stores[id.index]? = some st ∧ st.Shows w.files bs

variable {w : Workspace} {id : StoreId} {bs : List Batch}

theorem setIfInBounds_self {α : Type} {xs : Array α} {i : Nat} {x : α} (h : xs[i]? = some x) :
    xs.setIfInBounds i x = xs := by
  apply Array.ext_getElem?
  intro j
  rw [Array.getElem?_setIfInBounds]
  split
  · rename_i hij
    subst hij
    rw [h, if_pos (Array.getElem?_eq_some_iff.mp h).1]
  · rfl

theorem getElem?_setStore_self {st : Store} (h : w.stores[id.index]? = some st) (st' : Store) :
    (w.setStore id st').stores[id.index]? = some st' := by
  have hlt := (Array.getElem?_eq_some_iff.mp h).1
  simp [setStore, hlt]

theorem reader_batchCount (h : w.StoreShows id bs) : (reader id).batchCount w = bs.length := by
  obtain ⟨st, hst, hshows⟩ := h
  cases st with
  | memory s =>
    obtain ⟨-, rfl⟩ := hshows
    simp only [reader, hst, Option.map_some, Option.getD_some, Store.batchCount]
    exact s.batches.size_eq
  | disk d =>
    simp only [reader, hst, Option.map_some, Option.getD_some, Store.batchCount]
    exact DiskStore.Mirrors.batchCount_eq hshows

theorem reader_rowCount (h : w.StoreShows id bs) (i : Nat) :
    (reader id).rowCount w i = rowCountAt bs i := by
  obtain ⟨st, hst, hshows⟩ := h
  cases st with
  | memory s =>
    obtain ⟨-, rfl⟩ := hshows
    simp only [reader, hst, Option.map_some, Option.getD_some, Store.rowCount]
    exact s.rowCount_eq i
  | disk d =>
    simp only [reader, hst, Option.map_some, Option.getD_some, Store.rowCount]
    exact DiskStore.Mirrors.rowCount_eq hshows i

theorem readChunk_none (h : w.stores[id.index]? = none) (i j : Nat) :
    readChunk id i j w = (Outcome.abort .outOfRange, w) := by
  simp [readChunk, Action.bind_apply, store, h, Outcome.ofIndex, Outcome.abort]

theorem readChunk_memory {s : MemoryStore} (h : w.stores[id.index]? = some (.memory s))
    (i j : Nat) : readChunk id i j w = (s.readChunk i j, w) := by
  simp [readChunk, Action.bind_apply, store, h, Outcome.ofIndex]

theorem readChunk_diskStore {d : DiskStore} (h : w.stores[id.index]? = some (.disk d))
    (i j : Nat) : readChunk id i j w = ((DiskStore.readChunk i j (d, w.files)).1,
      { w.setStore id (.disk (DiskStore.readChunk i j (d, w.files)).2.1) with
        files := (DiskStore.readChunk i j (d, w.files)).2.2 }) := by
  simp [readChunk, Action.bind_apply, store, h, Outcome.ofIndex]

theorem readChunk_of_shows (h : w.StoreShows id bs) (i j : Nat) :
    ∃ w', readChunk id i j w = (chunkAt bs i j, w') ∧ w'.StoreShows id bs := by
  obtain ⟨st, hst, hshows⟩ := h
  cases st with
  | memory s =>
    refine ⟨w, ?_, _, hst, hshows⟩
    obtain ⟨hopen, rfl⟩ := hshows
    rw [readChunk_memory hst, MemoryStore.readChunk_eq hopen]
  | disk d =>
    obtain ⟨d', hread, hd'⟩ := DiskStore.Mirrors.readChunk hshows i j
    refine ⟨{ w.setStore id (.disk d') with files := w.files }, ?_, .disk d',
      getElem?_setStore_self hst _, hd'⟩
    rw [readChunk_diskStore hst, hread]

/-- **A store that shows batches is a reader of them.** -/
theorem reader_shows (id : StoreId) (bs : List Batch) :
    (reader id).Shows (StoreShows id bs) bs where
  batchCount h := reader_batchCount h
  rowCount h i := reader_rowCount h i
  readChunk {w} h {i j b c} hi hj := by
    obtain ⟨w', hread, hw'⟩ := readChunk_of_shows h i j
    exact ⟨w', by rw [show (reader id).readChunk i j = readChunk id i j from rfl, hread,
      chunkAt_eq_ok.mpr ⟨b, hi, hj⟩], hw'⟩

/-! ## Tables -/

/-- The task opens a store that shows the batches, and its factory does not refuse. -/
structure CanOpen (w : Workspace) (task : OpenTask) (bs : List Batch) : Prop where
  factory : ∃ f, w.factories[task.factory.index]? = some f ∧ f.refusals = 0
  opens : ∃ d, DiskStore.openFile w.files task.path task.specs = .ok d ∧ d.Mirrors w.files bs

/-- Behind a table is a store of these columns that shows the batches, or will be when it is opened.
-/
inductive BackingShows (w : Workspace) (specs : List ChunkSpec) (bs : List Batch) : Backing → Prop
  | finalized (factory : FactoryId) {store : StoreId} {s : MemoryStore}
    (hstore : w.stores[store.index]? = some (.memory s)) (hopen : s.closed = false)
    (hspecs : s.specs = specs) (hbatches : s.batches.toList = bs) :
    BackingShows w specs bs (.finalized factory store)
  | unopened {task : OpenTask} (h : w.CanOpen task bs) :
    BackingShows w specs bs (.saved task .unopened)
  | opened (task : OpenTask) {store : StoreId} (h : w.StoreShows store bs) :
    BackingShows w specs bs (.saved task (.opened store))

/-- The table has the rows, and they can be read. -/
structure ServesFrom (w : Workspace) (t : Table) (bs : List Batch) (rows : List Row) : Prop where
  not_cleared : t.cleared = false
  holds : t.info.Holds bs rows
  shows : w.BackingShows t.info.mapping.schema.specs bs t.backing

/-- The table with this handle has the rows, and they can be read. -/
def Serves (w : Workspace) (id : TableId) (info : TableInfo) (rows : List Row) : Prop :=
  ∃ t bs, w.tables[id.index]? = some t ∧ t.info = info ∧ w.ServesFrom t bs rows

variable {table : TableId} {info : TableInfo} {rows : List Row} {f : ColumnFilter}

theorem table_apply {t : Table} (h : w.tables[table.index]? = some t) :
    Workspace.table table w = (.ok t, w) := by
  simp [Workspace.table, h, Outcome.ofIndex]

theorem setTable_self {t : Table} (h : w.tables[table.index]? = some t) :
    w.setTable table t = w := by
  rw [setTable, setIfInBounds_self h]

theorem onTable_apply {α : Type} {t : Table} (h : w.tables[table.index]? = some t)
    (m : Action (Table × Workspace) α) :
    onTable table m w = ((m (t, w)).1, (m (t, w)).2.2.setTable table (m (t, w)).2.1) :=
  Action.bind_ok (table_apply h) _

theorem onTable_none {α : Type} (h : w.tables[table.index]? = none)
    (m : Action (Table × Workspace) α) : onTable table m w = (Outcome.abort .outOfRange, w) := by
  simp [onTable, Workspace.table, Action.bind_apply, h, Outcome.ofIndex, Outcome.abort]

theorem takeRows_apply (it : OpenIterator) (limit : Nat) (w : Workspace) :
    takeRows limit (it, w) =
      ((RowIterator.take (readerOf it.store?) limit (it.rows, w)).1,
        ({ it with rows := (RowIterator.take (readerOf it.store?) limit (it.rows, w)).2.1 },
          (RowIterator.take (readerOf it.store?) limit (it.rows, w)).2.2)) := rfl

theorem ofFilter_of_not_needsStore (h : RowIterator.needsStore info f = false) :
    info.mapping.hasKeys = false ∧ (f.selects = fun _ => false) ∧
      RowIterator.ofFilter info f = .ok (.blank info.size info.spec.size) := by
  rw [RowIterator.needsStore, Bool.or_eq_false_iff] at h
  obtain ⟨hkeys, hselection⟩ := h
  have hempty : f.selection? = some .empty := by simpa using hselection
  refine ⟨hkeys, ?_, ?_⟩
  · funext j
    rw [ColumnFilter.selects, hempty]
    rfl
  · simp only [RowIterator.ofFilter, hempty, hkeys]
    rfl

theorem iterate_apply {t : Table} (ht : w.tables[table.index]? = some t)
    (hf : f.validate t.info.spec.size = .ok ()) {it : RowIterator}
    (hfilter : RowIterator.ofFilter t.info f = .ok it) :
    iterate table f w =
      if RowIterator.needsStore t.info f then
        ((⟨it, some ·⟩) <$> (accessStore table w).1, (accessStore table w).2)
      else (.ok ⟨it, none⟩, w) := by
  have hcreate := RowIterator.create_apply hf hfilter (Table.access createStore) (t, w)
  rw [iterate, accessStore, onTable_apply ht, Action.bind_apply, onTable_apply ht,
    Table.iterate_apply]
  simp only [hcreate]
  cases RowIterator.needsStore t.info f with
  | false =>
    simp only [Bool.false_eq_true, if_false, setTable_self ht]
    rfl
  | true =>
    simp only [if_true]
    rcases Table.access createStore (t, w) with ⟨_ | _, _⟩ <;> rfl

theorem factory_apply {id : FactoryId} {f : StoreFactory}
    (h : w.factories[id.index]? = some f) : factory id w = (.ok f, w) := by
  simp [factory, h, Outcome.ofIndex]

/-- The workspace after a factory has refused once. -/
def afterRefusal (w : Workspace) (id : FactoryId) (f : StoreFactory) : Workspace :=
  { w with factories := w.factories.setIfInBounds id.index { f with refusals := f.refusals - 1 } }

theorem run_createStore {task : OpenTask} {f : StoreFactory}
    (h : w.factories[task.factory.index]? = some f) :
    task.run createStore w =
      if 0 < f.refusals then
        (Outcome.fail (.atPath task.path (.illegalState .openRefused)),
          w.afterRefusal task.factory f)
      else
        match (DiskStore.openFile w.files task.path task.specs).mapError (.withPath task.path) with
        | .ok d => (.ok ⟨w.stores.size⟩, { w with stores := w.stores.push (.disk d) })
        | .error e => (.error e, w) := by
  have hself := setIfInBounds_self h
  rw [OpenTask.run, createStore, Action.mapError_apply, Action.bind_ok (factory_apply h)]
  simp only [Action.bind_apply, Action.on_apply, StoreFactory.openStore]
  by_cases hrefuse : 0 < f.refusals
  · rw [if_pos hrefuse, if_pos hrefuse]
    rfl
  · rw [if_neg hrefuse, if_neg hrefuse]
    simp only [hself]
    cases DiskStore.openFile w.files task.path task.specs with
    | ok d => rfl
    | error e => cases e <;> rfl

theorem setTable_storeShows {store : StoreId} (h : w.StoreShows store bs) (id : TableId)
    (t : Table) : (w.setTable id t).StoreShows store bs := h

theorem accessStore_finalized {info : TableInfo} {factory : FactoryId} {store : StoreId}
    {cleared : Bool}
    (ht : w.tables[table.index]? = some ⟨info, .finalized factory store, cleared⟩) :
    accessStore table w = (if cleared then Outcome.fail (.closed .table) else .ok store, w) := by
  rw [accessStore, onTable_apply ht]
  cases cleared <;> exact congrArg (Prod.mk _) (setTable_self ht)

theorem accessStore_opened {info : TableInfo} {task : OpenTask} {store : StoreId} {cleared : Bool}
    (ht : w.tables[table.index]? = some ⟨info, .saved task (.opened store), cleared⟩) :
    accessStore table w = (.ok store, w) := by
  rw [accessStore, onTable_apply ht]
  exact congrArg (Prod.mk _) (setTable_self ht)

theorem accessStore_cleared {info : TableInfo} {task : OpenTask} {cleared : Bool}
    (ht : w.tables[table.index]? = some ⟨info, .saved task .cleared, cleared⟩) :
    accessStore table w = (Outcome.fail (.closed .table), w) := by
  rw [accessStore, onTable_apply ht]
  exact congrArg (Prod.mk _) (setTable_self ht)

theorem accessStore_unopened {info : TableInfo} {task : OpenTask} {cleared : Bool}
    (ht : w.tables[table.index]? = some ⟨info, .saved task .unopened, cleared⟩) :
    accessStore table w = match task.run createStore w with
      | (.ok store, w') =>
        (.ok store, w'.setTable table ⟨info, .saved task (.opened store), cleared⟩)
      | (.error e, w') => (.error e, w'.setTable table ⟨info, .saved task .unopened, cleared⟩) := by
  rw [accessStore, onTable_apply ht, Table.access_saved, LazyStore.access]
  rcases task.run createStore w with ⟨_ | _, _⟩ <;> rfl

/-- **The store of a table can be had.** -/
theorem accessStore_of_serves {t : Table} (ht : w.tables[table.index]? = some t)
    (h : w.ServesFrom t bs rows) :
    ∃ store w', accessStore table w = (.ok store, w') ∧ w'.StoreShows store bs := by
  obtain ⟨info, backing, cleared⟩ := t
  obtain ⟨hcleared, -, hshows⟩ := h
  cases hcleared
  cases hshows with
  | @finalized factory store s hstore hopen _ hbatches =>
    exact ⟨store, w, accessStore_finalized ht, _, hstore, hopen, hbatches⟩
  | @opened task store h => exact ⟨store, w, accessStore_opened ht, h⟩
  | @unopened task h =>
    obtain ⟨⟨factory, hfactory, hrefusals⟩, d, hopen, hmirrors⟩ := h
    have hrun : task.run createStore w =
        (.ok ⟨w.stores.size⟩, { w with stores := w.stores.push (.disk d) }) := by
      rw [run_createStore hfactory, if_neg (by omega), hopen]
      rfl
    refine ⟨⟨w.stores.size⟩, _, by rw [accessStore_unopened ht, hrun], ?_⟩
    exact setTable_storeShows (w := { w with stores := w.stores.push (.disk d) })
      ⟨.disk d, by simp, hmirrors⟩ table _

/-- Asking for an iterator does at most what getting hold of the store does. -/
theorem iterate_snd (table : TableId) (f : ColumnFilter) (w : Workspace) :
    (iterate table f w).2 = w ∨ (iterate table f w).2 = (accessStore table w).2 := by
  rw [iterate, Action.bind_apply]
  cases ht : w.tables[table.index]? with
  | none =>
    rw [onTable_none ht]
    exact .inl rfl
  | some t =>
    have hsnd := RowIterator.create_snd t.info f (Table.access createStore) (t, w)
    rw [accessStore, onTable_apply ht, onTable_apply ht, Table.iterate_apply]
    generalize RowIterator.create t.info f (Table.access createStore) (t, w) = created at hsnd
    obtain ⟨o, t', w'⟩ := created
    obtain hsnd | hsnd := hsnd <;> dsimp only at hsnd
    · cases hsnd
      left
      cases o <;> exact setTable_self ht
    · right
      rw [← hsnd]
      cases o <;> rfl

/-- An iterator that was created is the one of the filter. If it has to read from the store of the
table, it does. -/
theorem iterate_eq_ok (h : iterate table f w = (.ok it, w')) :
    ∃ t, w.tables[table.index]? = some t ∧ f.validate t.info.spec.size = .ok () ∧
      RowIterator.ofFilter t.info f = .ok it.rows ∧
      if RowIterator.needsStore t.info f then
        ∃ store, it.store? = some store ∧ accessStore table w = (.ok store, w')
      else it.store? = none ∧ w' = w := by
  obtain ⟨⟨rows, store?⟩, w₁, hcreate, h⟩ := Action.bind_eq_ok h
  cases h
  cases ht : w.tables[table.index]? with
  | none =>
    rw [onTable_none ht] at hcreate
    cases hcreate
  | some t =>
    rcases hrows : RowIterator.create t.info f (Table.access createStore) (t, w) with ⟨o, t', w''⟩
    rw [onTable_apply ht, Table.iterate_apply, hrows] at hcreate
    cases hcreate
    obtain ⟨hvalid, hfilter, haccess⟩ := RowIterator.create_eq_ok hrows
    refine ⟨t, rfl, hvalid, hfilter, ?_⟩
    cases hneeds : RowIterator.needsStore t.info f <;> rw [hneeds] at haccess
    · obtain ⟨hstore, hsame⟩ := haccess
      cases hsame
      exact ⟨hstore, setTable_self ht⟩
    · obtain ⟨store, hstore, haccess⟩ := haccess
      exact ⟨store, hstore, by rw [accessStore, onTable_apply ht, haccess]⟩

theorem readerOf_none_shows : (readerOf none).Shows (fun _ => True) [] where
  batchCount _ := rfl
  rowCount _ _ := rfl
  readChunk _ _ _ _ _ hi _ := by cases hi

/-- The filter gets an iterator, which gives the rows and ends, however many are asked for. -/
def Iterates (w : Workspace) (table : TableId) (f : ColumnFilter) (rows : List Row) : Prop :=
  ∃ it w', iterate table f w = (.ok it, w') ∧
    ∀ limit, ∃ it' w'', takeRows limit (it, w') = (.ok (rows.take limit, none), (it', w''))

/-- **Every filter that fits the table gets an iterator over its rows.** -/
theorem iterate_of_serves (h : w.Serves table info rows)
    (hf : f.validate info.spec.size = .ok ()) :
    w.Iterates table f (rows.map (·.masked info.mapping.hasKeys f.selects)) := by
  obtain ⟨t, bs, ht, rfl, h⟩ := h
  have hholds := h.holds
  obtain ⟨groups, hstored, hrows⟩ := hholds.stored
  obtain ⟨store, w', haccess, hshows⟩ := accessStore_of_serves ht h
  obtain ⟨it, hfilter, hawaits⟩ := RowIterator.awaits_ofFilter hholds hstored hrows hf
  rw [Iterates, iterate_apply ht hf hfilter]
  cases hneeds : RowIterator.needsStore t.info f with
  | true =>
    refine ⟨⟨it, some store⟩, w', by rw [if_pos rfl, haccess]; rfl, ?_⟩
    intro limit
    obtain ⟨it', w'', htake, -⟩ :=
      hawaits.take (reader_shows store bs) hstored.count limit hshows
    exact ⟨_, _, by rw [takeRows_apply, readerOf, htake]⟩
  | false =>
    obtain ⟨hkeys, hselects, hblank⟩ := ofFilter_of_not_needsStore hneeds
    rw [hfilter] at hblank
    cases hblank
    refine ⟨⟨_, none⟩, w, by rw [if_neg Bool.false_ne_true], ?_⟩
    intro limit
    -- no batches are needed for rows that are counted off
    have hblank : RowIterator.Awaits [] [] [] (.blank t.info.size t.info.spec.size) _ := .blank _ _
    obtain ⟨it', w', htake, -⟩ :=
      hblank.take readerOf_none_shows batchesCount_nil limit (s := w) trivial
    rw [RowIterator.replicate_blankRow hholds hkeys, ← hselects] at htake
    exact ⟨_, _, by rw [takeRows_apply, htake]⟩

/-- **A filter that does not fit the table** is refused without a look at the store. -/
theorem iterate_refused {t : Table} (h : w.tables[table.index]? = some t) {e : Failure}
    (hf : f.validate t.info.spec.size = .error e) : iterate table f w = (.error e, w) := by
  have hrefused : Table.iterate createStore f (t, w) = (.error e, (t, w)) := by
    simp only [Table.iterate_apply, RowIterator.create, Action.bind_apply, hf, Action.liftM_apply]
  rw [iterate, Action.bind_apply, onTable_apply h, hrefused, setTable_self h]

end Workspace

end Columnar
