import Columnar.Proofs.Workspace.Saving

/-!
# The stores of tables

A table that has been accessed is open on a store of the workspace (`Feeds`). If a container has
filled it, that is the memory store of the container. If it was loaded, that is a chunk store
(`Made.openedOnDisk`), whatever else has been read in the workspace.
-/

namespace Columnar.Workspace

variable {w w' : Workspace} {table : TableId} {id : StoreId} {bs : List Batch} {saved : Bool}
  {info : TableInfo} {rows : List Row}

/-! ## Open tables -/

/-- The table is open on the store, which shows the batches: from memory if it was filled by a
container, and from a chunk file if the table was loaded. -/
inductive Feeds (w : Workspace) (table : TableId) (id : StoreId) (bs : List Batch) : Bool → Prop
  | finalized {info : TableInfo} {factory : FactoryId} {s : MemoryStore}
    (ht : w.tables[table.index]? = some ⟨info, .finalized factory id, false⟩)
    (hstore : w.stores[id.index]? = some (.memory s)) (hopen : s.closed = false)
    (hbatches : s.batches.toList = bs) : Feeds w table id bs false
  | loaded {info : TableInfo} {task : OpenTask} {d : DiskStore}
    (ht : w.tables[table.index]? = some ⟨info, .saved task (.opened id), false⟩)
    (hstore : w.stores[id.index]? = some (.disk d)) (hmirrors : d.Mirrors w.files bs) :
    Feeds w table id bs true

theorem Feeds.storeShows (h : w.Feeds table id bs saved) : w.StoreShows id bs := by
  cases h with
  | finalized _ hstore hopen hbatches => exact ⟨_, hstore, hopen, hbatches⟩
  | loaded _ hstore hmirrors => exact ⟨_, hstore, hmirrors⟩

theorem Feeds.readChunk (h : w.Feeds table id bs saved) (i j : Nat) :
    ∃ w', Workspace.readChunk id i j w = (chunkAt bs i j, w') ∧ w'.Feeds table id bs saved := by
  cases h with
  | finalized ht hstore hopen hbatches =>
    refine ⟨w, ?_, .finalized ht hstore hopen hbatches⟩
    rw [readChunk_memory hstore, MemoryStore.readChunk_eq hopen, hbatches]
  | loaded ht hstore hmirrors =>
    obtain ⟨d', hread, hd'⟩ := hmirrors.readChunk i j
    refine ⟨{ w.setStore id (.disk d') with files := w.files }, ?_,
      .loaded ht (getElem?_setStore_self hstore _) hd'⟩
    rw [readChunk_diskStore hstore, hread]

theorem reader_shows_of_feeds (table : TableId) (id : StoreId) (bs : List Batch) (saved : Bool) :
    (reader id).Shows (Feeds · table id bs saved) bs where
  batchCount h := reader_batchCount h.storeShows
  rowCount h i := reader_rowCount h.storeShows i
  readChunk {w} h {i j b c} hi hj := by
    obtain ⟨w', hread, h'⟩ := h.readChunk i j
    exact ⟨w', hread.trans (by rw [chunkAt_eq_ok.mpr ⟨b, hi, hj⟩]), h'⟩

/-! ## Stores that were opened for tables -/

/-- If the table is open on a store and was loaded, that is a chunk store. -/
def OpenedOnDisk (w : Workspace) (table : TableId) : Prop :=
  ∀ {info : TableInfo} {task : OpenTask} {id : StoreId} {cleared : Bool},
    w.tables[table.index]? = some ⟨info, .saved task (.opened id), cleared⟩ →
    ∃ d, w.stores[id.index]? = some (.disk d)

theorem OpenedOnDisk.of_eq (h : w.OpenedOnDisk table) (hstores : w'.stores = w.stores)
    (htables : w'.tables = w.tables) : w'.OpenedOnDisk table := by
  intro info task id cleared ht
  rw [hstores]
  exact h (htables ▸ ht)

theorem OpenedOnDisk.readChunk (h : w.OpenedOnDisk table) (id : StoreId) (i j : Nat) :
    (Workspace.readChunk id i j w).2.OpenedOnDisk table := by
  cases hst : w.stores[id.index]? with
  | none => rwa [readChunk_none hst]
  | some st =>
    cases st with
    | memory s => rwa [readChunk_memory hst]
    | disk d =>
      rw [readChunk_diskStore hst]
      intro info task id' cleared ht
      obtain ⟨d', hd'⟩ := h ht
      by_cases heq : id'.index = id.index
      · exact ⟨_, heq ▸ getElem?_setStore_self hst _⟩
      · exact ⟨d', by rwa [setStore, Array.getElem?_setIfInBounds_ne fun h => heq h.symm]⟩

theorem OpenedOnDisk.accessStore (h : w.OpenedOnDisk table) (id : TableId) :
    (Workspace.accessStore id w).2.OpenedOnDisk table := by
  obtain ⟨info, task, cleared, d, ht, -, hrun⟩ | ⟨o, w', hrun, -, hstores, htables, -⟩ :=
    accessStore_cases id w
  · rw [hrun]
    intro info' task' id' cleared' ht'
    by_cases heq : table.index = id.index
    · rw [heq, setTable, Array.getElem?_setIfInBounds_self_of_lt
        (Array.getElem?_eq_some_iff.mp ht).1] at ht'
      cases ht'
      exact ⟨d, Array.getElem?_push_size⟩
    · rw [setTable, Array.getElem?_setIfInBounds_ne fun h => heq h.symm] at ht'
      obtain ⟨d', hd'⟩ := h ht'
      have hlt := (Array.getElem?_eq_some_iff.mp hd').1
      refine ⟨d', ?_⟩
      show (w.stores.push (.disk d))[id'.index]? = _
      rw [Array.getElem?_push_lt hlt, ← Array.getElem?_eq_getElem hlt, hd']
  · rw [hrun]
    exact h.of_eq hstores htables

theorem OpenedOnDisk.reads (h : w.OpenedOnDisk table) (hreads : Reads w w') :
    w'.OpenedOnDisk table := by
  induction hreads with
  | refl => exact h
  | iterate _ id f ih =>
    exact keeps_iterate_of_access (P := (OpenedOnDisk · table)) (fun _ h => h.accessStore id) f _ ih
  | takeRows _ it limit ih =>
    rw [takeRows_apply]
    refine RowIterator.keeps_take (P := (OpenedOnDisk · table)) (fun i j w h => ?_) limit _ ih
    cases it.store? with
    | none => exact h
    | some id => exact h.readChunk id i j

theorem loadTableOf_unopened {e : Environment} {record file : String} {id? : Option Int64}
    (h : loadTableOf e record file id? w = (.ok table, w')) :
    ∃ info task, w'.tables[table.index]? = some ⟨info, .saved task .unopened, false⟩ := by
  obtain ⟨_, w₁, -, h⟩ := Action.bind_eq_ok h
  obtain ⟨settings, w₂, -, h⟩ := Action.bind_eq_ok h
  have hloadTable : ∀ {c : Record.LoadContext} {w : Workspace},
      loadTable e c w = (.ok table, w') →
      ∃ info task, w'.tables[table.index]? = some ⟨info, .saved task .unopened, false⟩ := by
    intro c w h
    obtain ⟨⟨info, name⟩, w₁, -, h⟩ := Action.bind_eq_ok h
    obtain ⟨factory, w₂, -, h⟩ := Action.bind_eq_ok h
    cases h
    exact ⟨info, _, Array.getElem?_push_size⟩
  cases id? with
  | none =>
    obtain ⟨id, w₃, -, h⟩ := Action.bind_eq_ok h
    obtain ⟨c, w₄, -, h⟩ := Action.bind_eq_ok h
    exact hloadTable h
  | some id =>
    obtain ⟨id, w₃, -, h⟩ := Action.bind_eq_ok h
    obtain ⟨c, w₄, -, h⟩ := Action.bind_eq_ok h
    exact hloadTable h

/-- **The store of a table that was loaded is a chunk store.** -/
theorem Made.openedOnDisk {serializers : SerializerRegistry} (h : Made serializers w table) :
    w.OpenedOnDisk table := by
  induction h with
  | container _ hreturns hrun =>
    obtain ⟨_, _, _, _, ht, -⟩ := makeTable_serves hreturns hrun
    intro info task id cleared ht'
    rw [ht] at ht'
    cases ht'
  | reads _ hreads ih => exact ih.reads hreads
  | reloaded _ _ _ _ _ _ _ hload htable _ _ _ =>
    obtain ⟨info', task', ht⟩ := loadTableOf_unopened hload
    intro info task id cleared ht'
    rw [htable, ht] at ht'
    cases ht'

/-- A table that is open serves its rows from its store. -/
theorem ServesFrom.feeds {t : Table} (h : w.ServesFrom t bs rows) (hdisk : w.OpenedOnDisk table)
    (ht : w.tables[table.index]? = some t) (hid : t.store? = some id) :
    w.Feeds table id bs t.isSaved := by
  obtain ⟨info, backing, cleared⟩ := t
  obtain ⟨hcleared, -, hshows⟩ := h
  cases hcleared
  cases hshows with
  | finalized factory hstore hopen _ hbatches =>
    cases hid
    exact .finalized ht hstore hopen hbatches
  | unopened => cases hid
  | opened task hstore =>
    cases hid
    obtain ⟨d, hd⟩ := hdisk ht
    obtain ⟨st, hst, hshows⟩ := hstore
    rw [hd] at hst
    cases hst
    exact .loaded ht hd hshows

/-- The store that was had is the one the table is open on now. -/
theorem accessStore_opens (h : accessStore table w = (.ok id, w')) :
    ∃ t, w'.tables[table.index]? = some t ∧ t.store? = some id := by
  obtain ⟨info, task, cleared, d, ht, -, hrun⟩ | ⟨o, w₁, hrun, -, -, htables, hstore⟩ :=
    accessStore_cases table w
  · rw [hrun] at h
    cases h
    exact ⟨_, Array.getElem?_setIfInBounds_self_of_lt (Array.getElem?_eq_some_iff.mp ht).1, rfl⟩
  · rw [hrun] at h
    cases h
    rw [htables]
    exact hstore id rfl

end Columnar.Workspace
