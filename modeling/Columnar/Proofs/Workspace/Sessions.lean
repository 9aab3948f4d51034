import Columnar.Proofs.Store.Opened
import Columnar.Proofs.Workspace.Calls

/-!
# Sessions

**Sessions** (`Workspace.Session`). A session starts with tables that were saved and are not open.
From there on anything may happen, in any order: containers are created and used, tables are loaded,
read and cleared, and whatever lies outside the stores and tables changes.

**Soundness** (`Workspace.Sound`). Whatever can be read from a store is uniform. A container that is
being filled has a store of its own, and no table is open on it yet. Every operation keeps this.

Main result: `Session.sound`, and so the iterator of any table reads from a sound store
(`Sound.iterate_store`).
-/

namespace Columnar

/-- What can be read from the store is uniform. -/
def Store.Sound : Store → Prop
  | .memory s => s.Uniform
  | .disk d => d.Sound d.rowCount

theorem Store.Sound.close {st : Store} (h : st.Sound) : st.close.Sound := by
  cases st with
  | memory s => exact s.uniform_close
  | disk d => exact DiskStore.Sound.close h

namespace Workspace

variable {w w' : Workspace} {cs before after : List OpenContainer} {c : OpenContainer}
  {id : StoreId} {table : TableId} {st : Store} {t : Table}

/-- The workspaces that a session leads to, and the containers that it has created by then. -/
inductive Session : Workspace → List OpenContainer → Prop
  | start {w : Workspace} (hstores : w.stores = #[])
    (htables : ∀ t ∈ w.tables, ∃ info task, t = ⟨info, .saved task .unopened, false⟩) :
    Session w []
  | create {w : Workspace} {cs : List OpenContainer} (h : Session w cs) (e : Environment)
    (id : Int64) (spec : TableSpec) (hasKeys : Bool) :
    Session (createContainer e id spec hasKeys w).2
      (cs ++ (createContainer e id spec hasKeys w).1.toOption.toList)
  | use {w : Workspace} {before after : List OpenContainer} {c : OpenContainer}
    (h : Session w (before ++ c :: after)) (call : OpenContainer.Call) :
    Session (OpenContainer.perform call (c, w)).2.2
      (before ++ (OpenContainer.perform call (c, w)).2.1 :: after)
  | load {w : Workspace} {cs : List OpenContainer} (h : Session w cs) (e : Environment)
    (record path : String) (id? : Option Int64) : Session (loadTableOf e record path id? w).2 cs
  | iterate {w : Workspace} {cs : List OpenContainer} (h : Session w cs) (table : TableId)
    (f : ColumnFilter) : Session (Workspace.iterate table f w).2 cs
  | next {w : Workspace} {cs : List OpenContainer} (h : Session w cs) (it : OpenIterator) :
    Session (nextRow (it, w)).2.2 cs
  | clear {w : Workspace} {cs : List OpenContainer} (h : Session w cs) (table : TableId) :
    Session (clearTable table w).2 cs
  /-- Files are written, by saving a table or by anyone else, factories are registered, tables are
  put into the repository. -/
  | change {w w' : Workspace} {cs : List OpenContainer} (h : Session w cs)
    (hstores : w'.stores = w.stores) (htables : w'.tables = w.tables) : Session w' cs

/-- The store of the container is there, and the container is closed or being filled. -/
def Fills (w : Workspace) (c : OpenContainer) : Prop :=
  ∃ s, w.stores[c.store.index]? = some (.memory s) ∧
    (c.container.cursor? = none ∨ c.container.Filling s)

/-- No container is filling the store. -/
def Idle (cs : List OpenContainer) (id : StoreId) : Prop :=
  ∀ c ∈ cs, c.store = id → c.container.cursor? = none

/-- The stores of the workspace are sound, and those that tables are open on are there and not
being filled any more. -/
structure Sound (w : Workspace) (cs : List OpenContainer) : Prop where
  stores : ∀ {id : StoreId} {st : Store}, w.stores[id.index]? = some st → st.Sound
  separate : (cs.map OpenContainer.store).Nodup
  fills : ∀ c ∈ cs, w.Fills c
  tables : ∀ {i : Nat} {t : Table} {id : StoreId}, w.tables[i]? = some t → t.store? = some id →
    (∃ st, w.stores[id.index]? = some st) ∧ Idle cs id

/-! ## Changes -/

theorem mem_middle {c' : OpenContainer} :
    c' ∈ before ++ c :: after ↔ c' = c ∨ c' ∈ before ++ after :=
  List.perm_middle.mem_iff.trans List.mem_cons

theorem separate_middle : ((before ++ c :: after).map OpenContainer.store).Nodup ↔
    (∀ c' ∈ before ++ after, c'.store ≠ c.store) ∧
      ((before ++ after).map OpenContainer.store).Nodup := by
  rw [(List.perm_middle.map OpenContainer.store).nodup_iff, List.map_cons, List.nodup_cons,
    List.mem_map]
  refine and_congr_left fun _ => ⟨fun h c' hc' heq => h ⟨c', hc', heq⟩, ?_⟩
  rintro h ⟨c', hc', heq⟩
  exact h c' hc' heq

theorem Sound.of_eq (h : w.Sound cs) (hstores : w'.stores = w.stores)
    (htables : w'.tables = w.tables) : w'.Sound cs where
  stores hst := h.stores (hstores ▸ hst)
  separate := h.separate
  fills c hc := by
    rw [Fills, hstores]
    exact h.fills c hc
  tables ht hid := by
    rw [hstores]
    exact h.tables (htables ▸ ht) hid

theorem Sound.addStore (h : w.Sound cs) (hst : st.Sound) :
    Sound { w with stores := w.stores.push st } cs := by
  have hkept : ∀ {i : Nat} {st' : Store}, w.stores[i]? = some st' →
      (w.stores.push st)[i]? = some st' := by
    intro i st' hst'
    have hlt := (Array.getElem?_eq_some_iff.mp hst').1
    rw [Array.getElem?_push_lt hlt, ← Array.getElem?_eq_getElem hlt, hst']
  refine ⟨fun {id st'} hst' => ?_, h.separate, fun c hc => ?_, fun ht hid => ?_⟩
  · rw [Array.getElem?_push] at hst'
    split at hst'
    · cases hst'
      exact hst
    · exact h.stores hst'
  · obtain ⟨s, hs, hfills⟩ := h.fills c hc
    exact ⟨s, hkept hs, hfills⟩
  · obtain ⟨⟨st', hst'⟩, hidle⟩ := h.tables ht hid
    exact ⟨⟨st', hkept hst'⟩, hidle⟩

/-- A store that no container is filling is replaced by another of its kind. -/
theorem Sound.setStore (h : w.Sound cs) (hst : w.stores[id.index]? = some st) {st' : Store}
    (hst' : st'.Sound) (hkind : ∀ s, st = .memory s → ∃ s', st' = .memory s')
    (hidle : Idle cs id) : (w.setStore id st').Sound cs := by
  have hself := getElem?_setStore_self hst st'
  have hother : ∀ {i : Nat}, i ≠ id.index → (w.setStore id st').stores[i]? = w.stores[i]? :=
    fun hne => Array.getElem?_setIfInBounds_ne hne.symm
  refine ⟨fun {id' st₀} hst₀ => ?_, h.separate, fun c hc => ?_, fun {i t id'} ht hid => ?_⟩
  · by_cases heq : id'.index = id.index
    · rw [heq, hself] at hst₀
      cases hst₀
      exact hst'
    · exact h.stores (hother heq ▸ hst₀)
  · -- the container of the replaced store is closed, so any memory store will do for it
    obtain ⟨s, hs, hfills⟩ := h.fills c hc
    by_cases heq : c.store.index = id.index
    · rw [heq, hst] at hs
      cases hs
      obtain ⟨s', rfl⟩ := hkind s rfl
      exact ⟨s', heq ▸ hself, .inl (hidle c hc (congrArg StoreId.mk heq))⟩
    · exact ⟨s, (hother heq).trans hs, hfills⟩
  · obtain ⟨⟨st₀, hst₀⟩, hidle'⟩ := h.tables ht hid
    by_cases heq : id'.index = id.index
    · exact ⟨⟨st', heq ▸ hself⟩, hidle'⟩
    · exact ⟨⟨st₀, (hother heq).trans hst₀⟩, hidle'⟩

theorem Sound.withTables (h : w.Sound cs) {ts : Array Table}
    (hts : ∀ {i : Nat} {t' : Table}, ts[i]? = some t' → t' = t ∨ w.tables[i]? = some t')
    (ht : ∀ id, t.store? = some id → (∃ st, w.stores[id.index]? = some st) ∧ Idle cs id) :
    Sound { w with tables := ts } cs where
  stores := h.stores
  separate := h.separate
  fills := h.fills
  tables ht' hid := by
    obtain rfl | hold := hts ht'
    · exact ht _ hid
    · exact h.tables hold hid

theorem Sound.addTable (h : w.Sound cs)
    (ht : ∀ id, t.store? = some id → (∃ st, w.stores[id.index]? = some st) ∧ Idle cs id) :
    Sound { w with tables := w.tables.push t } cs := by
  refine h.withTables (fun {i t'} ht' => ?_) ht
  rw [Array.getElem?_push] at ht'
  split at ht'
  · cases ht'
    exact .inl rfl
  · exact .inr ht'

theorem Sound.setTable (h : w.Sound cs) (table : TableId)
    (ht : ∀ id, t.store? = some id → (∃ st, w.stores[id.index]? = some st) ∧ Idle cs id) :
    (w.setTable table t).Sound cs := by
  refine h.withTables (fun {i t'} ht' => ?_) ht
  rw [Array.getElem?_setIfInBounds] at ht'
  split at ht'
  · split at ht'
    · cases ht'
      exact .inl rfl
    · cases ht'
  · exact .inr ht'

theorem Sound.drop (h : w.Sound (before ++ c :: after)) : w.Sound (before ++ after) := by
  refine ⟨h.stores, (separate_middle.mp h.separate).2,
    fun c' hc' => h.fills c' (mem_middle.mpr (.inr hc')), fun ht hid => ?_⟩
  obtain ⟨hst, hidle⟩ := h.tables ht hid
  exact ⟨hst, fun c' hc' => hidle c' (mem_middle.mpr (.inr hc'))⟩

theorem Sound.insert (h : w.Sound (before ++ after))
    (hnew : ∀ c' ∈ before ++ after, c'.store ≠ c.store) (hfills : w.Fills c)
    (hidle : ∀ {i : Nat} {t : Table}, w.tables[i]? = some t → t.store? = some c.store →
      c.container.cursor? = none) : w.Sound (before ++ c :: after) := by
  refine ⟨h.stores, separate_middle.mpr ⟨hnew, h.separate⟩, fun c' hc' => ?_,
    fun {i t id} ht hid => ?_⟩
  · obtain rfl | hc' := mem_middle.mp hc'
    · exact hfills
    · exact h.fills c' hc'
  · obtain ⟨hst, hothers⟩ := h.tables ht hid
    refine ⟨hst, fun c' hc' heq => ?_⟩
    obtain rfl | hc' := mem_middle.mp hc'
    · exact hidle ht (heq ▸ hid)
    · exact hothers c' hc' heq

/-! ## Containers -/

theorem Sound.others (h : w.Sound (before ++ c :: after)) :
    ∀ c' ∈ before ++ after, c'.store ≠ c.store := (separate_middle.mp h.separate).1

/-- A container that is closed does not fill its store any more, and no other container does. -/
theorem Sound.idle (h : w.Sound (before ++ c :: after)) (hcursor : c.container.cursor? = none) :
    Idle (before ++ c :: after) c.store := by
  intro c' hc' heq
  obtain rfl | hc' := mem_middle.mp hc'
  · exact hcursor
  · exact absurd heq (h.others c' hc')

/-- A container does something to its store, and is closed or goes on being filled. -/
theorem Sound.fill (h : w.Sound (before ++ c :: after)) {c' : OpenContainer} {s : MemoryStore}
    (hstore : c'.store = c.store) (hs : s.Uniform)
    (hfills : c'.container.cursor? = none ∨ c'.container.Filling s)
    (hclosed : c.container.cursor? = none → c'.container.cursor? = none) :
    (w.setStore c.store (.memory s)).Sound (before ++ c' :: after) := by
  obtain ⟨s₀, hs₀, -⟩ := h.fills c List.mem_append_cons_self
  have hothers := h.others
  have hmemory : Store.Sound (.memory s) := hs
  -- without the container its store is idle, and it is put back with the new contents
  have hset := h.drop.setStore hs₀ hmemory (fun _ _ => ⟨s, rfl⟩)
    fun c' hc' heq => absurd heq (hothers c' hc')
  rw [← hstore] at hothers
  refine hset.insert hothers ⟨s, hstore ▸ getElem?_setStore_self hs₀ _, hfills⟩ fun ht hid => ?_
  have hidle := (h.tables ht (hid.trans (congrArg some hstore))).2
  exact hclosed (hidle c List.mem_append_cons_self rfl)

/-- A container that is created gets a new store, which it is filling. If none is created, nothing
has changed. -/
theorem createContainer_cases (e : Environment) (id : Int64) (spec : TableSpec) (hasKeys : Bool)
    (w : Workspace) :
    (∃ f, createContainer e id spec hasKeys w = (.error f, w)) ∨
      ∃ c s, createContainer e id spec hasKeys w =
          (.ok c, { w with stores := w.stores.push (.memory s) }) ∧
        c.store = ⟨w.stores.size⟩ ∧ c.container.Filling s := by
  cases hmapping : SchemaMapping.create spec hasKeys e.serializers with
  | error f =>
    exact .inl ⟨f, by simp only [createContainer, Action.bind_apply, Action.liftM_apply, hmapping]⟩
  | ok m =>
    cases hfactory : e.factory e.defaultFactory with
    | error f =>
      exact .inl ⟨f, by
        simp only [createContainer, Action.bind_apply, Action.liftM_apply, hmapping, hfactory]⟩
    | ok factory =>
      cases hcreate : Container.create id spec m e.options with
      | error f =>
        exact .inl ⟨f, by
          simp only [createContainer, Action.bind_apply, Action.liftM_apply, hmapping, hfactory,
            hcreate]⟩
      | ok p =>
        obtain ⟨k, s⟩ := p
        have hrun : createContainer e id spec hasKeys w = (.ok ⟨k, factory, ⟨w.stores.size⟩, none⟩,
            { w with stores := w.stores.push (.memory s) }) := by
          simp only [createContainer, Action.bind_apply, Action.liftM_apply, hmapping, hfactory,
            hcreate]
          rfl
        obtain ⟨hdefault, hsize, hspec⟩ := createContainer_eq_ok hrun
        obtain ⟨c', w', hrun', htook, -⟩ :=
          createContainer_took w hdefault hsize id hspec hasKeys
        cases hrun.symm.trans hrun'
        obtain ⟨s', hs', htaken⟩ := htook.stored
        cases Array.getElem?_push_size.symm.trans hs'
        exact .inr ⟨_, _, hrun, rfl, htaken.filling⟩

theorem Sound.create (h : w.Sound cs) (e : Environment) (id : Int64) (spec : TableSpec)
    (hasKeys : Bool) : Sound (createContainer e id spec hasKeys w).2
      (cs ++ (createContainer e id spec hasKeys w).1.toOption.toList) := by
  obtain ⟨f, hrun⟩ | ⟨c, s, hrun, hstore, hfilling⟩ :=
    createContainer_cases e id spec hasKeys w <;> rw [hrun]
  · rwa [show (cs ++ (Except.error f : Outcome OpenContainer).toOption.toList) = cs from
      List.append_nil cs]
  · have hnone : w.stores[c.store.index]? = none := by
      rw [hstore]
      exact Array.getElem?_eq_none (Nat.le_refl _)
    have hmemory : Store.Sound (.memory s) := hfilling.uniform
    have hadd : Sound { w with stores := w.stores.push (.memory s) } (cs ++ []) :=
      (List.append_nil cs).symm ▸ h.addStore hmemory
    refine hadd.insert (c := c) (fun c' hc' heq => ?_) ⟨s, ?_, .inr hfilling⟩ fun ht hid => ?_
    · rw [List.append_nil] at hc'
      obtain ⟨s', hs', -⟩ := h.fills c' hc'
      rw [heq, hnone] at hs'
      cases hs'
    · rw [hstore]
      exact Array.getElem?_push_size
    · obtain ⟨⟨st, hst⟩, -⟩ := h.tables ht hid
      rw [hnone] at hst
      cases hst

theorem Sound.add (h : w.Sound (before ++ c :: after)) (row : Row) :
    (addRow row (c, w)).2.2.Sound (before ++ (addRow row (c, w)).2.1 :: after) := by
  obtain ⟨s, hs, hcursor | hfilling⟩ := h.fills c List.mem_append_cons_self
  · rw [addRow, onContainer_apply hs, Container.add_closed hcursor]
    exact h.fill rfl (h.stores hs) (.inl hcursor) id
  · obtain ⟨o, k, s', hadd, hfilling', -⟩ := hfilling.add row
    obtain ⟨cursor, -, -, hsome, -⟩ := hfilling.written
    rw [addRow, onContainer_apply hs, hadd]
    exact h.fill rfl hfilling'.uniform (.inr hfilling') fun hnone => by cases hsome.symm.trans hnone

/-- A container that is closed has a table, which is open on its store. -/
theorem Sound.closeContainer (h : w.Sound (before ++ c :: after)) :
    (Workspace.closeContainer (c, w)).2.2.Sound
      (before ++ (Workspace.closeContainer (c, w)).2.1 :: after) := by
  obtain ⟨s, hs, hcursor | hfilling⟩ := h.fills c List.mem_append_cons_self
  · have hrun : Workspace.closeContainer (c, w) = (.ok (), (c, w)) := by
      simp only [Workspace.closeContainer, Action.bind_apply, Action.get_apply, hcursor,
        Option.isNone_none, if_true]
      rfl
    rwa [hrun]
  · obtain ⟨s', hclose, huniform⟩ := hfilling.close
    have hcursor : c.container.cursor?.isNone = false := by
      obtain ⟨cursor, -, -, hcursor, -⟩ := hfilling.written
      rw [hcursor, Option.isNone_some]
    let k := c.container.update none c.container.mapping.tags
    let c' : OpenContainer := { c with container := k, table? := some ⟨w.tables.size⟩ }
    let t : Table := ⟨k.info, .finalized c.factory c.store, false⟩
    have hrun : Workspace.closeContainer (c, w) = (.ok (), (c',
        { w.setStore c.store (.memory s') with tables := w.tables.push t })) := by
      simp only [Workspace.closeContainer, Action.bind_apply, Action.get_apply, hcursor,
        Bool.false_eq_true, if_false, onContainer_apply hs, hclose, Action.on_apply]
      rfl
    have hset : (w.setStore c.store (.memory s')).Sound (before ++ c' :: after) :=
      h.fill rfl huniform (.inl rfl) fun _ => rfl
    rw [hrun]
    refine hset.addTable (t := t) fun id hid => ?_
    cases hid
    exact ⟨⟨_, getElem?_setStore_self hs _⟩, hset.idle (c := c') rfl⟩

/-! ## Tables -/

theorem Sound.readChunk (h : w.Sound cs) (id : StoreId) (i j : Nat) :
    (Workspace.readChunk id i j w).2.Sound cs := by
  cases hst : w.stores[id.index]? with
  | none => rwa [readChunk_none hst]
  | some st =>
    cases st with
    | memory s => rwa [readChunk_memory hst]
    | disk d =>
      have hsound := (DiskStore.Sound.readChunk (h.stores hst) w.files i j).2
      have hidle : Idle cs id := by
        intro c hc heq
        obtain ⟨s, hs, -⟩ := h.fills c hc
        rw [heq, hst] at hs
        cases hs
      rw [readChunk_diskStore hst]
      have hdisk : Store.Sound (.disk (DiskStore.readChunk i j (d, w.files)).2.1) := by
        rw [Store.Sound, hsound.rowCount_eq]
        exact hsound
      exact (h.setStore hst hdisk nofun hidle).of_eq rfl rfl

theorem Sound.next (h : w.Sound cs) (it : OpenIterator) : (nextRow (it, w)).2.2.Sound cs := by
  have hkeeps : (readerOf it.store?).Keeps (Sound · cs) := by
    intro i j w' h'
    cases it.store? with
    | none => exact h'
    | some id => exact h'.readChunk id i j
  exact RowIterator.keeps_next hkeeps (it.rows, w) h

theorem Sound.load (h : w.Sound cs) (e : Environment) (record path : String) (id? : Option Int64) :
    (loadTableOf e record path id? w).2.Sound cs := by
  have hload : ∀ context, (Workspace.loadTable e context).Keeps (Sound · cs) := fun context =>
    .bind (Action.keeps_liftM _) fun _ => .bind (Action.keeps_liftM _) fun _ _ h =>
      h.addTable fun _ hid => by cases hid
  refine Action.keeps_get_bind (P := (Sound · cs)) (fun w h => ?_) w h
  refine Action.Keeps.bind (P := (Sound · cs)) (Action.keeps_liftM _) (fun settings => ?_) w h
  cases id? with
  | none => exact .bind (Action.keeps_liftM _) fun _ => .bind (Action.keeps_liftM _) hload
  | some id => exact .bind (Action.keeps_liftM _) fun _ => .bind (Action.keeps_liftM _) hload

theorem Sound.accessStore (h : w.Sound cs) (table : TableId) :
    (Workspace.accessStore table w).2.Sound cs := by
  obtain ⟨info, task, cleared, d, ht, hopen, hrun⟩ | ⟨o, w', hrun, -, hstores, htables, -⟩ :=
    accessStore_cases table w
  · have hdisk : Store.Sound (.disk d) := DiskStore.sound_of_openFile hopen
    rw [hrun]
    refine (h.addStore hdisk).setTable table fun id hid => ?_
    cases hid
    refine ⟨⟨_, Array.getElem?_push_size⟩, fun c hc heq => ?_⟩
    -- the containers have other stores
    obtain ⟨s, hs, -⟩ := h.fills c hc
    rw [heq, Array.getElem?_eq_none (Nat.le_refl _)] at hs
    cases hs
  · rw [hrun]
    exact h.of_eq hstores htables

theorem Sound.clearTable (h : w.Sound cs) (table : TableId) :
    (Workspace.clearTable table w).2.Sound cs := by
  cases ht : w.tables[table.index]? with
  | none => rwa [Workspace.clearTable, onTable_none ht]
  | some t =>
    cases hcleared : t.cleared with
    | true => rwa [Cleared.clearTable ⟨t, ht, hcleared⟩]
    | false =>
      have hshut : ∀ id, t.shut.store? = some id → t.store? = some id := by
        obtain ⟨info, ⟨factory, store⟩ | ⟨task, state⟩, cleared⟩ := t
        · exact fun _ hid => hid
        · exact fun _ hid => by cases hid
      cases hid : t.store? with
      | none =>
        have hrun : Workspace.clearTable table w = (.ok (), w.setTable table t.shut) := by
          rw [Workspace.clearTable, onTable_apply ht, Table.clear_apply hcleared, hid]
        rw [hrun]
        exact h.setTable table fun id hid' => by rw [hshut id hid'] at hid; cases hid
      | some id =>
        -- the table still names its store, which no container fills
        obtain ⟨⟨st, hst⟩, hidle⟩ := h.tables ht hid
        rw [clearTable_of_open ht hcleared hid hst]
        refine (h.setTable table fun id' hid' => ?_).setStore hst (h.stores hst).close ?_ hidle
        · exact h.tables ht (hshut id' hid')
        · rintro s rfl
          exact ⟨s.close, rfl⟩

theorem Sound.clearContainer (h : w.Sound (before ++ c :: after)) :
    (Workspace.clearContainer (c, w)).2.2.Sound
      (before ++ (Workspace.clearContainer (c, w)).2.1 :: after) := by
  cases htable : c.table? with
  | some table =>
    rw [OpenContainer.clearContainer_of_some htable]
    exact h.clearTable table
  | none =>
    obtain ⟨s, hs, hcursor | hfilling⟩ := h.fills c List.mem_append_cons_self <;>
      rw [OpenContainer.clearContainer_of_none htable, onContainer_apply hs]
    · rw [Container.clear_closed hcursor]
      exact h.fill rfl s.uniform_close (.inl hcursor) id
    · obtain ⟨s', hclear⟩ := hfilling.clear
      rw [hclear]
      exact h.fill rfl s'.uniform_close (.inl rfl) fun _ => rfl

/-! ## Sessions -/

/-- **Whatever is called on a container.** -/
theorem Sound.perform (h : w.Sound (before ++ c :: after)) (call : OpenContainer.Call) :
    (OpenContainer.perform call (c, w)).2.2.Sound
      (before ++ (OpenContainer.perform call (c, w)).2.1 :: after) := by
  cases call with
  | add row => exact h.add row
  | close => exact h.closeContainer
  | clear => exact h.clearContainer
  | size => exact h
  | table => exact h

/-- **Stores stay sound**, whatever happens in a session. -/
theorem Session.sound (h : Session w cs) : w.Sound cs := by
  -- on the calls of the session; `Sound` is kept by each of them
  induction h with
  | @start w hstores htables =>
    refine ⟨fun hst => ?_, List.nodup_nil, nofun, fun ht hid => ?_⟩
    · rw [hstores] at hst
      cases hst
    · obtain ⟨info, task, rfl⟩ := htables _ (Array.mem_of_getElem? ht)
      cases hid
  | create _ e id spec hasKeys ih => exact ih.create e id spec hasKeys
  | use _ call ih => exact ih.perform call
  | load _ e record path id? ih => exact ih.load e record path id?
  | iterate _ table f ih =>
    exact keeps_iterate_of_access (P := (Sound · _)) (fun _ h => h.accessStore table) f _ ih
  | next _ it ih => exact ih.next it
  | clear _ table ih => exact ih.clearTable table
  | change _ hstores htables ih => exact ih.of_eq hstores htables

/-- **What an iterator reads from** is there. -/
theorem Sound.iterate_store {f : ColumnFilter} {it : OpenIterator} (h : w.Sound cs)
    (hrun : Workspace.iterate table f w = (.ok it, w')) : w'.Sound cs ∧
      ∀ id, it.store? = some id → ∃ st, w'.stores[id.index]? = some st := by
  have h' : w'.Sound cs := by
    have hkept := keeps_iterate_of_access (P := (Sound · cs)) (fun _ h => h.accessStore table) f w h
    rwa [hrun] at hkept
  refine ⟨h', fun id hid => ?_⟩
  obtain ⟨t, -, -, -, hstore⟩ := iterate_eq_ok hrun
  split at hstore
  · obtain ⟨store, hsome, haccess⟩ := hstore
    cases hid.symm.trans hsome
    obtain ⟨t', ht', hopen⟩ := accessStore_opens haccess
    exact (h'.tables ht' hopen).1
  · cases hid.symm.trans hstore.1

end Workspace

end Columnar
