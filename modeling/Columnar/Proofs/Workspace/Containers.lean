import Columnar.Proofs.Table.Container
import Columnar.Proofs.Workspace.Reading

/-!
# From container to table

**A run** (`Workspace.addEach`) offers rows to a container one after the other and goes on after a
refusal. The rows that were taken are its result.

Main result: `container_round_trip`, the table of a container has the rows that were taken, in
order, and nothing else.
-/

namespace Columnar

/-- The row as a reader of the whole table sees it. -/
def Row.stored (hasKeys : Bool) (r : Row) : Row :=
  ⟨if hasKeys then r.key? else none, r.outcomes⟩

theorem Row.masked_all (hasKeys : Bool) (r : Row) :
    r.masked hasKeys (fun _ => true) = r.stored hasKeys := by
  simp only [masked, stored, if_true]
  congr 1
  apply List.ext_getElem <;> simp

/-- The default factory is registered. -/
def Environment.HasDefault (e : Environment) : Prop :=
  ∃ factory, e.factory e.defaultFactory = .ok factory

namespace Workspace

/-! ## Environments -/

theorem newEnvironment_hasDefault (options : StoreOptions) (serializers : SerializerRegistry)
    (w : Workspace) :
    ∃ e w', newEnvironment options serializers w = (.ok e, w') ∧ e.HasDefault := by
  refine ⟨_, _, rfl, ⟨w.factories.size⟩, ?_⟩
  simp [Environment.factory, Outcome.ofOption]

theorem registerFactory_hasDefault (f : StoreFactory) (e : Environment) (w : Workspace) :
    ∃ e' w', registerFactory f e w = (.ok e', w') ∧ e'.HasDefault := by
  refine ⟨_, _, rfl, ⟨w.factories.size⟩, ?_⟩
  simp [Environment.factory, Outcome.ofOption]

/-! ## Containers of a workspace -/

/-- Offer rows to a container one after the other, and give those that were taken. -/
def addEach : List Row → Action (OpenContainer × Workspace) (List Row)
  | [] => return []
  | r :: rs => do
    match ← (addRow r).attempt with
    | .ok () => return r :: (← addEach rs)
    | .error _ => addEach rs

/-- The container is open and has taken the rows, into a store of the workspace. -/
structure ContainerTook (w : Workspace) (options : StoreOptions) (c : OpenContainer)
    (taken : List Row) : Prop where
  no_table : c.table? = none
  stored : ∃ s, w.stores[c.store.index]? = some (.memory s) ∧ c.container.Took options s taken

/-- The container is open and holds the rows: those it has taken, as far as its columns keep them.
-/
def ContainerHolds (w : Workspace) (c : OpenContainer) (rows : List Row) : Prop :=
  ∃ options taken, w.ContainerTook options c taken ∧ rows = taken.map c.container.recovered

/-- The container `c'` is `c` after some rows were offered. -/
structure SameContainer (c c' : OpenContainer) : Prop where
  factory_eq : c'.factory = c.factory
  store_eq : c'.store = c.store
  follows : c.container.Follows c'.container

theorem SameContainer.refl (c : OpenContainer) : SameContainer c c := ⟨rfl, rfl, .refl _⟩

theorem SameContainer.trans {c₁ c₂ c₃ : OpenContainer} (h₁ : SameContainer c₁ c₂)
    (h₂ : SameContainer c₂ c₃) : SameContainer c₁ c₃ :=
  ⟨h₂.factory_eq.trans h₁.factory_eq, h₂.store_eq.trans h₁.store_eq, h₁.follows.trans h₂.follows⟩

variable {w : Workspace} {options : StoreOptions} {c : OpenContainer} {taken rows : List Row}

theorem onContainer_apply {α : Type} {s : MemoryStore}
    (h : w.stores[c.store.index]? = some (.memory s)) (m : Action (Container × MemoryStore) α) :
    onContainer m (c, w) =
      ((m (c.container, s)).1, ({ c with container := (m (c.container, s)).2.1 },
        w.setStore c.store (.memory (m (c.container, s)).2.2))) := by
  simp only [onContainer, Action.bind_apply, Action.get_apply, h, Action.on_apply]

theorem addEach_of_refused {r : Row} {state state' : OpenContainer × Workspace} {e : Failure}
    (h : addRow r state = (.error e, state')) (rows : List Row) :
    addEach (r :: rows) state = addEach rows state' := by
  simp only [addEach, Action.bind_apply, Action.attempt_apply, h]

theorem addEach_of_taken {r : Row} {state state' : OpenContainer × Workspace}
    (h : addRow r state = (.ok (), state')) (rows : List Row) :
    addEach (r :: rows) state =
      ((r :: ·) <$> (addEach rows state').1, (addEach rows state').2) := by
  simp only [addEach, Action.bind_apply, Action.attempt_apply, h]
  rcases addEach rows state' with ⟨_ | _, _⟩ <;> rfl

/-- What becomes of a row that is offered. -/
theorem addRow_adds {r : Row} {o : Outcome Unit} {tags' : ClassTags}
    (ha : Container.Adds options c.container.spec c.container.mapping r o tags')
    (h : w.ContainerTook options c taken) :
    ∃ c' w', addRow r (c, w) = (o, (c', w')) ∧ SameContainer c c' ∧
      c'.container.mapping = { c.container.mapping with tags := tags' } ∧
      w' = { w with stores := w'.stores } ∧
      w'.ContainerTook options c' (taken ++ if o.isOk then [r] else []) := by
  obtain ⟨s, hs, htook⟩ := h.stored
  obtain ⟨k, s', hadd, hfollows, hmapping, htook'⟩ := ha.run htook rfl rfl
  refine ⟨{ c with container := k }, w.setStore c.store (.memory s'), ?_,
    ⟨rfl, rfl, hfollows⟩, hmapping, rfl, h.no_table, s', getElem?_setStore_self hs _, htook'⟩
  rw [addRow, onContainer_apply hs, hadd]

theorem ContainerTook.exists_adds (h : w.ContainerTook options c taken) {r : Row}
    (hreturns : r.Returns) :
    ∃ o tags', Container.Adds options c.container.spec c.container.mapping r o tags' := by
  obtain ⟨s, -, htook⟩ := h.stored
  exact Container.exists_adds options htook.tags_unique htook.maps hreturns

/-- **A run** adds the rows that it gives to those before. -/
theorem addEach_took (h : w.ContainerTook options c taken) {offered : List Row}
    (hreturns : ∀ r ∈ offered, r.Returns) :
    ∃ added c' w', addEach offered (c, w) = (.ok added, (c', w')) ∧ added ⊆ offered ∧
      SameContainer c c' ∧ w' = { w with stores := w'.stores } ∧
      w'.ContainerTook options c' (taken ++ added) := by
  induction offered generalizing c w taken with
  | nil => exact ⟨[], c, w, rfl, List.Subset.refl _, .refl c, rfl, (List.append_nil taken).symm ▸ h⟩
  | cons r offered ih =>
    obtain ⟨o, tags', ha⟩ := h.exists_adds (hreturns r List.mem_cons_self)
    obtain ⟨c₁, w₁, hadd, hsame₁, -, hstores₁, h₁⟩ := addRow_adds ha h
    obtain ⟨added, c₂, w₂, hrun, hsub, hsame₂, hstores₂, h₂⟩ :=
      ih h₁ fun r' hr' => hreturns r' (List.mem_cons_of_mem r hr')
    have hstores : w₂ = { w with stores := w₂.stores } := by rw [hstores₂, hstores₁]
    cases o with
    | error e =>
      refine ⟨added, c₂, w₂, ?_, List.subset_cons_of_subset r hsub, hsame₁.trans hsame₂, hstores,
        by simpa using h₂⟩
      rw [addEach_of_refused hadd, hrun]
    | ok u =>
      refine ⟨r :: added, c₂, w₂, ?_, List.cons_subset_cons r hsub, hsame₁.trans hsame₂, hstores,
        by simpa using h₂⟩
      rw [addEach_of_taken hadd, hrun]
      rfl

theorem addEach_holds (h : w.ContainerHolds c rows) {offered : List Row}
    (hreturns : ∀ r ∈ offered, r.Returns) :
    ∃ taken stored c' w', addEach offered (c, w) = (.ok taken, (c', w')) ∧ SameContainer c c' ∧
      w'.ContainerHolds c' (rows ++ stored) ∧ ((∀ r ∈ offered, r.Fits) → stored = taken) := by
  obtain ⟨options, before, htook, rfl⟩ := h
  obtain ⟨added, c', w', hrun, hsub, hsame, -, htook'⟩ := addEach_took htook hreturns
  refine ⟨added, added.map c'.container.recovered, c', w', hrun, hsame,
    ⟨options, before ++ added, htook', ?_⟩, fun hfits => ?_⟩
  · rw [List.map_append, hsame.follows.recovered_eq]
  · obtain ⟨s, -, htaken⟩ := htook'.stored
    refine (List.map_congr_left fun r hr => ?_).trans (List.map_id added)
    exact htaken.recovered_of_mem (List.mem_append_right before hr) (hfits r (hsub hr))

/-- **A container can be created** for every supported spec. -/
theorem createContainer_took (w : Workspace) {e : Environment} (hdefault : e.HasDefault)
    (hsize : 0 < e.options.chunkSize) (id : Int64) {spec : TableSpec}
    (hspec : spec.isSupported = true) (hasKeys : Bool) :
    ∃ c w', createContainer e id spec hasKeys w = (.ok c, w') ∧
      w'.ContainerTook e.options c [] ∧ e.factory e.defaultFactory = .ok c.factory ∧
      c.container.id = id ∧ c.container.spec = spec ∧ c.container.mapping.hasKeys = hasKeys ∧
      c.container.mapping.tags = .empty e.serializers := by
  obtain ⟨factory, hfactory⟩ := hdefault
  obtain ⟨m, hm, hkeys, htags, hmaps⟩ : ∃ m,
      SchemaMapping.create spec hasKeys e.serializers = .ok m ∧
      m.hasKeys = hasKeys ∧ m.tags = .empty e.serializers ∧ spec.MapsTo m.primitives :=
    ⟨_, SchemaMapping.ofTags_of_supported hspec hasKeys _, rfl, rfl, hspec, rfl⟩
  have hunique : m.tags.Unique := htags ▸ ClassTags.unique_empty e.serializers
  obtain ⟨k, s, hcreate, htook, hid, hspec', hmapping⟩ :=
    Container.create_took id hsize hunique hmaps
  refine ⟨⟨k, factory, ⟨w.stores.size⟩, none⟩, { w with stores := w.stores.push (.memory s) }, ?_,
    ⟨rfl, s, by simp, htook⟩, hfactory, hid, hspec', hmapping ▸ hkeys, hmapping ▸ htags⟩
  simp only [createContainer, Action.bind_apply, Action.liftM_apply, hm, hfactory, hcreate]
  rfl

theorem createContainer_holds (w : Workspace) {e : Environment} (hdefault : e.HasDefault)
    (hsize : 0 < e.options.chunkSize) (id : Int64) {spec : TableSpec}
    (hspec : spec.isSupported = true) (hasKeys : Bool) :
    ∃ c w', createContainer e id spec hasKeys w = (.ok c, w') ∧ w'.ContainerHolds c [] ∧
      e.factory e.defaultFactory = .ok c.factory ∧ c.container.id = id ∧
      c.container.spec = spec ∧ c.container.mapping.hasKeys = hasKeys ∧
      c.container.mapping.tags = .empty e.serializers := by
  obtain ⟨c, w', hcreate, htook, hfacts⟩ := createContainer_took w hdefault hsize id hspec hasKeys
  exact ⟨c, w', hcreate, ⟨e.options, [], htook, rfl⟩, hfacts⟩

/-- A container that was created has a supported spec, and its batches have room for rows. -/
theorem createContainer_eq_ok {e : Environment} {id : Int64} {spec : TableSpec} {hasKeys : Bool}
    {w' : Workspace} (h : createContainer e id spec hasKeys w = (.ok c, w')) :
    e.HasDefault ∧ 0 < e.options.chunkSize ∧ spec.isSupported = true := by
  cases hmapping : SchemaMapping.create spec hasKeys e.serializers with
  | error f =>
    simp only [createContainer, Action.bind_apply, Action.liftM_apply, hmapping] at h
    cases h
  | ok m =>
    have hspec := (SchemaMapping.mapsTo_of_ofTags hmapping).supported
    cases hfactory : e.factory e.defaultFactory with
    | error f =>
      simp only [createContainer, Action.bind_apply, Action.liftM_apply, hmapping, hfactory] at h
      cases h
    | ok factory =>
      by_cases hsize : 0 < e.options.chunkSize
      · exact ⟨⟨factory, hfactory⟩, hsize, hspec⟩
      · have hcreate : Container.create id spec m e.options = Outcome.abort .chunkSizeZero := by
          rw [Container.create, WriteCursor.create, if_neg hsize]
          rfl
        simp only [createContainer, Action.bind_apply, Action.liftM_apply, hmapping, hfactory,
          hcreate] at h
        cases h

/-- **Closing a container** makes a table of the rows in its store. -/
theorem closeContainer_took (h : w.ContainerTook options c taken) :
    ∃ c' w' s, closeContainer (c, w) = (.ok (), (c', w')) ∧ SameContainer c c' ∧
      c'.container.mapping = c.container.mapping ∧ c'.container.Finished options s taken ∧
      tableOf c' = .ok ⟨w.tables.size⟩ ∧ w' = { w with stores := w'.stores, tables := w'.tables } ∧
      w'.tables[w.tables.size]? = some ⟨c'.container.info, .finalized c.factory c.store, false⟩ ∧
      w'.stores[c.store.index]? = some (.memory s) := by
  obtain ⟨s, hs, htook⟩ := h.stored
  obtain ⟨k, s', hclose, hfollows, hmapping, hfinished⟩ := Container.close_took htook
  have hcursor : c.container.cursor?.isNone = false := by
    obtain ⟨cursor, hcursor, -⟩ := htook.written
    simp [hcursor]
  refine ⟨{ c with container := k, table? := some ⟨(w.setStore c.store (.memory s')).tables.size⟩ },
    { w.setStore c.store (.memory s') with
      tables := w.tables.push ⟨k.info, .finalized c.factory c.store, false⟩ },
    s', ?_, ⟨rfl, rfl, hfollows⟩, hmapping, hfinished, rfl, rfl,
    Array.getElem?_push_size, getElem?_setStore_self hs _⟩
  simp only [closeContainer, Action.bind_apply, Action.get_apply, hcursor, Bool.false_eq_true,
    if_false, onContainer_apply hs, hclose, Action.on_apply, addTable]
  rfl

theorem servesFrom_finished {k : Container} {s : MemoryStore} {factory : FactoryId}
    {store : StoreId} (h : k.Finished options s taken)
    (hstore : w.stores[store.index]? = some (.memory s)) :
    w.ServesFrom ⟨k.info, .finalized factory store, false⟩ s.batches.toList
      (taken.map k.recovered) where
  not_cleared := rfl
  holds := h.holds
  shows := .finalized factory hstore (by rw [h.store_eq]; rfl) (by rw [h.store_eq]; rfl) rfl

theorem closeContainer_holds (h : w.ContainerHolds c rows) :
    ∃ c' w' table bs, closeContainer (c, w) = (.ok (), (c', w')) ∧ SameContainer c c' ∧
      tableOf c' = .ok table ∧ c'.container.size = rows.length ∧
      w'.tables[table.index]? = some ⟨c'.container.info, .finalized c.factory c.store, false⟩ ∧
      w'.ServesFrom ⟨c'.container.info, .finalized c.factory c.store, false⟩ bs rows := by
  obtain ⟨options, taken, htook, rfl⟩ := h
  obtain ⟨c', w', s, hclose, hsame, -, hfinished, htable, -, ht, hstore⟩ :=
    closeContainer_took htook
  refine ⟨c', w', ⟨w.tables.size⟩, s.batches.toList, hclose, hsame, htable, ?_, ht, ?_⟩
  · rw [List.length_map]
    exact hfinished.size_eq
  · rw [← hsame.follows.recovered_eq]
    exact servesFrom_finished hfinished hstore

/-! ## Tables -/

/-- Offer rows to a container, close it, and give its table. -/
def fill (rows : List Row) : Action (OpenContainer × Workspace) TableId := do
  let _ ← addEach rows
  closeContainer
  let (c, _) ← Action.get
  tableOf c

/-- Make a table of the rows that a new container takes. -/
def makeTable (e : Environment) (id : Int64) (spec : TableSpec) (hasKeys : Bool)
    (rows : List Row) : Action Workspace TableId := do
  let c ← createContainer e id spec hasKeys
  (fill rows).on (fun w => (c, w)) fun (_, w) _ => w

/-- **The table that is made** serves rows, from the store that the container has filled. -/
theorem makeTable_serves {e : Environment} {id : Int64} {spec : TableSpec} {hasKeys : Bool}
    {offered : List Row} (hreturns : ∀ r ∈ offered, r.Returns) {table : TableId} {w' : Workspace}
    (hrun : makeTable e id spec hasKeys offered w = (.ok table, w')) :
    ∃ info rows factory store,
      w'.tables[table.index]? = some ⟨info, .finalized factory store, false⟩ ∧
      w'.Serves table info rows ∧ info.mapping.tags.serializers = e.serializers := by
  cases hcreate : createContainer e id spec hasKeys w with
  | mk o w₀ =>
    cases o with
    | error f =>
      simp only [makeTable, Action.bind_apply, hcreate] at hrun
      cases hrun
    | ok c =>
      obtain ⟨hdefault, hsize, hspec⟩ := createContainer_eq_ok hcreate
      obtain ⟨c', w₀', hcreate', h₀, -, -, -, -, htags₀⟩ :=
        createContainer_holds w hdefault hsize id hspec hasKeys
      rw [hcreate] at hcreate'
      cases hcreate'
      obtain ⟨taken, rows, c₁, w₁, hadd, hsame₁, h₁, -⟩ := addEach_holds h₀ hreturns
      rw [List.nil_append] at h₁
      obtain ⟨c₂, w₂, table', bs, hclose, hsame₂, htable, -, ht, hserves⟩ :=
        closeContainer_holds h₁
      simp only [makeTable, Action.bind_apply, hcreate, Action.on_apply, fill, hadd, hclose,
        Action.get_apply, htable, Action.liftM_apply] at hrun
      cases hrun
      have hfollows := hsame₁.follows.trans hsame₂.follows
      exact ⟨c₂.container.info, rows, _, _, ht, ⟨_, bs, ht, rfl, hserves⟩,
        hfollows.tags_extends.serializers_eq.trans (congrArg ClassTags.serializers htags₀)⟩

/-! ## The round trip -/

/-- **The table of a container has the rows that were taken**, in order: each with its key if the
table stores keys, and with the cells it was offered with. -/
theorem container_round_trip (w : Workspace) {e : Environment} (hdefault : e.HasDefault)
    (hsize : 0 < e.options.chunkSize) (id : Int64) {spec : TableSpec}
    (hspec : spec.isSupported = true) (hasKeys : Bool) {rows : List Row}
    (hreturns : ∀ r ∈ rows, r.Returns) (hfits : ∀ r ∈ rows, r.Fits) :
    ∃ c w₀ taken c₁ w₁ c₂ w₂ table t it w₃,
      createContainer e id spec hasKeys w = (.ok c, w₀) ∧
      addEach rows (c, w₀) = (.ok taken, (c₁, w₁)) ∧
      closeContainer (c₁, w₁) = (.ok (), (c₂, w₂)) ∧
      tableOf c₂ = .ok table ∧ w₂.tables[table.index]? = some t ∧
      c₂.container.size = taken.length ∧ t.info.size = taken.length ∧
      iterate table .all w₂ = (.ok it, w₃) ∧
      ∀ limit, ∃ it' w₄, takeRows limit (it, w₃) =
        (.ok ((taken.map (·.stored hasKeys)).take limit, none), (it', w₄)) := by
  obtain ⟨c, w₀, hcreate, h₀, -, -, hspec₀, hkeys₀, -⟩ :=
    createContainer_holds w hdefault hsize id hspec hasKeys
  obtain ⟨taken, stored, c₁, w₁, hrun, hsame₁, h₁, hstored⟩ := addEach_holds h₀ hreturns
  rw [List.nil_append, hstored hfits] at h₁
  obtain ⟨c₂, w₂, table, bs, hclose, hsame₂, htable, hsize₂, ht, hserves⟩ :=
    closeContainer_holds h₁
  have hkeys : c₂.container.info.mapping.hasKeys = hasKeys := by
    rw [← hkeys₀]
    exact hsame₂.follows.hasKeys_eq.trans hsame₁.follows.hasKeys_eq
  have htableServes : w₂.Serves table c₂.container.info taken := ⟨_, bs, ht, rfl, hserves⟩
  obtain ⟨it, w₃, hiterate, htake⟩ := iterate_of_serves htableServes (f := .all) rfl
  refine ⟨c, w₀, taken, c₁, w₁, c₂, w₂, table, _, it, w₃, hcreate, hrun, hclose, htable, ht, hsize₂,
    hserves.holds.size_eq, hiterate, ?_⟩
  intro limit
  obtain ⟨it', w₄, hrows⟩ := htake limit
  refine ⟨it', w₄, hrows.trans ?_⟩
  have hmasked : taken.map (·.masked c₂.container.info.mapping.hasKeys ColumnFilter.all.selects) =
      taken.map (·.stored hasKeys) :=
    List.map_congr_left fun r _ => hkeys ▸ Row.masked_all _ r
  rw [hmasked]

/-- A column of integers and one of texts. -/
def sampleSpec : TableSpec := ⟨[⟨"count", .primitive .int⟩, ⟨"name", .primitive .string⟩]⟩

/-- Two rows to a batch. -/
def sampleEnvironment : Environment :=
  ⟨⟨2, 16, .positioned, .crc32⟩, .builtin, [("columnar_file", ⟨0⟩)], "columnar_file"⟩

/-- Rows of which the third is refused after its first cell was written, in a new batch, and the
fourth for lack of a key. -/
def sampleRows : List Row :=
  [.ofCells (some "a") [.int 1, .string "x"], .ofCells (some "b") [.long 7, .missing (some "lost")],
    .ofCells (some "c") [.boolean true, .unmaterialized], .ofCells none [.int 2, .string "y"],
    .ofCells (some "d") [.double Double.zero, .int 3]]

/-- The rows that are taken of these. -/
def sampleTaken : List Row :=
  [.ofCells (some "a") [.int 1, .string "x"], .ofCells (some "b") [.long 7, .missing (some "lost")],
    .ofCells (some "d") [.double Double.zero, .int 3]]

theorem sampleRows_return : ∀ r ∈ sampleRows, r.Returns := by
  intro r hr
  simp only [sampleRows, List.mem_cons, List.not_mem_nil, or_false] at hr
  rcases hr with rfl | rfl | rfl | rfl | rfl <;> exact Row.returns_ofCells _ _

theorem sampleRows_fit : ∀ r ∈ sampleRows, r.Fits := by
  intro r hr
  simp only [sampleRows, List.mem_cons, List.not_mem_nil, or_false] at hr
  rcases hr with rfl | rfl | rfl | rfl | rfl <;> apply Row.fits_ofCells <;>
    simp [Cell.Fits] <;> decide

theorem container_round_trip_sample :
    ∃ c w₀ c₁ w₁ c₂ w₂ table it w₃ it' w₄,
      createContainer sampleEnvironment 5 sampleSpec true .empty = (.ok c, w₀) ∧
      addEach sampleRows (c, w₀) = (.ok sampleTaken, (c₁, w₁)) ∧
      closeContainer (c₁, w₁) = (.ok (), (c₂, w₂)) ∧ tableOf c₂ = .ok table ∧
      c₂.container.size = 3 ∧ iterate table .all w₂ = (.ok it, w₃) ∧
      takeRows 9 (it, w₃) = (.ok (sampleTaken.map (·.stored true), none), (it', w₄)) := by
  obtain ⟨c, w₀, taken, c₁, w₁, c₂, w₂, table, -, it, w₃, hcreate, hrun, hclose, htable, -, hsize,
    -, hiterate, htake⟩ :=
    container_round_trip .empty (e := sampleEnvironment) ⟨⟨0⟩, rfl⟩ (by decide) 5
      (show sampleSpec.isSupported = true from rfl) true sampleRows_return
      sampleRows_fit
  have htaken : taken = sampleTaken := by
    have h : (match createContainer sampleEnvironment 5 sampleSpec true .empty with
        | (.ok c, w) => (addEach sampleRows (c, w)).1.toOption
        | _ => none) = some sampleTaken := by decide +kernel
    simp only [hcreate, hrun] at h
    exact Option.some.inj h
  subst htaken
  obtain ⟨it', w₄, hrows⟩ := htake 9
  exact ⟨c, w₀, c₁, w₁, c₂, w₂, table, it, w₃, it', w₄, hcreate, hrun, hclose, htable, hsize,
    hiterate, hrows⟩

end Workspace

end Columnar
