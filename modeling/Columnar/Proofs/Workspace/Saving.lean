import Columnar.Proofs.Store.Saved
import Columnar.Proofs.Table.Record
import Columnar.Proofs.Workspace.Containers
import Columnar.Proofs.Workspace.Runs

/-!
# Tables that are saved and loaded

**Saving** (`saveTable_eq_ok`). Saving a table writes the batches of its store as a chunk file and
describes the table in a settings tree.

**Loading** (`loadTableOf_describe`). A file with the text of that tree gives a table with the facts
of the one that was saved, whose store is opened from the chunk file on first access.

Main result: `saved_table_reloads`, the loaded table serves the rows of the saved one.
-/

namespace Columnar

/-! ## What can be saved -/

/-- The counts of a store fit in the fields of a chunk file. -/
structure MemoryStore.CountsFit (s : MemoryStore) : Prop where
  columns : s.specs.length < wordLimit
  batches : s.batches.size < wordLimit
  rows : ∀ b ∈ s.batches.toList, b.rowCount < wordLimit

instance (s : MemoryStore) : Decidable s.CountsFit :=
  decidable_of_iff (s.specs.length < wordLimit ∧ s.batches.size < wordLimit ∧
    ∀ b ∈ s.batches.toList, b.rowCount < wordLimit)
    ⟨fun h => ⟨h.1, h.2.1, h.2.2⟩, fun h => ⟨h.columns, h.batches, h.rows⟩⟩

theorem Schema.specs_flat (schema : Schema) : ∀ spec ∈ schema.specs, spec.IsFlat := by
  intro spec hspec
  obtain ⟨column, -, rfl⟩ := List.mem_map.mp hspec
  cases column <;> trivial

theorem Schema.Shapes.wellFormed {schema : Schema} {b : Batch}
    (h : schema.Shapes b.rowCount b.chunks) : b.WellFormed schema.specs where
  specs_eq := h.specs_eq
  uniform _ hc := h.of_mem hc

theorem TableInfo.Holds.savable {t : TableInfo} {s : MemoryStore} {rows : List Row}
    (h : t.Holds s.batches.toList rows) (hspecs : s.specs = t.mapping.schema.specs)
    (hfit : s.CountsFit) : Savable t.mapping.schema.specs s.batches.toList where
  wellFormed b hb := by
    obtain ⟨groups, hstored, -⟩ := h.stored
    obtain ⟨i, hi⟩ := List.getElem?_of_mem hb
    have hlt : i < groups.length := hstored.length_eq ▸ (List.getElem?_eq_some_iff.mp hi).1
    exact (hstored.batch hi (List.getElem?_eq_getElem hlt)).shapes.wellFormed
  flat := Schema.specs_flat _
  columns_lt := hspecs ▸ hfit.columns
  batches_lt := s.batches.size_eq ▸ hfit.batches
  rows_lt := hfit.rows

namespace Workspace

variable {w w' : Workspace} {table : TableId} {info : TableInfo} {rows : List Row}

/-! ## Saving -/

theorem saveTable_eq_ok {path : String} {tree tree' : Settings}
    (h : saveTable table path (w, tree) = (.ok (), (w', tree'))) :
    ∃ info factory store f s fs,
      w.tables[table.index]? = some ⟨info, .finalized factory store, false⟩ ∧
      w.factories[factory.index]? = some f ∧ w.stores[store.index]? = some (.memory s) ∧
      info.size < longLimit ∧ tree' = Record.describe info f.name tree ∧
      s.save path w.files = (.ok (), fs) ∧ w' = { w with files := fs } := by
  rcases ht : w.tables[table.index]? with _ | ⟨info, ⟨factory, store⟩ | _, _ | _⟩ <;>
    simp only [saveTable, Action.bind_apply, Action.get_apply, ht, Table.save] at h
  case some.finalized.false =>
    rcases hfactory : w.factories[factory.index]? with _ | f <;>
      rcases hstore : w.stores[store.index]? with _ | s | _ <;>
      simp only [hfactory, hstore] at h
    case some.some.memory =>
      by_cases hsize : info.size < longLimit
      · rcases hsave : s.save path w.files with ⟨o, fs⟩
        simp only [Record.save, if_pos hsize, Action.bind_apply, Action.on_apply,
          Action.modify_apply, hsave] at h
        cases h
        exact ⟨info, factory, store, f, s, fs, rfl, hfactory, hstore, hsize, rfl, hsave, rfl⟩
      · simp only [Record.save, Action.on_apply, if_neg hsize] at h
        cases h
    all_goals cases h
  all_goals cases h

theorem saveTable_finalized {factory : FactoryId} {store : StoreId} {s : MemoryStore}
    (ht : w.tables[table.index]? = some ⟨info, .finalized factory store, false⟩)
    (hstore : w.stores[store.index]? = some (.memory s)) (path : String) (tree : Settings) :
    saveTable table path (w, tree) = match w.factories[factory.index]? with
      | none => (Outcome.abort .outOfRange, (w, tree))
      | some f =>
        if info.size < longLimit then
          ((s.save path w.files).1,
            ({ w with files := (s.save path w.files).2 }, Record.describe info f.name tree))
        else (Outcome.fail (.illegalState (.tableSize info.size)), (w, tree)) := by
  simp only [saveTable, Action.bind_apply, Action.get_apply, ht, Table.save, hstore]
  cases w.factories[factory.index]? with
  | none => rfl
  | some f =>
    by_cases hsize : info.size < longLimit
    · simp only [Record.save, if_pos hsize, Action.on_apply, Action.bind_apply, Action.modify_apply]
    · simp only [Record.save, if_neg hsize, Action.on_apply, Action.fail_apply]

/-- A table whose blocks can be encoded is saved under every name in the directory. -/
theorem saveTable_of_encode {factory : FactoryId} {store : StoreId} {f : StoreFactory}
    {s : MemoryStore} (ht : w.tables[table.index]? = some ⟨info, .finalized factory store, false⟩)
    (hfactory : w.factories[factory.index]? = some f)
    (hstore : w.stores[store.index]? = some (.memory s)) (hcount : info.size < longLimit)
    (hopen : s.closed = false) {path name : String} (hname : Files.nameOf? path = some name)
    (hslash : name.contains '/' = false) {data : Bytes}
    (hdata : ChunkFile.encode s.specs s.checksum s.batches.toList = .ok data) (tree : Settings) :
    ∃ w', saveTable table path (w, tree) = (.ok (), (w', Record.describe info f.name tree)) ∧
      w'.files.read? path = some data := by
  obtain ⟨fs, hsave⟩ := MemoryStore.save_of_encode hopen hname hslash hdata w.files
  obtain ⟨-, data', hdata', hread⟩ := MemoryStore.read?_of_save hsave
  obtain rfl : data = data' := Except.ok.inj (hdata.symm.trans hdata')
  refine ⟨{ w with files := fs }, ?_, hread⟩
  simp only [saveTable_finalized ht hstore, hfactory, if_pos hcount, hsave]

/-- The counts of the store of a table fit in the fields of a chunk file. -/
def CountsFit (w : Workspace) (table : TableId) : Prop :=
  ∀ {info : TableInfo} {factory : FactoryId} {store : StoreId} {cleared : Bool} {s : MemoryStore},
    w.tables[table.index]? = some ⟨info, .finalized factory store, cleared⟩ →
    w.stores[store.index]? = some (.memory s) → s.CountsFit

/-- **What was saved can be opened**, wherever the bytes of the chunk file are. -/
theorem openFile_of_save (h : w.Serves table info rows) (hfit : w.CountsFit table)
    {path : String} {tree tree' : Settings}
    (hsave : saveTable table path (w, tree) = (.ok (), (w', tree')))
    (hsize : ∀ data, w'.files.read? path = some data → data.length < longLimit) :
    ∃ factory store f bs, w.tables[table.index]? = some ⟨info, .finalized factory store, false⟩ ∧
      w.factories[factory.index]? = some f ∧ info.size < longLimit ∧
      tree' = Record.describe info f.name tree ∧ info.Holds bs rows ∧
      ∀ {fs : Files} {file : String}, fs.read? file = w'.files.read? path →
        ∃ d, DiskStore.openFile fs file info.mapping.schema.specs = .ok d ∧ d.Mirrors fs bs := by
  obtain ⟨info', factory, store, f, s, fs, ht, hfactory, hstore, hcount, htree, hs, rfl⟩ :=
    saveTable_eq_ok hsave
  obtain ⟨t, bs, ht', rfl, -, hholds, hshows⟩ := h
  rw [ht] at ht'
  cases ht'
  cases hshows with
  | @finalized _ _ s' hstore' hopen hspecs hbatches =>
    rw [hstore] at hstore'
    cases hstore'
    subst hbatches
    obtain ⟨-, data, hdata, hread⟩ := MemoryStore.read?_of_save hs
    have hsavable := hholds.savable hspecs (hfit ht hstore)
    rw [hspecs] at hdata
    refine ⟨factory, store, f, s.batches.toList, ht, hfactory, hcount, htree, hholds, ?_⟩
    intro fs' file hfile
    exact DiskStore.openFile_mirrors hsavable hdata (hfile.trans hread) (hsize data hread)

/-! ## Loading -/

/-- The table that is loaded from the record of a table. -/
def loaded (info : TableInfo) (factory : FactoryId) (file : String) (id? : Option Int64) : Table :=
  ⟨{ info with id := id?.getD info.id },
    .saved ⟨factory, info.mapping.schema.specs, file⟩ .unopened, false⟩

/-- **Loading the record of a table** adds a table with the same facts, whose store is not open. -/
theorem loadTableOf_describe {e : Environment} {record factoryName : String} (file : String)
    (id? : Option Int64) (htags : info.mapping.tags.Valid)
    (hmaps : info.spec.MapsTo info.mapping.primitives) (hsize : info.size < longLimit)
    (hload : Settings.load w.files record = .ok (Record.describe info factoryName .empty))
    (hserializers : e.serializers = info.mapping.tags.serializers) :
    loadTableOf e record file id? w = match e.factory factoryName with
      | .ok factory => (.ok ⟨w.tables.size⟩,
          { w with tables := w.tables.push (loaded info factory file id?) })
      | .error f => (.error f, w) := by
  have hcontext : ∀ id, Record.context (Record.describe info factoryName .empty) file id = _ :=
    Record.context_describe hmaps.supported .empty file
  have hrecord : ∀ id, Record.load ⟨id, info.spec, Record.derived info factoryName, file⟩
      e.serializers = _ := fun id => hserializers ▸ Record.load_describe htags hmaps hsize file id
  cases id? with
  | none =>
    simp only [loadTableOf, loadTable, Action.bind_apply, Action.get_apply, Action.liftM_apply,
      hload, Record.getLong_describe, hcontext, hrecord]
    cases e.factory factoryName <;> rfl
  | some id =>
    simp only [loadTableOf, loadTable, Action.bind_apply, Action.get_apply, Action.liftM_apply,
      hload, hcontext, Action.pure_apply, hrecord]
    cases e.factory factoryName <;> rfl

/-- The factory of a saved table does not refuse to open its store. -/
def FactoryGrants (w : Workspace) (table : TableId) : Prop :=
  ∀ {info : TableInfo} {task : OpenTask} {state : LazyStore StoreId} {cleared : Bool},
    w.tables[table.index]? = some ⟨info, .saved task state, cleared⟩ →
    ∃ f, w.factories[task.factory.index]? = some f ∧ f.refusals = 0

theorem serves_loaded {bs : List Batch} {factory : FactoryId} {file : String} {id? : Option Int64}
    (hholds : info.Holds bs rows)
    (ht : w.tables[table.index]? = some (loaded info factory file id?))
    (hgrants : ∃ f, w.factories[factory.index]? = some f ∧ f.refusals = 0)
    (hopen : ∃ d, DiskStore.openFile w.files file info.mapping.schema.specs = .ok d ∧
      d.Mirrors w.files bs) :
    w.Serves table { info with id := id?.getD info.id } rows := by
  refine ⟨_, bs, ht, rfl, rfl, ⟨hholds.1, hholds.2, hholds.3, hholds.4, hholds.5⟩, ?_⟩
  exact .unopened ⟨hgrants, hopen⟩

/-! ## Tables -/

/-- Tables that come from a container, whatever is read meanwhile, and those that are loaded from
the record and the unmodified chunk file of such a table. -/
inductive Made (serializers : SerializerRegistry) : Workspace → TableId → Prop
  | container {w w' : Workspace} {e : Environment} {id : Int64} {spec : TableSpec} {hasKeys : Bool}
    {rows : List Row} {table : TableId} (hserializers : e.serializers = serializers)
    (hreturns : ∀ r ∈ rows, r.Returns)
    (hrun : makeTable e id spec hasKeys rows w = (.ok table, w')) : Made serializers w' table
  | reads {w w' : Workspace} {table : TableId} (h : Made serializers w table)
    (hreads : Reads w w') : Made serializers w' table
  | reloaded {w w₁ w₂ w₃ w₄ : Workspace} {table table' : TableId} {path record file : String}
    {tree : Settings} {fs fs' : Files} {e : Environment} {id? : Option Int64}
    (h : Made serializers w table) (hfit : w.CountsFit table)
    (hsave : saveTable table path (w, .empty) = (.ok (), (w₁, tree)))
    (hsize : ∀ data, w₁.files.read? path = some data → data.length < longLimit)
    (hrecord : tree.save record fs = (.ok (), fs'))
    (hread : w₂.files.read? record = fs'.read? record) (hserializers : e.serializers = serializers)
    (hload : loadTableOf e record file id? w₂ = (.ok table', w₃))
    (htable : w₄.tables[table'.index]? = w₃.tables[table'.index]?)
    (hfile : w₄.files.read? file = w₁.files.read? path) (hgrants : w₄.FactoryGrants table') :
    Made serializers w₄ table'

/-- **Every table that is made serves rows.** -/
theorem Made.serves {serializers : SerializerRegistry} (h : Made serializers w table) :
    ∃ info rows, w.Serves table info rows ∧ info.mapping.tags.serializers = serializers := by
  induction h with
  | container hserializers hreturns hrun =>
    obtain ⟨info, rows, -, -, -, hserves, htags⟩ := makeTable_serves hreturns hrun
    exact ⟨info, rows, hserves, htags.trans hserializers⟩
  | reads h hreads ih =>
    obtain ⟨info, rows, hserves, htags⟩ := ih
    exact ⟨info, rows, hreads.serves hserves, htags⟩
  | @reloaded w w₁ w₂ w₃ w₄ table table' path record file tree fs fs' e id? h hfit hsave hsize
      hrecord hread hserializers hload htable hfile hgrants ih =>
    obtain ⟨info, rows, hserves, htags⟩ := ih
    obtain ⟨-, -, f, bs, -, -, hcount, rfl, hholds, hopen⟩ :=
      openFile_of_save hserves hfit hsave hsize
    have hreadable : (Record.describe info f.name .empty).Readable Settings.maxNesting :=
      Record.readable_describe info f.name (.empty (by decide)) (by decide)
    have hloaded := Settings.load_of_read? Settings.blank_indented hreadable
      (hread.trans (Settings.read?_of_save hrecord))
    rw [loadTableOf_describe file id? hholds.tags_valid hholds.maps hcount hloaded
      (hserializers.trans htags.symm)] at hload
    cases hfactory : e.factory f.name with
    | error e =>
      rw [hfactory] at hload
      cases hload
    | ok factory =>
      rw [hfactory] at hload
      cases hload
      rw [Array.getElem?_push_size] at htable
      exact ⟨_, rows, serves_loaded hholds htable (hgrants htable) (hopen hfile), htags⟩

/-- What a loaded table has in common with the one that was saved. -/
structure SameShape (t t' : TableInfo) : Prop where
  spec_eq : t'.spec = t.spec
  size_eq : t'.size = t.size
  hasKeys_eq : t'.mapping.hasKeys = t.mapping.hasKeys
  specs_eq : t'.mapping.schema.specs = t.mapping.schema.specs

/-- **A saved table is reloaded.** Its record can be written under every name in the directory.
Where the record that was written is read, in an environment with the serializers and a store
factory of the name, there is a table of the same shape that is not open yet. Where the chunk file
has the bytes that were saved and the factory does not refuse, the store of that table opens, and
every filter that fits gets the rows that it gets of the table that was saved, however much has been
read before. -/
theorem saved_table_reloads {serializers : SerializerRegistry} (hmade : Made serializers w table)
    (hfit : w.CountsFit table) {path : String} {tree : Settings}
    (hsave : saveTable table path (w, .empty) = (.ok (), (w', tree)))
    (hsize : ∀ data, w'.files.read? path = some data → data.length < longLimit) :
    ∃ info factory store f, w.tables[table.index]? = some ⟨info, .finalized factory store, false⟩ ∧
      w.factories[factory.index]? = some f ∧
      (∀ (record name : String) (fs : Files), Files.nameOf? record = some name →
        name.contains '/' = false → ∃ fs', tree.save record fs = (.ok (), fs')) ∧
      ∀ {record : String} {fs fs' : Files}, tree.save record fs = (.ok (), fs') →
        ∀ {w₁ : Workspace} {e : Environment} {factory' : FactoryId},
        w₁.files.read? record = fs'.read? record → e.serializers = serializers →
        e.factory f.name = .ok factory' → ∀ (file : String) (id? : Option Int64),
        ∃ table' w₂ t, loadTableOf e record file id? w₁ = (.ok table', w₂) ∧
          w₂ = { w₁ with tables := w₁.tables.push t } ∧ w₂.tables[table'.index]? = some t ∧
          t.isSaved = true ∧ t.isOpen = false ∧ SameShape info t.info ∧
          ∀ {w₃ : Workspace} {f' : StoreFactory}, w₃.tables[table'.index]? = some t →
            w₃.factories[factory'.index]? = some f' → f'.refusals = 0 →
            w₃.files.read? file = w'.files.read? path →
            (∃ store w₄, accessStore table' w₃ = (.ok store, w₄)) ∧
            ∀ c : ColumnFilter, c.validate info.spec.size = .ok () →
              ∃ rows, w.Iterates table c rows ∧
                ∀ {w₄ : Workspace}, Reads w₃ w₄ → w₄.Iterates table' c rows := by
  obtain ⟨info, rows, hserves, htags⟩ := hmade.serves
  obtain ⟨factory, store, f, bs, ht, hf, hcount, rfl, hholds, hopen⟩ :=
    openFile_of_save hserves hfit hsave hsize
  refine ⟨info, factory, store, f, ht, hf,
    fun record name fs hname hslash => Settings.save_of_name _ fs hname hslash, ?_⟩
  intro record fs fs' hrecord w₁ e factory' hread hserializers hfactory file id?
  have hreadable : (Record.describe info f.name .empty).Readable Settings.maxNesting :=
    Record.readable_describe info f.name (.empty (by decide)) (by decide)
  have hloaded := Settings.load_of_read? Settings.blank_indented hreadable
    (hread.trans (Settings.read?_of_save hrecord))
  have hload := loadTableOf_describe file id? hholds.tags_valid hholds.maps hcount hloaded
    (hserializers.trans htags.symm)
  rw [hfactory] at hload
  refine ⟨_, _, loaded info factory' file id?, hload, rfl, Array.getElem?_push_size, rfl, rfl,
    ⟨rfl, rfl, rfl, rfl⟩, fun {w₃ f'} ht' hfactory' hgrants hfile => ?_⟩
  have hserves' := serves_loaded hholds ht' ⟨f', hfactory', hgrants⟩ (hopen hfile)
  refine ⟨?_, fun c hc => ⟨_, iterate_of_serves hserves hc, fun hreads => ?_⟩⟩
  · obtain ⟨t, bs', ht'', -, hfrom⟩ := hserves'
    obtain ⟨store', w₄, haccess, -⟩ := accessStore_of_serves ht'' hfrom
    exact ⟨store', w₄, haccess⟩
  · have hiterates := iterate_of_serves (hreads.serves hserves') hc
    exact hiterates

/-- The environment that a table is made in, and the workspace before. -/
def sampleSaver : Environment :=
  ⟨⟨2, 16, .positioned, .none⟩, .builtin, [("columnar_file", ⟨0⟩)], "columnar_file"⟩

def sampleStart : Workspace := { Workspace.empty with factories := #[.columnarFile] }

/-- An environment with other options and another default factory. -/
def sampleLoader : Environment :=
  ⟨⟨7, 1, .seeking, .crc32⟩, .builtin, [("other", ⟨1⟩), ("columnar_file", ⟨0⟩)], "other"⟩

/-- The workspace with the table of the sample rows, of which three are taken. -/
def sampleMade : Workspace := (makeTable sampleSaver 5 sampleSpec true sampleRows sampleStart).2

theorem sampleMade_run :
    makeTable sampleSaver 5 sampleSpec true sampleRows sampleStart = (.ok ⟨0⟩, sampleMade) := by
  have hok : (makeTable sampleSaver 5 sampleSpec true sampleRows sampleStart).1 = .ok ⟨0⟩ := by
    decide +kernel
  rw [sampleMade, ← hok]

/-- What is known of that table but for its rows. A class has its tag even if its row was refused.
-/
def sampleInfo : TableInfo :=
  ⟨5, sampleSpec, ⟨true, [.int, .string], ⟨.builtin, ["long", "boolean", "double", "int"]⟩⟩, 3⟩

theorem sampleMade_table :
    sampleMade.tables[0]? = some ⟨sampleInfo, .finalized ⟨0⟩ ⟨0⟩, false⟩ := by cbv

/-- The length of the chunk file of a memory store that can be saved. -/
def chunkFileLength? (w : Workspace) (store : StoreId) : Option Nat :=
  match w.stores[store.index]? with
  | some (.memory s) =>
    if s.closed = false ∧ s.CountsFit then
      (ChunkFile.encode s.specs s.checksum s.batches.toList).toOption.map List.length
    else none
  | _ => none

theorem chunkFileLength?_eq_some {store : StoreId} {n : Nat}
    (h : chunkFileLength? w store = some n) :
    ∃ s data, w.stores[store.index]? = some (.memory s) ∧ s.closed = false ∧ s.CountsFit ∧
      ChunkFile.encode s.specs s.checksum s.batches.toList = .ok data ∧ data.length = n := by
  unfold chunkFileLength? at h
  split at h
  · rename_i s hs
    split at h
    · rename_i hsave
      cases hdata : ChunkFile.encode s.specs s.checksum s.batches.toList with
      | error e =>
        rw [hdata] at h
        cases h
      | ok data =>
        rw [hdata] at h
        exact ⟨s, data, hs, hsave.1, hsave.2, hdata, Option.some.inj h⟩
    · cases h
  · cases h

theorem saved_table_reloads_sample :
    ∃ w tree fs w₁ table' w₂ t rows, saveTable ⟨0⟩ "t" (sampleMade, .empty) = (.ok (), (w, tree)) ∧
      tree.save "r" .empty = (.ok (), fs) ∧ w₁ = { sampleStart with files := fs } ∧
      loadTableOf sampleLoader "r" "u" (some 6) w₁ = (.ok table', w₂) ∧
      w₂.tables[table'.index]? = some t ∧ t.isOpen = false ∧ SameShape sampleInfo t.info ∧
      sampleMade.Iterates ⟨0⟩ (.only [1]) rows ∧
      ∃ fs', fs'.read? "u" = w.files.read? "t" ∧
        Iterates { w₂ with files := fs' } table' (.only [1]) rows := by
  have hmade : Made .builtin sampleMade ⟨0⟩ := .container rfl sampleRows_return sampleMade_run
  obtain ⟨s, data, hs, hopen, hfits, hdata, hlength⟩ :=
    chunkFileLength?_eq_some (show chunkFileLength? sampleMade ⟨0⟩ = some 391 by decide +kernel)
  have hfactory : sampleMade.factories[0]? = some .columnarFile := by cbv
  obtain ⟨w, hsave, hread⟩ := saveTable_of_encode sampleMade_table hfactory hs (by decide) hopen
    (show Files.nameOf? "t" = some "t" by cbv) (by cbv) hdata .empty
  have hfit : sampleMade.CountsFit ⟨0⟩ := by
    intro info factory store cleared s' ht hs'
    rw [sampleMade_table] at ht
    cases ht
    rw [hs] at hs'
    cases hs'
    exact hfits
  obtain ⟨info, factory, store, f, ht, hf, hsaved, hreload⟩ := saved_table_reloads hmade hfit hsave
    fun data' h => by
      obtain rfl : data = data' := Option.some.inj (hread.symm.trans h)
      rw [hlength]
      decide
  rw [sampleMade_table] at ht
  cases ht
  rw [hfactory] at hf
  cases hf
  obtain ⟨fs, hrecord⟩ := hsaved "r" "r" .empty (by cbv) (by cbv)
  obtain ⟨table', w₂, t, hload, hw₂, ht, -, hclosed, hshape, hrows⟩ := hreload hrecord
    (show ({ sampleStart with files := fs } : Workspace).files.read? "r" = fs.read? "r" from rfl)
    (show sampleLoader.serializers = .builtin from rfl)
    (show sampleLoader.factory StoreFactory.columnarFile.name = .ok ⟨0⟩ by cbv) "u" (some 6)
  -- the chunk file under another name
  obtain ⟨fs', hwrite⟩ := Files.empty.write_of_name (show Files.nameOf? "u" = some "u" by cbv)
    (by cbv) data
  have hfile : fs'.read? "u" = w.files.read? "t" := (Files.read?_of_write hwrite).trans hread.symm
  obtain ⟨-, hiterates⟩ := hrows
    (show ({ w₂ with files := fs' } : Workspace).tables[table'.index]? = some t from ht)
    (show _ = some StoreFactory.columnarFile by rw [hw₂]; rfl) rfl hfile
  obtain ⟨rows, hsame, hafter⟩ := hiterates (.only [1]) (by decide)
  exact ⟨w, _, fs, _, table', w₂, t, rows, hsave, hrecord, rfl, hload, ht, hclosed, hshape, hsame,
    fs', hfile, hafter .refl⟩

end Workspace

end Columnar
