import Columnar.Proofs.Table.Replay
import Columnar.Proofs.Workspace.Saving

/-!
# Rows that are refused

Rows are offered to a container, and to the same container only those of them that were taken the
first time. All of these are taken again (`addEach_again`), and both tables have the same rows. What
a refused row leaves behind are class tags: a class that was new to the table keeps the tag it was
given before the row was refused.

**Saving** (`SavedAlike`). Both tables are saved with the same success. The settings trees tell them
apart by the list of classes and by nothing else, and the chunk files by the tags in front of the
serialized cells, which has no effect on their length.

Main result: `refused_rows_leave_classes`. Where no refused row has given a tag, the table that is
left is the same (`RefusesQuietly`).
-/

namespace Columnar

namespace Workspace

variable {w w' : Workspace} {options : StoreOptions} {c c' : OpenContainer}
  {taken rows : List Row}

/-! ## Two runs -/

/-- **Rows that could be taken are taken again** where fewer classes have a tag. -/
theorem addEach_again {u : ClassTags} (h : w.ContainerTook options c taken)
    (hreturns : ∀ r ∈ rows, r.Returns)
    (hrows : ∀ r ∈ rows, Container.Replayable options c.container.spec c.container.mapping u r)
    (hlimit : u.classes.length ≤ ClassTags.limit) (hwithin : c.container.mapping.tags.Within u) :
    ∃ c' w', addEach rows (c, w) = (.ok rows, (c', w')) ∧ SameContainer c c' ∧
      c'.container.mapping.tags.Within u ∧ w' = { w with stores := w'.stores } ∧
      w'.ContainerTook options c' (taken ++ rows) := by
  induction rows generalizing c w taken with
  | nil => exact ⟨c, w, rfl, .refl c, hwithin, rfl, (List.append_nil taken).symm ▸ h⟩
  | cons r rows ih =>
    obtain ⟨hreturns₀, hreturns⟩ := List.forall_mem_cons.mp hreturns
    obtain ⟨hr, hrows⟩ := List.forall_mem_cons.mp hrows
    obtain ⟨o, tags', ha⟩ := h.exists_adds hreturns₀
    obtain ⟨s, -, htook⟩ := h.stored
    obtain ⟨rfl, hwithin₁⟩ := ha.within htook rfl rfl hreturns₀ hr hlimit hwithin
    obtain ⟨c₁, w₁, hadd, hsame₁, hmapping₁, hstores₁, h₁⟩ := addRow_adds ha h
    have hfollows := hsame₁.follows
    obtain ⟨c₂, w₂, hrun, hsame₂, hwithin₂, hstores₂, h₂⟩ := ih h₁ hreturns
      (fun r hr => (hrows r hr).congr hfollows.spec_eq hfollows.hasKeys_eq hfollows.primitives_eq)
      (by rw [hmapping₁]; exact hwithin₁)
    refine ⟨c₂, w₂, ?_, hsame₁.trans hsame₂, hwithin₂, by rw [hstores₂, hstores₁], ?_⟩
    · rw [addEach_of_taken hadd, hrun]
      rfl
    · simpa using h₂

/-- No row that is refused gives a class its tag. -/
def RefusesQuietly : List Row → OpenContainer × Workspace → Prop
  | [], _ => True
  | r :: rs, s =>
    ((addRow r s).1.isOk = false →
      (addRow r s).2.1.container.mapping.tags = s.1.container.mapping.tags) ∧
    RefusesQuietly rs (addRow r s).2

/-- **In step.** Without the rows that are quietly refused, the tags are the same at every turn. -/
theorem addEach_quiet {taken' : List Row} (h : w.ContainerTook options c taken)
    (h' : w'.ContainerTook options c' taken') (hspec : c'.container.spec = c.container.spec)
    (hmapping : c'.container.mapping = c.container.mapping) (hreturns : ∀ r ∈ rows, r.Returns)
    (hquiet : RefusesQuietly rows (c, w)) {added : List Row} {c₁ c₁' : OpenContainer}
    {w₁ w₁' : Workspace} (hrun : addEach rows (c, w) = (.ok added, (c₁, w₁)))
    (hrun' : addEach added (c', w') = (.ok added, (c₁', w₁'))) :
    c₁'.container.mapping = c₁.container.mapping := by
  induction rows generalizing c w c' w' taken taken' added with
  | nil =>
    cases hrun
    cases hrun'
    exact hmapping
  | cons r rows ih =>
    obtain ⟨hreturns₀, hreturns⟩ := List.forall_mem_cons.mp hreturns
    obtain ⟨hquiet₀, hquiet⟩ := hquiet
    obtain ⟨o, tags', ha⟩ := h.exists_adds hreturns₀
    obtain ⟨c₂, w₂, hadd, hsame, hmapping₂, -, h₂⟩ := addRow_adds ha h
    rw [hadd] at hquiet₀ hquiet
    cases o with
    | error e =>
      -- the other container is not asked
      rw [addEach_of_refused hadd] at hrun
      have htags : tags' = c.container.mapping.tags :=
        (congrArg SchemaMapping.tags hmapping₂).symm.trans (hquiet₀ rfl)
      refine ih h₂ h' (hspec.trans hsame.follows.spec_eq.symm) ?_ hreturns hquiet hrun hrun'
      rw [hmapping, hmapping₂, htags]
    | ok u =>
      obtain ⟨c₂', w₂', hadd', hsame', hmapping₂', -, h₂'⟩ :=
        addRow_adds (by rw [hspec, hmapping]; exact ha) h'
      rw [addEach_of_taken hadd] at hrun
      rcases hrest : addEach rows (c₂, w₂) with ⟨e | rest, c₃, w₃⟩ <;> rw [hrest] at hrun
      · cases hrun
      cases hrun
      rw [addEach_of_taken hadd'] at hrun'
      rcases hrest' : addEach rest (c₂', w₂') with ⟨e | rest', c₃', w₃'⟩ <;> rw [hrest'] at hrun'
      · cases hrun'
      cases hrun'
      refine ih h₂ h₂' ?_ ?_ hreturns hquiet hrest hrest'
      · rw [hsame'.follows.spec_eq, hsame.follows.spec_eq, hspec]
      · rw [hmapping₂', hmapping₂, hmapping]

/-! ## Comparing tables -/

/-- Offer rows to a container and close it, and give the rows that were taken and their table. -/
def offerAll (rows : List Row) : Action (OpenContainer × Workspace) (List Row × TableId) := do
  let taken ← addEach rows
  closeContainer
  let (c, _) ← Action.get
  return (taken, ← tableOf c)

/-- Up to `limit` rows of a table, and the failure that ended the run before. -/
def readRows (table : TableId) (f : ColumnFilter) (limit : Nat) :
    Action Workspace (List Row × Option Failure) := do
  let it ← iterate table f
  (takeRows limit).on (fun w => (it, w)) fun (_, w) _ => w

/-- What saving a table leads to: its outcome, the files and the settings tree. -/
def savedBy (table : TableId) (path : String) (tree : Settings) (w : Workspace) :
    Outcome Unit × Files × Settings :=
  let (o, (w', tree')) := saveTable table path (w, tree)
  (o, w'.files, tree')

/-- The results of saving two tables are the same, but for what the descriptions `info` and `info'`
of the tables say, and for the tags in the chunk files. -/
inductive SavedAlike (info info' : TableInfo) (path : String) (tree : Settings) :
    Outcome Unit × Files × Settings → Outcome Unit × Files × Settings → Prop
  /-- Neither table is described. -/
  | refused (e : Failure) (fs : Files) :
    SavedAlike info info' path tree (.error e, fs, tree) (.error e, fs, tree)
  /-- Both are described, but the chunk files cannot be written. -/
  | failed (name : String) (e : Failure) (fs : Files) :
    SavedAlike info info' path tree (.error e, fs, Record.describe info name tree)
      (.error e, fs, Record.describe info' name tree)
  /-- Both are described, and the chunk files are written where the same files were before, up to a
  chunk that cannot be encoded. -/
  | cut (name : String) (e : Failure) {specs : List ChunkSpec} {type : ChecksumType}
    {bs bs' : List Batch} {cause : Failure} {fs fs₁ fs₂ : Files}
    (hbatches : List.Forall₂ (Batch.Retagged info.mapping.tags info'.mapping.tags) bs bs')
    (hcause : ChunkFile.encode specs type bs = .error cause)
    (hcause' : ChunkFile.encode specs type bs' = .error cause)
    (hlength : (ChunkFile.written specs type bs).SameLength (ChunkFile.written specs type bs'))
    (hwrite : fs.write path (ChunkFile.written specs type bs) = .ok fs₁)
    (hwrite' : fs.write path (ChunkFile.written specs type bs') = .ok fs₂) :
    SavedAlike info info' path tree (.error e, fs₁, Record.describe info name tree)
      (.error e, fs₂, Record.describe info' name tree)
  /-- Both are described, and the chunk files are written where the same files were before. -/
  | written (name : String) {specs : List ChunkSpec} {type : ChecksumType} {bs bs' : List Batch}
    {data data' : Bytes} {fs fs₁ fs₂ : Files}
    (hbatches : List.Forall₂ (Batch.Retagged info.mapping.tags info'.mapping.tags) bs bs')
    (hdata : ChunkFile.encode specs type bs = .ok data)
    (hdata' : ChunkFile.encode specs type bs' = .ok data') (hlength : data.SameLength data')
    (hwrite : fs.write path data = .ok fs₁) (hwrite' : fs.write path data' = .ok fs₂) :
    SavedAlike info info' path tree (.ok (), fs₁, Record.describe info name tree)
      (.ok (), fs₂, Record.describe info' name tree)

/-- Two tables under one handle have the same rows, and differ in the classes with tags at most. The
second one has tags for no other classes than the first. -/
structure SameButClasses (table : TableId) (w w' : Workspace) (t t' : Table) : Prop where
  found : w.tables[table.index]? = some t
  found' : w'.tables[table.index]? = some t'
  table_eq : t' = { t with info.mapping.tags := t'.info.mapping.tags }
  within : t'.info.mapping.tags.Within t.info.mapping.tags
  rows : ∀ (f : ColumnFilter) (limit : Nat),
    (readRows table f limit w').1 = (readRows table f limit w).1
  saved : ∀ (path : String) (tree : Settings),
    SavedAlike t.info t'.info path tree (savedBy table path tree w) (savedBy table path tree w')
  same : t' = t → ∀ (path : String) (tree : Settings),
    savedBy table path tree w' = savedBy table path tree w

section

variable {table : TableId} {info : TableInfo}

theorem readRows_of_serves (h : w.Serves table info rows) (f : ColumnFilter) (limit : Nat) :
    (readRows table f limit w).1 = (f.validate info.spec.size).map fun _ =>
      ((rows.map (·.masked info.mapping.hasKeys f.selects)).take limit, none) := by
  cases hf : f.validate info.spec.size with
  | error e =>
    obtain ⟨t, bs, ht, rfl, -⟩ := h
    simp only [readRows, Action.bind_apply, iterate_refused ht hf]
    rfl
  | ok u =>
    obtain ⟨it, w', hiterate, htake⟩ := iterate_of_serves h hf
    obtain ⟨it', w'', hrows⟩ := htake limit
    simp only [readRows, Action.bind_apply, hiterate, Action.on_apply, hrows]
    rfl

theorem savedBy_finalized {factory : FactoryId} {store : StoreId} {s : MemoryStore}
    (ht : w.tables[table.index]? = some ⟨info, .finalized factory store, false⟩)
    (hstore : w.stores[store.index]? = some (.memory s)) (path : String) (tree : Settings) :
    savedBy table path tree w = match w.factories[factory.index]? with
      | none => (Outcome.abort .outOfRange, w.files, tree)
      | some f =>
        if info.size < longLimit then
          ((s.save path w.files).1, (s.save path w.files).2, Record.describe info f.name tree)
        else (Outcome.fail (.illegalState (.tableSize info.size)), w.files, tree) := by
  rw [savedBy, saveTable_finalized ht hstore]
  cases w.factories[factory.index]? with
  | none => rfl
  | some f => by_cases hsize : info.size < longLimit <;> simp only [hsize, if_true, if_false]

/-- **Saving two tables whose batches differ in tags.** -/
theorem savedAlike_of_retagged {info' : TableInfo} {factory : FactoryId} {store : StoreId}
    {s s' : MemoryStore}
    (ht : w.tables[table.index]? = some ⟨info, .finalized factory store, false⟩)
    (ht' : w'.tables[table.index]? = some ⟨info', .finalized factory store, false⟩)
    (hs : w.stores[store.index]? = some (.memory s))
    (hs' : w'.stores[store.index]? = some (.memory s')) (hfiles : w'.files = w.files)
    (hfactories : w'.factories = w.factories) (hcount : info'.size = info.size)
    (hspecs : s'.specs = s.specs) (hchecksum : s'.checksum = s.checksum)
    (hopen : s.closed = false) (hopen' : s'.closed = false)
    (hbatches : List.Forall₂ (Batch.Retagged info.mapping.tags info'.mapping.tags)
      s.batches.toList s'.batches.toList) (path : String) (tree : Settings) :
    SavedAlike info info' path tree (savedBy table path tree w) (savedBy table path tree w') := by
  rw [savedBy_finalized ht hs, savedBy_finalized ht' hs', hfactories, hfiles, hcount]
  cases w.factories[factory.index]? with
  | none => exact .refused _ _
  | some f =>
    by_cases hlimit : info.size < longLimit
    · simp only [if_pos hlimit]
      have hlength := ChunkFile.written_retagged s.specs s.checksum hbatches
      -- either no file is written, or a part of it, or all of it
      obtain ⟨e, h, h'⟩ | ⟨fs₁, fs₂, hwrite, hwrite', ⟨e, cause, h, h', hcause, hcause'⟩ |
          ⟨data, data', h, h', hdata, hdata'⟩⟩ :=
        MemoryStore.save_retagged hspecs hchecksum hopen hopen' hbatches path w.files
      · rw [h, h']
        exact .failed f.name e _
      · rw [h, h']
        exact .cut f.name e hbatches hcause hcause' hlength hwrite hwrite'
      · rw [ChunkFile.written, hdata] at hwrite hlength
        rw [ChunkFile.written, hdata'] at hwrite' hlength
        rw [h, h']
        exact .written f.name hbatches hdata hdata' hlength hwrite hwrite'
    · simp only [if_neg hlimit]
      exact .refused _ _

end

/-- **The tables of two containers with the same rows**, which were one container at first. -/
theorem sameButClasses_of_finished {table : TableId} {factory : FactoryId} {store : StoreId}
    {k₀ k k' : Container} {s s' : MemoryStore} (hk : k₀.Follows k) (hk' : k₀.Follows k')
    (hwithin : k'.mapping.tags.Within k.mapping.tags) (hfinished : k.Finished options s rows)
    (hfinished' : k'.Finished options s' rows)
    (ht : w.tables[table.index]? = some ⟨k.info, .finalized factory store, false⟩)
    (ht' : w'.tables[table.index]? = some ⟨k'.info, .finalized factory store, false⟩)
    (hs : w.stores[store.index]? = some (.memory s))
    (hs' : w'.stores[store.index]? = some (.memory s')) (hfiles : w'.files = w.files)
    (hfactories : w'.factories = w.factories) :
    SameButClasses table w w' ⟨k.info, .finalized factory store, false⟩
      ⟨k'.info, .finalized factory store, false⟩ := by
  have hspec : k'.spec = k.spec := hk'.spec_eq.trans hk.spec_eq.symm
  have hkeys := hk'.hasKeys_eq.trans hk.hasKeys_eq.symm
  have hprimitives := hk'.primitives_eq.trans hk.primitives_eq.symm
  have hschema : k'.mapping.schema = k.mapping.schema :=
    SchemaMapping.schema_congr hkeys hprimitives
  have hsize : k'.size = k.size := hfinished'.size_eq.trans hfinished.size_eq.symm
  have hmapping : k'.mapping = ⟨k.mapping.hasKeys, k.mapping.primitives, k'.mapping.tags⟩ := by
    rw [← hkeys, ← hprimitives]
  have hinfo : k'.info =
      ⟨k.id, k.spec, ⟨k.mapping.hasKeys, k.mapping.primitives, k'.mapping.tags⟩, k.size⟩ := by
    rw [← hmapping, Container.info, hk'.id_eq, ← hk.id_eq, hspec, hsize]
  have hspecs : s'.specs = s.specs := by
    rw [hfinished.store_eq, hfinished'.store_eq]
    exact congrArg Schema.specs hschema
  have hchecksum : s'.checksum = s.checksum := by
    rw [hfinished.store_eq, hfinished'.store_eq]
    rfl
  have hopen : s.closed = false := by rw [hfinished.store_eq]; rfl
  have hopen' : s'.closed = false := by rw [hfinished'.store_eq]; rfl
  refine ⟨ht, ht', ?_, hwithin, fun f limit => ?_, fun path tree => ?_, fun hsame path tree => ?_⟩
  · exact congrArg (Table.mk · _ _) hinfo
  · have hserves : w.Serves table k.info (rows.map k.recovered) :=
      ⟨_, _, ht, rfl, servesFrom_finished hfinished hs⟩
    have hserves' : w'.Serves table k'.info (rows.map k'.recovered) :=
      ⟨_, _, ht', rfl, servesFrom_finished hfinished' hs'⟩
    rw [readRows_of_serves hserves, readRows_of_serves hserves', hk.recovered_eq, hk'.recovered_eq,
      hinfo]
    rfl
  · have hbatches := hfinished.retagged hfinished' hschema hkeys hwithin.serializers_eq
    exact savedAlike_of_retagged ht ht' hs hs' hfiles hfactories hsize hspecs hchecksum hopen hopen'
      hbatches path tree
  · have heq : k'.info = k.info := congrArg Table.info hsame
    have hbatches := hfinished.toList_eq hfinished' (congrArg TableInfo.mapping heq)
    rw [savedBy_finalized ht hs, savedBy_finalized ht' hs', hfactories, hfiles, heq,
      MemoryStore.save_congr hspecs hchecksum (hopen'.trans hopen.symm) hbatches path]

/-- Offering rows to a container and closing it. -/
theorem offerAll_took {added : List Row} {c₁ : OpenContainer} {w₁ : Workspace}
    (hrun : addEach rows (c, w) = (.ok added, (c₁, w₁))) (h : w₁.ContainerTook options c₁ taken) :
    ∃ c₂ w₂ s, offerAll rows (c, w) = (.ok (added, ⟨w₁.tables.size⟩), (c₂, w₂)) ∧
      SameContainer c₁ c₂ ∧ c₂.container.mapping = c₁.container.mapping ∧
      c₂.container.Finished options s taken ∧
      w₂ = { w₁ with stores := w₂.stores, tables := w₂.tables } ∧
      w₂.tables[w₁.tables.size]? =
        some ⟨c₂.container.info, .finalized c₁.factory c₁.store, false⟩ ∧
      w₂.stores[c₁.store.index]? = some (.memory s) := by
  obtain ⟨c₂, w₂, s, hclose, hsame, hmapping, hfinished, htable, hrest⟩ := closeContainer_took h
  refine ⟨c₂, w₂, s, ?_, hsame, hmapping, hfinished, hrest⟩
  simp only [offerAll, Action.bind_apply, hrun, hclose, Action.get_apply, htable,
    Action.liftM_apply, Action.pure_apply]

/-- **Refused rows leave nothing but classes.** Rows are offered to a new container, which is then
closed, and with them only those that were taken, to the same container. All of these are taken
again. Both tables have the same rows and are saved with the same success, and they differ in the
classes with tags at most. Where no refused row has given a tag both tables are the same, and so is
all that is saved of them. -/
theorem refused_rows_leave_classes {w₀ : Workspace} {e : Environment} {id : Int64}
    {spec : TableSpec} {hasKeys : Bool}
    (hcreate : createContainer e id spec hasKeys w = (.ok c, w₀)) {offered : List Row}
    (hreturns : ∀ r ∈ offered, r.Returns) :
    ∃ taken table c₁ w₁ t₁ c₂ w₂ t₂,
      offerAll offered (c, w₀) = (.ok (taken, table), (c₁, w₁)) ∧
      offerAll taken (c, w₀) = (.ok (taken, table), (c₂, w₂)) ∧
      SameButClasses table w₁ w₂ t₁ t₂ ∧ (RefusesQuietly offered (c, w₀) → t₂ = t₁) := by
  obtain ⟨hdefault, hsize, hspec⟩ := createContainer_eq_ok hcreate
  obtain ⟨c', w₀', hcreate', h₀, -⟩ := createContainer_took w hdefault hsize id hspec hasKeys
  rw [hcreate] at hcreate'
  cases hcreate'
  -- the first run, and what it says about the rows that were taken
  obtain ⟨taken, c₁, w₁, hrun₁, hsub, hsame₁, hw₁, h₁⟩ := addEach_took h₀ hreturns
  rw [List.nil_append] at h₁
  have hfollows₁ := hsame₁.follows
  obtain ⟨s, -, htook⟩ := h₁.stored
  have hreplayable : ∀ r ∈ taken, Container.Replayable e.options c.container.spec
      c.container.mapping c₁.container.mapping.tags r := fun r hr =>
    (htook.replayable hr).congr hfollows₁.spec_eq.symm hfollows₁.hasKeys_eq.symm
      hfollows₁.primitives_eq.symm
  -- the second run
  obtain ⟨c₂, w₂, hrun₂, hsame₂, hwithin, hw₂, h₂⟩ := addEach_again h₀
    (fun r hr => hreturns r (hsub hr)) hreplayable htook.tags_unique.length_le
    hfollows₁.tags_extends.within
  rw [List.nil_append] at h₂
  obtain ⟨k₁, v₁, s₁, hoffer₁, hclosed₁, hmapping₁, hfinished₁, hv₁, ht₁, hs₁⟩ :=
    offerAll_took hrun₁ h₁
  obtain ⟨k₂, v₂, s₂, hoffer₂, hclosed₂, hmapping₂, hfinished₂, hv₂, ht₂, hs₂⟩ :=
    offerAll_took hrun₂ h₂
  have htables : w₂.tables.size = w₁.tables.size := by rw [hw₁, hw₂]
  rw [htables] at hoffer₂ ht₂
  rw [hsame₂.factory_eq, hsame₂.store_eq] at ht₂
  rw [hsame₁.factory_eq, hsame₁.store_eq] at ht₁
  rw [hsame₁.store_eq] at hs₁
  rw [hsame₂.store_eq] at hs₂
  have halike := sameButClasses_of_finished (hfollows₁.trans hclosed₁.follows)
    (hsame₂.follows.trans hclosed₂.follows) (by rw [hmapping₁, hmapping₂]; exact hwithin)
    hfinished₁ hfinished₂ ht₁ ht₂ hs₁ hs₂ (by rw [hv₁, hv₂, hw₁, hw₂])
    (by rw [hv₁, hv₂, hw₁, hw₂])
  refine ⟨taken, _, k₁, v₁, _, k₂, v₂, _, hoffer₁, hoffer₂, halike, fun hquiet => ?_⟩
  -- in step, both runs end with the same tags
  have hmapping : k₂.container.mapping = k₁.container.mapping := by
    rw [hmapping₁, hmapping₂]
    exact addEach_quiet h₀ h₀ rfl rfl hreturns hquiet hrun₁ hrun₂
  have htags : k₂.container.info.mapping.tags = k₁.container.info.mapping.tags :=
    congrArg SchemaMapping.tags hmapping
  exact halike.table_eq.trans (by rw [htags])

/-- Rows of which one is refused after its first cell was written. Its class is not new. -/
def quietRows : List Row :=
  [.ofCells (some "a") [.long 1, .string "x"], .ofCells (some "b") [.long 2, .unmaterialized],
    .ofCells (some "c") [.int 3, .missing none]]

def quietTaken : List Row :=
  [.ofCells (some "a") [.long 1, .string "x"], .ofCells (some "c") [.int 3, .missing none]]

theorem quietRows_return : ∀ r ∈ quietRows, r.Returns := by
  intro r hr
  simp only [quietRows, List.mem_cons, List.not_mem_nil, or_false] at hr
  rcases hr with rfl | rfl | rfl <;> exact Row.returns_ofCells _ _

instance decidableRefusesQuietly : (rows : List Row) → (s : OpenContainer × Workspace) →
    Decidable (RefusesQuietly rows s)
  | [], _ => isTrue trivial
  | r :: rs, s =>
    have := decidableRefusesQuietly rs (addRow r s).2
    inferInstanceAs (Decidable (_ ∧ _))

/-- The classes that the record of a table lists. -/
def recordedClasses (tree : Settings) : Outcome (List String) := do
  (← (← tree.getTree Record.derivedKey).getTree Record.schemaKey).getStrings
    SchemaMapping.classesKey

/-- The rows that a new container of the sample table takes, their table, and the classes that are
listed when it is saved. -/
def sampleRun (rows : List Row) : Option (List Row × TableId × Outcome (List String)) :=
  match createContainer sampleSaver 5 sampleSpec true sampleStart with
  | (.ok c, w) =>
    match offerAll rows (c, w) with
    | (.ok (taken, table), (_, w)) =>
      some (taken, table, recordedClasses (savedBy table "t" .empty w).2.2)
    | _ => none
  | _ => none

theorem sampleRun_eq_some {taken : List Row} {table : TableId} {classes : Outcome (List String)}
    {w₀ : Workspace}
    (hcreate : createContainer sampleSaver 5 sampleSpec true sampleStart = (.ok c, w₀))
    (h : sampleRun rows = some (taken, table, classes)) :
    ∃ c₁ w₁, offerAll rows (c, w₀) = (.ok (taken, table), (c₁, w₁)) ∧
      recordedClasses (savedBy table "t" .empty w₁).2.2 = classes := by
  simp only [sampleRun, hcreate] at h
  split at h
  · rename_i hrun
    cases h
    exact ⟨_, _, hrun, rfl⟩
  · cases h

theorem refused_rows_leave_classes_sample :
    ∃ c w₀ table c₁ w₁ c₂ w₂,
      createContainer sampleSaver 5 sampleSpec true sampleStart = (.ok c, w₀) ∧
      offerAll quietRows (c, w₀) = (.ok (quietTaken, table), (c₁, w₁)) ∧
      offerAll quietTaken (c, w₀) = (.ok (quietTaken, table), (c₂, w₂)) ∧
      savedBy table "t" .empty w₂ = savedBy table "t" .empty w₁ := by
  obtain ⟨c, w₀, hcreate, -⟩ := createContainer_took sampleStart (e := sampleSaver) ⟨⟨0⟩, rfl⟩
    (by decide) 5 (show sampleSpec.isSupported = true from rfl) true
  obtain ⟨taken, table, c₁, w₁, t₁, c₂, w₂, t₂, hrun₁, hrun₂, halike, hsame⟩ :=
    refused_rows_leave_classes hcreate quietRows_return
  have hquiet : RefusesQuietly quietRows (c, w₀) := by
    have h : (match createContainer sampleSaver 5 sampleSpec true sampleStart with
        | (.ok c, w) => decide (RefusesQuietly quietRows (c, w))
        | _ => false) = true := by decide +kernel
    simp only [hcreate] at h
    exact of_decide_eq_true h
  obtain ⟨_, _, hrun, -⟩ := sampleRun_eq_some hcreate
    (show sampleRun quietRows = some (quietTaken, ⟨0⟩, .ok ["long"]) by decide +kernel)
  obtain rfl : taken = quietTaken := by
    rw [hrun₁] at hrun
    cases hrun
    rfl
  exact ⟨c, w₀, table, c₁, w₁, c₂, w₂, hcreate, hrun₁, hrun₂, halike.same (hsame hquiet) "t" .empty⟩

/-- A row that is refused after its first cell has given a class its tag. -/
def loudRow : Row := .ofCells (some "a") [.long 1, .unmaterialized]

def plainRow : Row := .ofCells (some "b") [.int 2, .string "y"]

/-- **The class of a refused row stays**, and is listed in the record of the table. -/
theorem refused_row_leaves_its_class :
    ∃ c w₀ c₁ w₁ c₂ w₂,
      createContainer sampleSaver 5 sampleSpec true sampleStart = (.ok c, w₀) ∧
      offerAll [loudRow, plainRow] (c, w₀) = (.ok ([plainRow], ⟨0⟩), (c₁, w₁)) ∧
      offerAll [plainRow] (c, w₀) = (.ok ([plainRow], ⟨0⟩), (c₂, w₂)) ∧
      recordedClasses (savedBy ⟨0⟩ "t" .empty w₁).2.2 = .ok ["long"] ∧
      recordedClasses (savedBy ⟨0⟩ "t" .empty w₂).2.2 = .ok [] := by
  obtain ⟨c, w₀, hcreate, -⟩ := createContainer_took sampleStart (e := sampleSaver) ⟨⟨0⟩, rfl⟩
    (by decide) 5 (show sampleSpec.isSupported = true from rfl) true
  obtain ⟨c₁, w₁, hrun₁, hclasses₁⟩ := sampleRun_eq_some hcreate
    (show sampleRun [loudRow, plainRow] = some ([plainRow], ⟨0⟩, .ok ["long"]) by decide +kernel)
  obtain ⟨c₂, w₂, hrun₂, hclasses₂⟩ := sampleRun_eq_some hcreate
    (show sampleRun [plainRow] = some ([plainRow], ⟨0⟩, .ok []) by decide +kernel)
  exact ⟨c, w₀, c₁, w₁, c₂, w₂, hcreate, hrun₁, hrun₂, hclasses₁, hclasses₂⟩

end Workspace

end Columnar
