import Columnar.Cursor.Write
import Columnar.Store.Disk
import Columnar.Table.Container
import Columnar.Table.Record

/-!
# Tables, environments and workspaces

**Tables** have a store behind them, from which their iterators read, until they are cleared. The
store of a saved table is opened on first access (`LazyStore`): a failed attempt leaves it unopened,
so the next access tries again, and once cleared it stays closed. How a store is created, closed and
saved is up to the surroundings of the table, which may change while that goes on.

**Repositories** hold tables by their ids, at most one for each.

**Environments** say how tables are created and loaded: the store options, the cell serializers,
and the store factories by name, one of which is the default for new tables. Every factory keeps new
tables in memory stores and opens saved ones as chunk files. A factory may be told to refuse a
number of openings first.

**Workspaces.** Cursors, iterators and tables share stores: one may close or fill a store that
another reads. A workspace holds whatever is shared, each thing under a handle: stores, the class
tags of a schema, store factories and tables, next to the files they are saved to.

Cursors and iterators belong to one user and are kept outside, next to the handles of what they
work on.
-/

namespace Columnar

/-! ## Stores opened on first access -/

inductive LazyStore (ρ : Type)
  | unopened
  | opened (store : ρ)
  | cleared

namespace LazyStore

variable {ρ σ : Type}

def isOpen : LazyStore ρ → Bool
  | opened _ => true
  | _ => false

/-- The store, which is opened if need be. -/
def access (attempt : Action σ ρ) : Action (LazyStore ρ × σ) ρ := fun (l, s) =>
  match l with
  | opened store => (.ok store, (l, s))
  | cleared => (Outcome.fail (.closed .table), (l, s))
  | unopened =>
    match attempt s with
    | (.ok store, s) => (.ok store, (opened store, s))
    | (.error e, s) => (.error e, (unopened, s))

/-- The store to be closed when the table is cleared. -/
def toClose? : LazyStore ρ → Option ρ
  | opened store => some store
  | _ => none

end LazyStore

/-! ## Repositories -/

structure Repository (ρ : Type) where
  entries : List (Int64 × ρ)

namespace Repository

variable {ρ : Type}

def empty : Repository ρ := ⟨[]⟩

/-- The number of tables. -/
def size (r : Repository ρ) : Nat := r.entries.length

def find? (r : Repository ρ) (id : Int64) : Option ρ := r.entries.lookup id

/-- Without the table of an id. -/
def erase (r : Repository ρ) (id : Int64) : Repository ρ := ⟨r.entries.filter (·.1 ≠ id)⟩

/-- Register a table under an id, in the place of any other. -/
def insert (r : Repository ρ) (id : Int64) (table : ρ) : Repository ρ :=
  ⟨(id, table) :: (r.erase id).entries⟩

/-- Remove the table registered under an id, and say whether there was one. -/
def remove (r : Repository ρ) (id : Int64) : Bool × Repository ρ :=
  ((r.find? id).isSome, r.erase id)

end Repository

/-! ## Factories -/

structure StoreFactory where
  name : String
  /-- How many openings are still to be refused. -/
  refusals : Nat

namespace StoreFactory

/-- The factory that is always there. -/
def columnarFile : StoreFactory := ⟨"columnar_file", 0⟩

/-- Open a chunk file. -/
def openStore (path : String) (specs : List ChunkSpec) : Action (StoreFactory × Files) DiskStore :=
  fun (f, fs) =>
    if 0 < f.refusals then
      (Outcome.fail (.illegalState .openRefused), ({ f with refusals := f.refusals - 1 }, fs))
    else (DiskStore.openFile fs path specs, (f, fs))

end StoreFactory

/-- An error with the file being accessed, unless it names one already. -/
def Error.withPath (path : String) : Error → Error
  | atPath p e => atPath p e
  | e => atPath path e

/-- Refers to a store factory of a workspace. -/
structure FactoryId where
  index : Nat
deriving DecidableEq

structure Environment where
  options : StoreOptions
  serializers : SerializerRegistry
  /-- The latest registration of a name counts. -/
  factories : List (String × FactoryId)
  defaultFactory : String

/-- The factory of a name. -/
def Environment.factory (e : Environment) (name : String) : Outcome FactoryId :=
  Outcome.ofOption (.notFound .storeFactory name) (e.factories.lookup name)

/-! ## Tables -/

structure StoreId where
  index : Nat
deriving DecidableEq

structure TagsId where
  index : Nat
deriving DecidableEq

structure TableId where
  index : Nat
deriving DecidableEq

inductive Store
  | memory (s : MemoryStore)
  | disk (s : DiskStore)

namespace Store

def specs : Store → List ChunkSpec
  | memory s => s.specs
  | disk s => s.specs

def batchCount : Store → Nat
  | memory s => s.batches.size
  | disk s => s.index.size

def rowCount : Store → Nat → Nat
  | memory s => s.rowCount
  | disk s => s.rowCount

def close : Store → Store
  | memory s => memory s.close
  | disk s => disk s.close

end Store

/-- What it takes to open the store of a saved table. -/
structure OpenTask where
  factory : FactoryId
  specs : List ChunkSpec
  path : String

/-- Have the store of a saved table created. Errors name the file. -/
def OpenTask.run {σ : Type} (create : OpenTask → Action σ StoreId) (t : OpenTask) :
    Action σ StoreId :=
  Action.mapError (Error.withPath t.path) (create t)

/-- Where the rows of a table are. -/
inductive Backing
  /-- In the store that a container has filled. -/
  | finalized (factory : FactoryId) (store : StoreId)
  /-- In a chunk file that is opened on first access. -/
  | saved (task : OpenTask) (state : LazyStore StoreId)

structure Table where
  info : TableInfo
  backing : Backing
  cleared : Bool

namespace Table

/-- Whether the store of a table is open. That of a finalized table is until it is cleared. -/
def isOpen (t : Table) : Bool :=
  match t.backing with
  | .finalized _ _ => !t.cleared
  | .saved _ state => state.isOpen

def isSaved (t : Table) : Bool :=
  match t.backing with
  | .finalized _ _ => false
  | .saved _ _ => true

/-- The chunk file of a loaded table. -/
def dataFile? (t : Table) : Option String :=
  match t.backing with
  | .finalized _ _ => none
  | .saved task _ => some task.path

variable {σ : Type}

/-- The store of a table. If it is that of a saved table, it may have to be created. -/
def access (create : OpenTask → Action σ StoreId) : Action (Table × σ) StoreId := do
  let (t, _) ← Action.get
  match t.backing with
  | .finalized _ store => if t.cleared then Action.fail (.closed .table) else return store
  | .saved task state =>
    (LazyStore.access (task.run create)).on (fun (_, s) => (state, s)) fun (state, s) (t, _) =>
      ({ t with backing := .saved task state }, s)

/-- An iterator over the rows of a table, and the store it reads from. -/
def iterate (create : OpenTask → Action σ StoreId) (f : ColumnFilter) :
    Action (Table × σ) (RowIterator × Option StoreId) := do
  let (t, _) ← Action.get
  RowIterator.create t.info f (access create)

/-- Close the store of a table for good. Only the first call has an effect, and an error is
dropped. -/
def clear (close : StoreId → Action σ Unit) : Action (Table × σ) Unit := do
  let (t, _) ← Action.get
  if t.cleared then return ()
  else
    let (backing, toClose?) := match t.backing with
      | .finalized factory store => (.finalized factory store, some store)
      | .saved task state => (.saved task .cleared, state.toClose?)
    Action.modify fun (t, s) => ({ t with backing := backing, cleared := true }, s)
    match toClose? with
    | some store => (close store).quietly.on Prod.snd fun s (t, _) => (t, s)
    | none => return ()

/-- Save a table by writing out its store. A loaded table cannot be saved again. -/
def save (write : TableInfo → FactoryId → StoreId → Action σ Unit) (t : Table) : Action σ Unit :=
  match t with
  | ⟨_, .saved _ _, _⟩ => Action.fail (.illegalState .savedTwice)
  | ⟨_, .finalized _ _, true⟩ => Action.fail (.closed .table)
  | ⟨info, .finalized factory store, false⟩ => write info factory store

end Table

structure Workspace where
  files : Files
  stores : Array Store
  tags : Array ClassTags
  factories : Array StoreFactory
  tables : Array Table
  repository : Repository TableId

namespace Workspace

def empty : Workspace := ⟨Files.empty, #[], #[], #[], #[], Repository.empty⟩

/-- Run an action on the files. -/
def onFiles (m : Action Files α) : Action Workspace α :=
  m.on Workspace.files fun fs w => { w with files := fs }

/-! ## Stores -/

def addStore (s : Store) : Action Workspace StoreId := fun w =>
  (.ok ⟨w.stores.size⟩, { w with stores := w.stores.push s })

def store (id : StoreId) : Action Workspace Store := fun w =>
  (Outcome.ofIndex w.stores[id.index]?, w)

def setStore (w : Workspace) (id : StoreId) (s : Store) : Workspace :=
  { w with stores := w.stores.setIfInBounds id.index s }

/-- Run an action on a memory store. -/
def onMemory (id : StoreId) (m : Action MemoryStore α) : Action Workspace α := do
  match ← store id with
  | .memory s => m.on (fun _ => s) fun s w => w.setStore id (.memory s)
  | .disk _ => Outcome.abort .outOfRange

/-- Read a chunk of a store. -/
def readChunk (id : StoreId) (batch column : Nat) : Action Workspace Chunk := do
  match ← store id with
  | .memory s => s.readChunk batch column
  | .disk s =>
    (DiskStore.readChunk batch column).on (fun w => (s, w.files))
      fun (s, fs) w => { w.setStore id (.disk s) with files := fs }

/-- A store of the workspace as a reader. -/
def reader (id : StoreId) : ChunkReader Workspace where
  batchCount w := (w.stores[id.index]?.map Store.batchCount).getD 0
  rowCount w batch := (w.stores[id.index]?.map (Store.rowCount · batch)).getD 0
  readChunk := readChunk id

def closeStore (id : StoreId) : Action Workspace Unit := do
  let s ← store id
  Action.modify (·.setStore id s.close)

/-- Save the batches of a memory store as a chunk file. -/
def saveStore (id : StoreId) (path : String) : Action Workspace Unit := do
  match ← store id with
  | .memory s => onFiles (s.save path)
  | .disk _ => Outcome.abort .outOfRange

/-- Open a chunk file. -/
def openStore (path : String) (specs : List ChunkSpec) : Action Workspace StoreId := do
  addStore (.disk (← DiskStore.openFile (← Action.get).files path specs))

/-! ## Class tags and cursors -/

def addTags (t : ClassTags) : Action Workspace TagsId := fun w =>
  (.ok ⟨w.tags.size⟩, { w with tags := w.tags.push t })

def tagsOf (id : TagsId) : Action Workspace ClassTags := fun w =>
  (Outcome.ofIndex w.tags[id.index]?, w)

/-- Run an action of a write cursor on its store and class tags. -/
def onCursor (id : StoreId) (tags : TagsId) (m : Action (WriteState × ClassTags) α) :
    Action (WriteCursor × Workspace) α := do
  let (c, w) ← Action.get
  match w.stores[id.index]?, w.tags[tags.index]? with
  | some (.memory s), some t =>
    m.on (fun _ => (⟨c, s⟩, t)) fun (state, t) (_, w) =>
      (state.cursor, { w.setStore id (.memory state.store) with
        tags := w.tags.setIfInBounds tags.index t })
  | _, _ => Outcome.abort .outOfRange

/-! ## Environments -/

def addFactory (f : StoreFactory) : Action Workspace FactoryId := fun w =>
  (.ok ⟨w.factories.size⟩, { w with factories := w.factories.push f })

def factory (id : FactoryId) : Action Workspace StoreFactory := fun w =>
  (Outcome.ofIndex w.factories[id.index]?, w)

/-- An environment with the factory that is always there as its default. -/
def newEnvironment (options : StoreOptions) (serializers : SerializerRegistry) :
    Action Workspace Environment := do
  let id ← addFactory .columnarFile
  return ⟨options, serializers, [(StoreFactory.columnarFile.name, id)],
    StoreFactory.columnarFile.name⟩

/-- Register a factory under its name and make it the default. -/
def registerFactory (f : StoreFactory) (e : Environment) : Action Workspace Environment := do
  let id ← addFactory f
  return { e with factories := (f.name, id) :: e.factories, defaultFactory := f.name }

end Workspace

end Columnar
