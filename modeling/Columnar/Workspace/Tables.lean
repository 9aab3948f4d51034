import Columnar.Settings.Text
import Columnar.Workspace.Basic

/-!
# Containers and tables of a workspace

A container fills a store of the workspace. Once it is closed its table is there, which shares the
store. A table that was saved is loaded from its record and opens its store on first access.

Clearing a table closes its store for everyone.
-/

namespace Columnar

/-- A container, where its rows go, and its table once it is closed. -/
structure OpenContainer where
  container : Container
  factory : FactoryId
  store : StoreId
  table? : Option TableId

/-- An iterator and the store it reads from, if it reads from one. -/
structure OpenIterator where
  rows : RowIterator
  store? : Option StoreId

namespace Workspace

/-! ## Containers -/

/-- A container for a new table. -/
def createContainer (e : Environment) (id : Int64) (spec : TableSpec) (hasKeys : Bool) :
    Action Workspace OpenContainer := do
  let mapping ← SchemaMapping.create spec hasKeys e.serializers
  let factory ← e.factory e.defaultFactory
  let (c, s) ← Container.create id spec mapping e.options
  return ⟨c, factory, ← addStore (.memory s), none⟩

/-- Run an action of a container on its store. -/
def onContainer (m : Action (Container × MemoryStore) α) :
    Action (OpenContainer × Workspace) α := do
  let (c, w) ← Action.get
  match w.stores[c.store.index]? with
  | some (.memory s) =>
    m.on (fun (c, _) => (c.container, s)) fun (k, s) (c, w) =>
      ({ c with container := k }, w.setStore c.store (.memory s))
  | _ => Outcome.abort .outOfRange

/-- Add a row to a container. -/
def addRow (row : Row) : Action (OpenContainer × Workspace) Unit := onContainer (Container.add row)

def addTable (t : Table) : Action Workspace TableId := fun w =>
  (.ok ⟨w.tables.size⟩, { w with tables := w.tables.push t })

/-- Close a container, after which its table is there. -/
def closeContainer : Action (OpenContainer × Workspace) Unit := do
  let (c, _) ← Action.get
  if c.container.cursor?.isNone then return ()
  else
    onContainer Container.close
    let (c, _) ← Action.get
    let table ← (addTable ⟨c.container.info, .finalized c.factory c.store, false⟩).on Prod.snd
      fun w (c, _) => (c, w)
    Action.modify fun (c, w) => ({ c with table? := some table }, w)

/-- The table of a container, which must be closed. -/
def tableOf (c : OpenContainer) : Outcome TableId :=
  Outcome.ofOption (.illegalState .containerOpen) c.table?

/-! ## Tables -/

def table (id : TableId) : Action Workspace Table := fun w =>
  (Outcome.ofIndex w.tables[id.index]?, w)

def setTable (w : Workspace) (id : TableId) (t : Table) : Workspace :=
  { w with tables := w.tables.setIfInBounds id.index t }

/-- Have the factory of a saved table open its store. -/
def createStore (t : OpenTask) : Action Workspace StoreId := do
  let f ← factory t.factory
  let store ← (StoreFactory.openStore t.path t.specs).on (fun w => (f, w.files)) fun (f, fs) w =>
    { w with files := fs, factories := w.factories.setIfInBounds t.factory.index f }
  addStore (.disk store)

/-- Run an action on a table and its workspace. -/
def onTable (id : TableId) (m : Action (Table × Workspace) α) : Action Workspace α := do
  let t ← table id
  m.on (fun w => (t, w)) fun (t, w) _ => w.setTable id t

/-- The store of a table, opened if need be. -/
def accessStore (id : TableId) : Action Workspace StoreId := onTable id (Table.access createStore)

/-- Close the store of a table for good. Only the first call has an effect. -/
def clearTable (id : TableId) : Action Workspace Unit := onTable id (Table.clear closeStore)

/-- Give up the rows of a container, or those of its table. -/
def clearContainer : Action (OpenContainer × Workspace) Unit := do
  let (c, _) ← Action.get
  match c.table? with
  | some table => (clearTable table).on Prod.snd fun w (c, _) => (c, w)
  | none => onContainer Container.clear

/-! ## Rows -/

/-- An iterator over the rows of a table. -/
def iterate (id : TableId) (f : ColumnFilter) : Action Workspace OpenIterator := do
  let (rows, store?) ← onTable id (Table.iterate createStore f)
  return ⟨rows, store?⟩

/-- The reader of an iterator; one that reads from no store has no batches. -/
def readerOf (store? : Option StoreId) : ChunkReader Workspace :=
  match store? with
  | some id => reader id
  | none => ⟨fun _ => 0, fun _ _ => 0, fun batch _ => .fail (.notFound .batch (toString batch))⟩

def hasNext (it : OpenIterator) (w : Workspace) : Bool := it.rows.hasNext (readerOf it.store?) w

/-- Run an action on the rows of an iterator. -/
def onRows (m : ChunkReader Workspace → Action (RowIterator × Workspace) α) :
    Action (OpenIterator × Workspace) α := fun (it, w) =>
  (m (readerOf it.store?)).on (fun (it, w) => (it.rows, w))
    (fun (rows, w) (it, _) => ({ it with rows := rows }, w)) (it, w)

/-- The next row of an iterator, none at the end. -/
def nextRow : Action (OpenIterator × Workspace) (Option Row) := onRows RowIterator.next

/-- Up to `limit` rows of an iterator, and the failure that ended the run before. -/
def takeRows (limit : Nat) : Action (OpenIterator × Workspace) (List Row × Option Failure) :=
  onRows fun r => RowIterator.take r limit

/-- Add up to `limit` rows of an iterator to a container, up to the first failure. -/
def addRows : (limit : Nat) → Action ((OpenContainer × OpenIterator) × Workspace) Unit
  | 0 => return ()
  | limit + 1 => do
    match ← nextRow.on (fun ((_, it), w) => (it, w)) fun (it, w) ((c, _), _) => ((c, it), w) with
    | none => return ()
    | some row =>
      (addRow row).on (fun ((c, _), w) => (c, w)) fun (c, w) ((_, it), _) => ((c, it), w)
      addRows limit

/-- Add all rows of an iterator to a container, up to the first failure. -/
def addAllRows (it : OpenIterator) : Action (OpenContainer × Workspace) Unit := do
  let (_, w) ← Action.get
  (addRows (it.rows.atMost (readerOf it.store?) w)).on (fun (c, w) => ((c, it), w))
    fun ((c, _), w) _ => (c, w)

/-! ## Saving and loading -/

/-- Save a table and describe it in a settings tree. -/
def saveTable (id : TableId) (path : String) : Action (Workspace × Settings) Unit := do
  let (w, _) ← Action.get
  match w.tables[id.index]? with
  | none => Outcome.abort .outOfRange
  | some t => t.save fun info factory store =>
    match w.factories[factory.index]?, w.stores[store.index]? with
    | some f, some (.memory s) =>
      (Record.save info f.name s path).on (fun (w, s) => (w.files, s)) fun (fs, s) (w, _) =>
        ({ w with files := fs }, s)
    | _, _ => Outcome.abort .outOfRange

/-- Save a table, and the settings tree that describes it as its record. -/
def saveTableAs (id : TableId) (path record : String) : Action (Workspace × Settings) Unit := do
  saveTable id path
  let (_, s) ← Action.get
  (onFiles (s.save record)).on Prod.fst fun w (_, s) => (w, s)

/-- Load the table that a record describes. -/
def loadTable (e : Environment) (c : Record.LoadContext) : Action Workspace TableId := do
  let (info, factoryName) ← Record.load c e.serializers
  let factory ← e.factory factoryName
  addTable ⟨info, .saved ⟨factory, info.mapping.schema.specs, c.dataFile⟩ .unopened, false⟩

/-- Load the table of a record file, under the id of the record unless another one is given. -/
def loadTableOf (e : Environment) (record path : String) (id? : Option Int64) :
    Action Workspace TableId := do
  let s ← Settings.load (← Action.get).files record
  let id ← match id? with
    | some id => pure id
    | none => s.getLong Record.idKey
  loadTable e (← Record.context s path id)

/-! ## The repository -/

/-- Register a table under its id, and give the table it replaces. -/
def putTable (id : TableId) : Action Workspace (Option TableId) := do
  let t ← table id
  let w ← Action.get
  let replaced := w.repository.find? t.info.id
  Action.set { w with repository := w.repository.insert t.info.id id }
  return replaced

/-- Remove whatever is registered under an id. -/
def removeById (id : Int64) : Action Workspace Bool := fun w =>
  let (removed, r) := w.repository.remove id
  (.ok removed, { w with repository := r })

/-- Remove what is registered under the id of a table. -/
def removeTable (id : TableId) : Action Workspace Bool := do
  removeById (← table id).info.id

end Workspace

end Columnar
