import Columnar.Block
import Columnar.Chunk.Basic
import Columnar.ChunkFile
import Columnar.Files
import Std.Data.TreeMap

/-!
# Disk stores

A disk store is an open chunk file. Opening it reads only the index and checks that it fits the
file and the expected specs. A chunk is read and decoded when it is first asked for and then kept
in a cache, from which it also comes after the file has changed. What is found in a cache after a
chunk is kept and after chunks are dropped is up to `find?_insert` and `find?_evict`.

**Cache keys** have 32 bits for the batch and for the column. That is enough for every index that a
chunk file can have (`BatchIndex.Numbered`), and so a store carries the fact along with its index.

**Errors** of opening name the file. An error of reading a chunk comes out of the cache, and so it
is nested: `Error.nested` around an I/O error, or around a decoding error that names the file.
-/

namespace Columnar

/-! ## Caches of chunks -/

structure ChunkCache where
  /-- For every batch the columns read of it, the newest first. -/
  batches : Std.TreeMap Nat (List (Nat × Chunk))

namespace ChunkCache

def empty : ChunkCache := ⟨∅⟩

/-- The chunks kept of a batch. -/
def columns (cache : ChunkCache) (batch : Nat) : List (Nat × Chunk) :=
  cache.batches[batch]?.getD []

/-- The chunk kept for a column of a batch. -/
def find? (cache : ChunkCache) (batch column : Nat) : Option Chunk :=
  (cache.columns batch).lookup column

/-- Keep a chunk. -/
def insert (cache : ChunkCache) (batch column : Nat) (c : Chunk) : ChunkCache :=
  ⟨cache.batches.insert batch ((column, c) :: cache.columns batch)⟩

/-- Drop the chunks that are not to be kept. -/
def evict (keep : Nat × Nat → Bool) (cache : ChunkCache) : ChunkCache :=
  ⟨cache.batches.map fun batch columns => columns.filter fun e => keep (batch, e.1)⟩

@[simp] theorem find?_empty (batch column : Nat) : empty.find? batch column = none := by
  simp [find?, columns, empty]

theorem find?_insert (cache : ChunkCache) (batch column b i : Nat) (c : Chunk) :
    (cache.insert batch column c).find? b i =
      if b = batch ∧ i = column then some c else cache.find? b i := by
  unfold find? insert columns
  simp only [Std.TreeMap.getElem?_insert, Nat.compare_eq_eq]
  by_cases hb : batch = b
  · subst hb
    by_cases hi : i = column
    · simp [hi]
    · have hi' : (i == column) = false := by simp [hi]
      simp [hi, List.lookup_cons, hi']
  · rw [if_neg hb, if_neg fun h => hb h.1.symm]

theorem lookup_filter {β : Type} (p : Nat → Bool) (i : Nat) :
    ∀ l : List (Nat × β), (l.filter fun e => p e.1).lookup i = if p i then l.lookup i else none
  | [] => by simp
  | (j, b) :: l => by
    have ih := lookup_filter p i l
    by_cases hj : i = j
    · subst hj
      cases hp : p i with
      | true => simp [hp]
      | false =>
        rw [hp] at ih
        simpa [hp] using ih
    · have hj' : (i == j) = false := by simp [hj]
      cases hp : p j <;> simp [hp, List.lookup_cons, hj', ih]

theorem find?_evict (cache : ChunkCache) (keep : Nat × Nat → Bool) (b i : Nat) :
    (cache.evict keep).find? b i = if keep (b, i) then cache.find? b i else none := by
  unfold find? evict columns
  simp only [Std.TreeMap.getElem?_map]
  cases cache.batches[b]? with
  | none => simp
  | some l => simpa using lookup_filter (fun j => keep (b, j)) i l

end ChunkCache

/-! ## Stores -/

structure DiskStore where
  path : String
  specs : List ChunkSpec
  index : Array BatchIndex
  /-- The open file, none once the store is closed. -/
  file? : Option FileId
  cache : ChunkCache
  numbered : BatchIndex.Numbered index.toList

namespace DiskStore

/-- Whether every block ends before `limit`. -/
def blocksEndBefore (index : List BatchIndex) (limit : Nat) : Bool :=
  index.all fun b => b.blocks.all fun r => r.offset + r.length ≤ limit

/-- The index of a chunk file whose columns have the given specs. -/
def readIndex (fs : Files) (file : FileId) (specs : List ChunkSpec) :
    Outcome (List BatchIndex) := do
  let size := fs.size file
  if size < ChunkFile.headerSize + ChunkFile.tailSize then
    Outcome.fail (.decode .fileTooShort)
  else
    ChunkFile.checkHeader (← fs.readRange file 0 ChunkFile.headerSize).toList
    let tailOffset := size - ChunkFile.tailSize
    let tail ← FileTail.decode (← fs.readRange file tailOffset ChunkFile.tailSize).toList
    if tail.indexOffset < ChunkFile.headerSize ∨ tailOffset < tail.indexOffset then
      Outcome.fail (.decode .indexOffset)
    else
      let footer ← fs.readRange file tail.indexOffset (tailOffset - tail.indexOffset)
      let (index, found) ← tail.decodeIndex footer.toList
      if found ≠ specs then Outcome.fail (.decode (.fileSpecs found specs))
      else if blocksEndBefore index tail.indexOffset then return index
      else Outcome.fail (.decode .blockRange)

theorem numbered_of_readIndex {fs : Files} {file : FileId} {specs : List ChunkSpec}
    {index : List BatchIndex} (h : readIndex fs file specs = .ok index) :
    BatchIndex.Numbered index := by
  obtain ⟨-, h⟩ := Outcome.guard_eq_ok h
  obtain ⟨header, -, h⟩ := Outcome.bind_eq_ok h
  obtain ⟨-, -, h⟩ := Outcome.bind_eq_ok h
  obtain ⟨last, -, h⟩ := Outcome.bind_eq_ok h
  obtain ⟨tail, htail, h⟩ := Outcome.bind_eq_ok h
  obtain ⟨-, h⟩ := Outcome.guard_eq_ok h
  obtain ⟨footer, -, h⟩ := Outcome.bind_eq_ok h
  obtain ⟨⟨batches, found⟩, hindex, h⟩ := Outcome.bind_eq_ok h
  obtain ⟨-, h⟩ := Outcome.guard_eq_ok h
  split at h
  · cases h
    exact FileTail.numbered_of_decodeIndex htail hindex
  · cases h

/-- Open the chunk file of a name. -/
def openFile (fs : Files) (path : String) (specs : List ChunkSpec) : Outcome DiskStore :=
  Outcome.mapError (.atPath path) do
    let file ← fs.openFile path
    let ⟨index, h⟩ ← (readIndex fs file specs).attach
    return ⟨path, specs, index.toArray, some file, .empty, numbered_of_readIndex h⟩

/-- A file is opened by its index. -/
theorem openFile_of_readIndex {fs : Files} {path : String} {file : FileId} {specs : List ChunkSpec}
    {index : List BatchIndex} (hopen : fs.openFile path = .ok file)
    (hindex : readIndex fs file specs = .ok index) : openFile fs path specs =
      .ok ⟨path, specs, index.toArray, some file, .empty, numbered_of_readIndex hindex⟩ := by
  rw [openFile, hopen]
  show Outcome.mapError (.atPath path) ((readIndex fs file specs).attach >>= _) = _
  rw [Outcome.attach_bind hindex]
  rfl

/-- A file whose index cannot be read is not opened. -/
theorem openFile_of_error {fs : Files} {path : String} {file : FileId} {specs : List ChunkSpec}
    {e : Failure} (hopen : fs.openFile path = .ok file)
    (hindex : readIndex fs file specs = .error e) :
    openFile fs path specs = Outcome.mapError (.atPath path) (.error e) := by
  rw [openFile, hopen]
  show Outcome.mapError (.atPath path) ((readIndex fs file specs).attach >>= _) = _
  rw [Outcome.attach_error hindex]
  rfl

def rowCount (s : DiskStore) (batch : Nat) : Nat := (s.index[batch]?.map BatchIndex.rows).getD 0

/-- Read and decode a block of an open file. -/
def loadBlock (path : String) (fs : Files) (file : FileId) (spec : ChunkSpec) (rows : Nat)
    (r : BlockRange) : Outcome Chunk := do
  let block ← fs.readRange file r.offset r.length
  Outcome.mapError (.atPath path) (Chunk.decodeBlock spec rows block)

/-- Where the block of a column of a batch lies, and how many rows it has. -/
def locate (s : DiskStore) (batch column : Nat) : Outcome (FileId × Nat × BlockRange) :=
  match s.file? with
  | none => Outcome.fail (.closed .chunkStore)
  | some file =>
    match s.index[batch]? with
    | none => Outcome.fail (.notFound .batch (toString batch))
    | some b =>
      match b.blocks[column]? with
      | none => Outcome.fail (.invalidColumn column)
      | some r => .ok (file, b.rows, r)

/-- Read and decode the block of a column of a batch, past the cache. -/
def loadChunk (s : DiskStore) (fs : Files) (batch column : Nat) : Outcome Chunk := do
  let (file, rows, r) ← s.locate batch column
  let spec ← Outcome.ofIndex s.specs[column]?
  Outcome.mapError .nested (loadBlock s.path fs file spec rows r)

/-- What a cache key has of a number: its lower 32 bits. -/
def narrow (n : Nat) : Nat := n % wordLimit

/-- One column of one batch. -/
def readChunk (batch column : Nat) : Action (DiskStore × Files) Chunk := fun (s, fs) =>
  match s.locate batch column with
  | .error e => (.error e, (s, fs))
  | .ok _ =>
    match s.cache.find? (narrow batch) (narrow column) with
    | some c => (.ok c, (s, fs))
    | none =>
      match s.loadChunk fs batch column with
      | .ok c =>
        (.ok c, ({ s with cache := s.cache.insert (narrow batch) (narrow column) c }, fs))
      | .error e => (.error e, (s, fs))

def reader : ChunkReader (DiskStore × Files) where
  batchCount s := s.1.index.size
  rowCount s := s.1.rowCount
  readChunk := readChunk

/-- Drop the cached chunks that are not to be kept. -/
def evict (keep : Nat × Nat → Bool) (s : DiskStore) : DiskStore :=
  { s with cache := s.cache.evict keep }

/-- Give up the file and the cached chunks. The index stays known. -/
def close (s : DiskStore) : DiskStore := { s with file? := none, cache := .empty }

end DiskStore

end Columnar
