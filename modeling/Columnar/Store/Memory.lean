import Columnar.Chunk.Basic
import Columnar.ChunkFile
import Columnar.Files

/-!
# Memory stores

A memory store takes batches one by one and keeps them until it is closed. Its batches can be
saved as a chunk file at any time before.

**Append logs** keep the batches. A log only grows at its end and is kept in blocks of fixed size, so
that an append copies no more than one block and the list of blocks even where an older version of
the log is still in use. Everything about a log follows from `toList`: `toList_push` says what an
append does, `size_eq` and `get?_eq` that size and access are those of the list.

**Options** say how many rows a batch has, how blocks are checked, and how chunk files are read.
-/

namespace Columnar

namespace AppendLog

/-- The number of entries in a full block. -/
def blockSize : Nat := 256

end AppendLog

open AppendLog

structure AppendLog (α : Type) where
  /-- The full blocks. -/
  blocks : Array (Array α)
  /-- The entries after the last full block. -/
  last : Array α
  size_of_mem : ∀ b ∈ blocks.toList, b.size = blockSize

namespace AppendLog

variable {α : Type}

def empty : AppendLog α := ⟨#[], #[], by simp⟩

/-- Append an entry. -/
def push (s : AppendLog α) (a : α) : AppendLog α :=
  if h : s.last.size + 1 = blockSize then
    ⟨s.blocks.push (s.last.push a), #[], by
      intro b hb
      rw [Array.toList_push, List.mem_append, List.mem_singleton] at hb
      rcases hb with hb | rfl
      · exact s.size_of_mem b hb
      · rw [Array.size_push]
        exact h⟩
  else ⟨s.blocks, s.last.push a, s.size_of_mem⟩

def size (s : AppendLog α) : Nat := s.blocks.size * blockSize + s.last.size

/-- The entry at an index. -/
def get? (s : AppendLog α) (i : Nat) : Option α :=
  if i / blockSize < s.blocks.size then s.blocks[i / blockSize]?.bind (·[i % blockSize]?)
  else s.last[i - s.blocks.size * blockSize]?

def toList (s : AppendLog α) : List α := s.blocks.toList.flatMap Array.toList ++ s.last.toList

@[simp] theorem toList_empty : (empty : AppendLog α).toList = [] := rfl

@[simp] theorem toList_push (s : AppendLog α) (a : α) : (s.push a).toList = s.toList ++ [a] := by
  unfold push
  split <;> simp [toList]

theorem length_flatMap_toList {n : Nat} :
    ∀ {l : List (Array α)}, (∀ b ∈ l, b.size = n) →
      (l.flatMap Array.toList).length = l.length * n
  | [], _ => by simp
  | b :: l, h => by
    have hb := h b (by simp)
    have ih := length_flatMap_toList fun c hc => h c (List.mem_cons_of_mem b hc)
    simp only [List.flatMap_cons, List.length_append, Array.length_toList, List.length_cons, hb, ih,
      Nat.succ_mul]
    omega

theorem size_eq (s : AppendLog α) : s.size = s.toList.length := by
  simp [size, toList, length_flatMap_toList s.size_of_mem]

/-- An index into blocks of one size is a block and an index into it. -/
theorem getElem?_flatMap_toList {n : Nat} (hn : 0 < n) (rest : List α) :
    ∀ {l : List (Array α)} {i : Nat}, (∀ b ∈ l, b.size = n) →
      (l.flatMap Array.toList ++ rest)[i]? =
        if i / n < l.length then l[i / n]?.bind (·[i % n]?) else rest[i - l.length * n]?
  | [], i, _ => by simp
  | b :: l, i, h => by
    have hb : b.toList.length = n := h b (by simp)
    have ih := getElem?_flatMap_toList hn rest (l := l) (i := i - n)
      fun c hc => h c (List.mem_cons_of_mem b hc)
    rw [List.flatMap_cons, List.append_assoc]
    by_cases hi : i < n
    · rw [List.getElem?_append_left (by omega), Nat.div_eq_of_lt hi, Nat.mod_eq_of_lt hi]
      simp
    · have hdiv : i / n = (i - n) / n + 1 := by
        rw [Nat.div_eq_sub_div hn (by omega)]
      have hmod : i % n = (i - n) % n := Nat.mod_eq_sub_mod (by omega)
      rw [List.getElem?_append_right (by omega), hb, ih, hdiv, hmod]
      simp only [List.length_cons, List.getElem?_cons_succ, Nat.succ_lt_succ_iff, Nat.succ_mul,
        Nat.sub_sub, Nat.add_comm n]

theorem get?_eq (s : AppendLog α) (i : Nat) : s.get? i = s.toList[i]? := by
  have h := getElem?_flatMap_toList (n := blockSize) (by decide) s.last.toList (i := i)
    s.size_of_mem
  simp only [Array.length_toList, Array.getElem?_toList] at h
  exact h.symm

end AppendLog

end Columnar

namespace Columnar

/-! ## Options -/

/-- How an open chunk file is read. Both ways give the same bytes. -/
inductive FileAccess
  /-- Each read names its own position. -/
  | positioned
  /-- Reads share the position of the file. -/
  | seeking
deriving DecidableEq

structure StoreOptions where
  /-- Rows per batch. -/
  chunkSize : Nat
  /-- Chunks kept in the cache of an open chunk file. -/
  cacheSize : Nat
  access : FileAccess
  checksum : ChecksumType
deriving DecidableEq

namespace StoreOptions

def default : StoreOptions := ⟨32768, 1024, .positioned, .crc32⟩

/-- Small batches, for tests. -/
def small : StoreOptions := ⟨4, 16, .seeking, .crc32⟩

/-- The options with another number of rows per batch, which must be positive. -/
def withChunkSize (o : StoreOptions) (n : Nat) : Outcome StoreOptions :=
  if 0 < n then .ok { o with chunkSize := n } else Outcome.abort .chunkSizeZero

end StoreOptions

/-! ## Stores -/

structure MemoryStore where
  specs : List ChunkSpec
  checksum : ChecksumType
  batches : AppendLog Batch
  closed : Bool

namespace MemoryStore

def empty (specs : List ChunkSpec) (checksum : ChecksumType) : MemoryStore :=
  ⟨specs, checksum, .empty, false⟩

def rowCount (s : MemoryStore) (batch : Nat) : Nat :=
  ((s.batches.get? batch).map Batch.rowCount).getD 0

/-- One column of one batch. -/
def readChunk (s : MemoryStore) (batch column : Nat) : Outcome Chunk :=
  if s.closed then Outcome.fail (.closed .chunkStore)
  else
    match s.batches.get? batch with
    | none => Outcome.fail (.notFound .batch (toString batch))
    | some b => Outcome.ofOption (.invalidColumn column) b.chunks[column]?

def reader : ChunkReader MemoryStore where
  batchCount s := s.batches.size
  rowCount := rowCount
  readChunk batch column := fun s => (s.readChunk batch column, s)

/-- The first chunk that is not of its column's spec, with that spec. -/
def mismatch? : List Chunk → List ChunkSpec → Option (ChunkSpec × ChunkSpec)
  | c :: cs, spec :: specs => if c.spec = spec then mismatch? cs specs else some (c.spec, spec)
  | _, _ => none

/-- Append a batch of the store's layout. -/
def append (s : MemoryStore) (b : Batch) : Outcome MemoryStore :=
  if b.chunks.length ≠ s.specs.length then
    Outcome.fail (.illegalState (.batchWidth b.chunks.length s.specs.length))
  else
    match mismatch? b.chunks s.specs with
    | some (found, expected) => Outcome.fail (.illegalState (.batchSpec found expected))
    | none =>
      if s.closed then Outcome.fail (.closed .chunkStore)
      else .ok { s with batches := s.batches.push b }

/-- Append a batch to the store that is the state. A failed append leaves the store alone. -/
def write (b : Batch) : Action MemoryStore Unit := fun s =>
  match s.append b with
  | .ok s' => (.ok (), s')
  | .error e => (.error e, s)

/-- Give up the batches. -/
def close (s : MemoryStore) : MemoryStore := { s with batches := .empty, closed := true }

/-- Save the batches as a chunk file. If a chunk cannot be encoded, the file is left with the header
and the blocks before it. -/
def save (s : MemoryStore) (path : String) : Action Files Unit :=
  if s.closed then .fail (.closed .chunkStore)
  else Action.mapError (.atPath path) do
    let data := ChunkFile.written s.specs s.checksum s.batches.toList
    Action.set (← (← Action.get).write path data)
    let _ ← ChunkFile.encode s.specs s.checksum s.batches.toList
    return ()

end MemoryStore

end Columnar
