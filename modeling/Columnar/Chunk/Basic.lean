import Columnar.Action
import Columnar.Error

/-!
# Chunks

**Slots.** A chunk has a fixed number of slots. Each holds a value and a flag that says whether the
value is missing. A slot starts out missing; setting it clears the flag; clearing it puts the default
value back.

**Padding.** The flags are stored as a bitmap of whole bytes. The bits of the last byte that stand
for no slot are the padding: all set in fresh slots, and the flags of the slots cut off after a
truncation.

**Chunks.** A chunk holds the values of one column for one batch of rows: plain slots of one kind, or
an inner chunk paired with a supplement of byte strings of the same length. Length and missing flag
of a pair are those of its inner chunk, and so are its values: typed access to a pair reaches the
slots one level below. `reset` is the operation that clears both parts of a slot.

**Batches.** A batch has one chunk for every physical column, all of its row count. A `ChunkReader`
is what cursors need of a store: how many batches there are, how many rows each has, and the chunk
of one column of one batch. Reading a chunk may fail and may change the store, which is the state
`σ`.
-/

namespace Columnar

/-! ## Slots -/

structure Slot (α : Type) where
  value : α
  missing : Bool
deriving DecidableEq

structure Slots (α : Type) where
  slots : Array (Slot α)
  padding : List Bool
deriving DecidableEq

namespace Slots

variable {α : Type}

/-- The number of bits that fill up the last byte of a bitmap of `n` bits. -/
def paddingSize (n : Nat) : Nat := (8 - n % 8) % 8

/-- Slots in order, with the padding of fresh slots. -/
def ofList (slots : List (Slot α)) : Slots α :=
  ⟨slots.toArray, List.replicate (paddingSize slots.length) true⟩

/-- `n` missing slots. -/
def fresh (default : α) (n : Nat) : Slots α :=
  ⟨Array.replicate n ⟨default, true⟩, List.replicate (paddingSize n) true⟩

def size (s : Slots α) : Nat := s.slots.size

def values (s : Slots α) : List α := s.slots.toList.map Slot.value

/-- The missing flags of the slots. -/
def flags (s : Slots α) : List Bool := s.slots.toList.map Slot.missing

/-- The value of a slot, also if it is missing. -/
def value (s : Slots α) (i : Nat) : Outcome α := Outcome.ofIndex (s.slots[i]?.map Slot.value)

def isMissing (s : Slots α) (i : Nat) : Outcome Bool :=
  Outcome.ofIndex (s.slots[i]?.map Slot.missing)

/-- Replace a slot. -/
def put (s : Slots α) (i : Nat) (slot : Slot α) : Outcome (Slots α) :=
  if h : i < s.slots.size then .ok { s with slots := s.slots.set i slot h }
  else Outcome.abort .outOfRange

/-- Give a slot a value. -/
def set (s : Slots α) (i : Nat) (v : α) : Outcome (Slots α) := s.put i ⟨v, false⟩

/-- Make a slot missing again. -/
def clear (default : α) (s : Slots α) (i : Nat) : Outcome (Slots α) := s.put i ⟨default, true⟩

/-- Keep the first `n` slots. -/
def truncate (s : Slots α) (n : Nat) : Slots α :=
  if n < s.size then
    let cut := (s.slots.extract n (n + paddingSize n)).toList.map Slot.missing
    ⟨s.slots.extract 0 n, (cut ++ s.padding).take (paddingSize n)⟩
  else s

end Slots

/-! ## Chunks -/

/-- One column of one batch. -/
inductive Chunk
  | plain (k : Kind) (slots : Slots k.Value)
  | paired (inner : Chunk) (supplement : Slots Bytes)

/-- A chunk with `n` missing slots. -/
def ChunkSpec.fresh : ChunkSpec → Nat → Chunk
  | .plain k, n => .plain k (Slots.fresh k.default n)
  | .paired inner, n => .paired (inner.fresh n) (Slots.fresh [] n)

/-- A chunk with `n` missing slots, if that many can be stored. -/
def ChunkSpec.create (spec : ChunkSpec) (n : Nat) : Outcome Chunk :=
  spec.fresh <$> Outcome.ofLength n

namespace Chunk

def spec : Chunk → ChunkSpec
  | plain k _ => .plain k
  | paired inner _ => .paired inner.spec

def size : Chunk → Nat
  | plain _ s => s.size
  | paired inner _ => inner.size

/-- Whether the value of a slot is missing. -/
def isMissing : Chunk → Nat → Outcome Bool
  | plain _ s, i => s.isMissing i
  | paired inner _, i => inner.isMissing i

/-- Make the value of a slot missing; a supplement stays. -/
def setMissing : Chunk → Nat → Outcome Chunk
  | plain k s, i => return plain k (← s.clear k.default i)
  | paired inner s, i => return paired (← inner.setMissing i) s

/-- Make a slot missing again, including its supplement. -/
def reset (c : Chunk) (i : Nat) : Outcome Chunk :=
  match c with
  | paired inner s => do setMissing (paired inner (← s.clear [] i)) i
  | c => c.setMissing i

/-- Keep the first `n` slots. -/
def truncate : Chunk → Nat → Chunk
  | plain k s, n => plain k (s.truncate n)
  | paired inner s, n => paired (inner.truncate n) (s.truncate n)

/-- The chunk that holds the values: the inner chunk of a pair, otherwise the chunk itself. -/
def primary : Chunk → Chunk
  | paired inner _ => inner
  | c => c

/-- Change the chunk that holds the values. -/
def modifyPrimary (f : Chunk → Outcome Chunk) : Chunk → Outcome Chunk
  | paired inner s => return paired (← f inner) s
  | c => f c

/-- The complaint that a chunk is not what was expected. -/
def wrongShape (expected : ChunkShape) (c : Chunk) : Outcome α :=
  Outcome.fail (.decode (.chunkShape expected c.spec))

/-! ## Values of one kind -/

/-- The value of a slot in a chunk of kind `k`. -/
def get (c : Chunk) (k : Kind) (i : Nat) : Outcome k.Value :=
  match c.primary with
  | plain k' s => if h : k' = k then h ▸ s.value i else wrongShape (.kind k) c.primary
  | p => wrongShape (.kind k) p

/-- Set a slot in a chunk of kind `k`. -/
def set (c : Chunk) (k : Kind) (i : Nat) (v : k.Value) : Outcome Chunk :=
  c.modifyPrimary fun
    | plain k' s =>
      if h : k = k' then return plain k' (← s.set i (h ▸ v)) else wrongShape (.kind k) (plain k' s)
    | p => wrongShape (.kind k) p

/-! ## Byte strings and text -/

/-- The slots of a chunk of one of the kinds that hold byte strings. -/
def byteSlots? : Chunk → Option (Slots Bytes)
  | plain .string s | plain .rowKey s | plain .binary s => some s
  | _ => none

def getBytes (c : Chunk) (i : Nat) : Outcome Bytes :=
  match c.primary.byteSlots? with
  | some s => s.value i
  | none => wrongShape .varLength c.primary

def setBytes (c : Chunk) (i : Nat) (v : Bytes) : Outcome Chunk :=
  c.modifyPrimary fun
    | plain .string s => return plain .string (← s.set i v)
    | plain .rowKey s => return plain .rowKey (← s.set i v)
    | plain .binary s => return plain .binary (← s.set i v)
    | p => wrongShape .varLength p

/-- The text of a slot, which must be well-formed UTF-8. -/
def getText (c : Chunk) (i : Nat) : Outcome String := do
  match Utf8.decode (← c.getBytes i) with
  | .ok s => return s
  | .error fault => Outcome.fail (.decode (.chunkText i fault))

def setText (c : Chunk) (i : Nat) (v : String) : Outcome Chunk := c.setBytes i (Utf8.encode v)

/-! ## The supplement -/

def supplement : Chunk → Outcome (Slots Bytes)
  | paired _ s => .ok s
  | c => wrongShape .supplement c

/-- Change the supplement. -/
def modifySupplement (c : Chunk) (f : Slots Bytes → Outcome (Slots Bytes)) : Outcome Chunk :=
  match c with
  | paired inner s => return paired inner (← f s)
  | c => wrongShape .supplement c

/-! ## Joining -/

/-- The slots of a plain chunk of kind `k`. -/
def slotsOf (k : Kind) : Chunk → List (Slot k.Value)
  | plain k' s => if h : k' = k then h ▸ s.slots.toList else []
  | paired _ _ => []

/-- The slots of the supplement, if there is one. -/
def supplementSlots : Chunk → List (Slot Bytes)
  | paired _ s => s.slots.toList
  | plain _ _ => []

end Chunk

/-- Chunks of one spec, end to end. -/
def ChunkSpec.join : ChunkSpec → List Chunk → Chunk
  | .plain k, cs => .plain k (Slots.ofList (cs.flatMap (·.slotsOf k)))
  | .paired inner, cs =>
    .paired (inner.join (cs.map Chunk.primary)) (Slots.ofList (cs.flatMap Chunk.supplementSlots))

/-- A batch of rows: one chunk for every physical column. The row count is kept on its own, since
a table may have no columns. -/
structure Batch where
  rowCount : Nat
  chunks : List Chunk

/-- A batch of chunks that all have its row count. -/
def Batch.ofChunks (rowCount : Nat) (chunks : List Chunk) : Outcome Batch :=
  if chunks.all (·.size == rowCount) then .ok ⟨rowCount, chunks⟩ else Outcome.abort .unevenBatch

/-! ## Readers of batches -/

structure ChunkReader (σ : Type) where
  batchCount : σ → Nat
  /-- The row count of a batch, zero if there is no such batch. -/
  rowCount : σ → Nat → Nat
  readChunk : (batch column : Nat) → Action σ Chunk

namespace ChunkReader

variable {σ : Type}

/-- The number of rows in all batches. -/
def totalRows (r : ChunkReader σ) (s : σ) : Nat :=
  (List.range (r.batchCount s)).foldl (fun n batch => n + r.rowCount s batch) 0

/-- The number of rows in all batches, which must fit in 64 bits. -/
def countRows (r : ChunkReader σ) (s : σ) : Outcome Nat := Outcome.ofCount (r.totalRows s)

/-- The first of `n` batches from `batch` on that has rows. -/
def firstNonEmpty? (r : ChunkReader σ) (s : σ) : (n batch : Nat) → Option Nat
  | 0, _ => none
  | n + 1, batch =>
    if 0 < r.rowCount s batch then some batch else r.firstNonEmpty? s n (batch + 1)

/-- The first batch at or after `batch` that has rows. -/
def nextBatch? (r : ChunkReader σ) (s : σ) (batch : Nat) : Option Nat :=
  r.firstNonEmpty? s (r.batchCount s - batch) batch

end ChunkReader

end Columnar
