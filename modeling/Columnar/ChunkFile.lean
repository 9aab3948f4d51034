import Columnar.Block
import Columnar.Bytes.FixedWidth
import Columnar.Error

/-!
# Chunk files

A chunk file holds the blocks of all batches, then an index, then a tail of fixed size, so it is
read from the end. All integers are little endian.

    | magic | version | blocks | index | specs | columns | batches | index offset | magic |
    |  4B   |   4B    |        |       |       |   4B    |   4B    |      8B      |  4B   |

The index has for every batch its row count in 32 bits and for every column of it the offset and
the length of a block in 64 bits each.

**Specs.** A chunk spec is written as the tag of its kind; a pair has a tag of its own in front of
the inner spec. A pair inside a pair can be written but is refused when read
(`ChunkSpec.decode_encode_plain`, `ChunkSpec.decode_encode_paired`).

**Counts.** The tail counts batches and columns in 32 bits, so both can be numbered in 32 bits
(`FileTail.numbered_of_decodeIndex`). Sizes are counted in 64 bits, like the offsets. A tail that
asks for an index beyond that aborts the run.

**Writing.** The blocks of all batches follow each other from the end of the header on; `layOut`
encodes them and notes where each one lies. A row count that does not fit the 32 bits of the index
loses its high bits.
-/

namespace Columnar.ChunkSpec

/-! ## Specs -/

/-- The tag of a pair. -/
def pairTag : UInt8 := 8

def encode : ChunkSpec → Bytes
  | plain k => [k.tag]
  | paired inner => pairTag :: inner.encode

/-- The spec at the front of a byte string, and the rest. -/
def decode : Bytes → Outcome (ChunkSpec × Bytes)
  | [] => Outcome.fail (.decode .truncatedSpec)
  | b :: bs =>
    if b = pairTag then do
      match ← decode bs with
      | (plain k, rest) => return (paired (plain k), rest)
      | (paired _, _) => Outcome.fail (.decode .nestedSupplement)
    else
      match Kind.ofTag? b with
      | some k => return (plain k, bs)
      | none => Outcome.fail (.decode (.unknownTag b))

/-- The first `n` specs of a byte string, and the rest. -/
def decodeMany : (n : Nat) → Bytes → Outcome (List ChunkSpec × Bytes)
  | 0, bs => return ([], bs)
  | n + 1, bs => do
    let (spec, bs) ← decode bs
    let (specs, bs) ← decodeMany n bs
    return (spec :: specs, bs)

theorem decode_encode_plain (k : Kind) (rest : Bytes) :
    decode ((plain k).encode ++ rest) = .ok (plain k, rest) := by
  cases k <;> rfl

theorem decode_encode_paired (k : Kind) (rest : Bytes) :
    decode ((paired (plain k)).encode ++ rest) = .ok (paired (plain k), rest) := by
  cases k <;> rfl

theorem length_of_decodeMany {n : Nat} {bs rest : Bytes} {specs : List ChunkSpec}
    (h : decodeMany n bs = .ok (specs, rest)) : specs.length = n := by
  induction n generalizing bs rest specs with
  | zero =>
    cases h
    rfl
  | succ n ih =>
    obtain ⟨⟨spec, bs₁⟩, -, h⟩ := Outcome.bind_eq_ok h
    obtain ⟨⟨more, bs₂⟩, hmore, h⟩ := Outcome.bind_eq_ok h
    cases h
    exact congrArg (· + 1) (ih hmore)

end Columnar.ChunkSpec

namespace Columnar

/-! ## The index -/

/-- Where a block lies in its file. -/
structure BlockRange where
  offset : Nat
  length : Nat
deriving DecidableEq

/-- What the index says about a batch. -/
structure BatchIndex where
  rows : Nat
  blocks : List BlockRange
deriving DecidableEq

/-- The part of fixed size at the end of a chunk file. -/
structure FileTail where
  columns : Nat
  batches : Nat
  indexOffset : Nat
deriving DecidableEq

namespace ChunkFile

/-- The first and last four bytes of a chunk file. -/
def magic : Bytes := [0x46, 0x54, 0x42, 0x4C]

def version : Nat := 1

def headerSize : Nat := 8

def tailSize : Nat := 20

def header : Bytes := magic ++ LittleEndian.encode 4 version

/-- Check that a file begins as a chunk file of a known version. -/
def checkHeader (bs : Bytes) : Outcome Unit := do
  if bs.length < headerSize ∨ bs.take 4 ≠ magic then Outcome.fail (.decode .notChunkFile)
  else
    let (_, bs) ← Bytes.cutFront 4 bs
    let (v, _) ← Bytes.readWord 4 bs
    if v = version then return () else Outcome.fail (.decode (.fileVersion v))

end ChunkFile

open ChunkFile

namespace BatchIndex

def encode (b : BatchIndex) : Bytes :=
  LittleEndian.encode 4 b.rows ++
    b.blocks.flatMap fun r => LittleEndian.encode 8 r.offset ++ LittleEndian.encode 8 r.length

/-- The first `columns` block ranges of a byte string, and the rest. -/
def readBlocks : (columns : Nat) → Bytes → Outcome (List BlockRange × Bytes)
  | 0, bs => return ([], bs)
  | n + 1, bs => do
    let (offset, bs) ← Bytes.readWord 8 bs
    let (length, bs) ← Bytes.readWord 8 bs
    let (blocks, bs) ← readBlocks n bs
    return (⟨offset, length⟩ :: blocks, bs)

def read (columns : Nat) (bs : Bytes) : Outcome (BatchIndex × Bytes) := do
  let (rows, bs) ← Bytes.readWord 4 bs
  let (blocks, bs) ← readBlocks columns bs
  return (⟨rows, blocks⟩, bs)

/-- The first `n` batches of a byte string, and the rest. -/
def readMany (columns : Nat) : (n : Nat) → Bytes → Outcome (List BatchIndex × Bytes)
  | 0, bs => return ([], bs)
  | n + 1, bs => do
    let (b, bs) ← read columns bs
    let (batches, bs) ← readMany columns n bs
    return (b :: batches, bs)

end BatchIndex

namespace FileTail

def encode (t : FileTail) : Bytes :=
  LittleEndian.encode 4 t.columns ++ LittleEndian.encode 4 t.batches ++
    LittleEndian.encode 8 t.indexOffset ++ magic

def decode (bs : Bytes) : Outcome FileTail := do
  if bs.length ≠ tailSize then Outcome.fail (.decode .truncatedTail)
  else
    let (columns, bs) ← Bytes.readWord 4 bs
    let (batches, bs) ← Bytes.readWord 4 bs
    let (indexOffset, bs) ← Bytes.readWord 8 bs
    if bs = magic then return ⟨columns, batches, indexOffset⟩
    else Outcome.fail (.decode .tailMagic)

/-- The number of bytes of the index. -/
def indexSize (t : FileTail) : Outcome Nat := do
  let blocks ← Outcome.ofCount (t.columns * 16)
  Outcome.ofCount (t.batches * (4 + blocks))

/-- The batches and specs that lie before the tail. -/
def decodeIndex (t : FileTail) (bs : Bytes) : Outcome (List BatchIndex × List ChunkSpec) := do
  if bs.length < (← t.indexSize) then Outcome.fail (.decode .truncatedIndex)
  else
    let (batches, bs) ← BatchIndex.readMany t.columns t.batches bs
    let (specs, bs) ← ChunkSpec.decodeMany t.columns bs
    if bs.isEmpty then return (batches, specs) else Outcome.fail (.decode .trailingBytes)

end FileTail

/-! ## Counts -/

namespace BatchIndex

/-- The batches of an index, and the columns of each, can be numbered in 32 bits. -/
structure Numbered (index : List BatchIndex) : Prop where
  batches_lt : index.length < wordLimit
  columns_lt : ∀ b ∈ index, b.blocks.length < wordLimit

theorem length_of_readBlocks {columns : Nat} {bs rest : Bytes} {blocks : List BlockRange}
    (h : readBlocks columns bs = .ok (blocks, rest)) : blocks.length = columns := by
  induction columns generalizing bs rest blocks with
  | zero =>
    cases h
    rfl
  | succ n ih =>
    obtain ⟨⟨offset, bs₁⟩, -, h⟩ := Outcome.bind_eq_ok h
    obtain ⟨⟨length, bs₂⟩, -, h⟩ := Outcome.bind_eq_ok h
    obtain ⟨⟨more, bs₃⟩, hmore, h⟩ := Outcome.bind_eq_ok h
    cases h
    exact congrArg (· + 1) (ih hmore)

/-- As many batches are read as are asked for, each with a block for every column. -/
theorem lengths_of_readMany {columns n : Nat} {bs rest : Bytes} {index : List BatchIndex}
    (h : readMany columns n bs = .ok (index, rest)) :
    index.length = n ∧ ∀ b ∈ index, b.blocks.length = columns := by
  induction n generalizing bs rest index with
  | zero =>
    cases h
    exact ⟨rfl, fun b hb => absurd hb List.not_mem_nil⟩
  | succ n ih =>
    obtain ⟨⟨first, bs₁⟩, hfirst, h⟩ := Outcome.bind_eq_ok h
    obtain ⟨⟨more, bs₂⟩, hmore, h⟩ := Outcome.bind_eq_ok h
    cases h
    obtain ⟨⟨rows, bs₃⟩, -, hfirst⟩ := Outcome.bind_eq_ok hfirst
    obtain ⟨⟨blocks, bs₄⟩, hblocks, hfirst⟩ := Outcome.bind_eq_ok hfirst
    cases hfirst
    obtain ⟨hlength, hwidths⟩ := ih hmore
    refine ⟨congrArg (· + 1) hlength, fun b hb => ?_⟩
    rcases List.mem_cons.mp hb with rfl | hb
    · exact length_of_readBlocks hblocks
    · exact hwidths b hb

end BatchIndex

namespace FileTail

/-- The counts of a tail are words. -/
theorem counts_lt_of_decode {bs : Bytes} {t : FileTail} (h : decode bs = .ok t) :
    t.columns < wordLimit ∧ t.batches < wordLimit := by
  obtain ⟨-, h⟩ := Outcome.guard_eq_ok h
  obtain ⟨⟨columns, bs₁⟩, hcolumns, h⟩ := Outcome.bind_eq_ok h
  obtain ⟨⟨batches, bs₂⟩, hbatches, h⟩ := Outcome.bind_eq_ok h
  obtain ⟨⟨indexOffset, bs₃⟩, -, h⟩ := Outcome.bind_eq_ok h
  dsimp only at h
  split at h
  · cases h
    exact ⟨Bytes.lt_of_readWord hcolumns, Bytes.lt_of_readWord hbatches⟩
  · cases h

/-- The index has the counts of the tail. -/
theorem lengths_of_decodeIndex {t : FileTail} {bs : Bytes} {index : List BatchIndex}
    {specs : List ChunkSpec} (h : t.decodeIndex bs = .ok (index, specs)) :
    index.length = t.batches ∧ (∀ b ∈ index, b.blocks.length = t.columns) ∧
      specs.length = t.columns := by
  obtain ⟨size, -, h⟩ := Outcome.bind_eq_ok h
  obtain ⟨-, h⟩ := Outcome.guard_eq_ok h
  obtain ⟨⟨batches, bs₁⟩, hbatches, h⟩ := Outcome.bind_eq_ok h
  obtain ⟨⟨found, bs₂⟩, hfound, h⟩ := Outcome.bind_eq_ok h
  dsimp only at h
  split at h
  · cases h
    obtain ⟨hlength, hwidths⟩ := BatchIndex.lengths_of_readMany hbatches
    exact ⟨hlength, hwidths, ChunkSpec.length_of_decodeMany hfound⟩
  · cases h

theorem numbered_of_decodeIndex {t : FileTail} {last footer : Bytes} {index : List BatchIndex}
    {specs : List ChunkSpec} (ht : decode last = .ok t)
    (h : t.decodeIndex footer = .ok (index, specs)) : BatchIndex.Numbered index := by
  obtain ⟨hcolumns, hbatches⟩ := counts_lt_of_decode ht
  obtain ⟨hlength, hwidths, -⟩ := lengths_of_decodeIndex h
  refine ⟨hlength ▸ hbatches, fun b hb => ?_⟩
  rw [hwidths b hb]
  exact hcolumns

end FileTail

end Columnar

namespace Columnar.ChunkFile

/-! ## Writing -/

/-- The blocks of the chunks of one batch from `offset` on, and where they lie. -/
def layOutChunks (type : ChecksumType) :
    (offset : Nat) → List Chunk → Outcome (Bytes × List BlockRange)
  | _, [] => return ([], [])
  | offset, c :: cs => do
    let block ← c.encodeBlock type
    let (rest, ranges) ← layOutChunks type (offset + block.length) cs
    return (block ++ rest, ⟨offset, block.length⟩ :: ranges)

/-- The blocks of some batches from `offset` on, and their index. -/
def layOut (type : ChecksumType) :
    (offset : Nat) → List Batch → Outcome (Bytes × List BatchIndex)
  | _, [] => return ([], [])
  | offset, b :: bs => do
    let (blocks, ranges) ← layOutChunks type offset b.chunks
    let (rest, index) ← layOut type (offset + blocks.length) bs
    return (blocks ++ rest, ⟨b.rowCount, ranges⟩ :: index)

/-- The blocks of the chunks before the first that cannot be encoded. -/
def blocksBefore (type : ChecksumType) : List Chunk → Bytes
  | [] => []
  | c :: cs =>
    match c.encodeBlock type with
    | .ok block => block ++ blocksBefore type cs
    | .error _ => []

/-- The contents of the chunk file of some batches. -/
def encode (specs : List ChunkSpec) (type : ChecksumType) (batches : List Batch) :
    Outcome Bytes := do
  let (blocks, index) ← layOut type headerSize batches
  let tail : FileTail := ⟨specs.length, index.length, headerSize + blocks.length⟩
  return header ++ blocks ++ index.flatMap BatchIndex.encode ++ specs.flatMap ChunkSpec.encode ++
    tail.encode

/-- What is written of the chunk file of some batches, which ends early where a chunk cannot be
encoded. -/
def written (specs : List ChunkSpec) (type : ChecksumType) (batches : List Batch) : Bytes :=
  match encode specs type batches with
  | .ok data => data
  | .error _ => header ++ blocksBefore type (batches.flatMap Batch.chunks)

end Columnar.ChunkFile
