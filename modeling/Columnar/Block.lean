import Columnar.Bytes.Buffer
import Columnar.Bytes.FixedWidth
import Columnar.Bytes.LittleEndian
import Columnar.Chunk.Basic

/-!
# Blocks

A block is an encoded chunk: its data, and a trailer that names layout and checksum.

    | data | layout | checksum type | checksum |
    |      |   4B   |      4B       |    8B    |

**Slots.** Missing flags follow the values as a bitmap with its length in bytes behind it, so a
decoder starts from the end:

    | values | bitmap | bitmap length |
    |        |        |      4B       |

Fixed-width values are an array. Byte strings are the end offset of every value, 32 bits each,
followed by the contents. The data of a pair is the length of its inner data in 32 bits, the inner
data, and the supplement.

A decoder is told the spec and the number of rows of the chunk, neither of which the block carries in
full. The bitmap may be longer than the rows; an array of values may not; the contents of byte
strings may go on after the last offset. Lengths that a decoder computes are counts of 64 bits,
whatever the bytes say.

**Checksums.** A block names the checksum over its data, which may be none. CRC-32 is the cyclic
redundancy check of IEEE 802.3 in its reflected form: a register of 32 bits starts with all bits set,
takes one byte at a time, and is complemented at the end. Each byte is added to the low end of the
register, which is then divided by the polynomial bit by bit.

Main definitions: `Chunk.encodeBlock` and `Chunk.decodeBlock`.
-/

namespace Columnar

/-! ## Checksums -/

namespace Crc32

/-- The polynomial without its leading term, lowest power in the highest bit. -/
def polynomial : UInt32 := 0xEDB88320

/-- Divide by one bit. -/
@[inline] def bitStep (r : UInt32) : UInt32 :=
  if r &&& 1 = 1 then (r >>> 1) ^^^ polynomial else r >>> 1

/-- Divide by four bits. -/
@[inline] def halfStep (r : UInt32) : UInt32 := bitStep (bitStep (bitStep (bitStep r)))

/-- The register after one byte. -/
def update (r : UInt32) (b : UInt8) : UInt32 := halfStep (halfStep (r ^^^ b.toUInt32))

/-- The check value of a byte string. -/
def hash (b : Buffer) : UInt32 := b.foldl update 0xFFFFFFFF ^^^ 0xFFFFFFFF

end Crc32

inductive ChecksumType
  | none | crc32
deriving DecidableEq

namespace ChecksumType

/-- The number that stands for the type in an encoded chunk. -/
def code : ChecksumType → Nat
  | none => 0
  | crc32 => 1

def ofCode? : Nat → Option ChecksumType
  | 0 => some none
  | 1 => some crc32
  | _ => Option.none

theorem ofCode?_code (t : ChecksumType) : ofCode? t.code = some t := by cases t <;> rfl

theorem eq_code_of_ofCode? {n : Nat} {t : ChecksumType} (h : ofCode? n = some t) : n = t.code := by
  unfold ofCode? at h
  split at h <;> cases h <;> rfl

/-- The type with this number. -/
def ofCode (n : Nat) : Outcome ChecksumType :=
  Outcome.ofOption (.decode .checksumType) (ofCode? n)

/-- The checksum of some data. Without a checksum it is zero. -/
def build : ChecksumType → Buffer → UInt64
  | none, _ => 0
  | crc32, data => (Crc32.hash data).toUInt64

/-- Compare data with its checksum. Without a checksum anything passes. -/
def verify : ChecksumType → Buffer → UInt64 → Outcome Unit
  | none, _, _ => .ok ()
  | crc32, data, expected =>
    let found := build crc32 data
    if found = expected then .ok () else Outcome.fail (.checksum found expected)

end ChecksumType

namespace Slots

variable {α : Type}

/-! ## Missing flags -/

/-- The bitmap of the missing flags and its length. -/
def encodeFlags (s : Slots α) : Bytes :=
  let bitmap := Bits.pack (s.flags ++ s.padding)
  bitmap ++ LittleEndian.encode 4 bitmap.length

/-- The number of bytes of a bitmap of `n` bits. -/
def bitmapSize (n : Nat) : Nat := (n + 7) / 8

/-- Split off the bitmap: what comes before it, the flags of the rows, and their padding. -/
def decodeFlags (data : Buffer) (rows : Nat) : Outcome (Buffer × List Bool × List Bool) := do
  if data.size < 4 then Outcome.fail (.decode .bitmapLength)
  else
    let (front, lengthField) ← data.cutBack 4
    let n := lengthField.word
    let bitCount ← Outcome.ofCount (n * 8)
    let needed ← Outcome.ofCount (4 + n)
    if bitCount < rows ∨ data.size < needed then Outcome.fail (.decode .truncatedBitmap)
    else
      let (inner, bitmap) ← front.cutBack n
      let bits := Bits.unpack (bitmap.slice 0 (bitmapSize rows)).toList
      return (inner, bits.take rows, bits.drop rows)

/-- Slots with these values and flags, of which there must be equally many. -/
def ofParts (values : List α) (flags padding : List Bool) : Outcome (Slots α) :=
  if values.length = flags.length then
    .ok ⟨(List.zipWith Slot.mk values flags).toArray, padding⟩
  else Outcome.abort .unalignedFlags

/-! ## Fixed-width values -/

def encodeFixed [FixedWidth α] (s : Slots α) : Bytes :=
  s.values.flatMap FixedWidth.encode ++ s.encodeFlags

def decodeFixed (α : Type) [FixedWidth α] (data : Buffer) (rows : Nat) : Outcome (Slots α) := do
  let (inner, flags, padding) ← decodeFlags data rows
  let expected ← Outcome.ofCount (rows * FixedWidth.width α)
  if inner.size ≠ expected then
    Outcome.fail (.decode (.valueBytes expected inner.size))
  else
    ofParts (← FixedWidth.readMany α rows inner.toList) flags padding

/-! ## Byte strings -/

/-- The end offsets of values of these lengths laid out from `start` on. -/
def endOffsets : (start : Nat) → (values : List Bytes) → Outcome (List Nat)
  | _, [] => return []
  | start, v :: vs =>
    if start + v.length < wordLimit then
      return (start + v.length) :: (← endOffsets (start + v.length) vs)
    else Outcome.fail (.illegalState .chunkTooLong)

def encodeBytes (s : Slots Bytes) : Outcome Bytes := do
  let offsets ← endOffsets 0 s.values
  return offsets.flatMap (LittleEndian.encode 4) ++ s.values.flatten ++ s.encodeFlags

/-- The values that end at the given offsets, one after the other from `start` on. -/
def cutValues (contents : Buffer) : (start : Nat) → (offsets : List Nat) → Outcome (List Bytes)
  | _, [] => return []
  | start, stop :: offsets =>
    if stop < start ∨ contents.size < stop then Outcome.fail (.decode .invalidOffset)
    else return (contents.slice start stop).toList :: (← cutValues contents stop offsets)

/-- The first `n` words of four bytes. -/
def readOffsets : (n : Nat) → Bytes → Outcome (List Nat)
  | 0, _ => return []
  | n + 1, bs => do
    let (word, rest) ← Bytes.readWord 4 bs
    return word :: (← readOffsets n rest)

def decodeBytes (data : Buffer) (rows : Nat) : Outcome (Slots Bytes) := do
  let (inner, flags, padding) ← decodeFlags data rows
  let headSize ← Outcome.ofCount (rows * 4)
  if inner.size < headSize then Outcome.fail (.decode .truncatedOffsets)
  else
    let (head, contents) ← inner.cutFront headSize
    let _ ← Outcome.ofLength rows
    let offsets ← readOffsets rows head.toList
    ofParts (← cutValues contents 0 offsets) flags padding

end Slots

/-! ## Chunks -/

/-- The length of a block's trailer. -/
def trailerSize : Nat := 16

namespace Chunk

/-! ## Data -/

/-- The data of plain slots. -/
def encodePlain : (k : Kind) → Slots k.Value → Outcome Bytes
  | .int, s => return Slots.encodeFixed (α := Int32) s
  | .long, s => return Slots.encodeFixed (α := Int64) s
  | .double, s => return Slots.encodeFixed (α := Double) s
  | .boolean, s => return Slots.encodeFixed (α := Bool) s
  | .string, s | .rowKey, s | .binary, s => s.encodeBytes

def decodePlain (data : Buffer) (rows : Nat) : (k : Kind) → Outcome (Slots k.Value)
  | .int => Slots.decodeFixed Int32 data rows
  | .long => Slots.decodeFixed Int64 data rows
  | .double => Slots.decodeFixed Double data rows
  | .boolean => Slots.decodeFixed Bool data rows
  | .string | .rowKey | .binary => Slots.decodeBytes data rows

def encodeData : Chunk → Outcome Bytes
  | plain k s => encodePlain k s
  | paired inner s => do
    let data ← inner.encodeData
    if data.length < wordLimit then
      return LittleEndian.encode 4 data.length ++ data ++ (← s.encodeBytes)
    else Outcome.fail (.illegalState .innerTooLong)

def decodeData : ChunkSpec → Buffer → Nat → Outcome Chunk
  | .plain k, data, rows => return plain k (← decodePlain data rows k)
  | .paired spec, data, rows => do
    if data.size < 4 then Outcome.fail (.decode .innerLength)
    else
      let (lengthField, rest) ← data.cutFront 4
      let n := lengthField.word
      let needed ← Outcome.ofCount (4 + n)
      if data.size < needed then Outcome.fail (.decode .truncatedInner)
      else
        let (inner, supplement) ← rest.cutFront n
        return paired (← decodeData spec inner rows) (← Slots.decodeBytes supplement rows)

/-! ## Complete blocks -/

def encodeTrailer (layout : Layout) (type : ChecksumType) (checksum : UInt64) : Bytes :=
  LittleEndian.encode 4 layout.code ++ LittleEndian.encode 4 type.code ++
    LittleEndian.encode 8 checksum.toNat

/-- Layout, checksum type and checksum of a trailer. -/
def decodeTrailer (bs : Bytes) : Outcome (Layout × ChecksumType × UInt64) := do
  let (layoutCode, bs) ← Bytes.readWord 4 bs
  let layout ← Outcome.ofOption (.decode .layoutCode) (Layout.ofCode? layoutCode)
  let (typeCode, bs) ← Bytes.readWord 4 bs
  let type ← ChecksumType.ofCode typeCode
  let (checksum, _) ← Bytes.readWord 8 bs
  return (layout, type, UInt64.ofNat checksum)

/-- The block of a chunk. It fails only if a length does not fit in 32 bits. -/
def encodeBlock (type : ChecksumType) (c : Chunk) : Outcome Bytes := do
  let data ← c.encodeData
  return data ++ encodeTrailer c.spec.layout type (type.build (Buffer.ofList data))

/-- The chunk of a block. -/
def decodeBlock (spec : ChunkSpec) (rows : Nat) (block : Buffer) : Outcome Chunk := do
  if block.size < trailerSize then Outcome.fail (.decode .blockWithoutTrailer)
  else
    let (data, trailer) ← block.cutBack trailerSize
    let (layout, type, checksum) ← decodeTrailer trailer.toList
    if layout ≠ spec.layout then Outcome.fail (.decode (.layoutMismatch layout spec))
    else
      type.verify data checksum
      decodeData spec data rows

end Chunk

end Columnar
