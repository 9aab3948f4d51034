import Columnar.Error

/-!
# Cutting byte strings and fixed-width values

Decoders take byte strings apart from both ends. A cut past the end is a defect of the decoder,
which must have checked the length before, so it aborts the run.

**Values** stored in arrays are integers of 32 and 64 bits, doubles and booleans, each in a fixed
number of bytes, lowest first. A boolean is one byte, and every byte other than zero reads as true.
-/

namespace Columnar.Bytes

/-! ## Cuts -/

/-- The first `n` bytes and the rest. -/
def cutFront (n : Nat) (bs : Bytes) : Outcome (Bytes × Bytes) :=
  let head := bs.take n
  if head.length = n then .ok (head, bs.drop n) else Outcome.abort .overrun

/-- All but the last `n` bytes, and those. -/
def cutBack (n : Nat) (bs : Bytes) : Outcome (Bytes × Bytes) :=
  if n ≤ bs.length then .ok (bs.take (bs.length - n), bs.drop (bs.length - n))
  else Outcome.abort .overrun

theorem cutFront_append (a b : Bytes) : cutFront a.length (a ++ b) = .ok (a, b) := by
  simp [cutFront]

theorem cutBack_append (a b : Bytes) : cutBack b.length (a ++ b) = .ok (a, b) := by
  simp [cutBack]

/-- The little-endian number in the first `width` bytes, and the rest. -/
def readWord (width : Nat) (bs : Bytes) : Outcome (Nat × Bytes) := do
  let (word, rest) ← cutFront width bs
  return (LittleEndian.decode word, rest)

theorem readWord_encode_append {width n : Nat} (h : n < LittleEndian.limit width) (rest : Bytes) :
    readWord width (LittleEndian.encode width n ++ rest) = .ok (n, rest) := by
  have hcut := cutFront_append (LittleEndian.encode width n) rest
  rw [LittleEndian.length_encode] at hcut
  simp only [readWord, hcut, bind, Except.bind, LittleEndian.decode_encode h]
  rfl

/-- Bytes enough for a word are those of a word and the rest. -/
theorem exists_encode_append {width : Nat} {bs : Bytes} (h : width ≤ bs.length) :
    ∃ n rest, n < LittleEndian.limit width ∧ bs = LittleEndian.encode width n ++ rest := by
  have hhead : (bs.take width).length = width := List.length_take_of_le h
  have hlt := LittleEndian.decode_lt (bs.take width)
  have hencode := LittleEndian.encode_decode (bs.take width)
  rw [hhead] at hlt hencode
  exact ⟨_, bs.drop width, hlt, by rw [hencode, List.take_append_drop]⟩

/-- A word is as small as its bytes allow. -/
theorem lt_of_readWord {width n : Nat} {bs rest : Bytes} (h : readWord width bs = .ok (n, rest)) :
    n < LittleEndian.limit width := by
  obtain ⟨⟨word, rest'⟩, hcut, h⟩ := Outcome.bind_eq_ok h
  cases h
  unfold cutFront at hcut
  dsimp only at hcut
  split at hcut
  · rename_i hlen
    cases hcut
    have hlt := LittleEndian.decode_lt (bs.take width)
    rwa [hlen] at hlt
  · cases hcut

end Columnar.Bytes

namespace Columnar

/-! ## Values -/

class FixedWidth (α : Type) where
  width : Nat
  encode : α → Bytes
  /-- The value of exactly `width` bytes. -/
  decode : Bytes → α
  width_le : width ≤ 8 := by decide

instance : FixedWidth Int32 where
  width := 4
  encode v := LittleEndian.encode 4 v.toUInt32.toNat
  decode bs := (UInt32.ofNat (LittleEndian.decode bs)).toInt32

instance : FixedWidth Int64 where
  width := 8
  encode v := LittleEndian.encode 8 v.toUInt64.toNat
  decode bs := (UInt64.ofNat (LittleEndian.decode bs)).toInt64

instance : FixedWidth Double where
  width := 8
  encode v := LittleEndian.encode 8 v.bits.toNat
  decode bs := ⟨UInt64.ofNat (LittleEndian.decode bs)⟩

instance : FixedWidth Bool where
  width := 1
  encode v := [if v then 1 else 0]
  decode bs := LittleEndian.decode bs != 0

namespace FixedWidth

variable (α : Type) [FixedWidth α]

/-- The bytes of as many values as a bitmap can have flags for. -/
theorem ofCount_width {n : Nat} (h : n < 8 * wordLimit) :
    Outcome.ofCount (n * width α) = .ok (n * width α) := by
  have hle : n * width α ≤ n * 8 := Nat.mul_le_mul_left n width_le
  rw [wordLimit] at h
  exact Outcome.ofCount_of_lt (by omega)

/-- The first value of a byte string, and the rest. -/
def read (bs : Bytes) : Outcome (α × Bytes) := do
  let (head, rest) ← Bytes.cutFront (width α) bs
  return (decode head, rest)

/-- The first `n` values of a byte string. -/
def readMany : (n : Nat) → Bytes → Outcome (List α)
  | 0, _ => return []
  | n + 1, bs => do
    let (v, rest) ← read α bs
    return v :: (← readMany n rest)

end FixedWidth

end Columnar
