/-!
# Byte strings, little-endian words and bitmaps

All integers on disk and in cell payloads are little endian. `LittleEndian.encode width n`
writes the `width` low bytes of `n`, lowest first, and `LittleEndian.decode` sums them back.

Main statements: `decode_encode` (nothing is lost when `n` fits) and `encode_decode` (a byte
string is the encoding of its own number), so the two sides determine each other.

**Bitmaps** pack flags eight to a byte, the first flag in the lowest bit. `Bits.unpack_pack` holds for
whole bytes of flags.
-/

namespace Columnar

/-- A byte string. -/
abbrev Bytes := List UInt8

/-- Numbers from here on do not fit in a word of four bytes. -/
def wordLimit : Nat := 0x100000000

/-- Numbers from here on do not fit in a signed number of eight bytes. -/
def longLimit : Nat := 0x8000000000000000

namespace LittleEndian

/-- How many numbers `width` bytes can hold. -/
def limit : Nat → Nat
  | 0 => 1
  | width + 1 => 256 * limit width

theorem longLimit_lt_limit : longLimit < limit 8 := by decide

/-- The `width` low bytes of `n`, lowest first. -/
def encode : Nat → Nat → Bytes
  | 0, _ => []
  | width + 1, n => UInt8.ofNat n :: encode width (n / 256)

/-- The number whose bytes are given, lowest first. -/
def decode : Bytes → Nat
  | [] => 0
  | b :: bs => b.toNat + 256 * decode bs

@[simp] theorem length_encode (width n : Nat) : (encode width n).length = width := by
  induction width generalizing n with
  | zero => rfl
  | succ w ih => simp [encode, ih]

theorem decode_encode {width n : Nat} (h : n < limit width) : decode (encode width n) = n := by
  induction width generalizing n with
  | zero => simp [limit] at h; simp [encode, decode, h]
  | succ w ih =>
    have hq : n / 256 < limit w := Nat.div_lt_of_lt_mul h
    simp only [encode, decode, ih hq, UInt8.toNat_ofNat']
    omega

theorem decode_lt (bs : Bytes) : decode bs < limit bs.length := by
  induction bs with
  | nil => simp [decode, limit]
  | cons b bs ih =>
    have hb := b.toNat_lt
    simp only [decode, List.length_cons, limit]
    omega

theorem encode_decode (bs : Bytes) : encode bs.length (decode bs) = bs := by
  induction bs with
  | nil => rfl
  | cons b bs ih =>
    have hb := b.toNat_lt
    have hq : (b.toNat + 256 * decode bs) / 256 = decode bs := by omega
    have hr : UInt8.ofNat (b.toNat + 256 * decode bs) = b := by
      apply UInt8.toNat_inj.mp
      simp only [UInt8.toNat_ofNat']
      omega
    simp only [List.length_cons, encode, decode, hq, ih, hr]

end LittleEndian

end Columnar

namespace Columnar.Bits

/-! ## Bitmaps -/

/-- The byte whose bits are given, lowest first. -/
def packByte (bits : List Bool) : UInt8 :=
  UInt8.ofNat (bits.foldr (fun b n => b.toNat + 2 * n) 0)

/-- The eight bits of a byte, lowest first. -/
def unpackByte (b : UInt8) : List Bool := (List.range 8).map b.toNat.testBit

/-- Eight flags to a byte; a last byte that is not filled gets zeros. -/
def pack : List Bool → Bytes
  | [] => []
  | a :: b :: c :: d :: e :: f :: g :: h :: rest =>
    packByte [a, b, c, d, e, f, g, h] :: pack rest
  | rest => [packByte rest]

def unpack (bs : Bytes) : List Bool := bs.flatMap unpackByte

theorem unpackByte_packByte (a b c d e f g h : Bool) :
    unpackByte (packByte [a, b, c, d, e, f, g, h]) = [a, b, c, d, e, f, g, h] := by
  revert a b c d e f g h
  decide

@[simp] theorem length_unpack (bs : Bytes) : (unpack bs).length = 8 * bs.length := by
  induction bs with
  | nil => rfl
  | cons b bs ih =>
    simp only [unpack, List.flatMap_cons, List.length_append, List.length_cons] at ih ⊢
    rw [ih]
    simp [unpackByte]
    omega

theorem unpack_take (bs : Bytes) (n : Nat) : unpack (bs.take n) = (unpack bs).take (8 * n) := by
  induction bs generalizing n with
  | nil => simp [unpack]
  | cons b bs ih =>
    cases n with
    | zero => rfl
    | succ n =>
      have hn : 8 * (n + 1) = (unpackByte b).length + 8 * n := by
        simp [unpackByte, Nat.mul_succ, Nat.add_comm]
      simp only [unpack, List.take_succ_cons, List.flatMap_cons] at ih ⊢
      rw [ih, hn, List.take_length_add_append]

theorem unpack_pack {bits : List Bool} (h : bits.length % 8 = 0) : unpack (pack bits) = bits := by
  fun_induction pack bits with
  | case1 => rfl
  | case2 a b c d e f g h rest ih =>
    have hr : rest.length % 8 = 0 := by simp at *; omega
    simp only [unpack, List.flatMap_cons, unpackByte_packByte] at ih ⊢
    rw [ih hr]
    rfl
  | case3 rest hne hlong =>
    exfalso
    match rest, hne, hlong, h with
    | [_], _, _, h | [_, _], _, _, h | [_, _, _], _, _, h | [_, _, _, _], _, _, h
    | [_, _, _, _, _], _, _, h | [_, _, _, _, _, _], _, _, h
    | [_, _, _, _, _, _, _], _, _, h => simp at h
    | a :: b :: c :: d :: e :: f :: g :: i :: r, _, hlong, _ => exact hlong a b c d e f g i r rfl
    | [], hne, _, _ => exact hne rfl

theorem length_pack {bits : List Bool} (h : bits.length % 8 = 0) :
    8 * (pack bits).length = bits.length := by
  rw [← length_unpack, unpack_pack h]

end Columnar.Bits
