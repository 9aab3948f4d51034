import Columnar.Bytes.LittleEndian

/-!
# Text as UTF-8 bytes

`encode` gives the UTF-8 bytes of a text. `decode` accepts exactly the well-formed byte strings
and otherwise says where the first ill-formed sequence begins and how long it is. `decodeLossy`
puts a replacement character in the place of every ill-formed sequence.

**Ill-formed sequences** are maximal: a sequence ends before the first byte that cannot continue
it, and it is *incomplete* if the bytes run out instead.

Main statement: `decode_encode`.
-/

namespace Columnar.Utf8

/-- The UTF-8 bytes of a text. -/
def encode (s : String) : Bytes := s.toByteArray.data.toList

/-- The first ill-formed sequence of a byte string, with its length unless it is incomplete. -/
structure Fault where
  start : Nat
  length? : Option Nat
deriving DecidableEq

def Fault.message : Fault → String
  | ⟨start, some n⟩ =>
    "invalid utf-8 sequence of " ++ toString n ++ " bytes from index " ++ toString start
  | ⟨start, none⟩ => "incomplete utf-8 byte sequence from index " ++ toString start

/-- What stands at the front of a byte string. -/
inductive Front
  | character (width : Nat)
  | invalid (width : Nat)
  | incomplete

def isContinuation (b : UInt8) : Bool := 0x80 ≤ b && b ≤ 0xBF

/-- Judge the bytes after a lead byte: the second must lie in `lo … hi`, all later ones must be
continuation bytes. -/
def followers (lo hi : UInt8) : (count : Nat) → (seen : Nat) → Bytes → Front
  | 0, seen, _ => .character seen
  | _ + 1, _, [] => .incomplete
  | n + 1, seen, b :: bs =>
    if lo ≤ b && b ≤ hi then followers 0x80 0xBF n (seen + 1) bs else .invalid seen

/-- What stands at the front of `b :: bs`. -/
def front (b : UInt8) (bs : Bytes) : Front :=
  if b < 0x80 then .character 1
  else if b < 0xC2 then .invalid 1
  else if b < 0xE0 then followers 0x80 0xBF 1 1 bs
  else if b = 0xE0 then followers 0xA0 0xBF 2 1 bs
  else if b = 0xED then followers 0x80 0x9F 2 1 bs
  else if b < 0xF0 then followers 0x80 0xBF 2 1 bs
  else if b = 0xF0 then followers 0x90 0xBF 3 1 bs
  else if b < 0xF4 then followers 0x80 0xBF 3 1 bs
  else if b = 0xF4 then followers 0x80 0x8F 3 1 bs
  else .invalid 1

/-- The first ill-formed sequence at or after `index`, which is where the bytes begin. -/
def firstFault : (fuel : Nat) → (index : Nat) → Bytes → Fault
  | 0, index, _ => ⟨index, none⟩
  | _ + 1, index, [] => ⟨index, none⟩
  | fuel + 1, index, b :: bs =>
    match front b bs with
    | .character w => firstFault fuel (index + w) ((b :: bs).drop w)
    | .invalid w => ⟨index, some w⟩
    | .incomplete => ⟨index, none⟩

/-- The text with these UTF-8 bytes, or the first fault. -/
def decode (bs : Bytes) : Except Fault String :=
  match String.fromUTF8? ⟨bs.toArray⟩ with
  | some s => .ok s
  | none => .error (firstFault bs.length 0 bs)

/-- The UTF-8 bytes of the replacement character. -/
def replacement : Bytes := [0xEF, 0xBF, 0xBD]

/-- The bytes with every ill-formed sequence replaced. -/
def repair : (fuel : Nat) → Bytes → Bytes
  | 0, _ => []
  | _ + 1, [] => []
  | fuel + 1, b :: bs =>
    match front b bs with
    | .character w => (b :: bs).take w ++ repair fuel ((b :: bs).drop w)
    | .invalid w => replacement ++ repair fuel ((b :: bs).drop w)
    | .incomplete => replacement

/-- The text with these UTF-8 bytes, replacement characters standing for what is ill formed. -/
def decodeLossy (bs : Bytes) : String :=
  match String.fromUTF8? ⟨bs.toArray⟩ with
  | some s => s
  | none => (String.fromUTF8? ⟨(repair bs.length bs).toArray⟩).getD ""

theorem fromUTF8?_encode (s : String) : String.fromUTF8? ⟨(encode s).toArray⟩ = some s := by
  have h : (⟨(encode s).toArray⟩ : ByteArray) = s.toByteArray := by simp [encode]
  rw [h, String.fromUTF8?, dif_pos s.isValidUTF8]
  rfl

@[simp] theorem decode_encode (s : String) : decode (encode s) = .ok s := by
  simp [decode, fromUTF8?_encode]

@[simp] theorem decodeLossy_encode (s : String) : decodeLossy (encode s) = s := by
  simp [decodeLossy, fromUTF8?_encode]

end Columnar.Utf8
