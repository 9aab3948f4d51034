import Columnar.Bytes.LittleEndian
import Columnar.Text.Graphic

/-!
# Quoted text in diagnostics

Messages that show a cell quote its text so that every character can be told apart: quotation
marks and backslashes are escaped by a backslash, the common control characters have short
escapes, and any other character that does not show is written as `\u` with its code point.
Byte strings are quoted byte by byte.

**Hexadecimal text** is two digits for each byte, written in lower case and read in either
(`Hex.decode?_encode`).
-/

namespace Columnar.Hex

/-! ## Hexadecimal text -/

/-- The value of a digit. -/
def digit? (c : Char) : Option Nat :=
  if '0' ≤ c ∧ c ≤ '9' then some (c.toNat - 48)
  else if 'a' ≤ c ∧ c ≤ 'f' then some (c.toNat - 87)
  else if 'A' ≤ c ∧ c ≤ 'F' then some (c.toNat - 55)
  else none

/-- The two digits of a byte. -/
def byte (b : UInt8) : List Char :=
  [Nat.digitChar (b.toNat / 16), Nat.digitChar (b.toNat % 16)]

/-- The digits of a byte string. -/
def encode (bs : Bytes) : List Char := bs.flatMap byte

/-- The byte string with these digits. -/
def decode? : List Char → Option Bytes
  | [] => some []
  | [_] => none
  | a :: b :: rest => do
    let high ← digit? a
    let low ← digit? b
    return UInt8.ofNat (16 * high + low) :: (← decode? rest)

theorem digit?_digitChar {n : Nat} (h : n < 16) : digit? (Nat.digitChar n) = some n := by
  revert n
  decide

theorem decode?_byte_append (b : UInt8) (cs : List Char) :
    decode? (byte b ++ cs) = (decode? cs).map (b :: ·) := by
  have hb : b.toNat < 256 := b.toNat_lt
  have hword : 16 * (b.toNat / 16) + b.toNat % 16 = b.toNat := by omega
  simp only [byte, List.cons_append, List.nil_append, decode?,
    digit?_digitChar (show b.toNat / 16 < 16 by omega),
    digit?_digitChar (show b.toNat % 16 < 16 by omega), Option.bind_eq_bind, Option.bind_some,
    hword, UInt8.ofNat_toNat]
  cases decode? cs <;> rfl

@[simp] theorem decode?_encode (bs : Bytes) : decode? (encode bs) = some bs := by
  induction bs with
  | nil => rfl
  | cons b bs ih =>
    rw [encode, List.flatMap_cons, decode?_byte_append]
    simp only [encode] at ih
    simp [ih]

end Columnar.Hex

namespace Columnar.Text

/-! ## Quotes -/

/-- The lower-case hexadecimal digits of `n`. -/
def hexDigits (n : Nat) : List Char := Nat.toDigits 16 n

/-- How one character of a text is quoted. -/
def quoteChar (c : Char) : List Char :=
  if c = '"' ∨ c = '\\' then ['\\', c]
  else if c = '\t' then ['\\', 't']
  else if c = '\n' then ['\\', 'n']
  else if c = '\r' then ['\\', 'r']
  else if c.toNat = 0 then ['\\', '0']
  else if ' ' ≤ c ∧ c ≤ '~' then [c]
  else if isShown c then [c]
  else "\\u\x7b".toList ++ hexDigits c.toNat ++ ['\x7d']

/-- A text between quotation marks. -/
def quote (s : String) : String :=
  String.ofList ('"' :: s.toList.flatMap quoteChar ++ ['"'])

/-- How one byte of a byte string is quoted. -/
def quoteByte (b : UInt8) : List Char :=
  let c := Char.ofNat b.toNat
  if c = '"' ∨ c = '\\' then ['\\', c]
  else if c = '\t' then ['\\', 't']
  else if c = '\n' then ['\\', 'n']
  else if c = '\r' then ['\\', 'r']
  else if b = 0 then ['\\', '0']
  else if ' ' ≤ c ∧ c ≤ '~' then [c]
  else '\\' :: 'x' :: Hex.byte b

/-- A byte string between quotation marks, marked by a `b`. -/
def quoteBytes (bs : Bytes) : String :=
  String.ofList ('b' :: '"' :: bs.flatMap quoteByte ++ ['"'])

end Columnar.Text
