import Columnar.Text.Quoted

/-!
# Tokens of settings files

Settings files are JSON of a restricted form: no fractions, no exponents and no null occur. A text
is first split into tokens, between which blanks do not count.

**Text tokens** are quoted. Control characters, quotation marks and backslashes are escaped when
written; when read, every escape of JSON is understood, a code point above the basic plane being
a pair of surrogate escapes, and an unescaped control character is refused.

**Numbers** have no leading zeros, and there is no negative zero. One that no entry can hold for
its length alone is refused here.
-/

namespace Columnar

inductive Token
  | openBrace | closeBrace | openBracket | closeBracket | colon | comma
  | text (s : String)
  | int (i : Int)
  | bool (b : Bool)
deriving DecidableEq

namespace Token

/-! ## Writing -/

/-- How a character stands in a quoted text. -/
def escape (c : Char) : List Char :=
  if c = '"' ∨ c = '\\' then ['\\', c]
  else if c.toNat = 8 then ['\\', 'b']
  else if c.toNat = 9 then ['\\', 't']
  else if c.toNat = 10 then ['\\', 'n']
  else if c.toNat = 12 then ['\\', 'f']
  else if c.toNat = 13 then ['\\', 'r']
  else if c < ' ' then '\\' :: 'u' :: '0' :: '0' :: Hex.byte (UInt8.ofNat c.toNat)
  else [c]

/-- A text between quotation marks. -/
def quoted (s : String) : List Char := '"' :: s.toList.flatMap escape ++ ['"']

/-- An integer in decimal. -/
def decimal (i : Int) : List Char :=
  if i < 0 then '-' :: Nat.toDigits 10 i.natAbs else Nat.toDigits 10 i.natAbs

/-! ## Reading -/

def isBlank (c : Char) : Bool := c = ' ' || c = '\n' || c = '\t' || c = '\r'

/-- The number written in four hexadecimal digits. -/
def hex4? (a b c d : Char) : Option Nat := do
  let high := (← Hex.digit? a) * 16 + (← Hex.digit? b)
  let low := (← Hex.digit? c) * 16 + (← Hex.digit? d)
  return high * 256 + low

/-- The character of a short escape. -/
def unescape? : Char → Option Char
  | '"' => some '"'
  | '\\' => some '\\'
  | '/' => some '/'
  | 'b' => some (Char.ofNat 8)
  | 't' => some '\t'
  | 'n' => some '\n'
  | 'f' => some (Char.ofNat 12)
  | 'r' => some '\r'
  | _ => none

/-- The characters up to the closing quotation mark, and what follows it. -/
def readText : List Char → Option (List Char × List Char)
  | [] => none
  | '"' :: rest => some ([], rest)
  | '\\' :: 'u' :: a :: b :: c :: d :: rest => do
    let n ← hex4? a b c d
    if 0xD800 ≤ n ∧ n < 0xDC00 then
      match rest with
      | '\\' :: 'u' :: e :: f :: g :: h :: rest =>
        let m ← hex4? e f g h
        if 0xDC00 ≤ m ∧ m < 0xE000 then
          let (cs, rest) ← readText rest
          return (Char.ofNat (0x10000 + (n - 0xD800) * 0x400 + (m - 0xDC00)) :: cs, rest)
        else none
      | _ => none
    else if 0xDC00 ≤ n ∧ n < 0xE000 then none
    else
      let (cs, rest) ← readText rest
      return (Char.ofNat n :: cs, rest)
  | '\\' :: e :: rest => do
    let c ← unescape? e
    let (cs, rest) ← readText rest
    return (c :: cs, rest)
  | c :: rest =>
    if c < ' ' ∨ c = '\\' then none
    else do
      let (cs, rest) ← readText rest
      return (c :: cs, rest)

/-- The most digits read as a number, which is more than any integer of 64 bits has. -/
def maxDigits : Nat := 20

/-- The natural number at the front, and what follows it: one zero, or digits that do not begin
with zero. Neither may be followed by a fraction or an exponent. -/
def readNat (cs : List Char) : Option (Nat × List Char) :=
  let digits := cs.takeWhile Char.isDigit
  let n := digits.length
  if n = 0 ∨ maxDigits < n ∨ (digits.head? = some '0' ∧ 1 < n) then none
  else
    match cs.dropWhile Char.isDigit with
    | '.' :: _ | 'e' :: _ | 'E' :: _ => none
    | rest => some (Nat.ofDigitChars 10 digits 0, rest)

/-- The tokens of a text. -/
def lex : (fuel : Nat) → List Char → Option (List Token)
  | _, [] => some []
  | 0, _ :: _ => none
  | fuel + 1, c :: cs =>
    if isBlank c then lex fuel cs
    else if c = '"' then do
      let (s, rest) ← readText cs
      return text (String.ofList s) :: (← lex fuel rest)
    else if c = '-' then do
      let (n, rest) ← readNat cs
      if n = 0 then none else return int (-n) :: (← lex fuel rest)
    else if c.isDigit then do
      let (n, rest) ← readNat (c :: cs)
      return int n :: (← lex fuel rest)
    else
      match c, cs with
      | '\x7b', rest => return openBrace :: (← lex fuel rest)
      | '\x7d', rest => return closeBrace :: (← lex fuel rest)
      | '[', rest => return openBracket :: (← lex fuel rest)
      | ']', rest => return closeBracket :: (← lex fuel rest)
      | ':', rest => return colon :: (← lex fuel rest)
      | ',', rest => return comma :: (← lex fuel rest)
      | 't', 'r' :: 'u' :: 'e' :: rest => return bool true :: (← lex fuel rest)
      | 'f', 'a' :: 'l' :: 's' :: 'e' :: rest => return bool false :: (← lex fuel rest)
      | _, _ => none

end Token

end Columnar
