/-!
# Doubles and their text

The text of a double is the shortest decimal that reads back. Every finite positive double stands for
an interval of reals that round to it. Among the decimals in that interval, `shortest` takes one with
the fewest significant digits and, of those, the one nearest to the double; an exact tie goes to the
larger.

**Grids.** The decimals with `n` significant digits near the value form a grid of step
`10 ^ (k + 1 - n)`, where `k` is the exponent of the value's leading digit. If any grid point lies
in the interval, so does one of the value's two neighbours on that grid; it is enough to test
those. Seventeen digits always suffice.

**Styles.** A `Style` says where positional notation ends and whether a whole number keeps a decimal
place; the digits are those of `Decimal.shortest`. `Style.plain` is the text of a cell,
`Style.literal` the text that marks a number as a double in diagnostics.
-/

namespace Columnar

/-! ## Doubles -/

/-- A double-precision number, given by its bits. -/
structure Double where
  bits : UInt64
deriving DecidableEq

namespace Double

def zero : Double := ⟨0⟩

def isNegative (d : Double) : Bool := 0x8000000000000000 ≤ d.bits.toNat

/-- The exponent field, without its bias. -/
def exponent (d : Double) : Nat := d.bits.toNat / 0x10000000000000 % 0x800

/-- The fraction field. -/
def fraction (d : Double) : Nat := d.bits.toNat % 0x10000000000000

def isNaN (d : Double) : Bool := d.exponent == 2047 && d.fraction != 0

def isInfinite (d : Double) : Bool := d.exponent == 2047 && d.fraction == 0

def isZero (d : Double) : Bool := d.exponent == 0 && d.fraction == 0

/-- Numeric equality: no NaN equals anything, and the two zeros are equal. -/
def sameNumber (a b : Double) : Bool :=
  !a.isNaN && !b.isNaN && (a.bits == b.bits || a.isZero && b.isZero)

/-- A finite double is `significand · 2 ^ scale` up to its sign. -/
def significand (d : Double) : Nat :=
  if d.exponent = 0 then d.fraction else 0x10000000000000 + d.fraction

def scale (d : Double) : Int :=
  if d.exponent = 0 then -1074 else d.exponent - 1075

/-- The quotient `n / 2 ^ k` rounded to the nearest integer, ties to the even one. -/
def roundShift (n k : Nat) : Nat :=
  let unit := 1 <<< k
  let q := n / unit
  let r := n % unit
  if 2 * r > unit || (2 * r == unit && q % 2 == 1) then q + 1 else q

/-- The bits of the double nearest to a positive natural number below `2 ^ 1023`. A significand
that rounds up to `2 ^ 53` carries into the exponent field, which is the right result. -/
def bitsOfNat (n : Nat) : Nat :=
  if n = 0 then 0
  else
    let e := n.log2
    let m := if e ≤ 52 then n <<< (52 - e) else roundShift n (e - 52)
    (e + 1022) * 0x10000000000000 + m

/-- The double nearest to an integer, ties to even. -/
def ofInt : Int → Double
  | .ofNat n => ⟨UInt64.ofNat (bitsOfNat n)⟩
  | .negSucc n => ⟨UInt64.ofNat (0x8000000000000000 + bitsOfNat (n + 1))⟩

end Double

end Columnar

namespace Columnar.Decimal

/-! ## The shortest decimal -/

/-- A positive rational number given as a quotient. -/
structure Ratio where
  num : Nat
  den : Nat

/-- The decimal `digits · 10 ^ exponent`. -/
structure Digits where
  digits : Nat
  exponent : Int

/-- `n · 2 ^ e` as a quotient. -/
def Ratio.ofScaled (n : Nat) : Int → Ratio
  | .ofNat e => ⟨n <<< e, 1⟩
  | .negSucc e => ⟨n, 1 <<< (e + 1)⟩

/-- The number of decimal digits of `n`, at least one. -/
def digitCount (n : Nat) : Nat := (Nat.toDigits 10 n).length

/-- The least `j` from `start` on, among `fuel` candidates, with `den ≤ num · 10 ^ j`. -/
def leadingZeros (num den : Nat) : Nat → Nat → Nat
  | 0, start => start
  | fuel + 1, start =>
    if den ≤ num * Nat.pow 10 start then start else leadingZeros num den fuel (start + 1)

/-- The exponent `k` with `10 ^ k ≤ r < 10 ^ (k + 1)`. -/
def Ratio.leadingExponent (r : Ratio) : Int :=
  if r.den ≤ r.num then (digitCount (r.num / r.den) : Int) - 1
  else -(leadingZeros r.num r.den 400 1 : Int)

/-- The reals that round to one double: `lower / den` and `upper / den` around `value / den`,
the two ends included or not. -/
structure Interval where
  lower : Nat
  value : Nat
  upper : Nat
  den : Nat
  closed : Bool

/-- The rounding interval of a finite nonzero double, with all three points over a denominator
that is a multiple of four. Below a power of two the next double is only half a step away. -/
def Interval.ofDouble (d : Double) : Interval :=
  let m := d.significand
  let below := if d.fraction = 0 && 1 < d.exponent then 1 else 2
  let point (n : Nat) : Ratio := Ratio.ofScaled n (d.scale - 2)
  let v := point (4 * m)
  ⟨(point (4 * m - below)).num, v.num, (point (4 * m + 2)).num, v.den, m % 2 == 0⟩

/-- Whether `c · 10 ^ g` lies in the interval. -/
def Interval.contains (i : Interval) (c : Nat) (g : Int) : Bool :=
  let p := match g with
    | .ofNat g => c * Nat.pow 10 g * i.den
    | .negSucc _ => c * i.den
  let scaleBy := match g with
    | .ofNat _ => 1
    | .negSucc g => Nat.pow 10 (g + 1)
  if i.closed then i.lower * scaleBy ≤ p && p ≤ i.upper * scaleBy
  else i.lower * scaleBy < p && p < i.upper * scaleBy

/-- The value in units of `10 ^ g`, as whole part, remainder and divisor. -/
def Interval.gridFloor (i : Interval) : Int → Nat × Nat × Nat
  | .ofNat g =>
    let step := i.den * Nat.pow 10 g
    (i.value / step, i.value % step, step)
  | .negSucc g =>
    let value := i.value * Nat.pow 10 (g + 1)
    (value / i.den, value % i.den, i.den)

/-- The better of the value's two neighbours on the grid of step `10 ^ g`, if one is inside. -/
def Interval.onGrid? (i : Interval) (g : Int) : Option Nat :=
  let (c, r, step) := i.gridFloor g
  match i.contains c g, i.contains (c + 1) g with
  | true, true => some (if 2 * r < step then c else c + 1)
  | true, false => some c
  | false, true => some (c + 1)
  | false, false => none

/-- Drop the trailing zeros of the digits. -/
def Digits.normalize : Nat → Digits → Digits
  | 0, d => d
  | fuel + 1, d =>
    if d.digits ≠ 0 ∧ d.digits % 10 = 0 then normalize fuel ⟨d.digits / 10, d.exponent + 1⟩ else d

/-- The first grid, from `n` significant digits on, that meets the interval. -/
def Interval.search (i : Interval) (k : Int) : Nat → Nat → Digits
  | 0, n => ⟨(i.gridFloor (k + 1 - n)).1, k + 1 - n⟩
  | fuel + 1, n =>
    match i.onGrid? (k + 1 - n) with
    | some c => ⟨c, k + 1 - n⟩
    | none => i.search k fuel (n + 1)

/-- The shortest decimal of a finite nonzero double, its sign left out. -/
def shortest (d : Double) : Digits :=
  let i := Interval.ofDouble d
  (i.search (Ratio.leadingExponent ⟨i.value, i.den⟩) 17 1).normalize 20

end Columnar.Decimal

namespace Columnar.Decimal

/-! ## Text -/

/-- How digits are laid out. -/
structure Style where
  /-- Whether a nonzero number of this leading exponent is written positionally. -/
  positional : Int → Bool
  /-- Whether a whole number written positionally ends in `.0`. -/
  keepsPlace : Bool

/-- Always positional, whole numbers without a decimal place. -/
def Style.plain : Style := ⟨fun _ => true, false⟩

/-- Positional from `1e-4` to below `1e16`, and always with a decimal place there. -/
def Style.literal : Style := ⟨fun k => -4 ≤ k && k < 16, true⟩

/-- `digits · 10 ^ exponent` written without exponent. -/
def positionalText (keepsPlace : Bool) (ds : List Char) : Int → String
  | .ofNat e =>
    String.ofList (ds ++ List.replicate e '0') ++ (if keepsPlace then ".0" else "")
  | .negSucc e =>
    let places := e + 1
    if places < ds.length then
      String.ofList (ds.take (ds.length - places) ++ '.' :: ds.drop (ds.length - places))
    else
      String.ofList ('0' :: '.' :: List.replicate (places - ds.length) '0' ++ ds)

/-- The digits with a point after the first, then `e` and the leading exponent. -/
def exponentText (ds : List Char) (leading : Int) : String :=
  let mantissa := match ds with
    | d :: [] => [d]
    | d :: rest => d :: '.' :: rest
    | [] => []
  String.ofList mantissa ++ "e" ++ toString leading

/-- The text of the magnitude of a finite double. -/
def magnitudeText (style : Style) (d : Double) : String :=
  if d.isZero then (if style.keepsPlace then "0.0" else "0")
  else
    let s := shortest d
    let ds := Nat.toDigits 10 s.digits
    let leading := s.exponent + ds.length - 1
    if style.positional leading then positionalText style.keepsPlace ds s.exponent
    else exponentText ds leading

end Columnar.Decimal

namespace Columnar

/-- The text of a double. The sign of zero is written, that of a NaN is not. -/
def Double.format (style : Decimal.Style) (d : Double) : String :=
  if d.isNaN then "NaN"
  else (if d.isNegative then "-" else "") ++
    (if d.isInfinite then "inf" else Decimal.magnitudeText style d)

end Columnar
