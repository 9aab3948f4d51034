import Columnar.Cell

/-!
# Chunk specs

A chunk spec is the physical representation of a column: a sequence of plain values of one kind,
or such a column paired with a supplement of byte strings.
-/

namespace Columnar

/-- The kinds of plain value a chunk can hold. -/
inductive Kind
  | int | long | double | boolean | string | rowKey | binary
deriving DecidableEq

namespace Kind

/-- The values of a kind. Text is kept as its UTF-8 bytes. -/
abbrev Value : Kind → Type
  | int => Int32
  | long => Int64
  | double => Double
  | boolean => Bool
  | string | rowKey | binary => Bytes

/-- The value of a slot that was never set. -/
def default : (k : Kind) → k.Value
  | int => 0
  | long => 0
  | double => Double.zero
  | boolean => false
  | string | rowKey | binary => []

/-- The byte that stands for the kind in a chunk file. -/
def tag : Kind → UInt8
  | int => 1
  | long => 2
  | double => 3
  | boolean => 4
  | string => 5
  | rowKey => 6
  | binary => 7

def ofTag? : UInt8 → Option Kind
  | 1 => some int
  | 2 => some long
  | 3 => some double
  | 4 => some boolean
  | 5 => some string
  | 6 => some rowKey
  | 7 => some binary
  | _ => none

theorem ofTag?_tag (k : Kind) : ofTag? k.tag = some k := by cases k <;> rfl

def text : Kind → String
  | int => "INT"
  | long => "LONG"
  | double => "DOUBLE"
  | boolean => "BOOLEAN"
  | string => "STRING"
  | rowKey => "ROWKEY"
  | binary => "VARBINARY"

end Kind

/-- The kind that stores the values of a built-in class. -/
def Primitive.kind : Primitive → Kind
  | .int => .int
  | .long => .long
  | .double => .double
  | .boolean => .boolean
  | .string => .string

/-- The physical representation of a column. -/
inductive ChunkSpec
  | plain (k : Kind)
  /-- A column together with a supplement of byte strings. -/
  | paired (inner : ChunkSpec)
deriving DecidableEq

def ChunkSpec.text : ChunkSpec → String
  | plain k => k.text
  | paired inner => "SUPPL(" ++ inner.text ++ ")"

/-- How the data part of an encoded chunk is laid out. -/
inductive Layout
  | fixed | varLength | supplemented
deriving DecidableEq

namespace Layout

/-- The number that stands for the layout in an encoded chunk. -/
def code : Layout → Nat
  | fixed => 1
  | varLength => 2
  | supplemented => 3

def ofCode? : Nat → Option Layout
  | 1 => some fixed
  | 2 => some varLength
  | 3 => some supplemented
  | _ => none

theorem ofCode?_code (l : Layout) : ofCode? l.code = some l := by cases l <;> rfl

theorem eq_code_of_ofCode? {n : Nat} {l : Layout} (h : ofCode? n = some l) : n = l.code := by
  unfold ofCode? at h
  split at h <;> cases h <;> rfl

def text : Layout → String
  | fixed => "Primitive"
  | varLength => "VarLen"
  | supplemented => "BinarySuppl"

end Layout

/-- The layout used for a chunk of this spec. -/
def ChunkSpec.layout : ChunkSpec → Layout
  | plain .int | plain .long | plain .double | plain .boolean => .fixed
  | plain .string | plain .rowKey | plain .binary => .varLength
  | paired _ => .supplemented

end Columnar
