import Columnar.Decimal
import Columnar.Text.Quoted

/-!
# Cells

A cell is one value of a row: a value of a built-in class, a missing value with an optional cause,
a cell of an extension class with an opaque payload, or the mark of a column that was left out of
a partial read.

`=` on cells compares doubles by their bits. `Cell.sameValue` is the comparison by value, under
which a NaN differs from itself.
-/

namespace Columnar

/-- The built-in cell classes, which are also the column types stored natively. -/
inductive Primitive
  | int | long | double | boolean | string
deriving DecidableEq

/-- The class name under which a built-in class is registered. -/
def Primitive.className : Primitive → String
  | .int => "int"
  | .long => "long"
  | .double => "double"
  | .boolean => "boolean"
  | .string => "string"

def Primitive.all : List Primitive := [.int, .long, .double, .boolean, .string]

/-- A cell of a class without a built-in representation. -/
structure ExtensionCell where
  className : String
  /-- The cell seen as a number, if it can be. -/
  numeric : Option Double
  payload : Bytes
deriving DecidableEq

/-- One value of a row. -/
inductive Cell
  | int (v : Int32)
  | long (v : Int64)
  | double (v : Double)
  | boolean (v : Bool)
  | string (v : String)
  | missing (cause : Option String)
  | unmaterialized
  | extension (v : ExtensionCell)
deriving DecidableEq

namespace Cell

/-- The name that selects a serializer. Missing and unmaterialized cells have none. -/
def className? : Cell → Option String
  | int _ => some Primitive.int.className
  | long _ => some Primitive.long.className
  | double _ => some Primitive.double.className
  | boolean _ => some Primitive.boolean.className
  | string _ => some Primitive.string.className
  | extension e => some e.className
  | missing _ | unmaterialized => none

def isMissing : Cell → Bool
  | missing _ => true
  | _ => false

def isUnmaterialized : Cell → Bool
  | unmaterialized => true
  | _ => false

/-- The cell as a double, rounded if it is a large integer. -/
def numeric? : Cell → Option Double
  | int v => some (Double.ofInt v.toInt)
  | long v => some (Double.ofInt v.toInt)
  | double v => some v
  | extension e => e.numeric
  | _ => none

/-- The cell as a 64-bit integer. -/
def long? : Cell → Option Int64
  | int v => some v.toInt64
  | long v => some v
  | _ => none

/-- Equality of two optional numbers by value. -/
def sameNumber? : Option Double → Option Double → Bool
  | some a, some b => a.sameNumber b
  | none, none => true
  | _, _ => false

/-- Equality by value. -/
def sameValue : Cell → Cell → Bool
  | double a, double b => a.sameNumber b
  | extension a, extension b =>
    a.className == b.className && sameNumber? a.numeric b.numeric && a.payload == b.payload
  | a, b => a == b

/-! ## Text -/

/-- The text shown to a reader. -/
def text : Cell → String
  | int v => toString v.toInt
  | long v => toString v.toInt
  | double v => v.format .plain
  | boolean v => if v then "true" else "false"
  | string v => v
  | missing none => "MISSING"
  | missing (some cause) => "MISSING(" ++ cause ++ ")"
  | unmaterialized => "?"
  | extension ⟨name, some v, _⟩ => name ++ "(" ++ v.format .plain ++ ")"
  | extension ⟨name, none, payload⟩ => name ++ "[" ++ toString payload.length ++ " bytes]"

/-- An optional value in diagnostics. -/
def literalOption (f : α → String) : Option α → String
  | none => "None"
  | some a => "Some(" ++ f a ++ ")"

/-- The unambiguous text used in diagnostics, which names the class and quotes text. -/
def literal : Cell → String
  | int v => "Int(" ++ toString v.toInt ++ ")"
  | long v => "Long(" ++ toString v.toInt ++ ")"
  | double v => "Double(" ++ v.format .literal ++ ")"
  | boolean v => "Boolean(" ++ (if v then "true" else "false") ++ ")"
  | string v => "String(" ++ Text.quote v ++ ")"
  | missing cause => "Missing(" ++ literalOption Text.quote cause ++ ")"
  | unmaterialized => "Unmaterialized"
  | extension e =>
    "Extension(ExtensionCell \x7b class_name: " ++ Text.quote e.className ++
      ", numeric: " ++ literalOption (Double.format .literal) e.numeric ++
      ", payload: " ++ Text.quoteBytes e.payload ++ " \x7d)"

end Cell

end Columnar
