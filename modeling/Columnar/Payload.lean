import Columnar.Action
import Columnar.Bytes.FixedWidth

/-!
# Cell payloads

**Streams.** A payload is a sequence of typed values. `StreamValue.write` gives the bytes of one
value; `StreamValue.read` takes one value of an expected kind off the front of the input, which is
the state of the action. What was read stays read, also if a value turns out to be cut short behind
its length. A byte string has its length in 32 bits in front. A text of less than 65535 bytes has its
length in 16 bits in front, a longer one 65535 and then its length in 32 bits.

**Serializers** write the cells of one class as a payload and read them back. There is one for each
built-in class, and one for every extension class, which writes the numeric view and the payload
of the cell. A registry finds serializers by name; a name may be an alias of another class.

**Class tags.** Within one table every cell class that occurs has a tag of one byte, handed out on
first use. The tags run upward from the least signed byte, so the classes in tag order say it all: the
tag of a class is its position, shifted. At most 127 classes fit. A serialized cell is the tag of its
class followed by the payload that the class's serializer writes. The tag is what leads back to the
serializer when the cell is read.
-/

namespace Columnar

/-! ## Streams -/

/-- The kinds of value in a payload. -/
inductive StreamKind
  | u8 | i8 | bool | i32 | i64 | f64 | bytes | text
deriving DecidableEq

/-- A value in a payload. -/
inductive StreamValue
  | u8 (v : UInt8)
  | i8 (v : Int8)
  | bool (v : Bool)
  | i32 (v : Int32)
  | i64 (v : Int64)
  | f64 (v : Double)
  | bytes (v : Bytes)
  | text (v : String)
deriving DecidableEq

namespace StreamValue

def kind : StreamValue → StreamKind
  | u8 _ => .u8
  | i8 _ => .i8
  | bool _ => .bool
  | i32 _ => .i32
  | i64 _ => .i64
  | f64 _ => .f64
  | bytes _ => .bytes
  | text _ => .text

/-- The 16-bit length that announces a 32-bit one. -/
def longText : Nat := 0xFFFF

def writeBytes (v : Bytes) : Bytes := LittleEndian.encode 4 v.length ++ v

def writeText (v : String) : Bytes :=
  let bs := Utf8.encode v
  if bs.length < longText then LittleEndian.encode 2 bs.length ++ bs
  else LittleEndian.encode 2 longText ++ LittleEndian.encode 4 bs.length ++ bs

/-- The bytes of a value. -/
def write : StreamValue → Bytes
  | u8 v => [v]
  | i8 v => [v.toUInt8]
  | bool v => FixedWidth.encode v
  | i32 v => FixedWidth.encode v
  | i64 v => FixedWidth.encode v
  | f64 v => FixedWidth.encode v
  | bytes v => writeBytes v
  | text v => writeText v

/-! ## Reading -/

/-- Take `n` bytes off the input. -/
def take (n : Nat) : Action Bytes Bytes := fun input =>
  let head := input.take n
  if head.length = n then (.ok head, input.drop n)
  else (Outcome.fail (.decode (.payloadTruncated n input.length)), input)

/-- Take a number of `width` bytes off the input. -/
def readLength (width : Nat) : Action Bytes Nat := return LittleEndian.decode (← take width)

def readFixed (α : Type) [FixedWidth α] : Action Bytes α :=
  return FixedWidth.decode (← take (FixedWidth.width α))

def readU8 : Action Bytes UInt8 := return UInt8.ofNat (← readLength 1)

def readBytes : Action Bytes Bytes := do take (← readLength 4)

def readText : Action Bytes String := do
  let short ← readLength 2
  let n ← if short = longText then readLength 4 else pure short
  match Utf8.decode (← take n) with
  | .ok s => return s
  | .error fault => Action.fail (.decode (.payloadText fault))

/-- Take a value of a kind off the input. -/
def read : StreamKind → Action Bytes StreamValue
  | .u8 => return u8 (← readU8)
  | .i8 => return i8 (← readU8).toInt8
  | .bool => return bool (← readFixed Bool)
  | .i32 => return i32 (← readFixed Int32)
  | .i64 => return i64 (← readFixed Int64)
  | .f64 => return f64 (← readFixed Double)
  | .bytes => return bytes (← readBytes)
  | .text => return text (← readText)

end StreamValue

/-! ## Serializers -/

inductive Serializer
  | builtin (p : Primitive)
  | extension (className : String)
deriving DecidableEq

namespace Serializer

/-- The class a serializer is made for. -/
def className : Serializer → String
  | builtin p => p.className
  | extension name => name

/-- The payload of a cell of the serializer's class. -/
def serialize (s : Serializer) (c : Cell) : Outcome Bytes :=
  match s, c with
  | builtin .int, .int v => .ok (StreamValue.i32 v).write
  | builtin .long, .long v => .ok (StreamValue.i64 v).write
  | builtin .double, .double v => .ok (StreamValue.f64 v).write
  | builtin .boolean, .boolean v => .ok (StreamValue.bool v).write
  | builtin .string, .string v => .ok (StreamValue.text v).write
  | extension name, .extension e =>
    if e.className = name then
      .ok <| (StreamValue.bool e.numeric.isSome).write ++
        (e.numeric.map fun v => (StreamValue.f64 v).write).getD [] ++
        (StreamValue.bytes e.payload).write
    else Outcome.fail (.illegalState (.serializerRefuses name c))
  | s, c => Outcome.fail (.illegalState (.serializerRefuses s.className c))

/-- Take a cell of the serializer's class off the input. -/
def deserialize : Serializer → Action Bytes Cell
  | builtin .int => return .int (← StreamValue.readFixed Int32)
  | builtin .long => return .long (← StreamValue.readFixed Int64)
  | builtin .double => return .double (← StreamValue.readFixed Double)
  | builtin .boolean => return .boolean (← StreamValue.readFixed Bool)
  | builtin .string => return .string (← StreamValue.readText)
  | extension name => do
    let hasNumeric ← StreamValue.readFixed Bool
    let numeric ← if hasNumeric then some <$> StreamValue.readFixed Double else pure none
    let payload ← StreamValue.readBytes
    return .extension ⟨name, numeric, payload⟩

end Serializer

/-- Serializers by name. The latest registration of a name counts. -/
structure SerializerRegistry where
  entries : List (String × Serializer)
deriving DecidableEq

namespace SerializerRegistry

def empty : SerializerRegistry := ⟨[]⟩

/-- Put a serializer under a name. -/
def register (r : SerializerRegistry) (name : String) (s : Serializer) : SerializerRegistry :=
  ⟨(name, s) :: r.entries⟩

/-- The serializers of the built-in classes. -/
def builtin : SerializerRegistry :=
  Primitive.all.foldl (fun r p => r.register p.className (.builtin p)) empty

/-- Put the serializer of an extension class under the name of the class. -/
def registerExtension (r : SerializerRegistry) (name : String) : SerializerRegistry :=
  r.register name (.extension name)

def find? (r : SerializerRegistry) (name : String) : Option Serializer := r.entries.lookup name

def get (r : SerializerRegistry) (name : String) : Outcome Serializer :=
  Outcome.ofOption (.notFound .cellSerializer name) (r.find? name)

end SerializerRegistry

/-! ## Class tags -/

/-- The class names of a table in tag order, over a registry of serializers. -/
structure ClassTags where
  serializers : SerializerRegistry
  classes : List String
deriving DecidableEq

namespace ClassTags

/-- The number of classes a table can have. -/
def limit : Nat := 127

/-- The tag at a position. -/
def tagAt (i : Nat) : Int8 := Int8.ofInt (i - 128)

/-- The position of a tag. -/
def position (tag : Int8) : Nat := (tag.toInt + 128).toNat

def empty (serializers : SerializerRegistry) : ClassTags := ⟨serializers, []⟩

/-- The position of a class. Of several the last one counts. -/
def find? (t : ClassTags) (name : String) : Option Nat :=
  (t.classes.reverse.idxOf? name).map (t.classes.length - 1 - ·)

/-- Give a class the next tag. -/
def insert (t : ClassTags) (name : String) : Outcome ClassTags :=
  if t.classes.length = limit then Outcome.fail (.tooManyClasses limit)
  else .ok { t with classes := t.classes ++ [name] }

/-- The tag and the serializer of a cell's class, which gets a tag if it has none. -/
def serializerFor (c : Cell) : Action ClassTags (Int8 × Serializer) := do
  let t ← Action.get
  match c.className? with
  | none => Action.fail (.illegalState (.noSerializer c))
  | some name =>
    let s ← t.serializers.get name
    match t.find? name with
    | some i => return (tagAt i, s)
    | none =>
      Action.set (← t.insert name)
      return (tagAt t.classes.length, s)

/-- The serializer that a tag leads to. -/
def serializerOf (t : ClassTags) (tag : Int8) : Outcome Serializer := do
  let name ← Outcome.ofOption (.unknownCellTag tag) t.classes[position tag]?
  t.serializers.get name

/-- The tag of a cell followed by its payload. -/
def writeCell (c : Cell) : Action ClassTags Bytes := do
  let (tag, s) ← serializerFor c
  let payload ← s.serialize c
  return (StreamValue.i8 tag).write ++ payload

/-- The cell at the front of a byte string. -/
def readCell (t : ClassTags) (bs : Bytes) : Outcome Cell :=
  let action : Action Bytes Cell := do
    let tag ← StreamValue.readU8
    (← t.serializerOf tag.toInt8).deserialize
  (action bs).1

end ClassTags

end Columnar
