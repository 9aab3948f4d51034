import Columnar.Chunk.Basic
import Columnar.Payload

/-!
# Physical columns and their cells

A physical column holds row keys, as text, or the cells of a data column, as a pair of chunks.

**Projections.** A column of a built-in class stores every cell as a value of that class. A cell of
the class is stored as it is; any other cell is projected as well as the class allows, and on the
default value of the class if there is nothing to project.

**Data cells.** The inner chunk holds the projection of every cell. What it cannot express goes to
the supplement, and the two missing flags of a slot tell the cases apart:

| inner   | supplement | cell                               |
|---------|------------|------------------------------------|
| value   | missing    | the value itself                   |
| value   | bytes      | the cell serialized in the bytes   |
| missing | bytes      | missing, the bytes being the cause |
| missing | missing    | missing without cause              |

Writing a cell may give its class a tag, and may fail after it has changed the slot.
-/

namespace Columnar.Primitive

/-! ## Projections -/

/-- Whether a cell is of the class. -/
def matches? : Primitive → Cell → Bool
  | int, .int _ => true
  | long, .long _ => true
  | double, .double _ => true
  | boolean, .boolean _ => true
  | string, .string _ => true
  | _, _ => false

/-- The value stored for a cell. -/
def project : (p : Primitive) → Cell → p.kind.Value
  | int, .int v => v
  | int, _ => Kind.int.default
  | long, c => c.long?.getD Kind.long.default
  | double, c => c.numeric?.getD Kind.double.default
  | boolean, .boolean v => v
  | boolean, _ => Kind.boolean.default
  | string, .string v => Utf8.encode v
  | string, c => Utf8.encode c.text

/-- Store the projection of a cell in a slot. -/
def store (p : Primitive) (c : Chunk) (i : Nat) (cell : Cell) : Outcome Chunk :=
  match p with
  | string => c.setBytes i (project string cell)
  | p => c.set p.kind i (p.project cell)

/-- The cell of the class that a slot holds. -/
def load (p : Primitive) (c : Chunk) (i : Nat) : Outcome Cell :=
  match p with
  | int => return .int (← c.get .int i)
  | long => return .long (← c.get .long i)
  | double => return .double (← c.get .double i)
  | boolean => return .boolean (← c.get .boolean i)
  | string => return .string (← c.getText i)

end Columnar.Primitive

namespace Columnar

/-! ## Cells -/

inductive PhysicalColumn
  | rowKey
  | data (p : Primitive)
deriving DecidableEq

/-- What writing a cell changes: the chunk, and the class tags of the table. -/
structure WriteTarget where
  chunk : Chunk
  tags : ClassTags

namespace PhysicalColumn

def spec : PhysicalColumn → ChunkSpec
  | rowKey => .plain .rowKey
  | data p => .paired (.plain p.kind)

/-- The data cell in a slot. -/
def readData (p : Primitive) (tags : ClassTags) (c : Chunk) (i : Nat) : Outcome Cell := do
  let supplement ← c.supplement
  match ← c.isMissing i, ← supplement.isMissing i with
  | false, true => p.load c i
  | false, false => tags.readCell (← supplement.value i)
  | true, false => return .missing (some (Utf8.decodeLossy (← supplement.value i)))
  | true, true => return .missing none

/-- The cell in a slot. -/
def readCell (column : PhysicalColumn) (tags : ClassTags) (c : Chunk) (i : Nat) : Outcome Cell :=
  match column with
  | rowKey => return .string (← c.getText i)
  | data p => readData p tags c i

/-- Change the chunk that is written to. -/
def changeChunk (f : Chunk → Outcome Chunk) : Action WriteTarget Unit := do
  let t ← Action.get
  Action.set { t with chunk := ← f t.chunk }

/-- Put a data cell in a slot. -/
def writeData (p : Primitive) (i : Nat) (cell : Cell) : Action WriteTarget Unit :=
  match cell with
  | .unmaterialized => Action.fail (.illegalState .unmaterializedCell)
  | .missing cause => do
    changeChunk (·.setMissing i)
    changeChunk (·.modifySupplement fun s =>
      match cause with
      | some cause => s.set i (Utf8.encode cause)
      | none => s.clear [] i)
  | cell =>
    if p.matches? cell then do
      changeChunk (p.store · i cell)
      changeChunk (·.modifySupplement (·.clear [] i))
    else do
      changeChunk (p.store · i cell)
      let bytes ← (ClassTags.writeCell cell).on WriteTarget.tags fun tags t =>
        { t with tags := tags }
      changeChunk (·.modifySupplement (·.set i bytes))

/-- Put a cell in a slot. -/
def writeCell (column : PhysicalColumn) (i : Nat) (cell : Cell) : Action WriteTarget Unit :=
  match column, cell with
  | rowKey, .string key => changeChunk (·.setText i key)
  | rowKey, cell => Action.fail (.illegalState (.rowKeyCell cell))
  | data p, cell => writeData p i cell

end PhysicalColumn

/-- The physical columns of a table, the row key first if there is one. -/
abbrev Schema := List PhysicalColumn

def Schema.specs (s : Schema) : List ChunkSpec := s.map PhysicalColumn.spec

end Columnar
