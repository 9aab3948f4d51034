import Columnar.Bytes.Buffer

/-!
# Files

The files a table is saved to, as data. A name leads to a file, and a file has contents; the two
are kept apart because an open file stays the same file: it shows later changes of its contents,
and it stays readable after its name is removed.

**Paths.** There is one directory without subdirectories. A path may have steps that stay where
they are, an empty one or a single dot, but it must end in a name; the rest of it is the name of
the file. What is made under a path must not lie in another directory.
-/

namespace Columnar

/-- The identity of a file. -/
structure FileId where
  index : Nat
deriving DecidableEq

/-- Names and contents, with contents for every name. -/
structure Files where
  names : List (String × FileId)
  contents : Array Buffer
  index_lt : ∀ entry ∈ names, entry.2.index < contents.size

namespace Files

def empty : Files := ⟨[], #[], fun _ h => absurd h List.not_mem_nil⟩

/-- Whether a step of a path stays where it is. -/
def staysPut (step : String) : Bool := step = "" || step = "."

/-- Whether a step of a path can be the name of a file. -/
def isName (step : String) : Bool :=
  !staysPut step && step ≠ ".." && step.utf8ByteSize ≤ 255 && step.toList.all (·.toNat ≠ 0)

/-- The name that a path leads to, if it can be the path of a file. -/
def nameOf? (path : String) : Option String :=
  let steps := path.splitOn "/"
  if path.utf8ByteSize < 4096 && isName (steps.getLastD "") then
    some ((if path.startsWith "/" then "/" else "") ++ "/".intercalate (steps.filter (!staysPut ·)))
  else none

/-- The file of a path. -/
def find? (fs : Files) (path : String) : Option FileId := do fs.names.lookup (← nameOf? path)

/-- Add a file under a new name. -/
def add (fs : Files) (name : String) (data : Bytes) : Files where
  names := (name, ⟨fs.contents.size⟩) :: fs.names
  contents := fs.contents.push (.ofList data)
  index_lt entry h := by
    rw [Array.size_push]
    rcases List.mem_cons.mp h with rfl | h
    · exact Nat.lt_succ_self _
    · exact Nat.lt_succ_of_lt (fs.index_lt entry h)

/-- The contents of a file. -/
def buffer (fs : Files) (id : FileId) : Buffer := fs.contents[id.index]?.getD .empty

def size (fs : Files) (id : FileId) : Nat := (fs.buffer id).size

/-- The bytes of a file. -/
def read (fs : Files) (id : FileId) : Bytes := (fs.buffer id).toList

/-- The bytes of the file of a path. -/
def read? (fs : Files) (path : String) : Option Bytes := (fs.find? path).map fs.read

/-- The file of a path, or an I/O error. -/
def openFile (fs : Files) (path : String) : Outcome FileId :=
  Outcome.ofOption .io (fs.find? path)

/-- Replace the contents of a file. -/
def setBuffer (fs : Files) (id : FileId) (data : Buffer) : Files where
  names := fs.names
  contents := fs.contents.setIfInBounds id.index data
  index_lt entry h := by
    rw [Array.size_setIfInBounds]
    exact fs.index_lt entry h

/-- Replace the bytes of a file. -/
def setContents (fs : Files) (id : FileId) (data : Bytes) : Files := fs.setBuffer id (.ofList data)

/-- Write a file, which is created if the name is free and otherwise overwritten in place. -/
def write (fs : Files) (path : String) (data : Bytes) : Outcome Files :=
  match fs.find? path, nameOf? path with
  | some id, _ => .ok (fs.setContents id data)
  | none, some name => if name.contains '/' then Outcome.fail .io else .ok (fs.add name data)
  | none, none => Outcome.fail .io

/-- Free the name of a path. Its file lives on for those who have it open. -/
def remove (fs : Files) (path : String) : Files where
  names := fs.names.filter (some ·.1 ≠ nameOf? path)
  contents := fs.contents
  index_lt entry h := fs.index_lt entry (List.mem_filter.mp h).1

/-- Cut a file off at a length, or extend it with zeros. -/
def resize (fs : Files) (id : FileId) (n : Nat) : Files :=
  fs.setBuffer id ((fs.buffer id).resize n)

/-- Write bytes over a file from an offset on, which may lie behind its end. -/
def patch (fs : Files) (id : FileId) (offset : Nat) (bytes : Bytes) : Files :=
  fs.setBuffer id ((fs.buffer id).patch offset (.ofList bytes))

/-- A part of a file. Reading past the end is an I/O error. -/
def readRange (fs : Files) (id : FileId) (offset length : Nat) : Outcome Buffer :=
  let part := (fs.buffer id).slice offset (offset + length)
  if part.size = length then .ok part else Outcome.fail .io

theorem length_read (fs : Files) (id : FileId) : (fs.read id).length = fs.size id := by
  simp [size, read]

/-- What is read is a part of the bytes, of the length asked for. -/
theorem readRange_eq (fs : Files) (id : FileId) (offset length : Nat) :
    fs.readRange id offset length =
      if (((fs.read id).drop offset).take length).length = length then
        .ok (.ofList (((fs.read id).drop offset).take length))
      else Outcome.fail .io := by
  have h : ((fs.buffer id).slice offset (offset + length)).toList =
      ((fs.read id).drop offset).take length := by
    rw [Buffer.toList_slice, Nat.add_sub_cancel_left]
    rfl
  unfold readRange
  rw [← h, Buffer.length_toList, Buffer.ofList_toList]

end Files

end Columnar
