import Columnar.Action
import Columnar.Files
import Columnar.Settings.Basic
import Columnar.Settings.Token

/-!
# Settings trees as text

A tree is written as an object; every value is an object with one entry, whose key names the type.

    {"size": {"int": 3}, "schema": {"section": {"row_key": {"bool": true}}}}

**Layouts.** Files have one entry per line, indented by two blanks a level; the compact form has
no blanks at all. Both are read alike.

**Reading** refuses a value with no entry or several, an integer that does not fit its width, and
nesting of more than 127 objects and arrays. Of several entries with one key the last counts.
-/

namespace Columnar

/-- The name of a type in a settings file. -/
def EntryType.tag : EntryType → String
  | string => "string"
  | int => "int"
  | long => "long"
  | bool => "bool"
  | strings => "string_array"
  | tree => "section"

namespace Settings

/-! ## Writing

A writer puts its text in front of the text that follows. -/

/-- Where line breaks and blanks go. -/
structure TextLayout where
  /-- What stands before an entry and before a closing bracket at a depth. -/
  line : Nat → List Char
  colon : List Char

def TextLayout.indented : TextLayout := ⟨fun n => '\n' :: List.replicate (2 * n) ' ', [':', ' ']⟩

def TextLayout.compact : TextLayout := ⟨fun _ => [], [':']⟩

/-- Close a bracket. -/
def writeEnd (l : TextLayout) (depth : Nat) (bracket : Char) (after : List Char) : List Char :=
  l.line depth ++ bracket :: after

/-- Texts as the entries of an array. -/
def writeStrings (l : TextLayout) (depth : Nat) : List String → (after : List Char) → List Char
  | [], after => after
  | [s], after => l.line depth ++ (Token.quoted s ++ after)
  | s :: ss, after => l.line depth ++ (Token.quoted s ++ ',' :: writeStrings l depth ss after)

def writeScalar (l : TextLayout) (depth : Nat) : Scalar → (after : List Char) → List Char
  | .string v, after => Token.quoted v ++ after
  | .int v, after => Token.decimal v.toInt ++ after
  | .long v, after => Token.decimal v.toInt ++ after
  | .bool true, after => 't' :: 'r' :: 'u' :: 'e' :: after
  | .bool false, after => 'f' :: 'a' :: 'l' :: 's' :: 'e' :: after
  | .strings [], after => '[' :: ']' :: after
  | .strings v, after => '[' :: writeStrings l (depth + 1) v (writeEnd l depth ']' after)

/-- What stands before the value of an entry: its key and the name of its type. -/
def entryHead (l : TextLayout) (depth : Nat) (key : String) (type : EntryType) : List Char :=
  l.line depth ++ Token.quoted key ++ l.colon ++ ['\x7b'] ++
    l.line (depth + 1) ++ Token.quoted type.tag ++ l.colon

/-- The separator before the entries that follow. -/
def separator : Settings → List Char
  | empty => []
  | _ => [',']

/-- A tree between braces, which meet if it has no entries. -/
def writeBraces (l : TextLayout) (depth : Nat) (s : Settings)
    (entries : List Char → List Char) (after : List Char) : List Char :=
  match s with
  | empty => '\x7b' :: '\x7d' :: after
  | _ => '\x7b' :: entries (writeEnd l depth '\x7d' after)

/-- The entries of a tree. -/
def writeEntries (l : TextLayout) (depth : Nat) : Settings → (after : List Char) → List Char
  | empty, after => after
  | scalar k v rest, after =>
    entryHead l depth k (Value.scalar v).type ++ writeScalar l (depth + 1) v
      (writeEnd l depth '\x7d' (separator rest ++ rest.writeEntries l depth after))
  | nested k t rest, after =>
    entryHead l depth k .tree ++
      writeBraces l (depth + 1) t (fun after => t.writeEntries l (depth + 2) after)
        (writeEnd l depth '\x7d' (separator rest ++ rest.writeEntries l depth after))

/-- The text of a tree. -/
def write (l : TextLayout) (s : Settings) : String :=
  String.ofList (writeBraces l 0 s (s.writeEntries l 1) [])

/-! ## Reading -/

/-- The texts of an array, after at least one more is expected, and what follows it. -/
def readStrings : List Token → Option (List String × List Token)
  | .text s :: .comma :: rest => do
    let (ss, rest) ← readStrings rest
    return (s :: ss, rest)
  | .text s :: .closeBracket :: rest => some ([s], rest)
  | _ => none

def int32? (i : Int) : Option Int32 :=
  if -0x80000000 ≤ i ∧ i < 0x80000000 then some (Int32.ofInt i) else none

def int64? (i : Int) : Option Int64 :=
  if -0x8000000000000000 ≤ i ∧ i < 0x8000000000000000 then some (Int64.ofInt i) else none

/-- The nesting left inside one more object or array. -/
def enter? (nesting : Nat) : Option Nat := if nesting ≤ 1 then none else some (nesting - 1)

/-- The scalar of the type with this tag, and what follows it. -/
def readScalar (nesting : Nat) (tag : String) (ts : List Token) : Option (Scalar × List Token) :=
  if tag = EntryType.string.tag then
    match ts with
    | .text s :: rest => some (.string s, rest)
    | _ => none
  else if tag = EntryType.int.tag then
    match ts with
    | .int i :: rest => return (.int (← int32? i), rest)
    | _ => none
  else if tag = EntryType.long.tag then
    match ts with
    | .int i :: rest => return (.long (← int64? i), rest)
    | _ => none
  else if tag = EntryType.bool.tag then
    match ts with
    | .bool b :: rest => some (.bool b, rest)
    | _ => none
  else if tag = EntryType.strings.tag then
    match ts with
    | .openBracket :: rest => do
      let _ ← enter? nesting
      match rest with
      | .closeBracket :: rest => return (.strings [], rest)
      | rest =>
        let (ss, rest) ← readStrings rest
        return (.strings ss, rest)
    | _ => none
  else none

/-- The entries up to the closing brace, added to those read before, and what follows. -/
def readEntries : (fuel nesting : Nat) → Settings → List Token → Option (Settings × List Token)
  | fuel + 1, nesting, acc, .text key :: .colon :: .openBrace :: .text tag :: .colon :: rest => do
    let inside ← enter? nesting
    let (v, rest) ←
      if tag = EntryType.tree.tag then do
        let deeper ← enter? inside
        match rest with
        | .openBrace :: .closeBrace :: rest => pure (Value.tree empty, rest)
        | .openBrace :: rest =>
          let (t, rest) ← readEntries fuel deeper empty rest
          pure (Value.tree t, rest)
        | _ => none
      else do
        let (s, rest) ← readScalar inside tag rest
        pure (Value.scalar s, rest)
    match rest with
    | .closeBrace :: .comma :: rest => readEntries fuel nesting (acc.insert key v) rest
    | .closeBrace :: .closeBrace :: rest => some (acc.insert key v, rest)
    | _ => none
  | _, _, _, _ => none

/-- The nesting allowed inside the outermost object. -/
def maxNesting : Nat := 127

/-- The tree of a token sequence. -/
def ofTokens? (ts : List Token) : Option Settings :=
  match ts with
  | [.openBrace, .closeBrace] => some empty
  | .openBrace :: rest => do
    let (s, rest) ← readEntries ts.length maxNesting empty rest
    if rest.isEmpty then some s else none
  | _ => none

/-- The tree of a text. -/
def read? (text : String) : Option Settings := do
  let cs := text.toList
  ofTokens? (← Token.lex cs.length cs)

end Settings

end Columnar

namespace Columnar.Settings

/-! ## Files -/

/-- The tree of a text, or an error. -/
def ofText (text : String) : Outcome Settings := Outcome.ofOption .json (read? text)

/-- Save a tree under a name. -/
def save (s : Settings) (path : String) : Action Files Unit :=
  Action.mapError (.atPath path) do
    Action.set (← (← Action.get).write path (Utf8.encode (s.write .indented)))

/-- Load the tree saved under a name. A file that is not text is an I/O error. -/
def load (fs : Files) (path : String) : Outcome Settings :=
  Outcome.mapError (.atPath path) do
    let data ← Outcome.ofOption .io (fs.read? path)
    match Utf8.decode data with
    | .ok text => ofText text
    | .error _ => Outcome.fail .io

end Columnar.Settings
