import Columnar.Workspace.Tables

/-!
# The command line

Two commands inspect saved tables:

    info RECORD
    dump RECORD DATA_FILE [--columns I,J,…] [--limit N]

`info` describes the table of a record; `dump` prints its rows, one per line, key and cells
separated by tabs. Options may stand anywhere after the command; columns may be given several
times, the limit once.

A run gives its output, which is kept up to the failure if it fails, and an exit code: 0, 1 for an
error, 2 for wrong usage, 101 for an abort.
-/

namespace Columnar.CommandLine

inductive Command
  | info (record : String)
  | dump (record dataFile : String) (columns? : Option (List Nat)) (limit? : Option Nat)
deriving DecidableEq

/-! ## Arguments -/

/-- A word of digits, perhaps with a plus sign, that fits in 64 bits. -/
def number? (word : String) : Option Nat :=
  let digits := match word.toList with
    | '+' :: cs => cs
    | cs => cs
  if digits.isEmpty || !digits.all Char.isDigit then none
  else
    let n := Nat.ofDigitChars 10 digits 0
    if n < 0x10000000000000000 then some n else none

/-- Numbers separated by commas. -/
def numbers? (word : String) : Option (List Nat) := (word.splitOn ",").mapM number?

/-- What the words after a command say. -/
structure Arguments where
  positional : List String
  columns? : Option (List Nat)
  limit? : Option Nat

namespace Arguments

def empty : Arguments := ⟨[], none, none⟩

/-- Add a word that stands on its own, which must not be empty. -/
def addWord (a : Arguments) (word : String) : Option Arguments :=
  if word = "" then none else some { a with positional := a.positional ++ [word] }

/-- Add the value of an option. -/
def addOption (a : Arguments) (name value : String) : Option Arguments :=
  if name = "--columns" then do
    return { a with columns? := some (a.columns?.getD [] ++ (← numbers? value)) }
  else if name = "--limit" && a.limit?.isNone then do
    return { a with limit? := some (← number? value) }
  else none

/-- Sort words into positional ones and options. A value stands behind an equals sign or in the
next word; two dashes end the options. -/
def parse (a : Arguments) : List String → Option Arguments
  | [] => some a
  | word :: words =>
    if word = "--" then words.foldlM addWord a
    else if word.startsWith "--" then
      match word.splitOn "=" with
      | name :: value :: more =>
        (a.addOption name ("=".intercalate (value :: more))).bind (parse · words)
      | _ =>
        match words with
        | value :: words => (a.addOption word value).bind (parse · words)
        | [] => none
    else if word.startsWith "-" && word ≠ "-" then none
    else (a.addWord word).bind (parse · words)

end Arguments

/-- The command of an argument list. -/
def parse? : List String → Option Command
  | [] => none
  | name :: words => do
    let a ← Arguments.empty.parse words
    match name, a with
    | "info", ⟨[record], none, none⟩ => return .info record
    | "dump", ⟨[record, dataFile], columns?, limit?⟩ => return .dump record dataFile columns? limit?
    | _, _ => none

/-! ## Runs -/

/-- A run in progress: the lines printed so far, latest first, and the workspace. -/
structure Run where
  printed : List String
  workspace : Workspace

def print (line : String) : Action Run Unit :=
  Action.modify fun r => { r with printed := line :: r.printed }

def onWorkspace (m : Action Workspace α) : Action Run α :=
  m.on Run.workspace fun w r => { r with workspace := w }

/-- Print one line for every data column. -/
def printColumns : (index : Nat) → List Column → Action Run Unit
  | _, [] => return ()
  | i, c :: cs => do
    print ("  " ++ toString i ++ ": " ++ c.name ++ " " ++ c.type.text)
    printColumns (i + 1) cs

/-- Describe the table of a record. -/
def printInfo (path : String) : Action Run Unit := do
  let record ← Settings.load (← Action.get).workspace.files path
  let spec ← TableSpec.load (← record.getTree Record.specKey)
  let derived ← record.getTree Record.derivedKey
  let schema ← derived.getTree Record.schemaKey
  print ("table id:    " ++ toString (← record.getLong Record.idKey).toInt)
  print ("rows:        " ++ toString (← derived.getLong Record.sizeKey).toInt)
  print ("row key:     " ++ toString (← schema.getBool SchemaMapping.keysKey))
  print ("store:       " ++ (← derived.getString Record.factoryKey))
  print ("mapping:     " ++ (← derived.getString Record.mappingKey))
  print "columns:"
  printColumns 0 spec.columns

/-- The line of a row. -/
def rowLine (row : Row) : Outcome String := do
  let cells := "\t".intercalate ((← row.cells).map Cell.text)
  match row.key? with
  | some key => return key ++ "\t" ++ cells
  | none => return cells

/-- Print up to `limit` rows. -/
def printRows : (limit : Nat) → Action (OpenIterator × Run) Unit
  | 0 => return ()
  | limit + 1 => do
    match ← Workspace.nextRow.on (fun (it, r) => (it, r.workspace)) fun (it, w) (_, r) =>
      (it, { r with workspace := w }) with
    | none => return ()
    | some row =>
      let line ← rowLine row
      (print line).on Prod.snd fun r (it, _) => (it, r)
      printRows limit

/-- Print the rows of a saved table. -/
def printDump (record dataFile : String) (columns? : Option (List Nat)) (limit? : Option Nat) :
    Action Run Unit := do
  let e ← onWorkspace (Workspace.newEnvironment .default .builtin)
  let table ← onWorkspace (Workspace.loadTableOf e record dataFile none)
  let spec := (← onWorkspace (Workspace.table table)).info.spec
  print ("\t".intercalate (spec.columns.map Column.name))
  let filter := match columns? with
    | some columns => ColumnFilter.only columns
    | none => ColumnFilter.all
  let it ← onWorkspace (Workspace.iterate table filter)
  let w := (← Action.get).workspace
  let atMost := it.rows.atMost (Workspace.readerOf it.store?) w
  (printRows (min (limit?.getD atMost) atMost)).on (fun r => (it, r)) fun (_, r) _ => r

/-- What a run leaves behind. -/
structure Report where
  code : Nat
  output : String
  /-- The text of the error, if it ended in one. -/
  message? : Option String

/-- The report of a run that has ended. -/
def Report.ofRun (outcome : Outcome Unit) (r : Run) : Report :=
  let output := String.join (r.printed.reverse.map (· ++ "\n"))
  match outcome with
  | .ok () => ⟨0, output, none⟩
  | .error (.error e) => ⟨1, output, some e.message⟩
  | .error (.abort _) => ⟨101, output, none⟩

/-- Run a command over some files. -/
def Command.run (c : Command) (files : Files) : Report :=
  let start : Run := ⟨[], { Workspace.empty with files := files }⟩
  let action : Action Run Unit := match c with
    | .info record => printInfo record
    | .dump record dataFile columns? limit? => printDump record dataFile columns? limit?
  match c with
  | .dump _ _ _ (some 0) => ⟨1, "", some "--limit must be positive"⟩
  | _ =>
    let (outcome, r) := action start
    Report.ofRun outcome r

/-- Run the command of an argument list. -/
def run (args : List String) (files : Files) : Report :=
  match parse? args with
  | none => ⟨2, "", none⟩
  | some c => c.run files

end Columnar.CommandLine
