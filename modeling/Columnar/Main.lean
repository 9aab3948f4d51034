import Columnar.CommandLine

/-!
# The program

Reads the files that the arguments name, runs the command over them and prints what it has to say.
-/

namespace Columnar

/-- The files with that of a name added, if it can be read. -/
def readInto (files : Files) (path : String) : IO Files := do
  try
    let data ← IO.FS.readBinFile path
    return match Files.nameOf? path with
      | some name => files.add name data.toList
      | none => files
  catch _ => return files

/-- How the program is called. -/
def usage : String :=
  "usage: info RECORD\n       dump RECORD DATA_FILE [--columns I,J] [--limit N]\n"

end Columnar

open Columnar

/-- Run the command of the arguments over the files they name. -/
def main (args : List String) : IO UInt32 := do
  let files ← args.foldlM readInto Files.empty
  let report := CommandLine.run args files
  IO.print report.output
  if report.code = 2 then IO.eprint usage
  match report.message? with
  | some message => IO.eprintln ("Error: " ++ message)
  | none => pure ()
  return UInt32.ofNat report.code
