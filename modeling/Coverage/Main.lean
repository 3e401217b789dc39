import Coverage.Cli

/-!
# The program

Reads the files that a call names, and prints what the call leaves.
-/

namespace Coverage

/-- The content of a file, if it is a plain one that can be read. -/
def readFile? (path : Path) : IO (Option Bytes) := do
  try
    let content ← IO.FS.readBinFile path.toString
    return some content.data.toList
  catch _ => return none

/-- The files of all units that a call names, as far as they are there. -/
def readUnits (units : List String) : IO (List (Path × Bytes)) := do
  let paths := units.flatMap fun text =>
    [(CompilationUnit.paths text).1, (CompilationUnit.paths text).2]
  paths.filterMapM fun path => do
    let content ← readFile? path
    return content.map fun c => (path, c)

/-- The wording for a call that cannot be understood. -/
def usage : String :=
  "usage: [-v] (summary | lines | functions) FILES... [--file TEXT] [--json] [--missed]\n"

/-- Answers a call of the program, and gives its exit code. -/
def answer (arguments : List String) : IO UInt32 := do
  match Cli.Call.ofArguments? false arguments with
  | none =>
    IO.eprint usage
    return 2
  | some call =>
    let files ← readUnits call.units
    let result := call.run fun path => files.lookup path
    IO.eprint result.errors
    IO.print result.output
    return result.exitCode.toUInt32

end Coverage

/-- Runs the program. -/
def main (arguments : List String) : IO UInt32 :=
  Coverage.answer arguments
