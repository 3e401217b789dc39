import Coverage.Counters
import Coverage.Decimal.Binary64
import Coverage.Lines
import Coverage.Notes
import Coverage.Solver
import Coverage.Text.Lowercase

/-!
# Coverage reports

A report tells, file by file, which instrumented lines were executed and how often.  It is made
from compilation units: their files are decoded onto one registry, the graphs of all functions are
solved, and the counts are carried over to lines.
-/

namespace Coverage

/-! ## Coverage of files -/

/-- An instrumented line. -/
structure LineCoverage where
  line : Int
  executed : Bool
  count : Int := 0
deriving DecidableEq, Repr

/-- The instrumented lines of a file, with their number and the number of those that were
executed. -/
structure FileCoverage where
  file : String
  instrumented : Int
  executed : Int
  lines : List LineCoverage := []
deriving DecidableEq, Repr

/-- The part `executed` of `instrumented` as a percentage: the quotient, then its hundredfold,
each rounded.  Nothing instrumented counts as zero. -/
def percentage (executed instrumented : Int) : Binary64 :=
  if instrumented = 0 then .zero
  else Binary64.ofQuotient executed instrumented * Binary64.ofInt 100

namespace FileCoverage

/-- The percentage of executed lines. -/
def percent (coverage : FileCoverage) : Binary64 :=
  percentage coverage.executed coverage.instrumented

/-- The first entry of a line. -/
def findLine (coverage : FileCoverage) (number : Int) : Option LineCoverage :=
  coverage.lines.find? (·.line == number)

/-- The lines that were never executed. -/
def missedLines (coverage : FileCoverage) : List Int :=
  (coverage.lines.filter (!·.executed)).map (·.line)

/-- The coverage of a file with the given instrumented lines. -/
def ofLines (file : String) (lines : List LineCoverage) : FileCoverage where
  file
  instrumented := lines.length
  executed := lines.countP (·.executed)
  lines

end FileCoverage

namespace SourceFile

/-- The instrumented lines of a file, in ascending order. -/
def lineCoverage (file : SourceFile) : List LineCoverage :=
  (file.lines.toList.zipIdx.filter (·.1.instrumented)).map fun (line, number) =>
    { line := number, executed := decide (0 < line.count), count := line.count }

/-- The coverage of a file. -/
def coverage (file : SourceFile) : FileCoverage :=
  .ofLines file.name file.lineCoverage

end SourceFile

/-- The coverage of all files, in the order of registration. -/
def Registry.summarize (r : Registry) : List FileCoverage :=
  r.files.toList.map (·.coverage)

/-! ## Compilation units -/

/-- The files of a compilation unit, as far as there are any. -/
structure CompilationUnit where
  name : String
  notes : Option Bytes
  data : Option Bytes
deriving DecidableEq

namespace CompilationUnit

/-- A unit that is named for its position. -/
def numbered (position : Nat) (notes data : Option Bytes) : CompilationUnit where
  name := s!"unit {position}"
  notes
  data

/-- Puts the counters of a unit onto its functions. -/
def decodeData (unit : CompilationUnit) (registry : Registry) (functions : List Func) :
    Outcome Registry (List Func) :=
  match unit.data with
  | none => .fail registry (.noBuffer .data unit.name)
  | some data =>
    if functions.isEmpty then .fail registry (.noFunctions unit.name)
    else
      let decoded := Counters.decode functions data
      let counted : Outcome Registry (List Func) :=
        { state := registry
          result := decoded.result.map fun _ => decoded.state
          log := decoded.log }
      counted.bind fun registry functions =>
        { state := registry
          result := .ok functions
          log := [.unitDecoded unit.name functions.length] }

/-- Decodes both files of a unit. -/
def decode (unit : CompilationUnit) (registry : Registry) : Outcome Registry (List Func) :=
  match unit.notes with
  | none => .fail registry (.noBuffer .notes unit.name)
  | some notes => (Notes.decode registry notes).bind unit.decodeData

/-- Decodes units one after another, up to the first failure. -/
def decodeAll : List CompilationUnit → Registry → Outcome Registry (List Func)
  | [], registry => .ok registry []
  | unit :: rest, registry =>
    (unit.decode registry).bind fun registry functions =>
      (decodeAll rest registry).map (functions ++ ·)

end CompilationUnit

/-! ## Reports -/

/-- The coverage of files, and the functions that it was reconstructed from. -/
structure Report where
  files : List FileCoverage
  functions : List Func := []
deriving DecidableEq

namespace Report

/-- Solves functions, and counts the lines of a registry by them. -/
def ofFunctions (registry : Registry) (functions : List Func) : Outcome Registry Report :=
  let solved := Func.solveAll functions
  let begun : Outcome Registry Unit :=
    { state := registry, result := solved.result, log := solved.log }
  ((begun.bind fun r _ => r.collectLines solved.state).bind fun r _ =>
    r.accumulateCounts solved.state).bind fun r _ =>
      .ok r { files := r.summarize, functions := solved.state }

/-- The report on compilation units. -/
def ofUnits (units : List CompilationUnit) : Outcome Registry Report :=
  (CompilationUnit.decodeAll units {}).bind ofFunctions

/-- The first file of a name. -/
def find (report : Report) (name : String) : Option FileCoverage :=
  report.files.find? (·.file == name)

/-- Restricts a report to the files whose name contains a text, upper and lower case being the
same. -/
def filterByFile (report : Report) (text : String) : Report :=
  let sought := (Text.lower text).toList
  let matching (f : FileCoverage) : Bool := Text.occurs sought (Text.lower f.file).toList
  { report with files := report.files.filter matching }

/-- Restricts a report if a text other than the empty one is given. -/
def filterBy? (report : Report) : Option String → Report
  | none => report
  | some text => if text.isEmpty then report else report.filterByFile text

/-- The number of instrumented lines. -/
def instrumented (report : Report) : Int :=
  total (·.instrumented) report.files

/-- The number of executed lines. -/
def executed (report : Report) : Int :=
  total (·.executed) report.files

/-- A line of some file. -/
structure Record where
  file : String
  line : Int
  executed : Bool
deriving DecidableEq, Repr

/-- The lines of all files. -/
def records (report : Report) : List Record :=
  report.files.flatMap fun f =>
    f.lines.map fun l => { file := f.file, line := l.line, executed := l.executed }

end Report

end Coverage
