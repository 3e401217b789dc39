import Coverage.Files.Path
import Coverage.Report

/-!
# Units on disk

The two files of a unit lie side by side: they share a base path, to which each adds a suffix of
its own.  Either path, or the base alone, denotes the unit.  Where files come from is left open:
they are looked up by a function that gives the content of a plain file, and nothing for anything
else.
-/

namespace Coverage

/-- The suffix of a kind of file. -/
def FileKind.suffix : FileKind → String
  | .notes => ".gcno"
  | .data => ".gcda"

/-- The base of a unit that a text denotes: the text without one suffix, that of notes being tried
first. -/
def unitBase (text : String) : String :=
  ((dropSuffix? FileKind.notes.suffix text) <|> (dropSuffix? FileKind.data.suffix text)).getD text

/-- The path of a file of the unit with a base. -/
def FileKind.path (kind : FileKind) (base : String) : Path :=
  .ofString (base ++ kind.suffix)

namespace CompilationUnit

/-- The paths of the notes file and the data file of the unit that a text denotes. -/
def paths (text : String) : Path × Path :=
  (FileKind.notes.path (unitBase text), FileKind.data.path (unitBase text))

/-- The content of a file that has to be there. -/
def require (file? : Path → Option Bytes) (path : Path) : Except CoverageError Bytes :=
  match file? path with
  | some content => .ok content
  | none => .error (.fileNotFound path.toString)

/-- Loads the unit that a text denotes.  It is named for its notes file without the suffix. -/
def load (file? : Path → Option Bytes) (text : String) : Except CoverageError CompilationUnit := do
  let (notesPath, dataPath) := paths text
  let notes ← require file? notesPath
  let data ← require file? dataPath
  return {
    name := (notesPath.withoutSuffix FileKind.notes.suffix).toString
    notes := some notes
    data := some data }

end CompilationUnit

/-- The report on the units that some texts denote.  All of them are loaded before the first is
decoded. -/
def Report.ofPaths (file? : Path → Option Bytes) (texts : List String) : Outcome Registry Report :=
  match texts.mapM (CompilationUnit.load file?) with
  | .ok units => Report.ofUnits units
  | .error error => .fail {} error

end Coverage
