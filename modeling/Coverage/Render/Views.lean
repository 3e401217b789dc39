import Coverage.Render.Table
import Coverage.Summary
import Coverage.Text.Numeral

/-!
# Views of a report

A report as text: its main figures, its lines with their counts, its functions, and a summary of
its files with bars.
-/

namespace Coverage

open Render Text

/-! ## Figures -/

/-- The main figures of a report, under a name if one is given. -/
def Report.stats (report : Report) (name : String) : String :=
  (if name.isEmpty then "" else textLine s!"{name}:")
    ++ textLine s!"  source files: {report.files.length}"
    ++ textLine s!"  functions: {report.functions.length}"
    ++ textLine s!"  lines: {report.executed}/{report.instrumented} executed"

/-- The summary of a report as JSON text. -/
def Report.jsonText (report : Report) (filter : Option String) : String :=
  textLine ((report.summary filter).toJson.pretty 0)

/-! ## Lines -/

/-- A line with its count, or a mark where it was missed. -/
def LineCoverage.row (l : LineCoverage) : String :=
  let count := if l.executed then grouped l.count else "#####"
  "  " ++ alignRight 10 count ++ "  " ++ alignRight 6 (toString l.line)

/-- The lines of a file that are listed: all of them, or those that were missed. -/
def FileCoverage.listedLines (missedOnly : Bool) (coverage : FileCoverage) : List LineCoverage :=
  coverage.lines.filter fun l => !(missedOnly && l.executed)

/-- The name of a file, a row for every listed line, and an empty row. -/
def FileCoverage.listing (missedOnly : Bool) (coverage : FileCoverage) : List String :=
  coverage.file :: (coverage.listedLines missedOnly).map (·.row) ++ [""]

/-- The lines of all files, of those whose name contains a text if one is given. -/
def Report.lineListing (report : Report) (filter : Option String) (missedOnly : Bool) : String :=
  let shown := report.filterBy? filter
  if shown.files.isEmpty then textLine "no matching source files"
  else String.join ((shown.files.flatMap (·.listing missedOnly)).map textLine)

/-! ## Functions -/

/-- The figures of a function. -/
structure FunctionRow where
  name : String
  source : String
  line : Nat
  blocks : Nat
  arcs : Nat
  measured : Nat
  unresolved : Nat
  /-- How often the function was entered. -/
  calls : Int
deriving DecidableEq, Repr

/-- The figures of a function. -/
def Func.row (func : Func) : FunctionRow where
  name := func.name
  source := func.source
  line := func.firstLine
  blocks := func.graph.size
  arcs := func.graph.orderedArcs.length
  measured := func.graph.measuredArcs.length
  unresolved := func.graph.unresolvedArcs.length
  calls := (func.graph.blocks[0]?.map (·.count)).getD 0

/-- The figures of all functions. -/
def Report.functionRows (report : Report) : List FunctionRow :=
  report.functions.map (·.row)

/-- The greatest width of a location in a table. -/
def locationLimit : Nat := 50

/-- The cells of a function. -/
def FunctionRow.cells (row : FunctionRow) : List String :=
  [row.name, cutTo locationLimit s!"{row.source}:{row.line}", grouped row.calls,
    toString row.blocks, toString row.arcs, toString row.measured, toString row.unresolved]

/-- The columns of a table of functions. -/
def functionColumns : List Column :=
  [{ header := "Function" }, { header := "Location" }]
    ++ ["Calls", "Blocks", "Arcs", "Measured", "Unresolved"].map fun header =>
      { header, alignment := .right }

/-- A table of all functions. -/
def Report.functionTable (report : Report) : String :=
  let rows := report.functionRows
  if rows.isEmpty then textLine "no functions decoded"
  else
    Table.render
      { title := "Functions", columns := functionColumns, rows := rows.map (·.cells) }

/-! ## Summaries -/

/-- How well a file is covered. -/
inductive Grade where
  | high
  | medium
  | low
deriving DecidableEq, Repr

/-- The colour of a grade. -/
def Grade.colour : Grade → String
  | high => "green"
  | medium => "yellow"
  | low => "red"

/-- The grade of a percentage: high from ninety on, and medium from fifty on. -/
def gradeOf (percent : Binary64) : Grade :=
  if percent.isAtLeast 90 then .high
  else if percent.isAtLeast 50 then .medium
  else .low

/-- The width of a bar. -/
def barWidth : Int := 20

/-- The filled cells of a bar of the given width.  The fraction is the percentage as a part of a
hundred. -/
def filledCells (fraction : Binary64) (width : Int) : Int :=
  (fraction * Binary64.ofInt width).round

/-- A bar of which so many cells are filled. -/
def coverageBar (filled width : Int) : String :=
  bar '█' filled.toNat ++ bar '░' (width - filled).toNat

/-- The cells of a file. -/
def FileSummary.cells (s : FileSummary) : List String :=
  let filled := filledCells (s.percentage.divNat 100) barWidth
  [s.file, grouped s.instrumented, grouped s.executed, s.percentage.fixedTenths ++ "%",
    coverageBar filled barWidth]

/-- The columns of a table of files. -/
def fileColumns : List Column :=
  [{ header := "File" }, { header := "Lines", alignment := .right },
    { header := "Executed", alignment := .right }, { header := "Coverage", alignment := .right },
    { header := "Bar" }]

/-- The totals of a summary. -/
def Summary.totals (s : Summary) : List (String × String) :=
  let share := s!"{grouped s.executed} of {grouped s.instrumented} ({s.percentage.fixedTenths}%)"
  [("Files", grouped s.fileCount), ("Functions", grouped s.functionCount),
    ("Lines Executed", share)]

/-- The heading of a summary, with the text that the files were filtered by. -/
def Summary.heading (s : Summary) : String :=
  match s.filter.filter (!·.isEmpty) with
  | none => "Line Coverage"
  | some text => s!"Line Coverage (filtered to: {text})"

/-- A summary as a heading, a table of files, and totals. -/
def Summary.render (s : Summary) : String :=
  panel s.heading
    ++ Table.render
      { title := "Source Files", columns := fileColumns, rows := s.files.map (·.cells) }
    ++ sheet s.totals

/-- The summary of a report as text. -/
def Report.summaryText (report : Report) (filter : Option String) : String :=
  (report.summary filter).render

end Coverage
