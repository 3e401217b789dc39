import Coverage.Json
import Coverage.Report

/-!
# Summaries

The figures of a report: for every file the numbers of instrumented and executed lines, their
percentage to one decimal place, and the lines that were missed; and the totals over all files.
-/

namespace Coverage

/-- The figures of a file. -/
structure FileSummary where
  file : String
  instrumented : Int
  executed : Int
  percentage : Binary64
  missedLines : List Int
deriving DecidableEq, Repr

/-- The figures of a report. -/
structure Summary where
  /-- The text that the files were filtered by. -/
  filter : Option String
  fileCount : Nat
  /-- The number of functions, which a filter does not change. -/
  functionCount : Nat
  instrumented : Int
  executed : Int
  percentage : Binary64
  files : List FileSummary
deriving DecidableEq, Repr

/-- The figures of a file. -/
def FileCoverage.summary (coverage : FileCoverage) : FileSummary where
  file := coverage.file
  instrumented := coverage.instrumented
  executed := coverage.executed
  percentage := coverage.percent.roundTenths
  missedLines := coverage.missedLines

/-- The figures of a report, restricted to the files whose name contains a text if one is given.
-/
def Report.summary (report : Report) (filter : Option String) : Summary :=
  let shown := report.filterBy? filter
  { filter
    fileCount := shown.files.length
    functionCount := shown.functions.length
    instrumented := shown.instrumented
    executed := shown.executed
    percentage := (percentage shown.executed shown.instrumented).roundTenths
    files := shown.files.map (·.summary) }

/-! ## As JSON -/

/-- The figures of a file as JSON. -/
def FileSummary.toJson (s : FileSummary) : Json :=
  .object
    [("file", .string s.file),
      ("instrumented", .int s.instrumented),
      ("executed", .int s.executed),
      ("percentage", .number s.percentage),
      ("missed_lines", .array (s.missedLines.map .int))]

/-- The figures of a report as JSON. -/
def Summary.toJson (s : Summary) : Json :=
  .object
    [("filter", (s.filter.map Json.string).getD .null),
      ("summary", .object
        [("files", .int s.fileCount),
          ("functions", .int s.functionCount),
          ("instrumented", .int s.instrumented),
          ("executed", .int s.executed),
          ("percentage", .number s.percentage)]),
      ("files", .array (s.files.map (·.toJson)))]

end Coverage
