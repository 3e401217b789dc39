import Coverage.Binary.Writer
import Coverage.Plan.Basic

/-!
# The files of a plan

The notes file and the data file that a plan stands for, in the form that `Coverage.Notes` and
`Coverage.Counters` read.
-/

namespace Coverage

open Writer

/-- Some numbers as words. -/
def Writer.words (order : ByteOrder) (numbers : List Int) : Bytes :=
  numbers.flatMap (word order)

namespace FuncPlan

variable (func : FuncPlan) (version : Int) (order : ByteOrder)

/-! ## Notes -/

/-- The payload of the record that begins the function. -/
def headPayload : Bytes :=
  words order [func.ident, func.checksum]
    ++ words order (List.replicate (Version.graphChecksumWords version) 0)
    ++ string order func.name
    ++ words order (List.replicate (Version.artificialWords version) 0)
    ++ string order func.source
    ++ words order [func.line]
    ++ words order ([0, func.line, 0].take (Version.extentWords version))

/-- The payload of the record of blocks: their number, or a word of flags for each. -/
def blocksPayload : Bytes :=
  words order
    (if Version.hasExtent version then [func.blockCount]
    else List.replicate func.blockCount.toNat 0)

/-- The payload of the record of the arcs that leave a block. -/
def arcsPayload (src : Nat) (arcs : List ArcPlan) : Bytes :=
  words order ((src : Int) :: arcs.flatMap fun arc => [(arc.dst : Int), arc.flags])

/-- Attributed lines; the source file is named where it is not the one that was named before. -/
def writeLines : Option String → List LinesPlan → Bytes
  | _, [] => []
  | current, entry :: rest =>
    (if current = some entry.source then [] else word order 0 ++ string order entry.source)
      ++ words order (entry.numbers.map fun (n : Nat) => (n : Int))
      ++ writeLines (some entry.source) rest

/-- The payload of the record of the lines of a block. -/
def linesPayload (block : Nat) (entries : List LinesPlan) : Bytes :=
  word order block ++ writeLines order none entries ++ word order 0 ++ string order ""

/-- The records of the function in a notes file. -/
def notesRecords : Bytes :=
  record order functionTag (func.headPayload version order)
    ++ record order GraphRecord.blocks.tag (func.blocksPayload version order)
    ++ (groupByKey (·.src) func.arcs).flatMap (fun (src, arcs) =>
      record order GraphRecord.arcs.tag (arcsPayload order src arcs))
    ++ func.orderedLines.flatMap fun (block, entries) =>
      record order GraphRecord.lines.tag (linesPayload order block entries)

/-! ## Data -/

/-- The counts of the arcs that carry a counter. -/
def measuredCounts : List Int :=
  (func.orderedArcs.filter (!·.onTree)).map (·.count)

/-- The records of the function in a data file. -/
def dataRecords : Bytes :=
  record order functionTag
      (words order [func.ident, func.checksum]
        ++ words order (List.replicate (Version.graphChecksumWords version) 0))
    ++ record order countersTag (func.measuredCounts.flatMap (counter order))

end FuncPlan

namespace UnitPlan

variable (plan : UnitPlan)

/-- The header of a file. -/
def header (kind : FileKind) : Bytes :=
  words plan.order [kind.magic, plan.version, plan.stamp]

/-- The directory of the compilation as a notes file tells it, if it does. -/
def directoryBytes : Bytes :=
  match plan.directory with
  | none => []
  | some directory => if directory.isEmpty then [] else string plan.order directory

/-- The notes file. -/
def notes : Bytes :=
  plan.header .notes ++ plan.directoryBytes
    ++ plan.functions.flatMap (·.notesRecords plan.version plan.order)

/-- The greatest count of a data file, and at least zero. -/
def greatestCount : Int :=
  (plan.functions.flatMap (·.measuredCounts)).foldl max 0

/-- The summaries at the end of a data file: the number of runs and the greatest count, or, in
older versions, two that are left blank. -/
def summaryRecords : Bytes :=
  if Version.hasShortSummary plan.version then
    record plan.order objectSummaryTag (words plan.order [1, plan.greatestCount])
  else
    let blank := words plan.order (List.replicate 9 0)
    record plan.order objectSummaryTag blank ++ record plan.order programSummaryTag blank

/-- The data file. -/
def data : Bytes :=
  plan.header .data ++ plan.functions.flatMap (·.dataRecords plan.version plan.order)
    ++ plan.summaryRecords

end UnitPlan

end Coverage
