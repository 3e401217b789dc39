import Coverage.Format
import Coverage.Plan.Grouping

/-!
# Planned units

A compilation unit can be made up: a plan names functions, gives them blocks, arcs and lines, and
says how often each measured arc was taken.  The files that a plan stands for are written in
`Coverage.Plan.Files`.  Numbers are integers of any size here; they are brought into the range of
words when they are written.
-/

namespace Coverage

/-! ## Parts of a plan -/

/-- An arc, with the count that a data file gives for it unless it is on the spanning tree. -/
structure ArcPlan where
  src : Nat
  dst : Nat
  flags : Int := 0
  count : Int := 0
deriving DecidableEq, Repr

/-- Whether a data file gives no count for an arc. -/
def ArcPlan.onTree (arc : ArcPlan) : Bool :=
  arc.flags % 2 == 1

/-- Lines of a source file that are attributed to a block. -/
structure LinesPlan where
  block : Nat
  source : String
  numbers : List Nat
deriving DecidableEq, Repr

/-- A function. -/
structure FuncPlan where
  ident : Int
  checksum : Int
  name : String
  source : String
  line : Int
  blockCount : Int := 0
  /-- The arcs in the order in which they were added. -/
  arcs : List ArcPlan := []
  /-- The attributions in the order in which they were made. -/
  lines : List LinesPlan := []
deriving DecidableEq, Repr

/-- A compilation unit. -/
structure UnitPlan where
  version : Int := Version.standard
  order : ByteOrder := .little
  stamp : Int := 0
  /-- The directory of the compilation, which a notes file may tell. -/
  directory : Option String := none
  functions : List FuncPlan := []
deriving DecidableEq, Repr

/-- Why something cannot be added to a plan. -/
inductive PlanError where
  | noSuchBlock (index blocks : Int)
  | lineNotPositive
deriving DecidableEq, Repr

/-- The wording of an error. -/
def PlanError.message : PlanError → String
  | noSuchBlock index blocks => s!"block {index} out of range ({blocks} blocks)"
  | lineNotPositive => "line numbers must be positive"

/-! ## Making a plan -/

namespace FuncPlan

/-- A block number, if the function has such a block. -/
def block? (func : FuncPlan) (index : Int) : Except PlanError Nat :=
  if 0 ≤ index ∧ index < func.blockCount then .ok index.toNat
  else .error (.noSuchBlock index func.blockCount)

/-- Changes the number of blocks. -/
def addBlocks (func : FuncPlan) (count : Int) : FuncPlan :=
  { func with blockCount := func.blockCount + count }

/-- Adds an arc between two blocks of the function. -/
def addArc (func : FuncPlan) (src dst flags count : Int) : Except PlanError FuncPlan := do
  let src ← func.block? src
  let dst ← func.block? dst
  return { func with arcs := func.arcs ++ [{ src, dst, flags, count }] }

/-- Attributes lines to a block.  They are lines of the function's own source file unless another
one is named. -/
def addLines (func : FuncPlan) (block : Int) (numbers : List Int) (source : Option String) :
    Except PlanError FuncPlan := do
  let block ← func.block? block
  if numbers.any (· ≤ 0) then throw .lineNotPositive
  let source := (source.filter (!·.isEmpty)).getD func.source
  return { func with lines := func.lines ++ [{ block, source, numbers := numbers.map Int.toNat }] }

/-- The arcs in the order of a notes file: by ascending source block, and as they were added for
each. -/
def orderedArcs (func : FuncPlan) : List ArcPlan :=
  (groupByKey (·.src) func.arcs).flatMap (·.2)

/-- The attributions in the order of a notes file: by ascending block, and as they were made for
each. -/
def orderedLines (func : FuncPlan) : List (Nat × List LinesPlan) :=
  groupByKey (·.block) func.lines

end FuncPlan

/-- One addition to a plan.  All but the first kind concern the function that was added last. -/
inductive PlanStep where
  | function (name source : String) (line : Int) (ident : Option Int) (checksum : Int)
  | blocks (count : Int)
  | arc (src dst flags count : Int)
  | lines (block : Int) (numbers : List Int) (source : Option String)
deriving DecidableEq, Repr

namespace UnitPlan

/-- Adds a function.  Without an ident of its own it is numbered by its place. -/
def addFunction (plan : UnitPlan) (name source : String) (line : Int) (ident : Option Int)
    (checksum : Int) : UnitPlan :=
  let ident := ident.getD (plan.functions.length + 1)
  { plan with functions := plan.functions ++ [{ ident, checksum, name, source, line }] }

/-- Changes the function that was added last, if there is one. -/
def mapLast (plan : UnitPlan) (f : FuncPlan → Except PlanError FuncPlan) :
    Except PlanError UnitPlan :=
  match plan.functions.getLast? with
  | none => .ok plan
  | some func =>
    (f func).map fun changed => { plan with functions := plan.functions.dropLast ++ [changed] }

/-- Makes an addition; one that is refused changes nothing. -/
def apply (plan : UnitPlan) : PlanStep → Except PlanError UnitPlan
  | .function name source line ident checksum =>
    .ok (plan.addFunction name source line ident checksum)
  | .blocks count => plan.mapLast fun func => .ok (func.addBlocks count)
  | .arc src dst flags count => plan.mapLast (·.addArc src dst flags count)
  | .lines block numbers source => plan.mapLast (·.addLines block numbers source)

/-- Makes additions, up to the first that is refused. -/
def applyAll (plan : UnitPlan) (steps : List PlanStep) : Except PlanError UnitPlan :=
  steps.foldlM apply plan

end UnitPlan

end Coverage
