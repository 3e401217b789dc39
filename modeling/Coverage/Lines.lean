import Coverage.Source
import Coverage.Outcome

/-!
# Counting lines

Two passes carry the counts of blocks over to source lines.  The first collects which blocks were
compiled from which line.  The second counts: a line with a single block takes the block's count,
as often as the block lists the line; a line with several blocks takes the flow that enters these
blocks from others, so that a loop within one line is not counted over and over.
-/

namespace Coverage

/-! ## Visits -/

/-- A place where a block lists a line: the block, its count, and the file and the line. -/
structure Visit where
  owner : BlockRef
  count : Int
  file : Nat
  line : Nat
deriving DecidableEq, Repr

namespace Func

/-- The places where the blocks of a function list lines, where `position` is that of the
function. -/
def visits (func : Func) (position : Nat) : List Visit :=
  func.graph.blocks.toList.zipIdx.flatMap fun (block, index) =>
    block.associations.map fun (file, line) =>
      { owner := { func := position, block := index }, count := block.count, file, line }

/-- The places where blocks list lines: function by function, and block by block in each. -/
def allVisits (functions : List Func) : List Visit :=
  functions.zipIdx.flatMap fun (func, position) => func.visits position

end Func

/-! ## Collecting -/

namespace SourceLine

/-- Notes that a block was compiled from the line. -/
def addOwner (line : SourceLine) (owner : BlockRef) : SourceLine :=
  { line with
    instrumented := true
    owners := if owner ∈ line.owners then line.owners else line.owners ++ [owner] }

/-- Whether a single block was compiled from the line. -/
def isOwned (line : SourceLine) : Bool :=
  line.owners.length == 1

end SourceLine

namespace Registry

/-- Notes a visit with the line that it lists. -/
def collectVisit (r : Registry) (visit : Visit) : Outcome Registry Unit :=
  match r.mapLine? visit.file visit.line (·.addOwner visit.owner) with
  | some r => .ok r ()
  | none => .fail r .outOfRange

/-- Collects which blocks were compiled from which line, in tables that start afresh. -/
def collectLines (r : Registry) (functions : List Func) : Outcome Registry Unit :=
  Outcome.forEach collectVisit r.resetLines (Func.allVisits functions)

/-! ## Counting -/

/-- Adds the count of a block to a line that it has for itself. -/
def countOwned (r : Registry) (visit : Visit) : Outcome Registry Unit :=
  let add (line : SourceLine) : SourceLine :=
    if line.isOwned then { line with count := line.count + visit.count } else line
  match r.mapLine? visit.file visit.line add with
  | some r => .ok r ()
  | none => .fail r .outOfRange

end Registry

/-- The flow into one of some blocks from without: over its entries, the counts of the arcs that
come from none of these blocks. -/
def inflowTo (functions : List Func) (owners : List BlockRef) (owner : BlockRef) : Option Int := do
  let func ← functions[owner.func]?
  let block ← func.graph.blocks[owner.block]?
  let outer := (func.graph.arcsOf block.entries).filter fun arc =>
    { func := owner.func, block := arc.src } ∉ owners
  return total (·.count) outer

/-- The flow into some blocks from without. -/
def externalInflow (functions : List Func) (owners : List BlockRef) : Option Int :=
  (owners.mapM (inflowTo functions owners)).map (total id)

namespace Registry

/-- Counts a line that several blocks have in common. -/
def countShared (functions : List Func) (r : Registry) (visit : Visit) : Outcome Registry Unit :=
  match r.line? visit.file visit.line with
  | none => .fail r .outOfRange
  | some line =>
    if line.isOwned then .ok r ()
    else
      match externalInflow functions line.owners with
      | none => .fail r .outOfRange
      | some count =>
        match r.mapLine? visit.file visit.line ({ · with count }) with
        | some r => .ok r ()
        | none => .fail r .outOfRange

/-- Counts the collected lines: first those that a block has for itself, then those that blocks
have in common. -/
def accumulateCounts (r : Registry) (functions : List Func) : Outcome Registry Unit :=
  (Outcome.forEach countOwned r (Func.allVisits functions)).bind fun r _ =>
    Outcome.forEach (countShared functions) r (Func.allVisits functions)

end Registry

end Coverage
