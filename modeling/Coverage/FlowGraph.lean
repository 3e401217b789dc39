import Coverage.Total

/-!
# Flow graphs

The control flow of a function: blocks, and arcs between them.  A block lists the arcs that leave
it and those that enter it by their numbers, in the order in which they were added; the number of
an arc is its position among all arcs of the graph.  Beside the graph proper, arcs and blocks
carry what is known about how often control passed through them.
-/

namespace Coverage

/-! ## Arcs -/

/-- An arc from one block to another. -/
structure Arc where
  src : Nat
  dst : Nat
  flags : Int := 0
  count : Int := 0
  /-- Whether `count` is known. -/
  resolved : Bool := false
deriving DecidableEq, Repr

namespace Arc

/-- Arcs of the spanning tree carry no counter: their counts follow from the others. -/
def onTree (arc : Arc) : Bool :=
  arc.flags % 2 == 1

/-- Arcs that stand for leaving a block in its middle, such as a call that does not return. -/
def fake (arc : Arc) : Bool :=
  arc.flags / 2 % 2 == 1

/-- Arcs that control takes without a jump. -/
def fallthrough (arc : Arc) : Bool :=
  arc.flags / 4 % 2 == 1

end Arc

/-! ## Blocks -/

/-- The two sides of a block: the arcs that leave it and those that enter it. -/
inductive Side where
  | exits
  | entries
deriving DecidableEq, Repr

namespace Side

/-- The other side. -/
def opposite : Side → Side
  | exits => entries
  | entries => exits

end Side

/-- The end of an arc that lies beyond the block on whose side it stands. -/
def Arc.farEnd (arc : Arc) : Side → Nat
  | .exits => arc.dst
  | .entries => arc.src

/-- A basic block. -/
structure Block where
  exits : List Nat := []
  entries : List Nat := []
  /-- The source lines of the block, as `Block.associations` reads them. -/
  lines : List Nat := []
  /-- The number of exits taken to be unresolved. -/
  pendingOut : Int := 0
  /-- The number of entries taken to be unresolved. -/
  pendingIn : Int := 0
  count : Int := 0
  /-- Whether `count` is known. -/
  countValid : Bool := false
  onUnresolved : Bool := false
  onResolved : Bool := false
  /-- Whether control may leave the block in its middle. -/
  callSite : Bool := false
deriving DecidableEq, Repr

/-- The pairs of source and line that an encoded list stands for.  A zero says that the next token
is the source of what follows; any other token is a line of the source named last, and is dropped
when none was named. -/
def associationsFrom {α : Type} [OfNat α 0] [DecidableEq α] : Option α → List α → List (α × α)
  | _, [] => []
  | source, token :: rest =>
    if token = 0 then
      match rest with
      | [] => []
      | next :: rest => associationsFrom (some next) rest
    else (source.map fun s => (s, token)).toList ++ associationsFrom source rest

namespace Block

/-- The pairs of source and line of a block, in the order in which they were attributed to it. -/
def associations (block : Block) : List (Nat × Nat) :=
  associationsFrom none block.lines

/-- The arcs on a side. -/
def arcsOn (block : Block) : Side → List Nat
  | .exits => block.exits
  | .entries => block.entries

/-- The number of arcs on a side that are taken to be unresolved. -/
def pending (block : Block) : Side → Int
  | .exits => block.pendingOut
  | .entries => block.pendingIn

/-- Changes the number of unresolved arcs on a side. -/
def mapPending (block : Block) (side : Side) (f : Int → Int) : Block :=
  match side with
  | .exits => { block with pendingOut := f block.pendingOut }
  | .entries => { block with pendingIn := f block.pendingIn }

/-- Puts an arc at the end of a side; an unresolved one is pending there. -/
def attach (block : Block) (side : Side) (id : Nat) (resolved : Bool) : Block :=
  let linked := match side with
    | .exits => { block with exits := block.exits ++ [id] }
    | .entries => { block with entries := block.entries ++ [id] }
  if resolved then linked else linked.mapPending side (· + 1)

end Block

/-! ## Graphs -/

/-- An arc as a block lists it among its exits. -/
structure Exit where
  block : Nat
  id : Nat
deriving DecidableEq, Repr

/-- The blocks and the arcs of a function. -/
structure FlowGraph where
  blocks : Array Block := #[]
  arcs : Array Arc := #[]
deriving DecidableEq, Repr

namespace FlowGraph

/-- So many blocks without arcs. -/
def ofSize (size : Nat) : FlowGraph where
  blocks := Array.replicate size {}

/-- The number of blocks. -/
def size (g : FlowGraph) : Nat :=
  g.blocks.size

/-- Changes a block. -/
def mapBlock (g : FlowGraph) (index : Nat) (f : Block → Block) : FlowGraph :=
  { g with blocks := g.blocks.modify index f }

/-- Changes an arc. -/
def mapArc (g : FlowGraph) (id : Nat) (f : Arc → Arc) : FlowGraph :=
  { g with arcs := g.arcs.modify id f }

/-- Adds an arc, last among the exits of its source and last among the entries of its destination.
-/
def addArc (g : FlowGraph) (arc : Arc) : FlowGraph :=
  let id := g.arcs.size
  let linked := (g.mapBlock arc.src (·.attach .exits id arc.resolved)).mapBlock arc.dst
    (·.attach .entries id arc.resolved)
  { linked with arcs := g.arcs.push arc }

/-- The arcs with the given numbers. -/
def arcsOf (g : FlowGraph) (ids : List Nat) : List Arc :=
  ids.filterMap (g.arcs[·]?)

/-- The numbers of all arcs, block by block and in the order of exits within a block. -/
def exitOrder (g : FlowGraph) : List Nat :=
  g.blocks.toList.flatMap (·.exits)

/-- All exits, block by block and in the order of exits within a block. -/
def listedExits (g : FlowGraph) : List Exit :=
  g.blocks.toList.zipIdx.flatMap fun (block, index) => block.exits.map (Exit.mk index)

/-- All arcs, block by block; counters are stored in this order. -/
def orderedArcs (g : FlowGraph) : List Arc :=
  g.arcsOf g.exitOrder

/-- The arcs that carry a counter. -/
def measuredArcs (g : FlowGraph) : List Arc :=
  g.orderedArcs.filter (!·.onTree)

/-- The arcs whose count is not known. -/
def unresolvedArcs (g : FlowGraph) : List Arc :=
  g.orderedArcs.filter (!·.resolved)

/-- The sum of the counts of some arcs. -/
def sumOf (g : FlowGraph) (ids : List Nat) : Int :=
  total (·.count) (g.arcsOf ids)

end FlowGraph

end Coverage
