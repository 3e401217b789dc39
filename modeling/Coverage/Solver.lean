import Coverage.Machine
import Coverage.Source
import Coverage.Outcome

/-!
# Flow conservation

Only arcs off the spanning tree carry measured counts.  Every other count follows from
conservation: what enters a block leaves it.  A block whose count is not known waits on one stack;
it gets a count once all arcs of one side are resolved.  A block with a count waits on the other
stack; as soon as a single arc of one side is unresolved, that arc gets what the others leave
over, and the block at its far end may become ready in turn.  The solver works one stack off, then
the other, until both are empty.

The first block is entered and the last one left by way of edges that the graph does not have.  A
pending degree of `sentinelDegree` keeps these sides from ever counting as resolved.

Every step either resolves an arc or takes a block off a stack, which is why the solver stops on
every graph; see `State.weight`.
-/

namespace Coverage.Solver

/-! ## State -/

/-- The stacks of the solver. -/
inductive Stack where
  | unresolved
  | resolved
deriving DecidableEq, Repr

/-- A graph at work: both stacks, the topmost block first, and the one that is worked off. -/
structure State where
  graph : FlowGraph
  unresolved : List Nat
  resolved : List Nat
  focus : Stack
deriving DecidableEq, Repr

/-- Why solving stops early. -/
inductive Fault where
  /-- A block counts on an unresolved arc that it does not have. -/
  | inconsistent
  /-- A block that the graph does not have. -/
  | outOfRange
deriving DecidableEq, Repr

/-- The graph as far as it was solved, and the fault that stopped the solver. -/
structure Solution where
  graph : FlowGraph
  fault : Option Fault := none
deriving DecidableEq, Repr

/-- The pending degree of a side that an implicit edge belongs to. -/
def sentinelDegree : Int := 50000

/-! ## Start -/

/-- A pending degree in which an implicit edge is counted. -/
def sealDegree (degree : Int) : Int :=
  if degree = 0 then sentinelDegree else degree

/-- Counts in the implicit edges: the one into the first block and the one out of the last. -/
def sealEnds (g : FlowGraph) : FlowGraph :=
  if 2 ≤ g.size then
    (g.mapBlock 0 (·.mapPending .entries sealDegree)).mapBlock (g.size - 1)
      (·.mapPending .exits sealDegree)
  else g

/-- Marks all blocks as waiting for a count. -/
def queueAll (g : FlowGraph) : FlowGraph :=
  { g with blocks := (g.blocks.toList.map fun b => { b with onUnresolved := true }).toArray }

/-- The state before the first step: all blocks wait for a count, the last one on top. -/
def State.start (g : FlowGraph) : State where
  graph := queueAll (sealEnds g)
  unresolved := (List.range g.size).reverse
  resolved := []
  focus := .unresolved

/-! ## Giving counts to blocks -/

/-- The count of a block with a resolved side.  The exits are asked first; the entries decide when
they are resolved and the exits give nothing. -/
def throughFlow (g : FlowGraph) (block : Block) : Int :=
  let left := if block.pendingOut = 0 then g.sumOf block.exits else 0
  if block.pendingIn = 0 ∧ left = 0 then g.sumOf block.entries else left

/-- Takes the block `index` off the stack of blocks without a count, and gives it one if a side of
it is resolved. -/
def visit (s : State) (index : Nat) : Verdict State Solution :=
  match s.graph.blocks[index]? with
  | none => .stop { graph := s.graph, fault := some .outOfRange }
  | some block =>
    if block.pendingOut ≠ 0 ∧ block.pendingIn ≠ 0 then
      .next { s with graph := s.graph.mapBlock index fun b => { b with onUnresolved := false } }
    else
      .next
        { s with
          graph := s.graph.mapBlock index fun b =>
            { b with
              onUnresolved := false
              count := throughFlow s.graph block
              countValid := true
              onResolved := true }
          resolved := index :: s.resolved }

/-! ## Giving counts to arcs -/

/-- The last unresolved arc among some. -/
def lastUnresolved? (g : FlowGraph) (ids : List Nat) : Option Nat :=
  (ids.filter fun id => (g.arcs[id]?).any (!·.resolved)).getLast?

/-- What the resolved arcs among some leave over of a whole. -/
def leftOver (g : FlowGraph) (whole : Int) (ids : List Nat) : Int :=
  whole - total (·.count) ((g.arcsOf ids).filter (·.resolved))

/-- Puts a block back to work whose pending degree on some side has dropped to `pending`. -/
def requeue (s : State) (index : Nat) (pending : Int) : State :=
  match s.graph.blocks[index]? with
  | none => s
  | some block =>
    if block.countValid then
      if pending = 1 ∧ !block.onResolved then
        { s with
          graph := s.graph.mapBlock index fun b => { b with onResolved := true }
          resolved := index :: s.resolved }
      else s
    else if pending = 0 ∧ !block.onUnresolved then
      { s with
        graph := s.graph.mapBlock index fun b => { b with onUnresolved := true }
        unresolved := index :: s.unresolved }
    else s

/-- Resolves the last arc `id` on a side of the block `index`, of which `count` passes through. -/
def resolveArc (s : State) (index : Nat) (side : Side) (block : Block) (id : Nat) (arc : Arc) :
    Except Solution State :=
  let count := leftOver s.graph block.count (block.arcsOn side)
  let g := s.graph.mapArc id fun arc => { arc with count, resolved := true }
  let g := g.mapBlock index (·.mapPending side (· - 1))
  let far := arc.farEnd side
  match g.blocks[far]? with
  | none => .error { graph := g, fault := some .outOfRange }
  | some target =>
    let g := g.mapBlock far (·.mapPending side.opposite (· - 1))
    .ok (requeue { s with graph := g } far (target.pending side.opposite - 1))

/-- Resolves the arc that is left on a side of the block `index`, if a single one is. -/
def settleSide (s : State) (index : Nat) (side : Side) : Except Solution State :=
  match s.graph.blocks[index]? with
  | none => .error { graph := s.graph, fault := some .outOfRange }
  | some block =>
    if block.pending side = 1 then
      match lastUnresolved? s.graph (block.arcsOn side) with
      | none => .error { graph := s.graph, fault := some .inconsistent }
      | some id =>
        match s.graph.arcs[id]? with
        | none => .error { graph := s.graph, fault := some .outOfRange }
        | some arc => resolveArc s index side block id arc
    else .ok s

/-- Takes the block `index` off the stack of blocks with a count, and resolves what it leaves
over. -/
def settle (s : State) (index : Nat) : Verdict State Solution :=
  let taken := { s with graph := s.graph.mapBlock index fun b => { b with onResolved := false } }
  match settleSide taken index .exits with
  | .error solution => .stop solution
  | .ok half =>
    match settleSide half index .entries with
    | .error solution => .stop solution
    | .ok settled => .next settled

/-! ## Running -/

/-- Takes one block off a stack: off the one in focus, or off the other when that one is empty. -/
def step (s : State) : Verdict State Solution :=
  match s.focus, s.unresolved, s.resolved with
  | .unresolved, index :: rest, _ => visit { s with unresolved := rest } index
  | .unresolved, [], index :: rest => settle { s with resolved := rest, focus := .resolved } index
  | .resolved, _, index :: rest => settle { s with resolved := rest } index
  | .resolved, index :: rest, [] => visit { s with unresolved := rest, focus := .unresolved } index
  | _, [], [] => .stop { graph := s.graph }

/-- The number of arcs of a graph whose count is not known. -/
def unknowns (g : FlowGraph) : Nat :=
  g.arcs.toList.countP (!·.resolved)

/-- What the steps use up.  A visit turns a block of weight two into one of weight one, and a
resolved arc pays for the block that it puts back to work. -/
def State.weight (s : State) : Nat :=
  3 * unknowns s.graph + 2 * s.unresolved.length + s.resolved.length

theorem unknowns_mapBlock (g : FlowGraph) (index : Nat) (f : Block → Block) :
    unknowns (g.mapBlock index f) = unknowns g := rfl

theorem countP_modify_lt {α : Type} {p : α → Bool} {f : α → α} {l : List α} {i : Nat} {a : α}
    (ha : l[i]? = some a) (hp : p a = true) (hf : p (f a) = false) :
    (l.modify i f).countP p < l.countP p := by
  induction l generalizing i with
  | nil => simp at ha
  | cons b l ih =>
    cases i with
    | zero =>
      obtain rfl : b = a := by simpa using ha
      simp [hp, hf]
    | succ i =>
      have := ih (i := i) (by simpa using ha)
      simp only [List.modify_succ_cons, List.countP_cons]
      omega

/-- Resolving an unresolved arc leaves one unknown less. -/
theorem unknowns_mapArc_lt {g : FlowGraph} {id : Nat} {arc : Arc} (count : Int)
    (harc : g.arcs[id]? = some arc) (hres : arc.resolved = false) :
    unknowns (g.mapArc id fun arc => { arc with count, resolved := true }) < unknowns g := by
  simp only [unknowns, FlowGraph.mapArc, Array.toList_modify]
  exact countP_modify_lt (a := arc) (by simpa using harc) (by simp [hres]) rfl

theorem lastUnresolved?_spec {g : FlowGraph} {ids : List Nat} {id : Nat}
    (h : lastUnresolved? g ids = some id) :
    id ∈ ids ∧ ∃ arc, g.arcs[id]? = some arc ∧ arc.resolved = false := by
  have := List.mem_of_getLast? h
  simpa [Option.any_eq_true] using List.mem_filter.mp this

theorem weight_requeue (s : State) (index : Nat) (pending : Int) :
    (requeue s index pending).weight ≤ s.weight + 2 := by
  unfold requeue
  repeat' split
  all_goals simp only [State.weight, unknowns_mapBlock, List.length_cons]; omega

theorem weight_settleSide {s t : State} {index : Nat} {side : Side}
    (h : settleSide s index side = .ok t) : t.weight ≤ s.weight := by
  unfold settleSide at h
  split at h
  · cases h
  · next block _ =>
    split at h
    · split at h
      · cases h
      · next id hid =>
        obtain ⟨-, arc, harc, hres⟩ := lastUnresolved?_spec hid
        rw [harc] at h
        simp only [resolveArc] at h
        split at h
        · cases h
        · cases h
          refine Nat.le_trans (weight_requeue _ _ _) ?_
          have hlt :=
            unknowns_mapArc_lt (leftOver s.graph block.count (block.arcsOn side)) harc hres
          simp only [State.weight, unknowns_mapBlock]
          omega
    · cases h
      exact Nat.le_refl _

theorem weight_settle {s t : State} {index : Nat} (h : settle s index = .next t) :
    t.weight ≤ s.weight := by
  simp only [settle] at h
  split at h
  · cases h
  · next half hhalf =>
    split at h
    · cases h
    · next settled hsettled =>
      cases h
      have := weight_settleSide hhalf
      exact Nat.le_trans (weight_settleSide hsettled) this

theorem weight_visit {s t : State} {index : Nat} (h : visit s index = .next t) :
    t.weight ≤ s.weight + 1 := by
  unfold visit at h
  split at h
  · cases h
  · split at h
    · cases h
      simp only [State.weight, unknowns_mapBlock]
      omega
    · cases h
      simp only [State.weight, unknowns_mapBlock, List.length_cons]
      omega

/-- Every step uses something up. -/
theorem weight_step {s t : State} (h : step s = .next t) : t.weight < s.weight := by
  have visited : ∀ {g us rs f i}, visit ⟨g, us, rs, f⟩ i = .next t →
      t.weight ≤ 3 * unknowns g + 2 * us.length + rs.length + 1 := fun hv => weight_visit hv
  have settled : ∀ {g us rs f i}, settle ⟨g, us, rs, f⟩ i = .next t →
      t.weight ≤ 3 * unknowns g + 2 * us.length + rs.length := fun hs => weight_settle hs
  rcases s with ⟨g, _ | ⟨i, us⟩, _ | ⟨j, rs⟩, _ | _⟩
  · cases h
  · cases h
  · have := settled h
    simp only [State.weight, List.length_cons] at this ⊢
    omega
  · have := settled h
    simp only [State.weight, List.length_cons] at this ⊢
    omega
  · have := visited h
    simp only [State.weight, List.length_cons] at this ⊢
    omega
  · have := visited h
    simp only [State.weight, List.length_cons] at this ⊢
    omega
  · have := visited h
    simp only [State.weight, List.length_cons] at this ⊢
    omega
  · have := settled h
    simp only [State.weight, List.length_cons] at this ⊢
    omega

/-- The solver as a machine. -/
def machine : Machine State Solution where
  step := step
  measure := State.weight
  measure_lt _ _ := weight_step

end Coverage.Solver

namespace Coverage

/-- Derives all counts of a graph that follow from those of its resolved arcs. -/
def FlowGraph.solve (g : FlowGraph) : Solver.Solution :=
  Solver.machine.run (.start g)

namespace Func

/-- Derives the counts of a function's blocks and arcs.  Arcs of a graph with too few counters, or
of one in several pieces, may stay unresolved, with a count of zero. -/
def solve (func : Func) : Outcome Func Unit :=
  let solution := func.graph.solve
  let solved := { func with graph := solution.graph }
  match solution.fault with
  | some .inconsistent => .fail solved (.inconsistentCounts func.name)
  | some .outOfRange => .fail solved .outOfRange
  | none =>
    let left := solved.graph.unresolvedArcs.length
    { state := solved
      result := .ok ()
      log :=
        if left = 0 then []
        else [.unresolvedArcs func.name left solved.graph.orderedArcs.length] }

/-- Derives the counts of functions one after another, up to the first failure. -/
def solveAll : List Func → Outcome (List Func) Unit
  | [] => .ok [] ()
  | func :: rest =>
    let first := func.solve
    match first.result with
    | .ok _ =>
      let others := solveAll rest
      { others with state := first.state :: others.state, log := first.log ++ others.log }
    | .error error => { state := first.state :: rest, result := .error error, log := first.log }

end Func

end Coverage
