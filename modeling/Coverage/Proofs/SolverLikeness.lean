import Coverage.Proofs.DataLikeness
import Coverage.Proofs.SolverSteps

/-!
# Solving functions that are alike

The solver sees degrees, counts and arcs, and none of the lines.  So it goes through graphs that are
alike side by side, and leaves graphs that are alike (`solve_alike`).  It takes blocks off its
stacks by number; all of them are blocks of the graph (`State.Alike.inRange`), and the arcs of a
linked graph end at blocks that there are.  What remains is one way to fail, counts that are
inconsistent.
-/

namespace Coverage

namespace Solver

/-! ## States -/

/-- `s.Alike r r' t`: both stacks hold the same blocks of graphs that are alike. -/
structure State.Alike (r r' : Registry) (s t : State) : Prop where
  graph : s.graph.Alike r r' t.graph
  unresolved : t.unresolved = s.unresolved
  resolved : t.resolved = s.resolved
  focus : t.focus = s.focus
  inRange : ∀ i, i ∈ s.unresolved ∨ i ∈ s.resolved → i < s.graph.size

/-- Graphs that are alike when the solver is done with them, which it is for the same reason. -/
structure Solution.Alike (r r' : Registry) (o o' : Solution) : Prop where
  graph : o.graph.Alike r r' o'.graph
  fault : o'.fault = o.fault
  inRange : o.fault ≠ some .outOfRange

variable {r r' : Registry} {s t : State}

/-- Steps on a side of a block that agree, and leave graphs of `size` blocks. -/
inductive SettlesAlike (r r' : Registry) (size : Nat) :
    Except Solution State → Except Solution State → Prop
  | ok {s t : State} : s.Alike r r' t → s.graph.size = size → SettlesAlike r r' size (.ok s) (.ok t)
  | error {o o' : Solution} : o.Alike r r' o' → SettlesAlike r r' size (.error o) (.error o')

/-! ### Marks on blocks -/

theorem inward_onUnresolved (mark : Bool) :
    Block.Inward fun b => { b with onUnresolved := mark } where
  withLines _ _ := rfl
  lines _ := rfl
  arcsOn _ s := by cases s <;> rfl

theorem inward_onResolved (mark : Bool) : Block.Inward fun b => { b with onResolved := mark } where
  withLines _ _ := rfl
  lines _ := rfl
  arcsOn _ s := by cases s <;> rfl

theorem inward_counted (count : Int) : Block.Inward fun b =>
    { b with onUnresolved := false, count, countValid := true, onResolved := true } where
  withLines _ _ := rfl
  lines _ := rfl
  arcsOn _ s := by cases s <;> rfl

/-! ### Changes on both sides -/

/-- Changes a block on both sides. -/
theorem State.Alike.mapBlock (h : s.Alike r r' t) (index : Nat) {f : Block → Block}
    (hf : Block.Inward f) :
    ({ s with graph := s.graph.mapBlock index f } : State).Alike r r'
      { t with graph := t.graph.mapBlock index f } where
  graph := h.graph.mapBlock index hf
  unresolved := h.unresolved
  resolved := h.resolved
  focus := h.focus
  inRange i hi := by
    rw [FlowGraph.mapBlock_size]
    exact h.inRange i hi

/-- Puts a block on the stack of blocks with a count. -/
theorem State.Alike.pushResolved (h : s.Alike r r' t) {index : Nat}
    (hindex : index < s.graph.size) :
    ({ s with resolved := index :: s.resolved } : State).Alike r r'
      { t with resolved := index :: t.resolved } where
  graph := h.graph
  unresolved := h.unresolved
  resolved := congrArg (index :: ·) h.resolved
  focus := h.focus
  inRange i hi := by
    rcases hi with hi | hi
    · exact h.inRange i (.inl hi)
    · rcases List.mem_cons.mp hi with rfl | hi
      · exact hindex
      · exact h.inRange i (.inr hi)

/-- Puts a block on the stack of blocks without a count. -/
theorem State.Alike.pushUnresolved (h : s.Alike r r' t) {index : Nat}
    (hindex : index < s.graph.size) :
    ({ s with unresolved := index :: s.unresolved } : State).Alike r r'
      { t with unresolved := index :: t.unresolved } where
  graph := h.graph
  unresolved := congrArg (index :: ·) h.unresolved
  resolved := h.resolved
  focus := h.focus
  inRange i hi := by
    rcases hi with hi | hi
    · rcases List.mem_cons.mp hi with rfl | hi
      · exact hindex
      · exact h.inRange i (.inl hi)
    · exact h.inRange i (.inr hi)

theorem State.Alike.exists_block (h : s.Alike r r' t) (index : Nat)
    (hindex : index < s.graph.size) : ∃ b lines, s.graph.blocks[index]? = some b
      ∧ t.graph.blocks[index]? = some (b.withLines lines) := by
  obtain ⟨b, hb⟩ := FlowGraph.exists_block hindex
  obtain ⟨b', hb', hlike⟩ := optionRel_of_left (h.graph.blocks index) hb
  obtain ⟨-, -⟩ := hlike
  exact ⟨b, _, hb, hb'⟩

/-! ## Giving counts to blocks -/

theorem throughFlow_alike {g g' : FlowGraph} (h : g.Alike r r' g') (b : Block)
    (lines : List Nat) : throughFlow g' (b.withLines lines) = throughFlow g b := by
  have hsum : ∀ ids, g'.sumOf ids = g.sumOf ids := by
    intro ids
    rw [FlowGraph.sumOf, FlowGraph.sumOf, h.arcsOf_eq]
  simp only [throughFlow, hsum]
  rfl

theorem State.Alike.visit (h : s.Alike r r' t) {index : Nat} (hindex : index < s.graph.size) :
    (Solver.visit s index).Agrees (State.Alike r r') (Solution.Alike r r')
      (Solver.visit t index) := by
  obtain ⟨b, lines, hb, hb'⟩ := h.exists_block index hindex
  have hout : (b.withLines lines).pendingOut = b.pendingOut := rfl
  have hin : (b.withLines lines).pendingIn = b.pendingIn := rfl
  simp only [Solver.visit, hb, hb', hout, hin, throughFlow_alike h.graph]
  split
  · exact .next (h.mapBlock index (inward_onUnresolved false))
  · refine .next ?_
    have hcounted := h.mapBlock index (inward_counted (throughFlow s.graph b))
    exact hcounted.pushResolved (by rwa [FlowGraph.mapBlock_size])

/-! ## Giving counts to arcs -/

theorem State.Alike.requeue (h : s.Alike r r' t) {index : Nat} (hindex : index < s.graph.size)
    (pending : Int) :
    (Solver.requeue s index pending).Alike r r' (Solver.requeue t index pending) := by
  obtain ⟨b, lines, hb, hb'⟩ := h.exists_block index hindex
  have hvalid : (b.withLines lines).countValid = b.countValid := rfl
  have honResolved : (b.withLines lines).onResolved = b.onResolved := rfl
  have honUnresolved : (b.withLines lines).onUnresolved = b.onUnresolved := rfl
  simp only [Solver.requeue, hb, hb', hvalid, honResolved, honUnresolved]
  have hsize : ∀ f, index < (s.graph.mapBlock index f).size := by
    intro f
    rwa [FlowGraph.mapBlock_size]
  split
  · split
    · exact (h.mapBlock index (inward_onResolved true)).pushResolved (hsize _)
    · exact h
  · split
    · exact (h.mapBlock index (inward_onUnresolved true)).pushUnresolved (hsize _)
    · exact h

theorem leftOver_alike {g g' : FlowGraph} (h : g.Alike r r' g') (whole : Int) (ids : List Nat) :
    leftOver g' whole ids = leftOver g whole ids := by
  rw [leftOver, leftOver, h.arcsOf_eq]

theorem lastUnresolved?_alike {g g' : FlowGraph} (h : g.Alike r r' g') (ids : List Nat) :
    lastUnresolved? g' ids = lastUnresolved? g ids := by
  rw [lastUnresolved?, lastUnresolved?, h.arcs]

/-- Gives an arc its count on both sides. -/
theorem State.Alike.mapArc (h : s.Alike r r' t) (id : Nat) (count : Int) :
    ({ s with graph := s.graph.mapArc id fun arc => { arc with count, resolved := true } } :
      State).Alike r r'
      { t with graph := t.graph.mapArc id fun arc => { arc with count, resolved := true } } where
  graph := h.graph.mapArc id fun arc side => by cases side <;> rfl
  unresolved := h.unresolved
  resolved := h.resolved
  focus := h.focus
  inRange := h.inRange

theorem State.Alike.resolveArc (h : s.Alike r r' t) (index : Nat) (side : Side) (b : Block)
    (lines : List Nat) {id : Nat} {arc : Arc} (harc : s.graph.arcs[id]? = some arc) :
    SettlesAlike r r' s.graph.size (Solver.resolveArc s index side b id arc)
      (Solver.resolveArc t index side (b.withLines lines) id arc) := by
  have hcount : (b.withLines lines).count = b.count := rfl
  simp only [Solver.resolveArc, hcount, Block.withLines_arcsOn, leftOver_alike h.graph]
  have hcounted := (h.mapArc id (leftOver s.graph b.count (b.arcsOn side))).mapBlock index
    (Block.inward_mapPending side (· - 1))
  have hfar : arc.farEnd side < s.graph.size := by
    rw [← Arc.nearEnd_opposite]
    exact h.graph.linked.nearEnd_lt harc side.opposite
  obtain ⟨target, lines', htarget, htarget'⟩ := hcounted.exists_block (arc.farEnd side)
    (by rwa [FlowGraph.mapBlock_size])
  simp only [htarget, htarget', Block.withLines_pending]
  refine .ok ((hcounted.mapBlock _ (Block.inward_mapPending side.opposite (· - 1))).requeue
    (by rwa [FlowGraph.mapBlock_size, FlowGraph.mapBlock_size]) _) ?_
  rw [(requeue_gains _ _ _).size, FlowGraph.mapBlock_size, FlowGraph.mapBlock_size]
  rfl

theorem State.Alike.settleSide (h : s.Alike r r' t) (index : Nat) (hindex : index < s.graph.size)
    (side : Side) :
    SettlesAlike r r' s.graph.size (Solver.settleSide s index side)
      (Solver.settleSide t index side) := by
  obtain ⟨b, lines, hb, hb'⟩ := h.exists_block index hindex
  simp only [Solver.settleSide, hb, hb', Block.withLines_pending, Block.withLines_arcsOn,
    lastUnresolved?_alike h.graph]
  split
  · cases hid : lastUnresolved? s.graph (b.arcsOn side) with
    | none => exact .error ⟨h.graph, rfl, by simp⟩
    | some id =>
      obtain ⟨-, arc, harc, -⟩ := lastUnresolved?_spec hid
      simp only [h.graph.arcs, harc]
      exact h.resolveArc index side b lines harc
  · exact .ok h rfl

theorem State.Alike.settle (h : s.Alike r r' t) {index : Nat} (hindex : index < s.graph.size) :
    (Solver.settle s index).Agrees (State.Alike r r') (Solution.Alike r r')
      (Solver.settle t index) := by
  have htaken := h.mapBlock index (inward_onResolved false)
  have hfirst := htaken.settleSide index (by rwa [FlowGraph.mapBlock_size]) .exits
  unfold Solver.settle
  dsimp only
  revert hfirst
  generalize Solver.settleSide { s with graph := _ } index .exits = half
  generalize Solver.settleSide { t with graph := _ } index .exits = half'
  intro hfirst
  cases hfirst with
  | error hsolution => exact .stop hsolution
  | @ok half half' hhalf hsize =>
    have hsecond := hhalf.settleSide index
      (by rwa [hsize, FlowGraph.mapBlock_size]) .entries
    dsimp only
    revert hsecond
    generalize Solver.settleSide half index .entries = settled
    generalize Solver.settleSide half' index .entries = settled'
    intro hsecond
    cases hsecond with
    | error hsolution => exact .stop hsolution
    | ok hsettled _ => exact .next hsettled

/-! ## Running -/

/-- One step on graphs that are alike. -/
theorem State.Alike.step (h : s.Alike r r' t) :
    (Solver.step s).Agrees (State.Alike r r') (Solution.Alike r r') (Solver.step t) := by
  obtain ⟨g, _, _, _⟩ := s
  obtain ⟨g', unresolved, resolved, focus⟩ := t
  obtain ⟨hgraph, rfl, rfl, rfl, hrange⟩ := h
  have taken : ∀ {us rs : List Nat} (f : Stack), us ⊆ unresolved → rs ⊆ resolved →
      State.Alike r r' ⟨g, us, rs, f⟩ ⟨g', us, rs, f⟩ := by
    intro us rs f hus hrs
    exact ⟨hgraph, rfl, rfl, rfl, fun i hi => hrange i (hi.imp (@hus i) (@hrs i))⟩
  have stopped : (Verdict.stop { graph := g } : Verdict State Solution).Agrees
      (State.Alike r r') (Solution.Alike r r') (.stop { graph := g' }) :=
    .stop ⟨hgraph, rfl, by simp⟩
  rcases unresolved with _ | ⟨i, us⟩ <;> rcases resolved with _ | ⟨j, rs⟩ <;>
    rcases focus with _ | _
  · exact stopped
  · exact stopped
  · exact (taken .resolved (List.Subset.refl _) (List.subset_cons_self _ _)).settle
      (hrange j (.inr List.mem_cons_self))
  · exact (taken .resolved (List.Subset.refl _) (List.subset_cons_self _ _)).settle
      (hrange j (.inr List.mem_cons_self))
  · exact (taken .unresolved (List.subset_cons_self _ _) (List.Subset.refl _)).visit
      (hrange i (.inl List.mem_cons_self))
  · exact (taken .unresolved (List.subset_cons_self _ _) (List.Subset.refl _)).visit
      (hrange i (.inl List.mem_cons_self))
  · exact (taken .unresolved (List.subset_cons_self _ _) (List.Subset.refl _)).visit
      (hrange i (.inl List.mem_cons_self))
  · exact (taken .resolved (List.Subset.refl _) (List.subset_cons_self _ _)).settle
      (hrange j (.inr List.mem_cons_self))

/-! ## Start -/

theorem queueAll_getElem? (g : FlowGraph) (i : Nat) :
    (queueAll g).blocks[i]? = (g.blocks[i]?).map fun b => { b with onUnresolved := true } := by
  simp [queueAll]

theorem queueAll_alike {g g' : FlowGraph} (h : g.Alike r r' g') :
    (queueAll g).Alike r r' (queueAll g') where
  arcs := h.arcs
  blocks i := by
    rw [queueAll_getElem?, queueAll_getElem?]
    exact optionRel_map (h.blocks i) fun _ _ hlike => hlike.inward (inward_onUnresolved true)
  linked := by
    refine h.linked.of_sides (fun i s => ?_) fun _ _ => rfl
    rw [FlowGraph.side, FlowGraph.side, queueAll_getElem?]
    cases g.blocks[i]? with
    | none => rfl
    | some b => cases s <;> rfl

theorem sealEnds_alike {g g' : FlowGraph} (h : g.Alike r r' g') :
    (sealEnds g).Alike r r' (sealEnds g') := by
  unfold sealEnds
  rw [h.size]
  split
  · exact (h.mapBlock 0 (Block.inward_mapPending _ _)).mapBlock _ (Block.inward_mapPending _ _)
  · exact h

theorem State.Alike.start {g g' : FlowGraph} (h : g.Alike r r' g') :
    (State.start g).Alike r r' (State.start g') where
  graph := queueAll_alike (sealEnds_alike h)
  unresolved := by rw [State.start, State.start, h.size]
  resolved := rfl
  focus := rfl
  inRange i hi := by
    rw [(start_gains g).size]
    rcases hi with hi | hi
    · exact List.mem_range.mp (List.mem_reverse.mp hi)
    · cases hi

end Solver

/-- Graphs that are alike are solved alike. -/
theorem FlowGraph.Alike.solve {r r' : Registry} {g g' : FlowGraph} (h : g.Alike r r' g') :
    g.solve.Alike r r' g'.solve :=
  Machine.run_agrees (fun _ _ hst => hst.step) (Solver.State.Alike.start h)

namespace Func

variable {r r' : Registry}

/-- Functions that are alike are solved alike. -/
theorem Alike.solve {func func' : Func} (h : func.Alike r r' func') :
    func.solve.state.Alike r r' func'.solve.state
      ∧ EndsAlike (fun _ _ => True) func.solve.result func'.solve.result := by
  obtain ⟨hgraph⟩ := h
  obtain ⟨hsolved, hfault, hrange⟩ := hgraph.solve
  unfold Func.solve
  dsimp only
  rw [hfault]
  cases hcase : func.graph.solve.fault with
  | none => exact ⟨.of_graph { func with graph := func.graph.solve.graph } hsolved, .ok trivial⟩
  | some fault =>
    cases fault with
    | inconsistent =>
      exact ⟨.of_graph { func with graph := func.graph.solve.graph } hsolved,
        .error (by simp [CoverageError.kind])⟩
    | outOfRange => exact absurd hcase hrange

/-- All functions of a list are solved, if the list is. -/
theorem solve_of_solveAll {functions : List Func} (h : (solveAll functions).result = .ok ()) :
    ∀ func ∈ functions, func.solve.result = .ok () := by
  induction functions with
  | nil => simp
  | cons func rest ih =>
    unfold solveAll at h
    dsimp only at h
    split at h
    · next hfirst =>
      intro other hother
      rcases List.mem_cons.mp hother with rfl | hother
      · exact hfirst
      · exact ih h other hother
    · cases h

/-- A list of functions fails as one of them does. -/
theorem exists_of_solveAll_error {functions : List Func} {error : CoverageError}
    (h : (solveAll functions).result = .error error) :
    ∃ func ∈ functions, func.solve.result = .error error := by
  induction functions with
  | nil => cases h
  | cons func rest ih =>
    unfold solveAll at h
    dsimp only at h
    split at h
    · obtain ⟨other, hother, herror⟩ := ih h
      exact ⟨other, List.mem_cons_of_mem _ hother, herror⟩
    · next hfirst =>
      cases h
      exact ⟨func, List.mem_cons_self, hfirst⟩

end Func

end Coverage
