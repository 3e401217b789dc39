import Coverage.Proofs.Bookkeeping
import Coverage.Proofs.FlowRecovery
import Mathlib.Logic.Function.Iterate

/-!
# Solving again

The solver puts all blocks to work, whatever it is given, and so it goes over a graph that it has
solved before.  There it finds counts that look as if they were not to be touched again, and
degrees that were sealed.  It computes every count anew, perhaps from another side than the first
time, and it looks for arcs that it could resolve.

`Settled` says that nothing comes of it: a count computed anew is the one that stands there, and no
arc is left over alone on a side of a block with a count.  The run on a settled graph moves blocks
from one stack to the other and changes nothing but their marks (`AtRest`).  A graph that was solved
is settled if there is a flow that its counters agree with, because then all sides of a block tell
the same count.  Counters that contradict each other may change the counts with every run.

* `Settled.solve_eq` — a settled graph is left as it is;
* `Invariant.settled` — what the solver leaves is settled, if there is a flow;
* `iterate_solve` — solving any number of times is solving once.
-/

namespace Coverage

namespace FlowGraph

theorem ext_blocks {g h : FlowGraph} (harcs : g.arcs = h.arcs)
    (hblocks : ∀ i : Nat, g.blocks[i]? = h.blocks[i]?) : g = h := by
  obtain ⟨blocks, arcs⟩ := g
  obtain ⟨blocks', arcs'⟩ := h
  obtain rfl : blocks = blocks' := Array.ext_getElem? hblocks
  cases harcs
  rfl

/-- A change that leaves the block as it is. -/
theorem mapBlock_eq_self {g : FlowGraph} {i : Nat} {f : Block → Block}
    (hf : ∀ b, g.blocks[i]? = some b → f b = b) : g.mapBlock i f = g := by
  refine ext_blocks rfl fun j => ?_
  rw [getElem?_mapBlock]
  split
  · next hij =>
    subst hij
    cases hb : g.blocks[i]? with
    | none => rfl
    | some b => rw [Option.map_some, hf b hb]
  · rfl

end FlowGraph

namespace Solver

open FlowGraph

variable {g h : FlowGraph} {s t : State} {i : Nat}

/-! ## Graphs with nothing to do -/

/-- A graph in which the solver has nothing left to do. -/
structure Settled (h : FlowGraph) : Prop where
  /-- A block that would be given a count has it. -/
  counted : ∀ (i : Nat) (b : Block), h.blocks[i]? = some b →
    ¬ (b.pendingOut ≠ 0 ∧ b.pendingIn ≠ 0) → b.countValid = true ∧ throughFlow h b = b.count
  /-- No arc is left over for a block with a count. -/
  exhausted : ∀ (i : Nat) (b : Block) (t : Side), h.blocks[i]? = some b → b.countValid = true →
    b.pending t ≠ 1
  unmarked : ∀ (i : Nat) (b : Block), h.blocks[i]? = some b →
    b.onUnresolved = false ∧ b.onResolved = false
  /-- Implicit edges have been counted in. -/
  ends : sealEnds h = h

/-- A graph with marks for the blocks on two stacks. -/
def marked (h : FlowGraph) (us rs : List Nat) : FlowGraph :=
  { h with
    blocks := h.blocks.mapIdx fun i b =>
      { b with onUnresolved := decide (i ∈ us), onResolved := decide (i ∈ rs) } }

theorem marked_block (h : FlowGraph) (us rs : List Nat) (i : Nat) :
    (marked h us rs).blocks[i]? = (h.blocks[i]?).map fun b =>
      { b with onUnresolved := decide (i ∈ us), onResolved := decide (i ∈ rs) } := by
  simp [marked]

theorem Settled.marked_nil (hh : Settled h) : marked h [] [] = h := by
  refine ext_blocks rfl fun i => ?_
  rw [marked_block]
  cases hb : h.blocks[i]? with
  | none => rfl
  | some b =>
    obtain ⟨hu, hr⟩ := hh.unmarked i b hb
    obtain ⟨exits, entries, lines, pendingOut, pendingIn, count, valid, u, r, callSite⟩ := b
    cases hu
    cases hr
    rfl

/-- A change of one block that comes down to its marks. -/
theorem mapBlock_marked {us rs us' rs' : List Nat} {f : Block → Block}
    (hother : ∀ j, j ≠ i → (j ∈ us' ↔ j ∈ us) ∧ (j ∈ rs' ↔ j ∈ rs))
    (hf : ∀ b, h.blocks[i]? = some b →
      f { b with onUnresolved := decide (i ∈ us), onResolved := decide (i ∈ rs) }
        = { b with onUnresolved := decide (i ∈ us'), onResolved := decide (i ∈ rs') }) :
    (marked h us rs).mapBlock i f = marked h us' rs' := by
  refine ext_blocks rfl fun j => ?_
  rw [getElem?_mapBlock, marked_block, marked_block]
  split
  · next hij =>
    subst hij
    cases hb : h.blocks[i]? with
    | none => rfl
    | some b => simp only [Option.map_some, hf b hb]
  · next hij =>
    obtain ⟨hu, hr⟩ := hother j (Ne.symm hij)
    simp only [hu, hr]

/-! ## Runs without effect -/

/-- A state of a run on a settled graph: all that has changed are marks. -/
structure AtRest (h : FlowGraph) (s : State) : Prop where
  graph : s.graph = marked h s.unresolved s.resolved
  nodup : (s.unresolved ++ s.resolved).Nodup
  inRange : ∀ i ∈ s.unresolved, i < h.size
  /-- Blocks that give counts to arcs have a count. -/
  valid : ∀ i ∈ s.resolved, ∃ b, h.blocks[i]? = some b ∧ b.countValid = true

theorem Settled.atRest_start (hh : Settled h) : AtRest h (.start h) where
  graph := by
    refine ext_blocks (start_arcs h) fun i => ?_
    rw [marked_block, State.start, hh.ends]
    cases hb : h.blocks[i]? with
    | none => simp [queueAll, hb]
    | some b =>
      have hi : i < h.size := lt_of_getElem? hb
      obtain ⟨-, hr⟩ := hh.unmarked i b hb
      simp [queueAll, hb, hi, ← hr]
  nodup := by
    rw [State.start, List.append_nil]
    exact List.nodup_reverse.mpr List.nodup_range
  inRange := by simp [State.start]
  valid := by simp [State.start]

/-- A block is taken off its stack, and what it is given is what it has. -/
theorem AtRest.visit (hh : Settled h) {us rs : List Nat} {focus focus' : Stack}
    (hs : AtRest h ⟨marked h (i :: us) rs, i :: us, rs, focus⟩) :
    ∃ t, visit ⟨marked h (i :: us) rs, us, rs, focus'⟩ i = .next t ∧ AtRest h t := by
  obtain ⟨b, hb⟩ := exists_block (hs.inRange i List.mem_cons_self)
  have hnodup : i ∉ us ++ rs ∧ (us ++ rs).Nodup := List.nodup_cons.mp hs.nodup
  have hus : i ∉ us := fun hi => hnodup.1 (List.mem_append_left rs hi)
  have hrs : i ∉ rs := fun hi => hnodup.1 (List.mem_append_right us hi)
  have hinRange : ∀ j ∈ us, j < h.size := fun j hj => hs.inRange j (List.mem_cons_of_mem i hj)
  unfold Solver.visit
  dsimp only
  rw [marked_block, hb, Option.map_some]
  dsimp only
  split
  · -- both sides are pending
    have hgraph : (marked h (i :: us) rs).mapBlock i (fun b => { b with onUnresolved := false })
        = marked h us rs :=
      mapBlock_marked (fun j hj => ⟨by simp [hj], Iff.rfl⟩) fun b' _ => by simp [hus]
    exact ⟨_, rfl, hgraph, hnodup.2, hinRange, hs.valid⟩
  · next hpending =>
    obtain ⟨hvalid, hcount⟩ := hh.counted i b hb hpending
    have hgraph : (marked h (i :: us) rs).mapBlock i (fun b' =>
        { b' with
          onUnresolved := false
          count := throughFlow (marked h (i :: us) rs)
            { b with onUnresolved := decide (i ∈ i :: us), onResolved := decide (i ∈ rs) }
          countValid := true
          onResolved := true }) = marked h us (i :: rs) := by
      refine mapBlock_marked (fun j hj => ⟨by simp [hj], by simp [hj]⟩) fun b' hb' => ?_
      obtain rfl : b' = b := Option.some.inj (hb'.symm.trans hb)
      have hflow : throughFlow (marked h (i :: us) rs)
          { b' with onUnresolved := decide (i ∈ i :: us), onResolved := decide (i ∈ rs) }
          = b'.count := hcount
      rw [hflow]
      simp [hus, ← hvalid]
    refine ⟨_, rfl, hgraph, ?_, hinRange, ?_⟩
    · exact (List.perm_middle.nodup_iff).mpr hs.nodup
    · exact List.forall_mem_cons.mpr ⟨⟨b, hb, hvalid⟩, hs.valid⟩

/-- A block with a count finds nothing to resolve. -/
theorem AtRest.settle (hh : Settled h) {us rs : List Nat} {focus focus' : Stack}
    (hs : AtRest h ⟨marked h us (i :: rs), us, i :: rs, focus⟩) :
    ∃ t, settle ⟨marked h us (i :: rs), us, rs, focus'⟩ i = .next t ∧ AtRest h t := by
  obtain ⟨b, hb, hvalid⟩ := hs.valid i List.mem_cons_self
  have hnodup : i ∉ us ++ rs ∧ (us ++ rs).Nodup :=
    List.nodup_cons.mp ((List.perm_middle.nodup_iff).mp hs.nodup)
  have hrs : i ∉ rs := fun hi => hnodup.1 (List.mem_append_right us hi)
  have hmarks : (marked h us (i :: rs)).mapBlock i (fun b => { b with onResolved := false })
      = marked h us rs :=
    mapBlock_marked (fun j hj => ⟨Iff.rfl, by simp [hj]⟩) fun b' _ => by simp [hrs]
  have hgraph : unmark ⟨marked h us (i :: rs), us, rs, focus'⟩ i
      = ⟨marked h us rs, us, rs, focus'⟩ := by
    rw [unmark, hmarks]
  have hside : ∀ t : Side,
      settleSide ⟨marked h us rs, us, rs, focus'⟩ i t = .ok ⟨marked h us rs, us, rs, focus'⟩ := by
    intro t
    have hone := hh.exhausted i b t hb hvalid
    have hpending : Block.pending
        { b with onUnresolved := decide (i ∈ us), onResolved := decide (i ∈ rs) } t
        = b.pending t := by cases t <;> rfl
    unfold settleSide
    dsimp only
    rw [marked_block, hb, Option.map_some]
    dsimp only
    rw [hpending, if_neg hone]
  rw [settle_eq, hgraph, hside]
  dsimp only
  rw [hside]
  exact ⟨_, rfl, rfl, hnodup.2, hs.inRange, fun j hj => hs.valid j (List.mem_cons_of_mem i hj)⟩

/-- A step of a run without effect is another one, or both stacks are empty and the solver stops. -/
theorem AtRest.step (hh : Settled h) (hs : AtRest h s) :
    (∃ t, step s = .next t ∧ AtRest h t) ∨ step s = .stop { graph := h } := by
  obtain ⟨graph, unresolved, resolved, focus⟩ := s
  have hgraph : graph = marked h unresolved resolved := hs.graph
  rcases step_cases ⟨graph, unresolved, resolved, focus⟩ with
    ⟨i, us, hus, -, hstep⟩ | ⟨i, rs, hrs, -, hstep⟩ | ⟨hus, hrs, hstep⟩
  · obtain rfl : unresolved = i :: us := hus
    subst hgraph
    rw [hstep]
    exact .inl (hs.visit hh)
  · obtain rfl : resolved = i :: rs := hrs
    subst hgraph
    rw [hstep]
    exact .inl (hs.settle hh)
  · obtain rfl : unresolved = [] := hus
    obtain rfl : resolved = [] := hrs
    rw [hh.marked_nil] at hgraph
    rw [hstep, hgraph]
    exact .inr rfl

/-- A settled graph is left as it is. -/
theorem Settled.solve_eq (hh : Settled h) : h.solve = { graph := h } := by
  have hkeep : ∀ s t, machine.step s = .next t → AtRest h s → AtRest h t := by
    intro s t hstep hs
    change step s = .next t at hstep
    rcases hs.step hh with ⟨t', hnext, ht'⟩ | hstop
    · rw [hstep] at hnext
      cases hnext
      exact ht'
    · rw [hstep] at hstop
      cases hstop
  obtain ⟨last, hreach, hstop⟩ := machine.exists_reaches_stop (.start h)
  have hlast : AtRest h last := hreach.invariant machine hkeep hh.atRest_start
  change step last = .stop h.solve at hstop
  rcases hlast.step hh with ⟨t, hnext, -⟩ | hend
  · rw [hstop] at hnext
    cases hnext
  · exact Verdict.stop.inj (hstop.symm.trans hend)

/-! ## Solved graphs -/

/-- Implicit edges are not counted in twice. -/
theorem Invariant.sealEnds_eq (hs : Invariant g (fun _ _ => False) s) (hg : g.Linked)
    (hends : g.HasEnds) : sealEnds s.graph = s.graph := by
  have hsealed : ∀ i t, (i = 0 ∧ t = .entries) ∨ (i = g.size - 1 ∧ t = .exits) →
      ∀ b, s.graph.blocks[i]? = some b → b.pending t = sentinelDegree :=
    fun i t hend b hb => (hs.block i b hb).degree_sealed t ((hends.sealed_iff hg i t).mpr hend)
  have hfirst : s.graph.mapBlock 0 (·.mapPending .entries sealDegree) = s.graph := by
    refine mapBlock_eq_self fun b hb => ?_
    have hpending : b.pendingIn = sentinelDegree := hsealed 0 .entries (.inl ⟨rfl, rfl⟩) b hb
    rw [Block.mapPending, hpending, sealDegree, if_neg (by decide), ← hpending]
  have hlast : s.graph.mapBlock (g.size - 1) (·.mapPending .exits sealDegree) = s.graph := by
    refine mapBlock_eq_self fun b hb => ?_
    have hpending : b.pendingOut = sentinelDegree := hsealed _ .exits (.inr ⟨rfl, rfl⟩) b hb
    rw [Block.mapPending, hpending, sealDegree, if_neg (by decide), ← hpending]
  unfold sealEnds
  rw [hfirst, hs.size, hlast, ite_self]

/-- When both stacks are empty and all that is known agrees with a flow, the graph is settled. -/
theorem Invariant.settled (hs : Invariant g (fun _ _ => False) s) (hg : g.Linked)
    (hends : g.HasEnds) (hus : s.unresolved = []) (hrs : s.resolved = []) {f : Nat → Int}
    (hf : Conserved g f) (hagrees : s.graph.knowledge.Agrees g f) : Settled s.graph where
  counted i b hb hpending := by
    have hold := hs.block i b hb
    have hzero : ∃ t, b.pending t = 0 := by
      by_cases hout : b.pendingOut = 0
      · exact ⟨.exits, hout⟩
      · exact ⟨.entries, by_contra fun hin => hpending ⟨hout, hin⟩⟩
    have hvalid : b.countValid = true := by
      by_contra hinvalid
      obtain ⟨t, hzero⟩ := hzero
      rcases hold.ready t (by simpa using hinvalid) hzero with hwaits | hdue
      · have := hold.onUnresolved.mpr hwaits
        simp [hus] at this
      · exact hdue
    -- the count that stands there came from some side, and a flow is the same on all of them
    obtain ⟨t, hsealed, hknows, hflow⟩ := hs.exists_throughFlow hg hb hpending
    have hi : i < g.size := hs.size ▸ lt_of_getElem? hb
    refine ⟨hvalid, ?_⟩
    calc throughFlow s.graph b
        = total f (g.side i t) := by rw [hflow, hagrees.sum_eq hknows]
      _ = g.throughput f i := hf.total_side hg hends hi hsealed
      _ = b.count := (hagrees.block i _ (knowledge_block_of_valid hb hvalid)).symm
  exhausted i b t hb hvalid hone := by
    have hold := hs.block i b hb
    rcases hold.active t hvalid hone with hwaits | hdue
    · have := hold.onResolved.mpr hwaits
      simp [hrs] at this
    · exact hdue
  unmarked i b hb := hs.accounted.flags_cleared hus hrs hb
  ends := hs.sealEnds_eq hg hends

/-- What the solver makes of a prepared graph whose counters agree with a flow is settled. -/
theorem settled_solve (hg : g.Prepared) (hends : g.HasEnds) {f : Nat → Int} (hf : Conserved g f)
    (hmeasured : ∀ (id : Nat) (arc : Arc), g.arcs[id]? = some arc → arc.resolved = true →
      arc.count = f id) : Settled g.solve.graph := by
  obtain ⟨last, -, hrun, hlast, hus, hrs, -⟩ := (invariant_start hg).run hg.linked
  have hsolve : g.solve = { graph := last.graph } := hrun
  have hagrees := (solve_spec hg).2.agrees hg hends hf hmeasured
  rw [hsolve] at hagrees ⊢
  exact hlast.settled hg.linked hends hus hrs hf hagrees

end Solver

/-! ## Solving any number of times -/

/-- Solving a function again has the same outcome if solving its graph again has. -/
theorem Func.solve_solved {func : Func} (hsolve : func.graph.solve.graph.solve = func.graph.solve) :
    func.solve.state.solve = func.solve := by
  rw [func.solve_state]
  unfold Func.solve
  rw [hsolve]

open Solver in
/-- Solving a function again changes nothing if its counters agree with a flow, however little was
measured: the second run has the outcome of the first, and so has every further one. -/
theorem iterate_solve (func : Func) (hg : func.graph.Prepared) (hends : func.graph.HasEnds)
    (f : Nat → Int) (hf : Conserved func.graph f)
    (hmeasured : ∀ (id : Nat) (arc : Arc), func.graph.arcs[id]? = some arc → arc.resolved = true →
      arc.count = f id) :
    func.solve.result = .ok () ∧ func.solve.state.solve = func.solve
      ∧ ∀ k, 1 ≤ k → (fun func : Func => func.solve.state)^[k] func = func.solve.state := by
  have hfault : func.graph.solve.fault = none := (solve_spec hg).1
  have hsettled := settled_solve hg hends hf hmeasured
  have hsolve : func.graph.solve.graph.solve = func.graph.solve := by
    rw [hsettled.solve_eq]
    cases hsolution : func.graph.solve
    rw [hsolution] at hfault
    cases hfault
    rfl
  have hagain := Func.solve_solved hsolve
  refine ⟨?_, hagain, fun k hk => ?_⟩
  · simp [Func.solve, hfault]
  · obtain ⟨n, rfl⟩ := Nat.exists_eq_add_of_le hk
    have hfixed : Function.IsFixedPt (fun func : Func => func.solve.state) func.solve.state := by
      show func.solve.state.solve.state = func.solve.state
      rw [hagain]
    rw [Nat.add_comm, Function.iterate_succ_apply]
    exact hfixed.iterate n

/-- A branch that was entered twice, with no counter to tell which way it went. -/
def fork : Func where
  ident := 1
  checksum := 0
  name := "fork"
  source := "fork.c"
  firstLine := 1
  graph := .ofArcs 5
    [{ src := 0, dst := 1, count := 2, resolved := true }, { src := 1, dst := 2 },
      { src := 1, dst := 3 }, { src := 2, dst := 4 }, { src := 3, dst := 4 }]

theorem fork_solved :
    fork.solve.result = .ok ()
      ∧ (fun func : Func => func.solve.state)^[3] fork = fork.solve.state
      ∧ fork.solve.state.graph.arcs.toList.map (·.resolved) = [true, false, false, false, false]
      ∧ fork.solve.state.graph.blocks.toList.map (·.countValid)
        = [true, true, false, false, false] := by
  have hflow : Conserved fork.graph fun id => [2, 1, 1, 1, 1].getD id 0 := by
    intro i hpos hlast
    change i < 4 at hlast
    have hcases : i = 1 ∨ i = 2 ∨ i = 3 := by omega
    rcases hcases with rfl | rfl | rfl <;> decide
  have hmeasured : ∀ (id : Nat) (arc : Arc), fork.graph.arcs[id]? = some arc →
      arc.resolved = true → arc.count = [2, 1, 1, 1, 1].getD id 0 := by
    intro id arc harc hres
    have hid : id < 5 := (Array.getElem?_eq_some_iff.mp harc).1
    have hall : ∀ id < 5, ∀ arc ∈ fork.graph.arcs[id]?,
        arc.resolved = true → arc.count = [2, 1, 1, 1, 1].getD id 0 := by decide
    exact hall id hid arc harc hres
  obtain ⟨hresult, -, hiterate⟩ :=
    iterate_solve fork (FlowGraph.prepared_ofArcs (by decide))
      (FlowGraph.hasEnds_ofArcs (by decide) (by decide)) _ hflow hmeasured
  exact ⟨hresult, hiterate 3 (by decide), by decide, by decide⟩

/-- Five entries of a block against one exit each of the blocks after it. -/
def contradicted : FlowGraph :=
  .ofArcs 5
    [{ src := 0, dst := 3, count := 5, resolved := true }, { src := 3, dst := 1 },
      { src := 3, dst := 2 }, { src := 1, dst := 4, count := 1, resolved := true },
      { src := 2, dst := 4, count := 1, resolved := true }]

-- without a flow, the block gets its count from its entries, and then from its exits
example : contradicted.solve.graph.blocks.toList.map (·.count) = [5, 1, 1, 5, 2]
    ∧ contradicted.solve.graph.solve.graph.blocks.toList.map (·.count) = [5, 1, 1, 2, 2] := by
  decide

end Coverage
