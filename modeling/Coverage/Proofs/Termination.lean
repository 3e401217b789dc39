import Coverage.Proofs.SolverSteps

/-!
# Termination of the solver

Blocks put each other back on the stacks, and the degrees that say when are whatever the graph came
with: too great, too small, or less than zero.  So it is not by the degrees that the solver comes to
an end.  A block is put back only when an arc was given a count, and arcs are given one only once;
`State.weight` counts an unresolved arc three times, a block that waits for a count twice, and a
block that has one once, and every step lowers it.

The positions on the stacks are those of blocks, provided that arcs end at blocks
(`FlowGraph.EndsAtBlocks`).  Then there is one way only in which a run can fail: a block counts on
an unresolved arc that it does not have.
-/

namespace Coverage

namespace Solver

open FlowGraph

variable {s t : State} {i : Nat}

/-! ## Staying in range -/

/-- What waits on the stacks are blocks of the graph. -/
def State.InRange (s : State) : Prop :=
  ∀ i, i ∈ s.unresolved ∨ i ∈ s.resolved → i < s.graph.size

theorem start_inRange (g : FlowGraph) : (State.start g).InRange := by
  intro i hi
  rw [(start_gains g).size]
  simpa [State.start] using hi

/-- One more block on the stacks is in range when it is a block of the graph. -/
theorem State.InRange.of_subset (h : s.InRange) (hi : i < s.graph.size)
    (hsize : t.graph.size = s.graph.size) (hus : t.unresolved ⊆ i :: s.unresolved)
    (hrs : t.resolved ⊆ i :: s.resolved) : t.InRange := by
  intro j hj
  rw [hsize]
  have hcases : j = i ∨ j ∈ s.unresolved ∨ j ∈ s.resolved := by
    rcases hj with hj | hj
    · rcases List.mem_cons.mp (hus hj) with rfl | hj
      · exact .inl rfl
      · exact .inr (.inl hj)
    · rcases List.mem_cons.mp (hrs hj) with rfl | hj
      · exact .inl rfl
      · exact .inr (.inr hj)
  rcases hcases with rfl | hj
  · exact hi
  · exact h j hj

theorem State.InRange.visit (h : s.InRange) (hi : i < s.graph.size) :
    ∃ t, visit s i = .next t ∧ t.InRange := by
  obtain ⟨block, hblock⟩ := exists_block hi
  unfold Solver.visit
  rw [hblock]
  dsimp only
  split
  · refine ⟨_, rfl, h.of_subset hi (mapBlock_size _ _ _) ?_ ?_⟩
    · exact List.subset_cons_self _ _
    · exact List.subset_cons_self _ _
  · refine ⟨_, rfl, h.of_subset hi (mapBlock_size _ _ _) ?_ ?_⟩
    · exact List.subset_cons_self _ _
    · exact List.Subset.refl _

theorem State.InRange.requeue (h : s.InRange) (hi : i < s.graph.size) (pending : Int) :
    (requeue s i pending).InRange := by
  unfold Solver.requeue
  split
  · exact h
  · split
    · split
      · exact h.of_subset hi (mapBlock_size _ _ _) (List.subset_cons_self _ _)
          (List.Subset.refl _)
      · exact h
    · split
      · exact h.of_subset hi (mapBlock_size _ _ _) (List.Subset.refl _)
          (List.subset_cons_self _ _)
      · exact h

/-- Where arcs end at blocks, going over a side fails in one way only. -/
theorem State.InRange.settleSide (h : s.InRange) (hg : s.graph.EndsAtBlocks)
    (hi : i < s.graph.size) (side : Side) :
    (∃ t, settleSide s i side = .ok t ∧ t.InRange)
      ∨ ∃ g, settleSide s i side = .error { graph := g, fault := some .inconsistent } := by
  obtain ⟨block, hblock⟩ := exists_block hi
  unfold Solver.settleSide
  rw [hblock]
  dsimp only
  by_cases hone : block.pending side = 1
  · rw [if_pos hone]
    cases hlast : lastUnresolved? s.graph (block.arcsOn side) with
    | none => exact .inr ⟨s.graph, rfl⟩
    | some id =>
      obtain ⟨-, arc, harc, -⟩ := lastUnresolved?_spec hlast
      dsimp only
      rw [harc]
      dsimp only [resolveArc]
      have hfar : arc.farEnd side < s.graph.size := by
        rw [← Arc.nearEnd_opposite]
        exact hg id arc harc side.opposite
      -- the block at the far end is there, with the degree of its side yet to be lowered
      obtain ⟨target, htarget⟩ := exists_block (g := (s.graph.mapArc id fun arc =>
        { arc with
          count := leftOver s.graph block.count (block.arcsOn side)
          resolved := true }).mapBlock i (·.mapPending side (· - 1)))
        (i := arc.farEnd side) (by rwa [mapBlock_size])
      rw [htarget]
      refine .inl ⟨_, rfl, State.InRange.requeue ?_ ?_ _⟩
      · exact h.of_subset hi (by rw [mapBlock_size, mapBlock_size]; rfl)
          (List.subset_cons_self _ _) (List.subset_cons_self _ _)
      · rw [mapBlock_size, mapBlock_size]
        exact hfar
  · rw [if_neg hone]
    exact .inl ⟨s, rfl, h⟩

theorem State.InRange.settle (h : s.InRange) (hg : s.graph.EndsAtBlocks) (hi : i < s.graph.size) :
    (∃ t, settle s i = .next t ∧ t.InRange)
      ∨ ∃ g, settle s i = .stop { graph := g, fault := some .inconsistent } := by
  have hgains := unmark_gains s i
  have htaken : (unmark s i).InRange := fun j hj => hgains.size ▸ h j hj
  rw [settle_eq]
  rcases htaken.settleSide (hg.of_gains hgains) (hgains.size ▸ hi) .exits with
    ⟨half, hhalf, hrange⟩ | ⟨g, hfail⟩
  · have hgains' := hgains.trans (settleSide_gains (unmark s i) i .exits)
    rw [hhalf] at hgains' ⊢
    dsimp only
    rcases hrange.settleSide (hg.of_gains hgains') (hgains'.size ▸ hi) .entries with
      ⟨settled, hsettled, hrange'⟩ | ⟨g, hfail⟩
    · rw [hsettled]
      exact .inl ⟨settled, rfl, hrange'⟩
    · rw [hfail]
      exact .inr ⟨g, rfl⟩
  · rw [hfail]
    exact .inr ⟨g, rfl⟩

/-- A step goes on in range, or the solver is done, or it misses an arc that it counted on. -/
theorem State.InRange.step (h : s.InRange) (hg : s.graph.EndsAtBlocks) :
    (∃ t, step s = .next t ∧ t.InRange)
      ∨ ∃ g fault, step s = .stop { graph := g, fault } ∧ fault ≠ some .outOfRange := by
  rcases step_cases s with ⟨i, us, hus, -, hstep⟩ | ⟨i, rs, hrs, -, hstep⟩ | ⟨-, -, hstep⟩
  · rw [hstep]
    have hrange : State.InRange { s with unresolved := us, focus := .unresolved } :=
      fun j hj => h j (hj.imp_left fun hmem => hus ▸ List.mem_cons_of_mem i hmem)
    exact .inl (hrange.visit (h i (.inl (hus ▸ List.mem_cons_self))))
  · rw [hstep]
    have hrange : State.InRange { s with resolved := rs, focus := .resolved } :=
      fun j hj => h j (hj.imp_right fun hmem => hrs ▸ List.mem_cons_of_mem i hmem)
    rcases hrange.settle hg (h i (.inr (hrs ▸ List.mem_cons_self))) with hnext | ⟨g, hfail⟩
    · exact .inl hnext
    · exact .inr ⟨g, _, hfail, by simp⟩
  · exact .inr ⟨s.graph, none, hstep, by simp⟩

theorem State.InRange.of_reaches (h : s.InRange) (hg : s.graph.EndsAtBlocks)
    (hreach : machine.Reaches s t) : t.InRange := by
  induction hreach with
  | start => exact h
  | @step t u hreach hstep ih =>
    change Solver.step t = .next u at hstep
    rcases ih.step (hg.of_gains (gains_of_reaches hreach)) with
      ⟨u', hnext, hrange⟩ | ⟨g, fault, hstop, -⟩
    · rw [hstep] at hnext
      cases hnext
      exact hrange
    · rw [hstep] at hstop
      cases hstop

theorem State.InRange.run (h : s.InRange) (hg : s.graph.EndsAtBlocks) :
    (machine.run s).fault ≠ some .outOfRange := by
  obtain ⟨t, hreach, hstop⟩ := machine.exists_reaches_stop s
  change Solver.step t = .stop (machine.run s) at hstop
  rcases (h.of_reaches hg hreach).step (hg.of_gains (gains_of_reaches hreach)) with
    ⟨u, hnext, -⟩ | ⟨g, fault, hend, hfault⟩
  · rw [hstop] at hnext
    cases hnext
  · rw [hstop, Verdict.stop.injEq] at hend
    rw [hend]
    exact hfault

/-! ## How long it takes -/

theorem weight_start (g : FlowGraph) :
    (State.start g).weight = 3 * unknowns g + 2 * g.size := by
  have hunknowns : unknowns (State.start g).graph = unknowns g := by
    rw [unknowns, start_arcs, unknowns]
  have hwaiting : (State.start g).unresolved.length = g.size := by simp [State.start]
  have hnone : (State.start g).resolved.length = 0 := rfl
  rw [State.weight, hunknowns, hwaiting, hnone]
  rfl

/-- No state of a run weighs more than the first one. -/
theorem weight_of_reaches (h : machine.Reaches s t) : t.weight ≤ s.weight := by
  induction h with
  | start => exact Nat.le_refl s.weight
  | step _ hstep ih => exact Nat.le_trans (Nat.le_of_lt (weight_step hstep)) ih

end Solver

open Solver

/-- The solver stops on every function whose arcs end at blocks, whatever degrees, counts and flags
it finds there.  It takes a block off a stack no more than three times for every unresolved arc and
twice for every block, and the stacks never hold more blocks than that.  It ends well, or it finds
the counts inconsistent; in either case it has given counts and done nothing else. -/
theorem solve_terminates (func : Func) (hends : func.graph.EndsAtBlocks) :
    ∃ solution : Solution,
      machine.runFor (3 * unknowns func.graph + 2 * func.graph.size + 1) (.start func.graph)
        = some solution
      ∧ (∀ s, machine.Reaches (.start func.graph) s → s.unresolved.length + s.resolved.length
          ≤ 3 * unknowns func.graph + 2 * func.graph.size)
      ∧ func.solve.state = { func with graph := solution.graph }
      ∧ func.graph.Gains solution.graph
      ∧ (func.solve.result = .ok ()
        ∨ func.solve.result = .error (.inconsistentCounts func.name)) := by
  have hfault : func.graph.solve.fault ≠ some .outOfRange :=
    (start_inRange func.graph).run (hends.of_gains (start_gains func.graph))
  refine ⟨func.graph.solve, ?_, ?_, ?_, func.graph.solve_gains, ?_⟩
  · refine machine.runFor_eq_some_run ?_
    show (State.start func.graph).weight < _
    rw [weight_start]
    exact Nat.lt_succ_self _
  · intro s hs
    have hweight := weight_of_reaches hs
    rw [weight_start, State.weight] at hweight
    omega
  · unfold Func.solve
    dsimp only
    split <;> rfl
  · unfold Func.solve
    dsimp only
    cases hcase : func.graph.solve.fault with
    | none => exact .inl rfl
    | some fault =>
      cases fault with
      | inconsistent => exact .inr rfl
      | outOfRange => exact absurd hcase hfault

/-- A straight line of three blocks whose counters were read twice, after it had been solved. -/
def countedTwice : Func where
  ident := 1
  checksum := 0
  name := "line"
  source := "line.c"
  firstLine := 1
  graph :=
    { blocks := #[
        { exits := [0], pendingOut := -1, pendingIn := sentinelDegree, count := 9
          countValid := true, onResolved := true },
        { exits := [1], entries := [0], pendingOut := 1, pendingIn := 0, onUnresolved := true },
        { entries := [1], pendingOut := sentinelDegree, pendingIn := -1 }]
      arcs := #[
        { src := 0, dst := 1, count := 4, resolved := true },
        { src := 1, dst := 2, count := 4, resolved := true }] }

theorem countedTwice_stops :
    countedTwice.graph.EndsAtBlocks
      ∧ (∃ solution, machine.runFor 7 (.start countedTwice.graph) = some solution)
      ∧ countedTwice.solve.result = .error (.inconsistentCounts "line") := by
  have hends : countedTwice.graph.EndsAtBlocks := by
    intro id arc harc s
    have hid : id < 2 := (Array.getElem?_eq_some_iff.mp harc).1
    have hall : ∀ id < 2, ∀ arc ∈ countedTwice.graph.arcs[id]?, arc.src < 3 ∧ arc.dst < 3 := by
      decide
    obtain ⟨hsrc, hdst⟩ := hall id hid arc harc
    cases s with
    | exits => exact hsrc
    | entries => exact hdst
  obtain ⟨solution, hrun, -, -, -, hresult⟩ := solve_terminates countedTwice hends
  refine ⟨hends, ⟨solution, hrun⟩, ?_⟩
  rcases hresult with hok | herror
  · exact absurd hok (by decide)
  · exact herror

end Coverage
