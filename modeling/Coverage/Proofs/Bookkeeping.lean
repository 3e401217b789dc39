import Coverage.Proofs.GraphConstruction
import Coverage.Proofs.SolverInvariant
import Coverage.Proofs.Termination

/-!
# The books of the solver

Beside counts the solver keeps books: at each block two degrees and two flags, and two stacks.  All
of them could be computed from the graph and from each other, and the solver never does so.
`Accounted` says that they are right: degrees are the numbers of unresolved arcs, a degree that an
implicit edge was counted in stays the sentinel, flags say what is on the stacks, and stacks hold
nothing twice.

The books have to be right in the middle of a step too.  Settling a block goes over its exits, and
then over its entries, with the degrees and the stacks that the first half left.  `GoesOver` gives
the states in which a side is gone over.

* `Accounted.exists_single` — where a degree is one there is a single arc to resolve;
* `run_accounted` — the books are right all the time, so that the solver does not fail.
-/

namespace Coverage

namespace Solver

open FlowGraph

variable {g : FlowGraph} {due : Nat → Side → Prop} {s t : State} {i : Nat} {side : Side}

/-! ## The books -/

/-- The books of a state of the solver that began with `g`. -/
structure Accounted (g : FlowGraph) (s : State) : Prop where
  degree : ∀ (i : Nat) (block : Block) (side : Side), s.graph.blocks[i]? = some block →
    ¬ g.Sealed i side → block.pending side = s.graph.openDegree i side
  /-- A degree that an implicit edge was counted in. -/
  degree_sealed : ∀ (i : Nat) (block : Block) (side : Side), s.graph.blocks[i]? = some block →
    g.Sealed i side → block.pending side = sentinelDegree
  onUnresolved : ∀ (i : Nat) (block : Block), s.graph.blocks[i]? = some block →
    (block.onUnresolved = true ↔ i ∈ s.unresolved)
  onResolved : ∀ (i : Nat) (block : Block), s.graph.blocks[i]? = some block →
    (block.onResolved = true ↔ i ∈ s.resolved)
  unresolved_nodup : s.unresolved.Nodup
  resolved_nodup : s.resolved.Nodup
  inRange : s.InRange

theorem Invariant.accounted (hs : Invariant g due s) : Accounted g s where
  degree i block side hblock hsealed := by
    rw [(hs.block i block hblock).degree side hsealed, openDegree, hs.refines.side_eq]
  degree_sealed i block side hblock hsealed := (hs.block i block hblock).degree_sealed side hsealed
  onUnresolved i block hblock := (hs.block i block hblock).onUnresolved.symm
  onResolved i block hblock := (hs.block i block hblock).onResolved.symm
  unresolved_nodup := hs.unresolved_nodup
  resolved_nodup := hs.resolved_nodup
  inRange i hi := by
    rw [hs.size]
    rcases hi with hi | hi
    · exact hs.unresolved_lt i hi
    · exact hs.resolved_lt i hi

/-- A degree of one is not the sentinel, so it is that of a side with a single unresolved arc. -/
theorem Accounted.exists_single (hs : Accounted g s) {block : Block}
    (hblock : s.graph.blocks[i]? = some block) (hone : block.pending side = 1) :
    ∃ id, (block.arcsOn side).filter s.graph.isOpen = [id] := by
  have hsealed : ¬ g.Sealed i side := by
    intro hsealed
    rw [hs.degree_sealed i block side hblock hsealed] at hone
    exact absurd hone (by decide)
  rw [hs.degree i block side hblock hsealed, openDegree, side_of_getElem? hblock] at hone
  rw [← List.length_eq_one_iff, ← List.countP_eq_length_filter]
  exact_mod_cast hone

/-- When both stacks are empty no flag is left. -/
theorem Accounted.flags_cleared (hs : Accounted g s) (hus : s.unresolved = [])
    (hrs : s.resolved = []) {block : Block} (hblock : s.graph.blocks[i]? = some block) :
    block.onUnresolved = false ∧ block.onResolved = false := by
  have hwaiting := hs.onUnresolved i block hblock
  have hactive := hs.onResolved i block hblock
  rw [hus] at hwaiting
  rw [hrs] at hactive
  constructor
  · simpa using hwaiting
  · simpa using hactive

/-! ## In the middle of a step -/

/-- `GoesOver s i side t`: in the step from `s`, the solver goes over a side of the block `i` in the
state `t`. -/
inductive GoesOver (s : State) (i : Nat) : Side → State → Prop
  /-- The exits, once the block was taken off its stack. -/
  | exits {rs : List Nat} (top : s.resolved = i :: rs)
      (turn : s.focus = .resolved ∨ s.unresolved = []) :
      GoesOver s i .exits (unmark { s with resolved := rs, focus := .resolved } i)
  /-- The entries, in the state that the exits leave. -/
  | entries {t half : State} (first : GoesOver s i .exits t)
      (settled : settleSide t i .exits = .ok half) : GoesOver s i .entries half

/-- What a step is, once more: it looks at a block without a count, or it goes over the exits of one
that has a count and then over its entries, or the solver stops. -/
theorem step_goesOver (s : State) :
    (∃ i us, s.unresolved = i :: us
      ∧ step s = visit { s with unresolved := us, focus := .unresolved } i)
    ∨ (∃ i t, GoesOver s i .exits t
      ∧ step s = match settleSide t i .exits with
        | .error solution => .stop solution
        | .ok half => match settleSide half i .entries with
          | .error solution => .stop solution
          | .ok settled => .next settled)
    ∨ (s.unresolved = [] ∧ s.resolved = [] ∧ step s = .stop { graph := s.graph }) := by
  rcases step_cases s with ⟨i, us, hus, -, hstep⟩ | ⟨i, rs, hrs, hturn, hstep⟩ | hstop
  · exact .inl ⟨i, us, hus, hstep⟩
  · exact .inr (.inl ⟨i, _, .exits hrs hturn, hstep.trans (settle_eq _ i)⟩)
  · exact .inr (.inr hstop)

/-- Going over a side, the solver has given no counts but those of the step. -/
theorem GoesOver.gains (h : GoesOver s i side t) : s.graph.Gains t.graph := by
  induction h with
  | exits => exact unmark_gains { s with resolved := _, focus := .resolved } i
  | @entries t half _ hsettled ih =>
    have hexits := settleSide_gains t i .exits
    rw [hsettled] at hexits
    exact ih.trans hexits

/-- The invariant holds when a side is gone over, and the block is known. -/
theorem Invariant.goesOver (hs : Invariant g (fun _ _ => False) s) (hg : g.Linked)
    (h : GoesOver s i side t) :
    ∃ due c, Invariant g due t ∧ t.graph.knowledge.block i = some c := by
  induction h with
  | @exits rs top turn =>
    rcases s with ⟨h, us, _, focus⟩
    dsimp only at top ⊢
    subst top
    obtain ⟨htaken, hknow, c, hc⟩ := hs.unmark .resolved
    exact ⟨_, c, htaken, hknow.symm ▸ hc⟩
  | @entries t half _ hsettled ih =>
    obtain ⟨due, c, ht, hc⟩ := ih
    obtain ⟨half', hhalf, hinv, hder⟩ := ht.settleSide hg hc .exits
    obtain rfl : half = half' := by
      rw [hsettled] at hhalf
      cases hhalf
      rfl
    exact ⟨_, c, hinv, hder.extends.block i c hc⟩

/-- Going over a side does not fail. -/
theorem Invariant.settles (hs : Invariant g (fun _ _ => False) s) (hg : g.Linked)
    (h : GoesOver s i side t) : ∃ t', Solver.settleSide t i side = .ok t' := by
  obtain ⟨due, c, ht, hc⟩ := hs.goesOver hg h
  obtain ⟨t', hsettled, -⟩ := ht.settleSide hg hc side
  exact ⟨t', hsettled⟩

/-- Where going over a side never fails, the solver stops only when both stacks are empty, and
without a fault. -/
theorem stop_of_settles (hrange : s.InRange)
    (hsettles : ∀ i side t, GoesOver s i side t → ∃ t', settleSide t i side = .ok t')
    {solution : Solution} (hstop : step s = .stop solution) :
    s.unresolved = [] ∧ s.resolved = [] ∧ solution = { graph := s.graph } := by
  rcases step_goesOver s with ⟨i, us, hus, hstep⟩ | ⟨i, t, hexits, hstep⟩ | ⟨hus, hrs, hstep⟩
  · have htaken : State.InRange { s with unresolved := us, focus := .unresolved } :=
      fun j hj => hrange j (hj.imp_left fun hmem => hus ▸ List.mem_cons_of_mem i hmem)
    obtain ⟨u, hvisit, -⟩ := htaken.visit (hrange i (.inl (hus ▸ List.mem_cons_self)))
    cases (hstep.trans hvisit).symm.trans hstop
  · obtain ⟨half, hhalf⟩ := hsettles i .exits t hexits
    obtain ⟨settled, hsettled⟩ := hsettles i .entries half (.entries hexits hhalf)
    rw [hhalf] at hstep
    dsimp only at hstep
    rw [hsettled] at hstep
    cases hstep.symm.trans hstop
  · rw [hstop, Verdict.stop.injEq] at hstep
    exact ⟨hus, hrs, hstep⟩

end Solver

/-! ## The books are right -/

open Solver FlowGraph

/-- The books of the solver are right in every state of a run on a prepared function, and in the
middle of steps.  When it goes over a side of degree one, there is a single unresolved arc on it,
which it finds and resolves; so it does not fail.  It touches no resolved arc again.  In the end
both stacks are empty, and no block is marked. -/
theorem run_accounted (func : Func) (hg : func.graph.Prepared) :
    (∀ s, machine.Reaches (.start func.graph) s →
      Accounted func.graph s
      ∧ (∀ i side t, GoesOver s i side t →
          Accounted func.graph t ∧ s.graph.Gains t.graph
          ∧ (∃ block, t.graph.blocks[i]? = some block ∧ (block.pending side = 1 →
              ∃ id, (block.arcsOn side).filter t.graph.isOpen = [id]
                ∧ lastUnresolved? t.graph (block.arcsOn side) = some id))
          ∧ ∃ t', settleSide t i side = .ok t' ∧ t.graph.Gains t'.graph)
      ∧ ∀ t, machine.Reaches s t → ∀ (id : Nat) (arc : Arc), s.graph.arcs[id]? = some arc →
          arc.resolved = true → t.graph.arcs[id]? = some arc)
    ∧ ∃ last, machine.Reaches (.start func.graph) last
      ∧ last.unresolved = [] ∧ last.resolved = []
      ∧ func.solve.result = .ok () ∧ func.solve.state = { func with graph := last.graph }
      ∧ ∀ block ∈ last.graph.blocks, block.onUnresolved = false ∧ block.onResolved = false := by
  have hstart := invariant_start hg
  refine ⟨fun s hreach => ?_, ?_⟩
  · obtain ⟨hs, -⟩ := hstart.of_reaches hg.linked hreach
    refine ⟨hs.accounted, fun i side t hover => ?_, fun t ht id arc harc hres => ?_⟩
    · obtain ⟨due, c, ht, hc⟩ := hs.goesOver hg.linked hover
      obtain ⟨t', hsettled⟩ := hs.settles hg.linked hover
      have hgains := settleSide_gains t i side
      rw [hsettled] at hgains
      obtain ⟨block, hblock, -, -⟩ := exists_block_of_knowledge hc
      refine ⟨ht.accounted, hover.gains, ⟨block, hblock, fun hone => ?_⟩, t', hsettled, hgains⟩
      obtain ⟨id, hid⟩ := ht.accounted.exists_single hblock hone
      refine ⟨id, hid, ?_⟩
      show ((block.arcsOn side).filter t.graph.isOpen).getLast? = some id
      rw [hid, List.getLast?_singleton]
    · exact (gains_of_reaches ht).getElem?_of_resolved harc hres
  · obtain ⟨last, hreach, hstop⟩ := machine.exists_reaches_stop (.start func.graph)
    obtain ⟨hlast, -⟩ := hstart.of_reaches hg.linked hreach
    obtain ⟨hus, hrs, hrun⟩ := stop_of_settles hlast.accounted.inRange
      (fun i side t hover => hlast.settles hg.linked hover) hstop
    have hsolve : func.graph.solve = { graph := last.graph } := hrun
    refine ⟨last, hreach, hus, hrs, ?_, ?_, fun block hblock => ?_⟩
    · simp [Func.solve, hsolve]
    · simp [Func.solve, hsolve]
    · obtain ⟨i, hi⟩ := Array.mem_iff_getElem?.mp hblock
      exact hlast.accounted.flags_cleared hus hrs hi

/-- A branch around a block that was not taken, with counters on the arcs out of the branch. -/
def bypass : Func where
  ident := 1
  checksum := 0
  name := "main"
  source := "hello.c"
  firstLine := 1
  graph := .ofArcs 4
    [{ src := 0, dst := 1 }, { src := 1, dst := 2, resolved := true },
      { src := 1, dst := 3, count := 3, resolved := true }, { src := 2, dst := 3 }]

theorem bypass_accounted :
    Accounted bypass.graph (.start bypass.graph) ∧ bypass.solve.result = .ok ()
      ∧ (∀ block ∈ bypass.solve.state.graph.blocks,
          block.onUnresolved = false ∧ block.onResolved = false)
      ∧ bypass.solve.state.graph.blocks.toList.map (·.pendingIn) = [50000, 0, 0, 0]
      ∧ bypass.solve.state.graph.blocks.toList.map (·.pendingOut) = [0, 0, 0, 50000] := by
  obtain ⟨hbooks, last, -, -, -, hresult, hstate, hflags⟩ :=
    run_accounted bypass (prepared_ofArcs (by decide))
  obtain ⟨hstart, -⟩ := hbooks _ .start
  refine ⟨hstart, hresult, ?_, by decide, by decide⟩
  rw [hstate]
  exact hflags

end Coverage
