import Coverage.Proofs.GraphUpdates
import Coverage.Solver

/-!
# What solving does to any graph

The solver asks nothing of the graph that it is given.  Degrees may be wrong, flags may be left over
from another run, and arcs may stand on sides where they do not end.  On every graph it does no more
than give counts (`FlowGraph.Gains`): arcs and blocks stay where they are, a resolved arc is not
touched again, and a block that has a count does not lose it.

* `step_cases` — what a step is;
* `solve_gains` — what becomes of any graph.
-/

namespace Coverage

/-! ## Gaining counts -/

/-- The work of the solver at a block, however long it goes on. -/
structure Block.Gains (b b' : Block) : Prop extends b.Refines b' where
  valid : b.countValid = true → b'.countValid = true

theorem Block.Gains.refl (b : Block) : b.Gains b where
  arcsOn _ := rfl
  lines := rfl
  callSite := rfl
  count _ := rfl
  valid h := h

theorem Block.Gains.trans {b b' b'' : Block} (h : b.Gains b') (h' : b'.Gains b'') :
    b.Gains b'' where
  arcsOn s := (h'.arcsOn s).trans (h.arcsOn s)
  lines := h'.lines.trans h.lines
  callSite := h'.callSite.trans h.callSite
  count hvalid := by
    have hbefore : b'.countValid = false := by
      by_contra hne
      simp [h'.valid (by simpa using hne)] at hvalid
    rw [h'.count hvalid, h.count hbefore]
  valid hvalid := h'.valid (h.valid hvalid)

theorem Block.gains_mapPending (b : Block) (s : Side) (f : Int → Int) :
    b.Gains (b.mapPending s f) where
  arcsOn t := b.mapPending_arcsOn s t f
  lines := b.mapPending_lines s f
  callSite := b.mapPending_callSite s f
  count _ := b.mapPending_count s f
  valid h := by rwa [b.mapPending_countValid s f]

/-- Marks on a block are no counts. -/
theorem Block.gains_marks (b : Block) (onUnresolved onResolved : Bool) :
    b.Gains { b with onUnresolved, onResolved } where
  arcsOn s := by cases s <;> rfl
  lines := rfl
  callSite := rfl
  count _ := rfl
  valid h := h

theorem Arc.Refines.trans {a a' a'' : Arc} (h : a.Refines a') (h' : a'.Refines a'') :
    a.Refines a'' := by
  rcases h with rfl | ⟨hres, c, rfl⟩
  · exact h'
  · rcases h' with rfl | ⟨hres', -⟩
    · exact .inr ⟨hres, c, rfl⟩
    · cases hres'

/-- The count of a resolved arc is not touched again. -/
theorem Arc.Refines.eq_of_resolved {a a' : Arc} (h : a.Refines a') (hres : a.resolved = true) :
    a' = a := by
  rcases h with rfl | ⟨hopen, -⟩
  · rfl
  · simp [hres] at hopen

namespace FlowGraph

/-- The work of the solver at a graph, however long it goes on. -/
structure Gains (g h : FlowGraph) : Prop where
  size : h.size = g.size
  arcs_size : h.arcs.size = g.arcs.size
  arc : ∀ (id : Nat) (a a' : Arc), g.arcs[id]? = some a → h.arcs[id]? = some a' → a.Refines a'
  block : ∀ (i : Nat) (b b' : Block), g.blocks[i]? = some b → h.blocks[i]? = some b' → b.Gains b'

variable {g h k : FlowGraph}

theorem Gains.refines (hgain : g.Gains h) : g.Refines h where
  size := hgain.size
  arcs_size := hgain.arcs_size
  arc := hgain.arc
  block i b b' hb hb' := (hgain.block i b b' hb hb').toRefines

theorem Gains.refl (g : FlowGraph) : g.Gains g where
  size := rfl
  arcs_size := rfl
  arc id a a' ha ha' := .inl (Option.some.inj (ha'.symm.trans ha))
  block i b b' hb hb' := by
    obtain rfl : b' = b := Option.some.inj (hb'.symm.trans hb)
    exact .refl b'

theorem Gains.trans (hgain : g.Gains h) (hgain' : h.Gains k) : g.Gains k where
  size := hgain'.size.trans hgain.size
  arcs_size := hgain'.arcs_size.trans hgain.arcs_size
  arc id a a'' ha ha'' := by
    obtain ⟨a', ha', href⟩ := hgain.refines.exists_arc ha
    exact href.trans (hgain'.arc id a' a'' ha' ha'')
  block i b b'' hb hb'' := by
    obtain ⟨b', hb'⟩ := exists_block (g := h) (hgain.size ▸ lt_of_getElem? hb)
    exact (hgain.block i b b' hb hb').trans (hgain'.block i b' b'' hb' hb'')

theorem gains_mapBlock (g : FlowGraph) (i : Nat) {f : Block → Block}
    (hf : ∀ b : Block, b.Gains (f b)) :
    g.Gains (g.mapBlock i f) where
  size := mapBlock_size g i f
  arcs_size := rfl
  arc := (Gains.refl g).arc
  block j b b' hb hb' := by
    rw [getElem?_mapBlock, hb, Option.map_some] at hb'
    by_cases hij : i = j
    · rw [if_pos hij] at hb'
      cases hb'
      exact hf b
    · rw [if_neg hij] at hb'
      cases hb'
      exact .refl b

theorem gains_mapArc {id : Nat} {arc : Arc} (c : Int) (harc : g.arcs[id]? = some arc)
    (hres : arc.resolved = false) :
    g.Gains (g.mapArc id fun arc => { arc with count := c, resolved := true }) where
  size := rfl
  arcs_size := by simp [mapArc]
  arc j a a' ha ha' := by
    rw [getElem?_mapArc, ha, Option.map_some] at ha'
    by_cases hid : id = j
    · rw [if_pos hid] at ha'
      cases ha'
      subst hid
      obtain rfl : a = arc := Option.some.inj (ha.symm.trans harc)
      exact .inr ⟨hres, c, rfl⟩
    · rw [if_neg hid] at ha'
      cases ha'
      exact .inl rfl
  block := (Gains.refl g).block

/-- A resolved arc stays as it is. -/
theorem Gains.getElem?_of_resolved (hgain : g.Gains h) {id : Nat} {arc : Arc}
    (harc : g.arcs[id]? = some arc) (hres : arc.resolved = true) : h.arcs[id]? = some arc := by
  obtain ⟨arc', harc', href⟩ := hgain.refines.exists_arc harc
  rw [harc', href.eq_of_resolved hres]

/-- The arcs of the graph end at blocks that it has. -/
def EndsAtBlocks (g : FlowGraph) : Prop :=
  ∀ (id : Nat) (arc : Arc), g.arcs[id]? = some arc → ∀ s, arc.nearEnd s < g.size

theorem EndsAtBlocks.of_gains (hg : g.EndsAtBlocks) (hgain : g.Gains h) : h.EndsAtBlocks := by
  intro id arc harc s
  obtain ⟨arc₀, harc₀, href⟩ := hgain.refines.exists_arc_of harc
  rw [href.nearEnd, hgain.size]
  exact hg id arc₀ harc₀ s

end FlowGraph

namespace Solver

open FlowGraph

variable {s t : State} {i : Nat}

/-! ## Steps -/

/-- The graph that a step leaves. -/
def Verdict.graph : Verdict State Solution → FlowGraph
  | .next s => s.graph
  | .stop solution => solution.graph

/-- The graph that going over a side leaves. -/
def settledGraph : Except Solution State → FlowGraph
  | .ok s => s.graph
  | .error solution => solution.graph

theorem visit_gains (s : State) (i : Nat) : s.graph.Gains (Verdict.graph (visit s i)) := by
  unfold visit
  split
  · exact .refl _
  · next block _ =>
    split
    · exact gains_mapBlock _ i fun b => b.gains_marks false b.onResolved
    · refine gains_mapBlock _ i fun b => ?_
      exact {
        arcsOn := fun s => by cases s <;> rfl
        lines := rfl
        callSite := rfl
        count := fun h => absurd h (by simp)
        valid := fun _ => rfl }

theorem requeue_gains (s : State) (i : Nat) (pending : Int) :
    s.graph.Gains (requeue s i pending).graph := by
  unfold requeue
  split
  · exact .refl _
  · split
    · split
      · exact gains_mapBlock _ i fun b => b.gains_marks b.onUnresolved true
      · exact .refl _
    · split
      · exact gains_mapBlock _ i fun b => b.gains_marks true b.onResolved
      · exact .refl _

theorem resolveArc_gains (i : Nat) (side : Side) (block : Block) {id : Nat} {arc : Arc}
    (harc : s.graph.arcs[id]? = some arc) (hres : arc.resolved = false) :
    s.graph.Gains (settledGraph (resolveArc s i side block id arc)) := by
  have hpending : ∀ (g : FlowGraph) (j : Nat) (t : Side),
      g.Gains (g.mapBlock j (·.mapPending t (· - 1))) :=
    fun g j t => gains_mapBlock g j fun b => b.gains_mapPending t _
  have hcounted := gains_mapArc (leftOver s.graph block.count (block.arcsOn side)) harc hres
  have hnear := hcounted.trans (hpending _ i side)
  unfold resolveArc
  dsimp only
  split
  · exact hnear
  · refine Gains.trans ?_ (requeue_gains _ _ _)
    exact hnear.trans (hpending _ (arc.farEnd side) side.opposite)

theorem settleSide_gains (s : State) (i : Nat) (side : Side) :
    s.graph.Gains (settledGraph (settleSide s i side)) := by
  unfold settleSide
  split
  · exact .refl _
  · split
    · split
      · exact .refl _
      · next id hid =>
        obtain ⟨-, arc, harc, hres⟩ := lastUnresolved?_spec hid
        rw [harc]
        exact resolveArc_gains i side _ harc hres
    · exact .refl _

/-- A state without the mark that the block `i` waits to give counts to arcs. -/
def unmark (s : State) (i : Nat) : State :=
  { s with graph := s.graph.mapBlock i fun b => { b with onResolved := false } }

/-- Settling a block goes over its exits, then over its entries. -/
theorem settle_eq (s : State) (i : Nat) :
    settle s i = match settleSide (unmark s i) i .exits with
      | .error solution => .stop solution
      | .ok half => match settleSide half i .entries with
        | .error solution => .stop solution
        | .ok settled => .next settled := rfl

theorem unmark_gains (s : State) (i : Nat) : s.graph.Gains (unmark s i).graph :=
  gains_mapBlock _ i fun b => b.gains_marks b.onUnresolved false

theorem settle_gains (s : State) (i : Nat) : s.graph.Gains (Verdict.graph (settle s i)) := by
  have hexits := (unmark_gains s i).trans (settleSide_gains (unmark s i) i .exits)
  rw [settle_eq]
  cases hfirst : settleSide (unmark s i) i .exits with
  | error solution =>
    rw [hfirst] at hexits
    exact hexits
  | ok half =>
    rw [hfirst] at hexits
    have hentries := hexits.trans (settleSide_gains half i .entries)
    dsimp only
    cases hsecond : settleSide half i .entries with
    | error solution =>
      rw [hsecond] at hentries
      exact hentries
    | ok settled =>
      rw [hsecond] at hentries
      exact hentries

/-- What a step is: it takes the top off one of the stacks and works on that block, or both stacks
are empty and the solver stops. -/
theorem step_cases (s : State) :
    (∃ i us, s.unresolved = i :: us ∧ (s.focus = .unresolved ∨ s.resolved = [])
      ∧ step s = visit { s with unresolved := us, focus := .unresolved } i)
    ∨ (∃ i rs, s.resolved = i :: rs ∧ (s.focus = .resolved ∨ s.unresolved = [])
      ∧ step s = settle { s with resolved := rs, focus := .resolved } i)
    ∨ (s.unresolved = [] ∧ s.resolved = [] ∧ step s = .stop { graph := s.graph }) := by
  rcases s with ⟨g, _ | ⟨i, us⟩, _ | ⟨j, rs⟩, _ | _⟩
  case nil.nil.unresolved => exact .inr (.inr ⟨rfl, rfl, rfl⟩)
  case nil.nil.resolved => exact .inr (.inr ⟨rfl, rfl, rfl⟩)
  case nil.cons.unresolved => exact .inr (.inl ⟨j, rs, rfl, .inr rfl, rfl⟩)
  case nil.cons.resolved => exact .inr (.inl ⟨j, rs, rfl, .inl rfl, rfl⟩)
  case cons.nil.unresolved => exact .inl ⟨i, us, rfl, .inl rfl, rfl⟩
  case cons.nil.resolved => exact .inl ⟨i, us, rfl, .inr rfl, rfl⟩
  case cons.cons.unresolved => exact .inl ⟨i, us, rfl, .inl rfl, rfl⟩
  case cons.cons.resolved => exact .inr (.inl ⟨j, rs, rfl, .inl rfl, rfl⟩)

/-- A step gives counts, on every graph. -/
theorem step_gains (s : State) : s.graph.Gains (Verdict.graph (step s)) := by
  rcases step_cases s with ⟨i, us, -, -, hstep⟩ | ⟨i, rs, -, -, hstep⟩ | ⟨-, -, hstep⟩
  · rw [hstep]
    exact visit_gains { s with unresolved := us, focus := .unresolved } i
  · rw [hstep]
    exact settle_gains { s with resolved := rs, focus := .resolved } i
  · rw [hstep]
    exact .refl s.graph

/-! ## Runs -/

/-- Along a run counts are given only. -/
theorem gains_of_reaches (h : machine.Reaches s t) : s.graph.Gains t.graph := by
  induction h with
  | start => exact .refl s.graph
  | @step t u _ hstep ih =>
    have hlast := step_gains t
    change step t = .next u at hstep
    rw [hstep] at hlast
    exact ih.trans hlast

theorem run_gains (s : State) : s.graph.Gains (machine.run s).graph := by
  obtain ⟨t, hreach, hstop⟩ := machine.exists_reaches_stop s
  have hlast := step_gains t
  change step t = .stop (machine.run s) at hstop
  rw [hstop] at hlast
  exact (gains_of_reaches hreach).trans hlast

theorem start_arcs (g : FlowGraph) : (State.start g).graph.arcs = g.arcs := by
  show (sealEnds g).arcs = g.arcs
  unfold sealEnds
  split <;> rfl

theorem start_gains (g : FlowGraph) : g.Gains (State.start g).graph := by
  have hends : g.Gains (sealEnds g) := by
    unfold sealEnds
    split
    · exact (gains_mapBlock g 0 fun b => b.gains_mapPending .entries _).trans
        (gains_mapBlock _ _ fun b => b.gains_mapPending .exits _)
    · exact .refl g
  refine hends.trans ?_
  show (sealEnds g).Gains (queueAll (sealEnds g))
  exact {
    size := by simp [queueAll, FlowGraph.size]
    arcs_size := rfl
    arc := (Gains.refl _).arc
    block := fun i b b' hb hb' => by
      simp only [queueAll, List.getElem?_toArray, List.getElem?_map, Array.getElem?_toList, hb,
        Option.map_some, Option.some.injEq] at hb'
      subst hb'
      exact b.gains_marks true b.onResolved }

end Solver

/-- However solving ends, it gives counts only. -/
theorem FlowGraph.solve_gains (g : FlowGraph) : g.Gains g.solve.graph :=
  (Solver.start_gains g).trans (Solver.run_gains _)

/-- However solving ends, it changes nothing of a function but its graph. -/
theorem Func.solve_state (func : Func) :
    func.solve.state = { func with graph := func.graph.solve.graph } := by
  unfold Func.solve
  dsimp only
  split <;> rfl

end Coverage
