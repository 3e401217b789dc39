import Coverage.Proofs.GraphConstruction
import Coverage.Proofs.SpanningTree
import Mathlib.Data.Set.Image
import Mathlib.Logic.Equiv.Basic
import Mathlib.Order.Bounds.Basic

/-!
# What the solver finds out

Which counts the solver finds depends neither on the counts that were measured nor on the order in
which it looks at blocks and arcs.  Forget the counts, and the rules of inference become rules about
two sets, of arcs and of blocks.  The sets that these rules do not lead out of are the closed ones
(`FlowGraph.Closed`), and the solver finds the least of them (`solve_closure`).

That nothing more is found holds along every derivation (`Derives.known_le`): a closed pair of sets
that holds what was known at first holds each conclusion.  That nothing less is found is where no
block may have been forgotten: when both stacks are empty nothing can be concluded any more, and
then what is known is closed itself (`Saturated.closed`).
-/

namespace Coverage

/-! ## Closed sets of arcs and blocks -/

namespace FlowGraph

/-- The arcs of the graph whose count is known. -/
def resolvedArcs (g : FlowGraph) : Set Nat :=
  {id | ∃ arc, g.arcs[id]? = some arc ∧ arc.resolved = true}

/-- The blocks of the graph whose count is known. -/
def countedBlocks (g : FlowGraph) : Set Nat :=
  {i | ∃ block, g.blocks[i]? = some block ∧ block.countValid = true}

/-- Sets of arcs and of blocks that hold what was measured and everything that follows from what
they hold. -/
structure Closed (g : FlowGraph) (arcs blocks : Set Nat) : Prop where
  measured : g.resolvedArcs ⊆ arcs
  /-- A block follows from all arcs of a side, but for the sides with an implicit edge. -/
  block : ∀ i s, i < g.size → ¬ g.Sealed i s → (∀ id ∈ g.side i s, id ∈ arcs) → i ∈ blocks
  /-- An arc follows from a block at its end and from all others that stand there beside it. -/
  arc : ∀ i s id, i ∈ blocks → id ∈ g.side i s →
    (∀ other ∈ g.side i s, other ≠ id → other ∈ arcs) → id ∈ arcs

end FlowGraph

/-- The arcs and the blocks whose count is known. -/
def Knowledge.known (k : Knowledge) : Set Nat × Set Nat :=
  ({id | k.arc id ≠ none}, {i | k.block i ≠ none})

variable {g h : FlowGraph} {k k' : Knowledge} {arcs blocks : Set Nat}

theorem FlowGraph.known_knowledge (g : FlowGraph) :
    g.knowledge.known = (g.resolvedArcs, g.countedBlocks) := by
  refine Prod.ext (Set.ext fun id => ?_) (Set.ext fun i => ?_)
  · show g.knowledge.arc id ≠ none ↔ ∃ arc, g.arcs[id]? = some arc ∧ arc.resolved = true
    constructor
    · intro hknown
      obtain ⟨c, hc⟩ := Option.ne_none_iff_exists'.mp hknown
      obtain ⟨arc, harc, hres, -⟩ := exists_arc_of_knowledge hc
      exact ⟨arc, harc, hres⟩
    · rintro ⟨arc, harc, hres⟩
      simp [knowledge_arc_of_resolved harc hres]
  · show g.knowledge.block i ≠ none ↔ ∃ block, g.blocks[i]? = some block ∧ block.countValid = true
    constructor
    · intro hknown
      obtain ⟨c, hc⟩ := Option.ne_none_iff_exists'.mp hknown
      obtain ⟨block, hblock, hvalid, -⟩ := exists_block_of_knowledge hc
      exact ⟨block, hblock, hvalid⟩
    · rintro ⟨block, hblock, hvalid⟩
      simp [knowledge_block_of_valid hblock hvalid]

/-! ## Nothing more is found -/

/-- A conclusion from what closed sets hold is in them. -/
theorem Infers.known_le (h : Infers g k k') (hclosed : g.Closed arcs blocks)
    (hk : k.known ≤ (arcs, blocks)) : k'.known ≤ (arcs, blocks) := by
  obtain ⟨harcs, hblocks⟩ := hk
  cases h with
  | @block i s lt notSealed unknown knows =>
    refine ⟨harcs, fun j (hj : (k.setBlock _ _).block j ≠ none) => ?_⟩
    rw [Knowledge.setBlock_block] at hj
    by_cases hji : j = i
    · subst hji
      exact hclosed.block j s lt notSealed fun id hid => harcs (knows id hid)
    · rw [if_neg hji] at hj
      exact hblocks hj
  | @arc i s id c known mem unknown others =>
    refine ⟨fun other (hother : (k.setArc _ _).arc other ≠ none) => ?_, hblocks⟩
    rw [Knowledge.setArc_arc] at hother
    by_cases hid : other = id
    · subst hid
      have hi : i ∈ blocks := hblocks (show k.block i ≠ none by simp [known])
      exact hclosed.arc i s other hi mem fun other' hmem hne => harcs (others other' hmem hne)
    · rw [if_neg hid] at hother
      exact harcs hother

theorem Derives.known_le (h : Derives g k k') (hclosed : g.Closed arcs blocks)
    (hk : k.known ≤ (arcs, blocks)) : k'.known ≤ (arcs, blocks) := by
  induction h with
  | refl => exact hk
  | tail _ hlast ih => exact hlast.known_le hclosed ih

/-! ## Nothing less is found -/

/-- Where nothing more can be concluded, what is known is closed. -/
theorem Saturated.closed (hk : Saturated g k) (hext : g.knowledge.Extends k) :
    g.Closed k.known.1 k.known.2 where
  measured id hid := by
    have hmeasured : g.knowledge.arc id ≠ none := by
      have hmem : id ∈ g.knowledge.known.1 := by rwa [g.known_knowledge]
      exact hmem
    exact hext.arc_ne_none hmeasured
  block i s hi hsealed harcs := by
    show k.block i ≠ none
    intro hunknown
    exact hk _ (.block hi hsealed hunknown harcs)
  arc i s id hi hid hothers := by
    show k.arc id ≠ none
    intro hunknown
    obtain ⟨c, hc⟩ := Option.ne_none_iff_exists'.mp hi
    exact hk _ (.arc hc hid hunknown hothers)

/-- A solved graph knows the least closed sets. -/
theorem Solved.isLeast (hs : Solved g h) (hg : g.Prepared) :
    IsLeast {known : Set Nat × Set Nat | g.Closed known.1 known.2}
      (h.resolvedArcs, h.countedBlocks) := by
  rw [← h.known_knowledge]
  refine ⟨hs.saturated.closed hs.derives.extends, ?_⟩
  rintro ⟨arcs, blocks⟩ hclosed
  refine hs.derives.known_le hclosed ?_
  rw [g.known_knowledge]
  refine ⟨hclosed.measured, ?_⟩
  rintro i ⟨block, hblock, hvalid⟩
  obtain ⟨-, hfresh, -⟩ := hg.fresh i block hblock
  simp [hfresh] at hvalid

/-! ## What it does not depend on -/

namespace FlowGraph

/-- `g.Renumbers g' σ`: the arc `id` of the first graph and the arc `σ id` of the second one have
the same ends, and both or neither were measured.  Nothing is said of the counts, nor of the order
in which arcs stand on the sides of blocks. -/
structure Renumbers (g g' : FlowGraph) (σ : Equiv.Perm Nat) : Prop where
  size : g'.size = g.size
  arc : ∀ id, (g'.arcs[σ id]?).map (fun arc => (arc.src, arc.dst, arc.resolved))
    = (g.arcs[id]?).map fun arc => (arc.src, arc.dst, arc.resolved)

namespace Renumbers

variable {g' : FlowGraph} {σ : Equiv.Perm Nat}

theorem symm (h : g.Renumbers g' σ) : g'.Renumbers g σ.symm where
  size := h.size.symm
  arc id := by
    have harc := h.arc (σ.symm id)
    rw [Equiv.apply_symm_apply] at harc
    exact harc.symm

theorem exists_arc (h : g.Renumbers g' σ) {id : Nat} {arc : Arc} (harc : g.arcs[id]? = some arc) :
    ∃ arc', g'.arcs[σ id]? = some arc' ∧ (∀ s, arc'.nearEnd s = arc.nearEnd s)
      ∧ arc'.resolved = arc.resolved := by
  have hmap := h.arc id
  rw [harc, Option.map_some] at hmap
  obtain ⟨arc', harc', heq⟩ := Option.map_eq_some_iff.mp hmap
  simp only [Prod.mk.injEq] at heq
  refine ⟨arc', harc', fun s => ?_, heq.2.2⟩
  cases s with
  | exits => exact heq.1
  | entries => exact heq.2.1

/-- Arcs stand where they stood, under their new numbers. -/
theorem mem_side (h : g.Renumbers g' σ) (hg : g.Linked) (hg' : g'.Linked) {i id : Nat} {s : Side}
    (hid : id ∈ g.side i s) : σ id ∈ g'.side i s := by
  obtain ⟨arc, harc, rfl⟩ := (hg.mem_side i s id).mp hid
  obtain ⟨arc', harc', hend, -⟩ := h.exists_arc harc
  exact (hg'.mem_side _ s _).mpr ⟨arc', harc', hend s⟩

theorem resolvedArcs_subset (h : g.Renumbers g' σ) {id : Nat} (hid : id ∈ g.resolvedArcs) :
    σ id ∈ g'.resolvedArcs := by
  obtain ⟨arc, harc, hres⟩ := hid
  obtain ⟨arc', harc', -, hres'⟩ := h.exists_arc harc
  exact ⟨arc', harc', hres'.trans hres⟩

theorem isOpen (h : g.Renumbers g' σ) (id : Nat) : g'.isOpen (σ id) = g.isOpen id := by
  cases harc : g.arcs[id]? with
  | none =>
    have hmap := h.arc id
    rw [harc, Option.map_none, Option.map_eq_none_iff] at hmap
    simp [FlowGraph.isOpen, harc, hmap]
  | some arc =>
    obtain ⟨arc', harc', -, hres⟩ := h.exists_arc harc
    simp [FlowGraph.isOpen, harc, harc', hres]

theorem sealed (h : g.Renumbers g' σ) (hg : g.Linked) (hg' : g'.Linked) {i : Nat} {s : Side}
    (hsealed : g'.Sealed i s) : g.Sealed i s := by
  obtain ⟨htwo, hend, hopen⟩ := hsealed
  refine ⟨h.size ▸ htwo, h.size ▸ hend, List.countP_eq_zero.mpr fun id hid => ?_⟩
  rw [← h.isOpen id]
  exact List.countP_eq_zero.mp hopen _ (h.mem_side hg hg' hid)

/-- Closed sets are closed under the old numbers. -/
theorem closed (h : g.Renumbers g' σ) (hg : g.Linked) (hg' : g'.Linked)
    (hclosed : g'.Closed arcs blocks) : g.Closed {id | σ id ∈ arcs} blocks where
  measured id hid := hclosed.measured (h.resolvedArcs_subset hid)
  block i s hi hsealed harcs := by
    refine hclosed.block i s (h.size.symm ▸ hi) (fun hs => hsealed (h.sealed hg hg' hs)) ?_
    intro id hid
    have hold : σ (σ.symm id) ∈ arcs := harcs (σ.symm id) (h.symm.mem_side hg' hg hid)
    rwa [Equiv.apply_symm_apply] at hold
  arc i s id hi hid hothers := by
    refine hclosed.arc i s (σ id) hi (h.mem_side hg hg' hid) fun other hother hne => ?_
    have hne' : σ.symm other ≠ id := by
      rintro rfl
      exact hne (Equiv.apply_symm_apply σ other).symm
    have hold : σ (σ.symm other) ∈ arcs :=
      hothers (σ.symm other) (h.symm.mem_side hg' hg hother) hne'
    rwa [Equiv.apply_symm_apply] at hold

/-- The least closed sets are the same ones, up to the numbers. -/
theorem least_le (h : g.Renumbers g' σ) (hg : g.Linked) (hg' : g'.Linked)
    {arcs' blocks' : Set Nat}
    (hleast : IsLeast {known : Set Nat × Set Nat | g.Closed known.1 known.2} (arcs, blocks))
    (hclosed : g'.Closed arcs' blocks') : (∀ id ∈ arcs, σ id ∈ arcs') ∧ blocks ⊆ blocks' := by
  have hle := hleast.2 (show ({id | σ id ∈ arcs'}, blocks') ∈ _ from h.closed hg hg' hclosed)
  exact ⟨fun id hid => hle.1 hid, hle.2⟩

end Renumbers

end FlowGraph

/-! ## What the solver finds out -/

/-- The solver finds the least sets of arcs and blocks that hold what was measured and are closed
under its rules, and nothing beside.  It finds the same ones in every other graph with the same arcs
between the same blocks, of which the same were measured: neither the counts, nor the numbers of the
arcs, nor the order in which they stand on the sides of blocks make a difference to that. -/
theorem solve_closure (func : Func) (hg : func.graph.Prepared) :
    ∃ solved : FlowGraph,
      func.solve.result = .ok () ∧ func.solve.state = { func with graph := solved }
      ∧ func.graph.Refines solved
      ∧ IsLeast {known : Set Nat × Set Nat | func.graph.Closed known.1 known.2}
          (solved.resolvedArcs, solved.countedBlocks)
      ∧ ∀ (other : Func) (σ : Equiv.Perm Nat), other.graph.Prepared →
          func.graph.Renumbers other.graph σ →
          other.solve.state.graph.resolvedArcs = σ '' solved.resolvedArcs
          ∧ other.solve.state.graph.countedBlocks = solved.countedBlocks := by
  obtain ⟨solved, hresult, hstate, hs⟩ := Func.solve_of_prepared hg
  have hleast := hs.isLeast hg
  refine ⟨solved, hresult, hstate, hs.refines, hleast, fun other σ hother hren => ?_⟩
  obtain ⟨solved', -, hstate', hs'⟩ := Func.solve_of_prepared hother
  have hleast' := hs'.isLeast hother
  rw [hstate']
  obtain ⟨harcs, hblocks⟩ := hren.least_le hg.linked hother.linked hleast hleast'.1
  obtain ⟨harcs', hblocks'⟩ := hren.symm.least_le hother.linked hg.linked hleast' hleast.1
  refine ⟨Set.Subset.antisymm (fun id hid => ?_) ?_, Set.Subset.antisymm hblocks' hblocks⟩
  · exact ⟨σ.symm id, harcs' id hid, Equiv.apply_symm_apply σ id⟩
  · rintro _ ⟨id, hid, rfl⟩
    exact harcs id hid

/-- A block that repeats itself between two others, left by two arcs of which one was measured. -/
def repeater : Func where
  ident := 1
  checksum := 0
  name := "repeat"
  source := "repeat.c"
  firstLine := 1
  graph := .ofArcs 4
    [{ src := 0, dst := 1, count := 5, resolved := true }, { src := 1, dst := 1 },
      { src := 1, dst := 2 }, { src := 2, dst := 3, count := 4, resolved := true },
      { src := 1, dst := 2, count := 2, resolved := true }]

/-- The same arcs in another order, with counts that do not fit together. -/
def repeaterAgain : Func where
  ident := 1
  checksum := 0
  name := "repeat"
  source := "repeat.c"
  firstLine := 1
  graph := .ofArcs 4
    [{ src := 1, dst := 2, count := 7, resolved := true },
      { src := 0, dst := 1, count := 1, resolved := true }, { src := 1, dst := 2 },
      { src := 2, dst := 3, resolved := true }, { src := 1, dst := 1 }]

theorem repeater_renumbers :
    repeater.graph.Renumbers repeaterAgain.graph ((Equiv.swap 0 1).trans (Equiv.swap 0 4)) where
  size := by decide
  arc id := by
    by_cases hid : id < 5
    · revert id
      decide
    · have h0 : id ≠ 0 := by omega
      have h1 : id ≠ 1 := by omega
      have h4 : id ≠ 4 := by omega
      have hsame : ((Equiv.swap 0 1).trans (Equiv.swap 0 4)) id = id := by
        rw [Equiv.trans_apply, Equiv.swap_apply_of_ne_of_ne h0 h1,
          Equiv.swap_apply_of_ne_of_ne h0 h4]
      have hnone : ∀ arcs : List Arc, arcs.length = 5 →
          (FlowGraph.ofArcs 4 arcs).arcs[id]? = none := by
        intro arcs hlength
        rw [FlowGraph.ofArcs_arcs, List.getElem?_toArray]
        exact List.getElem?_eq_none (by omega)
      rw [hsame, repeater, repeaterAgain, hnone _ rfl, hnone _ rfl]

theorem repeater_closure :
    IsLeast {known : Set Nat × Set Nat | repeater.graph.Closed known.1 known.2}
        (repeater.solve.state.graph.resolvedArcs, repeater.solve.state.graph.countedBlocks)
      ∧ repeaterAgain.solve.state.graph.countedBlocks = repeater.solve.state.graph.countedBlocks
      ∧ repeater.solve.state.graph.arcs.toList.map (·.resolved) = [true, false, true, true, true]
      ∧ repeaterAgain.solve.state.graph.arcs.toList.map (·.resolved)
        = [true, true, true, true, false]
      ∧ repeater.solve.state.graph.blocks.toList.map (·.countValid)
        = [true, false, true, true] := by
  obtain ⟨solved, -, hstate, -, hleast, hsame⟩ :=
    solve_closure repeater (FlowGraph.prepared_ofArcs (by decide))
  obtain ⟨-, hblocks⟩ := hsame repeaterAgain _ (FlowGraph.prepared_ofArcs (by decide))
    repeater_renumbers
  refine ⟨?_, ?_, by decide, by decide, by decide⟩
  · rw [hstate]
    exact hleast
  · rw [hstate]
    exact hblocks

end Coverage
