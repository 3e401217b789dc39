import Coverage.Proofs.FlowRecovery

/-!
# What conservation is left

Counters may contradict each other: a run was cut short, or two runs were added up by halves.  Then
there is no flow that the solver could find, and what it makes of them depends on the order in which
it comes to the blocks.  Two things hold all the same.

A count of a block is not made up: one of the sides of the block sums up to it.  And every arc that
the solver gives a count to balances a block at one of its ends, a different one for every arc.  For
an arc is resolved from a block only if the count of that block came from its other side, and then
that block has no unresolved arcs left and resolves nothing more (`Derives.owned`).

* `solve_balances` — whatever was measured, at least as many blocks are balanced as arcs were
  resolved.
-/

namespace Coverage

namespace FlowGraph

/-! ## Balance -/

/-- Whether all arcs on a side of a block are resolved and sum up to its count. -/
def sumsUp (g : FlowGraph) (block : Block) (s : Side) : Bool :=
  ((block.arcsOn s).all fun id => (g.arcs[id]?).any (·.resolved))
    && g.sumOf (block.arcsOn s) == block.count

/-- Whether a block has a count, and both its sides sum up to it. -/
def isBalanced (g : FlowGraph) (i : Nat) : Bool :=
  (g.blocks[i]?).any fun block =>
    block.countValid && g.sumsUp block .exits && g.sumsUp block .entries

/-- The arcs that are resolved in the second graph, but were not so in the first one. -/
def derivedArcs (g h : FlowGraph) : List Nat :=
  (List.range g.arcs.size).filter fun id => g.isOpen id && !h.isOpen id

variable {g h : FlowGraph}

theorem any_resolved_of_knowledge {id : Nat} (hknown : g.knowledge.arc id ≠ none) :
    (g.arcs[id]?).any (·.resolved) = true := by
  obtain ⟨c, hc⟩ := Option.ne_none_iff_exists'.mp hknown
  obtain ⟨arc, harc, hres, -⟩ := exists_arc_of_knowledge hc
  rw [harc, Option.any_some, hres]

theorem mem_derivedArcs (hr : g.Refines h) {id : Nat} (hid : id ∈ derivedArcs g h) :
    g.knowledge.arc id = none ∧ h.knowledge.arc id ≠ none := by
  obtain ⟨hlt, hopen⟩ := List.mem_filter.mp hid
  rw [Bool.and_eq_true, Bool.not_eq_true'] at hopen
  have harc := Array.getElem?_eq_getElem (List.mem_range.mp hlt)
  obtain ⟨arc', harc', -⟩ := hr.exists_arc harc
  refine ⟨(isOpen_eq_true_iff harc).mp hopen.1, fun hunknown => ?_⟩
  rw [← isOpen_eq_true_iff harc', hopen.2] at hunknown
  cases hunknown

theorem nodup_derivedArcs (g h : FlowGraph) : (derivedArcs g h).Nodup :=
  List.nodup_range.filter _

end FlowGraph

namespace Solved

variable {g h : FlowGraph} {i : Nat} {s : Side} {block : Block}

/-- A side that is known sums up to what is known of it. -/
theorem sumsUp (hs : Solved g h) (hblock : h.blocks[i]? = some block)
    (hknows : h.knowledge.Knows (g.side i s))
    (hsum : h.knowledge.sum (g.side i s) = block.count) : h.sumsUp block s = true := by
  have hside : block.arcsOn s = g.side i s := by
    rw [← FlowGraph.side_of_getElem? hblock, hs.refines.side_eq]
  rw [FlowGraph.sumsUp, Bool.and_eq_true, List.all_eq_true, beq_iff_eq]
  constructor
  · intro id hid
    exact FlowGraph.any_resolved_of_knowledge (hknows id (hside ▸ hid))
  · rw [hs.sumOf_arcsOn hblock hknows, hsum]

theorem isBalanced (hs : Solved g h) (hbalanced : h.knowledge.Balanced g i) :
    h.isBalanced i = true := by
  obtain ⟨c, hc, hsides⟩ := hbalanced
  obtain ⟨block, hblock, hvalid, rfl⟩ := FlowGraph.exists_block_of_knowledge hc
  have hsum : ∀ s, h.sumsUp block s = true := fun s =>
    hs.sumsUp hblock (hsides s).1 (hsides s).2
  simp [FlowGraph.isBalanced, hblock, hvalid, hsum]

/-- No more arcs were concluded than there are balanced blocks. -/
theorem length_derivedArcs_le (hs : Solved g h) {owner : Nat → Nat}
    (ho : h.knowledge.Owned g g.knowledge owner) :
    (FlowGraph.derivedArcs g h).length ≤ (List.range h.size).countP h.isBalanced := by
  have hderived : ∀ id ∈ FlowGraph.derivedArcs g h,
      g.knowledge.arc id = none ∧ h.knowledge.arc id ≠ none :=
    fun id hid => FlowGraph.mem_derivedArcs hs.refines hid
  have hnodup := ho.nodup_map (FlowGraph.nodup_derivedArcs g h) hderived
  have hsub : (FlowGraph.derivedArcs g h).map owner
      ⊆ (List.range h.size).filter h.isBalanced := by
    intro i hi
    obtain ⟨id, hid, rfl⟩ := List.mem_map.mp hi
    obtain ⟨⟨s, hside, -⟩, hbalanced⟩ :=
      ho.balanced id (hderived id hid).1 (hderived id hid).2
    have hlt := FlowGraph.lt_size_of_mem_side hside
    rw [← hs.refines.size] at hlt
    exact List.mem_filter.mpr ⟨List.mem_range.mpr hlt, hs.isBalanced hbalanced⟩
  rw [← List.length_map owner, List.countP_eq_length_filter]
  exact (hnodup.subperm hsub).length_le

end Solved

/-! ## Whatever was measured -/

/-- What is left of conservation when counters contradict each other.  Every block with a count has
a side without an implicit edge whose arcs are all resolved and sum up to that count.  Every arc
that the solver resolved has one of its ends for itself, and there both sides are resolved and sum
up to the count of the block.  So at least as many blocks are balanced as arcs were resolved. -/
theorem solve_balances (func : Func) (hg : func.graph.Prepared) :
    ∃ (solved : FlowGraph) (owner : Nat → Nat),
      func.solve.result = .ok () ∧ func.solve.state = { func with graph := solved }
      ∧ func.graph.Refines solved
      ∧ (∀ (i : Nat) (block : Block), solved.blocks[i]? = some block → block.countValid = true →
          ∃ s, ¬ func.graph.Sealed i s ∧ solved.sumsUp block s = true)
      ∧ (∀ id ∈ func.graph.derivedArcs solved,
          (∃ arc, solved.arcs[id]? = some arc ∧ (owner id = arc.src ∨ owner id = arc.dst))
          ∧ solved.isBalanced (owner id) = true)
      ∧ (∀ id ∈ func.graph.derivedArcs solved, ∀ id' ∈ func.graph.derivedArcs solved,
          owner id = owner id' → id = id')
      ∧ (func.graph.derivedArcs solved).length
        ≤ (List.range solved.size).countP solved.isBalanced := by
  obtain ⟨solved, hresult, hstate, hs⟩ := Func.solve_of_prepared hg
  obtain ⟨hfounded, owner, ho⟩ := hs.derives.owned hg.linked (Solved.knowledge_founded hg)
  refine ⟨solved, owner, hresult, hstate, hs.refines, fun i block hblock hvalid => ?_,
    fun id hid => ?_, fun id hid id' hid' heq => ?_, hs.length_derivedArcs_le ho⟩
  · obtain ⟨s, hsealed, hknows, hsum⟩ :=
      hfounded i _ (FlowGraph.knowledge_block_of_valid hblock hvalid)
    exact ⟨s, hsealed, hs.sumsUp hblock hknows hsum⟩
  · obtain ⟨hopen, hknown⟩ := FlowGraph.mem_derivedArcs hs.refines hid
    obtain ⟨⟨s, hside, -⟩, hbalanced⟩ := ho.balanced id hopen hknown
    refine ⟨?_, hs.isBalanced hbalanced⟩
    rw [← hs.refines.side_eq, (hs.linked hg.linked).mem_side] at hside
    obtain ⟨arc, harc, hend⟩ := hside
    cases s with
    | exits => exact ⟨arc, harc, .inl hend.symm⟩
    | entries => exact ⟨arc, harc, .inr hend.symm⟩
  · obtain ⟨hopen, hknown⟩ := FlowGraph.mem_derivedArcs hs.refines hid
    obtain ⟨hopen', hknown'⟩ := FlowGraph.mem_derivedArcs hs.refines hid'
    exact ho.injective id id' hopen hknown hopen' hknown' heq

/-- A branch whose counters say that the side road was entered once and left nine times. -/
def contradictory : Func where
  ident := 1
  checksum := 0
  name := "branch"
  source := "branch.c"
  firstLine := 1
  graph := .ofArcs 4
    [{ src := 0, dst := 1, count := 5, resolved := true },
      { src := 1, dst := 2, count := 1, resolved := true }, { src := 1, dst := 3 },
      { src := 2, dst := 3, count := 9, resolved := true }]

theorem contradictory_balances :
    contradictory.solve.state.graph.blocks.toList.map (·.count) = [5, 5, 9, 13]
      ∧ (List.range 4).filter contradictory.solve.state.graph.isBalanced = [1]
      ∧ contradictory.graph.derivedArcs contradictory.solve.state.graph = [2]
      ∧ ∃ owner : Nat → Nat, (owner 2 = 1 ∨ owner 2 = 3)
        ∧ contradictory.solve.state.graph.isBalanced (owner 2) = true := by
  obtain ⟨solved, owner, -, hstate, -, -, howned, -, -⟩ :=
    solve_balances contradictory (FlowGraph.prepared_ofArcs (by decide))
  have hderived : contradictory.graph.derivedArcs contradictory.solve.state.graph = [2] := by
    decide
  have hends : (contradictory.solve.state.graph.arcs[2]?).map (fun arc => (arc.src, arc.dst))
      = some (1, 3) := by decide
  refine ⟨by decide, by decide, hderived, owner, ?_⟩
  rw [hstate] at hderived hends ⊢
  have hmem : 2 ∈ contradictory.graph.derivedArcs solved := by
    show 2 ∈ contradictory.graph.derivedArcs { contradictory with graph := solved }.graph
    rw [hderived]
    exact List.mem_singleton_self 2
  obtain ⟨⟨arc, harc, hend⟩, hbalanced⟩ := howned 2 hmem
  change (solved.arcs[2]?).map (fun arc => (arc.src, arc.dst)) = some (1, 3) at hends
  rw [harc, Option.map_some, Option.some.injEq, Prod.mk.injEq] at hends
  obtain ⟨hsrc, hdst⟩ := hends
  refine ⟨?_, hbalanced⟩
  rwa [hsrc, hdst] at hend

end Coverage
