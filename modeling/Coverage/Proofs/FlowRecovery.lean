import Coverage.Proofs.GraphConstruction
import Coverage.Proofs.SpanningTree

/-!
# Flow recovery

What solving a function is worth.  Measuring the arcs off a spanning tree is enough to know every
count, and then conservation holds whatever was measured (`solve_of_forest`).  Where less was
measured the solver may leave counts open, but it does not give a wrong one (`solve_agrees`).
-/

namespace Coverage

variable {g h : FlowGraph}

/-! ## What a solved graph knows -/

namespace Solved

/-- What was measured stays as it was measured, and unresolved arcs stay as they were. -/
theorem arc_eq (hs : Solved g h) {id : Nat} {arc arc' : Arc} (harc : g.arcs[id]? = some arc)
    (harc' : h.arcs[id]? = some arc') (hkeep : arc.resolved = true ∨ arc'.resolved = false) :
    arc' = arc := by
  rcases hs.refines.arc id arc arc' harc harc' with rfl | ⟨hres, c, rfl⟩
  · rfl
  · rcases hkeep with hkeep | hkeep
    · exact absurd (hres.symm.trans hkeep) (by simp)
    · exact absurd hkeep (by simp)

theorem linked (hs : Solved g h) (hg : g.Linked) : h.Linked :=
  hs.refines.linked hg

/-- The sum over a side that is known. -/
theorem sumOf_arcsOn (hs : Solved g h) {i : Nat} {s : Side} {block : Block}
    (hblock : h.blocks[i]? = some block) (hknows : h.knowledge.Knows (g.side i s)) :
    h.sumOf (block.arcsOn s) = h.knowledge.sum (g.side i s) := by
  rw [← FlowGraph.side_of_getElem? hblock, hs.refines.side_eq, FlowGraph.sumOf_eq hknows]

/-- Where a flow agrees with what was measured, it agrees with all that was concluded. -/
theorem agrees (hs : Solved g h) (hg : g.Prepared) (hends : g.HasEnds) {f : Nat → Int}
    (hf : Conserved g f)
    (hmeasured : ∀ (id : Nat) (arc : Arc), g.arcs[id]? = some arc → arc.resolved = true →
      arc.count = f id) : h.knowledge.Agrees g f := by
  refine hs.derives.agrees hg.linked hends hf ⟨fun id c hid => ?_, fun i c hi => ?_⟩
  · obtain ⟨arc, harc, hres, rfl⟩ := FlowGraph.exists_arc_of_knowledge hid
    exact hmeasured id arc harc hres
  · obtain ⟨block, hblock, hvalid, -⟩ := FlowGraph.exists_block_of_knowledge hi
    exact absurd ((hg.fresh i block hblock).2.1.symm.trans hvalid) (by simp)

theorem knowledge_founded (hg : g.Prepared) : g.knowledge.Founded g := by
  intro i c hi
  obtain ⟨block, hblock, hvalid, -⟩ := FlowGraph.exists_block_of_knowledge hi
  exact absurd ((hg.fresh i block hblock).2.1.symm.trans hvalid) (by simp)

/-- On a forest every arc is known. -/
theorem knows_arc (hs : Solved g h) (hg : g.Linked) (hends : g.HasEnds)
    (hforest : g.openEdges.Acyclic) {id : Nat} (hid : id < g.arcs.size) :
    h.knowledge.arc id ≠ none :=
  hs.saturated.knows_of_acyclic hg hends hs.derives.extends hforest hid

/-- On a forest all sides are known. -/
theorem knows_side (hs : Solved g h) (hg : g.Linked) (hends : g.HasEnds)
    (hforest : g.openEdges.Acyclic) (i : Nat) (s : Side) : h.knowledge.Knows (g.side i s) :=
  fun _ hid => hs.knows_arc hg hends hforest (hg.lt_arcs hid)

theorem arc_resolved (hs : Solved g h) (hg : g.Linked) (hends : g.HasEnds)
    (hforest : g.openEdges.Acyclic) {id : Nat} {arc : Arc} (harc : h.arcs[id]? = some arc) :
    arc.resolved = true := by
  obtain ⟨arc₀, harc₀, -⟩ := hs.refines.exists_arc_of harc
  have hknown := hs.knows_arc hg hends hforest (Array.getElem?_eq_some_iff.mp harc₀).1
  rw [Ne, FlowGraph.knowledge_arc_eq_none_iff harc] at hknown
  simpa using hknown

theorem block_valid (hs : Solved g h) (hg : g.Linked) (hends : g.HasEnds)
    (hforest : g.openEdges.Acyclic) {i : Nat} {block : Block} (hblock : h.blocks[i]? = some block) :
    block.countValid = true := by
  have hi : i < g.size := hs.refines.size ▸ FlowGraph.lt_of_getElem? hblock
  have hknown := hs.saturated.block_ne_none hg hends
    (fun id hid => hs.knows_arc hg hends hforest hid) hi
  by_contra hvalid
  exact hknown (FlowGraph.knowledge_block_of_invalid hblock (by simpa using hvalid))

/-- On a forest the count of a block is what passes through a side without an implicit edge. -/
theorem count_eq_sumOf (hs : Solved g h) (hg : g.Prepared) (hends : g.HasEnds)
    (hforest : g.openEdges.Acyclic) {i : Nat} {block : Block} (hblock : h.blocks[i]? = some block)
    {s : Side} (hsealed : g.Sealed i s.opposite) : block.count = h.sumOf (block.arcsOn s) := by
  have hvalid := hs.block_valid hg.linked hends hforest hblock
  have hfounded := (hs.derives.owned hg.linked (knowledge_founded hg)).1
  obtain ⟨t, ht, hknows, hsum⟩ :=
    hfounded i _ (FlowGraph.knowledge_block_of_valid hblock hvalid)
  have hts : t = s := by
    by_contra hne
    exact ht (Side.eq_opposite hne ▸ hsealed)
  subst hts
  rw [hs.sumOf_arcsOn hblock hknows, hsum]

/-- On a tree both sides of an inner block sum up to its count. -/
theorem sumOf_eq_count (hs : Solved g h) (hg : g.Prepared) (hends : g.HasEnds)
    (hforest : g.openEdges.Acyclic) (hconn : g.openEdges.Connected) {i : Nat} (hpos : 0 < i)
    (hlast : i < g.size - 1) {block : Block} (hblock : h.blocks[i]? = some block) (s : Side) :
    h.sumOf (block.arcsOn s) = block.count := by
  obtain ⟨-, owner, howner⟩ := hs.derives.owned hg.linked (knowledge_founded hg)
  obtain ⟨c, hc, hsides⟩ := balanced_of_tree hg.linked hends hconn
    (fun id hid => hs.knows_arc hg.linked hends hforest hid) howner hpos hlast
  have hvalid := hs.block_valid hg.linked hends hforest hblock
  rw [FlowGraph.knowledge_block_of_valid hblock hvalid, Option.some.injEq] at hc
  rw [hs.sumOf_arcsOn hblock (hsides s).1, (hsides s).2, hc]

/-- On a tree the counts that were found are themselves a flow. -/
theorem conserved (hs : Solved g h) (hg : g.Prepared) (hends : g.HasEnds)
    (hforest : g.openEdges.Acyclic) (hconn : g.openEdges.Connected) :
    Conserved g fun id => (h.knowledge.arc id).getD 0 := by
  intro i hpos hlast
  obtain ⟨block, hblock⟩ := FlowGraph.exists_block (g := h) (i := i) (by
    have := hs.refines.size
    omega)
  have hside : ∀ s, total (fun id => (h.knowledge.arc id).getD 0) (g.side i s) = block.count := by
    intro s
    rw [← hs.sumOf_eq_count hg hends hforest hconn hpos hlast hblock s,
      hs.sumOf_arcsOn hblock (hs.knows_side hg.linked hends hforest i s)]
    rfl
  rw [hside, hside]

/-- On a tree as much passes through the first block as through the last. -/
theorem first_count_eq (hs : Solved g h) (hg : g.Prepared) (hends : g.HasEnds)
    (hforest : g.openEdges.Acyclic) (hconn : g.openEdges.Connected) {first last : Block}
    (hfirst : h.blocks[0]? = some first) (hlast : h.blocks[g.size - 1]? = some last) :
    first.count = h.sumOf first.exits ∧ last.count = h.sumOf last.entries
      ∧ first.count = last.count := by
  have h0 : first.count = h.sumOf first.exits :=
    hs.count_eq_sumOf hg hends hforest hfirst (s := .exits)
      ((hends.sealed_iff hg.linked _ _).mpr (.inl ⟨rfl, rfl⟩))
  have h1 : last.count = h.sumOf last.entries :=
    hs.count_eq_sumOf hg hends hforest hlast (s := .entries)
      ((hends.sealed_iff hg.linked _ _).mpr (.inr ⟨rfl, rfl⟩))
  refine ⟨h0, h1, ?_⟩
  have hflow := hends.total_eq hg.linked (hs.conserved hg hends hforest hconn)
  rw [h0, h1]
  exact ((hs.sumOf_arcsOn hfirst (hs.knows_side hg.linked hends hforest 0 .exits)).trans
    hflow).trans (hs.sumOf_arcsOn hlast
      (hs.knows_side hg.linked hends hforest (g.size - 1) .entries)).symm

end Solved

/-! ## Enough is measured -/

/-- Measuring the arcs off a forest is enough.  If the unresolved arcs of a function, together with
an edge that closes it from its last block to its first, contain no cycle, then solving ends well
and leaves nothing unknown; what was measured stays as it was.  If these edges also connect all
blocks, then, whatever was measured, all inner blocks are balanced, as much leaves the first block
as enters the last one, and no other counts would do. -/
theorem solve_of_forest (func : Func) (hg : func.graph.Prepared) (hends : func.graph.HasEnds)
    (hforest : func.graph.openEdges.Acyclic) :
    ∃ solved : FlowGraph,
      func.solve.result = .ok () ∧ func.solve.state = { func with graph := solved }
      ∧ func.graph.Refines solved
      ∧ (∀ arc ∈ solved.arcs, arc.resolved = true)
      ∧ (∀ block ∈ solved.blocks, block.countValid = true)
      ∧ (∀ (id : Nat) (arc : Arc), func.graph.arcs[id]? = some arc → arc.resolved = true →
          solved.arcs[id]? = some arc)
      ∧ (func.graph.openEdges.Connected →
          (∀ (i : Nat) (block : Block), 0 < i → i < func.graph.size - 1 →
            solved.blocks[i]? = some block →
            solved.sumOf block.entries = block.count ∧ solved.sumOf block.exits = block.count)
          ∧ (∃ first last : Block, solved.blocks[0]? = some first
            ∧ solved.blocks[func.graph.size - 1]? = some last
            ∧ first.count = solved.sumOf first.exits ∧ last.count = solved.sumOf last.entries
            ∧ first.count = last.count)
          ∧ ∀ f : Nat → Int, Conserved func.graph f →
            (∀ (id : Nat) (arc : Arc), func.graph.arcs[id]? = some arc → arc.resolved = true →
              arc.count = f id) →
            ∀ (id : Nat) (arc : Arc), solved.arcs[id]? = some arc → arc.count = f id) := by
  obtain ⟨solved, hresult, hstate, hs⟩ := Func.solve_of_prepared hg
  have hresolved : ∀ (id : Nat) (arc : Arc), solved.arcs[id]? = some arc → arc.resolved = true :=
    fun id arc harc => hs.arc_resolved hg.linked hends hforest harc
  refine ⟨solved, hresult, hstate, hs.refines, fun arc harc => ?_, fun block hblock => ?_,
    fun id arc harc hres => ?_, fun hconn => ⟨fun i block hpos hlast hblock => ?_, ?_,
      fun f hf hmeasured id arc harc => ?_⟩⟩
  · obtain ⟨id, hid⟩ := Array.mem_iff_getElem?.mp harc
    exact hresolved id arc hid
  · obtain ⟨i, hi⟩ := Array.mem_iff_getElem?.mp hblock
    exact hs.block_valid hg.linked hends hforest hi
  · obtain ⟨arc', harc', -⟩ := hs.refines.exists_arc harc
    rw [harc', hs.arc_eq harc harc' (.inl hres)]
  · exact ⟨hs.sumOf_eq_count hg hends hforest hconn hpos hlast hblock .entries,
      hs.sumOf_eq_count hg hends hforest hconn hpos hlast hblock .exits⟩
  · have htwo := hends.two_le
    have hsize := hs.refines.size
    obtain ⟨first, hfirst⟩ := FlowGraph.exists_block (g := solved) (i := 0) (by omega)
    obtain ⟨last, hlast⟩ := FlowGraph.exists_block (g := solved) (i := func.graph.size - 1)
      (by omega)
    exact ⟨first, last, hfirst, hlast, hs.first_count_eq hg hends hforest hconn hfirst hlast⟩
  · exact (hs.agrees hg hends hf hmeasured).arc id _
      (FlowGraph.knowledge_arc_of_resolved harc (hresolved id arc harc))

/-- A loop whose body is a branch, with counters for three rounds on the arcs off a tree. -/
def measuredLoop : Func where
  ident := 1
  checksum := 0
  name := "loop"
  source := "loop.c"
  firstLine := 1
  graph := .ofArcs 6
    [{ src := 0, dst := 1 }, { src := 1, dst := 2 }, { src := 1, dst := 3 },
      { src := 2, dst := 4 }, { src := 3, dst := 4, count := 1, resolved := true },
      { src := 4, dst := 1, count := 2, resolved := true },
      { src := 4, dst := 5, count := 1, resolved := true }]

theorem measuredLoop_solved :
    measuredLoop.graph.openEdges.Acyclic ∧ measuredLoop.graph.openEdges.Connected
      ∧ measuredLoop.solve.result = .ok ()
      ∧ (∀ arc ∈ measuredLoop.solve.state.graph.arcs, arc.resolved = true)
      ∧ measuredLoop.solve.state.graph.arcs.toList.map (·.count) = [1, 2, 1, 2, 1, 2, 1]
      ∧ measuredLoop.solve.state.graph.blocks.toList.map (·.count) = [1, 3, 2, 1, 3, 1] := by
  have hpeels : measuredLoop.graph.openEdges.peels
      [.arc 2, .arc 3, .closing, .arc 0, .arc 1] = true := by decide
  have hopen : (List.range measuredLoop.graph.arcs.size).filter measuredLoop.graph.isOpen
      = [0, 1, 2, 3] := by decide
  have hforest : measuredLoop.graph.openEdges.Acyclic := by
    refine Multigraph.acyclic_of_peels hpeels fun e i j h => ?_
    have hmem := FlowGraph.mem_unmeasured h
    rw [hopen] at hmem
    simp only [List.map_cons, List.map_nil, List.mem_cons] at hmem ⊢
    tauto
  have hconn : measuredLoop.graph.openEdges.Connected := by
    refine Multigraph.connected_of_parents fun i hi hne => ?_
    have hcases : i = 1 ∨ i = 2 ∨ i = 3 ∨ i = 4 ∨ i = 5 := by
      change i < 6 at hi
      omega
    rcases hcases with rfl | rfl | rfl | rfl | rfl
    · exact ⟨.arc 0, 0, by decide, .inr rfl⟩
    · exact ⟨.arc 1, 1, by decide, .inr rfl⟩
    · exact ⟨.arc 2, 1, by decide, .inr rfl⟩
    · exact ⟨.arc 3, 2, by decide, .inr rfl⟩
    · exact ⟨.closing, 0, by decide, .inl rfl⟩
  obtain ⟨solved, hresult, hstate, -, harcs, -⟩ :=
    solve_of_forest measuredLoop (FlowGraph.prepared_ofArcs (by decide))
      (FlowGraph.hasEnds_ofArcs (by decide) (by decide)) hforest
  exact ⟨hforest, hconn, hresult, by rw [hstate]; exact harcs, by decide, by decide⟩

/-! ## Nothing is made up -/

/-- The solver does not make up counts, however little was measured.  Whatever flow agrees with the
measured arcs, all resolved arcs and all blocks with a count agree with it after solving; an
unresolved arc is left as it was, and a block without a count has none. -/
theorem solve_agrees (func : Func) (hg : func.graph.Prepared) (hends : func.graph.HasEnds)
    (f : Nat → Int) (hf : Conserved func.graph f)
    (hmeasured : ∀ (id : Nat) (arc : Arc), func.graph.arcs[id]? = some arc → arc.resolved = true →
      arc.count = f id) :
    ∃ solved : FlowGraph,
      func.solve.result = .ok () ∧ func.solve.state = { func with graph := solved }
      ∧ func.graph.Refines solved
      ∧ (∀ (id : Nat) (arc : Arc), solved.arcs[id]? = some arc → arc.resolved = true →
          arc.count = f id)
      ∧ (∀ (i : Nat) (block : Block), solved.blocks[i]? = some block → block.countValid = true →
          block.count = func.graph.throughput f i)
      ∧ (∀ (id : Nat) (arc : Arc), solved.arcs[id]? = some arc → arc.resolved = false →
          func.graph.arcs[id]? = some arc)
      ∧ ((∀ arc ∈ func.graph.arcs, arc.resolved = false → arc.count = 0) →
          ∀ arc ∈ solved.arcs, arc.resolved = false → arc.count = 0)
      ∧ (∀ block ∈ solved.blocks, block.countValid = false → block.count = 0) := by
  obtain ⟨solved, hresult, hstate, hs⟩ := Func.solve_of_prepared hg
  have hagrees := hs.agrees hg hends hf hmeasured
  have hopen : ∀ (id : Nat) (arc : Arc), solved.arcs[id]? = some arc → arc.resolved = false →
      func.graph.arcs[id]? = some arc := by
    intro id arc harc hres
    obtain ⟨arc₀, harc₀, -⟩ := hs.refines.exists_arc_of harc
    rw [harc₀, hs.arc_eq harc₀ harc (.inr hres)]
  refine ⟨solved, hresult, hstate, hs.refines, fun id arc harc hres => ?_,
    fun i block hblock hvalid => ?_, hopen, fun hzero arc harc hres => ?_,
    fun block hblock hvalid => ?_⟩
  · exact hagrees.arc id _ (FlowGraph.knowledge_arc_of_resolved harc hres)
  · exact hagrees.block i _ (FlowGraph.knowledge_block_of_valid hblock hvalid)
  · obtain ⟨id, hid⟩ := Array.mem_iff_getElem?.mp harc
    exact hzero arc (Array.mem_of_getElem? (hopen id arc hid hres)) hres
  · obtain ⟨i, hi⟩ := Array.mem_iff_getElem?.mp hblock
    have hlt : i < func.graph.size := hs.refines.size ▸ FlowGraph.lt_of_getElem? hi
    obtain ⟨block₀, hblock₀⟩ := FlowGraph.exists_block hlt
    rw [(hs.refines.block i block₀ block hblock₀ hi).count hvalid]
    exact (hg.fresh i block₀ hblock₀).1

/-- The same loop with counters on two arcs only, too few to tell how often it was entered. -/
def sparseLoop : Func where
  ident := 1
  checksum := 0
  name := "loop"
  source := "loop.c"
  firstLine := 1
  graph := .ofArcs 6
    [{ src := 0, dst := 1 }, { src := 1, dst := 2, count := 2, resolved := true },
      { src := 1, dst := 3 }, { src := 2, dst := 4 }, { src := 3, dst := 4 },
      { src := 4, dst := 1 }, { src := 4, dst := 5, count := 1, resolved := true }]

theorem sparseLoop_agrees :
    sparseLoop.solve.result = .ok ()
      ∧ sparseLoop.solve.state.graph.arcs.toList.map (fun arc => (arc.resolved, arc.count))
        = [(false, 0), (true, 2), (false, 0), (true, 2), (false, 0), (false, 0), (true, 1)]
      ∧ ∀ (id : Nat) (arc : Arc), sparseLoop.solve.state.graph.arcs[id]? = some arc →
          arc.resolved = true → arc.count = [1, 2, 1, 2, 1, 2, 1].getD id 0 := by
  have hflow : Conserved sparseLoop.graph fun id => [1, 2, 1, 2, 1, 2, 1].getD id 0 := by
    intro i hpos hlast
    change i < 5 at hlast
    have hcases : i = 1 ∨ i = 2 ∨ i = 3 ∨ i = 4 := by omega
    rcases hcases with rfl | rfl | rfl | rfl <;> decide
  have hmeasured : ∀ (id : Nat) (arc : Arc), sparseLoop.graph.arcs[id]? = some arc →
      arc.resolved = true → arc.count = [1, 2, 1, 2, 1, 2, 1].getD id 0 := by
    intro id arc harc hres
    have hid : id < 7 := (Array.getElem?_eq_some_iff.mp harc).1
    have hall : ∀ id < 7, ∀ arc ∈ sparseLoop.graph.arcs[id]?,
        arc.resolved = true → arc.count = [1, 2, 1, 2, 1, 2, 1].getD id 0 := by decide
    exact hall id hid arc harc hres
  obtain ⟨solved, hresult, hstate, -, hagrees, -⟩ :=
    solve_agrees sparseLoop (FlowGraph.prepared_ofArcs (by decide))
      (FlowGraph.hasEnds_ofArcs (by decide) (by decide)) _ hflow hmeasured
  refine ⟨hresult, by decide, ?_⟩
  rw [hstate]
  exact hagrees

end Coverage
