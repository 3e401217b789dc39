import Coverage.Proofs.DataRoundTrip
import Coverage.Proofs.FlowRecovery

/-!
# Walks through a function

What a program does in a function is a walk from its first block to its last, arc by arc.  How
often the arcs are taken by some walks is a flow (`conserved_traversals`), since a walk that comes
to a block in between goes on from there; and the flow through a block is how often the walks visit
it (`throughput_traversals`).  So a function whose counters were written by walks is solved to just
what the walks did (`CountedAs.solve`), if the arcs without a counter are those of a spanning tree.
-/

namespace Coverage

/-! ## Walks -/

/-- `Leads arcs i walk j`: the arcs with the numbers `walk` lead from the block `i` to the block
`j`. -/
inductive Leads (arcs : List ArcPlan) : Nat → List Nat → Nat → Prop
  | nil (i : Nat) : Leads arcs i [] i
  | cons {id j : Nat} {arc : ArcPlan} {walk : List Nat} :
      arcs[id]? = some arc → Leads arcs arc.dst walk j → Leads arcs arc.src (id :: walk) j

theorem leads_nil {arcs : List ArcPlan} {i j : Nat} : Leads arcs i [] j ↔ i = j := by
  constructor
  · rintro ⟨⟩
    rfl
  · rintro rfl
    exact .nil i

theorem leads_cons {arcs : List ArcPlan} {i j id : Nat} {walk : List Nat} :
    Leads arcs i (id :: walk) j
      ↔ ∃ arc ∈ arcs[id]?, arc.src = i ∧ Leads arcs arc.dst walk j := by
  constructor
  · rintro (_ | ⟨harc, hrest⟩)
    exact ⟨_, harc, rfl, hrest⟩
  · rintro ⟨arc, harc, rfl, hrest⟩
    exact .cons harc hrest

instance Leads.decidable (arcs : List ArcPlan) (i : Nat) (walk : List Nat) (j : Nat) :
    Decidable (Leads arcs i walk j) :=
  match walk with
  | [] => decidable_of_iff _ leads_nil.symm
  | _ :: walk =>
    have (arc : ArcPlan) := Leads.decidable arcs arc.dst walk j
    decidable_of_iff _ leads_cons.symm

namespace FuncPlan

/-- The arcs that a walk takes, one after another. -/
def steps (plan : FuncPlan) (walk : List Nat) : List ArcPlan :=
  walk.filterMap (plan.orderedArcs[·]?)

/-- The blocks that a walk from the first block visits, one after another. -/
def path (plan : FuncPlan) (walk : List Nat) : List Nat :=
  0 :: (plan.steps walk).map (·.dst)

/-- How often walks visit a block. -/
def visits (plan : FuncPlan) (walks : List (List Nat)) (block : Nat) : Nat :=
  (walks.flatMap plan.path).count block

/-- How often walks take an arc. -/
def traversals (walks : List (List Nat)) (id : Nat) : Nat :=
  walks.flatten.count id

/-- All arcs that walks take. -/
def allSteps (plan : FuncPlan) (walks : List (List Nat)) : List ArcPlan :=
  walks.flatMap plan.steps

/-- `plan.RanAs walks`: the walks lead through the function, and its counters hold how often they
take each arc off the spanning tree. -/
structure RanAs (plan : FuncPlan) (walks : List (List Nat)) : Prop where
  leads : ∀ walk ∈ walks, Leads plan.orderedArcs 0 walk (plan.blockCount.toNat - 1)
  counts : ∀ (id : Nat) (arc : ArcPlan), plan.orderedArcs[id]? = some arc → arc.onTree = false →
    arc.count = traversals walks id
  fits : ∀ (id : Nat) (arc : ArcPlan), plan.orderedArcs[id]? = some arc → arc.onTree = false →
    traversals walks id < 2 ^ 64

/-- The arcs of the spanning tree as undirected edges, and the edge that joins the last block to
the first. -/
def treeEdges (plan : FuncPlan) : Multigraph Edge where
  order := plan.blockCount.toNat
  ends
    | .closing => some (plan.blockCount.toNat - 1, 0)
    | .arc id => (plan.orderedArcs[id]?).bind fun arc =>
        if arc.onTree then some (arc.src, arc.dst) else none

/-- What a compiler observes when it picks the arcs that need no counter. -/
structure Instrumented (plan : FuncPlan) : Prop where
  two_le : 2 ≤ plan.blockCount
  no_entry : ∀ arc ∈ plan.arcs, arc.dst ≠ 0
  no_exit : ∀ arc ∈ plan.arcs, arc.src ≠ plan.blockCount.toNat - 1
  forest : plan.treeEdges.Acyclic

variable {plan : FuncPlan} {walks : List (List Nat)} {walk : List Nat}

/-- Walks are checked arc by arc. -/
theorem RanAs.of_bounded
    (hleads : ∀ walk ∈ walks, Leads plan.orderedArcs 0 walk (plan.blockCount.toNat - 1))
    (harcs : ∀ id < plan.orderedArcs.length, ∀ arc ∈ plan.orderedArcs[id]?, arc.onTree = false →
      arc.count = traversals walks id ∧ traversals walks id < 2 ^ 64) : plan.RanAs walks := by
  have hlt : ∀ {id : Nat} {arc : ArcPlan}, plan.orderedArcs[id]? = some arc →
      id < plan.orderedArcs.length := fun h => (List.getElem?_eq_some_iff.mp h).1
  exact {
    leads := hleads
    counts := fun id arc harc htree => (harcs id (hlt harc) arc harc htree).1
    fits := fun id arc harc htree => (harcs id (hlt harc) arc harc htree).2 }

/-- Spanning trees are checked leaf by leaf. -/
theorem acyclic_treeEdges (edges : List Edge) (hpeels : plan.treeEdges.peels edges = true)
    (hclosing : .closing ∈ edges)
    (harcs : ∀ id < plan.orderedArcs.length, (plan.orderedArcs[id]?).any (·.onTree) = true →
      .arc id ∈ edges) : plan.treeEdges.Acyclic := by
  have hmem : ∀ {e i j}, plan.treeEdges.ends e = some (i, j) → e ∈ edges := by
    intro e i j h
    cases e with
    | closing => exact hclosing
    | arc id =>
      obtain ⟨arc, harc, hends⟩ := Option.bind_eq_some_iff.mp h
      refine harcs id (List.getElem?_eq_some_iff.mp harc).1 ?_
      rw [harc, Option.any_some]
      by_contra htree
      rw [if_neg htree] at hends
      cases hends
  refine Multigraph.acyclic_of_peels hpeels fun e i j h => ?_
  rcases h with h | h <;> exact hmem h

/-- The blocks that a walk comes to are those that it leaves, one later. -/
theorem cons_map_dst {i j : Nat} (h : Leads plan.orderedArcs i walk j) :
    i :: (plan.steps walk).map (·.dst) = (plan.steps walk).map (·.src) ++ [j] := by
  induction h with
  | nil i => rfl
  | cons harc _ ih =>
    rw [steps, List.filterMap_cons, harc]
    exact congrArg (List.cons _) ih

/-- A walk leaves every block but its last as often as it visits it. -/
theorem countP_src (hleads : Leads plan.orderedArcs 0 walk (plan.blockCount.toNat - 1))
    {block : Nat} (hne : block ≠ plan.blockCount.toNat - 1) :
    (plan.steps walk).countP (·.src == block) = (plan.path walk).count block := by
  rw [path, cons_map_dst hleads, List.count_append, List.count_singleton, List.count,
    List.countP_map, if_neg (by simpa using Ne.symm hne)]
  rfl

/-- A walk enters every block but its first as often as it visits it. -/
theorem countP_dst (walk : List Nat) {block : Nat} (hne : block ≠ 0) :
    (plan.steps walk).countP (·.dst == block) = (plan.path walk).count block := by
  rw [path, List.count_cons, List.count, List.countP_map, if_neg (by simpa using Ne.symm hne)]
  rfl

theorem RanAs.countP_src (h : plan.RanAs walks) {block : Nat}
    (hne : block ≠ plan.blockCount.toNat - 1) :
    (plan.allSteps walks).countP (·.src == block) = plan.visits walks block := by
  rw [allSteps, visits, List.countP_flatMap, List.count, List.countP_flatMap]
  congr 1
  exact List.map_congr_left fun walk hwalk => FuncPlan.countP_src (h.leads walk hwalk) hne

theorem countP_allSteps_dst (walks : List (List Nat)) {block : Nat} (hne : block ≠ 0) :
    (plan.allSteps walks).countP (·.dst == block) = plan.visits walks block := by
  rw [allSteps, visits, List.countP_flatMap, List.count, List.countP_flatMap]
  congr 1
  exact List.map_congr_left fun walk _ => countP_dst walk hne

end FuncPlan

/-! ## Traversals as a flow -/

/-- `plan.Shapes g`: the graph has the arcs of the plan, whatever is known about their counts. -/
structure FuncPlan.Shapes (plan : FuncPlan) (g : FlowGraph) : Prop where
  linked : g.Linked
  size : g.size = plan.blockCount.toNat
  ends : ∀ id : Nat, (g.arcs[id]?).map (fun arc => (arc.src, arc.dst))
    = (plan.orderedArcs[id]?).map fun arc => (arc.src, arc.dst)

namespace FuncPlan.Shapes

variable {plan : FuncPlan} {g : FlowGraph} {walks : List (List Nat)}

/-- An arc of the graph is one of the plan. -/
theorem exists_planned (h : plan.Shapes g) {id : Nat} {arc : Arc} (harc : g.arcs[id]? = some arc) :
    ∃ planned, plan.orderedArcs[id]? = some planned ∧ arc.src = planned.src
      ∧ arc.dst = planned.dst := by
  have hends := h.ends id
  rw [harc, Option.map_some] at hends
  obtain ⟨planned, hplanned, heq⟩ := Option.map_eq_some_iff.mp hends.symm
  rw [Prod.mk.injEq] at heq
  exact ⟨planned, hplanned, heq.1.symm, heq.2.symm⟩

theorem hasEnds (h : plan.Shapes g) (htwo : 2 ≤ plan.blockCount)
    (hentry : ∀ arc ∈ plan.arcs, arc.dst ≠ 0)
    (hexit : ∀ arc ∈ plan.arcs, arc.src ≠ plan.blockCount.toNat - 1) : g.HasEnds where
  two_le := by
    rw [h.size]
    omega
  no_entry id arc harc := by
    obtain ⟨planned, hplanned, -, hdst⟩ := h.exists_planned harc
    rw [hdst]
    exact hentry planned (mem_orderedArcs.mp (List.mem_of_getElem? hplanned))
  no_exit id arc harc := by
    obtain ⟨planned, hplanned, hsrc, -⟩ := h.exists_planned harc
    rw [hsrc, h.size]
    exact hexit planned (mem_orderedArcs.mp (List.mem_of_getElem? hplanned))

/-- How often the arcs on a side are taken that come from certain blocks, or lead there. -/
theorem total_traversals (h : plan.Shapes g) (walks : List (List Nat)) (i : Nat) (s : Side)
    (q : Nat → Bool) :
    total (fun id => (traversals walks id : Int))
        ((g.side i s).filter fun id => (g.arcs[id]?).any fun arc => q (arc.farEnd s))
      = ((plan.allSteps walks).countP fun arc =>
          arc.noted.nearEnd s == i && q (arc.noted.farEnd s) : Nat) := by
  have hsteps : plan.allSteps walks = walks.flatten.filterMap (plan.orderedArcs[·]?) := by
    rw [List.filterMap_flatten, ← List.flatMap_def]
    rfl
  refine (total_count ((h.linked.nodup i s).filter _) walks.flatten).trans ?_
  rw [hsteps, List.countP_filterMap]
  refine congrArg _ (List.countP_congr fun id _ => ?_)
  rw [decide_eq_true_eq, List.mem_filter, h.linked.mem_side]
  cases harc : g.arcs[id]? with
  | none =>
    have hends := h.ends id
    rw [harc, Option.map_none, eq_comm, Option.map_eq_none_iff] at hends
    simp [hends]
  | some arc =>
    obtain ⟨planned, hplanned, hsrc, hdst⟩ := h.exists_planned harc
    cases s <;>
      simp [hplanned, Arc.nearEnd, Arc.farEnd, ArcPlan.noted, hsrc, hdst]

theorem total_traversals_side (h : plan.Shapes g) (walks : List (List Nat)) (i : Nat) (s : Side) :
    total (fun id => (traversals walks id : Int)) (g.side i s)
      = ((plan.allSteps walks).countP fun arc => arc.noted.nearEnd s == i : Nat) := by
  have hall : (g.side i s).filter (fun id => (g.arcs[id]?).any fun _ => true) = g.side i s := by
    refine List.filter_eq_self.mpr fun id hid => ?_
    obtain ⟨arc, harc, -⟩ := (h.linked.mem_side i s id).mp hid
    rw [harc, Option.any_some]
  have htotal := h.total_traversals walks i s fun _ => true
  rw [hall] at htotal
  rw [htotal]
  simp only [Bool.and_true]

/-- What walks take is a flow. -/
theorem conserved_traversals (h : plan.Shapes g) (hran : plan.RanAs walks) :
    Conserved g fun id => (traversals walks id : Int) := by
  intro i hpos hlast
  rw [h.size] at hlast
  rw [h.total_traversals_side, h.total_traversals_side]
  refine congrArg _ ?_
  exact (countP_allSteps_dst walks (Nat.ne_of_gt hpos)).trans
    (hran.countP_src (Nat.ne_of_lt hlast)).symm

/-- The flow through a block is how often it is visited. -/
theorem throughput_traversals (h : plan.Shapes g) (hends : g.HasEnds) (hran : plan.RanAs walks)
    (i : Nat) : g.throughput (fun id => (traversals walks id : Int)) i = plan.visits walks i := by
  have htwo := hends.two_le
  unfold FlowGraph.throughput
  rw [h.total_traversals_side]
  refine congrArg _ ?_
  split
  · next hlast => exact countP_allSteps_dst walks (by omega)
  · next hlast => exact hran.countP_src (by rwa [h.size] at hlast)

end FuncPlan.Shapes

/-! ## Functions that were run -/

/-- Solving does not move arcs. -/
theorem FlowGraph.Refines.map_ends {g h : FlowGraph} (hr : g.Refines h) (id : Nat) :
    (h.arcs[id]?).map (fun arc => (arc.src, arc.dst))
      = (g.arcs[id]?).map fun arc => (arc.src, arc.dst) := by
  cases harc' : h.arcs[id]? with
  | none =>
    cases harc : g.arcs[id]? with
    | none => rfl
    | some arc =>
      obtain ⟨arc', hsome, -⟩ := hr.exists_arc harc
      rw [harc'] at hsome
      cases hsome
  | some arc' =>
    obtain ⟨arc, harc, hrefines⟩ := hr.exists_arc_of harc'
    rw [harc, Option.map_some, Option.map_some]
    exact congrArg some (Prod.ext (hrefines.nearEnd .exits) (hrefines.nearEnd .entries))

/-- The counts of some arcs that pass a test, by number. -/
theorem FlowGraph.total_filter_arcsOf {g : FlowGraph} {f : Nat → Int}
    (hcount : ∀ (id : Nat) (arc : Arc), g.arcs[id]? = some arc → arc.count = f id)
    (ids : List Nat) (q : Arc → Bool) :
    total (·.count) ((g.arcsOf ids).filter q)
      = total f (ids.filter fun id => (g.arcs[id]?).any q) := by
  induction ids with
  | nil => rfl
  | cons id ids ih =>
    rw [FlowGraph.arcsOf] at ih ⊢
    rw [List.filterMap_cons, List.filter_cons]
    cases harc : g.arcs[id]? with
    | none => exact ih
    | some arc =>
      rw [Option.any_some, List.filter_cons]
      split
      · rw [total_cons, total_cons, ih, hcount id arc harc]
      · exact ih

/-- Solving does not change what blocks list. -/
theorem Func.Lists.of_refines {func func' : Func} {r : Registry}
    {named : Nat → List (String × Nat)} (h : func.Lists r named)
    (hr : func.graph.Refines func'.graph) : func'.Lists r named := by
  intro i block hblock
  obtain ⟨block₀, hblock₀⟩ := FlowGraph.exists_block
    (hr.size ▸ FlowGraph.lt_of_getElem? hblock : i < func.graph.size)
  obtain ⟨emitted, hlists⟩ := h i block₀ hblock₀
  exact ⟨emitted, hlists.of_lines (hr.block i block₀ block hblock₀ hblock).lines⟩

namespace FuncPlan

variable {plan : FuncPlan} {r r' : Registry} {func : Func} {walks : List (List Nat)}

theorem CountedAs.mono (h : plan.CountedAs r func) (hr : r.Extends r') : plan.CountedAs r' func :=
  { h with lists := h.lists.mono hr }

theorem CountedAs.getElem? (h : plan.CountedAs r func) (id : Nat) :
    func.graph.arcs[id]? = (plan.orderedArcs[id]?).map ArcPlan.counted := by
  rw [h.arcs, List.getElem?_toArray, List.getElem?_map]

theorem CountedAs.shapes (h : plan.CountedAs r func) : plan.Shapes func.graph where
  linked := h.prepared.linked
  size := h.size
  ends id := by
    rw [h.getElem?, Option.map_map]
    refine congrArg (Option.map · _) (funext fun arc => ?_)
    simp only [Function.comp_apply, ArcPlan.counted]
    split <;> rfl

theorem CountedAs.hasEnds (h : plan.CountedAs r func) (hplan : plan.Instrumented) :
    func.graph.HasEnds :=
  h.shapes.hasEnds hplan.two_le hplan.no_entry hplan.no_exit

/-- The arcs without a counter are those of the spanning tree. -/
theorem CountedAs.openEdges_eq (h : plan.CountedAs r func) :
    func.graph.openEdges = plan.treeEdges := by
  have hends : func.graph.openEdges.ends = plan.treeEdges.ends := by
    funext e
    cases e with
    | closing => simp only [FlowGraph.openEdges, treeEdges, h.size]
    | arc id =>
      simp only [FlowGraph.openEdges, treeEdges, h.getElem?]
      cases plan.orderedArcs[id]? with
      | none => rfl
      | some arc =>
        simp only [Option.map_some, Option.bind_some, ArcPlan.counted]
        cases arc.onTree <;> rfl
  rw [FlowGraph.openEdges, treeEdges, Multigraph.mk.injEq]
  exact ⟨h.size, hends⟩

/-- The counters hold what walks took. -/
theorem CountedAs.count_eq (h : plan.CountedAs r func) (hran : plan.RanAs walks) {id : Nat}
    {arc : Arc} (harc : func.graph.arcs[id]? = some arc) (hres : arc.resolved = true) :
    arc.count = traversals walks id := by
  rw [h.getElem?] at harc
  obtain ⟨planned, hplanned, rfl⟩ := Option.map_eq_some_iff.mp harc
  cases htree : planned.onTree with
  | true => simp [ArcPlan.counted, htree, ArcPlan.noted] at hres
  | false =>
    have hcount := hran.counts id planned hplanned htree
    have hfits := hran.fits id planned hplanned htree
    have hcounted : planned.counted.count = storedCount planned.count := by
      simp [ArcPlan.counted, htree]
    rw [hcounted, natCast_storedCount, hcount]
    omega

/-- `plan.SolvedAs walks r func`: the function is what the plan says, with the counts of the walks
on all arcs and blocks. -/
structure SolvedAs (plan : FuncPlan) (walks : List (List Nat)) (r : Registry) (func : Func) :
    Prop where
  shapes : plan.Shapes func.graph
  arc : ∀ (id : Nat) (arc : Arc), func.graph.arcs[id]? = some arc → arc.count = traversals walks id
  block : ∀ (i : Nat) (block : Block), func.graph.blocks[i]? = some block →
    block.count = plan.visits walks i
  lists : func.Lists r plan.attributions

/-- What enters a block from certain others is how often walks came to it from there. -/
theorem SolvedAs.total_entries (h : plan.SolvedAs walks r func) {i : Nat} {block : Block}
    (hblock : func.graph.blocks[i]? = some block) (q : Nat → Bool) :
    total (·.count) ((func.graph.arcsOf block.entries).filter fun arc => q arc.src)
      = ((plan.allSteps walks).countP fun arc => arc.dst == i && q arc.src : Nat) := by
  have hside : func.graph.side i .entries = block.entries := FlowGraph.side_of_getElem? hblock _
  rw [← hside, FlowGraph.total_filter_arcsOf h.arc]
  exact h.shapes.total_traversals walks i .entries q

/-- Solving finds out how often walks took every arc and visited every block, if their counters are
on the arcs off a spanning tree. -/
theorem CountedAs.solve (h : plan.CountedAs r func) (hplan : plan.Instrumented)
    (hran : plan.RanAs walks) :
    func.solve.result = .ok () ∧ plan.SolvedAs walks r func.solve.state := by
  obtain ⟨solved, hresult, hstate, hs⟩ := Func.solve_of_prepared h.prepared
  have hends := h.hasEnds hplan
  have hforest : func.graph.openEdges.Acyclic := h.openEdges_eq ▸ hplan.forest
  have hagrees := hs.agrees h.prepared hends (h.shapes.conserved_traversals hran)
    fun id arc harc hres => h.count_eq hran harc hres
  refine ⟨hresult, ?_⟩
  rw [hstate]
  exact {
    shapes := {
      linked := hs.linked h.prepared.linked
      size := hs.refines.size.trans h.size
      ends := fun id => (hs.refines.map_ends id).trans (h.shapes.ends id) }
    arc := fun id arc harc => hagrees.arc id _ (FlowGraph.knowledge_arc_of_resolved harc
      (hs.arc_resolved h.prepared.linked hends hforest harc))
    block := fun i block hblock => by
      rw [← h.shapes.throughput_traversals hends hran]
      exact hagrees.block i _ (FlowGraph.knowledge_block_of_valid hblock
        (hs.block_valid h.prepared.linked hends hforest hblock))
    lists := h.lists.of_refines hs.refines }

end FuncPlan

end Coverage
