import Coverage.Proofs.DataRoundTrip
import Coverage.Proofs.Walks

/-!
# Functions that are measured in part

The counts of a plan are a flow if what enters a block leaves it, arcs of the spanning tree included
(`FuncPlan.Flows`).  Of such a plan any counters may be missing: what the solver makes of the others
is the flow of the plan, or is left open (`FuncPlan.MeasuredAs.solve`).
-/

namespace Coverage

namespace FuncPlan

/-! ## Flows -/

/-- How often control comes to a block along arcs. -/
def inflow (plan : FuncPlan) (block : Nat) : Int :=
  total (·.count) (plan.arcs.filter (·.dst == block))

/-- How often control leaves a block along arcs. -/
def outflow (plan : FuncPlan) (block : Nat) : Int :=
  total (·.count) (plan.arcs.filter (·.src == block))

/-- How often control passes through a block: how often it leaves the block, or for the last block
how often it comes there. -/
def throughflow (plan : FuncPlan) (block : Nat) : Int :=
  if block = plan.blockCount.toNat - 1 then plan.inflow block else plan.outflow block

/-- The counts of all arcs, those of the spanning tree included, are a flow from the first block to
the last that counters can hold. -/
structure Flows (plan : FuncPlan) : Prop where
  two_le : 2 ≤ plan.blockCount
  no_entry : ∀ arc ∈ plan.arcs, arc.dst ≠ 0
  no_exit : ∀ arc ∈ plan.arcs, arc.src ≠ plan.blockCount.toNat - 1
  counts : ∀ arc ∈ plan.arcs, 0 ≤ arc.count ∧ arc.count < 2 ^ 64
  balanced : ∀ block < plan.blockCount.toNat - 1, 0 < block →
    plan.inflow block = plan.outflow block

/-- The count of the arc of a number. -/
def countAt (plan : FuncPlan) (id : Nat) : Int :=
  (plan.orderedArcs[id]?).elim 0 (·.count)

variable {plan : FuncPlan} {g : FlowGraph} {func : Func}

/-- The counts on a side of a block. -/
theorem Shapes.total_countAt (h : plan.Shapes g) (i : Nat) (s : Side) :
    total plan.countAt (g.side i s)
      = total (·.count) (plan.arcs.filter fun arc => arc.noted.nearEnd s == i) := by
  have hperm : (g.side i s).Perm ((List.range plan.orderedArcs.length).filter fun id =>
      (plan.orderedArcs[id]?).any fun arc => arc.noted.nearEnd s == i) := by
    refine (List.perm_ext_iff_of_nodup (h.linked.nodup i s) (List.nodup_range.filter _)).mpr
      fun id => ?_
    rw [h.linked.mem_side, List.mem_filter, List.mem_range]
    have hends := h.ends id
    constructor
    · rintro ⟨arc, harc, hnear⟩
      obtain ⟨planned, hplanned, hsrc, hdst⟩ := h.exists_planned harc
      refine ⟨(List.getElem?_eq_some_iff.mp hplanned).1, ?_⟩
      rw [hplanned, Option.any_some, beq_iff_eq, ← hnear]
      cases s
      · exact hsrc.symm
      · exact hdst.symm
    · rintro ⟨hid, hany⟩
      rw [List.getElem?_eq_getElem hid] at hends hany
      obtain ⟨arc, harc, heq⟩ := Option.map_eq_some_iff.mp hends
      rw [Prod.mk.injEq] at heq
      rw [Option.any_some, beq_iff_eq] at hany
      refine ⟨arc, harc, ?_⟩
      rw [← hany]
      cases s
      · exact heq.1
      · exact heq.2
  have hcounts := Counters.map_filter_range (fun arc : ArcPlan => arc.noted.nearEnd s == i)
    (·.count) 0 plan.orderedArcs
  calc total plan.countAt (g.side i s)
      = total plan.countAt ((List.range plan.orderedArcs.length).filter fun id =>
          (plan.orderedArcs[id]?).any fun arc => arc.noted.nearEnd s == i) := total_perm hperm
    _ = total id ((plan.orderedArcs.filter fun arc => arc.noted.nearEnd s == i).map (·.count)) := by
        rw [← hcounts, total_map]
        rfl
    _ = total (·.count) (plan.arcs.filter fun arc => arc.noted.nearEnd s == i) := by
        rw [total_map]
        exact total_perm (plan.perm_orderedArcs.filter _)

theorem Flows.conserved (hflow : plan.Flows) (h : plan.Shapes g) : Conserved g plan.countAt := by
  intro i hpos hlast
  rw [h.size] at hlast
  rw [h.total_countAt, h.total_countAt]
  exact hflow.balanced i hlast hpos

theorem Shapes.throughput_countAt (h : plan.Shapes g) (i : Nat) :
    g.throughput plan.countAt i = plan.throughflow i := by
  unfold FlowGraph.throughput throughflow
  rw [h.total_countAt, h.size]
  split
  · rfl
  · rfl

/-! ## Functions of which some arcs are measured -/

theorem MeasuredAs.shapes (h : plan.MeasuredAs func) : plan.Shapes func.graph where
  linked := h.prepared.linked
  size := h.size
  ends id := by
    rcases h.arcs id with harc | harc
    · rw [harc, Option.map_map]
      rfl
    · rw [harc, Option.map_map]
      refine congrArg (Option.map · _) (funext fun arc => ?_)
      simp only [Function.comp_apply, ArcPlan.counted]
      split <;> rfl

/-- What is known of the arcs of a function: its shape, and for some arcs the counts of the plan. -/
theorem MeasuredAs.exists_planned (h : plan.MeasuredAs func) (hflow : plan.Flows) {id : Nat}
    {arc : Arc} (harc : func.graph.arcs[id]? = some arc) :
    ∃ planned, plan.orderedArcs[id]? = some planned
      ∧ (arc.src, arc.dst, arc.flags) = (planned.src, planned.dst, planned.flags)
      ∧ arc.count = if arc.resolved then planned.count else 0 := by
  rcases h.arcs id with hid | hid
  · obtain ⟨planned, hplanned, rfl⟩ := Option.map_eq_some_iff.mp (hid.symm.trans harc)
    exact ⟨planned, hplanned, rfl, rfl⟩
  · obtain ⟨planned, hplanned, rfl⟩ := Option.map_eq_some_iff.mp (hid.symm.trans harc)
    refine ⟨planned, hplanned, ?_, ?_⟩
    · rw [ArcPlan.counted]
      split <;> rfl
    · have hcount := hflow.counts planned (mem_orderedArcs.mp (List.mem_of_getElem? hplanned))
      rw [ArcPlan.counted]
      split
      · rfl
      · show (storedCount planned.count : Int) = planned.count
        rw [natCast_storedCount]
        omega

theorem MeasuredAs.arcs_size (h : plan.MeasuredAs func) :
    func.graph.arcs.size = plan.orderedArcs.length := by
  have hends : func.graph.arcs.toList.map (fun arc => (arc.src, arc.dst))
      = plan.orderedArcs.map fun arc => (arc.src, arc.dst) := by
    refine List.ext_getElem? fun id => ?_
    rw [List.getElem?_map, List.getElem?_map, Array.getElem?_toList]
    exact h.shapes.ends id
  simpa using congrArg List.length hends

/-- `plan.Sees func`: what is known of the counts of the function is what the plan has. -/
structure Sees (plan : FuncPlan) (func : Func) : Prop where
  size : (func.graph.size : Int) = plan.blockCount
  arcs : List.Forall₂ (fun (planned : ArcPlan) (arc : Arc) =>
      (arc.src, arc.dst, arc.flags) = (planned.src, planned.dst, planned.flags)
      ∧ arc.count = if arc.resolved then planned.count else 0)
    plan.orderedArcs func.graph.orderedArcs
  blocks : ∀ (i : Nat) (block : Block), func.graph.blocks[i]? = some block →
    block.countValid = true → block.count = plan.throughflow i

/-- Solving a function of which some arcs are measured makes up nothing. -/
theorem MeasuredAs.solve (h : plan.MeasuredAs func) (hflow : plan.Flows) :
    func.solve.result = .ok () ∧ plan.Sees func.solve.state := by
  obtain ⟨solved, hresult, hstate, hs⟩ := Func.solve_of_prepared h.prepared
  have hends : func.graph.HasEnds := h.shapes.hasEnds hflow.two_le hflow.no_entry hflow.no_exit
  have hmeasured : ∀ (id : Nat) (arc : Arc), func.graph.arcs[id]? = some arc →
      arc.resolved = true → arc.count = plan.countAt id := by
    intro id arc harc hres
    obtain ⟨planned, hplanned, -, hcount⟩ := h.exists_planned hflow harc
    rw [hcount, if_pos hres, countAt, hplanned]
    rfl
  have hagrees := hs.agrees h.prepared hends (hflow.conserved h.shapes) hmeasured
  have hlength : solved.arcs.toList.length = plan.orderedArcs.length := by
    rw [Array.length_toList, hs.refines.arcs_size, h.arcs_size]
  have hordered : solved.orderedArcs = solved.arcs.toList := by
    refine FlowGraph.orderedArcs_of_exitOrder Array.toArray_toList.symm ?_
    rw [hlength, ← h.exitOrder]
    exact FlowGraph.exitOrder_congr hs.refines.size fun i => hs.refines.side_eq i .exits
  rw [hstate]
  refine ⟨hresult, ?_, ?_, fun i block hblock hvalid => ?_⟩
  · have htwo := hflow.two_le
    show (solved.size : Int) = plan.blockCount
    rw [hs.refines.size, h.size]
    omega
  · show List.Forall₂ _ plan.orderedArcs solved.orderedArcs
    rw [hordered]
    refine List.forall₂_iff_get.mpr ⟨hlength.symm, fun id hid hid' => ?_⟩
    have harc' : solved.arcs[id]? = some (solved.arcs.toList.get ⟨id, hid'⟩) := by
      rw [← Array.getElem?_toList, List.getElem?_eq_getElem hid']
      rfl
    have hplanned' : plan.orderedArcs[id]? = some (plan.orderedArcs.get ⟨id, hid⟩) := by
      rw [List.getElem?_eq_getElem hid]
      rfl
    generalize solved.arcs.toList.get ⟨id, hid'⟩ = arc' at harc'
    generalize plan.orderedArcs.get ⟨id, hid⟩ = planned at hplanned'
    obtain ⟨arc, harc, hrefines⟩ := hs.refines.exists_arc_of harc'
    obtain ⟨planned', hsame, hshape, hcount⟩ := h.exists_planned hflow harc
    cases hplanned'.symm.trans hsame
    rcases hrefines with rfl | ⟨-, c, rfl⟩
    · exact ⟨hshape, hcount⟩
    · have hc := hagrees.arc id c (FlowGraph.knowledge_arc_of_resolved harc' rfl)
      rw [countAt, hplanned'] at hc
      exact ⟨hshape, hc⟩
  · rw [← h.shapes.throughput_countAt]
    exact hagrees.block i _ (FlowGraph.knowledge_block_of_valid hblock hvalid)

end FuncPlan

end Coverage
