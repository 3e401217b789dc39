import Coverage.Proofs.Groups
import Coverage.Proofs.Multigraph
import Coverage.Proofs.SolverInvariant

/-!
# Spanning trees

Which arcs have to be measured.  Read as undirected edges, the arcs that are not measured, together
with an edge that closes the graph from its last block back to its first one, must not contain a
cycle: then every count can be concluded, since on a forest there is always a leaf to go on from.
If these edges form a tree, there are as many of them as it takes for every inner block to conclude
one, and then every inner block is balanced, whatever was measured.

* `exists_last_unknown` — where something is unknown and nothing follows, there is a cycle;
* `balanced_of_tree` — the count of edges that balances every inner block.
-/

namespace Coverage

/-! ## The edges that are not measured -/

/-- An edge of a flow graph that is closed from its end to its beginning. -/
inductive Edge where
  | closing
  | arc (id : Nat)
deriving DecidableEq, Repr

/-- The unresolved arcs of a graph as undirected edges, and the edge that joins its last block to
its first one. -/
def FlowGraph.openEdges (g : FlowGraph) : Multigraph Edge where
  order := g.size
  ends
    | .closing => some (g.size - 1, 0)
    | .arc id => (g.arcs[id]?).bind fun a => if a.resolved then none else some (a.src, a.dst)

namespace FlowGraph

variable {g : FlowGraph}

theorem openEdges_arc {id : Nat} {a : Arc} (ha : g.arcs[id]? = some a) (hopen : a.resolved = false)
    (s : Side) : g.openEdges.Joins (.arc id) (a.nearEnd s) (a.farEnd s) := by
  have hends : g.openEdges.ends (.arc id) = some (a.src, a.dst) := by simp [openEdges, ha, hopen]
  cases s with
  | exits => exact .inl hends
  | entries => exact .inr hends

/-- An edge that is an arc stands on a side of each block that it joins. -/
theorem exists_of_openEdges_arc {id i j : Nat} (h : g.openEdges.Joins (.arc id) i j) :
    ∃ a s, g.arcs[id]? = some a ∧ a.resolved = false ∧ a.nearEnd s = i ∧ a.farEnd s = j := by
  have key : ∀ {i j}, g.openEdges.ends (.arc id) = some (i, j) →
      ∃ a, g.arcs[id]? = some a ∧ a.resolved = false ∧ a.src = i ∧ a.dst = j := by
    intro i j h
    obtain ⟨a, ha, hends⟩ := Option.bind_eq_some_iff.mp h
    split at hends
    · cases hends
    · next hres =>
      cases hends
      exact ⟨a, ha, by simpa using hres, rfl, rfl⟩
  rcases h with h | h
  · obtain ⟨a, ha, hres, hsrc, hdst⟩ := key h
    exact ⟨a, .exits, ha, hres, hsrc, hdst⟩
  · obtain ⟨a, ha, hres, hsrc, hdst⟩ := key h
    exact ⟨a, .entries, ha, hres, hdst, hsrc⟩

theorem openEdges_closed (hg : g.Linked) (hpos : 0 < g.size) : g.openEdges.Closed := by
  intro e i j h
  cases e with
  | closing =>
    cases h
    exact ⟨Nat.sub_lt hpos Nat.one_pos, hpos⟩
  | arc id =>
    obtain ⟨a, s, ha, -, rfl, rfl⟩ := exists_of_openEdges_arc (.inl h)
    rw [← Arc.nearEnd_opposite]
    exact ⟨hg.nearEnd_lt ha s, hg.nearEnd_lt ha s.opposite⟩

end FlowGraph

/-! ## Forests -/

section Forest

variable {g : FlowGraph} {k : Knowledge}

/-- The first block and the last one are both unknown. -/
def Knowledge.Severed (k : Knowledge) (g : FlowGraph) : Prop :=
  k.block 0 = none ∧ k.block (g.size - 1) = none

/-- The edges that matter while something is unknown: the unknown arcs, and the closing edge as
long as it joins unknown blocks. -/
def Knowledge.Keeps (k : Knowledge) (g : FlowGraph) : Edge → Prop
  | .closing => k.Severed g
  | .arc id => k.arc id = none

/-- A side of an unknown block has an unknown arc. -/
theorem Saturated.exists_unknown (hk : Saturated g k) {i : Nat} {s : Side} (hi : i < g.size)
    (hs : ¬ g.Sealed i s) (hunknown : k.block i = none) : ∃ id ∈ g.side i s, k.arc id = none := by
  by_contra hno
  push Not at hno
  exact hk _ (.block hi hs hunknown hno)

/-- A side of a known block with one unknown arc has another one. -/
theorem Saturated.exists_other (hk : Saturated g k) {i id : Nat} {s : Side} {c : Int}
    (hknown : k.block i = some c) (hid : id ∈ g.side i s) (hunknown : k.arc id = none) :
    ∃ other ∈ g.side i s, other ≠ id ∧ k.arc other = none := by
  by_contra hno
  push Not at hno
  exact hk _ (.arc hknown hid hunknown hno)

/-- An arc that is unknown was not measured. -/
theorem FlowGraph.joins_of_unknown (hg : g.Linked) (hext : g.knowledge.Extends k) {i id : Nat}
    {s : Side} (hid : id ∈ g.side i s) (hunknown : k.arc id = none) :
    ∃ a, g.arcs[id]? = some a ∧ a.nearEnd s = i ∧
      (g.openEdges.restrict (k.Keeps g)).Joins (.arc id) i (a.farEnd s) := by
  obtain ⟨a, ha, rfl⟩ := (hg.mem_side i s id).mp hid
  have hopen : a.resolved = false := by
    rw [← knowledge_arc_eq_none_iff ha]
    by_contra hknown
    exact hext.arc_ne_none hknown hunknown
  exact ⟨a, ha, rfl, Multigraph.restrict_joins.mpr ⟨hunknown, openEdges_arc ha hopen s⟩⟩

/-- A block that is unknown is not a leaf of what is unknown, except when its other side has the
implicit edge, and the closing edge is not among those that matter. -/
theorem Saturated.exists_other_edge (hg : g.Linked) (hends : g.HasEnds)
    (hext : g.knowledge.Extends k) (hk : Saturated g k)
    (hforest : (g.openEdges.restrict (k.Keeps g)).Acyclic) {i id : Nat} {s : Side}
    (hid : id ∈ g.side i s) (hunknown : k.arc id = none)
    (hsevered : ¬ k.Severed g → k.block i = none → i ≠ 0 ∧ i ≠ g.size - 1) :
    ∃ e j, e ≠ .arc id ∧ (g.openEdges.restrict (k.Keeps g)).Joins e i j := by
  have hi : i < g.size := FlowGraph.lt_size_of_mem_side hid
  cases hblock : k.block i with
  | some c =>
    obtain ⟨other, hother, hne, hno⟩ := hk.exists_other hblock hid hunknown
    obtain ⟨a, -, -, hjoin⟩ := FlowGraph.joins_of_unknown hg hext hother hno
    exact ⟨.arc other, _, by simpa using hne, hjoin⟩
  | none =>
    by_cases hsealed : g.Sealed i s.opposite
    · -- the closing edge goes on from here
      rw [hends.sealed_iff hg] at hsealed
      have hend : i = 0 ∨ i = g.size - 1 := hsealed.imp And.left And.left
      have hkeep : k.Severed g := by
        by_contra hno
        obtain ⟨h0, hlast⟩ := hsevered hno hblock
        exact hend.elim h0 hlast
      rcases hend with rfl | rfl
      · exact ⟨.closing, _, by simp, Multigraph.restrict_joins.mpr ⟨hkeep, .inr rfl⟩⟩
      · exact ⟨.closing, _, by simp, Multigraph.restrict_joins.mpr ⟨hkeep, .inl rfl⟩⟩
    · obtain ⟨other, hother, hno⟩ := hk.exists_unknown hi hsealed hblock
      obtain ⟨a, ha, hend, hjoin⟩ := FlowGraph.joins_of_unknown hg hext hother hno
      refine ⟨.arc other, _, ?_, hjoin⟩
      -- an arc on both sides would be a loop
      simp only [ne_eq, Edge.arc.injEq]
      rintro rfl
      obtain ⟨a', ha', hend', hjoin'⟩ := FlowGraph.joins_of_unknown hg hext hid hunknown
      obtain rfl : a = a' := Option.some.inj (ha.symm.trans ha')
      rw [Arc.nearEnd_opposite] at hend
      exact hforest.ne_of_joins hjoin' hend.symm

/-- On a forest everything can be concluded: while an arc is unknown, there is a cycle. -/
theorem Saturated.knows_of_acyclic (hg : g.Linked) (hends : g.HasEnds)
    (hext : g.knowledge.Extends k) (hk : Saturated g k) (hforest : g.openEdges.Acyclic) {id : Nat}
    (hid : id < g.arcs.size) : k.arc id ≠ none := by
  intro hunknown
  have hforest' := hforest.restrict (k.Keeps g)
  have hfinite : ∀ e i j, (g.openEdges.restrict (k.Keeps g)).Joins e i j →
      e ∈ Edge.closing :: (List.range g.arcs.size).map Edge.arc := by
    intro e i j h
    cases e with
    | closing => exact List.mem_cons_self
    | arc id =>
      obtain ⟨a, -, ha, -⟩ := FlowGraph.exists_of_openEdges_arc (Multigraph.restrict_joins.mp h).2
      have hlt : id < g.arcs.size := (Array.getElem?_eq_some_iff.mp ha).1
      simp [hlt]
  -- the one block at which an unknown arc may end, once the closing edge does not matter
  obtain ⟨r, hr⟩ : ∃ r, ¬ k.Severed g → ∀ i, k.block i = none → i ≠ r → i ≠ 0 ∧ i ≠ g.size - 1 := by
    by_cases h0 : k.block 0 = none
    · refine ⟨0, fun hsev i hi hne => ⟨hne, ?_⟩⟩
      rintro rfl
      exact hsev ⟨h0, hi⟩
    · refine ⟨g.size - 1, fun _ i hi hne => ⟨?_, hne⟩⟩
      rintro rfl
      exact h0 hi
  have ha := Array.getElem?_eq_getElem hid
  obtain ⟨a, -, -, hstart⟩ := FlowGraph.joins_of_unknown hg hext
    ((hg.mem_side _ .exits id).mpr ⟨_, ha, rfl⟩) hunknown
  obtain ⟨e, i, j, hjoin, hir, hleaf⟩ := hforest'.exists_leaf hfinite r hstart
  obtain ⟨hkeep, hedge⟩ := Multigraph.restrict_joins.mp hjoin
  cases e with
  | closing =>
    -- an unknown end of the graph has an unknown arc beside the closing edge
    have hend : ∃ s, ¬ g.Sealed i s ∧ k.block i = none ∧ i < g.size := by
      have htwo := hends.two_le
      rcases hedge with h | h <;> cases h
      · refine ⟨.entries, ?_, hkeep.2, by omega⟩
        rw [hends.sealed_iff hg]
        simp
        omega
      · refine ⟨.exits, ?_, hkeep.1, by omega⟩
        rw [hends.sealed_iff hg]
        simp
        omega
    obtain ⟨s, hsealed, hblock, hi⟩ := hend
    obtain ⟨other, hother, hno⟩ := hk.exists_unknown hi hsealed hblock
    obtain ⟨b, -, -, hjoin'⟩ := FlowGraph.joins_of_unknown hg hext hother hno
    exact absurd (hleaf _ _ hjoin') (by simp)
  | arc id =>
    obtain ⟨b, s, hb, -, rfl, -⟩ := FlowGraph.exists_of_openEdges_arc hedge
    obtain ⟨e, j', hne, hjoin'⟩ := hk.exists_other_edge hg hends hext hforest'
      ((hg.mem_side _ s id).mpr ⟨b, hb, rfl⟩) hkeep fun hsev hi => hr hsev _ hi hir
    exact hne (hleaf _ _ hjoin')

/-- Every block has a side without an implicit edge. -/
theorem FlowGraph.HasEnds.exists_not_sealed (hends : g.HasEnds) (hg : g.Linked) (i : Nat) :
    ∃ s, ¬ g.Sealed i s := by
  have htwo := hends.two_le
  by_cases h0 : i = 0
  · refine ⟨.exits, ?_⟩
    rw [hends.sealed_iff hg]
    simp
    omega
  · refine ⟨.entries, ?_⟩
    rw [hends.sealed_iff hg]
    simp [h0]

/-- Where all arcs are known, all blocks are. -/
theorem Saturated.block_ne_none (hg : g.Linked) (hends : g.HasEnds) (hk : Saturated g k)
    (harcs : ∀ id < g.arcs.size, k.arc id ≠ none) {i : Nat} (hi : i < g.size) :
    k.block i ≠ none := by
  intro hunknown
  obtain ⟨s, hs⟩ := hends.exists_not_sealed hg i
  obtain ⟨id, hid, hno⟩ := hk.exists_unknown hi hs hunknown
  obtain ⟨a, ha, -⟩ := (hg.mem_side i s id).mp hid
  exact harcs id (Array.getElem?_eq_some_iff.mp ha).1 hno

/-! ## Trees -/

/-- The arcs that were not measured, as edges together with the closing one. -/
theorem FlowGraph.mem_unmeasured {e : Edge} {i j : Nat} (h : g.openEdges.Joins e i j) :
    e ∈ Edge.closing :: ((List.range g.arcs.size).filter g.isOpen).map Edge.arc := by
  cases e with
  | closing => exact List.mem_cons_self
  | arc id =>
    obtain ⟨a, -, ha, hres, -⟩ := exists_of_openEdges_arc h
    have hlt : id < g.arcs.size := (Array.getElem?_eq_some_iff.mp ha).1
    have hopen : g.isOpen id = true := by
      rw [isOpen_eq_true_iff ha, knowledge_arc_eq_none_iff ha, hres]
    simp [hlt, hopen]

/-- An owner of an arc is an inner block: the ends have implicit edges across from their arcs. -/
theorem Knowledge.Owned.inner (hg : g.Linked) (hends : g.HasEnds) {owner : Nat → Nat}
    (ho : k.Owned g g.knowledge owner) {id : Nat} (hopen : g.knowledge.arc id = none)
    (hknown : k.arc id ≠ none) : owner id ∈ List.range' 1 (g.size - 2) := by
  obtain ⟨⟨s, hid, hsealed⟩, -⟩ := ho.balanced id hopen hknown
  have hlt := FlowGraph.lt_size_of_mem_side hid
  have hside := hends.not_sealed_of_mem hg hid
  rw [hends.sealed_iff hg] at hsealed hside
  have hinner : owner id ≠ 0 ∧ owner id ≠ g.size - 1 := by
    constructor <;> intro h <;> cases s <;> simp_all [Side.opposite]
  rw [List.mem_range'_1]
  omega

/-- On a tree there are as many unmeasured arcs as inner blocks, so that every inner block had to
conclude one, and is balanced. -/
theorem balanced_of_tree (hg : g.Linked) (hends : g.HasEnds)
    (hconn : g.openEdges.Connected) (harcs : ∀ id < g.arcs.size, k.arc id ≠ none)
    {owner : Nat → Nat} (ho : k.Owned g g.knowledge owner) {i : Nat} (hpos : 0 < i)
    (hlast : i < g.size - 1) : k.Balanced g i := by
  set unmeasured := (List.range g.arcs.size).filter g.isOpen with hun
  have hopen : ∀ id ∈ unmeasured, g.knowledge.arc id = none ∧ k.arc id ≠ none := by
    intro id hid
    obtain ⟨hlt, hopen⟩ := List.mem_filter.mp hid
    have hlt := List.mem_range.mp hlt
    exact ⟨(FlowGraph.isOpen_eq_true_iff (Array.getElem?_eq_getElem hlt)).mp hopen, harcs id hlt⟩
  have hcard : g.size ≤ (Edge.closing :: unmeasured.map Edge.arc).length + 1 :=
    hconn.order_le (FlowGraph.openEdges_closed hg (by omega)) fun e i j => FlowGraph.mem_unmeasured
  have hnodup : (unmeasured.map owner).Nodup := ho.nodup_map (List.nodup_range.filter _) hopen
  have hsub : unmeasured.map owner ⊆ List.range' 1 (g.size - 2) := by
    intro j hj
    obtain ⟨id, hid, rfl⟩ := List.mem_map.mp hj
    exact ho.inner hg hends (hopen id hid).1 (hopen id hid).2
  -- distinct inner blocks, no fewer than there are
  have hperm : (unmeasured.map owner).Perm (List.range' 1 (g.size - 2)) := by
    refine (hnodup.subperm hsub).perm_of_length_le ?_
    simp only [List.length_cons, List.length_map, List.length_range'] at hcard ⊢
    omega
  have hmem : i ∈ unmeasured.map owner := by
    rw [hperm.mem_iff, List.mem_range'_1]
    omega
  obtain ⟨id, hid, rfl⟩ := List.mem_map.mp hmem
  exact (ho.balanced id (hopen id hid).1 (hopen id hid).2).2

/-- Where all inner blocks are balanced, as much leaves the first block as enters the last one. -/
theorem FlowGraph.HasEnds.total_eq (hends : g.HasEnds) (hg : g.Linked) {f : Nat → Int}
    (hf : Conserved g f) :
    total f (g.side 0 .exits) = total f (g.side (g.size - 1) .entries) := by
  have htwo := hends.two_le
  obtain ⟨n, hn⟩ : ∃ n, g.size = n + 2 := ⟨g.size - 2, by omega⟩
  have hblocks : List.range g.size = 0 :: List.range' 1 n ++ [g.size - 1] := by
    rw [hn, List.range_eq_range', List.range'_succ, List.range'_concat]
    simp
    omega
  have hinner : total (fun i => total f (g.side i .entries)) (List.range' 1 n)
      = total (fun i => total f (g.side i .exits)) (List.range' 1 n) := by
    refine total_congr fun i hi => ?_
    rw [List.mem_range'_1] at hi
    exact hf i (by omega) (by omega)
  have hsum := hg.total_sides f .entries .exits
  simp only [hblocks, List.cons_append, total_cons, total_append, hinner,
    hends.entries_zero hg, hends.exits_last hg, total_nil] at hsum
  omega

end Forest

/-! ## What the solver makes of it -/

/-- The solver ends well on a prepared function, and changes nothing but its graph. -/
theorem Func.solve_of_prepared {func : Func} (hg : func.graph.Prepared) :
    ∃ solved, func.solve.result = .ok () ∧ func.solve.state = { func with graph := solved }
      ∧ Solved func.graph solved := by
  obtain ⟨hfault, hsolved⟩ := solve_spec hg
  refine ⟨func.graph.solve.graph, ?_, ?_, hsolved⟩
  · simp [Func.solve, hfault]
  · simp [Func.solve, hfault]

end Coverage
