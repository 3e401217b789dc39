import Coverage.Counters
import Coverage.Proofs.GraphUpdates
import Coverage.Proofs.Grouping
import Mathlib.Data.List.Induction
import Mathlib.Data.List.Nodup

/-!
# How graphs come about

A graph begins with blocks alone, arcs are added one after another, and then some of them get
counters.  None of this disturbs what the solver relies on (`FlowGraph.Prepared`).
-/

namespace Coverage

namespace Block

@[simp] theorem attach_arcsOn (b : Block) (s t : Side) (id : Nat) (resolved : Bool) :
    (b.attach s id resolved).arcsOn t = b.arcsOn t ++ if t = s then [id] else [] := by
  cases s <;> cases t <;> cases resolved <;> simp [attach, arcsOn, mapPending]

@[simp] theorem attach_pending (b : Block) (s t : Side) (id : Nat) (resolved : Bool) :
    (b.attach s id resolved).pending t
      = b.pending t + if t = s ∧ resolved = false then 1 else 0 := by
  cases s <;> cases t <;> cases resolved <;> simp [attach, pending, mapPending]

@[simp] theorem attach_lines (b : Block) (s : Side) (id : Nat) (resolved : Bool) :
    (b.attach s id resolved).lines = b.lines := by
  cases s <;> cases resolved <;> rfl

@[simp] theorem attach_callSite (b : Block) (s : Side) (id : Nat) (resolved : Bool) :
    (b.attach s id resolved).callSite = b.callSite := by
  cases s <;> cases resolved <;> rfl

/-- What a block knows when it is new: no count, and no place on a stack. -/
def Fresh (b : Block) : Prop :=
  b.count = 0 ∧ b.countValid = false ∧ b.onUnresolved = false ∧ b.onResolved = false

theorem Fresh.attach {b : Block} (hb : b.Fresh) (s : Side) (id : Nat) (resolved : Bool) :
    (b.attach s id resolved).Fresh := by
  cases s <;> cases resolved <;> exact hb

end Block

namespace FlowGraph

variable {g : FlowGraph}

/-! ## Blocks alone -/

/-- Blocks alone are blank. -/
theorem eq_of_ofSize {n i : Nat} {b : Block} (hb : (ofSize n).blocks[i]? = some b) : b = {} := by
  rw [ofSize, Array.getElem?_replicate] at hb
  split at hb
  · exact (Option.some.inj hb).symm
  · cases hb

theorem side_ofSize (n i : Nat) (s : Side) : (ofSize n).side i s = [] := by
  unfold side
  split
  · next b hb =>
    obtain rfl := eq_of_ofSize hb
    cases s <;> rfl
  · rfl

theorem prepared_ofSize (n : Nat) : (ofSize n).Prepared where
  linked :=
    { nodup := fun i s => by simp [side_ofSize]
      mem_side := fun i s id => by simp [side_ofSize]; simp [ofSize] }
  fresh i b hb := by
    obtain rfl := eq_of_ofSize hb
    exact ⟨rfl, rfl, rfl, rfl⟩
  pending i b s hb := by
    obtain rfl := eq_of_ofSize hb
    rw [openDegree, side_ofSize]
    cases s <;> rfl

/-! ## Adding arcs -/

@[simp] theorem addArc_size (g : FlowGraph) (arc : Arc) : (g.addArc arc).size = g.size := by
  simp [addArc, size, mapBlock]

theorem addArc_arcs (g : FlowGraph) (arc : Arc) : (g.addArc arc).arcs = g.arcs.push arc := rfl

theorem addArc_getElem? (g : FlowGraph) (arc : Arc) (id : Nat) :
    (g.addArc arc).arcs[id]? = if id = g.arcs.size then some arc else g.arcs[id]? := by
  rw [addArc_arcs, Array.getElem?_push]

/-- A block after an arc was added. -/
theorem addArc_block (g : FlowGraph) (arc : Arc) (i : Nat) :
    (g.addArc arc).blocks[i]? = (g.blocks[i]?).map fun b =>
      let b := if arc.src = i then b.attach .exits g.arcs.size arc.resolved else b
      if arc.dst = i then b.attach .entries g.arcs.size arc.resolved else b := by
  show ((g.mapBlock arc.src _).mapBlock arc.dst _).blocks[i]? = _
  rw [getElem?_mapBlock, getElem?_mapBlock]
  cases g.blocks[i]? <;> split <;> split <;> simp_all

theorem addArc_side (g : FlowGraph) (arc : Arc) {i : Nat} (hi : i < g.size) (s : Side) :
    (g.addArc arc).side i s = g.side i s ++ if arc.nearEnd s = i then [g.arcs.size] else [] := by
  obtain ⟨b, hb⟩ := exists_block hi
  have hb' := addArc_block g arc i
  rw [hb, Option.map_some] at hb'
  rw [side_of_getElem? hb, side_of_getElem? hb']
  cases s <;> by_cases hsrc : arc.src = i <;> by_cases hdst : arc.dst = i <;>
    simp [hsrc, hdst, Arc.nearEnd]

theorem Linked.lt_arcs (hg : g.Linked) {i id : Nat} {s : Side} (h : id ∈ g.side i s) :
    id < g.arcs.size := by
  obtain ⟨a, ha, -⟩ := (hg.mem_side i s id).mp h
  exact (Array.getElem?_eq_some_iff.mp ha).1

theorem side_of_size_le {i : Nat} (hi : g.size ≤ i) (s : Side) : g.side i s = [] := by
  rw [side, Array.getElem?_eq_none hi]

theorem Linked.addArc (hg : g.Linked) {arc : Arc} (hsrc : arc.src < g.size)
    (hdst : arc.dst < g.size) : (g.addArc arc).Linked where
  nodup i s := by
    by_cases hi : i < g.size
    · rw [addArc_side g arc hi]
      split
      · refine List.Nodup.append (hg.nodup i s) (List.nodup_singleton _) ?_
        intro id hid hid'
        rw [List.mem_singleton] at hid'
        exact absurd (hg.lt_arcs hid) (by omega)
      · rw [List.append_nil]
        exact hg.nodup i s
    · rw [side_of_size_le (by rw [addArc_size]; omega)]
      exact List.nodup_nil
  mem_side i s id := by
    by_cases hi : i < g.size
    · rw [addArc_side g arc hi, List.mem_append, hg.mem_side, addArc_getElem?]
      by_cases hid : id = g.arcs.size
      · subst hid
        simp
      · rw [if_neg hid]
        split <;> simp [hid]
    · rw [side_of_size_le (by rw [addArc_size]; omega), addArc_getElem?]
      have hend : arc.nearEnd s < g.size := by cases s <;> assumption
      constructor
      · intro h
        cases h
      · rintro ⟨a, ha, rfl⟩
        split at ha
        · cases ha
          exact absurd hend hi
        · exact absurd (hg.nearEnd_lt ha s) hi

theorem isOpen_addArc (g : FlowGraph) (arc : Arc) {id : Nat} (hid : id < g.arcs.size) :
    (g.addArc arc).isOpen id = g.isOpen id := by
  rw [isOpen, addArc_getElem?, if_neg (by omega), isOpen]

/-- Adding an arc leaves a prepared graph. -/
theorem Prepared.addArc (hg : g.Prepared) {arc : Arc} (hsrc : arc.src < g.size)
    (hdst : arc.dst < g.size) : (g.addArc arc).Prepared where
  linked := hg.linked.addArc hsrc hdst
  fresh i b' hb' := by
    rw [addArc_block] at hb'
    obtain ⟨b, hb, rfl⟩ := Option.map_eq_some_iff.mp hb'
    have hfresh : b.Fresh := hg.fresh i b hb
    show Block.Fresh _
    dsimp only
    split <;> split <;> simp only [hfresh, hfresh.attach, Block.Fresh.attach]
  pending i b' s hb' := by
    rw [addArc_block] at hb'
    obtain ⟨b, hb, rfl⟩ := Option.map_eq_some_iff.mp hb'
    have hold := hg.pending i b s hb
    have hcount : (g.side i s).countP (g.addArc arc).isOpen = (g.side i s).countP g.isOpen :=
      List.countP_congr fun id hid => by rw [isOpen_addArc g arc (hg.linked.lt_arcs hid)]
    have hnew : (g.addArc arc).isOpen g.arcs.size = !arc.resolved := by
      simp [isOpen, addArc_getElem?]
    rw [openDegree, addArc_side g arc (lt_of_getElem? hb), List.countP_append, hcount,
      ← openDegree]
    push_cast
    rw [← hold]
    cases s <;> by_cases hs : arc.src = i <;> by_cases hd : arc.dst = i <;>
      cases hres : arc.resolved <;>
      simp [hs, hd, hres, hnew, Arc.nearEnd]

/-- The graph of so many blocks and some arcs between them. -/
def ofArcs (n : Nat) (arcs : List Arc) : FlowGraph :=
  arcs.foldl addArc (ofSize n)

theorem ofArcs_concat (n : Nat) (arcs : List Arc) (arc : Arc) :
    ofArcs n (arcs ++ [arc]) = (ofArcs n arcs).addArc arc := by
  simp [ofArcs]

@[simp] theorem ofArcs_size (n : Nat) (arcs : List Arc) : (ofArcs n arcs).size = n := by
  induction arcs using List.reverseRecOn with
  | nil => simp [ofArcs, ofSize, size]
  | append_singleton arcs arc ih => rw [ofArcs_concat, addArc_size, ih]

@[simp] theorem ofArcs_arcs (n : Nat) (arcs : List Arc) : (ofArcs n arcs).arcs = arcs.toArray := by
  induction arcs using List.reverseRecOn with
  | nil => rfl
  | append_singleton arcs arc ih => rw [ofArcs_concat, addArc_arcs, ih, List.push_toArray]

theorem prepared_ofArcs {n : Nat} {arcs : List Arc}
    (h : ∀ arc ∈ arcs, arc.src < n ∧ arc.dst < n) : (ofArcs n arcs).Prepared := by
  induction arcs using List.reverseRecOn with
  | nil => exact prepared_ofSize n
  | append_singleton arcs arc ih =>
    obtain ⟨hsrc, hdst⟩ := h arc (by simp)
    rw [ofArcs_concat]
    refine (ih fun a ha => h a (by simp [ha])).addArc ?_ ?_
    · rwa [ofArcs_size]
    · rwa [ofArcs_size]

theorem hasEnds_ofArcs {n : Nat} {arcs : List Arc} (htwo : 2 ≤ n)
    (h : ∀ arc ∈ arcs, arc.dst ≠ 0 ∧ arc.src ≠ n - 1) : (ofArcs n arcs).HasEnds := by
  have hmem : ∀ (id : Nat) (arc : Arc), (ofArcs n arcs).arcs[id]? = some arc → arc ∈ arcs := by
    intro id arc harc
    rw [ofArcs_arcs, List.getElem?_toArray] at harc
    exact List.mem_of_getElem? harc
  exact {
    two_le := by rwa [ofArcs_size]
    no_entry := fun id arc harc => (h arc (hmem id arc harc)).1
    no_exit := fun id arc harc => by
      rw [ofArcs_size]
      exact (h arc (hmem id arc harc)).2 }

/-- On a side of a block stand the arcs with that end, in the order in which they were added. -/
theorem side_ofArcs {n : Nat} (arcs : List Arc) {i : Nat} (hi : i < n) (s : Side) :
    (ofArcs n arcs).side i s = (List.range arcs.length).filter fun id =>
      (arcs[id]?).any (·.nearEnd s == i) := by
  induction arcs using List.reverseRecOn with
  | nil => exact side_ofSize n i s
  | append_singleton arcs arc ih =>
    rw [ofArcs_concat, addArc_side _ _ (by rwa [ofArcs_size]), ih, List.length_append,
      List.length_singleton, List.range_succ, List.filter_append]
    congr 1
    · refine List.filter_congr fun id hid => ?_
      rw [List.getElem?_append_left (List.mem_range.mp hid)]
    · by_cases hend : arc.nearEnd s = i <;> simp [hend]

/-- The sides of one kind, block by block. -/
theorem flatMap_arcsOn (g : FlowGraph) (s : Side) :
    g.blocks.toList.flatMap (·.arcsOn s) = (List.range g.size).flatMap fun i => g.side i s := by
  have hsides : g.blocks.toList.map (·.arcsOn s)
      = (List.range g.size).map fun i => g.side i s := by
    refine List.ext_getElem ?_ fun i hi hi' => ?_
    · simp [size]
    · have hlt : i < g.blocks.size := by simpa using hi
      rw [List.getElem_map, List.getElem_map, List.getElem_range,
        side_of_getElem? (Array.getElem?_eq_getElem hlt), Array.getElem_toList]
  rw [List.flatMap_def, hsides, List.flatMap_def]

theorem exitOrder_eq (g : FlowGraph) :
    g.exitOrder = (List.range g.size).flatMap fun i => g.side i .exits :=
  g.flatMap_arcsOn .exits

/-- Arcs that were added by ascending source are listed in the order in which they were added. -/
theorem exitOrder_ofArcs {n : Nat} {arcs : List Arc}
    (hsorted : arcs.Pairwise fun a b => a.src ≤ b.src) (hlt : ∀ arc ∈ arcs, arc.src < n) :
    (ofArcs n arcs).exitOrder = List.range arcs.length := by
  let key (id : Nat) : Nat := (arcs[id]?).elim 0 (·.src)
  have hkey : ∀ id ∈ List.range arcs.length, ∃ h : id < arcs.length, key id = arcs[id].src := by
    intro id hid
    have hid := List.mem_range.mp hid
    exact ⟨hid, by simp [key, hid]⟩
  have hsides : ((List.range n).flatMap fun i => (ofArcs n arcs).side i .exits)
      = (List.range n).flatMap fun i => (List.range arcs.length).filter (key · = i) := by
    refine List.flatMap_congr fun i hi => ?_
    rw [side_ofArcs arcs (List.mem_range.mp hi)]
    refine List.filter_congr fun id hid => ?_
    obtain ⟨hid, hsrc⟩ := hkey id hid
    rw [hsrc, List.getElem?_eq_getElem hid, Option.any_some]
    rfl
  rw [exitOrder_eq, ofArcs_size, hsides]
  refine flatMap_range_filter ?_ fun id hid => ?_
  · refine List.pairwise_lt_range.imp_of_mem fun {a b} ha hb hab => ?_
    obtain ⟨ha, hsrc⟩ := hkey a ha
    obtain ⟨hb, hsrc'⟩ := hkey b hb
    rw [hsrc, hsrc']
    exact List.pairwise_iff_getElem.mp hsorted a b ha hb hab
  · obtain ⟨hid, hsrc⟩ := hkey id hid
    rw [hsrc]
    exact hlt _ (List.getElem_mem hid)

theorem filterMap_range_getElem? {α : Type} (l : List α) :
    (List.range l.length).filterMap (l[·]?) = l := by
  induction l with
  | nil => rfl
  | cons a l ih =>
    rw [List.length_cons, List.range_succ_eq_map, List.filterMap_cons, List.filterMap_map]
    simpa [Function.comp_def] using ih

theorem orderedArcs_of_exitOrder {arcs : List Arc} (harcs : g.arcs = arcs.toArray)
    (horder : g.exitOrder = List.range arcs.length) : g.orderedArcs = arcs := by
  rw [orderedArcs, horder, arcsOf, harcs]
  simp only [List.getElem?_toArray]
  exact filterMap_range_getElem? arcs

/-! ## Skeletons

Lines and call sites are no part of the flow. -/

end FlowGraph

/-- A block without its lines, and not as a call site. -/
def Block.bare (b : Block) : Block :=
  { b with lines := [], callSite := false }

theorem Block.bare_attach (b : Block) (s : Side) (id : Nat) (resolved : Bool) :
    (b.attach s id resolved).bare = b.bare.attach s id resolved := by
  cases s <;> cases resolved <;> rfl

@[simp] theorem Block.bare_arcsOn (b : Block) (s : Side) : b.bare.arcsOn s = b.arcsOn s := by
  cases s <;> rfl

@[simp] theorem Block.bare_pending (b : Block) (s : Side) : b.bare.pending s = b.pending s := by
  cases s <;> rfl

namespace FlowGraph

variable {g : FlowGraph}

/-- A graph without lines and call sites. -/
def skeleton (g : FlowGraph) : FlowGraph :=
  { g with blocks := g.blocks.map Block.bare }

@[simp] theorem skeleton_size (g : FlowGraph) : g.skeleton.size = g.size := by
  simp [skeleton, size]

@[simp] theorem skeleton_arcs (g : FlowGraph) : g.skeleton.arcs = g.arcs := rfl

theorem skeleton_block (g : FlowGraph) (i : Nat) :
    g.skeleton.blocks[i]? = (g.blocks[i]?).map Block.bare := by
  simp [skeleton]

@[simp] theorem skeleton_side (g : FlowGraph) (i : Nat) (s : Side) :
    g.skeleton.side i s = g.side i s := by
  rw [side, side, skeleton_block]
  cases g.blocks[i]? with
  | none => rfl
  | some b => exact b.bare_arcsOn s

theorem skeleton_ofSize (n : Nat) : (ofSize n).skeleton = ofSize n := by
  simp [skeleton, ofSize, Block.bare]

theorem skeleton_addArc (g : FlowGraph) (arc : Arc) :
    (g.addArc arc).skeleton = g.skeleton.addArc arc := by
  have hblocks : (g.addArc arc).skeleton.blocks = (g.skeleton.addArc arc).blocks := by
    refine Array.ext_getElem? fun i => ?_
    rw [skeleton_block, addArc_block, addArc_block, skeleton_block, Option.map_map,
      Option.map_map, skeleton_arcs]
    congr 1
    funext b
    simp only [Function.comp_apply]
    split <;> split <;> simp [Block.bare_attach]
  exact congrArg (fun blocks => ({ blocks, arcs := g.arcs.push arc } : FlowGraph)) hblocks

/-- Changes of lines and call sites leave the skeleton. -/
theorem skeleton_mapBlock (g : FlowGraph) (i : Nat) {f : Block → Block}
    (hf : ∀ b, (f b).bare = b.bare) : (g.mapBlock i f).skeleton = g.skeleton := by
  have hblocks : (g.mapBlock i f).skeleton.blocks = g.skeleton.blocks := by
    refine Array.ext_getElem? fun j => ?_
    rw [skeleton_block, getElem?_mapBlock, skeleton_block]
    split
    · rw [Option.map_map]
      exact congrArg (fun h => (g.blocks[j]?).map h) (funext hf)
    · rfl
  exact congrArg (fun blocks => ({ blocks, arcs := g.arcs } : FlowGraph)) hblocks

theorem exitOrder_congr {g h : FlowGraph} (hsize : h.size = g.size)
    (hside : ∀ i, h.side i .exits = g.side i .exits) : h.exitOrder = g.exitOrder := by
  rw [exitOrder_eq, exitOrder_eq, hsize]
  exact congrArg (fun f => (List.range g.size).flatMap f) (funext hside)

@[simp] theorem skeleton_exitOrder (g : FlowGraph) : g.skeleton.exitOrder = g.exitOrder :=
  exitOrder_congr (skeleton_size g) fun i => skeleton_side g i .exits

theorem Prepared.of_skeleton (hg : g.skeleton.Prepared) : g.Prepared where
  linked :=
    { nodup := fun i s => by simpa using hg.linked.nodup i s
      mem_side := fun i s id => by simpa using hg.linked.mem_side i s id }
  fresh i b hb := by
    have hbare : g.skeleton.blocks[i]? = some b.bare := by rw [skeleton_block, hb, Option.map_some]
    exact hg.fresh i b.bare hbare
  pending i b s hb := by
    have hbare : g.skeleton.blocks[i]? = some b.bare := by rw [skeleton_block, hb, Option.map_some]
    have hpending := hg.pending i b.bare s hbare
    rw [Block.bare_pending] at hpending
    rw [hpending, openDegree, openDegree, skeleton_side]
    rfl

theorem Prepared.skeleton (hg : g.Prepared) : g.skeleton.Prepared where
  linked :=
    { nodup := fun i s => by simpa using hg.linked.nodup i s
      mem_side := fun i s id => by simpa using hg.linked.mem_side i s id }
  fresh i b' hb' := by
    rw [skeleton_block] at hb'
    obtain ⟨b, hb, rfl⟩ := Option.map_eq_some_iff.mp hb'
    exact hg.fresh i b hb
  pending i b' s hb' := by
    rw [skeleton_block] at hb'
    obtain ⟨b, hb, rfl⟩ := Option.map_eq_some_iff.mp hb'
    rw [Block.bare_pending, hg.pending i b s hb, openDegree, openDegree, skeleton_side]
    rfl

/-- Changes of lines and call sites leave a prepared graph. -/
theorem Prepared.mapBlock (hg : g.Prepared) (i : Nat) {f : Block → Block}
    (hf : ∀ b, (f b).bare = b.bare) : (g.mapBlock i f).Prepared := by
  refine Prepared.of_skeleton ?_
  rw [skeleton_mapBlock g i hf]
  exact hg.skeleton

/-! ## Measuring arcs -/

/-- Giving an unresolved arc its counter leaves a prepared graph. -/
theorem Prepared.resolve (hg : g.Prepared) {id : Nat} {arc : Arc} (harc : g.arcs[id]? = some arc)
    (hres : arc.resolved = false) (t : Side) (c : Int) : (g.resolve id arc t c).Prepared where
  linked := (refines_resolve harc hres).linked hg.linked
  fresh i b' hb' := by
    obtain ⟨b, hb, rfl⟩ := resolve_block hb'
    exact hg.fresh i b hb
  pending i b' s hb' := by
    obtain ⟨b, hb, rfl⟩ := resolve_block hb'
    have hold := hg.pending i b s hb
    have hopen : g.isOpen id = true := by
      rw [isOpen_eq_true_iff harc, knowledge_arc_eq_none_iff harc, hres]
    have hmem : id ∈ g.side i s ↔ arc.nearEnd s = i := by
      rw [hg.linked.mem_side]
      simp [harc]
    rw [openDegree, (refines_resolve harc hres).side_eq,
      countP_resolve_isOpen hopen (hg.linked.nodup i s), ← openDegree, ← hold]
    simp only [hmem]
    cases s <;> rfl

end FlowGraph

end Coverage
