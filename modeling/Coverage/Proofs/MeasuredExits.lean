import Coverage.Proofs.GraphConstruction

/-!
# Exits that carry a counter

The decoder of a data file goes along the exits that blocks list, and counts an arc for the block
that lists it, not for the block that the arc names as its source.  Counters change no list, so
those of a record go where they were expected when it began (`measuredExits_countArc`).  And where
every arc is listed by its source, counting it is what solving it would be
(`countArc_eq_resolve`).
-/

namespace Coverage

namespace FlowGraph

variable {g h : FlowGraph}

/-- The exits, block by block. -/
theorem listedExits_eq (g : FlowGraph) :
    g.listedExits = (List.range g.size).flatMap fun i => (g.side i .exits).map (Exit.mk i) := by
  rw [listedExits, List.flatMap_def, List.flatMap_def]
  refine congrArg List.flatten (List.ext_getElem ?_ fun i hi hi' => ?_)
  · simp [size]
  · have hlt : i < g.blocks.size := by simpa using hi
    rw [List.getElem_map, List.getElem_map, List.getElem_range, List.getElem_zipIdx,
      side_of_getElem? (Array.getElem?_eq_getElem hlt), Array.getElem_toList, Nat.zero_add]
    rfl

theorem map_id_listedExits (g : FlowGraph) : g.listedExits.map (·.id) = g.exitOrder := by
  rw [listedExits_eq, exitOrder_eq, List.map_flatMap]
  simp [Function.comp_def]

theorem mem_side_of_mem_listedExits {exit : Exit} (hexit : exit ∈ g.listedExits) :
    exit.id ∈ g.side exit.block .exits := by
  rw [listedExits_eq, List.mem_flatMap] at hexit
  obtain ⟨i, -, hexit⟩ := hexit
  obtain ⟨id, hid, rfl⟩ := List.mem_map.mp hexit
  exact hid

/-- Exits depend on the exit sides alone. -/
theorem listedExits_congr (hsize : h.size = g.size)
    (hside : ∀ i, h.side i .exits = g.side i .exits) : h.listedExits = g.listedExits := by
  simp only [listedExits_eq, hsize, hside]

/-- Pending degrees have no part in what stands on a side. -/
theorem side_mapPending (g : FlowGraph) (i : Nat) (s : Side) (change : Int → Int) (j : Nat)
    (t : Side) : (g.mapBlock i (·.mapPending s change)).side j t = g.side j t := by
  rw [side, side, getElem?_mapBlock]
  by_cases hj : i = j
  · rw [if_pos hj]
    cases g.blocks[j]? with
    | none => rfl
    | some b => exact b.mapPending_arcsOn s t change
  · rw [if_neg hj]

end FlowGraph

namespace Counters

open FlowGraph

variable {g h : FlowGraph} {exit : Exit} {arc : Arc} {count id : Nat}

/-! ## Arcs with a counter -/

/-- The arcs that carry a counter, in the order of the counters. -/
def measuredIds (g : FlowGraph) : List Nat :=
  g.exitOrder.filter fun id => (g.arcs[id]?).any (!·.onTree)

/-- Every counter is for an arc that carries one, and in its place. -/
theorem map_id_measuredExits (g : FlowGraph) : (measuredExits g).map (·.id) = measuredIds g := by
  rw [measuredExits, measuredIds, ← map_id_listedExits, List.filter_map]
  rfl

theorem length_measuredExits (g : FlowGraph) :
    (measuredExits g).length = (measuredIds g).length := by
  rw [← map_id_measuredExits, List.length_map]

theorem id_mem_measuredIds (hexit : exit ∈ measuredExits g) : exit.id ∈ measuredIds g := by
  rw [← map_id_measuredExits]
  exact List.mem_map_of_mem hexit

theorem lt_arcs_of_mem_measuredIds (hid : id ∈ measuredIds g) : id < g.arcs.size := by
  have hany := (List.mem_filter.mp hid).2
  rw [Option.any_eq_true] at hany
  obtain ⟨arc, harc, -⟩ := hany
  exact (Array.getElem?_eq_some_iff.mp harc).1

theorem measuredExits_congr (hlisted : h.listedExits = g.listedExits)
    (honTree : ∀ id : Nat, (h.arcs[id]?).map (·.onTree) = (g.arcs[id]?).map (·.onTree)) :
    measuredExits h = measuredExits g := by
  rw [measuredExits, measuredExits, hlisted]
  refine List.filter_congr fun exit _ => ?_
  have hany := congrArg (Option.any (!·)) (honTree exit.id)
  rwa [Option.any_map, Option.any_map] at hany

/-! ## Counting -/

/-- An arc is counted for its source, if that is the block that lists it. -/
theorem countArc_eq_resolve (hsrc : arc.src = exit.block) :
    countArc g exit arc count = g.resolve exit.id arc .exits count := by
  rw [countArc, ← hsrc]
  rfl

/-- In a linked graph every arc is listed by its source. -/
theorem src_of_mem_measuredExits (hg : g.Linked) (hexit : exit ∈ measuredExits g)
    (harc : g.arcs[exit.id]? = some arc) : arc.src = exit.block := by
  have hside := mem_side_of_mem_listedExits (List.mem_of_mem_filter hexit)
  obtain ⟨arc', harc', hsrc⟩ := (hg.mem_side exit.block .exits exit.id).mp hside
  cases harc.symm.trans harc'
  exact hsrc

/-- An arc that is given its counter carries one as before. -/
theorem measuredExits_countArc (g : FlowGraph) (exit : Exit) (arc : Arc) (count : Nat) :
    measuredExits (countArc g exit arc count) = measuredExits g := by
  refine measuredExits_congr (listedExits_congr ?_ fun i => ?_) fun id => ?_
  · rw [countArc, mapBlock_size, mapBlock_size]
    rfl
  · rw [countArc, side_mapPending, side_mapPending]
    rfl
  · rw [countArc, mapBlock_arcs, mapBlock_arcs, getElem?_mapArc]
    split
    · cases g.arcs[id]? <;> rfl
    · rfl

theorem measuredIds_countArc (g : FlowGraph) (exit : Exit) (arc : Arc) (count : Nat) :
    measuredIds (countArc g exit arc count) = measuredIds g := by
  rw [← map_id_measuredExits, measuredExits_countArc, map_id_measuredExits]

end Counters

end Coverage
