import Coverage.Proofs.GraphConstruction

/-!
# Groups of blocks

Every arc stands once among the exits of some block, and once among the entries of some block.  An
arc between two blocks of a group is an exit and an entry inside the group, and an arc that crosses
its boundary is only one of them.  So the sums of the exits of all blocks of the group, and those of
their entries, differ by what crosses the boundary (`Linked.sumAcross_add_sumWithin`).
-/

namespace Coverage.FlowGraph

variable {g : FlowGraph} {blocks : List Nat}

/-! ## Links -/

/-- Links can be told from the blocks and the arcs that there are. -/
theorem linked_iff : g.Linked ↔ ∀ s ∈ [Side.exits, Side.entries],
    (∀ i < g.size, (g.side i s).Nodup ∧
      ∀ id ∈ g.side i s, (g.arcs[id]?).any (·.nearEnd s = i)) ∧
    ∀ id < g.arcs.size, (g.arcs[id]?).any fun arc => id ∈ g.side (arc.nearEnd s) s := by
  constructor
  · refine fun hg s _ => ⟨fun i _ => ⟨hg.nodup i s, fun id hid => ?_⟩, fun id hid => ?_⟩
    · obtain ⟨arc, harc, hend⟩ := (hg.mem_side i s id).mp hid
      rw [harc, Option.any_some, hend]
      exact decide_eq_true rfl
    · have harc := Array.getElem?_eq_getElem hid
      rw [harc, Option.any_some]
      exact decide_eq_true ((hg.mem_side _ s id).mpr ⟨_, harc, rfl⟩)
  · intro h
    have hside : ∀ s, s ∈ [Side.exits, Side.entries] := by
      intro s
      cases s <;> decide
    refine ⟨fun i s => ?_, fun i s id => ⟨fun hid => ?_, ?_⟩⟩
    · by_cases hi : i < g.size
      · exact ((h s (hside s)).1 i hi).1
      · rw [side_of_size_le (Nat.le_of_not_lt hi) s]
        exact List.nodup_nil
    · obtain ⟨arc, harc, hend⟩ := (Option.any_eq_true _ _).mp
        (((h s (hside s)).1 i (lt_size_of_mem_side hid)).2 id hid)
      exact ⟨arc, harc, of_decide_eq_true hend⟩
    · rintro ⟨arc, harc, rfl⟩
      have hlisted := (h s (hside s)).2 id (Array.getElem?_eq_some_iff.mp harc).1
      rw [harc, Option.any_some] at hlisted
      exact of_decide_eq_true hlisted

instance (g : FlowGraph) : Decidable g.Linked :=
  decidable_of_iff _ linked_iff.symm

/-! ## The arcs of a group -/

/-- On the sides of one kind of some blocks, every arc that ends there stands once. -/
theorem Linked.perm_sides_of (hg : g.Linked) (hnodup : blocks.Nodup) (s : Side) :
    (blocks.flatMap (g.side · s)).Perm
      ((List.range g.arcs.size).filter fun id => (g.arcs[id]?).any (·.nearEnd s ∈ blocks)) := by
  refine (List.perm_ext_iff_of_nodup ?_ (List.nodup_range.filter _)).mpr fun id => ?_
  · refine List.nodup_flatMap.mpr ⟨fun i _ => hg.nodup i s, ?_⟩
    refine hnodup.imp fun {i j} hne id hi hj => hne ?_
    obtain ⟨a, ha, rfl⟩ := (hg.mem_side i s id).mp hi
    obtain ⟨a', ha', rfl⟩ := (hg.mem_side j s id).mp hj
    rw [Option.some.inj (ha.symm.trans ha')]
  · rw [List.mem_flatMap, List.mem_filter, List.mem_range, Option.any_eq_true]
    constructor
    · rintro ⟨i, hi, hid⟩
      obtain ⟨a, ha, rfl⟩ := (hg.mem_side i s id).mp hid
      exact ⟨(Array.getElem?_eq_some_iff.mp ha).1, a, ha, decide_eq_true hi⟩
    · rintro ⟨-, a, ha, hmem⟩
      exact ⟨a.nearEnd s, of_decide_eq_true hmem, (hg.mem_side _ s id).mpr ⟨a, ha, rfl⟩⟩

/-- On the sides of one kind every arc stands once. -/
theorem Linked.perm_sides (hg : g.Linked) (s : Side) :
    ((List.range g.size).flatMap (g.side · s)).Perm (List.range g.arcs.size) := by
  have hall : (List.range g.arcs.size).filter
        (fun id => (g.arcs[id]?).any (·.nearEnd s ∈ List.range g.size))
      = List.range g.arcs.size := by
    refine List.filter_eq_self.mpr fun id hid => ?_
    have ha := Array.getElem?_eq_getElem (List.mem_range.mp hid)
    rw [ha, Option.any_some, decide_eq_true_iff, List.mem_range]
    exact hg.nearEnd_lt ha s
  rw [← hall]
  exact hg.perm_sides_of List.nodup_range s

/-- Over all blocks, as much enters as leaves. -/
theorem Linked.total_sides (hg : g.Linked) (f : Nat → Int) (s t : Side) :
    total (fun i => total f (g.side i s)) (List.range g.size)
      = total (fun i => total f (g.side i t)) (List.range g.size) := by
  rw [← total_flatMap, ← total_flatMap, total_perm (hg.perm_sides s), total_perm (hg.perm_sides t)]

theorem arcsOf_range (g : FlowGraph) : g.arcsOf (List.range g.arcs.size) = g.arcs.toList := by
  have hall := filterMap_range_getElem? g.arcs.toList
  simp only [Array.getElem?_toList, Array.length_toList] at hall
  exact hall

theorem arcsOf_filter (g : FlowGraph) (p : Arc → Bool) (ids : List Nat) :
    g.arcsOf (ids.filter fun id => (g.arcs[id]?).any p) = (g.arcsOf ids).filter p := by
  rw [arcsOf, arcsOf, List.filterMap_filter, List.filter_filterMap]
  refine List.filterMap_congr fun id _ => ?_
  cases g.arcs[id]? with
  | none => rfl
  | some arc => cases hp : p arc <;> simp [Option.filter, hp]

/-- The arcs on the sides of one kind of some blocks are those that end there. -/
theorem Linked.perm_arcsOf (hg : g.Linked) (hnodup : blocks.Nodup) (s : Side) :
    (blocks.flatMap fun i => g.arcsOf (g.side i s)).Perm
      (g.arcs.toList.filter (·.nearEnd s ∈ blocks)) := by
  have hperm := (hg.perm_sides_of hnodup s).filterMap (g.arcs[·]?)
  rw [List.filterMap_flatMap] at hperm
  have harcs := g.arcsOf_filter (fun arc => arc.nearEnd s ∈ blocks) (List.range g.arcs.size)
  rw [arcsOf_range] at harcs
  rwa [← harcs]

/-! ## Sums over a group -/

/-- The counts of the arcs with both ends in a group of blocks. -/
def sumWithin (g : FlowGraph) (blocks : List Nat) : Int :=
  total (·.count) (g.arcs.toList.filter fun arc => arc.src ∈ blocks ∧ arc.dst ∈ blocks)

/-- The counts of the arcs on a side of the blocks of a group whose far end is outside of it. -/
def sumAcross (g : FlowGraph) (blocks : List Nat) (s : Side) : Int :=
  total (fun i => total (·.count) ((g.arcsOf (g.side i s)).filter (·.farEnd s ∉ blocks))) blocks

/-- The counts of the blocks of a group. -/
def sumOfBlocks (g : FlowGraph) (blocks : List Nat) : Int :=
  total (·.count) (blocks.filterMap (g.blocks[·]?))

/-- On a side of the blocks of a group are the arcs within it, and those that cross its boundary. -/
theorem Linked.sumAcross_add_sumWithin (hg : g.Linked) (hnodup : blocks.Nodup) (s : Side) :
    g.sumAcross blocks s + g.sumWithin blocks = total (fun i => g.sumOf (g.side i s)) blocks := by
  have hwithin : total (fun i => total (·.count)
        ((g.arcsOf (g.side i s)).filter (·.farEnd s ∈ blocks))) blocks = g.sumWithin blocks := by
    have hperm := (hg.perm_arcsOf hnodup s).filter (·.farEnd s ∈ blocks)
    rw [List.filter_flatMap, List.filter_filter] at hperm
    rw [← total_flatMap, total_perm hperm, sumWithin]
    refine congrArg _ (List.filter_congr fun arc _ => ?_)
    rw [← Bool.decide_and, decide_eq_decide]
    cases s with
    | exits => exact And.comm
    | entries => exact Iff.rfl
  rw [← hwithin, sumAcross, ← total_add]
  refine total_congr fun i _ => ?_
  have hsplit := total_filter_add_total_filter_not (·.count) (fun arc : Arc => arc.farEnd s ∈ blocks)
    (g.arcsOf (g.side i s))
  rw [sumOf, ← hsplit, Int.add_comm]
  simp only [decide_not]

/-- Where each block of a group counts what one of its sides sums up to. -/
theorem sumOfBlocks_eq {s : Side} (h : ∀ i ∈ blocks, ∃ block, g.blocks[i]? = some block
      ∧ g.sumOf (block.arcsOn s) = block.count) :
    g.sumOfBlocks blocks = total (fun i => g.sumOf (g.side i s)) blocks := by
  induction blocks with
  | nil => rfl
  | cons i blocks ih =>
    obtain ⟨block, hblock, hsum⟩ := h i List.mem_cons_self
    have hrest := ih fun j hj => h j (List.mem_cons_of_mem i hj)
    rw [sumOfBlocks] at hrest ⊢
    rw [List.filterMap_cons, hblock, total_cons, total_cons, hrest, side_of_getElem? hblock, hsum]

end Coverage.FlowGraph
