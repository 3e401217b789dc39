import Coverage.Proofs.SolverSteps
import Mathlib.Data.List.Nodup

/-!
# What the solver maintains

The solver keeps degrees, flags and two stacks beside the counts themselves.  `Invariant` says how
all of these hang together between two steps.  Steps keep it, and what they do to the counts are
conclusions in the sense of `Infers`.  A block that is worked on may be behind with the stacks for
a moment, which is what the parameter `due` of the invariant allows.

* `solve_spec` — from a prepared graph the solver comes to an end without a fault; it has drawn
  conclusions only, and it has drawn all of them.
-/

namespace Coverage.Solver

open FlowGraph

/-! ## The invariant -/

/-- What holds of the block `i` of a graph `h` that is being solved, where `g` is the graph to
begin with, and `us` and `rs` are the stacks.  Sides that are `due` need not be on a stack. -/
structure BlockInvariant (g h : FlowGraph) (us rs : List Nat) (due : Nat → Side → Prop) (i : Nat)
    (b : Block) : Prop where
  refines : ∀ b₀ : Block, g.blocks[i]? = some b₀ → b₀.Refines b
  /-- Degrees are the numbers of unresolved arcs, but for sides with an implicit edge. -/
  degree : ∀ s, ¬ g.Sealed i s → b.pending s = (g.side i s).countP h.isOpen
  degree_sealed : ∀ s, g.Sealed i s → b.pending s = sentinelDegree
  onUnresolved : i ∈ us ↔ b.onUnresolved = true
  onResolved : i ∈ rs ↔ b.onResolved = true
  waiting : b.onUnresolved = true → b.countValid = false
  known : b.onResolved = true → b.countValid = true
  /-- A block that can be given a count waits for it. -/
  ready : ∀ s, b.countValid = false → b.pending s = 0 → b.onUnresolved = true ∨ due i s
  /-- A block that can give a count to an arc waits to do so. -/
  active : ∀ s, b.countValid = true → b.pending s = 1 → b.onResolved = true ∨ due i s

/-- What holds of a state of the solver that began with `g`. -/
structure Invariant (g : FlowGraph) (due : Nat → Side → Prop) (s : State) : Prop where
  size : s.graph.size = g.size
  arcs_size : s.graph.arcs.size = g.arcs.size
  arc : ∀ (id : Nat) (a a' : Arc), g.arcs[id]? = some a → s.graph.arcs[id]? = some a' →
    a.Refines a'
  block : ∀ (i : Nat) (b : Block), s.graph.blocks[i]? = some b →
    BlockInvariant g s.graph s.unresolved s.resolved due i b
  unresolved_lt : ∀ i ∈ s.unresolved, i < g.size
  resolved_lt : ∀ i ∈ s.resolved, i < g.size
  unresolved_nodup : s.unresolved.Nodup
  resolved_nodup : s.resolved.Nodup
  founded : s.graph.knowledge.Founded g

/-- All that was due but a side of a block. -/
def Without (due : Nat → Side → Prop) (i : Nat) (t : Side) : Nat → Side → Prop :=
  fun j u => due j u ∧ ¬ (j = i ∧ u = t)

variable {g : FlowGraph} {due due' : Nat → Side → Prop} {s : State} {i : Nat}

theorem BlockInvariant.mono {h : FlowGraph} {us rs : List Nat} {b : Block}
    (hb : BlockInvariant g h us rs due i b) (hdue : ∀ t, due i t → due' i t) :
    BlockInvariant g h us rs due' i b :=
  { hb with
    ready := fun t hv hp => (hb.ready t hv hp).imp_right (hdue t)
    active := fun t hv hp => (hb.active t hv hp).imp_right (hdue t) }

/-- A degree that is not the sentinel is the number of unresolved arcs. -/
theorem BlockInvariant.countP_of_pending {h : FlowGraph} {us rs : List Nat} {b : Block} {t : Side}
    (hb : BlockInvariant g h us rs due i b) (n : Nat) (hp : b.pending t = n)
    (hn : (n : Int) ≠ sentinelDegree) : ¬ g.Sealed i t ∧ (g.side i t).countP h.isOpen = n := by
  have hsealed : ¬ g.Sealed i t := by
    intro hsealed
    rw [hb.degree_sealed t hsealed] at hp
    exact hn hp.symm
  refine ⟨hsealed, ?_⟩
  rw [hb.degree t hsealed] at hp
  exact_mod_cast hp

namespace Invariant

theorem refines (hs : Invariant g due s) : g.Refines s.graph where
  size := hs.size
  arcs_size := hs.arcs_size
  arc := hs.arc
  block i b b' hb hb' := (hs.block i b' hb').refines b hb

theorem mono (hs : Invariant g due s) (hdue : ∀ i t, due i t → due' i t) : Invariant g due' s :=
  { hs with block := fun i b hb => (hs.block i b hb).mono (hdue i) }

theorem arcsOn_eq (hs : Invariant g due s) {b : Block} (hb : s.graph.blocks[i]? = some b)
    (t : Side) : b.arcsOn t = g.side i t := by
  rw [← hs.refines.side_eq, side_of_getElem? hb]

theorem exists_arc (hs : Invariant g due s) (hg : g.Linked) {id : Nat} {t : Side}
    (hid : id ∈ g.side i t) : ∃ a, s.graph.arcs[id]? = some a ∧ a.nearEnd t = i := by
  obtain ⟨a₀, ha₀, hend⟩ := (hg.mem_side i t id).mp hid
  obtain ⟨a, ha, href⟩ := hs.refines.exists_arc ha₀
  exact ⟨a, ha, (href.nearEnd t).trans hend⟩

/-- Arcs on a side of which none is open are known. -/
theorem knows_of_countP (hs : Invariant g due s) (hg : g.Linked) {t : Side}
    (h : (g.side i t).countP s.graph.isOpen = 0) : s.graph.knowledge.Knows (g.side i t) := by
  intro id hid hnone
  obtain ⟨a, ha, -⟩ := hs.exists_arc hg hid
  exact (List.countP_eq_zero.mp h) id hid ((isOpen_eq_true_iff ha).mpr hnone)

/-- A side that is not pending shows the count of its block. -/
theorem of_pending_eq_zero (hs : Invariant g due s) (hg : g.Linked) {b : Block} {t : Side}
    (hb : s.graph.blocks[i]? = some b) (hp : b.pending t = 0) :
    ¬ g.Sealed i t ∧ s.graph.knowledge.Knows (g.side i t)
      ∧ s.graph.sumOf (b.arcsOn t) = s.graph.knowledge.sum (g.side i t) := by
  obtain ⟨hsealed, hzero⟩ := (hs.block i b hb).countP_of_pending 0 hp (by decide)
  have hknows := hs.knows_of_countP hg hzero
  refine ⟨hsealed, hknows, ?_⟩
  rw [hs.arcsOn_eq hb, sumOf_eq hknows]

/-! ## One block at a time -/

/-- A change of one block and of its places on the stacks keeps the invariant, if that block is as
it should be. -/
theorem mapBlock (hs : Invariant g due s) {f : Block → Block} {us rs : List Nat} {focus : Stack}
    (hus : us.Nodup) (hrs : rs.Nodup) (huslt : ∀ j ∈ us, j < g.size) (hrslt : ∀ j ∈ rs, j < g.size)
    (hother : ∀ j, j ≠ i →
      (j ∈ us ↔ j ∈ s.unresolved) ∧ (j ∈ rs ↔ j ∈ s.resolved) ∧ ∀ t, due j t → due' j t)
    (hblock : ∀ b, s.graph.blocks[i]? = some b → BlockInvariant g s.graph us rs due' i (f b))
    (hfounded : (s.graph.mapBlock i f).knowledge.Founded g) :
    Invariant g due'
      { graph := s.graph.mapBlock i f, unresolved := us, resolved := rs, focus } where
  size := by simp [hs.size]
  arcs_size := hs.arcs_size
  arc := hs.arc
  block j b hb := by
    rw [getElem?_mapBlock] at hb
    split at hb
    · next heq =>
      subst heq
      obtain ⟨b₀, hb₀, rfl⟩ := Option.map_eq_some_iff.mp hb
      exact { hblock b₀ hb₀ with degree := (hblock b₀ hb₀).degree }
    · next hne =>
      obtain ⟨hu, hr, hdue⟩ := hother j (Ne.symm hne)
      have hold := (hs.block j b hb).mono hdue
      exact { hold with
        degree := hold.degree
        onUnresolved := hu.trans hold.onUnresolved
        onResolved := hr.trans hold.onResolved }
  unresolved_lt := huslt
  resolved_lt := hrslt
  unresolved_nodup := hus
  resolved_nodup := hrs
  founded := hfounded

/-! ### Putting a block back to work -/

theorem without (hs : Invariant g due s) {t : Side}
    (h : ∀ b, s.graph.blocks[i]? = some b →
      (b.countValid = false → b.pending t = 0 → b.onUnresolved = true) ∧
      (b.countValid = true → b.pending t = 1 → b.onResolved = true)) :
    Invariant g (Without due i t) s :=
  { hs with
    block := fun j b hb => by
      have hold := hs.block j b hb
      refine { hold with ready := fun u hv hp => ?_, active := fun u hv hp => ?_ }
      · by_cases heq : j = i ∧ u = t
        · obtain ⟨rfl, rfl⟩ := heq
          exact .inl ((h b hb).1 hv hp)
        · exact (hold.ready u hv hp).imp_right fun hdue => ⟨hdue, heq⟩
      · by_cases heq : j = i ∧ u = t
        · obtain ⟨rfl, rfl⟩ := heq
          exact .inl ((h b hb).2 hv hp)
        · exact (hold.active u hv hp).imp_right fun hdue => ⟨hdue, heq⟩ }

/-- A side is due no longer once its block was put back to work. -/
theorem requeue (hs : Invariant g due s) {b : Block} (hb : s.graph.blocks[i]? = some b) (t : Side) :
    Invariant g (Without due i t) (requeue s i (b.pending t))
      ∧ (Solver.requeue s i (b.pending t)).graph.knowledge = s.graph.knowledge := by
  have hold := hs.block i b hb
  have hi : i < g.size := hs.size ▸ lt_of_getElem? hb
  unfold Solver.requeue
  rw [hb]
  dsimp only
  split
  · next hvalid =>
    split
    · next hpush =>
      have hmem : i ∉ s.resolved := by
        rw [hold.onResolved]
        simpa using hpush.2
      have hfounded := hs.founded
      have hknow : (s.graph.mapBlock i fun b => { b with onResolved := true }).knowledge
          = s.graph.knowledge := knowledge_mapBlock_of_eq (fun _ => rfl) fun _ => rfl
      refine ⟨hs.mapBlock hs.unresolved_nodup (List.nodup_cons.mpr ⟨hmem, hs.resolved_nodup⟩)
        hs.unresolved_lt (List.forall_mem_cons.mpr ⟨hi, hs.resolved_lt⟩) (fun j hj => ?_)
        (fun b' hb' => ?_) (hknow ▸ hfounded), hknow⟩
      · simp [hj, Without]
      · obtain rfl : b' = b := Option.some.inj (hb'.symm.trans hb)
        exact { hold with
          refines := fun b₀ hb₀ => { hold.refines b₀ hb₀ with }
          degree := hold.degree
          onResolved := by simp
          known := fun _ => hvalid
          ready := fun u hv _ => absurd (hvalid.symm.trans hv) (by simp)
          active := fun _ _ _ => .inl rfl }
    · next hstay =>
      refine ⟨hs.without fun b' hb' => ?_, rfl⟩
      obtain rfl : b' = b := Option.some.inj (hb'.symm.trans hb)
      exact ⟨fun hv => absurd (hvalid.symm.trans hv) (by simp),
        fun _ hp => by simpa [hp] using hstay⟩
  · next hvalid =>
    simp only [Bool.not_eq_true] at hvalid
    split
    · next hpush =>
      have hmem : i ∉ s.unresolved := by
        rw [hold.onUnresolved]
        simpa using hpush.2
      have hfounded := hs.founded
      have hknow : (s.graph.mapBlock i fun b => { b with onUnresolved := true }).knowledge
          = s.graph.knowledge := knowledge_mapBlock_of_eq (fun _ => rfl) fun _ => rfl
      refine ⟨hs.mapBlock (List.nodup_cons.mpr ⟨hmem, hs.unresolved_nodup⟩) hs.resolved_nodup
        (List.forall_mem_cons.mpr ⟨hi, hs.unresolved_lt⟩) hs.resolved_lt (fun j hj => ?_)
        (fun b' hb' => ?_) (hknow ▸ hfounded), hknow⟩
      · simp [hj, Without]
      · obtain rfl : b' = b := Option.some.inj (hb'.symm.trans hb)
        exact { hold with
          refines := fun b₀ hb₀ => { hold.refines b₀ hb₀ with }
          degree := hold.degree
          onUnresolved := by simp
          waiting := fun _ => hvalid
          ready := fun _ _ _ => .inl rfl
          active := fun u hv _ => absurd (hvalid.symm.trans hv) (by simp) }
    · next hstay =>
      refine ⟨hs.without fun b' hb' => ?_, rfl⟩
      obtain rfl : b' = b := Option.some.inj (hb'.symm.trans hb)
      exact ⟨fun _ hp => by simpa [hp] using hstay,
        fun hv => absurd (hvalid.symm.trans hv) (by simp)⟩

/-! ### Giving a count to a block -/

/-- The count of a block with a resolved side is the sum of such a side. -/
theorem exists_throughFlow (hs : Invariant g due s) (hg : g.Linked) {b : Block}
    (hb : s.graph.blocks[i]? = some b) (h : ¬ (b.pendingOut ≠ 0 ∧ b.pendingIn ≠ 0)) :
    ∃ t, ¬ g.Sealed i t ∧ s.graph.knowledge.Knows (g.side i t)
      ∧ throughFlow s.graph b = s.graph.knowledge.sum (g.side i t) := by
  have hzero : ∀ t, b.pending t = 0 → throughFlow s.graph b = s.graph.sumOf (b.arcsOn t) →
      ∃ t, ¬ g.Sealed i t ∧ s.graph.knowledge.Knows (g.side i t)
        ∧ throughFlow s.graph b = s.graph.knowledge.sum (g.side i t) := by
    intro t hp hflow
    obtain ⟨hsealed, hknows, hsum⟩ := hs.of_pending_eq_zero hg hb hp
    exact ⟨t, hsealed, hknows, hflow.trans hsum⟩
  by_cases hout : b.pendingOut = 0
  · by_cases hin : b.pendingIn = 0 ∧ s.graph.sumOf b.exits = 0
    · refine hzero .entries hin.1 ?_
      simp only [throughFlow, hout, hin.1, hin.2, if_true, and_self]
      rfl
    · refine hzero .exits hout ?_
      simp only [throughFlow, hout, if_true, if_neg hin]
      rfl
  · have hin : b.pendingIn = 0 := by
      by_contra hin
      exact h ⟨hout, hin⟩
    refine hzero .entries hin ?_
    simp only [throughFlow, hin, if_neg hout, and_self, if_true]
    rfl

/-- A visit keeps the invariant, and at most it concludes the count of a block. -/
theorem visit {h : FlowGraph} {us rs : List Nat} {focus focus' : Stack}
    (hs : Invariant g due ⟨h, i :: us, rs, focus⟩) (hg : g.Linked) :
    ∃ t, visit ⟨h, us, rs, focus'⟩ i = .next t ∧ Invariant g due t
      ∧ Derives g h.knowledge t.graph.knowledge := by
  have hi : i < g.size := hs.unresolved_lt i List.mem_cons_self
  obtain ⟨b, hb⟩ := exists_block (g := h) (hs.size.symm ▸ hi)
  have hold := hs.block i b hb
  have hvalid : b.countValid = false := hold.waiting (hold.onUnresolved.mp List.mem_cons_self)
  obtain ⟨hmem, hnodup⟩ := List.nodup_cons.mp hs.unresolved_nodup
  have huslt : ∀ j ∈ us, j < g.size := fun j hj =>
    hs.unresolved_lt j (List.mem_cons_of_mem _ hj)
  have hrs : i ∉ rs := fun hmem => by
    have := hold.known (hold.onResolved.mp hmem)
    simp [hvalid] at this
  unfold Solver.visit
  dsimp only
  rw [hb]
  dsimp only
  split
  · next hpending =>
    have hknow : (h.mapBlock i fun b => { b with onUnresolved := false }).knowledge
        = h.knowledge := knowledge_mapBlock_of_eq (fun _ => rfl) fun _ => rfl
    refine ⟨_, rfl, ?_, by rw [hknow]⟩
    have hfounded := hs.founded
    refine hs.mapBlock hnodup hs.resolved_nodup huslt hs.resolved_lt (fun j hj => ?_)
      (fun b' hb' => ?_) (by rw [hknow]; exact hfounded)
    · simp [hj]
    · obtain rfl : b' = b := Option.some.inj (hb'.symm.trans hb)
      exact { hold with
        refines := fun b₀ hb₀ => { hold.refines b₀ hb₀ with }
        degree := hold.degree
        onUnresolved := by simp [hmem]
        waiting := fun _ => hvalid
        ready := fun u _ hp => by
          cases u with
          | exits => exact absurd hp hpending.1
          | entries => exact absurd hp hpending.2
        active := hold.active }
  · next hpending =>
    obtain ⟨t, hsealed, hknows, hflow⟩ := hs.exists_throughFlow hg hb hpending
    have hknow : (h.mapBlock i fun b' =>
        { b' with
          onUnresolved := false
          count := throughFlow h b
          countValid := true
          onResolved := true }).knowledge = h.knowledge.setBlock i (h.knowledge.sum (g.side i t)) :=
      knowledge_mapBlock hb rfl hflow
    have hinfer := Infers.block hi hsealed (knowledge_block_of_invalid hb hvalid) hknows
    refine ⟨_, rfl, ?_, hknow ▸ .single hinfer⟩
    refine hs.mapBlock hnodup (List.nodup_cons.mpr ⟨hrs, hs.resolved_nodup⟩) huslt
      (List.forall_mem_cons.mpr ⟨hi, hs.resolved_lt⟩) (fun j hj => ?_) (fun b' hb' => ?_)
      (hknow ▸ hinfer.founded hs.founded)
    · simp [hj]
    · obtain rfl : b' = b := Option.some.inj (hb'.symm.trans hb)
      exact {
        refines := fun b₀ hb₀ => { hold.refines b₀ hb₀ with count := fun h => absurd h (by simp) }
        degree := hold.degree
        degree_sealed := hold.degree_sealed
        onUnresolved := by simp [hmem]
        onResolved := by simp
        waiting := fun h => absurd h (by simp)
        known := fun _ => rfl
        ready := fun _ h => absurd h (by simp)
        active := fun _ _ _ => .inl rfl }

end Invariant

/-! ### Giving a count to an arc -/

namespace Invariant

/-- The one arc that is left on a side. -/
theorem exists_last (hs : Invariant g due s) (hg : g.Linked) {b : Block} {t : Side}
    (hb : s.graph.blocks[i]? = some b) (hp : b.pending t = 1) :
    ∃ id arc, lastUnresolved? s.graph (b.arcsOn t) = some id ∧ s.graph.arcs[id]? = some arc
      ∧ arc.nearEnd t = i ∧ id ∈ g.side i t ∧ s.graph.knowledge.arc id = none
      ∧ ∀ other ∈ g.side i t, other ≠ id → s.graph.knowledge.arc other ≠ none := by
  obtain ⟨-, hone⟩ := (hs.block i b hb).countP_of_pending 1 hp (by decide)
  rw [List.countP_eq_length_filter, List.length_eq_one_iff] at hone
  obtain ⟨id, hid⟩ := hone
  have hmem : id ∈ (g.side i t).filter s.graph.isOpen := hid ▸ List.mem_singleton_self id
  obtain ⟨hside, hopen⟩ := List.mem_filter.mp hmem
  obtain ⟨arc, harc, hend⟩ := hs.exists_arc hg hside
  refine ⟨id, arc, ?_, harc, hend, hside, (isOpen_eq_true_iff harc).mp hopen, ?_⟩
  · rw [hs.arcsOn_eq hb]
    show ((g.side i t).filter s.graph.isOpen).getLast? = some id
    rw [hid, List.getLast?_singleton]
  · intro other hother hne hnone
    obtain ⟨a, ha, -⟩ := hs.exists_arc hg hother
    have : other ∈ (g.side i t).filter s.graph.isOpen :=
      List.mem_filter.mpr ⟨hother, (isOpen_eq_true_iff ha).mpr hnone⟩
    rw [hid] at this
    exact hne (List.mem_singleton.mp this)

theorem mem_side_iff (hs : Invariant g due s) (hg : g.Linked) {id : Nat} {arc : Arc}
    (harc : s.graph.arcs[id]? = some arc) (j : Nat) (u : Side) :
    id ∈ g.side j u ↔ arc.nearEnd u = j := by
  obtain ⟨a₀, ha₀, href⟩ := hs.refines.exists_arc_of harc
  rw [hg.mem_side, href.nearEnd]
  constructor
  · rintro ⟨a, ha, hend⟩
    rw [ha₀, Option.some.injEq] at ha
    rw [ha, hend]
  · exact fun hend => ⟨a₀, ha₀, hend⟩

/-- An unresolved arc does not stand on a side with an implicit edge. -/
theorem not_sealed (hs : Invariant g due s) (hg : g.Linked) {id : Nat} {arc : Arc}
    (harc : s.graph.arcs[id]? = some arc) (hunknown : s.graph.knowledge.arc id = none) (u : Side) :
    ¬ g.Sealed (arc.nearEnd u) u := by
  rintro ⟨-, -, hopen⟩
  obtain ⟨a₀, ha₀, href⟩ := hs.refines.exists_arc_of harc
  have hres : a₀.resolved = false := by
    rw [knowledge_arc_eq_none_iff harc] at hunknown
    rcases href with rfl | ⟨hres, -⟩
    · exact hunknown
    · exact hres
  refine List.countP_eq_zero.mp hopen id ((hs.mem_side_iff hg harc _ u).mpr rfl) ?_
  rw [isOpen_eq_true_iff ha₀, knowledge_arc_eq_none_iff ha₀, hres]

/-- What is due on the sides of blocks after the last arc on the side `t` of a block got a count:
nothing there any more, but the far end of the arc may have to be put back to work. -/
def DueAfter (due : Nat → Side → Prop) (arc : Arc) (t : Side) : Nat → Side → Prop :=
  fun j u => Without due (arc.nearEnd t) t j u ∨ (j = arc.farEnd t ∧ u = t.opposite)

/-- A block keeps its invariant when the last arc on a side gets a count. -/
theorem block_resolve (hs : Invariant g due s) (hg : g.Linked) {id : Nat} {arc : Arc} {t : Side}
    {c : Int} (harc : s.graph.arcs[id]? = some arc) (hunknown : s.graph.knowledge.arc id = none)
    (hvalid : ∀ b, s.graph.blocks[arc.nearEnd t]? = some b → b.countValid = true)
    (hlast : ∀ b, s.graph.blocks[arc.nearEnd t]? = some b → b.pending t = 1) {j : Nat} {b' : Block}
    (hb' : (s.graph.resolve id arc t c).blocks[j]? = some b') :
    BlockInvariant g (s.graph.resolve id arc t c) s.unresolved s.resolved (DueAfter due arc t) j
      b' := by
  obtain ⟨b, hb, rfl⟩ := resolve_block hb'
  have hold := hs.block j b hb
  have hopen : s.graph.isOpen id = true := (isOpen_eq_true_iff harc).mpr hunknown
  have hmem : ∀ u, id ∈ g.side j u ↔ arc.nearEnd u = j := fun u => hs.mem_side_iff hg harc j u
  have hpending : ∀ u, Block.pending
      { b with
        pendingOut := b.pendingOut - (if arc.src = j then 1 else 0)
        pendingIn := b.pendingIn - (if arc.dst = j then 1 else 0) } u
      = b.pending u - (if arc.nearEnd u = j then 1 else 0) := by
    intro u
    cases u <;> rfl
  -- where the arc does not end, sides are as pending, and as due, as they were
  have hdue : ∀ u, arc.nearEnd u ≠ j → due j u → DueAfter due arc t j u := by
    intro u hne hdue
    refine .inl ⟨hdue, ?_⟩
    rintro ⟨rfl, rfl⟩
    exact hne rfl
  have hfar : ∀ u, arc.nearEnd u = j → u ≠ t → DueAfter due arc t j u := by
    intro u hend hu
    obtain rfl := Side.eq_opposite hu
    exact .inr ⟨by rw [← hend, Arc.nearEnd_opposite], rfl⟩
  refine {
    refines := fun b₀ hb₀ =>
      { arcsOn := fun u => by
          rw [← (hold.refines b₀ hb₀).arcsOn u]
          cases u <;> rfl
        lines := (hold.refines b₀ hb₀).lines
        callSite := (hold.refines b₀ hb₀).callSite
        count := (hold.refines b₀ hb₀).count }
    degree := fun u hu => ?_
    degree_sealed := fun u hu => ?_
    onUnresolved := hold.onUnresolved
    onResolved := hold.onResolved
    waiting := hold.waiting
    known := hold.known
    ready := fun u hv hp => ?_
    active := fun u hv hp => ?_ }
  · rw [hpending, hold.degree u hu, countP_resolve_isOpen hopen (hg.nodup j u)]
    simp only [hmem]
  · have hne : arc.nearEnd u ≠ j := fun heq => hs.not_sealed hg harc hunknown u (heq ▸ hu)
    rw [hpending, hold.degree_sealed u hu, if_neg hne, Int.sub_zero]
  · rw [hpending] at hp
    by_cases hend : arc.nearEnd u = j
    · refine .inr (hfar u hend ?_)
      rintro rfl
      exact absurd hv (by simp [hvalid b (hend ▸ hb)])
    · rw [if_neg hend, Int.sub_zero] at hp
      exact (hold.ready u hv hp).imp_right (hdue u hend)
  · rw [hpending] at hp
    by_cases hend : arc.nearEnd u = j
    · refine .inr (hfar u hend ?_)
      rintro rfl
      rw [if_pos hend, hlast b (hend ▸ hb)] at hp
      exact absurd hp (by decide)
    · rw [if_neg hend, Int.sub_zero] at hp
      exact (hold.active u hv hp).imp_right (hdue u hend)

/-- Giving a count to the last arc on a side keeps the invariant, but for the far end of the arc,
which may have to be put back to work. -/
theorem resolve (hs : Invariant g due s) (hg : g.Linked) {id : Nat} {arc : Arc} {t : Side}
    {c : Int} (harc : s.graph.arcs[id]? = some arc) (hunknown : s.graph.knowledge.arc id = none)
    (hvalid : ∀ b, s.graph.blocks[arc.nearEnd t]? = some b → b.countValid = true)
    (hlast : ∀ b, s.graph.blocks[arc.nearEnd t]? = some b → b.pending t = 1)
    (hfounded : (s.graph.resolve id arc t c).knowledge.Founded g) :
    Invariant g (DueAfter due arc t) { s with graph := s.graph.resolve id arc t c } where
  size := by
    have hsize := hs.size
    simpa [FlowGraph.resolve, FlowGraph.size, FlowGraph.mapBlock] using hsize
  arcs_size := by simp [FlowGraph.resolve, FlowGraph.mapArc, hs.arcs_size]
  arc j a a' ha ha' := by
    simp only [FlowGraph.resolve, mapBlock_arcs, getElem?_mapArc] at ha'
    split at ha'
    · next heq =>
      subst heq
      rw [harc, Option.map_some, Option.some.injEq] at ha'
      subst ha'
      rw [knowledge_arc_eq_none_iff harc] at hunknown
      rcases hs.arc id a arc ha harc with rfl | ⟨-, c', rfl⟩
      · exact .inr ⟨hunknown, c, rfl⟩
      · exact absurd hunknown (by simp)
    · exact hs.arc j a a' ha ha'
  block j b' hb' := hs.block_resolve hg harc hunknown hvalid hlast hb'
  unresolved_lt := hs.unresolved_lt
  resolved_lt := hs.resolved_lt
  unresolved_nodup := hs.unresolved_nodup
  resolved_nodup := hs.resolved_nodup
  founded := hfounded

/-- Going over a side of a known block keeps the invariant; the side is due no longer, and at most
an arc on it was concluded. -/
theorem settleSide (hs : Invariant g due s) (hg : g.Linked) {c : Int}
    (hknown : s.graph.knowledge.block i = some c) (t : Side) :
    ∃ s', settleSide s i t = .ok s' ∧ Invariant g (Without due i t) s'
      ∧ Derives g s.graph.knowledge s'.graph.knowledge := by
  obtain ⟨b, hb, hvalid, hcount⟩ := exists_block_of_knowledge hknown
  unfold Solver.settleSide
  rw [hb]
  dsimp only
  split
  · next hp =>
    obtain ⟨id, arc, hid, harc, rfl, hmem, hunknown, hothers⟩ := hs.exists_last hg hb hp
    rw [hid]
    dsimp only
    rw [harc]
    dsimp only [resolveArc]
    set count := leftOver s.graph b.count (b.arcsOn t) with hleft
    have hcount' : count = c - s.graph.knowledge.sum (g.side (arc.nearEnd t) t) := by
      rw [hleft, leftOver, total_filter_resolved, hs.arcsOn_eq hb, hcount]
    have hinfer := Infers.arc hknown hmem hunknown hothers
    rw [← hcount', ← knowledge_resolve harc (t := t)] at hinfer
    have hsettled := hs.resolve hg (c := count) harc hunknown
      (fun b' hb' => by rwa [Option.some.inj (hb'.symm.trans hb)])
      (fun b' hb' => by rwa [Option.some.inj (hb'.symm.trans hb)]) (hinfer.founded hs.founded)
    -- the far end of the arc is a block, which is put back to work
    have hlt : arc.farEnd t < g.size := by
      obtain ⟨a₀, ha₀, href⟩ := hs.refines.exists_arc_of harc
      rw [← Arc.nearEnd_opposite, href.nearEnd]
      exact hg.nearEnd_lt ha₀ _
    obtain ⟨target, htarget⟩ := exists_block
      (g := (s.graph.mapArc id fun arc => { arc with count, resolved := true }).mapBlock
        (arc.nearEnd t) (·.mapPending t (· - 1)))
      (i := arc.farEnd t)
      (lt_of_lt_of_eq hlt ((mapBlock_size _ _ _).trans hs.size).symm)
    rw [htarget]
    have hfar : (s.graph.resolve id arc t count).blocks[arc.farEnd t]?
        = some (target.mapPending t.opposite (· - 1)) := by
      rw [FlowGraph.resolve, getElem?_mapBlock, if_pos rfl, htarget, Option.map_some]
    obtain ⟨hrequeue, hknow⟩ := hsettled.requeue hfar t.opposite
    rw [Block.mapPending_pending, if_pos rfl] at hrequeue hknow
    rw [← hknow] at hinfer
    refine ⟨_, rfl, hrequeue.mono ?_, .single hinfer⟩
    rintro j u ⟨hdue | hdue, hne⟩
    · exact hdue
    · exact absurd hdue hne
  · next hp =>
    refine ⟨s, rfl, hs.without fun b' hb' => ?_, .refl⟩
    obtain rfl : b' = b := Option.some.inj (hb'.symm.trans hb)
    exact ⟨fun hv => absurd (hvalid.symm.trans hv) (by simp), fun _ h => absurd h hp⟩

/-- Off its stack, a block with a count is due on both sides. -/
theorem unmark {h : FlowGraph} {us rs : List Nat} {focus : Stack}
    (hs : Invariant g (fun _ _ => False) ⟨h, us, i :: rs, focus⟩) (focus' : Stack) :
    Invariant g (fun j _ => j = i) (unmark ⟨h, us, rs, focus'⟩ i)
      ∧ (Solver.unmark ⟨h, us, rs, focus'⟩ i).graph.knowledge = h.knowledge
      ∧ ∃ c, h.knowledge.block i = some c := by
  have hi : i < g.size := hs.resolved_lt i List.mem_cons_self
  obtain ⟨b, hb⟩ := exists_block (g := h) (hs.size.symm ▸ hi)
  have hold := hs.block i b hb
  have hvalid : b.countValid = true := hold.known (hold.onResolved.mp List.mem_cons_self)
  obtain ⟨hmem, hnodup⟩ := List.nodup_cons.mp hs.resolved_nodup
  have hknow : (h.mapBlock i fun b => { b with onResolved := false }).knowledge = h.knowledge :=
    knowledge_mapBlock_of_eq (fun _ => rfl) fun _ => rfl
  have hfounded := hs.founded
  refine ⟨?_, hknow, b.count, knowledge_block_of_valid hb hvalid⟩
  refine hs.mapBlock hs.unresolved_nodup hnodup hs.unresolved_lt
    (fun j hj => hs.resolved_lt j (List.mem_cons_of_mem _ hj)) (fun j hj => ?_)
    (fun b' hb' => ?_) (by rw [hknow]; exact hfounded)
  · simp [hj]
  · obtain rfl : b' = b := Option.some.inj (hb'.symm.trans hb)
    exact { hold with
      refines := fun b₀ hb₀ => { hold.refines b₀ hb₀ with }
      degree := hold.degree
      onResolved := by simp [hmem]
      known := fun _ => hvalid
      ready := fun _ _ _ => .inr rfl
      active := fun _ _ _ => .inr rfl }

/-- Settling a block keeps the invariant, and at most it concludes arcs. -/
theorem settle {h : FlowGraph} {us rs : List Nat} {focus focus' : Stack}
    (hs : Invariant g (fun _ _ => False) ⟨h, us, i :: rs, focus⟩) (hg : g.Linked) :
    ∃ t, settle ⟨h, us, rs, focus'⟩ i = .next t ∧ Invariant g (fun _ _ => False) t
      ∧ Derives g h.knowledge t.graph.knowledge := by
  obtain ⟨htaken, hknow, c, hknown⟩ := hs.unmark focus'
  obtain ⟨half, hhalf, hinv, hder⟩ := htaken.settleSide hg (hknow.symm ▸ hknown) .exits
  rw [hknow] at hder
  obtain ⟨t, ht, hinv', hder'⟩ := hinv.settleSide hg (hder.extends.block i _ hknown) .entries
  refine ⟨t, ?_, hinv'.mono ?_, hder.trans hder'⟩
  · rw [settle_eq, hhalf]
    dsimp only
    rw [ht]
  · rintro j u ⟨⟨rfl, hexits⟩, hentries⟩
    cases u with
    | exits => exact hexits ⟨rfl, rfl⟩
    | entries => exact hentries ⟨rfl, rfl⟩

/-! ### Steps and runs -/

/-- A step keeps the invariant and draws conclusions, or both stacks are empty and the solver
stops without a fault. -/
theorem step (hs : Invariant g (fun _ _ => False) s) (hg : g.Linked) :
    (∃ t, step s = .next t ∧ Invariant g (fun _ _ => False) t
      ∧ Derives g s.graph.knowledge t.graph.knowledge)
    ∨ (s.unresolved = [] ∧ s.resolved = [] ∧ step s = .stop { graph := s.graph }) := by
  rcases s with ⟨h, _ | ⟨i, us⟩, _ | ⟨j, rs⟩, _ | _⟩
  case nil.nil.unresolved => exact .inr ⟨rfl, rfl, rfl⟩
  case nil.nil.resolved => exact .inr ⟨rfl, rfl, rfl⟩
  case nil.cons.unresolved => exact .inl (hs.settle hg)
  case nil.cons.resolved => exact .inl (hs.settle hg)
  case cons.nil.unresolved => exact .inl (hs.visit hg)
  case cons.nil.resolved => exact .inl (hs.visit hg)
  case cons.cons.unresolved => exact .inl (hs.visit hg)
  case cons.cons.resolved => exact .inl (hs.settle hg)

/-- The invariant holds of every state that a run passes through, and what is known there was
concluded. -/
theorem of_reaches (hs : Invariant g (fun _ _ => False) s) (hg : g.Linked) {t : State}
    (h : machine.Reaches s t) : Invariant g (fun _ _ => False) t
      ∧ Derives g s.graph.knowledge t.graph.knowledge := by
  induction h with
  | start => exact ⟨hs, .refl⟩
  | @step t u _ hstep ih =>
    obtain ⟨ht, hder⟩ := ih
    change Solver.step t = .next u at hstep
    rcases ht.step hg with ⟨u', hnext, hu, hlast⟩ | ⟨-, -, hstop⟩
    · rw [hstep] at hnext
      cases hnext
      exact ⟨hu, hder.trans hlast⟩
    · rw [hstep] at hstop
      cases hstop

/-- A run ends without a fault, with both stacks empty; it has drawn conclusions only. -/
theorem run (hs : Invariant g (fun _ _ => False) s) (hg : g.Linked) :
    ∃ t : State, machine.Reaches s t ∧ machine.run s = { graph := t.graph }
      ∧ Invariant g (fun _ _ => False) t ∧ t.unresolved = [] ∧ t.resolved = []
      ∧ Derives g s.graph.knowledge t.graph.knowledge := by
  obtain ⟨t, hreach, hstop⟩ := machine.exists_reaches_stop s
  obtain ⟨ht, hder⟩ := hs.of_reaches hg hreach
  change Solver.step t = .stop (machine.run s) at hstop
  rcases ht.step hg with ⟨u, hnext, -, -⟩ | ⟨hus, hrs, hend⟩
  · rw [hstop] at hnext
    cases hnext
  · rw [hstop] at hend
    exact ⟨t, hreach, by simpa using hend, ht, hus, hrs, hder⟩

end Invariant

/-! ### The start -/

/-- A block at the start: it waits for a count, and implicit edges are counted in. -/
def begun (g : FlowGraph) (i : Nat) (b : Block) : Block :=
  { b with
    pendingOut := if 2 ≤ g.size ∧ i = g.size - 1 then sealDegree b.pendingOut else b.pendingOut
    pendingIn := if 2 ≤ g.size ∧ i = 0 then sealDegree b.pendingIn else b.pendingIn
    onUnresolved := true }

theorem start_block (g : FlowGraph) (i : Nat) :
    (State.start g).graph.blocks[i]? = (g.blocks[i]?).map (begun g i) := by
  have hqueue : ∀ h : FlowGraph, (queueAll h).blocks[i]?
      = (h.blocks[i]?).map fun b => { b with onUnresolved := true } := by
    intro h
    simp [queueAll]
  rw [State.start, hqueue]
  unfold sealEnds
  split
  · next htwo =>
    rw [getElem?_mapBlock, getElem?_mapBlock]
    cases hb : g.blocks[i]? with
    | none => simp
    | some b =>
      by_cases h0 : i = 0
      · subst h0
        have hne : g.size - 1 ≠ 0 := by omega
        simp [begun, htwo, hne, hne.symm, Block.mapPending]
      · by_cases hlast : g.size - 1 = i
        · simp [begun, htwo, h0, hlast, Ne.symm h0, Block.mapPending]
        · simp [begun, h0, hlast, Ne.symm h0, Ne.symm hlast]
  · next htwo =>
    cases hb : g.blocks[i]? <;> simp [begun, htwo]

theorem start_knowledge (g : FlowGraph) : (State.start g).graph.knowledge = g.knowledge := by
  refine Knowledge.ext ?_ (funext fun i => ?_)
  · simp only [knowledge, start_arcs]
  · simp only [knowledge, start_block]
    cases g.blocks[i]? <;> rfl

theorem begun_pending (g : FlowGraph) (i : Nat) (b : Block) (t : Side) :
    (begun g i b).pending t =
      if 2 ≤ g.size ∧ ((i = 0 ∧ t = .entries) ∨ (i = g.size - 1 ∧ t = .exits))
      then sealDegree (b.pending t) else b.pending t := by
  cases t <;> simp [begun, Block.pending]

/-- On a side with an implicit edge the degree is the sentinel, on every other one it is that of the
graph. -/
theorem begun_degree (hg : g.Prepared) {b : Block} (hb : g.blocks[i]? = some b) (t : Side) :
    (begun g i b).pending t = if g.openDegree i t = 0 ∧ 2 ≤ g.size ∧
      ((i = 0 ∧ t = .entries) ∨ (i = g.size - 1 ∧ t = .exits)) then sentinelDegree
      else (g.openDegree i t : Int) := by
  rw [begun_pending, hg.pending i b t hb]
  by_cases hend : 2 ≤ g.size ∧ ((i = 0 ∧ t = .entries) ∨ (i = g.size - 1 ∧ t = .exits))
  · by_cases hopen : g.openDegree i t = 0
    · rw [if_pos hend, if_pos ⟨hopen, hend⟩, hopen]
      rfl
    · have hne : (g.openDegree i t : Int) ≠ 0 := by exact_mod_cast hopen
      rw [if_pos hend, if_neg fun h => hopen h.1, sealDegree, if_neg hne]
  · rw [if_neg hend, if_neg fun h => hend h.2]

/-- The state before the first step is as it should be. -/
theorem invariant_start (hg : g.Prepared) : Invariant g (fun _ _ => False) (State.start g) where
  size := by
    simp only [State.start, queueAll, FlowGraph.size, List.size_toArray, List.length_map,
      Array.length_toList]
    unfold sealEnds
    split <;> simp [FlowGraph.mapBlock]
  arcs_size := by rw [start_arcs]
  arc id a a' ha ha' := by
    rw [start_arcs, ha, Option.some.injEq] at ha'
    exact .inl ha'.symm
  block i b' hb' := by
    rw [start_block] at hb'
    obtain ⟨b, hb, rfl⟩ := Option.map_eq_some_iff.mp hb'
    obtain ⟨-, hvalid, -, hresolved⟩ := hg.fresh i b hb
    have hopen : (State.start g).graph.isOpen = g.isOpen := by
      funext id
      simp only [isOpen, start_arcs]
    exact {
      refines := fun b₀ hb₀ => by
        obtain rfl : b₀ = b := Option.some.inj (hb₀.symm.trans hb)
        exact {
          arcsOn := fun t => by cases t <;> rfl
          lines := rfl
          callSite := rfl
          count := fun _ => rfl }
      degree := fun t ht => by
        rw [begun_degree hg hb, if_neg fun h => ht ⟨h.2.1, h.2.2, h.1⟩, openDegree, hopen]
      degree_sealed := fun t ht => by
        rw [begun_degree hg hb, if_pos ⟨ht.2.2, ht.1, ht.2.1⟩]
      onUnresolved := by
        have hi : i < g.size := lt_of_getElem? hb
        simp [State.start, begun, hi]
      onResolved := by simp [State.start, begun, hresolved]
      waiting := fun _ => hvalid
      known := fun h => absurd (hresolved.symm.trans h) (by simp)
      ready := fun _ _ _ => .inl rfl
      active := fun _ h _ => absurd (hvalid.symm.trans h) (by simp) }
  unresolved_lt := by simp [State.start]
  resolved_lt := by simp [State.start]
  unresolved_nodup := List.nodup_reverse.mpr List.nodup_range
  resolved_nodup := by simp [State.start]
  founded i c hc := by
    rw [start_knowledge] at hc
    obtain ⟨b, hb, hvalid, -⟩ := exists_block_of_knowledge hc
    simp [(hg.fresh i b hb).2.1] at hvalid

/-! ### The end -/

/-- With both stacks empty there is nothing left to conclude. -/
theorem Invariant.saturated (hs : Invariant g (fun _ _ => False) s) (hg : g.Linked)
    (hus : s.unresolved = []) (hrs : s.resolved = []) : Saturated g s.graph.knowledge := by
  rintro k' (@⟨i, t, hi, hsealed, hunknown, hknows⟩
    | @⟨i, t, id, c, hknown, hmem, hunknown, hothers⟩)
  · -- a block with a known side would wait for its count
    obtain ⟨b, hb⟩ := exists_block (g := s.graph) (hs.size.symm ▸ hi)
    have hold := hs.block i b hb
    have hvalid : b.countValid = false := by
      by_contra h
      simp only [Bool.not_eq_false] at h
      simp [knowledge_block_of_valid hb h] at hunknown
    have hzero : (g.side i t).countP s.graph.isOpen = 0 := by
      refine List.countP_eq_zero.mpr fun id hid hopen => ?_
      obtain ⟨a, ha, -⟩ := hs.exists_arc hg hid
      exact hknows id hid ((isOpen_eq_true_iff ha).mp hopen)
    have hp : b.pending t = 0 := by
      rw [hold.degree t hsealed, hzero]
      rfl
    rcases hold.ready t hvalid hp with h | h
    · have := hold.onUnresolved.mpr h
      simp [hus] at this
    · exact h
  · -- a known block with one unknown arc on a side would wait to give it a count
    obtain ⟨b, hb, hvalid, -⟩ := exists_block_of_knowledge hknown
    have hold := hs.block i b hb
    obtain ⟨arc, harc, rfl⟩ := hs.exists_arc hg hmem
    have hsealed := hs.not_sealed hg harc hunknown t
    have hfilter : ((g.side (arc.nearEnd t) t).filter s.graph.isOpen).Perm [id] := by
      refine (List.perm_ext_iff_of_nodup ((hg.nodup _ _).filter _)
        (List.nodup_singleton id)).mpr fun other => ?_
      rw [List.mem_filter, List.mem_singleton]
      constructor
      · rintro ⟨hother, hopen⟩
        obtain ⟨a, ha, -⟩ := hs.exists_arc hg hother
        by_contra hne
        exact hothers other hother hne ((isOpen_eq_true_iff ha).mp hopen)
      · rintro rfl
        exact ⟨hmem, (isOpen_eq_true_iff harc).mpr hunknown⟩
    have hp : b.pending t = 1 := by
      rw [hold.degree t hsealed, List.countP_eq_length_filter, hfilter.length_eq]
      rfl
    rcases hold.active t hvalid hp with h | h
    · have := hold.onResolved.mpr h
      simp [hrs] at this
    · exact h

end Coverage.Solver

namespace Coverage

/-- What `h` is to `g` after all conclusions were drawn from what is known about `g`. -/
structure Solved (g h : FlowGraph) : Prop where
  refines : g.Refines h
  derives : Derives g g.knowledge h.knowledge
  saturated : Saturated g h.knowledge

open Solver in
/-- A prepared graph is solved without a fault. -/
theorem solve_spec {g : FlowGraph} (hg : g.Prepared) :
    g.solve.fault = none ∧ Solved g g.solve.graph := by
  obtain ⟨t, -, hrun, hinv, hus, hrs, hder⟩ := (invariant_start hg).run hg.linked
  have hsolve : g.solve = { graph := t.graph } := hrun
  rw [hsolve]
  rw [start_knowledge] at hder
  exact ⟨rfl, hinv.refines, hder, hinv.saturated hg.linked hus hrs⟩

end Coverage
