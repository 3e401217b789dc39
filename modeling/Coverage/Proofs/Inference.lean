import Coverage.FlowGraph
import Mathlib.Data.List.Nodup
import Mathlib.Logic.Function.Basic
import Mathlib.Logic.Relation
import Mathlib.Tactic.Common

/-!
# Inference of counts

What may be concluded about the counts of a flow graph, whatever the order in which it is done.
Some arcs and some blocks have a known count (`Knowledge`), and there are two rules (`Infers`): a
block has the count that passes through a side of which all arcs are known, and the only unknown
arc on a side of a known block has what the others leave over.  The sides that an implicit edge
belongs to do not count for the first rule.

* `Derives.agrees` — conclusions agree with every flow that the premises agree with;
* `Derives.owned` — every concluded arc balances a block of its own.
-/

namespace Coverage

/-- The end of an arc at which it stands on the given side. -/
def Arc.nearEnd (arc : Arc) : Side → Nat
  | .exits => arc.src
  | .entries => arc.dst

theorem Side.eq_opposite {s t : Side} (h : t ≠ s) : t = s.opposite := by
  cases s <;> cases t <;> simp_all [Side.opposite]

@[simp] theorem Arc.nearEnd_opposite (arc : Arc) (s : Side) :
    arc.nearEnd s.opposite = arc.farEnd s := by
  cases s <;> rfl

/-! ## Graphs -/

namespace FlowGraph

/-- The arcs on a side of a block. -/
def side (g : FlowGraph) (i : Nat) (s : Side) : List Nat :=
  match g.blocks[i]? with
  | some block => block.arcsOn s
  | none => []

theorem side_of_getElem? {g : FlowGraph} {i : Nat} {b : Block} (h : g.blocks[i]? = some b)
    (s : Side) : g.side i s = b.arcsOn s := by
  simp [side, h]

theorem lt_size_of_mem_side {g : FlowGraph} {i id : Nat} {s : Side} (h : id ∈ g.side i s) :
    i < g.size := by
  unfold side at h
  split at h
  · next hb => exact (Array.getElem?_eq_some_iff.mp hb).1
  · cases h

/-- Every arc stands once on the exit side of its source and once on the entry side of its
destination, and sides hold nothing else. -/
structure Linked (g : FlowGraph) : Prop where
  nodup : ∀ i s, (g.side i s).Nodup
  mem_side : ∀ i s id, id ∈ g.side i s ↔ ∃ arc, g.arcs[id]? = some arc ∧ arc.nearEnd s = i

/-- An arc of the graph whose count is not known. -/
def isOpen (g : FlowGraph) (id : Nat) : Bool :=
  (g.arcs[id]?).any (!·.resolved)

/-- The number of unresolved arcs on a side. -/
def openDegree (g : FlowGraph) (i : Nat) (s : Side) : Nat :=
  (g.side i s).countP g.isOpen

/-- A side that an implicit edge belongs to, on which no arc is unresolved: the entries of the
first block, and the exits of the last. -/
def Sealed (g : FlowGraph) (i : Nat) (s : Side) : Prop :=
  2 ≤ g.size ∧ ((i = 0 ∧ s = .entries) ∨ (i = g.size - 1 ∧ s = .exits)) ∧ g.openDegree i s = 0

/-- At least two blocks, no arc into the first one, and none out of the last one. -/
structure HasEnds (g : FlowGraph) : Prop where
  two_le : 2 ≤ g.size
  no_entry : ∀ (id : Nat) (arc : Arc), g.arcs[id]? = some arc → arc.dst ≠ 0
  no_exit : ∀ (id : Nat) (arc : Arc), g.arcs[id]? = some arc → arc.src ≠ g.size - 1

variable {g : FlowGraph}

theorem Linked.nearEnd_lt (hg : g.Linked) {id : Nat} {arc : Arc} (h : g.arcs[id]? = some arc)
    (s : Side) : arc.nearEnd s < g.size :=
  lt_size_of_mem_side ((hg.mem_side _ s id).mpr ⟨arc, h, rfl⟩)

theorem HasEnds.entries_zero (hends : g.HasEnds) (hg : g.Linked) : g.side 0 .entries = [] := by
  refine List.eq_nil_iff_forall_not_mem.mpr fun id hid => ?_
  obtain ⟨arc, harc, hend⟩ := (hg.mem_side _ _ _).mp hid
  exact hends.no_entry id arc harc hend

theorem HasEnds.exits_last (hends : g.HasEnds) (hg : g.Linked) :
    g.side (g.size - 1) .exits = [] := by
  refine List.eq_nil_iff_forall_not_mem.mpr fun id hid => ?_
  obtain ⟨arc, harc, hend⟩ := (hg.mem_side _ _ _).mp hid
  exact hends.no_exit id arc harc hend

/-- A side with an implicit edge is one that has no arcs. -/
theorem HasEnds.sealed_iff (hends : g.HasEnds) (hg : g.Linked) (i : Nat) (s : Side) :
    g.Sealed i s ↔ (i = 0 ∧ s = .entries) ∨ (i = g.size - 1 ∧ s = .exits) := by
  refine ⟨fun h => h.2.1, fun h => ⟨hends.two_le, h, ?_⟩⟩
  rcases h with ⟨rfl, rfl⟩ | ⟨rfl, rfl⟩
  · simp [openDegree, hends.entries_zero hg]
  · simp [openDegree, hends.exits_last hg]

theorem HasEnds.not_sealed_of_mem (hends : g.HasEnds) (hg : g.Linked) {i id : Nat} {s : Side}
    (h : id ∈ g.side i s) : ¬ g.Sealed i s := by
  rw [hends.sealed_iff hg]
  rintro (⟨rfl, rfl⟩ | ⟨rfl, rfl⟩)
  · simp [hends.entries_zero hg] at h
  · simp [hends.exits_last hg] at h

end FlowGraph

/-! ## Knowledge -/

/-- The counts that are known. -/
@[ext] structure Knowledge where
  arc : Nat → Option Int
  block : Nat → Option Int

/-- The counts that a graph holds as known. -/
def FlowGraph.knowledge (g : FlowGraph) : Knowledge where
  arc id := (g.arcs[id]?).bind fun a => if a.resolved then some a.count else none
  block i := (g.blocks[i]?).bind fun b => if b.countValid then some b.count else none

namespace Knowledge

/-- All of some arcs are known. -/
def Knows (k : Knowledge) (ids : List Nat) : Prop :=
  ∀ id ∈ ids, k.arc id ≠ none

/-- The sum over the known ones of some arcs. -/
def sum (k : Knowledge) (ids : List Nat) : Int :=
  total (fun id => (k.arc id).getD 0) ids

/-- Learns the count of an arc. -/
def setArc (k : Knowledge) (id : Nat) (count : Int) : Knowledge :=
  { k with arc := Function.update k.arc id (some count) }

/-- Learns the count of a block. -/
def setBlock (k : Knowledge) (i : Nat) (count : Int) : Knowledge :=
  { k with block := Function.update k.block i (some count) }

@[simp] theorem setArc_block (k : Knowledge) (id : Nat) (c : Int) :
    (k.setArc id c).block = k.block := rfl

@[simp] theorem setBlock_arc (k : Knowledge) (i : Nat) (c : Int) :
    (k.setBlock i c).arc = k.arc := rfl

@[simp] theorem setBlock_sum (k : Knowledge) (i : Nat) (c : Int) (ids : List Nat) :
    (k.setBlock i c).sum ids = k.sum ids := rfl

theorem setArc_arc (k : Knowledge) (id other : Nat) (c : Int) :
    (k.setArc id c).arc other = if other = id then some c else k.arc other := by
  simp [setArc, Function.update_apply]

theorem setBlock_block (k : Knowledge) (i j : Nat) (c : Int) :
    (k.setBlock i c).block j = if j = i then some c else k.block j := by
  simp [setBlock, Function.update_apply]

theorem setArc_sum_of_not_mem (k : Knowledge) {id : Nat} (c : Int) {ids : List Nat}
    (h : id ∉ ids) : (k.setArc id c).sum ids = k.sum ids := by
  induction ids with
  | nil => rfl
  | cons a ids ih =>
    simp only [List.mem_cons, not_or] at h
    have ih := ih h.2
    simp only [sum, total_cons, setArc_arc, if_neg (Ne.symm h.1)] at ih ⊢
    rw [ih]

/-- An arc that was unknown adds its count to the sum. -/
theorem setArc_sum_of_mem (k : Knowledge) {id : Nat} (c : Int) {ids : List Nat}
    (hnodup : ids.Nodup) (h : id ∈ ids) (hnone : k.arc id = none) :
    (k.setArc id c).sum ids = k.sum ids + c := by
  induction ids with
  | nil => cases h
  | cons a ids ih =>
    obtain ⟨hmem, hnodup⟩ := List.nodup_cons.mp hnodup
    rcases List.mem_cons.mp h with rfl | h
    · have := setArc_sum_of_not_mem k c hmem
      simp only [sum, total_cons, setArc_arc] at this ⊢
      simp [this, hnone, Int.add_comm]
    · have hne : a ≠ id := by
        rintro rfl
        exact hmem h
      have := ih hnodup h
      simp only [sum, total_cons, setArc_arc, if_neg hne] at this ⊢
      rw [this, Int.add_assoc]

/-- What is known stays known. -/
structure Extends (k k' : Knowledge) : Prop where
  arc : ∀ id c, k.arc id = some c → k'.arc id = some c
  block : ∀ i c, k.block i = some c → k'.block i = some c

theorem Extends.refl (k : Knowledge) : k.Extends k :=
  ⟨fun _ _ h => h, fun _ _ h => h⟩

theorem Extends.trans {k₁ k₂ k₃ : Knowledge} (h : k₁.Extends k₂) (h' : k₂.Extends k₃) :
    k₁.Extends k₃ :=
  ⟨fun id c hk => h'.arc id c (h.arc id c hk), fun i c hk => h'.block i c (h.block i c hk)⟩

theorem Extends.arc_ne_none {k k' : Knowledge} (h : k.Extends k') {id : Nat}
    (hk : k.arc id ≠ none) : k'.arc id ≠ none := by
  obtain ⟨c, hc⟩ := Option.ne_none_iff_exists'.mp hk
  simp [h.arc id c hc]

theorem Knows.mono {k k' : Knowledge} {ids : List Nat} (h : k.Knows ids) (hext : k.Extends k') :
    k'.Knows ids :=
  fun id hid => hext.arc_ne_none (h id hid)

/-- Sums of known arcs do not change. -/
theorem Extends.sum_eq {k k' : Knowledge} (hext : k.Extends k') {ids : List Nat}
    (h : k.Knows ids) : k'.sum ids = k.sum ids := by
  induction ids with
  | nil => rfl
  | cons a ids ih =>
    obtain ⟨c, hc⟩ := Option.ne_none_iff_exists'.mp (h a List.mem_cons_self)
    have ih := ih fun id hid => h id (List.mem_cons_of_mem _ hid)
    simp only [sum, total_cons] at ih ⊢
    rw [ih, hc, hext.arc a c hc]

end Knowledge

/-! ## Rules -/

/-- One conclusion from what is known about a graph. -/
inductive Infers (g : FlowGraph) (k : Knowledge) : Knowledge → Prop
  /-- A block has the count that passes through a side of which all arcs are known. -/
  | block {i : Nat} {s : Side} (lt : i < g.size) (notSealed : ¬ g.Sealed i s)
      (unknown : k.block i = none) (knows : k.Knows (g.side i s)) :
      Infers g k (k.setBlock i (k.sum (g.side i s)))
  /-- The only unknown arc on a side of a known block has what the others leave over. -/
  | arc {i : Nat} {s : Side} {id : Nat} {c : Int} (known : k.block i = some c)
      (mem : id ∈ g.side i s) (unknown : k.arc id = none)
      (others : ∀ other ∈ g.side i s, other ≠ id → k.arc other ≠ none) :
      Infers g k (k.setArc id (c - k.sum (g.side i s)))

/-- Any number of conclusions, one after another. -/
abbrev Derives (g : FlowGraph) : Knowledge → Knowledge → Prop :=
  Relation.ReflTransGen (Infers g)

/-- Nothing more can be concluded. -/
def Saturated (g : FlowGraph) (k : Knowledge) : Prop :=
  ∀ k', ¬ Infers g k k'

variable {g : FlowGraph} {k₀ k k' : Knowledge}

theorem Infers.extends (h : Infers g k k') : k.Extends k' := by
  cases h with
  | block _ _ unknown _ =>
    refine ⟨fun _ _ h => h, fun j c hj => ?_⟩
    rw [Knowledge.setBlock_block, if_neg]
    · exact hj
    · rintro rfl
      simp [hj] at unknown
  | arc _ _ unknown _ =>
    refine ⟨fun other c hother => ?_, fun _ _ h => h⟩
    rw [Knowledge.setArc_arc, if_neg]
    · exact hother
    · rintro rfl
      simp [hother] at unknown

theorem Derives.extends (h : Derives g k k') : k.Extends k' := by
  induction h with
  | refl => exact .refl _
  | tail _ hlast ih => exact ih.trans hlast.extends

/-! ## Agreement with flows -/

/-- A number for every arc, such that as much enters every block as leaves it.  The first block
and the last one are exempt. -/
def Conserved (g : FlowGraph) (f : Nat → Int) : Prop :=
  ∀ i, 0 < i → i < g.size - 1 → total f (g.side i .entries) = total f (g.side i .exits)

/-- The flow through a block: what leaves it, or for the last block what enters it. -/
def FlowGraph.throughput (g : FlowGraph) (f : Nat → Int) (i : Nat) : Int :=
  total f (g.side i (if i = g.size - 1 then .entries else .exits))

/-- What is known is as a flow has it. -/
structure Knowledge.Agrees (k : Knowledge) (g : FlowGraph) (f : Nat → Int) : Prop where
  arc : ∀ id c, k.arc id = some c → c = f id
  block : ∀ i c, k.block i = some c → c = g.throughput f i

/-- Every side but those with an implicit edge shows the flow through its block. -/
theorem Conserved.total_side {f : Nat → Int} (hf : Conserved g f) (hg : g.Linked)
    (hends : g.HasEnds) {i : Nat} {s : Side} (hi : i < g.size) (hs : ¬ g.Sealed i s) :
    total f (g.side i s) = g.throughput f i := by
  rw [hends.sealed_iff hg, not_or, not_and, not_and] at hs
  unfold FlowGraph.throughput
  split
  · next hlast =>
    cases s with
    | exits => exact absurd rfl (hs.2 hlast)
    | entries => rfl
  · next hlast =>
    cases s with
    | exits => rfl
    | entries =>
      have hpos : i ≠ 0 := fun h => hs.1 h rfl
      exact hf i (Nat.pos_of_ne_zero hpos) (by omega)

theorem Knowledge.Agrees.sum_eq {f : Nat → Int} (hk : k.Agrees g f) {ids : List Nat}
    (h : k.Knows ids) : k.sum ids = total f ids := by
  induction ids with
  | nil => rfl
  | cons a ids ih =>
    obtain ⟨c, hc⟩ := Option.ne_none_iff_exists'.mp (h a List.mem_cons_self)
    have ih := ih fun id hid => h id (List.mem_cons_of_mem _ hid)
    simp only [sum, total_cons] at ih ⊢
    rw [ih, hc, Option.getD_some, hk.arc a c hc]

/-- What the known arcs leave over of a whole is the flow over the arc that is left. -/
theorem Knowledge.Agrees.sum_add {f : Nat → Int} (hk : k.Agrees g f) {ids : List Nat} {id : Nat}
    (hnodup : ids.Nodup) (hid : id ∈ ids) (hnone : k.arc id = none)
    (h : ∀ other ∈ ids, other ≠ id → k.arc other ≠ none) : k.sum ids + f id = total f ids := by
  induction ids with
  | nil => cases hid
  | cons a ids ih =>
    obtain ⟨hmem, hnodup⟩ := List.nodup_cons.mp hnodup
    rcases List.mem_cons.mp hid with rfl | hid
    · have : k.sum ids = total f ids := hk.sum_eq fun other hother => by
        refine h other (List.mem_cons_of_mem _ hother) ?_
        rintro rfl
        exact hmem hother
      simp only [sum, total_cons] at this ⊢
      rw [this, hnone, Option.getD_none, Int.zero_add, Int.add_comm]
    · have hne : a ≠ id := by
        rintro rfl
        exact hmem hid
      obtain ⟨c, hc⟩ := Option.ne_none_iff_exists'.mp (h a List.mem_cons_self hne)
      have ih := ih hnodup hid fun other hother => h other (List.mem_cons_of_mem _ hother)
      simp only [sum, total_cons] at ih ⊢
      rw [hc, Option.getD_some, hk.arc a c hc, Int.add_assoc, ih]

/-- A conclusion agrees with every flow that the premises agree with. -/
theorem Infers.agrees {f : Nat → Int} (h : Infers g k k') (hg : g.Linked) (hends : g.HasEnds)
    (hf : Conserved g f) (hk : k.Agrees g f) : k'.Agrees g f := by
  cases h with
  | @block i s lt notSealed unknown knows =>
    refine ⟨hk.arc, fun j c hj => ?_⟩
    rw [Knowledge.setBlock_block] at hj
    split at hj
    · next heq =>
      obtain rfl := Option.some.inj hj
      rw [hk.sum_eq knows, heq, hf.total_side hg hends lt notSealed]
    · exact hk.block j c hj
  | @arc i s id whole known mem unknown others =>
    refine ⟨fun other c hother => ?_, hk.block⟩
    rw [Knowledge.setArc_arc] at hother
    split at hother
    · next heq =>
      obtain rfl := Option.some.inj hother
      have hsum := hk.sum_add (hg.nodup i s) mem unknown others
      have hside := hf.total_side hg hends (FlowGraph.lt_size_of_mem_side mem)
        (hends.not_sealed_of_mem hg mem)
      rw [hk.block i whole known, heq]
      omega
    · exact hk.arc other c hother

theorem Derives.agrees {f : Nat → Int} (h : Derives g k k') (hg : g.Linked) (hends : g.HasEnds)
    (hf : Conserved g f) (hk : k.Agrees g f) : k'.Agrees g f := by
  induction h with
  | refl => exact hk
  | tail _ hlast ih => exact hlast.agrees hg hends hf ih

/-! ## Balance -/

/-- A block both of whose sides are known and sum up to its count. -/
def Knowledge.Balanced (k : Knowledge) (g : FlowGraph) (i : Nat) : Prop :=
  ∃ c, k.block i = some c ∧ ∀ s, k.Knows (g.side i s) ∧ k.sum (g.side i s) = c

/-- Every known block has a side, not one with an implicit edge, that sums up to its count. -/
def Knowledge.Founded (k : Knowledge) (g : FlowGraph) : Prop :=
  ∀ i c, k.block i = some c →
    ∃ s, ¬ g.Sealed i s ∧ k.Knows (g.side i s) ∧ k.sum (g.side i s) = c

/-- Every arc that was concluded since `k₀` has a block of its own, at one of its ends, which is
balanced, and which no implicit edge enters or leaves across from the arc. -/
structure Knowledge.Owned (k : Knowledge) (g : FlowGraph) (k₀ : Knowledge) (owner : Nat → Nat) :
    Prop where
  balanced : ∀ id, k₀.arc id = none → k.arc id ≠ none →
    (∃ s, id ∈ g.side (owner id) s ∧ ¬ g.Sealed (owner id) s.opposite) ∧ k.Balanced g (owner id)
  injective : ∀ id id', k₀.arc id = none → k.arc id ≠ none → k₀.arc id' = none →
    k.arc id' ≠ none → owner id = owner id' → id = id'

theorem Knowledge.Balanced.mono {i : Nat} (h : k.Balanced g i) (hext : k.Extends k') :
    k'.Balanced g i := by
  obtain ⟨c, hc, hsides⟩ := h
  refine ⟨c, hext.block i c hc, fun s => ?_⟩
  obtain ⟨hknows, hsum⟩ := hsides s
  exact ⟨hknows.mono hext, (hext.sum_eq hknows).trans hsum⟩

/-- Arcs that were concluded have as many owners as there are of them. -/
theorem Knowledge.Owned.nodup_map {owner : Nat → Nat} (ho : k.Owned g k₀ owner) {ids : List Nat}
    (hnodup : ids.Nodup) (hconcluded : ∀ id ∈ ids, k₀.arc id = none ∧ k.arc id ≠ none) :
    (ids.map owner).Nodup := by
  refine List.Nodup.map_on (fun id hid id' hid' heq => ?_) hnodup
  obtain ⟨hopen, hknown⟩ := hconcluded id hid
  obtain ⟨hopen', hknown'⟩ := hconcluded id' hid'
  exact ho.injective id id' hopen hknown hopen' hknown' heq

theorem Infers.founded (h : Infers g k k') (hk : k.Founded g) : k'.Founded g := by
  have hext := h.extends
  intro i c hc
  have keep (hold : k.block i = some c) :
      ∃ s, ¬ g.Sealed i s ∧ k'.Knows (g.side i s) ∧ k'.sum (g.side i s) = c := by
    obtain ⟨s, hs, hknows, hsum⟩ := hk i c hold
    exact ⟨s, hs, hknows.mono hext, (hext.sum_eq hknows).trans hsum⟩
  cases h with
  | @block j s lt notSealed unknown knows =>
    rw [Knowledge.setBlock_block] at hc
    split at hc
    · next heq =>
      subst heq
      exact ⟨s, notSealed, knows, Option.some.inj hc⟩
    · exact keep hc
  | arc => exact keep hc

/-- Concluding an arc balances the block that it was concluded from. -/
theorem Knowledge.Founded.balanced_setArc (hg : g.Linked) (hk : k.Founded g) {i id : Nat}
    {s : Side} {c : Int} (known : k.block i = some c) (mem : id ∈ g.side i s)
    (unknown : k.arc id = none)
    (others : ∀ other ∈ g.side i s, other ≠ id → k.arc other ≠ none) :
    ¬ g.Sealed i s.opposite ∧ (k.setArc id (c - k.sum (g.side i s))).Balanced g i := by
  -- the side that the count of the block comes from is the other one
  obtain ⟨u, hsealed, hknows, hsum⟩ := hk i c known
  have hu : u ≠ s := by
    rintro rfl
    exact hknows id mem unknown
  obtain rfl := Side.eq_opposite hu
  refine ⟨hsealed, c, known, fun t => ?_⟩
  by_cases ht : t = s
  · subst ht
    refine ⟨fun other hother => ?_, ?_⟩
    · rw [Knowledge.setArc_arc]
      split
      · simp
      · next hne => exact others other hother hne
    · rw [Knowledge.setArc_sum_of_mem k _ (hg.nodup i t) mem unknown]
      omega
  · obtain rfl := Side.eq_opposite ht
    have hmem : id ∉ g.side i s.opposite := fun h => hknows id h unknown
    refine ⟨fun other hother => ?_, ?_⟩
    · have hne : other ≠ id := by
        rintro rfl
        exact hmem hother
      rw [Knowledge.setArc_arc, if_neg hne]
      exact hknows other hother
    · rw [Knowledge.setArc_sum_of_not_mem k _ hmem, hsum]

theorem Infers.owned (h : Infers g k k') (hg : g.Linked) (hk : k.Founded g) {owner : Nat → Nat}
    (ho : k.Owned g k₀ owner) : ∃ owner, k'.Owned g k₀ owner := by
  have hext := h.extends
  cases h with
  | block =>
    refine ⟨owner, fun id hid hid' => ?_, ho.injective⟩
    obtain ⟨hend, hbal⟩ := ho.balanced id hid hid'
    exact ⟨hend, hbal.mono hext⟩
  | @arc i s id c known mem unknown others =>
    obtain ⟨hsealed, hbal⟩ := hk.balanced_setArc hg known mem unknown others
    -- a block that owns an arc already has no unknown arcs
    have hfree : ∀ other, k₀.arc other = none → k.arc other ≠ none → owner other ≠ i := by
      rintro other h₀ h rfl
      obtain ⟨-, _, -, hsides⟩ := ho.balanced other h₀ h
      exact (hsides s).1 id mem unknown
    have hold : ∀ other, other ≠ id →
        (k.setArc id (c - k.sum (g.side i s))).arc other ≠ none → k.arc other ≠ none := by
      intro other hne h
      rwa [Knowledge.setArc_arc, if_neg hne] at h
    refine ⟨Function.update owner id i, fun other h₀ h => ?_, fun a b ha ha' hb hb' heq => ?_⟩
    · by_cases hne : other = id
      · subst hne
        rw [Function.update_self]
        exact ⟨⟨s, mem, hsealed⟩, hbal⟩
      · rw [Function.update_of_ne hne]
        obtain ⟨hend, hbal⟩ := ho.balanced other h₀ (hold other hne h)
        exact ⟨hend, hbal.mono hext⟩
    · by_cases hna : a = id <;> by_cases hnb : b = id
      · rw [hna, hnb]
      · subst hna
        rw [Function.update_self, Function.update_of_ne hnb] at heq
        exact absurd heq.symm (hfree b hb (hold b hnb hb'))
      · subst hnb
        rw [Function.update_self, Function.update_of_ne hna] at heq
        exact absurd heq (hfree a ha (hold a hna ha'))
      · rw [Function.update_of_ne hna, Function.update_of_ne hnb] at heq
        exact ho.injective a b ha (hold a hna ha') hb (hold b hnb hb') heq

/-- Every known block is founded on a side, and every arc that was concluded has a balanced block
of its own. -/
theorem Derives.owned (h : Derives g k k') (hg : g.Linked) (hk : k.Founded g) :
    k'.Founded g ∧ ∃ owner, k'.Owned g k owner := by
  induction h with
  | refl => exact ⟨hk, id, fun _ h h' => absurd h h', fun _ _ h h' => absurd h h'⟩
  | tail _ hlast ih =>
    obtain ⟨hfound, owner, ho⟩ := ih
    exact ⟨hlast.founded hfound, hlast.owned hg hfound ho⟩

end Coverage
