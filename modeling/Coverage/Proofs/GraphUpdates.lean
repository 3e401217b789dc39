import Coverage.Proofs.Inference

/-!
# Changes of flow graphs

What the solver may change in a graph (`FlowGraph.Refines`), what the single changes do to the
sides and to what is known, and what a graph has to be like before it is solved
(`FlowGraph.Prepared`).
-/

namespace Coverage

/-! ## Changes of a graph -/

namespace Block

@[simp] theorem mapPending_pending (b : Block) (s t : Side) (f : Int → Int) :
    (b.mapPending s f).pending t = if t = s then f (b.pending t) else b.pending t := by
  cases s <;> cases t <;> rfl

@[simp] theorem mapPending_arcsOn (b : Block) (s t : Side) (f : Int → Int) :
    (b.mapPending s f).arcsOn t = b.arcsOn t := by
  cases s <;> cases t <;> rfl

@[simp] theorem mapPending_lines (b : Block) (s : Side) (f : Int → Int) :
    (b.mapPending s f).lines = b.lines := by
  cases s <;> rfl

@[simp] theorem mapPending_callSite (b : Block) (s : Side) (f : Int → Int) :
    (b.mapPending s f).callSite = b.callSite := by
  cases s <;> rfl

@[simp] theorem mapPending_count (b : Block) (s : Side) (f : Int → Int) :
    (b.mapPending s f).count = b.count := by
  cases s <;> rfl

@[simp] theorem mapPending_countValid (b : Block) (s : Side) (f : Int → Int) :
    (b.mapPending s f).countValid = b.countValid := by
  cases s <;> rfl

@[simp] theorem mapPending_onUnresolved (b : Block) (s : Side) (f : Int → Int) :
    (b.mapPending s f).onUnresolved = b.onUnresolved := by
  cases s <;> rfl

@[simp] theorem mapPending_onResolved (b : Block) (s : Side) (f : Int → Int) :
    (b.mapPending s f).onResolved = b.onResolved := by
  cases s <;> rfl

/-- The work of the solver at a block: what the block is stays the same, and a count that is not
known is the one that stood there before. -/
structure Refines (b b' : Block) : Prop where
  arcsOn : ∀ s, b'.arcsOn s = b.arcsOn s
  lines : b'.lines = b.lines
  callSite : b'.callSite = b.callSite
  count : b'.countValid = false → b'.count = b.count

end Block

/-- The work of the solver at an arc: at most it gives a count to an unresolved one. -/
def Arc.Refines (a a' : Arc) : Prop :=
  a' = a ∨ (a.resolved = false ∧ ∃ c, a' = { a with count := c, resolved := true })

theorem Arc.Refines.nearEnd {a a' : Arc} (h : a.Refines a') (s : Side) :
    a'.nearEnd s = a.nearEnd s := by
  rcases h with rfl | ⟨-, c, rfl⟩
  · rfl
  · cases s <;> rfl

namespace FlowGraph

variable {g h : FlowGraph}

theorem getElem?_mapBlock (g : FlowGraph) (i j : Nat) (f : Block → Block) :
    (g.mapBlock i f).blocks[j]? = if i = j then (g.blocks[j]?).map f else g.blocks[j]? := by
  simp [mapBlock, Array.getElem?_modify]

theorem getElem?_mapArc (g : FlowGraph) (i j : Nat) (f : Arc → Arc) :
    (g.mapArc i f).arcs[j]? = if i = j then (g.arcs[j]?).map f else g.arcs[j]? := by
  simp [mapArc, Array.getElem?_modify]

@[simp] theorem mapBlock_arcs (g : FlowGraph) (i : Nat) (f : Block → Block) :
    (g.mapBlock i f).arcs = g.arcs := rfl

@[simp] theorem mapArc_blocks (g : FlowGraph) (i : Nat) (f : Arc → Arc) :
    (g.mapArc i f).blocks = g.blocks := rfl

@[simp] theorem mapBlock_size (g : FlowGraph) (i : Nat) (f : Block → Block) :
    (g.mapBlock i f).size = g.size := by
  simp [mapBlock, size]

/-- The work of the solver at a graph. -/
structure Refines (g h : FlowGraph) : Prop where
  size : h.size = g.size
  arcs_size : h.arcs.size = g.arcs.size
  arc : ∀ (id : Nat) (a a' : Arc), g.arcs[id]? = some a → h.arcs[id]? = some a' → a.Refines a'
  block : ∀ (i : Nat) (b b' : Block), g.blocks[i]? = some b → h.blocks[i]? = some b' →
    b.Refines b'

theorem exists_block {i : Nat} (hi : i < g.size) : ∃ b, g.blocks[i]? = some b :=
  ⟨_, Array.getElem?_eq_getElem hi⟩

theorem lt_of_getElem? {i : Nat} {b : Block} (hb : g.blocks[i]? = some b) : i < g.size :=
  (Array.getElem?_eq_some_iff.mp hb).1

theorem Refines.exists_arc (hr : g.Refines h) {id : Nat} {a : Arc} (ha : g.arcs[id]? = some a) :
    ∃ a', h.arcs[id]? = some a' ∧ a.Refines a' := by
  have hlt : id < h.arcs.size := hr.arcs_size ▸ (Array.getElem?_eq_some_iff.mp ha).1
  exact ⟨_, Array.getElem?_eq_getElem hlt, hr.arc id a _ ha (Array.getElem?_eq_getElem hlt)⟩

theorem Refines.exists_arc_of (hr : g.Refines h) {id : Nat} {a' : Arc}
    (ha : h.arcs[id]? = some a') : ∃ a, g.arcs[id]? = some a ∧ a.Refines a' := by
  have hlt : id < g.arcs.size := hr.arcs_size ▸ (Array.getElem?_eq_some_iff.mp ha).1
  exact ⟨_, Array.getElem?_eq_getElem hlt, hr.arc id _ a' (Array.getElem?_eq_getElem hlt) ha⟩

theorem Refines.side_eq (hr : g.Refines h) (i : Nat) (s : Side) : h.side i s = g.side i s := by
  by_cases hi : i < g.size
  · obtain ⟨b, hb⟩ := exists_block hi
    obtain ⟨b', hb'⟩ := exists_block (g := h) (hr.size ▸ hi)
    rw [side_of_getElem? hb, side_of_getElem? hb', (hr.block i b b' hb hb').arcsOn]
  · have hn : ∀ {g : FlowGraph}, ¬ i < g.size → g.side i s = [] := by
      intro g hi
      rw [side, Array.getElem?_eq_none (Nat.le_of_not_lt hi)]
    rw [hn hi, hn (hr.size ▸ hi)]

theorem Refines.linked (hr : g.Refines h) (hg : g.Linked) : h.Linked where
  nodup i s := hr.side_eq i s ▸ hg.nodup i s
  mem_side i s id := by
    rw [hr.side_eq, hg.mem_side]
    constructor
    · rintro ⟨a, ha, hend⟩
      obtain ⟨a', ha', href⟩ := hr.exists_arc ha
      exact ⟨a', ha', (href.nearEnd s).trans hend⟩
    · rintro ⟨a', ha', hend⟩
      obtain ⟨a, ha, href⟩ := hr.exists_arc_of ha'
      exact ⟨a, ha, (href.nearEnd s).symm.trans hend⟩

/-! ## What is known of a graph -/

theorem knowledge_arc_eq_none_iff {id : Nat} {a : Arc} (ha : g.arcs[id]? = some a) :
    g.knowledge.arc id = none ↔ a.resolved = false := by
  cases hres : a.resolved <;> simp [knowledge, ha, hres]

theorem knowledge_arc_of_resolved {id : Nat} {a : Arc} (ha : g.arcs[id]? = some a)
    (hres : a.resolved = true) : g.knowledge.arc id = some a.count := by
  simp [knowledge, ha, hres]

theorem knowledge_block_of_valid {i : Nat} {b : Block} (hb : g.blocks[i]? = some b)
    (hvalid : b.countValid = true) : g.knowledge.block i = some b.count := by
  simp [knowledge, hb, hvalid]

theorem knowledge_block_of_invalid {i : Nat} {b : Block} (hb : g.blocks[i]? = some b)
    (hvalid : b.countValid = false) : g.knowledge.block i = none := by
  simp [knowledge, hb, hvalid]

theorem exists_block_of_knowledge {i : Nat} {c : Int} (h : g.knowledge.block i = some c) :
    ∃ b, g.blocks[i]? = some b ∧ b.countValid = true ∧ b.count = c := by
  obtain ⟨b, hb, hcount⟩ := Option.bind_eq_some_iff.mp h
  split at hcount
  · next hvalid => exact ⟨b, hb, hvalid, Option.some.inj hcount⟩
  · cases hcount

theorem exists_arc_of_knowledge {id : Nat} {c : Int} (h : g.knowledge.arc id = some c) :
    ∃ a, g.arcs[id]? = some a ∧ a.resolved = true ∧ a.count = c := by
  obtain ⟨a, ha, hcount⟩ := Option.bind_eq_some_iff.mp h
  split at hcount
  · next hres => exact ⟨a, ha, hres, Option.some.inj hcount⟩
  · cases hcount

theorem isOpen_eq_true_iff {id : Nat} {a : Arc} (ha : g.arcs[id]? = some a) :
    g.isOpen id = true ↔ g.knowledge.arc id = none := by
  rw [knowledge_arc_eq_none_iff ha]
  cases hres : a.resolved <;> simp [isOpen, ha, hres]

theorem knowledge_mapBlock {i : Nat} {f : Block → Block} {b : Block} {c : Int}
    (hb : g.blocks[i]? = some b) (hvalid : (f b).countValid = true) (hcount : (f b).count = c) :
    (g.mapBlock i f).knowledge = g.knowledge.setBlock i c := by
  refine Knowledge.ext rfl (funext fun j => ?_)
  rw [Knowledge.setBlock_block]
  by_cases hij : j = i
  · subst hij
    simp [knowledge, getElem?_mapBlock, hb, hvalid, hcount]
  · simp [knowledge, getElem?_mapBlock, hij, Ne.symm hij]

/-- A change that concerns no count leaves what is known. -/
theorem knowledge_mapBlock_of_eq {i : Nat} {f : Block → Block}
    (hvalid : ∀ b, (f b).countValid = b.countValid) (hcount : ∀ b, (f b).count = b.count) :
    (g.mapBlock i f).knowledge = g.knowledge := by
  refine Knowledge.ext rfl (funext fun j => ?_)
  by_cases hij : i = j
  · subst hij
    cases hb : g.blocks[i]? <;> simp [knowledge, getElem?_mapBlock, hb, hvalid, hcount]
  · simp [knowledge, getElem?_mapBlock, hij]

theorem knowledge_mapArc {id : Nat} {a : Arc} {c : Int} (ha : g.arcs[id]? = some a) :
    (g.mapArc id fun arc => { arc with count := c, resolved := true }).knowledge
      = g.knowledge.setArc id c := by
  refine Knowledge.ext (funext fun j => ?_) rfl
  rw [Knowledge.setArc_arc]
  by_cases hij : j = id
  · subst hij
    simp [knowledge, getElem?_mapArc, ha]
  · simp [knowledge, getElem?_mapArc, hij, Ne.symm hij]

/-- The sum over the resolved ones of some arcs. -/
theorem total_filter_resolved (g : FlowGraph) (ids : List Nat) :
    total (·.count) ((g.arcsOf ids).filter (·.resolved)) = g.knowledge.sum ids := by
  induction ids with
  | nil => rfl
  | cons id ids ih =>
    cases ha : g.arcs[id]? with
    | none =>
      have hcons : g.arcsOf (id :: ids) = g.arcsOf ids := by simp [arcsOf, ha]
      rw [hcons, ih]
      simp [Knowledge.sum, knowledge, ha]
    | some a =>
      have hcons : g.arcsOf (id :: ids) = a :: g.arcsOf ids := by simp [arcsOf, ha]
      rw [hcons, Knowledge.sum, total_cons, ← Knowledge.sum, ← ih]
      cases hres : a.resolved <;> simp [knowledge, ha, hres]

/-- The sum of the counts of known arcs. -/
theorem sumOf_eq {ids : List Nat} (hknows : g.knowledge.Knows ids) :
    g.sumOf ids = g.knowledge.sum ids := by
  rw [← total_filter_resolved, sumOf]
  congr 1
  refine (List.filter_eq_self.mpr fun a ha => ?_).symm
  obtain ⟨id, hid, ha⟩ := List.mem_filterMap.mp ha
  have := hknows id hid
  rw [Ne, knowledge_arc_eq_none_iff ha] at this
  simpa using this

/-! ## Giving a count to an arc -/

/-- The graph after the arc `id` got a count, and was taken off the degrees at both its ends. -/
def resolve (g : FlowGraph) (id : Nat) (arc : Arc) (t : Side) (c : Int) : FlowGraph :=
  ((g.mapArc id fun arc => { arc with count := c, resolved := true }).mapBlock (arc.nearEnd t)
    (·.mapPending t (· - 1))).mapBlock (arc.farEnd t) (·.mapPending t.opposite (· - 1))

theorem knowledge_resolve {id : Nat} {arc : Arc} {t : Side} {c : Int}
    (harc : g.arcs[id]? = some arc) :
    (g.resolve id arc t c).knowledge = g.knowledge.setArc id c := by
  rw [resolve, knowledge_mapBlock_of_eq (by simp) (by simp),
    knowledge_mapBlock_of_eq (by simp) (by simp), knowledge_mapArc harc]

/-- Degrees go down where the arc ends; nothing else changes at a block. -/
theorem resolve_block {id : Nat} {arc : Arc} {t : Side} {c : Int} {j : Nat}
    {b' : Block} (hb' : (g.resolve id arc t c).blocks[j]? = some b') :
    ∃ b, g.blocks[j]? = some b ∧ b' =
      { b with
        pendingOut := b.pendingOut - (if arc.src = j then 1 else 0)
        pendingIn := b.pendingIn - (if arc.dst = j then 1 else 0) } := by
  rw [resolve, getElem?_mapBlock, getElem?_mapBlock, mapArc_blocks] at hb'
  cases hb : g.blocks[j]? with
  | none => simp [hb] at hb'
  | some b =>
    refine ⟨b, rfl, ?_⟩
    cases t <;> by_cases hsrc : arc.src = j <;> by_cases hdst : arc.dst = j <;>
      simp [hb, hsrc, hdst, Arc.nearEnd, Arc.farEnd, Side.opposite, Block.mapPending] at hb' ⊢ <;>
      exact hb'.symm

theorem resolve_getElem? {id : Nat} {arc : Arc} {t : Side} {c : Int} (other : Nat) :
    (g.resolve id arc t c).arcs[other]? =
      if id = other then (g.arcs[other]?).map fun arc => { arc with count := c, resolved := true }
      else g.arcs[other]? := by
  simp [resolve, getElem?_mapArc]

@[simp] theorem resolve_size {id : Nat} {arc : Arc} {t : Side} {c : Int} :
    (g.resolve id arc t c).size = g.size := by
  rw [resolve, mapBlock_size, mapBlock_size]
  rfl

theorem refines_resolve {id : Nat} {arc : Arc} {t : Side} {c : Int}
    (harc : g.arcs[id]? = some arc) (hres : arc.resolved = false) :
    g.Refines (g.resolve id arc t c) where
  size := resolve_size
  arcs_size := by simp [resolve, mapArc]
  arc j a a' ha ha' := by
    rw [resolve_getElem?] at ha'
    split at ha'
    · next heq =>
      subst heq
      obtain rfl : a = arc := Option.some.inj (ha.symm.trans harc)
      rw [ha, Option.map_some, Option.some.injEq] at ha'
      exact .inr ⟨hres, c, ha'.symm⟩
    · exact .inl (Option.some.inj (ha'.symm.trans ha))
  block j b b' hb hb' := by
    obtain ⟨b₀, hb₀, rfl⟩ := resolve_block hb'
    obtain rfl : b = b₀ := Option.some.inj (hb.symm.trans hb₀)
    exact {
      arcsOn := fun s => by cases s <;> rfl
      lines := rfl
      callSite := rfl
      count := fun _ => rfl }

/-- The arc that got a count is open no longer. -/
theorem resolve_isOpen {id : Nat} {arc : Arc} {t : Side} {c : Int} (other : Nat) :
    (g.resolve id arc t c).isOpen other = (g.isOpen other && decide (other ≠ id)) := by
  by_cases hid : id = other
  · subst hid
    cases harc : g.arcs[id]? <;> simp [isOpen, resolve, getElem?_mapArc, harc]
  · simp [isOpen, resolve, getElem?_mapArc, hid, Ne.symm hid]

/-- One arc less is open on the sides where the arc stands. -/
theorem countP_resolve_isOpen {id : Nat} {arc : Arc} {t : Side} {c : Int}
    (hopen : g.isOpen id = true) {ids : List Nat} (hnodup : ids.Nodup) :
    (ids.countP (g.resolve id arc t c).isOpen : Int)
      = ids.countP g.isOpen - (if id ∈ ids then 1 else 0) := by
  induction ids with
  | nil => simp
  | cons a ids ih =>
    obtain ⟨hmem, hnodup⟩ := List.nodup_cons.mp hnodup
    have ih := ih hnodup
    rw [List.countP_cons, List.countP_cons, resolve_isOpen]
    by_cases ha : a = id
    · subst ha
      rw [if_neg hmem] at ih
      simp only [hopen, List.mem_cons_self, if_true]
      simp
      omega
    · have hmem' : id ∈ a :: ids ↔ id ∈ ids := by simp [Ne.symm ha]
      simp only [ha, hmem', ne_eq, not_false_eq_true, decide_true, Bool.and_true]
      push_cast
      omega

/-! ## Graphs that can be solved -/

/-- A graph as the decoders leave it: its sides are linked, no block has a count yet, and pending
degrees are the numbers of unresolved arcs. -/
structure Prepared (g : FlowGraph) : Prop where
  linked : g.Linked
  fresh : ∀ (i : Nat) (b : Block), g.blocks[i]? = some b →
    b.count = 0 ∧ b.countValid = false ∧ b.onUnresolved = false ∧ b.onResolved = false
  pending : ∀ (i : Nat) (b : Block) (s : Side), g.blocks[i]? = some b →
    b.pending s = g.openDegree i s

theorem openDegree_eq (g : FlowGraph) (i : Nat) (s : Side) :
    g.openDegree i s = ((g.arcsOf (g.side i s)).countP (!·.resolved) : Nat) := by
  have hopen : g.isOpen = fun id => ((g.arcs[id]?).map (!·.resolved)).getD false := by
    funext id
    rw [isOpen]
    cases g.arcs[id]? <;> rfl
  rw [openDegree, arcsOf, List.countP_filterMap, hopen]

/-- Pending degrees are the numbers of unresolved arcs. -/
theorem Prepared.pending_eq {g : FlowGraph} (hg : g.Prepared) {i : Nat} {block : Block}
    (hblock : g.blocks[i]? = some block) (s : Side) :
    block.pending s = ((g.arcsOf (block.arcsOn s)).countP (!·.resolved) : Nat) := by
  rw [hg.pending i block s hblock, openDegree_eq, side_of_getElem? hblock]

end FlowGraph

end Coverage
