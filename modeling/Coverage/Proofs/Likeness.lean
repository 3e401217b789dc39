import Coverage.Proofs.Associations
import Coverage.Proofs.GraphConstruction
import Mathlib.Data.Option.Basic

/-!
# Functions that differ only in positions

The registry gives every source a position, and blocks name sources by it.  Which position a source
has depends on what was registered before.  Blocks, graphs and functions are alike under two
registries (`Block.Alike`, `FlowGraph.Alike`, `Func.Alike`) if that is all in which they differ:
they list the same lines of the same sources, and agree in whatever else there is to them.

Neither the decoders nor the solver ever look at positions, so whatever they do to functions that
are alike leaves functions that are alike (`FlowGraph.Alike.mapBlock`, `FlowGraph.Alike.addArc`,
`FlowGraph.Alike.addLine`).  A function is alike to itself just if its graph is linked and its lines
are lines that the registry admits, so the same facts say what decoding and solving keep.
-/

namespace Coverage

/-! ## Sides and ends -/

/-- A graph with the sides and the ends of a linked one is linked. -/
theorem FlowGraph.Linked.of_sides {g h : FlowGraph} (hg : g.Linked)
    (hside : ∀ i s, h.side i s = g.side i s)
    (hends : ∀ (id : Nat) (s : Side),
      (h.arcs[id]?).map (·.nearEnd s) = (g.arcs[id]?).map (·.nearEnd s)) : h.Linked where
  nodup i s := by
    rw [hside]
    exact hg.nodup i s
  mem_side i s id := by
    rw [hside, hg.mem_side, ← Option.map_eq_some_iff, ← Option.map_eq_some_iff, hends]

/-! ## Options that are related -/

section OptionRel

variable {α β : Type} {R S : α → β → Prop} {a : Option α} {b : Option β}

theorem optionRel_imp (h : Option.Rel R a b) (himp : ∀ a b, R a b → S a b) : Option.Rel S a b := by
  cases h with
  | some hab => exact .some (himp _ _ hab)
  | none => exact .none

/-- Either both are there and related, or neither is there. -/
theorem optionRel_cases (h : Option.Rel R a b) :
    (∃ x y, a = some x ∧ b = some y ∧ R x y) ∨ (a = none ∧ b = none) := by
  cases h with
  | some hab => exact .inl ⟨_, _, rfl, rfl, hab⟩
  | none => exact .inr ⟨rfl, rfl⟩

theorem optionRel_of_left {x : α} (h : Option.Rel R a b) (ha : a = some x) :
    ∃ y, b = some y ∧ R x y := by
  subst ha
  cases h with
  | some hab => exact ⟨_, rfl, hab⟩

theorem optionRel_map {γ δ : Type} {T : γ → δ → Prop} {f : α → γ} {g : β → δ}
    (h : Option.Rel R a b) (hmap : ∀ a b, R a b → T (f a) (g b)) :
    Option.Rel T (a.map f) (b.map g) := by
  cases h with
  | some hab => exact .some (hmap _ _ hab)
  | none => exact .none

end OptionRel

/-! ## Blocks -/

/-- A block with other lines. -/
def Block.withLines (b : Block) (lines : List Nat) : Block :=
  { b with lines }

/-- Blocks that differ only in the positions of the sources that they list lines of. -/
inductive Block.Alike (r r' : Registry) (b : Block) : Block → Prop
  | intro {lines : List Nat} {emitted emitted' : Option Nat} {named : List (String × Nat)} :
      b.Lists r emitted named → (b.withLines lines).Lists r' emitted' named →
      Alike r r' b (b.withLines lines)

/-- A change that leaves the lines and the arcs of a block alone, and does not depend on the lines.
-/
structure Block.Inward (f : Block → Block) : Prop where
  withLines : ∀ (b : Block) (lines : List Nat), f (b.withLines lines) = (f b).withLines lines
  lines : ∀ b : Block, (f b).lines = b.lines
  arcsOn : ∀ (b : Block) (s : Side), (f b).arcsOn s = b.arcsOn s

namespace Block

variable {r r' q q' : Registry} {b b' : Block} {f : Block → Block}

@[simp] theorem withLines_lines (b : Block) (lines : List Nat) :
    (b.withLines lines).lines = lines := rfl

@[simp] theorem withLines_arcsOn (b : Block) (lines : List Nat) (s : Side) :
    (b.withLines lines).arcsOn s = b.arcsOn s := by
  cases s <;> rfl

@[simp] theorem withLines_pending (b : Block) (lines : List Nat) (s : Side) :
    (b.withLines lines).pending s = b.pending s := by
  cases s <;> rfl

theorem inward_mapPending (s : Side) (change : Int → Int) : Inward (·.mapPending s change) where
  withLines b lines := by cases s <;> rfl
  lines b := mapPending_lines b s change
  arcsOn b t := mapPending_arcsOn b s t change

/-- A block without lines is alike to itself. -/
theorem Alike.of_nil (hb : b.lines = []) : b.Alike r r' b := by
  show b.Alike r r' (b.withLines b.lines)
  exact ⟨lists_nil hb r, lists_nil hb r'⟩

theorem Alike.mono (h : b.Alike r r' b') (hr : r.Extends q) (hr' : r'.Extends q') :
    b.Alike q q' b' := by
  obtain ⟨hlists, hlists'⟩ := h
  exact ⟨hlists.mono hr, hlists'.mono hr'⟩

/-- What a change that does not depend on lines makes of blocks that are alike. -/
theorem Alike.map (h : b.Alike r r' b')
    (hwith : ∀ lines, f (b.withLines lines) = (f b).withLines lines)
    (hlines : (f b).lines = b.lines) : (f b).Alike r r' (f b') := by
  obtain ⟨hlists, hlists'⟩ := h
  rw [hwith]
  exact ⟨hlists.of_lines hlines, hlists'.of_lines rfl⟩

theorem Alike.inward (h : b.Alike r r' b') (hf : Inward f) : (f b).Alike r r' (f b') :=
  h.map (hf.withLines b) (hf.lines b)

theorem Alike.attach (h : b.Alike r r' b') (s : Side) (id : Nat) (resolved : Bool) :
    (b.attach s id resolved).Alike r r' (b'.attach s id resolved) :=
  h.map (f := (·.attach s id resolved)) (fun lines => by cases s <;> cases resolved <;> rfl)
    (attach_lines b s id resolved)

end Block

/-! ## Graphs -/

/-- Graphs that differ only in the positions of the sources that their blocks list lines of, and
whose sides fit their arcs. -/
structure FlowGraph.Alike (r r' : Registry) (g g' : FlowGraph) : Prop where
  arcs : g'.arcs = g.arcs
  blocks : ∀ i : Nat, Option.Rel (Block.Alike r r') g.blocks[i]? g'.blocks[i]?
  linked : g.Linked

namespace FlowGraph.Alike

variable {r r' q q' : Registry} {g g' : FlowGraph} {f : Block → Block}

theorem size (h : g.Alike r r' g') : g'.size = g.size := by
  have hle : ∀ i, g'.size ≤ i ↔ g.size ≤ i := by
    intro i
    rw [FlowGraph.size, FlowGraph.size, ← Array.getElem?_eq_none_iff,
      ← Array.getElem?_eq_none_iff]
    rcases optionRel_cases (h.blocks i) with ⟨b, b', hb, hb', -⟩ | ⟨hb, hb'⟩ <;> simp [hb, hb']
  exact Nat.le_antisymm ((hle _).mpr (Nat.le_refl _)) ((hle _).mp (Nat.le_refl _))

theorem mono (h : g.Alike r r' g') (hr : r.Extends q) (hr' : r'.Extends q') :
    g.Alike q q' g' where
  arcs := h.arcs
  blocks i := optionRel_imp (h.blocks i) fun _ _ hb => hb.mono hr hr'
  linked := h.linked

theorem side_eq (h : g.Alike r r' g') (i : Nat) (s : Side) : g'.side i s = g.side i s := by
  rcases optionRel_cases (h.blocks i) with ⟨b, b', hb, hb', ⟨-, -⟩⟩ | ⟨hb, hb'⟩
  · rw [side_of_getElem? hb, side_of_getElem? hb', Block.withLines_arcsOn]
  · rw [side, side, hb, hb']

theorem arcsOf_eq (h : g.Alike r r' g') (ids : List Nat) : g'.arcsOf ids = g.arcsOf ids := by
  rw [arcsOf, arcsOf, h.arcs]

theorem exitOrder_eq (h : g.Alike r r' g') : g'.exitOrder = g.exitOrder :=
  exitOrder_congr h.size fun i => h.side_eq i .exits

/-- Blocks alone are alike. -/
theorem ofSize (n : Nat) : (ofSize n).Alike r r' (ofSize n) where
  arcs := rfl
  blocks i := by
    cases hb : (FlowGraph.ofSize n).blocks[i]? with
    | none => exact .none
    | some b =>
      obtain rfl := eq_of_ofSize hb
      exact .some (.of_nil rfl)
  linked := (prepared_ofSize n).linked

/-! ### Changing a block or an arc -/

/-- Changes a block on both sides. -/
theorem mapBlock_of (h : g.Alike r r' g') (i : Nat) {f f' : Block → Block}
    (hf : ∀ b b', b.Alike r r' b' → g.blocks[i]? = some b → g'.blocks[i]? = some b' →
      (f b).Alike r r' (f' b'))
    (hside : ∀ (b : Block) (s : Side), (f b).arcsOn s = b.arcsOn s) :
    (g.mapBlock i f).Alike r r' (g'.mapBlock i f') where
  arcs := h.arcs
  blocks j := by
    rw [getElem?_mapBlock, getElem?_mapBlock]
    rcases optionRel_cases (h.blocks j) with ⟨b, b', hb, hb', hlike⟩ | ⟨hb, hb'⟩
    · rw [hb, hb']
      split
      · next hij =>
        subst hij
        exact .some (hf b b' hlike hb hb')
      · exact .some hlike
    · rw [hb, hb']
      split <;> exact .none
  linked := by
    refine h.linked.of_sides (fun j s => ?_) fun _ _ => rfl
    rw [side, side, getElem?_mapBlock]
    by_cases hij : i = j
    · rw [if_pos hij]
      cases g.blocks[j]? with
      | none => rfl
      | some b => exact hside b s
    · rw [if_neg hij]

theorem mapBlock (h : g.Alike r r' g') (i : Nat) (hf : Block.Inward f) :
    (g.mapBlock i f).Alike r r' (g'.mapBlock i f) :=
  h.mapBlock_of i (fun _ _ hlike _ _ => hlike.inward hf) hf.arcsOn

theorem mapArc (h : g.Alike r r' g') (id : Nat) {f : Arc → Arc}
    (hf : ∀ (arc : Arc) (s : Side), (f arc).nearEnd s = arc.nearEnd s) :
    (g.mapArc id f).Alike r r' (g'.mapArc id f) where
  arcs := by rw [FlowGraph.mapArc, FlowGraph.mapArc, h.arcs]
  blocks := h.blocks
  linked := by
    refine h.linked.of_sides (fun _ _ => rfl) fun j s => ?_
    rw [getElem?_mapArc]
    split
    · rw [Option.map_map]
      exact congrArg (fun k => (g.arcs[j]?).map k) (funext fun arc => hf arc s)
    · rfl

/-! ### Adding an arc -/

theorem addArc (h : g.Alike r r' g') (arc : Arc) (hsrc : arc.src < g.size)
    (hdst : arc.dst < g.size) : (g.addArc arc).Alike r r' (g'.addArc arc) where
  arcs := by rw [addArc_arcs, addArc_arcs, h.arcs]
  blocks i := by
    rw [addArc_block, addArc_block, h.arcs]
    refine optionRel_map (h.blocks i) fun b b' hlike => ?_
    have hfirst : (if arc.src = i then b.attach .exits g.arcs.size arc.resolved else b).Alike r r'
        (if arc.src = i then b'.attach .exits g.arcs.size arc.resolved else b') := by
      split
      · exact hlike.attach _ _ _
      · exact hlike
    dsimp only
    split
    · exact hfirst.attach _ _ _
    · exact hfirst
  linked := h.linked.addArc hsrc hdst

end FlowGraph.Alike

/-! ## Attributing lines -/

/-- The list of a block may go on behind the source `emitted`, if one is said to be named last. -/
def Block.GoesOn (b : Block) (emitted : Option Nat) : Prop :=
  emitted = none ∨ ∀ tail, associationsFrom none (b.lines ++ tail)
    = b.associations ++ associationsFrom emitted tail

/-- Puts a line on the list of a block. -/
def Block.addLine (b : Block) (emitted : Option Nat) (source line : Nat) : Block :=
  b.withLines (b.lines ++ lineTokens emitted source line)

namespace Block

variable {r r' : Registry} {b b' : Block} {emitted emitted' : Option Nat}
  {source source' line : Nat} {name : String}

theorem Lists.addLine {e : Option Nat} {named : List (String × Nat)} (h : b.Lists r e named)
    (hgo : b.GoesOn emitted) (hline : line ≠ 0)
    (hlocates : r.Locates (source, line) (name, line)) :
    (b.addLine emitted source line).Lists r (some source) (named ++ [(name, line)]) := by
  rcases hgo with hnone | hgo
  · exact h.add (.inl hnone) hline hlocates
  · have hlists : b.Lists r emitted named := ⟨h.located, hgo⟩
    exact hlists.add (.inr rfl) hline hlocates

/-- A line of the same source leaves blocks that are alike. -/
theorem Alike.addLine (h : b.Alike r r' b') (hgo : b.GoesOn emitted) (hgo' : b'.GoesOn emitted')
    (hline : line ≠ 0) (hlocates : r.Locates (source, line) (name, line))
    (hlocates' : r'.Locates (source', line) (name, line)) :
    (b.addLine emitted source line).Alike r r' (b'.addLine emitted' source' line) := by
  obtain ⟨hlists, hlists'⟩ := h
  exact ⟨hlists.addLine hgo hline hlocates, hlists'.addLine hgo' hline hlocates'⟩

theorem Alike.lists_left (h : b.Alike r r' b') : ∃ e named, b.Lists r e named := by
  obtain ⟨hlists, -⟩ := h
  exact ⟨_, _, hlists⟩

theorem Alike.lists_right (h : b.Alike r r' b') : ∃ e named, b'.Lists r' e named := by
  obtain ⟨-, hlists'⟩ := h
  exact ⟨_, _, hlists'⟩

end Block

/-! ## Functions -/

/-- Functions that differ only in their serial numbers and in the positions of sources. -/
inductive Func.Alike (r r' : Registry) (func : Func) : Func → Prop
  | intro {serial : Nat} {graph : FlowGraph} :
      func.graph.Alike r r' graph → Alike r r' func { func with serial, graph }

namespace Func

variable {r r' q q' : Registry} {func func' : Func}

theorem Alike.of_graph (func : Func) {serial : Nat} {graph : FlowGraph}
    (h : func.graph.Alike r r' graph) : func.Alike r r' { func with serial, graph } :=
  .intro h

theorem Alike.graph (h : func.Alike r r' func') : func.graph.Alike r r' func'.graph := by
  obtain ⟨hgraph⟩ := h
  exact hgraph

theorem Alike.name (h : func.Alike r r' func') : func'.name = func.name := by
  obtain ⟨-⟩ := h
  rfl

theorem Alike.mono (h : func.Alike r r' func') (hr : r.Extends q) (hr' : r'.Extends q') :
    func.Alike q q' func' := by
  obtain ⟨hgraph⟩ := h
  exact ⟨hgraph.mono hr hr'⟩

theorem Alike.mapGraph (h : func.Alike r r' func') {f k : FlowGraph → FlowGraph}
    (hf : (f func.graph).Alike r r' (k func'.graph)) :
    (func.mapGraph f).Alike r r' (func'.mapGraph k) := by
  obtain ⟨-⟩ := h
  exact .of_graph (func.mapGraph f) hf

theorem Alike.lists_left (h : func.Alike r r' func') {i : Nat} {b : Block}
    (hb : func.graph.blocks[i]? = some b) : ∃ e named, b.Lists r e named := by
  obtain ⟨b', -, hlike⟩ := optionRel_of_left (h.graph.blocks i) hb
  exact hlike.lists_left

theorem Alike.lists_right (h : func.Alike r r' func') {i : Nat} {b' : Block}
    (hb' : func'.graph.blocks[i]? = some b') : ∃ e named, b'.Lists r' e named := by
  rcases optionRel_cases (h.graph.blocks i) with ⟨b, c, -, hc, hlike⟩ | ⟨-, hnone⟩
  · obtain rfl : c = b' := Option.some.inj (hc.symm.trans hb')
    exact hlike.lists_right
  · rw [hnone] at hb'
    cases hb'

end Func

end Coverage
