import Coverage.Proofs.SolverSteps
import Coverage.Proofs.Steps

/-!
# What counting leaves alone

Counters and the solver work on arcs, and on what blocks know about their arcs.  How a file lists a
function, the source that the function names and the lines that its blocks list (`Func.outline`)
stay as they were read, whatever data is decoded and however solving ends.
-/

namespace Coverage

/-! ## Lists of lines -/

/-- The lists of lines of all blocks. -/
def FlowGraph.lineLists (g : FlowGraph) : Array (List Nat) :=
  g.blocks.map (·.lines)

/-- What of a function is never counted: how files list it, the source that it names, and the lists
of lines of its blocks. -/
def Func.outline (func : Func) : (FuncRef × String) × Array (List Nat) :=
  ((func.ref, func.source), func.graph.lineLists)

namespace FlowGraph

theorem lineLists_getElem? (g : FlowGraph) (i : Nat) :
    g.lineLists[i]? = (g.blocks[i]?).map (·.lines) := by
  rw [lineLists, Array.getElem?_map]

theorem lineLists_mapBlock (g : FlowGraph) (index : Nat) {f : Block → Block}
    (hf : ∀ b, (f b).lines = b.lines) : (g.mapBlock index f).lineLists = g.lineLists :=
  map_modify_of_eq hf g.blocks index

/-- Pending degrees are no lines. -/
theorem lineLists_mapPending (g : FlowGraph) (index : Nat) (side : Side) (change : Int → Int) :
    (g.mapBlock index (·.mapPending side change)).lineLists = g.lineLists :=
  g.lineLists_mapBlock index fun b => Block.mapPending_lines b side change

end FlowGraph

/-! ## Data files -/

namespace Counters

open Scanner

variable {functions functions' functions'' : List Func}

theorem outline_countArc (func : Func) (exit : Exit) (arc : Arc) (count : Nat) :
    (func.mapGraph (countArc · exit arc count)).outline = func.outline := by
  have hlines : (countArc func.graph exit arc count).lineLists = func.graph.lineLists := by
    unfold countArc
    rw [FlowGraph.lineLists_mapPending, FlowGraph.lineLists_mapPending]
    rfl
  exact congrArg (Prod.mk (func.ref, func.source)) hlines

theorem Change.outlines (h : Change functions functions') :
    functions'.map (·.outline) = functions.map (·.outline) := by
  cases h with
  | none => rfl
  | count position exit count func arc _ _ =>
    apply List.ext_getElem?
    intro i
    rw [List.getElem?_map, List.getElem?_map, List.getElem?_modify]
    cases functions[i]? with
    | none => rfl
    | some func =>
      refine congrArg some ?_
      split
      · exact outline_countArc func exit arc count
      · rfl

/-- Whatever the bytes are, the outlines of the functions stay. -/
theorem decode_outlines (functions : List Func) (bytes : Bytes) :
    (decode functions bytes).state.map (·.outline) = functions.map (·.outline) := by
  have hrecords : ∀ (s : Scan State),
      (machine.run s).state.map (·.outline) = s.state.functions.map (·.outline) := by
    intro s
    have hfirst : ∀ s, (step s).Leaves (fun t => Change s.functions t.functions) fun w =>
        w.state.map (·.outline) = s.functions.map (·.outline) := by
      intro s
      obtain ⟨hnext, hstop⟩ := step_leaves s
      exact ⟨hnext, fun c w hw => (hstop c w hw).outlines⟩
    refine run_of_leaves hfirst ?_ s
    intro s t w hchange hw
    exact hw.trans hchange.outlines
  unfold decode
  split
  · rfl
  · dsimp only
    split
    · rfl
    · next version cursor' _ =>
      exact hrecords { cursor := cursor', state := { version, functions } }

end Counters

/-! ## Solving -/

theorem FlowGraph.Gains.lineLists {g h : FlowGraph} (hgain : g.Gains h) :
    h.lineLists = g.lineLists := by
  apply Array.ext_getElem?
  intro i
  rw [lineLists_getElem?, lineLists_getElem?]
  cases hb : g.blocks[i]? with
  | none =>
    have hi : h.size ≤ i := hgain.size ▸ Array.getElem?_eq_none_iff.mp hb
    rw [Array.getElem?_eq_none hi]
  | some b =>
    obtain ⟨b', hb'⟩ := exists_block (g := h) (hgain.size ▸ lt_of_getElem? hb)
    rw [hb', Option.map_some, Option.map_some, (hgain.block i b b' hb hb').lines]

namespace Func

/-- However solving ends, the outline of the function stays. -/
theorem outline_solve (func : Func) : func.solve.state.outline = func.outline := by
  have hlines := func.graph.solve_gains.lineLists
  rw [func.solve_state]
  exact congrArg (Prod.mk (func.ref, func.source)) hlines

theorem outlines_solveAll (functions : List Func) :
    (solveAll functions).state.map (·.outline) = functions.map (·.outline) := by
  induction functions with
  | nil => rfl
  | cons func rest ih =>
    unfold solveAll
    dsimp only
    split
    · rw [List.map_cons, List.map_cons, outline_solve, ih]
    · rw [List.map_cons, List.map_cons, outline_solve]

end Func

end Coverage
