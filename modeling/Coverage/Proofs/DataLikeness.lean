import Coverage.Proofs.MeasuredExits
import Coverage.Proofs.NotesLikeness

/-!
# Data files on functions that are alike

The same data file is decoded onto functions that are alike, and leaves functions that are alike
(`decode_alike`): functions are found by their ident and confirmed by their checksum, and counters
are counted off along the arcs, so positions of sources are never looked at.

The decoder takes functions and arcs by numbers that it found earlier.  `State.Alike` keeps them in
range, which is why no data file leads beyond the end of a list.
-/

namespace Coverage

/-! ## Related lists -/

section Forall

variable {α β : Type} {R : α → β → Prop} {xs : List α} {ys : List β}

theorem optionRel_getElem? (h : List.Forall₂ R xs ys) (k : Nat) :
    Option.Rel R xs[k]? ys[k]? := by
  induction h generalizing k with
  | nil => exact .none
  | cons hxy _ ih =>
    cases k with
    | zero => exact .some hxy
    | succ k => exact ih k

theorem forall₂_modify {f : α → α} {g : β → β} (h : List.Forall₂ R xs ys)
    (hmap : ∀ x y, R x y → R (f x) (g y)) (k : Nat) :
    List.Forall₂ R (xs.modify k f) (ys.modify k g) := by
  induction h generalizing k with
  | nil => cases k <;> exact .nil
  | cons hxy hrest ih =>
    cases k with
    | zero => exact .cons (hmap _ _ hxy) hrest
    | succ k => exact .cons hxy (ih k)

end Forall

namespace Counters

/-- `s.Alike r r' t`: decoders in the same place of the same file, of which each gives counters to
the functions of its side. -/
structure State.Alike (r r' : Registry) (s t : State) : Prop where
  version : t.version = s.version
  selection : t.selection = s.selection
  mode : t.mode = s.mode
  functions : List.Forall₂ (Func.Alike r r') s.functions t.functions
  selected : ∀ position, s.selection = .matched position → position < s.functions.length
  counting : ∀ position next further fin, s.mode = .inCounters position next further fin →
    ∃ func, s.functions[position]? = some func
      ∧ ∀ exit ∈ next :: further, exit.id < func.graph.arcs.size

/-- What decoders leave that gave counters to functions that are alike. -/
structure CountsAlike (r r' : Registry) (o o' : Result) : Prop where
  functions : List.Forall₂ (Func.Alike r r') o.state o'.state
  result : EndsAlike (fun _ _ => True) o.result o'.result

/-- Steps that agree. -/
abbrev Step.Agrees (r r' : Registry) (step step' : Step) : Prop :=
  Scanner.Agrees (State.Alike r r') (CountsAlike r r') step step'

variable {r r' : Registry} {s t : State}

/-! ## Steps -/

theorem State.Alike.goOn (h : s.Alike r r' t) : Step.Agrees r r' s.goOn t.goOn :=
  Scanner.agrees_goOn h

theorem State.Alike.refuse (h : s.Alike r r' t) {error : CoverageError}
    (herror : error.kind ≠ .index) : Step.Agrees r r' (s.refuse error) (t.refuse error) :=
  Scanner.agrees_finish ⟨h.functions, .error herror⟩

theorem State.Alike.read (h : s.Alike r r' t) {α : Type} {action : Read α} {use use' : α → Step}
    (huse : ∀ a, Step.Agrees r r' (use a) (use' a)) :
    Step.Agrees r r' (s.read action use) (t.read action use') :=
  Scanner.agrees_read (Read.yields_true action) ⟨h.functions, .ok trivial⟩ fun a _ => huse a

theorem State.Alike.leave (h : s.Alike r r' t) (fin : Nat) :
    Step.Agrees r r' (s.leave fin) (t.leave fin) := by
  refine h.read fun _ => State.Alike.goOn ?_
  exact {
    version := h.version
    selection := h.selection
    mode := rfl
    functions := h.functions
    selected := h.selected
    counting := fun _ _ _ _ hmode => by cases hmode }

theorem State.Alike.select (h : s.Alike r r' t) {selection : Selection}
    (hselection : ∀ position, selection = .matched position → position < s.functions.length) :
    (s.select selection).Alike r r' (t.select selection) where
  version := h.version
  selection := rfl
  mode := h.mode
  functions := h.functions
  selected := hselection
  counting := h.counting

theorem State.Alike.logging (h : s.Alike r r' t) (event : LogEvent) :
    (s.logging event).Alike r r' (t.logging event) where
  version := h.version
  selection := h.selection
  mode := h.mode
  functions := h.functions
  selected := h.selected
  counting := h.counting

/-! ## Functions -/

/-- A function is found in the same place of lists that are alike. -/
theorem findFunction?_alike {functions functions' : List Func}
    (h : List.Forall₂ (Func.Alike r r') functions functions') (ident : Nat) :
    Option.Rel (fun found found' => found'.1 = found.1 ∧ found.1 < functions.length
        ∧ found.2.Alike r r' found'.2)
      (findFunction? functions ident) (findFunction? functions' ident) := by
  have hidents : functions'.map (·.ident) = functions.map (·.ident) := by
    induction h with
    | nil => rfl
    | cons hlike _ ih =>
      obtain ⟨-⟩ := hlike
      rw [List.map_cons, List.map_cons, ih]
  have hindex : functions'.findIdx? (·.ident == ident) = functions.findIdx? (·.ident == ident) := by
    have hmap := congrArg (List.findIdx? (· == ident)) hidents
    rwa [List.findIdx?_map, List.findIdx?_map] at hmap
  unfold findFunction?
  rw [hindex]
  cases hposition : functions.findIdx? (·.ident == ident) with
  | none => exact .none
  | some position =>
    rcases optionRel_cases (optionRel_getElem? h position) with
      ⟨func, func', hfunc, hfunc', hlike⟩ | ⟨hfunc, hfunc'⟩
    · simp only [Option.bind_eq_bind, Option.bind_some, hfunc, hfunc']
      exact .some ⟨rfl, (List.getElem?_eq_some_iff.mp hfunc).1, hlike⟩
    · simp only [Option.bind_eq_bind, Option.bind_some, hfunc, hfunc']
      exact .none

theorem State.Alike.confirm (h : s.Alike r r' t) {position : Nat} {func func' : Func}
    (hposition : position < s.functions.length) (hlike : func.Alike r r' func') (fin : Nat) :
    Step.Agrees r r' (Counters.confirm s position func fin)
      (Counters.confirm t position func' fin) := by
  obtain ⟨-⟩ := hlike
  refine h.read fun checksum => ?_
  dsimp only
  split
  · rw [h.version]
    refine h.read fun _ => (h.select fun p hp => ?_).leave fin
    cases hp
    exact hposition
  · exact h.refuse (by simp [CoverageError.kind])

theorem State.Alike.readFunction (h : s.Alike r r' t) (fin : Nat) :
    Step.Agrees r r' (Counters.readFunction s fin) (Counters.readFunction t fin) := by
  refine h.read fun ident => ?_
  rcases optionRel_cases (findFunction?_alike h.functions ident) with
    ⟨⟨position, func⟩, ⟨position', func'⟩, hfound, hfound', rfl, hlt, hlike⟩ | ⟨hnone, hnone'⟩
  · rw [hfound, hfound']
    exact h.confirm hlt hlike fin
  · rw [hnone, hnone']
    exact ((h.select fun p hp => by cases hp).logging _).leave fin

/-! ## Counters -/

theorem measuredExits_alike {g g' : FlowGraph} (h : g.Alike r r' g') :
    measuredExits g' = measuredExits g :=
  measuredExits_congr (FlowGraph.listedExits_congr h.size fun i => h.side_eq i .exits)
    fun id => by rw [h.arcs]

theorem countArc_alike {g g' : FlowGraph} (h : g.Alike r r' g') (exit : Exit) (arc : Arc)
    (count : Nat) : (countArc g exit arc count).Alike r r' (countArc g' exit arc count) := by
  have hcount := h.mapArc exit.id (f := fun arc => { arc with count, resolved := true })
    fun arc side => by cases side <;> rfl
  exact (hcount.mapBlock exit.block (Block.inward_mapPending .exits _)).mapBlock arc.dst
    (Block.inward_mapPending .entries _)

theorem State.Alike.resume (h : s.Alike r r' t) {position : Nat} {exits : List Exit}
    {func : Func} (hfunc : s.functions[position]? = some func)
    (hexits : ∀ exit ∈ exits, exit.id < func.graph.arcs.size) (fin : Nat) :
    Step.Agrees r r' (Counters.resume s position exits fin)
      (Counters.resume t position exits fin) := by
  cases exits with
  | nil => exact (h.select fun p hp => by cases hp).leave fin
  | cons next further =>
    refine State.Alike.goOn ?_
    exact {
      version := h.version
      selection := h.selection
      mode := rfl
      functions := h.functions
      selected := h.selected
      counting := fun p n f e hmode => by
        cases hmode
        exact ⟨func, hfunc, hexits⟩ }

theorem State.Alike.beginCounters (h : s.Alike r r' t) (fin : Nat) :
    Step.Agrees r r' (Counters.beginCounters s fin) (Counters.beginCounters t fin) := by
  unfold Counters.beginCounters
  rw [h.selection]
  cases hselection : s.selection with
  | none => exact h.refuse (by simp [CoverageError.kind])
  | unmatched => exact ((h.select fun p hp => by cases hp).logging _).leave fin
  | matched position =>
    rcases optionRel_cases (optionRel_getElem? h.functions position) with
      ⟨func, func', hfunc, hfunc', hlike⟩ | ⟨hnone, -⟩
    · dsimp only
      rw [hfunc, hfunc']
      dsimp only
      rw [hlike.graph.size, hlike.name, measuredExits_alike hlike.graph]
      split
      · exact h.refuse (by simp [CoverageError.kind])
      · exact h.resume hfunc
          (fun exit hexit => lt_arcs_of_mem_measuredIds (id_mem_measuredIds hexit)) fin
    · have hlt := h.selected position hselection
      rw [List.getElem?_eq_none_iff] at hnone
      omega

/-- Counting an arc leaves functions with as many arcs as before. -/
theorem assign_getElem? {p : Nat} {func : Func} (hfunc : s.functions[p]? = some func)
    (position : Nat) (exit : Exit) (arc : Arc) (count : Nat) :
    ∃ counted, (Counters.assign s position exit arc count).functions[p]? = some counted
      ∧ counted.graph.arcs.size = func.graph.arcs.size := by
  rw [Counters.assign, List.getElem?_modify, hfunc, Option.map_eq_map, Option.map_some]
  refine ⟨_, rfl, ?_⟩
  split
  · simp [Func.mapGraph, countArc, FlowGraph.mapArc]
  · rfl

/-- Gives an arc its counter on both sides. -/
theorem State.Alike.assign (h : s.Alike r r' t) (position : Nat) (exit : Exit) (arc : Arc)
    (count : Nat) : (Counters.assign s position exit arc count).Alike r r'
      (Counters.assign t position exit arc count) where
  version := h.version
  selection := h.selection
  mode := h.mode
  functions := forall₂_modify h.functions
    (fun _ _ hlike => hlike.mapGraph (countArc_alike hlike.graph exit arc count)) position
  selected p hp := by
    rw [Counters.assign, List.length_modify]
    exact h.selected p hp
  counting p next further fin hmode := by
    obtain ⟨func, hfunc, hexits⟩ := h.counting p next further fin hmode
    obtain ⟨counted, hcounted, hsize⟩ := assign_getElem? hfunc position exit arc count
    exact ⟨counted, hcounted, fun other hother => hsize ▸ hexits other hother⟩

theorem State.Alike.readCounter (h : s.Alike r r' t) {position fin : Nat} {exit : Exit}
    {further : List Exit} (hmode : s.mode = .inCounters position exit further fin) :
    Step.Agrees r r' (Counters.readCounter s position exit further fin)
      (Counters.readCounter t position exit further fin) := by
  obtain ⟨func, hfunc, hexits⟩ := h.counting position exit further fin hmode
  obtain ⟨func', hfunc', hlike⟩ := optionRel_of_left (optionRel_getElem? h.functions position) hfunc
  refine h.read fun count => ?_
  obtain ⟨arc, harc⟩ : ∃ arc, func.graph.arcs[exit.id]? = some arc :=
    ⟨_, Array.getElem?_eq_getElem (hexits exit List.mem_cons_self)⟩
  have hdst : arc.dst < func.graph.size := hlike.graph.linked.nearEnd_lt harc .entries
  obtain ⟨counted, hcounted, hsize⟩ := assign_getElem? hfunc position exit arc count
  simp only [hfunc, hfunc', hlike.graph.arcs, hlike.graph.size, harc, if_pos hdst]
  exact (h.assign position exit arc count).resume hcounted
    (fun other hother => hsize ▸ hexits other (List.mem_cons_of_mem _ hother)) fin

/-! ## Records -/

theorem State.Alike.readTag (h : s.Alike r r' t) :
    Step.Agrees r r' (Counters.readTag s) (Counters.readTag t) := by
  refine h.read fun tag => ?_
  split
  · exact h.goOn
  · refine h.read fun (length, fin) => ?_
    dsimp only
    rw [h.version]
    split
    · exact h.readFunction fin
    · split
      · exact h.beginCounters fin
      · split
        · exact h.read fun _ => h.leave fin
        · split
          · exact h.read fun _ => h.leave fin
          · exact h.leave fin

/-- One step of decoders in the same place. -/
theorem State.Alike.step (h : s.Alike r r' t) :
    Step.Agrees r r' (Counters.step s) (Counters.step t) := by
  unfold Counters.step
  rw [h.mode]
  cases hmode : s.mode with
  | between => exact h.readTag
  | inCounters position next further fin => exact h.readCounter hmode

/-- The same bytes give functions that are alike the same counters. -/
theorem decode_alike {functions functions' : List Func}
    (h : List.Forall₂ (Func.Alike r r') functions functions') (bytes : Bytes) :
    CountsAlike r r' (decode functions bytes) (decode functions' bytes) := by
  unfold decode
  split
  · next error herror =>
    refine ⟨h, .error ?_⟩
    rw [openFile_error herror]
    decide
  · dsimp only
    split
    · exact ⟨h, .ok trivial⟩
    · next version cursor _ =>
      have hrecords : CountsAlike r r' (decodeRecords functions version cursor)
          (decodeRecords functions' version cursor) := by
        refine Scanner.run_agrees (R := State.Alike r r') (fun s t hst => hst.step) ?_
        exact {
          version := rfl
          selection := rfl
          mode := rfl
          functions := h
          selected := fun _ hp => by cases hp
          counting := fun _ _ _ _ hmode => by cases hmode }
      exact ⟨hrecords.functions, hrecords.result⟩

end Counters

end Coverage
