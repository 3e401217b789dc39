import Coverage.Proofs.DataLikeness
import Coverage.Proofs.Frames
import Coverage.Proofs.Steps

/-!
# The counters that are read

What a data file does to functions is a matter of the counters that are read from it: for which
function, for which arc, and in which order.  `readings` collects them along the run of the decoder,
whatever the bytes are, and wherever the run ends.  They account for all that has changed
(`decode_readings`), because no other step touches the functions; and they go to measured arcs of
functions that come first with their idents (`Expects`), because a function is found by its ident
and counted by the arcs that it had when its record began.
-/

namespace Coverage.Counters

open FlowGraph

/-! ## Readings -/

/-- A counter that was read, and the arc that it is for. -/
structure Reading where
  /-- The position of the function. -/
  position : Nat
  id : Nat
  count : Nat
deriving DecidableEq, Repr

/-- The counter that the decoder reads in a state, if it reads one. -/
def reading? (t : Scan State) : Option Reading :=
  match t.state.mode with
  | .between => none
  | .inCounters position exit _ _ =>
    match Cursor.counter.run t.cursor with
    | .ok count _ => some { position, id := exit.id, count }
    | .error _ _ => none

/-- The counters that are read from a file, in their order. -/
def readings (functions : List Func) (bytes : Bytes) : List Reading :=
  match records? .data bytes with
  | some (version, cursor) =>
    (machine.trace { cursor, state := { version, functions } }).filterMap reading?
  | none => []

namespace Reading

/-- Gives its counter to an arc that the graph has, as an exit of its source. -/
def into (r : Reading) (g : FlowGraph) : FlowGraph :=
  match g.arcs[r.id]? with
  | some arc => countArc g ⟨arc.src, r.id⟩ arc r.count
  | none => g

/-- Gives its counter to an arc of one of some functions. -/
def apply (functions : List Func) (r : Reading) : List Func :=
  functions.modify r.position (·.mapGraph r.into)

end Reading

/-- What is left of a graph when counters are read into it, one after another. -/
def receive (g : FlowGraph) (rs : List Reading) : FlowGraph :=
  rs.foldl (fun g r => r.into g) g

/-- The readings for the function at a position. -/
def readingsFor (rs : List Reading) (position : Nat) : List Reading :=
  rs.filter (·.position = position)

/-- The counters for an arc. -/
def countsOf (rs : List Reading) (id : Nat) : List Nat :=
  (rs.filter (·.id = id)).map (·.count)

/-- The counters that a file delivers to an arc of the function at a position, in the order in which
they are read. -/
def delivered (functions : List Func) (bytes : Bytes) (position id : Nat) : List Nat :=
  countsOf (readingsFor (readings functions bytes) position) id

variable {g : FlowGraph} {functions : List Func} {rs : List Reading} {r : Reading}

@[simp] theorem receive_nil (g : FlowGraph) : receive g [] = g := rfl

theorem receive_concat (g : FlowGraph) (rs : List Reading) (r : Reading) :
    receive g (rs ++ [r]) = r.into (receive g rs) := by
  simp [receive]

theorem readingsFor_concat (rs : List Reading) (r : Reading) (p : Nat) :
    readingsFor (rs ++ [r]) p = readingsFor rs p ++ if r.position = p then [r] else [] := by
  simp [readingsFor, List.filter_singleton]

/-- Readings for other functions leave a function as it is. -/
theorem getElem?_foldl_apply (functions : List Func) (rs : List Reading) (p : Nat) :
    (rs.foldl Reading.apply functions)[p]?
      = (functions[p]?).map (·.mapGraph (receive · (readingsFor rs p))) := by
  induction rs using List.reverseRecOn with
  | nil => exact Option.map_id'.symm
  | append_singleton rs r ih =>
    rw [List.foldl_concat, Reading.apply, List.getElem?_modify, ih, readingsFor_concat]
    cases functions[p]? with
    | none => rfl
    | some func =>
      by_cases hp : r.position = p
      · simp [hp, receive_concat, Func.mapGraph]
      · simp [hp]

theorem length_foldl_apply (functions : List Func) (rs : List Reading) :
    (rs.foldl Reading.apply functions).length = functions.length := by
  induction rs using List.reverseRecOn with
  | nil => rfl
  | append_singleton rs r ih => rw [List.foldl_concat, Reading.apply, List.length_modify, ih]

/-! ## What becomes of a graph -/

theorem into_eq {arc : Arc} (harc : g.arcs[r.id]? = some arc) :
    r.into g = g.resolve r.id arc .exits r.count := by
  rw [Reading.into, harc]
  rfl

theorem into_eq_self (harc : g.arcs[r.id]? = none) : r.into g = g := by
  rw [Reading.into, harc]

@[simp] theorem measuredExits_receive (g : FlowGraph) (rs : List Reading) :
    measuredExits (receive g rs) = measuredExits g := by
  induction rs using List.reverseRecOn with
  | nil => rfl
  | append_singleton rs r ih =>
    rw [receive_concat, ← ih, Reading.into]
    split
    · exact measuredExits_countArc _ _ _ _
    · rfl

@[simp] theorem measuredIds_receive (g : FlowGraph) (rs : List Reading) :
    measuredIds (receive g rs) = measuredIds g := by
  rw [← map_id_measuredExits, measuredExits_receive, map_id_measuredExits]

@[simp] theorem receive_size (g : FlowGraph) (rs : List Reading) :
    (receive g rs).size = g.size := by
  induction rs using List.reverseRecOn with
  | nil => rfl
  | append_singleton rs r ih =>
    rw [receive_concat, ← ih]
    cases harc : (receive g rs).arcs[r.id]? with
    | none => rw [into_eq_self harc]
    | some arc => rw [into_eq harc, resolve_size]

@[simp] theorem receive_arcs_size (g : FlowGraph) (rs : List Reading) :
    (receive g rs).arcs.size = g.arcs.size := by
  induction rs using List.reverseRecOn with
  | nil => rfl
  | append_singleton rs r ih =>
    rw [receive_concat, ← ih]
    cases harc : (receive g rs).arcs[r.id]? with
    | none => rw [into_eq_self harc]
    | some arc =>
      rw [into_eq harc, resolve, mapBlock_arcs, mapBlock_arcs, mapArc, Array.size_modify]

theorem countsOf_concat (rs : List Reading) (r : Reading) (id : Nat) :
    countsOf (rs ++ [r]) id = countsOf rs id ++ if r.id = id then [r.count] else [] := by
  rw [countsOf, List.filter_append, List.map_append, ← countsOf, List.filter_singleton]
  by_cases hid : r.id = id <;> simp [hid]

/-- An arc holds the last counter that was read into it. -/
theorem receive_getElem? (g : FlowGraph) (rs : List Reading) (id : Nat) :
    (receive g rs).arcs[id]? = (g.arcs[id]?).map fun arc =>
      (countsOf rs id).getLast?.elim arc fun count => { arc with count, resolved := true } := by
  induction rs using List.reverseRecOn with
  | nil => exact Option.map_id'.symm
  | append_singleton rs r ih =>
    rw [receive_concat, countsOf_concat]
    by_cases hid : r.id = id
    · subst hid
      rw [if_pos rfl, List.getLast?_concat]
      cases harc : g.arcs[r.id]? with
      | none =>
        rw [harc] at ih
        rw [into_eq_self ih, ih]
        rfl
      | some arc =>
        rw [harc] at ih
        rw [into_eq ih, resolve_getElem?, if_pos rfl, ih]
        cases (countsOf rs r.id).getLast? <;> rfl
    · rw [if_neg hid, List.append_nil, ← ih]
      cases harc : (receive g rs).arcs[r.id]? with
      | none => rw [into_eq_self harc]
      | some arc => rw [into_eq harc, resolve_getElem?, if_neg hid]

/-! ## Where counters go -/

/-- Counters are expected for some exits of a function: it is the first one with its ident, and the
exits are measured. -/
def Expects (functions : List Func) (position : Nat) (exits : List Exit) : Prop :=
  ∃ func, findFunction? functions func.ident = some (position, func)
    ∧ ∀ exit ∈ exits, exit ∈ measuredExits func.graph

/-- What is found is the first function with the ident. -/
theorem of_findFunction? {ident p : Nat} {func : Func}
    (h : findFunction? functions ident = some (p, func)) :
    functions[p]? = some func ∧ func.ident = ident
      ∧ ∀ q < p, ∀ f, functions[q]? = some f → f.ident ≠ ident := by
  obtain ⟨p', hindex, h⟩ := Option.bind_eq_some_iff.mp h
  obtain ⟨func', hfunc, h⟩ := Option.bind_eq_some_iff.mp h
  cases h
  obtain ⟨hlt, hident, hbefore⟩ := List.findIdx?_eq_some_iff_getElem.mp hindex
  obtain ⟨_, hget⟩ := List.getElem?_eq_some_iff.mp hfunc
  refine ⟨hfunc, ?_, fun q hq f hf hfound => ?_⟩
  · rw [← hget]
    simpa using hident
  · obtain ⟨_, hget'⟩ := List.getElem?_eq_some_iff.mp hf
    refine hbefore q hq ?_
    rw [hget', hfound, beq_self_eq_true]

/-- Readings change no ident, so functions are found where they were. -/
theorem findFunction?_foldl_apply (functions : List Func) (rs : List Reading) (ident : Nat) :
    findFunction? (rs.foldl Reading.apply functions) ident
      = (findFunction? functions ident).map fun found =>
          (found.1, found.2.mapGraph (receive · (readingsFor rs found.1))) := by
  have hidents : (rs.foldl Reading.apply functions).map (·.ident) = functions.map (·.ident) := by
    refine List.ext_getElem? fun p => ?_
    rw [List.getElem?_map, List.getElem?_map, getElem?_foldl_apply, Option.map_map]
    rfl
  have hindex : (rs.foldl Reading.apply functions).findIdx? (·.ident == ident)
      = functions.findIdx? (·.ident == ident) := by
    have hmap := congrArg (List.findIdx? (· == ident)) hidents
    rwa [List.findIdx?_map, List.findIdx?_map] at hmap
  unfold findFunction?
  rw [hindex]
  cases functions.findIdx? (·.ident == ident) with
  | none => rfl
  | some p =>
    simp only [Option.bind_eq_bind, Option.bind_some, getElem?_foldl_apply]
    cases functions[p]? <;> rfl

/-! ## What a step reads -/

/-- Readings account for what has become of some functions. -/
structure Recorded (functions : List Func) (rs : List Reading) (counted : List Func) : Prop where
  eq : counted = rs.foldl Reading.apply functions
  expected : ∀ r ∈ rs, ∃ func, findFunction? functions func.ident = some (r.position, func)
    ∧ r.id ∈ measuredIds func.graph

/-- Readings account for what the decoder has, and it goes on where counters are expected. -/
structure Accounts (functions : List Func) (rs : List Reading) (s : State) : Prop where
  recorded : Recorded functions rs s.functions
  selected : ∀ p, s.selection = .matched p → Expects functions p []
  counting : ∀ p next further fin, s.mode = .inCounters p next further fin →
    Expects functions p (next :: further)

variable {s : State} {fin : Nat}

/-- Steps after which the readings account for what there is. -/
abbrev Step.Keeps (step : Step) (functions : List Func) (rs : List Reading) : Prop :=
  step.Leaves (Accounts functions rs) fun w => Recorded functions rs w.state

theorem Recorded.refuse (h : Recorded functions rs s.functions) (error : CoverageError) :
    (s.refuse error).Keeps functions rs :=
  Scanner.leaves_finish h

theorem Recorded.read (h : Recorded functions rs s.functions) {α : Type} (action : Read α)
    {use : α → Step} (huse : ∀ a, (use a).Keeps functions rs) :
    (s.read action use).Keeps functions rs :=
  Scanner.leaves_read (Read.yields_true action) h fun a _ => huse a

theorem Accounts.leave (h : Accounts functions rs s) (fin : Nat) :
    (s.leave fin).Keeps functions rs :=
  h.recorded.read _ fun _ => Scanner.leaves_goOn
    { recorded := h.recorded
      selected := h.selected
      counting := by rintro p next further fin ⟨⟩ }

theorem Accounts.select (h : Accounts functions rs s) (selection : Selection)
    (hselected : ∀ p, selection = .matched p → Expects functions p []) :
    Accounts functions rs (s.select selection) where
  recorded := h.recorded
  selected := hselected
  counting := h.counting

theorem Accounts.logging (h : Accounts functions rs s) (event : LogEvent) :
    Accounts functions rs (s.logging event) where
  recorded := h.recorded
  selected := h.selected
  counting := h.counting

theorem Accounts.resume (h : Accounts functions rs s) {position : Nat} {exits : List Exit}
    (hexits : Expects functions position exits) (fin : Nat) :
    (resume s position exits fin).Keeps functions rs := by
  cases exits with
  | nil => exact (h.select .none (by rintro p ⟨⟩)).leave fin
  | cons next further =>
    refine Scanner.leaves_goOn { recorded := h.recorded, selected := h.selected, counting := ?_ }
    rintro p n f e ⟨⟩
    exact hexits

/-- The record of a function selects the first function with its ident. -/
theorem Accounts.readFunction (h : Accounts functions rs s) (fin : Nat) :
    (readFunction s fin).Keeps functions rs := by
  refine h.recorded.read _ fun ident => ?_
  rw [h.recorded.eq, findFunction?_foldl_apply]
  cases hfound : findFunction? functions ident with
  | none =>
    exact ((h.select .unmatched (by rintro p ⟨⟩)).logging _).leave fin
  | some found =>
    obtain ⟨p, func⟩ := found
    obtain ⟨-, rfl, -⟩ := of_findFunction? hfound
    have hexpects : Expects functions p [] := ⟨func, hfound, by simp⟩
    refine h.recorded.read _ fun checksum => ?_
    split
    · refine h.recorded.read _ fun _ => (h.select (.matched p) ?_).leave fin
      rintro q ⟨⟩
      exact hexpects
    · exact h.recorded.refuse _

/-- A record of counters is about the exits that the selected function measures. -/
theorem Accounts.beginCounters (h : Accounts functions rs s) (fin : Nat) :
    (beginCounters s fin).Keeps functions rs := by
  unfold Counters.beginCounters
  split
  · exact h.recorded.refuse _
  · exact ((h.select .none (by rintro p ⟨⟩)).logging _).leave fin
  · next position hselection =>
    split
    · exact h.recorded.refuse _
    · next func hfunc =>
      split
      · exact h.recorded.refuse _
      · obtain ⟨func₀, hfound, -⟩ := h.selected position hselection
        obtain ⟨hfunc₀, -⟩ := of_findFunction? hfound
        rw [h.recorded.eq, getElem?_foldl_apply, hfunc₀] at hfunc
        cases hfunc
        refine h.resume ⟨func₀, hfound, fun exit hexit => ?_⟩ fin
        change exit ∈ measuredExits (receive func₀.graph _) at hexit
        rwa [measuredExits_receive] at hexit

theorem Accounts.readTag (h : Accounts functions rs s) : (readTag s).Keeps functions rs := by
  refine h.recorded.read _ fun tag => ?_
  split
  · exact Scanner.leaves_goOn h
  · refine h.recorded.read _ fun (length, fin) => ?_
    dsimp only
    split
    · exact h.readFunction fin
    · split
      · exact h.beginCounters fin
      · split
        · exact h.recorded.read _ fun _ => h.leave fin
        · split
          · exact h.recorded.read _ fun _ => h.leave fin
          · exact h.leave fin

/-- A counter goes to the arc that it is expected for. -/
theorem Accounts.assign (h : Accounts functions rs s)
    (hlinked : ∀ func ∈ functions, func.graph.Linked) {position fin : Nat} {exit : Exit}
    {further : List Exit} (hmode : s.mode = .inCounters position exit further fin) :
    ∃ func arc, s.functions[position]? = some func ∧ func.graph.arcs[exit.id]? = some arc
      ∧ arc.dst < func.graph.size ∧ ∀ count,
        Accounts functions (rs ++ [⟨position, exit.id, count⟩])
          (assign s position exit arc count) := by
  obtain ⟨func₀, hfound, hexits⟩ := h.counting position exit further fin hmode
  obtain ⟨hfunc₀, -⟩ := of_findFunction? hfound
  have hfunc : s.functions[position]?
      = some (func₀.mapGraph (receive · (readingsFor rs position))) := by
    rw [h.recorded.eq, getElem?_foldl_apply, hfunc₀, Option.map_some]
  have hexit := hexits exit List.mem_cons_self
  have hlinked₀ := hlinked func₀ (List.mem_of_getElem? hfunc₀)
  have harc₀ := Array.getElem?_eq_getElem (lt_arcs_of_mem_measuredIds (id_mem_measuredIds hexit))
  have hends := And.intro (src_of_mem_measuredExits hlinked₀ hexit harc₀)
    (hlinked₀.nearEnd_lt harc₀ .entries)
  -- counters that were read before have not changed where the arc leads
  obtain ⟨arc, harc, hsrc, hdst⟩ : ∃ arc,
      (receive func₀.graph (readingsFor rs position)).arcs[exit.id]? = some arc
        ∧ arc.src = exit.block ∧ arc.dst < func₀.graph.size := by
    rw [receive_getElem?, harc₀, Option.map_some]
    refine ⟨_, rfl, ?_⟩
    cases (countsOf (readingsFor rs position) exit.id).getLast? <;> exact hends
  refine ⟨_, arc, hfunc, harc, ?_, fun count => ?_⟩
  · show arc.dst < (receive func₀.graph _).size
    rwa [receive_size]
  · refine {
      recorded := {
        eq := ?_
        expected := ?_ }
      selected := h.selected
      counting := h.counting }
    · rw [List.foldl_concat, ← h.recorded.eq, Reading.apply]
      refine (modify_eq_set_of_getElem? hfunc _).trans
        ((modify_eq_set_of_getElem? hfunc _).trans ?_).symm
      have hinto : Reading.into ⟨position, exit.id, count⟩
            (receive func₀.graph (readingsFor rs position))
          = countArc (receive func₀.graph (readingsFor rs position)) exit arc count :=
        (into_eq harc).trans (countArc_eq_resolve hsrc).symm
      simp only [Func.mapGraph, hinto]
    · intro r hr
      rcases List.mem_append.mp hr with hr | hr
      · exact h.recorded.expected r hr
      · obtain rfl := List.mem_singleton.mp hr
        exact ⟨func₀, hfound, id_mem_measuredIds hexit⟩

/-- A step adds the counter that it reads to those that were read before. -/
theorem Accounts.step {t : Scan State} (h : Accounts functions rs t.state)
    (hlinked : ∀ func ∈ functions, func.graph.Linked) :
    (∀ u, machine.step t = .next u → Accounts functions (rs ++ (reading? t).toList) u.state)
      ∧ ∀ w, machine.step t = .stop w →
          Recorded functions (rs ++ (reading? t).toList) w.state := by
  change (∀ u, Counters.step t.state t.cursor = .next u → _)
    ∧ ∀ w, Counters.step t.state t.cursor = .stop w → _
  cases hmode : t.state.mode with
  | between =>
    have hstep : Counters.step t.state = Counters.readTag t.state := by
      rw [Counters.step, hmode]
    have hnone : reading? t = none := by rw [reading?, hmode]
    rw [hnone, Option.toList_none, List.append_nil, hstep]
    exact ⟨h.readTag.next t.cursor, h.readTag.stop t.cursor⟩
  | inCounters position exit further fin =>
    obtain ⟨func, arc, hfunc, harc, hdst, hassign⟩ := h.assign hlinked hmode
    cases hcount : Cursor.counter.run t.cursor with
    | error e c =>
      have hstep : Counters.step t.state t.cursor = .stop t.state.close := by
        simp only [Counters.step, hmode, readCounter, State.read, Scanner.read, hcount]
      have hnone : reading? t = none := by simp only [reading?, hmode, hcount]
      rw [hnone, Option.toList_none, List.append_nil, hstep]
      constructor
      · rintro u ⟨⟩
      · rintro w ⟨⟩
        exact h.recorded
    | ok count c =>
      have hstep : Counters.step t.state t.cursor = Counters.resume
          (Counters.assign t.state position exit arc count) position further fin c := by
        simp only [Counters.step, hmode, readCounter, State.read, Scanner.read, hcount, hfunc, harc,
          if_pos hdst]
      have hsome : reading? t = some ⟨position, exit.id, count⟩ := by
        simp only [reading?, hmode, hcount]
      have hfurther : Expects functions position further := by
        obtain ⟨func₀, hfound, hexits⟩ := h.counting position exit further fin hmode
        exact ⟨func₀, hfound, fun other hother => hexits other (List.mem_cons_of_mem exit hother)⟩
      have hresume := (hassign count).resume hfurther fin
      rw [hsome, Option.toList_some, hstep]
      exact ⟨hresume.next c, hresume.stop c⟩

/-! ## What a run reads -/

/-- The counters that are read along a run account for what it leaves. -/
theorem Accounts.run {t : Scan State} (h : Accounts functions rs t.state)
    (hlinked : ∀ func ∈ functions, func.graph.Linked) :
    Recorded functions (rs ++ (machine.trace t).filterMap reading?) (machine.run t).state := by
  refine machine.run_induction (motive := fun t w => ∀ rs, Accounts functions rs t.state →
    Recorded functions (rs ++ (machine.trace t).filterMap reading?) w.state) ?_ ?_ t rs h
  · intro t w hstop rs h
    have hlast := (h.step hlinked).2 w hstop
    rw [machine.trace_of_stop hstop]
    cases hreading : reading? t <;> simpa [hreading] using hlast
  · intro t u hnext ih rs h
    have hrest := ih _ ((h.step hlinked).1 u hnext)
    rw [machine.trace_of_next hnext]
    cases hreading : reading? t <;> simpa [hreading] using hrest

/-- The counters that are read from a file account for what it does to functions, whether all of it
is read or not.  They go to measured arcs of functions that come first with their idents. -/
theorem decode_readings (hlinked : ∀ func ∈ functions, func.graph.Linked) (bytes : Bytes) :
    Recorded functions (readings functions bytes) (decode functions bytes).state := by
  have hnothing : Recorded functions [] functions := ⟨rfl, by simp⟩
  unfold readings
  cases hrecords : records? .data bytes with
  | none =>
    rw [decode_of_no_records functions hrecords]
    exact hnothing
  | some head =>
    obtain ⟨version, cursor⟩ := head
    obtain ⟨log, hdecode⟩ := decode_of_records functions hrecords
    have hstart : Accounts functions [] { version, functions } :=
      { recorded := hnothing, selected := by rintro p ⟨⟩, counting := by rintro p n f e ⟨⟩ }
    rw [hdecode]
    exact Accounts.run (t := { cursor, state := { version, functions } }) hstart hlinked

end Coverage.Counters
