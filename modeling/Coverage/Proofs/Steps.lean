import Coverage.Counters
import Coverage.Notes
import Coverage.Proofs.NotesLikeness

/-!
# What one step may do

The decoders do few things to what they know, and each thing in one place.  `Notes.Change` and
`Counters.Change` list them, with what is known of the state in which they are done; `step_leaves`
says of both decoders that there is nothing else, whatever the bytes are.  What a decoder keeps is
then a matter of going through the list.
-/

namespace Coverage

universe u v

/-! ## What a step leaves -/

namespace Scanner

variable {σ : Type u} {ω : Type v} {α : Type} {P : σ → Prop} {Q : ω → Prop}

/-- `scanner.Leaves P Q`: where the step goes on, what is known then is in `P`; where it ends, the
outcome is in `Q`. -/
structure Leaves (scanner : Scanner σ ω) (P : σ → Prop) (Q : ω → Prop) : Prop where
  next : ∀ c t, scanner c = .next t → P t.state
  stop : ∀ c w, scanner c = .stop w → Q w

theorem leaves_goOn {t : σ} (h : P t) : Leaves (goOn t) P Q where
  next := by
    rintro c u ⟨⟩
    exact h
  stop := by
    rintro c w ⟨⟩

theorem leaves_finish {w : ω} (h : Q w) : Leaves (finish w) P Q where
  next := by
    rintro c t ⟨⟩
  stop := by
    rintro c v ⟨⟩
    exact h

theorem leaves_read {action : Read α} {R : α → Prop} (haction : action.Yields R) {close : ω}
    {use : α → Scanner σ ω} (hclose : Q close) (huse : ∀ a, R a → (use a).Leaves P Q) :
    Leaves (read action close use) P Q where
  next := by
    intro c t ht
    unfold read at ht
    split at ht
    · next a c' ha => exact (huse a (haction c a c' ha)).next c' t ht
    · cases ht
  stop := by
    intro c w hw
    unfold read at hw
    split at hw
    · next a c' ha => exact (huse a (haction c a c' ha)).stop c' w hw
    · cases hw
      exact hclose

/-- What a run leaves, if a relation to the outcome is passed back along every step. -/
theorem run_of_leaves {step : σ → Scanner σ ω} {h : ∀ state, (step state).Advances 1}
    {change : σ → σ → Prop} {ends : σ → ω → Prop}
    (hstep : ∀ s, (step s).Leaves (change s) (ends s))
    (hback : ∀ s t w, change s t → ends t w → ends s w) (s : Scan σ) :
    ends s.state ((machine step h).run s) := by
  refine (machine step h).run_induction (motive := fun s w => ends s.state w) ?_ ?_ s
  · intro s w hs
    exact (hstep s.state).stop s.cursor w hs
  · intro s t hs hrest
    exact hback _ _ _ ((hstep s.state).next s.cursor t hs) hrest

end Scanner

/-! ## Notes files -/

namespace Notes

/-- What a step that goes on does to what is known. -/
inductive Change (s : State) : State → Prop
  /-- Moves on to another record, or to another place in one. -/
  | move (mode : Mode) : Change s { s with mode }
  | openFunction (header : Func) : header.graph = {} → Change s (openFunction s header)
  | setBlocks (func : Func) (count : Nat) :
      s.current = some func → Change s (setBlocks s func count)
  | linkArc (func : Func) (src dst flags : Nat) (mode : Mode) :
      s.current = some func → dst < func.graph.size →
      Change s { s with current := some (linkArc func src dst flags), mode }
  | nameSource (name : String) : Change s (nameSource s name)
  | emitLine (func : Func) (block source line : Nat) (emitted : Option Nat) :
      s.current = some func → s.source = some source → line ≠ 0 →
      Change s (emitLine s func block source line emitted)

/-- How a step ends: with the functions so far, or at a record that cannot be accepted. -/
inductive Ends (s : State) : Result → Prop
  | close : Ends s s.close
  | refuse (error : CoverageError) :
      error.kind = .parsing → Ends s { state := s.registry, result := .error error, log := s.log }

variable {s : State}

/-- Steps that make one change, or end. -/
abbrev Step.Does (step : Step) (s : State) : Prop :=
  step.Leaves (Change s) (Ends s)

theorem does_goOn {t : State} (h : Change s t) : Step.Does t.goOn s :=
  Scanner.leaves_goOn h

theorem does_refuse {error : CoverageError} (h : error.kind = .parsing) :
    Step.Does (s.refuse error) s :=
  Scanner.leaves_finish (.refuse error h)

theorem does_read {α : Type} (action : Read α) {use : α → Step}
    (huse : ∀ a, Step.Does (use a) s) : Step.Does (s.read action use) s :=
  Scanner.leaves_read (Read.yields_true action) .close fun a _ => huse a

theorem does_within (record : GraphRecord) {use : Func → Step}
    (huse : ∀ func, s.current = some func → Step.Does (use func) s) :
    Step.Does (s.within record use) s := by
  unfold State.within
  split
  · next func hcurrent => exact huse func hcurrent
  · exact does_refuse rfl

theorem does_withBlock (func : Func) (index : Nat) {use : Step}
    (huse : index < func.graph.size → Step.Does use s) :
    Step.Does (s.withBlock func index use) s := by
  unfold State.withBlock
  split
  · next hindex => exact huse hindex
  · exact does_refuse rfl

theorem readArc_does {func : Func} (hcurrent : s.current = some func) (src further : Nat) :
    Step.Does (readArc s func src further) s := by
  apply does_read
  rintro ⟨dst, flags⟩
  apply does_withBlock
  intro hdst
  exact does_goOn (.linkArc func src dst flags _ hcurrent hdst)

theorem readLine_does {func : Func} (hcurrent : s.current = some func) (block : Nat)
    (emitted : Option Nat) : Step.Does (readLine s func block emitted) s := by
  apply does_read
  intro line
  split
  · apply does_read
    intro name
    split
    · exact does_goOn (.move _)
    · exact does_goOn (.nameSource name)
  · next hline =>
    split
    · exact does_refuse rfl
    · next source hsource =>
      exact does_goOn (.emitLine func block source line emitted hcurrent hsource hline)

theorem readGraphRecord_does (s : State) (record : GraphRecord) (length : Nat) :
    Step.Does (readGraphRecord s record length) s := by
  apply does_within
  intro func hcurrent
  cases record with
  | blocks =>
    apply does_read
    intro count
    exact does_goOn (.setBlocks func count hcurrent)
  | arcs =>
    apply does_read
    intro src
    apply does_withBlock
    intro _
    exact does_goOn (.move _)
  | lines =>
    apply does_read
    intro block
    apply does_withBlock
    intro _
    exact does_goOn (.move _)

theorem readTag_does (s : State) : Step.Does (readTag s) s := by
  apply does_read
  intro word
  split
  · exact does_goOn (.move s.mode)
  · apply does_read
    intro length
    split
    · refine Scanner.leaves_read (readHeader_yields s.version) .close ?_
      intro header hgraph
      exact does_goOn (.openFunction header hgraph)
    · exact readGraphRecord_does s _ length

/-- Whatever the bytes are, a step makes one change, or ends. -/
theorem step_leaves (s : State) : Step.Does (step s) s := by
  unfold step
  split
  · exact readTag_does s
  · apply does_within
    intro func hcurrent
    exact readArc_does hcurrent _ _
  · apply does_within
    intro func hcurrent
    exact readLine_does hcurrent _ _

theorem Change.extends {s t : State} (h : Change s t) : s.registry.Extends t.registry := by
  cases h with
  | move => exact .refl _
  | openFunction header _ => exact Registry.extends_addFunc _ header
  | setBlocks => exact .refl _
  | linkArc => exact .refl _
  | nameSource name => exact Registry.extends_findOrAdd _ name
  | emitLine func block source line emitted _ _ _ =>
    exact Registry.extends_mapFile _ source (fun _ => rfl) fun file =>
      Registry.lineCount_extendTo file line

/-- Decoding leaves what the records leave, or what was there before if there are none. -/
theorem decode_cases (r : Registry) (bytes : Bytes) :
    ((decode r bytes).state = r
        ∧ ∀ functions, (decode r bytes).result = .ok functions → functions = [])
      ∨ ∃ version cursor, (decode r bytes).state = (decodeRecords r version cursor).state
        ∧ (decode r bytes).result = (decodeRecords r version cursor).result := by
  unfold decode
  split
  · left
    refine ⟨rfl, ?_⟩
    rintro functions ⟨⟩
  · dsimp only
    split
    · left
      refine ⟨rfl, ?_⟩
      rintro functions ⟨⟩
      rfl
    · right
      exact ⟨_, _, rfl, rfl⟩

theorem functions_of_current {s : State} {func : Func} (h : s.current = some func) :
    s.functions = s.finished ++ [func] := by
  rw [State.functions, h]
  rfl

end Notes

/-! ## Data files -/

namespace Counters

/-- What a step does to the functions: nothing, or it gives one arc its counter. -/
inductive Change (functions : List Func) : List Func → Prop
  | none : Change functions functions
  | count (position : Nat) (exit : Exit) (count : Nat) (func : Func) (arc : Arc) :
      functions[position]? = some func → func.graph.arcs[exit.id]? = some arc →
      Change functions (functions.modify position (·.mapGraph (countArc · exit arc count)))

variable {s : State}

/-- Steps that leave the functions as they are, or with one more counter. -/
abbrev Step.Does (step : Step) (functions : List Func) : Prop :=
  step.Leaves (fun t => Change functions t.functions) fun w => Change functions w.state

theorem does_goOn {functions : List Func} {t : State} (h : Change functions t.functions) :
    Step.Does t.goOn functions :=
  Scanner.leaves_goOn h

theorem does_refuse {functions : List Func} {t : State} (h : Change functions t.functions)
    (error : CoverageError) : Step.Does (t.refuse error) functions :=
  Scanner.leaves_finish h

theorem does_read {functions : List Func} {t : State} (h : Change functions t.functions) {α : Type}
    (action : Read α) {use : α → Step} (huse : ∀ a, Step.Does (use a) functions) :
    Step.Does (t.read action use) functions :=
  Scanner.leaves_read (Read.yields_true action) h fun a _ => huse a

theorem does_leave {functions : List Func} {t : State} (h : Change functions t.functions)
    (fin : Nat) : Step.Does (t.leave fin) functions :=
  does_read h _ fun _ => does_goOn h

theorem does_resume {functions : List Func} {t : State} (h : Change functions t.functions)
    (position : Nat) (exits : List Exit) (fin : Nat) :
    Step.Does (resume t position exits fin) functions := by
  cases exits with
  | nil => exact does_leave (t := t.select .none) h fin
  | cons next further => exact does_goOn h

theorem readFunction_does (s : State) (fin : Nat) :
    Step.Does (readFunction s fin) s.functions := by
  refine does_read .none _ fun ident => ?_
  split
  · refine does_read .none _ fun checksum => ?_
    split
    · exact does_read .none _ fun _ => does_leave .none fin
    · exact does_refuse .none _
  · exact does_leave .none fin

theorem beginCounters_does (s : State) (fin : Nat) :
    Step.Does (beginCounters s fin) s.functions := by
  unfold beginCounters
  split
  · exact does_refuse .none _
  · exact does_leave .none fin
  · split
    · exact does_refuse .none _
    · split
      · exact does_refuse .none _
      · exact does_resume .none _ _ _

theorem readCounter_does (s : State) (position : Nat) (exit : Exit) (further : List Exit)
    (fin : Nat) : Step.Does (readCounter s position exit further fin) s.functions := by
  refine does_read .none _ fun count => ?_
  split
  · exact does_refuse .none _
  · next func hfunc =>
    split
    · exact does_refuse .none _
    · next arc harc =>
      have hchange : Change s.functions (assign s position exit arc count).functions :=
        .count position exit count func arc hfunc harc
      split
      · exact does_resume hchange _ _ _
      · exact does_refuse hchange _

/-- Whatever the bytes are, a step gives at most one arc its counter. -/
theorem step_leaves (s : State) : Step.Does (step s) s.functions := by
  unfold step
  split
  · refine does_read .none _ fun tag => ?_
    split
    · exact does_goOn .none
    · refine does_read .none _ fun (length, fin) => ?_
      dsimp only
      split
      · exact readFunction_does s fin
      · split
        · exact beginCounters_does s fin
        · split
          · exact does_read .none _ fun _ => does_leave .none fin
          · split
            · exact does_read .none _ fun _ => does_leave .none fin
            · exact does_leave .none fin
  · exact readCounter_does s _ _ _ _

end Counters

end Coverage
