import Coverage.Proofs.Frames
import Coverage.Proofs.SideBySide

/-!
# Decoders of two buffers

Two decoders may read different buffers and still go on together: from places that correspond they
read values that correspond and come to such places again, or both of them meet an end
(`Read.Parallel`).  Their steps then agree, and in the end so do their outcomes
(`Scanner.run_parallel`).

What the decoder of data needs for this is that places correspond for the five actions that it reads
with, and ends of records for two of them (`Counters.Parallel`).
-/

namespace Coverage

universe u v

/-! ## Reading -/

/-- What two actions make of two places: values and places that correspond, or two failures. -/
inductive Read.Matches {α β : Type} (C : Cursor → Cursor → Prop) (R : α → β → Prop) :
    EStateM.Result EndOfInput Cursor α → EStateM.Result EndOfInput Cursor β → Prop
  | ok {a : α} {b : β} {c c' : Cursor} : R a b → C c c' → Matches C R (.ok a c) (.ok b c')
  | error {e e' : EndOfInput} {c c' : Cursor} : Matches C R (.error e c) (.error e' c')

/-- `action.Parallel C R other`: from places that correspond by `C`, the actions read values that
correspond by `R` and come to places that correspond, or both fail. -/
def Read.Parallel {α β : Type} (action : Read α) (C : Cursor → Cursor → Prop) (R : α → β → Prop)
    (other : Read β) : Prop :=
  ∀ c c', C c c' → Read.Matches C R (action.run c) (other.run c')

/-! ## Steps -/

/-- Decoders at places that correspond, in states that correspond. -/
structure Scan.Parallel {σ τ : Type u} (C : Cursor → Cursor → Prop) (S : σ → τ → Prop)
    (s : Scan σ) (t : Scan τ) : Prop where
  cursor : C s.cursor t.cursor
  state : S s.state t.state

namespace Scanner

variable {σ τ : Type u} {ω : Type v} {α β : Type} {C : Cursor → Cursor → Prop} {S : σ → τ → Prop}

/-- `scanner.Parallel C S other`: the steps go on together, or stop with the same outcome. -/
def Parallel (scanner : Scanner σ ω) (C : Cursor → Cursor → Prop) (S : σ → τ → Prop)
    (other : Scanner τ ω) : Prop :=
  ∀ c c', C c c' → (scanner c).Agrees (Scan.Parallel C S) (fun w w' => w' = w) (other c')

theorem parallel_goOn {s : σ} {t : τ} (h : S s t) :
    Parallel (goOn (ω := ω) s) C S (goOn t) :=
  fun _ _ hc => .next ⟨hc, h⟩

theorem parallel_finish (w : ω) : Parallel (finish (σ := σ) w) C S (finish w) :=
  fun _ _ _ => .stop rfl

theorem parallel_read {action : Read α} {other : Read β} {R : α → β → Prop}
    (haction : action.Parallel C R other) {close : ω} {use : α → Scanner σ ω}
    {use' : β → Scanner τ ω} (huse : ∀ a b, R a b → (use a).Parallel C S (use' b)) :
    Parallel (read action close use) C S (read other close use') := by
  intro c c' hc
  have hread := haction c c' hc
  unfold read
  generalize action.run c = first at hread
  generalize other.run c' = second at hread
  cases hread with
  | ok hR hc => exact huse _ _ hR _ _ hc
  | error => exact .stop rfl

/-- Decoders whose steps are parallel come to the same outcome. -/
theorem run_parallel {step : σ → Scanner σ ω} {step' : τ → Scanner τ ω}
    {h : ∀ s, (step s).Advances 1} {h' : ∀ t, (step' t).Advances 1}
    (hstep : ∀ s t, S s t → (step s).Parallel C S (step' t)) {s : Scan σ} {t : Scan τ}
    (hst : s.Parallel C S t) : (machine step' h').run t = (machine step h).run s := by
  refine Machine.run_agrees (R := Scan.Parallel C S) (Q := fun w w' => w' = w) ?_ hst
  exact fun s t hst => hstep _ _ hst.state _ _ hst.cursor

end Scanner

/-! ## Data -/

namespace Counters

open Scanner

/-- `Parallel C F`: from places that correspond by `C` the decoder reads the same and comes to such
places, but that the ends of records correspond by `F`. -/
structure Parallel (C : Cursor → Cursor → Prop) (F : Nat → Nat → Prop) : Prop where
  word : Cursor.word.Parallel C (fun a b => b = a) Cursor.word
  counter : Cursor.counter.Parallel C (fun a b => b = a) Cursor.counter
  skipWords : ∀ count, (Cursor.skipWords count).Parallel C (fun _ _ => True)
    (Cursor.skipWords count)
  skipTo : ∀ {fin fin' : Nat}, F fin fin' →
    (Cursor.skipTo fin).Parallel C (fun _ _ => True) (Cursor.skipTo fin')
  readFrame : readFrame.Parallel C (fun a b => b.1 = a.1 ∧ F a.2 b.2) readFrame

/-- `Alongside F s t`: states that are the same, but that the ends of the records that they are in
correspond by `F`. -/
inductive State.Alongside (F : Nat → Nat → Prop) : State → State → Prop
  | between (s : State) : s.mode = .between → Alongside F s s
  | inCounters (s : State) (position : Nat) (next : Exit) (further : List Exit) {fin fin' : Nat} :
    F fin fin' → Alongside F { s with mode := .inCounters position next further fin }
      { s with mode := .inCounters position next further fin' }

section Steps

variable {C : Cursor → Cursor → Prop} {F : Nat → Nat → Prop} (h : Parallel C F) {fin fin' : Nat}
  (hfin : F fin fin')

include h hfin

/-- The modes that the decoders have when they leave a record make no difference. -/
theorem leave_parallel (s : State) (mode mode' : Mode) :
    ({ s with mode }.leave fin).Parallel C (State.Alongside F)
      ({ s with mode := mode' }.leave fin') :=
  parallel_read (h.skipTo hfin) fun _ _ _ => parallel_goOn (.between _ rfl)

theorem confirm_parallel (s : State) (position : Nat) (func : Func) :
    (confirm s position func fin).Parallel C (State.Alongside F) (confirm s position func fin') := by
  refine parallel_read h.word fun checksum checksum' hsame => ?_
  subst hsame
  split
  · exact parallel_read (h.skipWords _) fun _ _ _ =>
      leave_parallel h hfin (s.select (.matched position)) s.mode s.mode
  · exact parallel_finish _

theorem readFunction_parallel (s : State) :
    (readFunction s fin).Parallel C (State.Alongside F) (readFunction s fin') := by
  refine parallel_read h.word fun ident ident' hsame => ?_
  subst hsame
  split
  · exact confirm_parallel h hfin s _ _
  · exact leave_parallel h hfin ((s.select .unmatched).logging _) s.mode s.mode

theorem resume_parallel (s : State) (mode mode' : Mode) (position : Nat) (exits : List Exit) :
    (resume { s with mode } position exits fin).Parallel C (State.Alongside F)
      (resume { s with mode := mode' } position exits fin') := by
  cases exits with
  | nil => exact leave_parallel h hfin (s.select .none) mode mode'
  | cons next further => exact parallel_goOn (.inCounters s position next further hfin)

theorem beginCounters_parallel (s : State) :
    (beginCounters s fin).Parallel C (State.Alongside F) (beginCounters s fin') := by
  unfold beginCounters
  split
  · exact parallel_finish _
  · exact leave_parallel h hfin ((s.select .none).logging _) s.mode s.mode
  · split
    · exact parallel_finish _
    · split
      · exact parallel_finish _
      · exact resume_parallel h hfin s _ _ _ _

theorem readCounter_parallel (s : State) (mode mode' : Mode) (position : Nat) (exit : Exit)
    (further : List Exit) :
    (readCounter { s with mode } position exit further fin).Parallel C (State.Alongside F)
      (readCounter { s with mode := mode' } position exit further fin') := by
  refine parallel_read h.counter fun count count' hsame => ?_
  subst hsame
  dsimp only
  split
  · exact parallel_finish _
  · split
    · exact parallel_finish _
    · next arc _ =>
      split
      · exact resume_parallel h hfin (assign s position exit arc count') mode mode' position further
      · exact parallel_finish _

theorem handle_parallel (s : State) (tag length : Nat) :
    (handle s tag length fin).Parallel C (State.Alongside F) (handle s tag length fin') := by
  unfold handle
  split
  · exact readFunction_parallel h hfin s
  · split
    · exact beginCounters_parallel h hfin s
    · split
      · exact parallel_read (h.skipWords _) fun _ _ _ => leave_parallel h hfin s _ _
      · split
        · exact parallel_read (h.skipWords _) fun _ _ _ => leave_parallel h hfin s _ _
        · exact leave_parallel h hfin s _ _

omit hfin in
/-- The decoder of data does the same at places that correspond. -/
theorem step_parallel {s t : State} (hst : s.Alongside F t) :
    (step s).Parallel C (State.Alongside F) (step t) := by
  cases hst with
  | between s hmode =>
    rw [step, hmode]
    refine parallel_read h.word fun tag tag' hsame => ?_
    subst hsame
    split
    · exact parallel_goOn (.between s hmode)
    · refine parallel_read h.readFrame ?_
      rintro ⟨length, fin⟩ ⟨length', fin'⟩ ⟨hsame, hfin⟩
      dsimp only at hsame
      subst hsame
      exact handle_parallel h hfin s tag' length'
  | inCounters s position next further hfin =>
    exact readCounter_parallel h hfin s _ _ position next further

end Steps

end Counters

end Coverage
