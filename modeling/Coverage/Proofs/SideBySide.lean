import Coverage.Binary.Scan
import Coverage.Outcome

/-!
# Runs side by side

Two machines that go on together and stop together can be compared from their first states to
their outcomes: it is enough that every pair of steps leads from related states to related states,
or to related outcomes (`Machine.run_agrees`).  Decoders that read the same buffer are compared
piece by piece in the same way: they stand at the same place, so one read serves both
(`Scanner.agrees_read`).

A machine may also be compared with itself, and then the relation says what a run keeps.
-/

namespace Coverage

universe u v

variable {σ τ : Type u} {ω υ : Type v}

/-! ## Machines -/

/-- What two steps leave: related states, or related outcomes. -/
inductive Verdict.Agrees (R : σ → τ → Prop) (Q : ω → υ → Prop) :
    Verdict σ ω → Verdict τ υ → Prop
  | next {s : σ} {t : τ} : R s t → Agrees R Q (.next s) (.next t)
  | stop {w : ω} {w' : υ} : Q w w' → Agrees R Q (.stop w) (.stop w')

/-- Machines whose steps agree reach related outcomes from related states. -/
theorem Machine.run_agrees {m : Machine σ ω} {m' : Machine τ υ} {R : σ → τ → Prop}
    {Q : ω → υ → Prop} (hstep : ∀ s t, R s t → (m.step s).Agrees R Q (m'.step t)) {s : σ} {t : τ}
    (h : R s t) : Q (m.run s) (m'.run t) := by
  refine m.run_induction (motive := fun s w => ∀ t, R s t → Q w (m'.run t)) ?_ ?_ s t h
  · intro s w hs t h
    have hagrees := hstep s t h
    rw [hs] at hagrees
    cases ht : m'.step t with
    | next t' =>
      rw [ht] at hagrees
      cases hagrees
    | stop w' =>
      rw [ht] at hagrees
      cases hagrees with
      | stop hw =>
        rw [m'.run_of_stop ht]
        exact hw
  · intro s s' hs ih t h
    have hagrees := hstep s t h
    rw [hs] at hagrees
    cases ht : m'.step t with
    | next t' =>
      rw [ht] at hagrees
      cases hagrees with
      | next hstate =>
        rw [m'.run_of_next ht]
        exact ih t' hstate
    | stop w' =>
      rw [ht] at hagrees
      cases hagrees

/-! ## Reading -/

namespace Read

variable {α β : Type}

/-- `action.Yields P`: whatever the action reads has the property. -/
def Yields (action : Read α) (P : α → Prop) : Prop :=
  ∀ c a c', action.run c = .ok a c' → P a

theorem yields_true (action : Read α) : action.Yields fun _ => True :=
  fun _ _ _ _ => trivial

theorem yields_pure {P : α → Prop} {a : α} (ha : P a) : Yields (pure a) P := by
  rintro c b c' ⟨⟩
  exact ha

theorem yields_bind {P : β → Prop} {action : Read α} {next : α → Read β}
    (hnext : ∀ a, (next a).Yields P) : Yields (action >>= next) P := by
  intro c b c' h
  simp only [EStateM.run, Bind.bind, EStateM.bind] at h
  split at h
  · next a d _ => exact hnext a d b c' h
  · cases h

end Read

/-! ## Decoders -/

/-- Decoders at the same place of the same buffer, in related states. -/
structure Scan.Agrees (R : σ → τ → Prop) (s : Scan σ) (t : Scan τ) : Prop where
  cursor : s.cursor = t.cursor
  state : R s.state t.state

namespace Scanner

/-- Decoders whose steps agree wherever they stand. -/
def Agrees (R : σ → τ → Prop) (Q : ω → υ → Prop) (scanner : Scanner σ ω) (other : Scanner τ υ) :
    Prop :=
  ∀ cursor, (scanner cursor).Agrees (Scan.Agrees R) Q (other cursor)

variable {R : σ → τ → Prop} {Q : ω → υ → Prop} {α : Type}

theorem agrees_goOn {s : σ} {t : τ} (h : R s t) : Agrees R Q (goOn s) (goOn t) :=
  fun _ => .next ⟨rfl, h⟩

theorem agrees_finish {w : ω} {w' : υ} (h : Q w w') : Agrees R Q (finish w) (finish w') :=
  fun _ => .stop h

/-- What one decoder reads the other reads too, or both are done. -/
theorem agrees_read {action : Read α} {P : α → Prop} (haction : action.Yields P) {close : ω}
    {close' : υ} {use : α → Scanner σ ω} {use' : α → Scanner τ υ} (hclose : Q close close')
    (huse : ∀ a, P a → Agrees R Q (use a) (use' a)) :
    Agrees R Q (read action close use) (read action close' use') := by
  intro cursor
  unfold read
  split
  · next a cursor' ha => exact huse a (haction cursor a cursor' ha) cursor'
  · exact .stop hclose

/-- Decoders whose steps agree reach related outcomes from related states. -/
theorem run_agrees {step : σ → Scanner σ ω} {step' : τ → Scanner τ υ}
    {h : ∀ s, (step s).Advances 1} {h' : ∀ t, (step' t).Advances 1}
    (hstep : ∀ s t, R s t → Agrees R Q (step s) (step' t)) {cursor : Cursor} {s : σ} {t : τ}
    (hst : R s t) : Q ((machine step h).run { cursor, state := s })
      ((machine step' h').run { cursor, state := t }) := by
  refine Machine.run_agrees (R := Scan.Agrees R) (fun scan other hscan => ?_) ⟨rfl, hst⟩
  obtain ⟨hcursor, hstate⟩ := hscan
  show (step scan.state scan.cursor).Agrees _ _ (step' other.state other.cursor)
  rw [hcursor]
  exact hstep _ _ hstate other.cursor

end Scanner

/-! ## Results -/

/-- Results that end alike: with related values, or with the same error, which is not that of a
position beyond the end of a list. -/
inductive EndsAlike {α β : Type} (R : α → β → Prop) :
    Except CoverageError α → Except CoverageError β → Prop
  | ok {a : α} {b : β} : R a b → EndsAlike R (.ok a) (.ok b)
  | error {e : CoverageError} : e.kind ≠ .index → EndsAlike R (.error e) (.error e)

namespace EndsAlike

variable {α β : Type} {R : α → β → Prop} {result : Except CoverageError α}
  {other : Except CoverageError β}

/-- What ends alike succeeds together. -/
theorem isOk_iff (h : EndsAlike R result other) : (∃ a, result = .ok a) ↔ ∃ b, other = .ok b := by
  cases h with
  | @ok a b _ =>
    constructor
    · exact fun _ => ⟨b, rfl⟩
    · exact fun _ => ⟨a, rfl⟩
  | error _ => simp

theorem kind_ne {e : CoverageError} (h : EndsAlike R (.error e) other) : e.kind ≠ .index := by
  cases h with
  | error he => exact he

/-- A success against a success. -/
theorem of_ok {a : α} (h : EndsAlike R (.ok a) other) : ∃ b, other = .ok b ∧ R a b := by
  cases h with
  | ok hab => exact ⟨_, rfl, hab⟩

end EndsAlike

end Coverage
