/-!
# Machines that always stop

Decoding a file and solving a flow graph are both loops over a state in which every step uses
something up: bytes of the input, or unknowns of the graph.  `Machine` packs such a loop with the
quantity that it uses up, `Machine.run` carries it to its end, and `Machine.run_eq` is the
equation by which a run is reasoned about.  The run recurses on a number, so a run on a closed
state computes inside the kernel, and no statement about it mentions that number.

* `Machine.run_eq` — a run is one step, followed by the run of what the step leaves;
* `Machine.run_induction` — what holds of the last state and is passed back along every step
  holds of the first one;
* `Machine.Reaches` — the states that a run passes through;
* `Machine.trace` — the same states, in their order.
-/

namespace Coverage

universe u v

/-- What one step of a machine leaves: a further state, or the end of the run. -/
inductive Verdict (σ : Type u) (ω : Type v) where
  | next (state : σ)
  | stop (outcome : ω)

/-- A step together with a quantity that every step lowers. -/
structure Machine (σ : Type u) (ω : Type v) where
  step : σ → Verdict σ ω
  /-- An upper bound for the number of steps that a state still has before it. -/
  measure : σ → Nat
  measure_lt : ∀ s t, step s = .next t → measure t < measure s

namespace Machine

variable {σ : Type u} {ω : Type v} (m : Machine σ ω)

/-! ## Running -/

/-- At most `n` steps from `s`; `none` when the run needs more. -/
def runFor : Nat → σ → Option ω
  | 0, _ => none
  | n + 1, s =>
    match m.step s with
    | .next t => runFor n t
    | .stop w => some w

theorem runFor_isSome {n : Nat} {s : σ} (h : m.measure s < n) : (m.runFor n s).isSome := by
  induction n generalizing s with
  | zero => omega
  | succ n ih =>
    rw [runFor]
    split
    · next t ht =>
      have := m.measure_lt s t ht
      exact ih (by omega)
    · rfl

/-- The outcome of the run that starts at `s`. -/
def run (s : σ) : ω :=
  (m.runFor (m.measure s + 1) s).get (m.runFor_isSome (Nat.lt_succ_self _))

/-- More steps than needed change nothing. -/
theorem runFor_eq_some_run {n : Nat} {s : σ} (h : m.measure s < n) :
    m.runFor n s = some (m.run s) := by
  suffices key : ∀ (k l : Nat) (s : σ), m.measure s < k → m.measure s < l →
      m.runFor k s = m.runFor l s by
    rw [key n (m.measure s + 1) s h (Nat.lt_succ_self _), run, Option.some_get]
  intro k
  induction k with
  | zero => intro l s h; omega
  | succ k ih =>
    intro l s hk hl
    cases l with
    | zero => omega
    | succ l =>
      rw [runFor, runFor]
      split
      · next t ht =>
        have := m.measure_lt s t ht
        exact ih l t (by omega) (by omega)
      · rfl

/-- A run is one step, followed by the run of what the step leaves. -/
theorem run_eq (s : σ) :
    m.run s = match m.step s with
      | .next t => m.run t
      | .stop w => w := by
  have h := m.runFor_eq_some_run (Nat.lt_succ_self (m.measure s))
  rw [runFor] at h
  split at h
  · next t ht =>
    rw [m.runFor_eq_some_run (m.measure_lt s t ht)] at h
    exact (Option.some.inj h).symm
  · exact (Option.some.inj h).symm

theorem run_of_next {s t : σ} (h : m.step s = .next t) : m.run s = m.run t := by
  rw [run_eq, h]

theorem run_of_stop {s : σ} {w : ω} (h : m.step s = .stop w) : m.run s = w := by
  rw [run_eq, h]

/-- Induction along a run, from its end to its start. -/
theorem run_induction {motive : σ → ω → Prop}
    (stop : ∀ s w, m.step s = .stop w → motive s w)
    (next : ∀ s t, m.step s = .next t → motive t (m.run t) → motive s (m.run t)) (s : σ) :
    motive s (m.run s) := by
  induction h : m.measure s using Nat.strongRecOn generalizing s with
  | _ n ih =>
    cases hs : m.step s with
    | next t =>
      rw [m.run_of_next hs]
      exact next s t hs (ih _ (h ▸ m.measure_lt s t hs) t rfl)
    | stop w =>
      rw [m.run_of_stop hs]
      exact stop s w hs

/-! ## The states of a run -/

/-- `m.Reaches s t`: the run from `s` passes through `t`. -/
inductive Reaches (s : σ) : σ → Prop
  | start : Reaches s s
  | step {t u : σ} : Reaches s t → m.step t = .next u → Reaches s u

/-- Every state of a run has the same outcome. -/
theorem Reaches.run_eq {s t : σ} (h : m.Reaches s t) : m.run t = m.run s := by
  induction h with
  | start => rfl
  | step _ hstep ih => rw [← ih, m.run_of_next hstep]

/-- A run passes through what it comes to later. -/
theorem Reaches.trans {s t u : σ} (h : m.Reaches s t) (h' : m.Reaches t u) : m.Reaches s u := by
  induction h' with
  | start => exact h
  | step _ hlast ih => exact ih.step hlast

/-- The states that are reached after a first step. -/
theorem Reaches.of_next {s t u : σ} (h : m.Reaches t u) (hstep : m.step s = .next t) :
    m.Reaches s u :=
  (Reaches.start.step hstep).trans m h

/-- A state of a run is the first, or one that is reached after the first step. -/
theorem Reaches.eq_or_of_next {s t u : σ} (h : m.Reaches s u) (hstep : m.step s = .next t) :
    u = s ∨ m.Reaches t u := by
  induction h with
  | start => exact .inl rfl
  | step _ hlast ih =>
    rcases ih with rfl | ih
    · rw [hstep] at hlast
      cases hlast
      exact .inr .start
    · exact .inr (ih.step hlast)

/-- Where the run stops there is no further state. -/
theorem Reaches.eq_of_stop {s t : σ} (h : m.Reaches s t) {w : ω} (hstop : m.step s = .stop w) :
    t = s := by
  induction h with
  | start => rfl
  | step _ hlast ih =>
    rw [ih, hstop] at hlast
    cases hlast

/-- A run passes through a state in which it stops. -/
theorem exists_reaches_stop (s : σ) : ∃ t, m.Reaches s t ∧ m.step t = .stop (m.run s) := by
  refine m.run_induction (motive := fun s w => ∃ t, m.Reaches s t ∧ m.step t = .stop w) ?_ ?_ s
  · intro s w hstop
    exact ⟨s, .start, hstop⟩
  · intro s t hstep ih
    obtain ⟨u, hreach, hstop⟩ := ih
    exact ⟨u, hreach.of_next m hstep, hstop⟩

/-- A property that every step keeps holds of all states of a run. -/
theorem Reaches.invariant {P : σ → Prop} (keep : ∀ s t, m.step s = .next t → P s → P t)
    {s t : σ} (h : m.Reaches s t) (hs : P s) : P t := by
  induction h with
  | start => exact hs
  | step _ hstep ih => exact keep _ _ hstep ih

/-! ## Traces -/

/-- The first `n` states from `s` on, or as many as there are. -/
def traceFor : Nat → σ → List σ
  | 0, _ => []
  | n + 1, s =>
    s :: match m.step s with
      | .next t => traceFor n t
      | .stop _ => []

/-- The states of the run that starts at `s`, in their order. -/
def trace (s : σ) : List σ :=
  m.traceFor (m.measure s + 1) s

/-- Further steps than there are make no difference. -/
theorem traceFor_eq_trace {n : Nat} {s : σ} (h : m.measure s < n) : m.traceFor n s = m.trace s := by
  suffices key : ∀ (k l : Nat) (s : σ), m.measure s < k → m.measure s < l →
      m.traceFor k s = m.traceFor l s from
    key n (m.measure s + 1) s h (Nat.lt_succ_self _)
  intro k
  induction k with
  | zero => intro l s h; omega
  | succ k ih =>
    intro l s hk hl
    cases l with
    | zero => omega
    | succ l =>
      rw [traceFor, traceFor]
      split
      · next t ht =>
        have := m.measure_lt s t ht
        rw [ih l t (by omega) (by omega)]
      · rfl

theorem trace_of_next {s t : σ} (h : m.step s = .next t) : m.trace s = s :: m.trace t := by
  rw [trace, traceFor, h]
  exact congrArg _ (m.traceFor_eq_trace (m.measure_lt s t h))

theorem trace_of_stop {s : σ} {w : ω} (h : m.step s = .stop w) : m.trace s = [s] := by
  rw [trace, traceFor, h]

/-- The states of a trace are those that the run passes through. -/
theorem mem_trace {s t : σ} : t ∈ m.trace s ↔ m.Reaches s t := by
  refine m.run_induction (motive := fun s _ => t ∈ m.trace s ↔ m.Reaches s t) ?_ ?_ s
  · intro s w hstop
    rw [m.trace_of_stop hstop, List.mem_singleton]
    constructor
    · rintro rfl
      exact .start
    · exact fun h => h.eq_of_stop m hstop
  · intro s u hnext ih
    rw [m.trace_of_next hnext, List.mem_cons, ih]
    constructor
    · rintro (rfl | h)
      · exact .start
      · exact h.of_next m hnext
    · exact fun h => h.eq_or_of_next m hnext

end Machine

end Coverage
