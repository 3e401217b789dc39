import Coverage.Proofs.Records
import Coverage.Proofs.Spans

/-!
# Buffers that are cut off

A file may end anywhere.  Reading goes from the front, so what an action reads of the beginning of
a buffer it reads of the whole buffer (`Read.Stable`).  A decoder does the same steps in the
beginning of a buffer as in the whole, until a read runs past the end.  Then it is done, with what
it knows in a state that it passes through when it has the whole buffer (`Scanner.run_cut`).  So
whatever holds of a decoder at all times holds of the outcome for a file that was cut off.
-/

namespace Coverage

universe u v

/-! ## More of a buffer -/

/-- The same place in a buffer that goes on with further bytes. -/
def Cursor.extend (c : Cursor) (more : Bytes) : Cursor :=
  { c with rest := c.rest ++ more }

@[simp] theorem Cursor.extend_rest (c : Cursor) (more : Bytes) :
    (c.extend more).rest = c.rest ++ more := rfl

@[simp] theorem Cursor.extend_offset (c : Cursor) (more : Bytes) :
    (c.extend more).offset = c.offset := rfl

@[simp] theorem Cursor.extend_order (c : Cursor) (more : Bytes) :
    (c.extend more).order = c.order := rfl

/-- A decoder in the same place of a buffer that goes on with further bytes. -/
def Scan.extend {σ : Type u} (s : Scan σ) (more : Bytes) : Scan σ :=
  { s with cursor := s.cursor.extend more }

/-! ## Actions -/

namespace Read

/-- `action.Stable`: what the action reads does not depend on how the buffer goes on. -/
def Stable {α : Type} (action : Read α) : Prop :=
  ∀ c a c' more, action.run c = .ok a c' → action.run (c.extend more) = .ok a (c'.extend more)

variable {α : Type} {action : Read α}

/-- An action that takes some bytes, whatever stands behind them. -/
theorem stable_of_takes (h : ∀ c a c', action.run c = .ok a c' → ∃ n ≤ c.rest.length,
    c' = c.ahead n ∧ action.Takes c.order c.offset (c.rest.take n) a) : Stable action := by
  intro c a c' more hrun
  obtain ⟨n, hle, rfl, htakes⟩ := h c a c' hrun
  have hrest := htakes (c.rest.drop n ++ more)
  rw [← List.append_assoc, List.take_append_drop, List.length_take, Nat.min_eq_left hle] at hrest
  exact hrest

/-- An action whose extent is known reads nothing behind it. -/
theorem Spans.stable {size : Nat → Nat} {value : ByteOrder → Nat → Bytes → α}
    (h : action.Spans size value) : Stable action := by
  refine stable_of_takes fun c a c' hrun => ?_
  obtain ⟨hle, htakes, -, rfl⟩ := h.run_eq hrun
  exact ⟨_, hle, rfl, htakes⟩

theorem Placeless.stable (h : action.Placeless) : Stable action := by
  refine stable_of_takes fun c a c' hrun => ?_
  obtain ⟨n, hle, hahead, htakes⟩ := h c a c' hrun
  exact ⟨n, hle, hahead, htakes c.offset⟩

end Read

/-! ## Headers -/

/-- Whether a magic is recognized does not depend on what stands behind it. -/
theorem openFile_append (kind : FileKind) {bytes : Bytes} (h : wordSize ≤ bytes.length)
    (more : Bytes) : openFile kind (bytes ++ more) = (openFile kind bytes).map (·.extend more) := by
  have hwhole : wordSize ≤ (bytes ++ more).length := by
    rw [List.length_append]
    omega
  rw [openFile_eq kind h, openFile_eq kind hwhole, List.take_append_of_le_length h,
    List.drop_append_of_le_length h]
  split
  · rfl
  · split
    · rfl
    · rfl

/-! ## Steps -/

/-- What a step makes of a buffer that is cut off, against what it makes of the whole: the same; or
it ends, as `close` says for the state before the step or for the one after it. -/
inductive Verdict.Cut {σ : Type u} {ω : Type v} (close : σ → ω) (s : σ) (more : Bytes) :
    Verdict (Scan σ) ω → Verdict (Scan σ) ω → Prop
  | next (t : Scan σ) : Cut close s more (.next t) (.next (t.extend more))
  | stop (w : ω) : Cut close s more (.stop w) (.stop w)
  | before (whole : Verdict (Scan σ) ω) : Cut close s more (.stop (close s)) whole
  | after (t : Scan σ) : Cut close s more (.stop (close t.state)) (.next t)

namespace Scanner

variable {σ : Type u} {ω : Type v} {α : Type} {close : σ → ω} {s : σ}

/-- `scanner.Cuts close s`: so the step does at every place, in the state `s`. -/
def Cuts (scanner : Scanner σ ω) (close : σ → ω) (s : σ) : Prop :=
  ∀ c more, Verdict.Cut close s more (scanner c) (scanner (c.extend more))

theorem cuts_goOn (t : σ) : Cuts (goOn t) close s :=
  fun _ _ => .next _

theorem cuts_finish (outcome : ω) : Cuts (finish outcome) close s :=
  fun _ _ => .stop outcome

theorem cuts_read {action : Read α} (h : action.Stable) {use : α → Scanner σ ω}
    (huse : ∀ a, Cuts (use a) close s) : Cuts (read action (close s) use) close s := by
  intro c more
  rw [read]
  split
  · next a c' ha =>
    rw [read, h c a c' more ha]
    exact huse a c' more
  · exact .before _

/-- The last read of a step, after which the state is `t`. -/
theorem cuts_read_goOn {action : Read α} (h : action.Stable) {t t' : σ}
    (hclose : close t' = close t) : Cuts (read action (close t') fun _ => goOn t) close s := by
  intro c more
  rw [read]
  split
  · next a c' ha =>
    rw [read, h c a c' more ha]
    exact .next _
  · rw [read]
    split
    · next a c' _ =>
      rw [hclose]
      exact .after { cursor := c', state := t }
    · exact .stop _

/-! ## Runs -/

/-- A decoder whose buffer is cut off comes to the outcome that it has for the whole buffer, or it
closes in a state that it passes through there. -/
theorem run_cut {step : σ → Scanner σ ω} {h : ∀ state, (step state).Advances 1}
    (hcuts : ∀ s, (step s).Cuts close s) (s : Scan σ) (more : Bytes) :
    (machine step h).run s = (machine step h).run (s.extend more)
      ∨ ∃ t, (machine step h).Reaches (s.extend more) t
        ∧ (machine step h).run s = close t.state := by
  refine (machine step h).run_induction (motive := fun s w =>
    w = (machine step h).run (s.extend more)
      ∨ ∃ t, (machine step h).Reaches (s.extend more) t ∧ w = close t.state) ?_ ?_ s
  · intro s w hs
    have hcut := hcuts s.state s.cursor more
    change (machine step h).step s = .stop w at hs
    change Verdict.Cut close s.state more ((machine step h).step s)
      ((machine step h).step (s.extend more)) at hcut
    rw [hs] at hcut
    generalize hwhole : (machine step h).step (s.extend more) = whole at hcut
    cases hcut with
    | stop => exact .inl ((machine step h).run_of_stop hwhole).symm
    | before => exact .inr ⟨_, .start, rfl⟩
    | after t => exact .inr ⟨t, Machine.Reaches.start.step hwhole, rfl⟩
  · intro s t hs ih
    have hcut := hcuts s.state s.cursor more
    change Verdict.Cut close s.state more ((machine step h).step s)
      ((machine step h).step (s.extend more)) at hcut
    rw [hs] at hcut
    generalize hwhole : (machine step h).step (s.extend more) = whole at hcut
    cases hcut with
    | next =>
      rw [(machine step h).run_of_next hwhole]
      rcases ih with ih | ⟨u, hreach, hclose⟩
      · exact .inl ih
      · exact .inr ⟨u, hreach.of_next _ hwhole, hclose⟩

end Scanner

end Coverage
