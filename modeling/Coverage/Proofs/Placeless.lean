import Coverage.Notes
import Coverage.Proofs.SideBySide
import Coverage.Proofs.Truncation

/-!
# Steps that do not depend on where they are made

A step that is made of placeless reads and of nothing else that looks at the buffer
(`Scanner.Placeless`) has all the properties that are told read by read: it passes over the bytes
that it takes, it may be cut off, and it is the same step at any other offset.  The steps of the
decoder of notes are of this kind (`Notes.step_placeless`).
-/

namespace Coverage

universe u v

/-! ## Other offsets -/

/-- The same place, counted from another beginning. -/
def Cursor.shift (c : Cursor) (d : Nat) : Cursor :=
  { c with offset := c.offset + d }

/-- A decoder in the same place, counted from another beginning. -/
def Scan.shift {σ : Type u} (s : Scan σ) (d : Nat) : Scan σ :=
  { s with cursor := s.cursor.shift d }

theorem Cursor.shift_ahead (c : Cursor) (d n : Nat) : (c.ahead n).shift d = (c.shift d).ahead n := by
  simp [shift, ahead, Nat.add_right_comm]

section Actions

variable {α : Type} {action : Read α}

/-- What succeeds at a place succeeds at any other offset. -/
theorem Read.Placeless.run_offset (h : action.Placeless) {c c' : Cursor} {a : α}
    (hrun : action.run c = .ok a c') (offset : Nat) :
    ∃ n, c' = c.ahead n
      ∧ action.run { c with offset } = .ok a { c' with offset := offset + n } := by
  obtain ⟨n, hn, rfl, htakes⟩ := h c a c' hrun
  have hoffset := htakes offset (c.rest.drop n)
  rw [List.take_append_drop, List.length_take, Nat.min_eq_left hn] at hoffset
  exact ⟨n, rfl, hoffset⟩

theorem Read.Placeless.run_shift (h : action.Placeless) {c c' : Cursor} {a : α}
    (hrun : action.run c = .ok a c') (d : Nat) : action.run (c.shift d) = .ok a (c'.shift d) := by
  obtain ⟨n, rfl, hoffset⟩ := h.run_offset hrun (c.offset + d)
  rw [Cursor.shift_ahead]
  exact hoffset

/-- What fails at a place fails at any other offset. -/
theorem Read.Placeless.run_shift_error (h : action.Placeless) {c c' : Cursor} {e : EndOfInput}
    (hrun : action.run c = .error e c') (d : Nat) :
    ∃ e' c'', action.run (c.shift d) = .error e' c'' := by
  cases hshift : action.run (c.shift d) with
  | error e' c'' => exact ⟨e', c'', rfl⟩
  | ok a c'' =>
    obtain ⟨n, -, hback⟩ := h.run_offset hshift c.offset
    cases hrun.symm.trans hback

end Actions

namespace Scanner

variable {σ : Type u} {ω : Type v}

/-- `scanner.Placeless close`: the step is made of placeless reads, and of nothing else that looks
at the buffer.  Where the buffer ends in it the outcome is `close`. -/
inductive Placeless (close : ω) : Scanner σ ω → Prop
  | goOn (state : σ) : Placeless close (Scanner.goOn state)
  | finish (outcome : ω) : Placeless close (Scanner.finish outcome)
  | read {α : Type} {action : Read α} {use : α → Scanner σ ω} : action.Placeless →
      (∀ a, Placeless close (use a)) → Placeless close (Scanner.read action close use)

namespace Placeless

variable {close : ω} {scanner : Scanner σ ω}

theorem goes (h : scanner.Placeless close) (c : Cursor) : scanner.Goes c fun _ => True := by
  induction h generalizing c with
  | goOn state => exact goes_goOn trivial
  | finish outcome => exact goes_finish outcome
  | read haction _ ih =>
    refine goes_read_of_takes fun a c' hrun => ?_
    obtain ⟨n, hn, hahead, htakes⟩ := haction c a c' hrun
    exact ⟨n, hn, hahead, htakes c.offset, ih a _⟩

theorem cuts {close : σ → ω} {s : σ} (h : scanner.Placeless (close s)) : scanner.Cuts close s := by
  induction h with
  | goOn state => exact cuts_goOn state
  | finish outcome => exact cuts_finish outcome
  | read haction _ ih => exact cuts_read haction.stable ih

/-- The step is the same at another offset. -/
theorem shift (h : scanner.Placeless close) (c : Cursor) (d : Nat) :
    (scanner c).Agrees (fun s t => t = s.shift d) (fun w w' => w' = w) (scanner (c.shift d)) := by
  induction h generalizing c with
  | goOn state => exact .next rfl
  | finish outcome => exact .stop rfl
  | @read α action use haction _ ih =>
    cases hrun : action.run c with
    | ok a c' =>
      simp only [Scanner.read, hrun, haction.run_shift hrun d]
      exact ih a c'
    | error e c' =>
      obtain ⟨e', c'', hshift⟩ := haction.run_shift_error hrun d
      simp only [Scanner.read, hrun, hshift]
      exact .stop rfl

end Placeless

/-- A decoder whose steps are placeless comes to the same outcome at any offset. -/
theorem run_shift {step : σ → Scanner σ ω} {h : ∀ state, (step state).Advances 1} {close : σ → ω}
    (hstep : ∀ s, (step s).Placeless (close s)) (s : Scan σ) (d : Nat) :
    (machine step h).run (s.shift d) = (machine step h).run s := by
  refine Machine.run_agrees (R := fun s t => t = s.shift d) (Q := fun w w' => w' = w)
    (fun s t hst => ?_) rfl
  subst hst
  exact (hstep s.state).shift s.cursor d

end Scanner

/-! ## Notes -/

namespace Notes

open Scanner

theorem readHeader_placeless (version : Nat) : (readHeader version).Placeless :=
  Cursor.word_spans.placeless.bind fun _ => Cursor.word_spans.placeless.bind fun _ =>
    (Cursor.skipWords_spans _).placeless.bind fun _ => Cursor.string_placeless.bind fun _ =>
    (Cursor.skipWords_spans _).placeless.bind fun _ => Cursor.string_placeless.bind fun _ =>
    Cursor.word_spans.placeless.bind fun _ => (Cursor.skipWords_spans _).placeless.bind fun _ =>
    Read.placeless_pure _

theorem readBlockCount_placeless (version length : Nat) :
    (readBlockCount version length).Placeless := by
  unfold readBlockCount
  split
  · exact Cursor.word_spans.placeless
  · exact (Cursor.skipWords_spans _).placeless.bind fun _ => Read.placeless_pure _

theorem readArcWords_placeless : readArcWords.Placeless :=
  Cursor.word_spans.placeless.bind fun _ => Cursor.word_spans.placeless.bind fun _ =>
    Read.placeless_pure _

variable {s : State}

theorem within_placeless (record : GraphRecord) {use : Func → Step}
    (huse : ∀ func, (use func).Placeless s.close) : (s.within record use).Placeless s.close := by
  unfold State.within
  split
  · exact huse _
  · exact .finish _

theorem withBlock_placeless (func : Func) (index : Nat) {use : Step}
    (huse : use.Placeless s.close) : (s.withBlock func index use).Placeless s.close := by
  unfold State.withBlock
  split
  · exact huse
  · exact .finish _

theorem readArc_placeless (func : Func) (src further : Nat) :
    (readArc s func src further).Placeless s.close :=
  .read readArcWords_placeless fun (dst, _) => withBlock_placeless func dst (.goOn _)

theorem readLine_placeless (func : Func) (block : Nat) (emitted : Option Nat) :
    (readLine s func block emitted).Placeless s.close := by
  refine .read Cursor.word_spans.placeless fun line => ?_
  split
  · refine .read Cursor.string_placeless fun name => ?_
    split
    · exact .goOn _
    · exact .goOn _
  · split
    · exact .finish _
    · exact .goOn _

theorem readGraphRecord_placeless (record : GraphRecord) (length : Nat) :
    (readGraphRecord s record length).Placeless s.close := by
  refine within_placeless record fun func => ?_
  cases record with
  | blocks => exact .read (readBlockCount_placeless _ _) fun _ => .goOn _
  | arcs =>
    exact .read Cursor.word_spans.placeless fun src => withBlock_placeless func src (.goOn _)
  | lines =>
    exact .read Cursor.word_spans.placeless fun block => withBlock_placeless func block (.goOn _)

theorem readTag_placeless : (readTag s).Placeless s.close := by
  refine .read Cursor.word_spans.placeless fun word => ?_
  split
  · exact .goOn _
  · refine .read Cursor.word_spans.placeless fun length => ?_
    split
    · exact .read (readHeader_placeless _) fun _ => .goOn _
    · exact readGraphRecord_placeless _ length

/-- The decoder of notes reads everything where it finds it. -/
theorem step_placeless (s : State) : (step s).Placeless s.close := by
  unfold step
  split
  · exact readTag_placeless
  · exact within_placeless .arcs fun func => readArc_placeless func _ _
  · exact within_placeless .lines fun func => readLine_placeless func _ _

end Notes

end Coverage
