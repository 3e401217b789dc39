import Coverage.Machine
import Coverage.Binary.Progress

/-!
# Scanning a buffer step by step

A decoder goes through a buffer in steps, each of which reads a little and changes what the
decoder knows.  Where the buffer ends in the middle of a step, the decoder is done with what it
knew before.  A `Scanner` is one such step; decoders are put together from `Scanner.read`,
`Scanner.goOn` and `Scanner.finish`.

A scanner that reads at least one byte before it goes on is the step of a machine that always
stops (`Scanner.machine`).
-/

namespace Coverage

universe u v

/-- A decoder at work: where it reads, and what it knows. -/
structure Scan (σ : Type u) where
  cursor : Cursor
  state : σ
deriving DecidableEq

/-- One step of a decoder, from a position in the buffer. -/
abbrev Scanner (σ : Type u) (ω : Type v) := Cursor → Verdict (Scan σ) ω

namespace Scanner

variable {σ : Type u} {ω : Type v} {α : Type}

/-- Goes on to the next step. -/
def goOn (state : σ) : Scanner σ ω := fun cursor => .next { cursor, state }

/-- Ends the decoding. -/
def finish (outcome : ω) : Scanner σ ω := fun _ => .stop outcome

/-- Reads, and uses what was read; at the end of the buffer the outcome is `close`. -/
def read (action : Read α) (close : ω) (use : α → Scanner σ ω) : Scanner σ ω := fun cursor =>
  match action.run cursor with
  | .ok a cursor => use a cursor
  | .error _ _ => .stop close

/-! ## Progress -/

/-- `scanner.Advances n`: where the scanner goes on it leaves at least `n` bytes less. -/
def Advances (scanner : Scanner σ ω) (n : Nat) : Prop :=
  ∀ cursor next, scanner cursor = .next next →
    next.cursor.rest.length + n ≤ cursor.rest.length

theorem Advances.mono {scanner : Scanner σ ω} {n m : Nat} (h : scanner.Advances n) (hm : m ≤ n) :
    scanner.Advances m :=
  fun c t ht => Nat.le_trans (Nat.add_le_add_left hm _) (h c t ht)

theorem advances_goOn (state : σ) : Advances (goOn (ω := ω) state) 0 := by
  rintro cursor next ⟨⟩
  exact Nat.le_refl _

theorem advances_finish (outcome : ω) (n : Nat) : Advances (finish (σ := σ) outcome) n := by
  rintro cursor next ⟨⟩

theorem advances_read {action : Read α} {close : ω} {use : α → Scanner σ ω} {n m : Nat}
    (h : action.Consumes n) (huse : ∀ a, (use a).Advances m) :
    Advances (read action close use) (n + m) := by
  intro cursor next hnext
  unfold read at hnext
  split at hnext
  · next a cursor' hr =>
    have h₁ := h _ _ _ hr
    have h₂ := huse a _ _ hnext
    omega
  · cases hnext

/-- A scanner that reads at all before it goes on, as the step of a machine. -/
def machine (step : σ → Scanner σ ω) (h : ∀ state, (step state).Advances 1) :
    Machine (Scan σ) ω where
  step scan := step scan.state scan.cursor
  measure scan := scan.cursor.rest.length
  measure_lt scan next hnext := h scan.state scan.cursor next hnext

end Scanner

end Coverage
