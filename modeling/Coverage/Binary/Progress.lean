import Coverage.Binary.Cursor

/-!
# Reading uses up the buffer

A reading action never gives bytes back, and reading a word takes four of them.  This is what
bounds the number of records that a buffer can hold.
-/

namespace Coverage

universe u

/-! ## Actions that give nothing back -/

/-- `action.Consumes n`: wherever the action succeeds it leaves at least `n` bytes less. -/
def Read.Consumes {α : Type} (action : Read α) (n : Nat) : Prop :=
  ∀ c a c', action.run c = .ok a c' → c'.rest.length + n ≤ c.rest.length

theorem splitExact?_length {α : Type u} {n : Nat} {l t r : List α}
    (h : splitExact? n l = some (t, r)) : r.length + n = l.length := by
  induction n generalizing l t with
  | zero => cases h; rfl
  | succ n ih =>
    cases l with
    | nil => cases h
    | cons a l =>
      obtain ⟨⟨t', r'⟩, h', he⟩ := Option.map_eq_some_iff.mp h
      cases he
      simp [← ih h', Nat.add_assoc]

namespace Cursor

theorem take_consumes (size : Nat) : (take size).Consumes size := by
  intro c a c' h
  simp only [EStateM.run, take] at h
  split at h
  · next hs =>
    cases h
    exact Nat.le_of_eq (splitExact?_length hs)
  · cases h

end Cursor

namespace Read

variable {α β : Type} {action : Read α} {n m : Nat}

theorem Consumes.mono (h : Consumes action n) (hm : m ≤ n) : Consumes action m :=
  fun c a c' hr => Nat.le_trans (Nat.add_le_add_left hm _) (h c a c' hr)

theorem consumes_pure (a : α) : Consumes (pure a) 0 := by
  intro c b c' h
  cases h
  exact Nat.le_refl _

theorem Consumes.bind {next : α → Read β} (h : Consumes action n)
    (hnext : ∀ a, Consumes (next a) m) : Consumes (action >>= next) (n + m) := by
  intro c b c' hr
  simp only [EStateM.run, Bind.bind, EStateM.bind] at hr
  split at hr
  · next a d ha =>
    have h₁ := h c a d ha
    have h₂ := hnext a d b c' hr
    omega
  · cases hr

theorem consumes_get : Consumes (get : Read Cursor) 0 := by
  intro c b c' h
  cases h
  exact Nat.le_refl _

end Read

namespace Cursor

open Read

theorem word_consumes : word.Consumes wordSize :=
  (take_consumes wordSize).bind fun _ => consumes_get.bind fun _ => consumes_pure _

theorem counter_consumes : counter.Consumes wordSize :=
  (word_consumes.bind fun _ => word_consumes.bind fun _ => consumes_pure _).mono (by decide)

theorem string_consumes : string.Consumes wordSize :=
  word_consumes.bind fun _ =>
    ((take_consumes _).mono (Nat.zero_le _)).bind fun _ => consumes_pure _

theorem skipWords_consumes (count : Int) : (skipWords count).Consumes 0 :=
  ((take_consumes _).mono (Nat.zero_le _)).bind fun _ => consumes_pure _

theorem skipTo_consumes (offset : Int) : (skipTo offset).Consumes 0 :=
  consumes_get.bind fun _ =>
    ((take_consumes _).mono (Nat.zero_le _)).bind fun _ => consumes_pure _

end Cursor

end Coverage
