import Coverage.Binary.Scan
import Coverage.Binary.Writer
import Coverage.Proofs.Utf8

/-!
# Reading what was written

`Read.Takes` says which bytes an action reads and what it makes of them, whatever stands behind
them; `Scanner.Passes` says the same of one step of a decoder, and `Machine.Carries` of any number
of steps.  Each of them composes along the concatenation of bytes, so that a decoder is followed
through a file piece by piece.

* `Cursor.takes_word`, `takes_counter`, `takes_string` — the written forms of a word, a counter
  and a text are read as what they were;
* `Storable` — the texts of which this is true: those that do not end in a zero, which would be
  taken for padding, and whose length fits a word.
-/

namespace Coverage

universe u v

/-! ## Actions -/

/-- `action.Takes order offset bytes a`: at this offset, the action reads these bytes as `a`,
whatever stands behind them. -/
def Read.Takes {α : Type} (action : Read α) (order : ByteOrder) (offset : Nat) (bytes : Bytes)
    (a : α) : Prop :=
  ∀ rest, action.run { rest := bytes ++ rest, offset, order }
    = .ok a { rest, offset := offset + bytes.length, order }

section Actions

variable {α β : Type} {order : ByteOrder} {offset : Nat} {bytes bytes' : Bytes} {a : α} {b : β}

theorem Read.takes_pure (a : α) : Read.Takes (pure a) order offset [] a :=
  fun _ => rfl

theorem Read.Takes.bind {action : Read α} {next : α → Read β}
    (h : action.Takes order offset bytes a)
    (hnext : (next a).Takes order (offset + bytes.length) bytes' b) :
    Read.Takes (action >>= next) order offset (bytes ++ bytes') b := by
  intro rest
  have hfirst := h (bytes' ++ rest)
  have hsecond := hnext rest
  simp only [EStateM.run] at hfirst hsecond
  simp only [EStateM.run, Bind.bind, EStateM.bind, List.append_assoc, hfirst, hsecond,
    List.length_append, Nat.add_assoc]

/-- The last of several actions, after which nothing is read. -/
theorem Read.Takes.map {action : Read α} (h : action.Takes order offset bytes a) (f : α → β) :
    Read.Takes (do let a ← action; return f a) order offset bytes (f a) := by
  have hbind : Read.Takes (action >>= fun a => pure (f a)) order offset (bytes ++ []) (f a) :=
    h.bind (Read.takes_pure (f a))
  rwa [List.append_nil] at hbind

/-- An action that goes on from where the cursor stands. -/
theorem Read.takes_get {next : Cursor → Read β}
    (h : ∀ rest, (next { rest := bytes ++ rest, offset, order }).run
      { rest := bytes ++ rest, offset, order }
        = .ok b { rest, offset := offset + bytes.length, order }) :
    Read.Takes (do let cursor ← get; next cursor) order offset bytes b :=
  h

end Actions

/-! ## Words -/

theorem splitExact?_append {α : Type u} (taken rest : List α) :
    splitExact? taken.length (taken ++ rest) = some (taken, rest) := by
  induction taken with
  | nil => rfl
  | cons a taken ih => simp [splitExact?, ih]

namespace ByteOrder

theorem littleToNat_littleWord (n : Nat) : littleToNat (littleWord n) = n % wordRange := by
  simp only [littleWord, littleToNat, UInt8.toNat_ofNat', wordRange]
  omega

theorem toNat_word (order : ByteOrder) (n : Nat) : order.toNat (order.word n) = n % wordRange := by
  cases order with
  | big => rw [word, toNat, List.reverse_reverse, littleToNat_littleWord]
  | little => exact littleToNat_littleWord n

@[simp] theorem length_word (order : ByteOrder) (n : Nat) :
    (order.word n).length = wordSize := by
  cases order <;> rfl

end ByteOrder

@[simp] theorem Writer.length_word (order : ByteOrder) (n : Int) :
    (Writer.word order n).length = wordSize :=
  ByteOrder.length_word order _

/-- The number that a written word stands for. -/
theorem Writer.toNat_word_of_lt (order : ByteOrder) {n : Nat} (hlt : n < wordRange) :
    order.toNat (Writer.word order n) = n := by
  rw [Writer.word, ByteOrder.toNat_word]
  unfold wordRange at hlt ⊢
  omega

namespace Cursor

open Read

variable {order : ByteOrder} {offset : Nat} {bytes : Bytes}

theorem takes_take {size : Nat} (h : bytes.length = size) :
    (take size).Takes order offset bytes bytes := by
  intro rest
  subst h
  simp [EStateM.run, take, splitExact?_append]

/-- A word is four bytes that the byte order makes a number of. -/
theorem takes_word_of_length (h : bytes.length = wordSize) :
    word.Takes order offset bytes (order.toNat bytes) := by
  have hword : Read.Takes (take wordSize >>= fun bytes => do
      let cursor ← get
      return cursor.order.toNat bytes) order offset (bytes ++ []) (order.toNat bytes) :=
    (takes_take h).bind (takes_get fun _ => rfl)
  rwa [List.append_nil] at hword

theorem takes_word (n : Int) :
    word.Takes order offset (Writer.word order n) (n % wordRange).toNat := by
  have htakes : word.Takes order offset _ _ := takes_word_of_length (Writer.length_word order n)
  have hlt : (n % wordRange).toNat < wordRange := by
    unfold wordRange
    omega
  rwa [Writer.word, ByteOrder.toNat_word, Nat.mod_eq_of_lt hlt] at htakes

/-- A number in the range of words. -/
theorem takes_word_of_lt {n : Int} (hpos : 0 ≤ n) (hlt : n < wordRange) :
    word.Takes order offset (Writer.word order n) n.toNat := by
  have htakes : word.Takes order offset _ _ := takes_word n
  rwa [Int.emod_eq_of_lt hpos hlt] at htakes

theorem takes_natWord {n : Nat} (hlt : n < wordRange) :
    word.Takes order offset (Writer.word order n) n :=
  takes_word_of_lt (Int.natCast_nonneg n) (by exact_mod_cast hlt)

theorem takes_counter (n : Int) :
    counter.Takes order offset (Writer.counter order n) (n % (wordRange * wordRange)).toNat := by
  have hsum : (n % wordRange).toNat + wordRange * (n / wordRange % wordRange).toNat
      = (n % (wordRange * wordRange)).toNat := by
    unfold wordRange
    omega
  rw [← hsum]
  exact (takes_word n).bind ((takes_word _).map fun high => _ + wordRange * high)

@[simp] theorem length_counter (order : ByteOrder) (n : Int) :
    (Writer.counter order n).length = 2 * wordSize := by
  simp [Writer.counter]
  rfl

/-- Skipped words may hold anything. -/
theorem takes_skipWords {count : Nat} (h : bytes.length = count * wordSize) :
    (skipWords count).Takes order offset bytes () :=
  (takes_take (by rw [h, Int.toNat_natCast])).map fun _ => ()

/-- Nothing is skipped where the place is reached already. -/
theorem takes_skipTo {fin : Nat} (h : offset + bytes.length = fin) :
    (skipTo fin).Takes order offset bytes () := by
  have hsize : bytes.length = ((fin : Int) - offset).toNat := by omega
  exact takes_get fun rest => (takes_take hsize).map (fun _ => ()) rest

end Cursor

/-! ## Texts -/

/-- The texts that can be stored: those whose end is not mistaken for padding, and whose length is
within the range of words. -/
structure Storable (text : String) : Prop where
  unpadded : text.toList.getLast? ≠ some '\x00'
  fits : (Utf8.encode text.toList).length / wordSize + 1 < wordRange

instance (text : String) : Decidable (Storable text) :=
  decidable_of_iff (text.toList.getLast? ≠ some '\x00'
      ∧ (Utf8.encode text.toList).length / wordSize + 1 < wordRange)
    ⟨fun h => ⟨h.1, h.2⟩, fun h => ⟨h.unpadded, h.fits⟩⟩

namespace Cursor

/-- Padding is dropped, and no more than that. -/
theorem textOf_padded {text : String} (h : text.toList.getLast? ≠ some '\x00') (k : Nat) :
    textOf (Utf8.encode text.toList ++ List.replicate k 0) = text := by
  have hdrop : (Utf8.encode text.toList ++ List.replicate k 0).reverse.dropWhile (· = 0)
      = (Utf8.encode text.toList).reverse := by
    rw [List.reverse_append, List.reverse_replicate, List.dropWhile_append_of_pos (by simp)]
    cases hcase : (Utf8.encode text.toList).reverse with
    | nil => rfl
    | cons b rest =>
      have hlast : (Utf8.encode text.toList).getLast? = some b := by
        rw [List.getLast?_eq_head?_reverse, hcase, List.head?_cons]
      refine List.dropWhile_cons_of_neg ?_
      simp only [decide_eq_true_eq]
      rintro rfl
      exact h (Utf8.getLast?_encode hlast)
  rw [textOf, hdrop, List.reverse_reverse, Utf8.decode_encode, String.ofList_toList]

/-- A length in words, then so many words. -/
theorem takes_stored {order : ByteOrder} {offset words : Nat} {raw : Bytes}
    (hwords : words < wordRange) (hlength : raw.length = words * wordSize) :
    string.Takes order offset (Writer.word order words ++ raw) (textOf raw) :=
  have hraw : Read.Takes (do let raw ← take (words * wordSize); return textOf raw) order
      (offset + (Writer.word order words).length) raw (textOf raw) :=
    (takes_take hlength).map textOf
  (takes_natWord hwords).bind hraw

theorem takes_string {order : ByteOrder} {offset : Nat} {text : String} (h : Storable text) :
    string.Takes order offset (Writer.string order text) text := by
  rw [Writer.string]
  split
  · next hempty =>
    have hread : string.Takes order offset (Writer.word order (0 : Nat) ++ []) (textOf []) :=
      takes_stored (by decide) rfl
    rw [List.append_nil] at hread
    rw [String.isEmpty_iff.mp hempty]
    exact hread
  · have hlength : (Utf8.encode text.toList ++ List.replicate
        (((Utf8.encode text.toList).length / wordSize + 1) * wordSize
          - (Utf8.encode text.toList).length) 0).length
        = ((Utf8.encode text.toList).length / wordSize + 1) * wordSize := by
      simp only [List.length_append, List.length_replicate, wordSize]
      omega
    have hread : string.Takes order offset _ _ := takes_stored h.fits hlength
    rwa [textOf_padded h.unpadded, ← List.append_assoc] at hread

end Cursor

/-! ## Steps of a decoder -/

namespace Scanner

variable {σ : Type u} {ω : Type v} {α : Type} {order : ByteOrder} {offset : Nat}
  {bytes bytes' : Bytes} {next : σ}

/-- `scanner.Passes order offset bytes next`: at this offset, the step reads these bytes and leaves
the state `next`, whatever stands behind them. -/
def Passes (scanner : Scanner σ ω) (order : ByteOrder) (offset : Nat) (bytes : Bytes)
    (next : σ) : Prop :=
  ∀ rest, scanner { rest := bytes ++ rest, offset, order }
    = .next { cursor := { rest, offset := offset + bytes.length, order }, state := next }

theorem passes_goOn (next : σ) : (goOn (ω := ω) next).Passes order offset [] next :=
  fun _ => rfl

theorem passes_read {action : Read α} {a : α} {close : ω} {use : α → Scanner σ ω}
    (h : action.Takes order offset bytes a)
    (huse : (use a).Passes order (offset + bytes.length) bytes' next) :
    (Scanner.read action close use).Passes order offset (bytes ++ bytes') next := by
  intro rest
  simp only [Scanner.read, List.append_assoc, h (bytes' ++ rest), huse rest, List.length_append,
    Nat.add_assoc]

/-- A read that ends a step. -/
theorem passes_read_goOn {action : Read α} {a : α} {close : ω} {use : α → Scanner σ ω}
    (h : action.Takes order offset bytes a) (huse : use a = goOn next) :
    (Scanner.read action close use).Passes order offset bytes next := by
  have hnext : (use a).Passes order (offset + bytes.length) [] next := by
    rw [huse]
    exact passes_goOn next
  have hread : (Scanner.read action close use).Passes order offset (bytes ++ []) next :=
    passes_read h hnext
  rwa [List.append_nil] at hread

end Scanner

/-! ## Runs of a decoder -/

namespace Machine

variable {σ : Type u} {ω : Type v} {m : Machine (Scan σ) ω} {order : ByteOrder} {offset : Nat}
  {bytes bytes' : Bytes} {s t next : σ}

/-- `m.Carries order offset bytes s t`: at this offset in state `s`, the decoder reads these bytes
and goes on in state `t`, whatever stands behind them. -/
def Carries (m : Machine (Scan σ) ω) (order : ByteOrder) (offset : Nat) (bytes : Bytes)
    (s t : σ) : Prop :=
  ∀ rest, m.run { cursor := { rest := bytes ++ rest, offset, order }, state := s }
    = m.run { cursor := { rest, offset := offset + bytes.length, order }, state := t }

theorem Carries.refl (s : σ) : m.Carries order offset [] s s :=
  fun _ => rfl

theorem Carries.trans (h : m.Carries order offset bytes s t)
    (h' : m.Carries order (offset + bytes.length) bytes' t next) :
    m.Carries order offset (bytes ++ bytes') s next := by
  intro rest
  rw [List.append_assoc, h, h', List.length_append, Nat.add_assoc]

/-- A single step. -/
theorem carries_of_passes {step : σ → Scanner σ ω} {h : ∀ state, (step state).Advances 1}
    (hpass : (step s).Passes order offset bytes t) :
    (Scanner.machine step h).Carries order offset bytes s t :=
  fun rest => Machine.run_of_next _ (hpass rest)

/-! ### What is known on the way -/

/-- `m.Through P s t`: the run from `s` comes to `t`, and all states before have the property. -/
inductive Through {σ : Type u} {ω : Type v} (m : Machine σ ω) (P : σ → Prop) : σ → σ → Prop
  | refl (s : σ) : Through m P s s
  | step {s t u : σ} : P s → m.step s = .next t → Through m P t u → Through m P s u

namespace Through

variable {σ : Type u} {ω : Type v} {m : Machine σ ω} {P : σ → Prop} {s t u : σ}

theorem trans (h : m.Through P s t) (h' : m.Through P t u) : m.Through P s u := by
  induction h with
  | refl => exact h'
  | step hP hstep _ ih => exact .step hP hstep (ih h')

theorem run_eq (h : m.Through P s t) : m.run s = m.run t := by
  induction h with
  | refl => rfl
  | step _ hstep _ ih => rw [m.run_of_next hstep, ih]

/-- A state of the run stands before the place that is come to, or behind it. -/
theorem of_reaches (h : m.Through P s t) (hreach : m.Reaches s u) : P u ∨ m.Reaches t u := by
  induction h with
  | refl => exact .inr hreach
  | step hP hstep _ ih =>
    rcases hreach.eq_or_of_next _ hstep with rfl | hreach
    · exact .inl hP
    · exact ih hreach

end Through

/-- `m.CarriesIn P order offset bytes s t`: at this offset in state `s`, the decoder reads these
bytes and goes on in state `t`, and all that it knows before has the property. -/
def CarriesIn (m : Machine (Scan σ) ω) (P : σ → Prop) (order : ByteOrder) (offset : Nat)
    (bytes : Bytes) (s t : σ) : Prop :=
  ∀ rest, m.Through (fun scan => P scan.state)
    { cursor := { rest := bytes ++ rest, offset, order }, state := s }
    { cursor := { rest, offset := offset + bytes.length, order }, state := t }

section CarriesIn

variable {P : σ → Prop}

theorem CarriesIn.refl (s : σ) : m.CarriesIn P order offset [] s s :=
  fun _ => .refl _

theorem CarriesIn.trans (h : m.CarriesIn P order offset bytes s t)
    (h' : m.CarriesIn P order (offset + bytes.length) bytes' t next) :
    m.CarriesIn P order offset (bytes ++ bytes') s next := by
  intro rest
  have hfirst := h (bytes' ++ rest)
  have hsecond := h' rest
  rw [Nat.add_assoc, ← List.length_append] at hsecond
  rw [List.append_assoc]
  exact hfirst.trans hsecond

/-- A single step. -/
theorem carriesIn_of_passes {step : σ → Scanner σ ω} {h : ∀ state, (step state).Advances 1}
    (hP : P s) (hpass : (step s).Passes order offset bytes t) :
    (Scanner.machine step h).CarriesIn P order offset bytes s t :=
  fun rest => .step hP (hpass rest) (.refl _)

theorem CarriesIn.run_eq (h : m.CarriesIn P order offset bytes s t) (rest : Bytes) :
    m.run { cursor := { rest := bytes ++ rest, offset, order }, state := s }
      = m.run { cursor := { rest, offset := offset + bytes.length, order }, state := t } :=
  (h rest).run_eq

end CarriesIn

end Machine

end Coverage
