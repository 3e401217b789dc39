import Coverage.Format
import Coverage.Proofs.Wire

/-!
# How far reading leads

A decoder that goes on has taken some bytes, and where it stands then depends on these bytes alone.
`Read.Spans` says how many bytes an action takes, from the offset where it stands; `Scanner.Goes`
says of a step what it leaves, and that it has passed over the bytes in between, whatever stands
behind them.  So the states that a decoder comes to are the same in all buffers that begin with
what it has read (`Scanner.reaches_before`).
-/

namespace Coverage

universe u v

/-! ## Places in a buffer -/

namespace Cursor

/-- The place some bytes ahead. -/
def ahead (c : Cursor) (n : Nat) : Cursor :=
  { c with rest := c.rest.drop n, offset := c.offset + n }

@[simp] theorem ahead_rest (c : Cursor) (n : Nat) : (c.ahead n).rest = c.rest.drop n := rfl

@[simp] theorem ahead_offset (c : Cursor) (n : Nat) : (c.ahead n).offset = c.offset + n := rfl

@[simp] theorem ahead_order (c : Cursor) (n : Nat) : (c.ahead n).order = c.order := rfl

theorem ahead_ahead (c : Cursor) (m n : Nat) : (c.ahead m).ahead n = c.ahead (m + n) := by
  simp [ahead, Nat.add_assoc]

theorem ahead_offset_add (c : Cursor) (n k : Nat) :
    (c.ahead n).offset + k * n = c.offset + (k + 1) * n := by
  rw [ahead_offset, Nat.succ_mul, Nat.add_comm (k * n), Nat.add_assoc]

/-- The word that stands some words ahead. -/
def peek (c : Cursor) (k : Nat) : Nat :=
  c.order.toNat ((c.rest.drop (k * wordSize)).take wordSize)

end Cursor

/-- The first word. -/
theorem Cursor.peek_zero (c : Cursor) : c.peek 0 = c.order.toNat (c.rest.take wordSize) := by
  rw [peek, Nat.zero_mul, List.drop_zero]

/-- One word ahead, all words stand one nearer. -/
theorem Cursor.peek_ahead (c : Cursor) (k : Nat) : (c.ahead wordSize).peek k = c.peek (k + 1) := by
  rw [peek, peek, ahead_rest, List.drop_drop, ahead_order, Nat.succ_mul, Nat.add_comm wordSize]

/-! ## Actions -/

/-- `action.Spans size value`: the action takes so many bytes, depending on the offset, and makes of
them what `value` says; where there are fewer it fails. -/
structure Read.Spans {α : Type} (action : Read α) (size : Nat → Nat)
    (value : ByteOrder → Nat → Bytes → α) : Prop where
  takes : ∀ order offset bytes, bytes.length = size offset →
    action.Takes order offset bytes (value order offset bytes)
  enough : ∀ c a c', action.run c = .ok a c' → size c.offset ≤ c.rest.length

/-- What an action that succeeded has read, and where it leads. -/
theorem Read.Spans.run_eq {α : Type} {action : Read α} {size : Nat → Nat}
    {value : ByteOrder → Nat → Bytes → α} (h : action.Spans size value) {c c' : Cursor} {a : α}
    (hrun : action.run c = .ok a c') :
    size c.offset ≤ c.rest.length
      ∧ action.Takes c.order c.offset (c.rest.take (size c.offset)) a
      ∧ a = value c.order c.offset (c.rest.take (size c.offset))
      ∧ c' = c.ahead (size c.offset) := by
  have hle := h.enough c a c' hrun
  have hlength : (c.rest.take (size c.offset)).length = size c.offset := by
    rw [List.length_take, Nat.min_eq_left hle]
  have htakes := h.takes c.order c.offset _ hlength
  have hsame := htakes (c.rest.drop (size c.offset))
  rw [List.take_append_drop, hlength] at hsame
  cases hrun.symm.trans hsame
  exact ⟨hle, htakes, rfl, rfl⟩

/-- What an action reads where there are enough bytes, and where it leads. -/
theorem Read.Spans.run_of_le {α : Type} {action : Read α} {size : Nat → Nat}
    {value : ByteOrder → Nat → Bytes → α} (h : action.Spans size value) {c : Cursor}
    (hle : size c.offset ≤ c.rest.length) :
    action.run c = .ok (value c.order c.offset (c.rest.take (size c.offset)))
      (c.ahead (size c.offset)) := by
  have hlength : (c.rest.take (size c.offset)).length = size c.offset := by
    rw [List.length_take, Nat.min_eq_left hle]
  have htakes := h.takes c.order c.offset _ hlength (c.rest.drop (size c.offset))
  rwa [List.take_append_drop, hlength] at htakes

/-- Where there are not enough bytes the action fails. -/
theorem Read.Spans.run_of_lt {α : Type} {action : Read α} {size : Nat → Nat}
    {value : ByteOrder → Nat → Bytes → α} (h : action.Spans size value) {c : Cursor}
    (hlt : c.rest.length < size c.offset) : ∃ e c', action.run c = .error e c' := by
  cases hrun : action.run c with
  | ok a c' => exact absurd (h.enough c a c' hrun) (Nat.not_le_of_lt hlt)
  | error e c' => exact ⟨e, c', rfl⟩

/-- `action.Placeless`: what the action reads it makes of the bytes that it takes, and of them it
makes the same at any offset and before any other bytes. -/
def Read.Placeless {α : Type} (action : Read α) : Prop :=
  ∀ c a c', action.run c = .ok a c' → ∃ n ≤ c.rest.length, c' = c.ahead n
    ∧ ∀ offset, action.Takes c.order offset (c.rest.take n) a

section Placeless

variable {α β : Type} {action : Read α}

theorem Read.placeless_pure (a : α) : Read.Placeless (pure a) := by
  rintro c b c' ⟨⟩
  exact ⟨0, Nat.zero_le _, rfl, fun _ => Read.takes_pure a⟩

theorem Read.Placeless.bind {next : α → Read β} (h : action.Placeless)
    (hnext : ∀ a, (next a).Placeless) : Read.Placeless (action >>= next) := by
  intro c b c' hrun
  simp only [EStateM.run, Bind.bind, EStateM.bind] at hrun
  split at hrun
  · next a d ha =>
    obtain ⟨n, hn, rfl, htakes⟩ := h c a d ha
    obtain ⟨m, hm, rfl, htakes'⟩ := hnext a (c.ahead n) b c' hrun
    rw [Cursor.ahead_rest, List.length_drop] at hm
    refine ⟨n + m, by omega, c.ahead_ahead n m, fun offset => ?_⟩
    rw [List.take_add]
    exact (htakes offset).bind (htakes' _)
  · cases hrun

/-- An action that takes so many bytes wherever it stands. -/
theorem Read.Spans.placeless {size : Nat} {value : ByteOrder → Bytes → α}
    (h : action.Spans (fun _ => size) fun order _ bytes => value order bytes) :
    action.Placeless := by
  intro c a c' hrun
  obtain ⟨hle, -, rfl, rfl⟩ := h.run_eq hrun
  refine ⟨size, hle, rfl, fun offset => h.takes c.order offset _ ?_⟩
  rw [List.length_take, Nat.min_eq_left hle]

end Placeless

namespace Cursor

open Read

theorem take_spans (size : Nat) : (take size).Spans (fun _ => size) fun _ _ bytes => bytes where
  takes _ _ _ hlength := takes_take hlength
  enough c a c' hrun := Nat.le_trans (Nat.le_add_left _ _) (take_consumes size c a c' hrun)

theorem word_spans : word.Spans (fun _ => wordSize) fun order _ bytes => order.toNat bytes where
  takes _ _ _ hlength := takes_word_of_length hlength
  enough c a c' hrun := Nat.le_trans (Nat.le_add_left _ _) (word_consumes c a c' hrun)

/-- A word is read wherever there are enough bytes. -/
theorem word_run {c : Cursor} (h : wordSize ≤ c.rest.length) :
    word.run c = .ok (c.peek 0) (c.ahead wordSize) := by
  rw [peek_zero]
  exact word_spans.run_of_le h

theorem counter_spans : counter.Spans (fun _ => 2 * wordSize) fun order _ bytes =>
    order.toNat (bytes.take wordSize) + wordRange * order.toNat (bytes.drop wordSize) where
  takes order offset bytes hlength := by
    have htakes : counter.Takes order offset (bytes.take wordSize ++ bytes.drop wordSize) _ :=
      (takes_word_of_length (by rw [List.length_take, hlength]; rfl)).bind
        ((takes_word_of_length (by rw [List.length_drop, hlength]; rfl)).map fun high =>
          _ + wordRange * high)
    rwa [List.take_append_drop] at htakes
  enough c a c' hrun := by
    have hconsumes : counter.Consumes (wordSize + (wordSize + 0)) :=
      word_consumes.bind fun _ => word_consumes.bind fun _ => consumes_pure _
    have := hconsumes c a c' hrun
    omega

theorem skipWords_spans (count : Int) :
    (skipWords count).Spans (fun _ => count.toNat * wordSize) fun _ _ _ => () where
  takes _ _ _ hlength := (takes_take hlength).map fun _ => ()
  enough c a c' hrun := by
    have hconsumes : (skipWords count).Consumes (count.toNat * wordSize + 0) :=
      (take_consumes _).bind fun _ => consumes_pure _
    have := hconsumes c a c' hrun
    omega

theorem skipTo_spans (fin : Nat) :
    (skipTo fin).Spans (fun offset => fin - offset) fun _ _ _ => () where
  takes order offset bytes hlength := by
    have hsize : bytes.length = ((fin : Int) - offset).toNat := by omega
    exact takes_get fun rest => (takes_take hsize).map (fun _ => ()) rest
  enough c a c' hrun := by
    have hconsumes : Consumes (do let _ ← take ((fin : Int) - c.offset).toNat)
        (((fin : Int) - c.offset).toNat + 0) :=
      (take_consumes _).bind fun _ => consumes_pure _
    have := hconsumes c a c' hrun
    omega

theorem string_placeless : string.Placeless :=
  word_spans.placeless.bind fun _ => (take_spans _).placeless.bind fun _ => placeless_pure _

end Cursor

theorem readVersion_placeless : readVersion.Placeless :=
  Cursor.word_spans.placeless.bind fun _ => Cursor.word_spans.placeless.bind fun _ =>
    Read.placeless_pure _

/-- The first word of a file shows its kind and its byte order. -/
theorem openFile_eq (kind : FileKind) {bytes : Bytes} (h : wordSize ≤ bytes.length) :
    openFile kind bytes
      = if ByteOrder.big.toNat (bytes.take wordSize) = kind.magic then
          .ok { rest := bytes.drop wordSize, offset := wordSize, order := .big }
        else if byteSwap (ByteOrder.big.toNat (bytes.take wordSize)) = kind.magic then
          .ok { rest := bytes.drop wordSize, offset := wordSize, order := .little }
        else .error (.wrongMagic kind (ByteOrder.big.toNat (bytes.take wordSize))) := by
  rw [openFile, Cursor.word_run (c := .ofBytes bytes) h, Cursor.peek_zero]
  rfl

theorem openFile_of_lt (kind : FileKind) {bytes : Bytes} (h : bytes.length < wordSize) :
    openFile kind bytes = .error (.noMagic kind) := by
  obtain ⟨e, c, he⟩ := Cursor.word_spans.run_of_lt (c := .ofBytes bytes) h
  rw [openFile, he]

/-! ## Steps -/

/-- A decoder in the same place, before other bytes. -/
def Scan.before {σ : Type u} (t : Scan σ) (rest : Bytes) : Scan σ :=
  { t with cursor := { t.cursor with rest } }

namespace Scanner

variable {σ : Type u} {ω : Type v} {α : Type} {c : Cursor} {P : Scan σ → Prop}

/-- `scanner.Goes c P`: where the step goes on from the cursor, what it leaves has the property; and
it has passed over the bytes in between. -/
def Goes (scanner : Scanner σ ω) (c : Cursor) (P : Scan σ → Prop) : Prop :=
  ∀ t, scanner c = .next t → P t ∧ ∃ n ≤ c.rest.length, t.cursor = c.ahead n
    ∧ scanner.Passes c.order c.offset (c.rest.take n) t.state

theorem goes_goOn {state : σ} (h : P { cursor := c, state }) : Goes (goOn (ω := ω) state) c P := by
  rintro t ⟨⟩
  exact ⟨h, 0, Nat.zero_le _, rfl, passes_goOn state⟩

theorem goes_finish (outcome : ω) : Goes (finish outcome) c P := by
  rintro t ⟨⟩

theorem Goes.imp {scanner : Scanner σ ω} {Q : Scan σ → Prop} (h : scanner.Goes c P)
    (himp : ∀ t, P t → Q t) : scanner.Goes c Q := by
  intro t ht
  obtain ⟨hP, hpassed⟩ := h t ht
  exact ⟨himp t hP, hpassed⟩

/-- A read that takes some bytes, and a use of it that goes on from behind them. -/
theorem goes_read_of_takes {action : Read α} {close : ω} {use : α → Scanner σ ω}
    (h : ∀ a c', action.run c = .ok a c' → ∃ n ≤ c.rest.length, c' = c.ahead n
      ∧ action.Takes c.order c.offset (c.rest.take n) a ∧ (use a).Goes (c.ahead n) P) :
    Goes (read action close use) c P := by
  intro t ht
  unfold read at ht
  split at ht
  · next a c' hrun =>
    obtain ⟨m, hle, rfl, htakes, huse⟩ := h a c' hrun
    obtain ⟨hP, n, hn, hcursor, hpasses⟩ := huse t ht
    refine ⟨hP, m + n, ?_, hcursor.trans (c.ahead_ahead _ _), ?_⟩
    · rw [Cursor.ahead_rest, List.length_drop] at hn
      omega
    · rw [List.take_add]
      refine passes_read htakes ?_
      rw [List.length_take, Nat.min_eq_left hle]
      exact hpasses
  · cases ht

theorem goes_read {action : Read α} {size : Nat → Nat} {value : ByteOrder → Nat → Bytes → α}
    (h : action.Spans size value) {close : ω} {use : α → Scanner σ ω}
    (huse : (use (value c.order c.offset (c.rest.take (size c.offset)))).Goes
      (c.ahead (size c.offset)) P) : Goes (read action close use) c P := by
  refine goes_read_of_takes fun a c' hrun => ?_
  obtain ⟨hle, htakes, rfl, rfl⟩ := h.run_eq hrun
  exact ⟨_, hle, rfl, htakes, huse⟩

/-- What a decoder comes to depends on what it has read alone. -/
theorem reaches_before {step : σ → Scanner σ ω} {h : ∀ state, (step state).Advances 1}
    (hgoes : ∀ state c, (step state).Goes c fun _ => True) {s t : Scan σ}
    (hreach : (machine step h).Reaches s t) :
    ∃ n ≤ s.cursor.rest.length, t.cursor = s.cursor.ahead n
      ∧ ∀ rest, (machine step h).Reaches (s.before (s.cursor.rest.take n ++ rest))
          (t.before rest) := by
  induction hreach with
  | start => exact ⟨0, Nat.zero_le _, rfl, fun rest => .start⟩
  | @step t t' _ hstep ih =>
    obtain ⟨n, hn, hcursor, hreaches⟩ := ih
    obtain ⟨-, m, hm, hcursor', hpasses⟩ := hgoes t.state t.cursor t' hstep
    rw [hcursor, Cursor.ahead_rest] at hm hpasses
    rw [hcursor, Cursor.ahead_ahead] at hcursor'
    refine ⟨n + m, ?_, hcursor', fun rest => ?_⟩
    · rw [List.length_drop] at hm
      omega
    · have hfirst := hreaches ((s.cursor.rest.drop n).take m ++ rest)
      rw [← List.append_assoc, ← List.take_add] at hfirst
      refine hfirst.step ?_
      have hlast := hpasses rest
      rw [List.length_take, Nat.min_eq_left hm] at hlast
      rw [Scan.before, hcursor]
      refine hlast.trans ?_
      rw [Scan.before, hcursor']
      simp [Cursor.ahead, Nat.add_assoc]

end Scanner

end Coverage
