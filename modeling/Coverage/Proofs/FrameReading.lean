import Coverage.Proofs.Credits

/-!
# Reading a record where it stands

Where a complete record stands in a buffer and is long enough, every read in it succeeds, and it is
left at its end.  A step at its start is what is done with its words (`step_frame`): a function is
compared with the one that the notes have, words are skipped, or counters are read one by one
(`resume_reaches`).
-/

namespace Coverage.Counters

open FlowGraph

/-! ## Reading inside a buffer -/

section Reads

variable {s : State} {c : Cursor} {fin : Nat}

theorem read_of_spans {α : Type} {action : Read α} {size : Nat → Nat}
    {value : ByteOrder → Nat → Bytes → α} (h : action.Spans size value)
    (hle : size c.offset ≤ c.rest.length) (use : α → Step) :
    s.read action use c
      = use (value c.order c.offset (c.rest.take (size c.offset))) (c.ahead (size c.offset)) := by
  rw [State.read, Scanner.read, h.run_of_le hle]

theorem read_word (hle : wordSize ≤ c.rest.length) (use : Nat → Step) :
    s.read Cursor.word use c = use (c.peek 0) (c.ahead wordSize) := by
  rw [Cursor.peek_zero]
  exact read_of_spans Cursor.word_spans hle use

theorem read_counter (hle : 2 * wordSize ≤ c.rest.length) (use : Nat → Step) :
    s.read Cursor.counter use c
      = use (c.peek 0 + wordRange * c.peek 1) (c.ahead (2 * wordSize)) := by
  have hlow : (c.rest.take (2 * wordSize)).take wordSize = c.rest.take wordSize := by
    rw [List.take_take]
    rfl
  have hhigh : (c.rest.take (2 * wordSize)).drop wordSize
      = (c.rest.drop (1 * wordSize)).take wordSize := by
    rw [List.drop_take]
    rfl
  rw [Cursor.peek_zero, Cursor.peek, ← hlow, ← hhigh]
  exact read_of_spans Cursor.counter_spans hle use

theorem length_rest_ahead (c : Cursor) (n : Nat) :
    (c.ahead n).rest.length = c.rest.length - n := by
  rw [Cursor.ahead_rest, List.length_drop]

/-- A record is left for its end. -/
theorem leave_ahead {n : Nat} (hle : c.offset + n ≤ fin) (hfin : fin ≤ c.offset + c.rest.length) :
    s.leave fin (c.ahead n) = .next
      { cursor := c.ahead (fin - c.offset), state := { s with mode := .between } } := by
  have hskip : fin - (c.ahead n).offset ≤ (c.ahead n).rest.length := by
    rw [length_rest_ahead, Cursor.ahead_offset]
    omega
  have hend : n + (fin - (c.ahead n).offset) = fin - c.offset := by
    rw [Cursor.ahead_offset]
    omega
  rw [State.leave, read_of_spans (Cursor.skipTo_spans fin) hskip, Cursor.ahead_ahead, hend]
  rfl

/-- Words are skipped, and the record is left for its end. -/
theorem skipWords_leave_ahead (s t : State) {count : Int} {n words : Nat}
    (hwords : count.toNat = words) (hle : c.offset + n + words * wordSize ≤ fin)
    (hfin : fin ≤ c.offset + c.rest.length) :
    s.read (Cursor.skipWords count) (fun _ => t.leave fin) (c.ahead n) = .next
      { cursor := c.ahead (fin - c.offset), state := { t with mode := .between } } := by
  subst hwords
  have hskip : count.toNat * wordSize ≤ (c.ahead n).rest.length := by
    rw [length_rest_ahead]
    omega
  rw [read_of_spans (Cursor.skipWords_spans count) hskip, Cursor.ahead_ahead,
    leave_ahead (by omega) hfin]

/-! ## What stands in a record -/

theorem peek_ahead_two (c : Cursor) (k : Nat) :
    (c.ahead (2 * wordSize)).peek k = c.peek (k + 2) := by
  rw [Nat.two_mul, ← Cursor.ahead_ahead, Cursor.peek_ahead, Cursor.peek_ahead]

variable {f : Frame} {rest : Bytes}

theorem length_rest_frame (hrest : c.rest = f.bytes c.order ++ rest) :
    c.rest.length = f.size + rest.length := by
  rw [hrest, List.length_append, f.length_bytes]

/-- The words of a record stand behind its tag and its length. -/
theorem peek_word (hrest : c.rest = f.bytes c.order ++ rest) {k : Nat} (hk : k < f.words) :
    (c.ahead (2 * wordSize)).peek k = f.word c.order k := by
  have hhead : (Writer.word c.order f.tag ++ Writer.word c.order f.words).length
      = 2 * wordSize := by
    rw [List.length_append, Writer.length_word, Writer.length_word, Nat.two_mul]
  have hbytes : c.rest = (Writer.word c.order f.tag ++ Writer.word c.order f.words)
      ++ (f.payload ++ rest) := by
    simp only [hrest, Frame.bytes, List.append_assoc]
  have hin : k * wordSize + wordSize ≤ f.payload.length := by
    rw [f.length_payload, ← Nat.succ_mul]
    exact Nat.mul_le_mul_right _ hk
  have hword : wordSize ≤ (f.payload.drop (k * wordSize)).length := by
    rw [List.length_drop]
    omega
  rw [Cursor.peek, Cursor.ahead_rest, Cursor.ahead_order, hbytes, List.drop_left' hhead,
    List.drop_append_of_le_length (by omega), List.take_append_of_le_length hword, Frame.word]

/-- The counters of a record are those that stand in it. -/
theorem readingsOf_eq (hrest : c.rest = f.bytes c.order ++ rest) (p : Nat) {ids : List Nat}
    (hlength : ids.length * 2 ≤ f.words) :
    readingsOf c.order p ids f = ids.mapIdx fun k id =>
      { position := p, id, count := (c.ahead (2 * wordSize)).peek (2 * k)
          + wordRange * (c.ahead (2 * wordSize)).peek (2 * k + 1) } := by
  refine List.mapIdx_eq_mapIdx_iff.mpr fun k hk => ?_
  rw [Frame.counter, peek_word hrest (by omega), peek_word hrest (by omega)]

/-- Inside a record there is room for its words, and behind them it ends. -/
theorem frame_room (hrest : c.rest = f.bytes c.order ++ rest) :
    (∀ words ≤ f.words,
        (c.ahead (2 * wordSize)).offset + words * wordSize ≤ c.offset + f.size)
      ∧ c.offset + f.size ≤ (c.ahead (2 * wordSize)).offset + (c.ahead (2 * wordSize)).rest.length
      ∧ (c.ahead (2 * wordSize)).ahead (c.offset + f.size - (c.ahead (2 * wordSize)).offset)
        = c.ahead f.size := by
  have hlength := length_rest_frame hrest
  have hsize := f.size_eq
  rw [length_rest_ahead, Cursor.ahead_ahead, Cursor.ahead_offset, hlength]
  refine ⟨fun words hwords => ?_, by omega, ?_⟩
  · have := Nat.mul_le_mul_right wordSize hwords
    omega
  · have hend : 2 * wordSize + (c.offset + f.size - (c.offset + 2 * wordSize)) = f.size := by
      omega
    rw [hend]

/-- The step at the start of a record is what is done in it. -/
theorem step_frame (hmode : s.mode = .between) (hrest : c.rest = f.bytes c.order ++ rest) :
    step s c = handle s f.tag f.words (c.offset + f.size) (c.ahead (2 * wordSize)) := by
  obtain ⟨htag, hwords, -⟩ := peek_frame hrest
  have hlength := length_rest_frame hrest
  have hsize := f.size_eq
  have hahead : wordSize ≤ (c.ahead wordSize).rest.length := by
    rw [length_rest_ahead]
    omega
  rw [step, hmode]
  dsimp only
  rw [readTag, read_word (by omega), htag, if_neg (Nat.ne_of_gt f.tag_pos),
    read_of_spans readFrame_spans hahead, ← Cursor.peek_zero, Cursor.peek_ahead, hwords,
    Cursor.ahead_ahead, ← Nat.two_mul, Cursor.ahead_offset, hsize, Nat.two_mul]
  simp only [Nat.add_assoc]
  rfl

theorem leave_frame (hrest : c.rest = f.bytes c.order ++ rest) (s : State) :
    s.leave (c.offset + f.size) (c.ahead (2 * wordSize)) = .next
      { cursor := c.ahead f.size, state := { s with mode := .between } } := by
  have hlength := length_rest_frame hrest
  have hle := (frame_room hrest).1 0 (Nat.zero_le _)
  rw [Cursor.ahead_offset] at hle
  rw [leave_ahead (by omega) (by omega), Nat.add_sub_cancel_left]

theorem skipWords_frame (hrest : c.rest = f.bytes c.order ++ rest) (s : State) {count : Int}
    {words : Nat} (hwords : count.toNat = words) (hle : words ≤ f.words) :
    s.read (Cursor.skipWords count) (fun _ => s.leave (c.offset + f.size))
        (c.ahead (2 * wordSize)) = .next
      { cursor := c.ahead f.size, state := { s with mode := .between } } := by
  have hlength := length_rest_frame hrest
  have hle := (frame_room hrest).1 words hle
  rw [Cursor.ahead_offset] at hle
  rw [skipWords_leave_ahead s s hwords hle (by omega), Nat.add_sub_cancel_left]

/-! ## Records of functions -/

theorem readFunction_of_unmatched (hfound : findFunction? s.functions (c.peek 0) = none)
    (hle : c.offset + wordSize ≤ fin) (hfin : fin ≤ c.offset + c.rest.length) :
    ∃ log, readFunction s fin c = .next
      { cursor := c.ahead (fin - c.offset)
        state := { s with selection := .unmatched, mode := .between, log } } := by
  refine ⟨s.log ++ [.unmatchedFunction (c.peek 0)], ?_⟩
  rw [readFunction, read_word (by omega), hfound]
  exact leave_ahead hle hfin

theorem readFunction_of_checksum {p : Nat} {func : Func}
    (hfound : findFunction? s.functions (c.peek 0) = some (p, func))
    (hchecksum : c.peek 1 = func.checksum)
    (hle : c.offset + (Version.graphChecksumWords s.version + 2) * wordSize ≤ fin)
    (hfin : fin ≤ c.offset + c.rest.length) :
    readFunction s fin c = .next
      { cursor := c.ahead (fin - c.offset)
        state := { s with selection := .matched p, mode := .between } } := by
  rw [Nat.add_mul] at hle
  have hsecond : wordSize ≤ (c.ahead wordSize).rest.length := by
    rw [length_rest_ahead]
    omega
  rw [readFunction, read_word (by omega), hfound]
  dsimp only
  rw [confirm, read_word hsecond, Cursor.peek_ahead, if_pos hchecksum, Cursor.ahead_ahead]
  exact skipWords_leave_ahead s (s.select _) (Int.toNat_natCast _) (by omega) hfin

theorem readFunction_of_mismatch {p : Nat} {func : Func}
    (hfound : findFunction? s.functions (c.peek 0) = some (p, func))
    (hchecksum : c.peek 1 ≠ func.checksum) (hle : 2 * wordSize ≤ c.rest.length) :
    readFunction s fin c = .stop
      { state := s.functions
        result := .error (.checksumMismatch func.name func.checksum (c.peek 1))
        log := s.log } := by
  have hsecond : wordSize ≤ (c.ahead wordSize).rest.length := by
    rw [length_rest_ahead]
    omega
  rw [readFunction, read_word (by omega), hfound]
  dsimp only
  rw [confirm, read_word hsecond, Cursor.peek_ahead, if_neg hchecksum]
  rfl

end Reads

/-! ## Records of counters -/

section Counting

variable {functions : List Func} {rs : List Reading}

/-- The counters of some exits, and what comes of them. -/
theorem resume_reaches (hlinked : ∀ func ∈ functions, func.graph.Linked) {p fin : Nat}
    {exits : List Exit} (hexits : Expects functions p exits) {s : State}
    (h : Accounts functions rs s) {c : Cursor}
    (hle : c.offset + exits.length * (2 * wordSize) ≤ fin)
    (hfin : fin ≤ c.offset + c.rest.length) :
    ∃ u t : Scan State, resume s p exits fin c = .next u ∧ machine.Reaches u t
      ∧ t.cursor = c.ahead (fin - c.offset) ∧ t.state.mode = .between
      ∧ t.state.version = s.version ∧ t.state.selection = .none
      ∧ Accounts functions (rs ++ (exits.map (·.id)).mapIdx fun k id =>
          { position := p, id, count := c.peek (2 * k) + wordRange * c.peek (2 * k + 1) })
        t.state := by
  induction exits generalizing rs s c with
  | nil =>
    have hleave : resume s p [] fin c = .next _ := leave_ahead (n := 0) hle hfin
    refine ⟨_, _, hleave, .start, rfl, rfl, rfl, rfl, ?_⟩
    rw [List.map_nil, List.mapIdx_nil, List.append_nil]
    exact {
      recorded := h.recorded
      selected := by rintro q ⟨⟩
      counting := by rintro q next further fin ⟨⟩ }
  | cons exit exits ih =>
    have hmode : Accounts functions rs { s with mode := .inCounters p exit exits fin } := {
      recorded := h.recorded
      selected := h.selected
      counting := by
        rintro q next further fin ⟨⟩
        exact hexits }
    obtain ⟨func, arc, hfunc, harc, hdst, hassign⟩ := hmode.assign hlinked rfl
    let count := c.peek 0 + wordRange * c.peek 1
    let s' := assign { s with mode := .inCounters p exit exits fin } p exit arc count
    rw [List.length_cons, Nat.succ_mul] at hle
    have hcounter : step { s with mode := .inCounters p exit exits fin } c
        = resume s' p exits fin (c.ahead (2 * wordSize)) := by
      simp only [step, readCounter]
      rw [read_counter (by omega), hfunc]
      simp only [harc, if_pos hdst]
      rfl
    have hexits' : Expects functions p exits := by
      obtain ⟨func₀, hfound, hmeasured⟩ := hexits
      exact ⟨func₀, hfound, fun other hother => hmeasured other (List.mem_cons_of_mem exit hother)⟩
    have hle' : (c.ahead (2 * wordSize)).offset + exits.length * (2 * wordSize) ≤ fin := by
      rw [Cursor.ahead_offset]
      omega
    have hfin' : fin ≤ (c.ahead (2 * wordSize)).offset + (c.ahead (2 * wordSize)).rest.length := by
      rw [Cursor.ahead_offset, length_rest_ahead]
      omega
    obtain ⟨u, t, hresume, hreach, hcursor, hbetween, hversion, hselection, haccounts⟩ :=
      ih hexits' (hassign count) hle' hfin'
    have hend : 2 * wordSize + (fin - (c.ahead (2 * wordSize)).offset) = fin - c.offset := by
      rw [Cursor.ahead_offset]
      omega
    have hnext : machine.step
          { cursor := c, state := { s with mode := .inCounters p exit exits fin } }
        = .next u := hcounter.trans hresume
    refine ⟨_, t, rfl, hreach.of_next _ hnext, ?_, hbetween, hversion, hselection, ?_⟩
    · rw [hcursor, Cursor.ahead_ahead, hend]
    · rw [List.append_assoc, List.singleton_append] at haccounts
      simp only [peek_ahead_two] at haccounts
      rw [List.map_cons, List.mapIdx_cons]
      exact haccounts

end Counting

end Coverage.Counters
