import Coverage.Proofs.DataReading
import Coverage.Proofs.Spans

/-!
# Records and their frames

A record of a data file is framed: its length says where the next record is.  How many words the
decoder takes of a record is another matter.  A record of a function has an ident, and for a known
ident one or two checksums behind it; there are as many counters as the graph of the function asks
for; summaries have a size that the version determines (`Layout.words`).  What is left of a frame is
skipped, but the decoder never goes back.  So the next tag comes where the frame ends, or behind the
words that were taken, whichever is later (`goes_step`).
-/

namespace Coverage.Counters

/-! ## What a record takes -/

/-- What the sizes of records depend on: the version, and the ident and the number of counters of
every function. -/
structure Layout where
  version : Nat
  functions : List (Nat × Nat)
deriving DecidableEq, Repr

/-- The layout that a decoder goes by. -/
def State.layout (s : State) : Layout where
  version := s.version
  functions := s.functions.map fun func => (func.ident, (measuredIds func.graph).length)

namespace Layout

/-- The position of the first function with an ident. -/
def find? (layout : Layout) (ident : Nat) : Option Nat :=
  layout.functions.findIdx? (·.1 == ident)

/-- The number of counters of the selected function. -/
def counters (layout : Layout) : Selection → Nat
  | .matched position => (layout.functions[position]?).elim 0 (·.2)
  | _ => 0

/-- The words that are taken of a record.  Of the word behind its length only the record of a
function makes use, as an ident. -/
def words (layout : Layout) (selection : Selection) (tag length ident : Nat) : Nat :=
  if tag = functionTag then
    if (layout.find? ident).isSome then Version.graphChecksumWords layout.version + 2 else 1
  else if tag = countersTag then layout.counters selection * 2
  else if tag = objectSummaryTag then objectSummaryWords layout.version
  else if tag = programSummaryTag then max programSummaryWords length
  else 0

/-- The function that is selected after a record. -/
def select (layout : Layout) (selection : Selection) (tag ident : Nat) : Selection :=
  if tag = functionTag then (layout.find? ident).elim .unmatched .matched
  else if tag = countersTag then .none
  else selection

end Layout

/-! ## Where a decoder arrives -/

/-- The offset of the next tag, if the decoder goes on. -/
def nextTag (t : Scan State) : Nat :=
  match t.state.mode with
  | .between => t.cursor.offset
  | .inCounters _ _ further fin =>
    max fin (t.cursor.offset + (further.length + 1) * (2 * wordSize))

/-- The function that is selected at the next tag. -/
def nextSelection (t : Scan State) : Selection :=
  match t.state.mode with
  | .between => t.state.selection
  | .inCounters .. => .none

/-- `Arrives layout least offset selection t`: the decoder has come at least so far, and comes to
the next tag at this offset and with this selection. -/
structure Arrives (layout : Layout) (least offset : Nat) (selection : Selection) (t : Scan State) :
    Prop where
  layout : t.state.layout = layout
  least : least ≤ t.cursor.offset
  offset : nextTag t = offset
  selection : nextSelection t = selection

variable {s : State} {c : Cursor} {fin least : Nat} {P : Scan State → Prop}

theorem goes_read {α : Type} {action : Read α} {size : Nat → Nat}
    {value : ByteOrder → Nat → Bytes → α} (h : action.Spans size value) {use : α → Step}
    (huse : (use (value c.order c.offset (c.rest.take (size c.offset)))).Goes
      (c.ahead (size c.offset)) P) : (s.read action use).Goes c P :=
  Scanner.goes_read h huse

theorem readFrame_spans : readFrame.Spans (fun _ => wordSize) fun order offset bytes =>
    (order.toNat bytes, offset + wordSize + order.toNat bytes * wordSize) where
  takes _ _ _ hlength := readFrame_takes_of_length hlength
  enough c a c' hrun := by
    have hconsumes : readFrame.Consumes (wordSize + (0 + 0)) :=
      Cursor.word_consumes.bind fun _ => Read.consumes_get.bind fun _ => Read.consumes_pure _
    have := hconsumes c a c' hrun
    omega

/-- A word is what stands next. -/
theorem goes_word {use : Nat → Step} (huse : (use (c.peek 0)).Goes (c.ahead wordSize) P) :
    (s.read Cursor.word use).Goes c P := by
  rw [Cursor.peek_zero] at huse
  exact goes_read Cursor.word_spans huse

/-- A record is left at its end, or where it was read to. -/
theorem goes_leave {offset : Nat} (hleast : least ≤ c.offset)
    (hoffset : max fin c.offset = offset) :
    (s.leave fin).Goes c (Arrives s.layout least offset s.selection) := by
  refine goes_read (Cursor.skipTo_spans fin) (Scanner.goes_goOn ?_)
  exact {
    layout := rfl
    least := Nat.le_trans hleast (Nat.le_add_right _ _)
    offset := by
      simp only [nextTag, Cursor.ahead_offset]
      omega
    selection := rfl }

/-- Words are skipped at the start of a record. -/
theorem goes_skipWords {count : Int} {words : Nat} (hwords : count.toNat = words)
    (hleast : least ≤ c.offset) :
    (s.read (Cursor.skipWords count) fun _ => s.leave fin).Goes c
      (Arrives s.layout least (max fin (c.offset + words * wordSize)) s.selection) := by
  subst hwords
  exact goes_read (Cursor.skipWords_spans count)
    (goes_leave (Nat.le_trans hleast (Nat.le_add_right _ _)) rfl)

/-! ## Functions -/

/-- Functions are found by what the layout says of them. -/
theorem find?_layout (s : State) (ident : Nat) :
    s.layout.find? ident = (findFunction? s.functions ident).map (·.1) := by
  have hfind : s.layout.find? ident = s.functions.findIdx? (·.ident == ident) := by
    rw [Layout.find?, State.layout, List.findIdx?_map]
    rfl
  rw [hfind, findFunction?]
  cases hindex : s.functions.findIdx? (·.ident == ident) with
  | none => rfl
  | some position =>
    obtain ⟨hlt, -⟩ := List.findIdx?_eq_some_iff_findIdx_eq.mp hindex
    simp [List.getElem?_eq_getElem hlt]

theorem goes_confirm {position : Nat} {func : Func} (hleast : least ≤ c.offset) :
    (confirm s position func fin).Goes c (Arrives s.layout least
      (max fin (c.offset + (Version.graphChecksumWords s.version + 1) * wordSize))
      (.matched position)) := by
  refine goes_word ?_
  split
  · refine goes_read (Cursor.skipWords_spans _) (goes_leave (s := s.select _) ?_ ?_)
    · exact Nat.le_trans hleast (Nat.le_trans (Nat.le_add_right _ _) (Nat.le_add_right _ _))
    · rw [← Cursor.ahead_offset_add]
      rfl
  · exact Scanner.goes_finish _

theorem goes_readFunction (length : Nat) (hleast : least ≤ c.offset) :
    (readFunction s fin).Goes c (Arrives s.layout least (max fin (c.offset
        + s.layout.words s.selection functionTag length (c.peek 0) * wordSize))
      (s.layout.select s.selection functionTag (c.peek 0))) := by
  have hahead : least ≤ (c.ahead wordSize).offset := Nat.le_trans hleast (Nat.le_add_right _ _)
  refine goes_word ?_
  rw [Layout.words, if_pos rfl, Layout.select, if_pos rfl, find?_layout]
  split
  · next position func hfound =>
    rw [hfound, Option.map_some, Option.isSome_some, if_pos rfl, Option.elim_some,
      ← Cursor.ahead_offset_add]
    exact goes_confirm hahead
  · next hnone =>
    rw [hnone]
    exact goes_leave (s := (s.select .unmatched).logging _) hahead (by
      simp)

/-! ## Counters -/

/-- Counters change no layout. -/
theorem layout_assign (s : State) (position : Nat) (exit : Exit) (arc : Arc) (count : Nat) :
    (assign s position exit arc count).layout = s.layout := by
  have hfunctions : (assign s position exit arc count).functions.map
        (fun func => (func.ident, (measuredIds func.graph).length))
      = s.functions.map fun func => (func.ident, (measuredIds func.graph).length) := by
    refine List.ext_getElem? fun k => ?_
    rw [assign, List.getElem?_map, List.getElem?_map, List.getElem?_modify, Option.map_eq_map,
      Option.map_map]
    refine congrArg (Option.map · _) (funext fun func => ?_)
    simp only [Function.comp_apply]
    split
    · simp only [Func.mapGraph, measuredIds_countArc]
    · rfl
  exact congrArg (Layout.mk s.version) hfunctions

theorem goes_resume (position : Nat) (exits : List Exit) (hleast : least ≤ c.offset) :
    (resume s position exits fin).Goes c (Arrives s.layout least
      (max fin (c.offset + exits.length * (2 * wordSize))) .none) := by
  cases exits with
  | nil => exact goes_leave (s := s.select .none) hleast (by simp)
  | cons next further => exact Scanner.goes_goOn ⟨rfl, hleast, rfl, rfl⟩

theorem goes_beginCounters (length ident : Nat) (hleast : least ≤ c.offset) :
    (beginCounters s fin).Goes c (Arrives s.layout least
      (max fin (c.offset + s.layout.words s.selection countersTag length ident * wordSize))
      (s.layout.select s.selection countersTag ident)) := by
  rw [Layout.words, if_neg (by decide), if_pos rfl, Layout.select, if_neg (by decide), if_pos rfl]
  unfold beginCounters
  split
  · exact Scanner.goes_finish _
  · next hselection =>
    rw [hselection]
    exact goes_leave (s := (s.select .none).logging _) hleast (by simp [Layout.counters])
  · next position hselection =>
    split
    · exact Scanner.goes_finish _
    · next func hfunc =>
      split
      · exact Scanner.goes_finish _
      · have hcounters : s.layout.counters (.matched position)
            = (measuredExits func.graph).length := by
          rw [Layout.counters, State.layout, List.getElem?_map, hfunc, Option.map_some,
            Option.elim_some, length_measuredExits]
        rw [hselection, hcounters, Nat.mul_assoc]
        exact goes_resume position _ hleast

theorem goes_readCounter (position : Nat) (exit : Exit) (further : List Exit)
    (hleast : least ≤ c.offset) :
    (readCounter s position exit further fin).Goes c (Arrives s.layout least
      (max fin (c.offset + (further.length + 1) * (2 * wordSize))) .none) := by
  refine goes_read Cursor.counter_spans ?_
  split
  · exact Scanner.goes_finish _
  · split
    · exact Scanner.goes_finish _
    · next arc _ =>
      split
      · rw [← Cursor.ahead_offset_add, ← layout_assign s position exit arc]
        exact goes_resume position further (Nat.le_trans hleast (Nat.le_add_right _ _))
      · exact Scanner.goes_finish _

/-! ## Steps -/

/-- A record is left behind the words that are taken of it, or at its end. -/
theorem goes_handle (tag length : Nat) (hleast : least ≤ c.offset) :
    (handle s tag length fin).Goes c (Arrives s.layout least
      (max fin (c.offset + s.layout.words s.selection tag length (c.peek 0) * wordSize))
      (s.layout.select s.selection tag (c.peek 0))) := by
  unfold handle
  split
  · next htag =>
    subst htag
    exact goes_readFunction length hleast
  · next hfunction =>
    split
    · next htag =>
      subst htag
      exact goes_beginCounters length _ hleast
    · next hcounters =>
      rw [Layout.words, if_neg hfunction, if_neg hcounters, Layout.select, if_neg hfunction,
        if_neg hcounters]
      split
      · exact goes_skipWords (Int.toNat_natCast _) hleast
      · split
        · exact goes_skipWords (by omega) hleast
        · exact goes_leave hleast (by simp)

/-- `Follows t u`: the decoder goes on from `t` to `u`.  A zero between records is padding.  From a
record the next tag comes where the frame ends, or behind the words that are taken of the record,
whichever is later; and reading counters does not change where it comes. -/
def Follows (t u : Scan State) : Prop :=
  match t.state.mode with
  | .between =>
    if t.cursor.peek 0 = 0 then u = { t with cursor := t.cursor.ahead wordSize }
    else Arrives t.state.layout (t.cursor.offset + 2 * wordSize)
      (t.cursor.offset + 2 * wordSize + max (t.cursor.peek 1) (t.state.layout.words
        t.state.selection (t.cursor.peek 0) (t.cursor.peek 1) (t.cursor.peek 2)) * wordSize)
      (t.state.layout.select t.state.selection (t.cursor.peek 0) (t.cursor.peek 2)) u
  | .inCounters .. => Arrives t.state.layout t.cursor.offset (nextTag t) (nextSelection t) u

theorem goes_readTag (hmode : s.mode = .between) :
    (readTag s).Goes c (Follows { cursor := c, state := s }) := by
  refine goes_word ?_
  unfold Follows
  rw [hmode]
  dsimp only
  split
  · exact Scanner.goes_goOn rfl
  · refine goes_read readFrame_spans ?_
    rw [← Cursor.peek_zero, Cursor.peek_ahead]
    have hoffset : ((c.ahead wordSize).ahead wordSize).offset = c.offset + 2 * wordSize := by
      rw [Cursor.ahead_ahead, Cursor.ahead_offset, Nat.two_mul]
    have hpeek : ((c.ahead wordSize).ahead wordSize).peek 0 = c.peek 2 := by
      rw [Cursor.peek_ahead, Cursor.peek_ahead]
    have hsum : ∀ m n, max (c.offset + 2 * wordSize + m * wordSize)
          (c.offset + 2 * wordSize + n * wordSize)
        = c.offset + 2 * wordSize + max m n * wordSize := by
      intro m n
      unfold wordSize
      omega
    rw [← hsum, ← hpeek, ← hoffset, Cursor.ahead_offset]
    exact goes_handle (c.peek 0) (c.peek 1) (Nat.le_refl _)

/-- Every step that goes on follows the frames, and passes over the bytes that it takes. -/
theorem goes_step (s : State) (c : Cursor) :
    (step s).Goes c (Follows { cursor := c, state := s }) := by
  unfold step
  cases hmode : s.mode with
  | between => exact goes_readTag hmode
  | inCounters position next further fin =>
    unfold Follows nextTag nextSelection
    simp only [hmode]
    exact goes_readCounter position next further (Nat.le_refl _)

end Coverage.Counters
