import Coverage.Proofs.Frames
import Mathlib.Algebra.GroupWithZero.Nat

/-!
# Files that are made of frames

A data file is a header and a row of complete records.  Where no record is declared shorter than
what is taken of it (`Layout.Fits`), the decoder reads every tag at the start of a frame, and what
it knows there depends on the records before it alone (`decode_framed`).
-/

namespace Coverage.Counters

/-! ## Frames -/

/-- A complete record: a tag other than zero, and as many words as its length says. -/
structure Frame where
  tag : Nat
  words : Nat
  payload : Bytes
  tag_pos : 0 < tag
  tag_lt : tag < wordRange
  words_lt : words < wordRange
  length_payload : payload.length = words * wordSize

namespace Frame

/-- The record in a file. -/
def bytes (order : ByteOrder) (f : Frame) : Bytes :=
  Writer.word order f.tag ++ (Writer.word order f.words ++ f.payload)

/-- The size of the record in bytes, its tag and its length included. -/
def size (f : Frame) : Nat :=
  (f.words + 2) * wordSize

/-- The first word of the record, which is an ident if the record is that of a function. -/
def ident (order : ByteOrder) (f : Frame) : Nat :=
  order.toNat (f.payload.take wordSize)

theorem size_eq (f : Frame) : f.size = 2 * wordSize + f.words * wordSize := by
  rw [size, Nat.add_mul, Nat.add_comm]

theorem length_bytes (order : ByteOrder) (f : Frame) : (f.bytes order).length = f.size := by
  simp only [bytes, size, List.length_append, Writer.length_word, f.length_payload]
  unfold wordSize
  omega

end Frame

/-- Records, one after another. -/
def framesBytes (order : ByteOrder) (frames : List Frame) : Bytes :=
  frames.flatMap (·.bytes order)

/-- A data file: the magic word, the version, the stamp, and records. -/
def framedFile (order : ByteOrder) (version stamp : Nat) (frames : List Frame) : Bytes :=
  Writer.words order [FileKind.data.magic, version, stamp] ++ framesBytes order frames

/-- The offset at which a record starts and the one before it ends. -/
def frameStart (frames : List Frame) (k : Nat) : Nat :=
  3 * wordSize + ((frames.take k).map (·.size)).sum

/-- The decoder before the first of some records. -/
def atFrames (functions : List Func) (version : Nat) (order : ByteOrder) (frames : List Frame) :
    Scan State where
  cursor := { rest := framesBytes order frames, offset := 3 * wordSize, order }
  state := { version, functions }

section Frames

variable {order : ByteOrder} {frames : List Frame} {k : Nat}

theorem length_framesBytes (order : ByteOrder) (frames : List Frame) :
    (framesBytes order frames).length = (frames.map (·.size)).sum := by
  rw [framesBytes, List.length_flatMap]
  exact congrArg _ (List.map_congr_left fun f _ => f.length_bytes order)

theorem framesBytes_append (order : ByteOrder) (frames more : List Frame) :
    framesBytes order (frames ++ more) = framesBytes order frames ++ framesBytes order more :=
  List.flatMap_append

theorem framesBytes_take_drop (order : ByteOrder) (frames : List Frame) (k : Nat) :
    framesBytes order frames
      = framesBytes order (frames.take k) ++ framesBytes order (frames.drop k) := by
  rw [← framesBytes_append, List.take_append_drop]

/-- The bytes before a record. -/
theorem take_framesBytes (order : ByteOrder) (frames : List Frame) (k : Nat) :
    (framesBytes order frames).take ((frames.take k).map (·.size)).sum
      = framesBytes order (frames.take k) := by
  rw [framesBytes_take_drop order frames k, List.take_left' (length_framesBytes order _)]

/-- The bytes from a record on. -/
theorem drop_framesBytes (order : ByteOrder) (frames : List Frame) (k : Nat) :
    (framesBytes order frames).drop ((frames.take k).map (·.size)).sum
      = framesBytes order (frames.drop k) := by
  rw [framesBytes_take_drop order frames k, List.drop_left' (length_framesBytes order _)]

/-- A record ends behind its words. -/
theorem frameStart_succ {f : Frame} (hf : frames[k]? = some f) :
    frameStart frames (k + 1) = frameStart frames k + 2 * wordSize + f.words * wordSize := by
  rw [frameStart, List.take_add_one, hf, Option.toList_some, List.map_append, List.sum_append,
    List.map_singleton, List.sum_singleton, Frame.size, frameStart]
  unfold wordSize
  omega

end Frames

/-! ## Reading a frame -/

/-- What stands at the start of a frame. -/
theorem peek_frame {c : Cursor} {f : Frame} {rest : Bytes}
    (hrest : c.rest = f.bytes c.order ++ rest) :
    c.peek 0 = f.tag ∧ c.peek 1 = f.words ∧ (0 < f.words → c.peek 2 = f.ident c.order) := by
  have htag : (Writer.word c.order f.tag).length = wordSize := Writer.length_word _ _
  have hwords : (Writer.word c.order f.words).length = wordSize := Writer.length_word _ _
  have hbytes : c.rest = Writer.word c.order f.tag
      ++ (Writer.word c.order f.words ++ (f.payload ++ rest)) := by
    rw [hrest, Frame.bytes, List.append_assoc, List.append_assoc]
  refine ⟨?_, ?_, fun hpos => ?_⟩
  · rw [Cursor.peek_zero, hbytes, List.take_left' htag, Writer.toNat_word_of_lt _ f.tag_lt]
  · rw [Cursor.peek, Nat.one_mul, hbytes, List.drop_left' htag, List.take_left' hwords,
      Writer.toNat_word_of_lt _ f.words_lt]
  · have hle : wordSize ≤ f.payload.length := by
      rw [f.length_payload]
      exact Nat.le_mul_of_pos_left _ hpos
    rw [Cursor.peek, Nat.two_mul, ← List.drop_drop, hbytes, List.drop_left' htag,
      List.drop_left' hwords, List.take_append_of_le_length hle, Frame.ident]

/-! ## Frames that are long enough -/

namespace Layout

/-- The function that is selected before a record. -/
def selectionAt (layout : Layout) (order : ByteOrder) (frames : List Frame) (k : Nat) : Selection :=
  (frames.take k).foldl (fun selection f => layout.select selection f.tag (f.ident order)) .none

/-- No record is declared shorter than what is taken of it. -/
def Fits (layout : Layout) (order : ByteOrder) (frames : List Frame) : Prop :=
  ∀ k < frames.length, ∀ f ∈ frames[k]?,
    layout.words (layout.selectionAt order frames k) f.tag f.words (f.ident order) ≤ f.words

instance (layout : Layout) (order : ByteOrder) (frames : List Frame) :
    Decidable (layout.Fits order frames) :=
  inferInstanceAs (Decidable (∀ k < frames.length, ∀ f ∈ frames[k]?,
    layout.words (layout.selectionAt order frames k) f.tag f.words (f.ident order) ≤ f.words))

variable {layout : Layout} {order : ByteOrder} {frames : List Frame} {k : Nat} {f : Frame}
  {selection : Selection}

theorem selectionAt_succ (hf : frames[k]? = some f) :
    layout.selectionAt order frames (k + 1)
      = layout.select (layout.selectionAt order frames k) f.tag (f.ident order) := by
  rw [selectionAt, List.take_add_one, hf, Option.toList_some, List.foldl_append]
  rfl

/-- Only the record of a function makes use of its first word, and it has one if it is long enough.
-/
theorem of_first_word {ident : Nat} (hident : 0 < f.words → ident = f.ident order)
    (hfits : layout.words selection f.tag f.words (f.ident order) ≤ f.words) :
    layout.words selection f.tag f.words ident ≤ f.words
      ∧ layout.select selection f.tag ident = layout.select selection f.tag (f.ident order) := by
  by_cases htag : f.tag = functionTag
  · have hpos : 0 < f.words := by
      rw [words, if_pos htag] at hfits
      split at hfits <;> omega
    rw [hident hpos]
    exact ⟨hfits, rfl⟩
  · rw [words, if_neg htag] at hfits ⊢
    rw [select, select, if_neg htag, if_neg htag]
    exact ⟨hfits, rfl⟩

end Layout

/-! ## Decoding by frames -/

/-- `Inside layout order frames k t`: the decoder comes to the next tag at the start of the frame
`k`.  Before that it may have counters to read, which stand in the frame before. -/
structure Inside (layout : Layout) (order : ByteOrder) (frames : List Frame) (k : Nat)
    (t : Scan State) : Prop where
  le : k ≤ frames.length
  offset : nextTag t = frameStart frames k
  selection : nextSelection t = layout.selectionAt order frames k
  counting : t.state.mode ≠ .between →
    ∃ j, k = j + 1 ∧ frameStart frames j + 2 * wordSize ≤ t.cursor.offset
  layout : t.state.layout = layout

section Inside

variable {functions : List Func} {version : Nat} {order : ByteOrder} {frames : List Frame}
  {k n : Nat} {t u : Scan State} {layout : Layout}

theorem follows_of_step (hstep : machine.step t = .next u) : Follows t u :=
  (goes_step t.state t.cursor u hstep).1

/-- A decoder at the start of a frame has the frame and those after it before it. -/
theorem rest_eq_of_offset
    (hcursor : t.cursor = (atFrames functions version order frames).cursor.ahead n)
    (hoffset : t.cursor.offset = frameStart frames k) :
    n = ((frames.take k).map (·.size)).sum
      ∧ t.cursor = { rest := framesBytes order (frames.drop k)
                     offset := frameStart frames k
                     order } := by
  have hn : n = ((frames.take k).map (·.size)).sum := by
    rw [hcursor] at hoffset
    exact Nat.add_left_cancel hoffset
  subst hn
  refine ⟨rfl, hcursor.trans ?_⟩
  rw [Cursor.ahead, atFrames, drop_framesBytes]
  rfl

/-- One step, where records are as long as what is taken of them. -/
theorem Inside.step (h : Inside layout order frames k t) (hfits : layout.Fits order frames)
    (hcursor : t.cursor = (atFrames functions version order frames).cursor.ahead n)
    (hstep : machine.step t = .next u) : ∃ k', Inside layout order frames k' u := by
  have hfollows := follows_of_step hstep
  unfold Follows at hfollows
  cases hmode : t.state.mode with
  | inCounters position next further fin =>
    rw [hmode] at hfollows
    obtain ⟨j, hj, hleast⟩ := h.counting (by simp [hmode])
    exact ⟨k, {
      le := h.le
      offset := hfollows.offset.trans h.offset
      selection := hfollows.selection.trans h.selection
      counting := fun _ => ⟨j, hj, Nat.le_trans hleast hfollows.least⟩
      layout := hfollows.layout.trans h.layout }⟩
  | between =>
    have hoffset : t.cursor.offset = frameStart frames k := by
      rw [← h.offset, nextTag, hmode]
    have hselection : t.state.selection = layout.selectionAt order frames k := by
      rw [← h.selection, nextSelection, hmode]
    obtain ⟨-, hplace⟩ := rest_eq_of_offset hcursor hoffset
    rcases Nat.lt_or_eq_of_le h.le with hk | hk
    · have hf : frames[k]? = some frames[k] := List.getElem?_eq_getElem hk
      have hrest : t.cursor.rest = frames[k].bytes t.cursor.order
          ++ framesBytes order (frames.drop (k + 1)) := by
        rw [hplace, List.drop_eq_getElem_cons hk]
        rfl
      have horder : t.cursor.order = order := by rw [hplace]
      obtain ⟨htag, hwords, hident⟩ := peek_frame hrest
      rw [horder] at hident
      obtain ⟨hlength, hselect⟩ := Layout.of_first_word hident (hfits k hk _ hf)
      rw [hmode] at hfollows
      dsimp only at hfollows
      rw [if_neg (htag ▸ Nat.ne_of_gt frames[k].tag_pos), htag, hwords, h.layout, hselection,
        Nat.max_eq_left hlength, hselect, hoffset, ← frameStart_succ hf,
        ← Layout.selectionAt_succ hf] at hfollows
      exact ⟨k + 1, {
        le := hk
        offset := hfollows.offset
        selection := hfollows.selection
        counting := fun _ => ⟨k, rfl, hfollows.least⟩
        layout := hfollows.layout }⟩
    · have hless := advances_step t.state t.cursor u hstep
      rw [hplace, hk, List.drop_length] at hless
      exact absurd hless (by simp [framesBytes, wordSize])

/-- Where a decoder has come to, and that it would have come there before other bytes. -/
theorem place_of_reaches {s : Scan State} (hreach : machine.Reaches s t) :
    ∃ n ≤ s.cursor.rest.length, t.cursor = s.cursor.ahead n
      ∧ ∀ rest, machine.Reaches (s.before (s.cursor.rest.take n ++ rest)) (t.before rest) :=
  Scanner.reaches_before (fun state c => (goes_step state c).imp fun _ _ => trivial) hreach

/-- All states of a run, where records are as long as what is taken of them. -/
theorem inside_of_reaches
    (hfits : (atFrames functions version order frames).state.layout.Fits order frames)
    (hreach : machine.Reaches (atFrames functions version order frames) t) :
    ∃ k, Inside (atFrames functions version order frames).state.layout order frames k t := by
  induction hreach with
  | start =>
    exact ⟨0, {
      le := Nat.zero_le _
      offset := rfl
      selection := rfl
      counting := fun hmode => absurd rfl hmode
      layout := rfl }⟩
  | step hreach hstep ih =>
    obtain ⟨k, hinside⟩ := ih
    obtain ⟨n, -, hcursor, -⟩ := place_of_reaches hreach
    exact hinside.step hfits hcursor hstep

/-- A decoder that comes to a record would come there if other records followed. -/
theorem reaches_others (hreach : machine.Reaches (atFrames functions version order frames) t)
    (hoffset : t.cursor.offset = frameStart frames k) (others : List Frame) :
    machine.Reaches (atFrames functions version order (frames.take k ++ others))
      (t.before (framesBytes order others)) := by
  obtain ⟨n, -, hcursor, hreaches⟩ := place_of_reaches hreach
  obtain ⟨rfl, -⟩ := rest_eq_of_offset hcursor hoffset
  have hfirst := hreaches (framesBytes order others)
  rwa [atFrames, take_framesBytes, ← framesBytes_append] at hfirst

end Inside

/-- A file that is made of frames is decoded from the first of them on. -/
theorem decode_framedFile (functions : List Func) (order : ByteOrder) {version : Nat}
    (hversion : version < wordRange) (stamp : Nat) (frames : List Frame) :
    decode functions (framedFile order version stamp frames)
      = { machine.run (atFrames functions version order frames) with
          log := .byteOrder .data order :: .version .data version
            :: (machine.run (atFrames functions version order frames)).log } := by
  have hopen := openFile_header .data { version, order, stamp } (framesBytes order frames)
  have hword : InWord version := ⟨Int.natCast_nonneg _, by exact_mod_cast hversion⟩
  have hread := @readVersion_takes wordSize { version, order, stamp } hword
    (framesBytes order frames)
  have hfile : framedFile order version stamp frames
      = UnitPlan.header { version, order, stamp } .data ++ framesBytes order frames := rfl
  rw [Writer.length_words] at hread
  rw [decode, hfile, hopen]
  dsimp only
  rw [hread]
  rfl

/-- Records stay inside their frames where none is declared shorter than what is taken of it.  In
any case, the tag behind a record is read where its frame ends, or behind the words that are taken
of the record, whichever is later.  So where all are long enough, every tag is read at the start of
a frame; what the decoder knows there depends on the records before it alone; and counters are read
inside the frame of their record. -/
theorem decode_framed (functions : List Func) (order : ByteOrder) {version : Nat}
    (hversion : version < wordRange) (stamp : Nat) (frames : List Frame) :
    decode functions (framedFile order version stamp frames)
        = { machine.run (atFrames functions version order frames) with
            log := .byteOrder .data order :: .version .data version
              :: (machine.run (atFrames functions version order frames)).log }
      ∧ ∀ t, machine.Reaches (atFrames functions version order frames) t →
        (∀ u, machine.step t = .next u → Follows t u)
        ∧ ((atFrames functions version order frames).state.layout.Fits order frames →
          match t.state.mode with
          | .between => ∃ k ≤ frames.length, t.cursor.offset = frameStart frames k
            ∧ ∀ others, machine.Reaches
                (atFrames functions version order (frames.take k ++ others))
                (t.before (framesBytes order others))
          | .inCounters _ _ further _ => ∃ k < frames.length,
            frameStart frames k + 2 * wordSize ≤ t.cursor.offset
              ∧ t.cursor.offset + (further.length + 1) * (2 * wordSize) ≤ frameStart frames (k + 1)
              ∧ nextTag t = frameStart frames (k + 1)) := by
  refine ⟨decode_framedFile functions order hversion stamp frames, fun t hreach =>
    ⟨fun u => follows_of_step, fun hfits => ?_⟩⟩
  obtain ⟨k, hinside⟩ := inside_of_reaches hfits hreach
  have hoffset := hinside.offset
  cases hmode : t.state.mode with
  | between =>
    rw [nextTag, hmode] at hoffset
    exact ⟨k, hinside.le, hoffset, reaches_others hreach hoffset⟩
  | inCounters position next further fin =>
    obtain ⟨j, rfl, hleast⟩ := hinside.counting (by simp [hmode])
    refine ⟨j, hinside.le, hleast, ?_, hoffset⟩
    rw [← hoffset, nextTag, hmode]
    exact Nat.le_max_right _ _

/-- A function of two blocks, with a counter on the arc between them. -/
def probeFunc : Func where
  ident := 1
  checksum := 0
  name := "probe"
  source := "probe.h"
  firstLine := 4
  graph := .ofArcs 2 [{ src := 0, dst := 1 }]

/-- The record of the function. -/
def probeFrame : Frame where
  tag := functionTag
  words := 3
  payload := Writer.words .little [1, 0, 0]
  tag_pos := by decide
  tag_lt := by decide
  words_lt := by decide
  length_payload := by decide

/-- The record of its counter. -/
def probeCounters : Frame where
  tag := countersTag
  words := 2
  payload := Writer.words .little [7, 0]
  tag_pos := by decide
  tag_lt := by decide
  words_lt := by decide
  length_payload := by decide

/-- A summary of no words. -/
def emptySummary : Frame where
  tag := objectSummaryTag
  words := 0
  payload := []
  tag_pos := by decide
  tag_lt := by decide
  words_lt := by decide
  length_payload := by decide

theorem probeFrames_decoded :
    ∃ t, machine.Reaches (atFrames [probeFunc] 0x4139312A .little [probeFrame, probeCounters]) t
      ∧ t.state.selection = .matched 0 ∧ t.cursor.offset = frameStart [probeFrame, probeCounters] 1
      ∧ ∀ others, machine.Reaches (atFrames [probeFunc] 0x4139312A .little (probeFrame :: others))
          (t.before (framesBytes .little others)) := by
  have hstep : machine.step (atFrames [probeFunc] 0x4139312A .little [probeFrame, probeCounters])
      = .next
        { cursor := { rest := probeCounters.bytes .little, offset := 32, order := .little }
          state :=
            { version := 0x4139312A, functions := [probeFunc], selection := .matched 0 } } := by
    rfl
  have hreach := Machine.Reaches.step .start hstep
  obtain ⟨-, hall⟩ := decode_framed [probeFunc] .little (by decide : 0x4139312A < wordRange) 0
    [probeFrame, probeCounters]
  obtain ⟨k, hk, hoffset, hothers⟩ := (hall _ hreach).2 (by decide)
  have hone : ∀ k ≤ 2, 32 = frameStart [probeFrame, probeCounters] k → k = 1 := by
    decide
  obtain rfl := hone k hk hoffset
  exact ⟨_, hreach, rfl, hoffset, hothers⟩

/-- A record that is declared too short is not kept apart from the next: the words of an empty
summary are taken from the record of the function behind it, in the middle of which the next tag is
read. -/
theorem emptySummary_misread :
    ¬ ∀ (functions : List Func) (version : Nat) (order : ByteOrder) (frames : List Frame)
        (t u : Scan State), version < wordRange →
      machine.Reaches (atFrames functions version order frames) t → t.state.mode = .between →
      machine.step t = .next u → ∃ k ≤ frames.length, t.cursor.offset = frameStart frames k := by
  intro hkept
  have hfirst : machine.step
      (atFrames [probeFunc] 0x4139312A .little [emptySummary, probeFrame, probeCounters])
      = .next
        { cursor :=
            { rest := Writer.words .little [1, 0, 0] ++ probeCounters.bytes .little
              offset := 28
              order := .little }
          state := { version := 0x4139312A, functions := [probeFunc] } } := by
    rfl
  have hsecond : machine.step
      { cursor :=
          { rest := Writer.words .little [1, 0, 0] ++ probeCounters.bytes .little
            offset := 28
            order := .little }
        state := { version := 0x4139312A, functions := [probeFunc] } }
      = .next
        { cursor :=
            { rest := Writer.words .little [0] ++ probeCounters.bytes .little
              offset := 36
              order := .little }
          state := { version := 0x4139312A, functions := [probeFunc] } } := by
    rfl
  obtain ⟨k, hk, hoffset⟩ := hkept _ _ _ _ _ _ (by decide) (.step .start hfirst) rfl hsecond
  have hnone : ∀ k ≤ 3, 28 ≠ frameStart [emptySummary, probeFrame, probeCounters] k := by
    decide
  exact hnone k hk hoffset

end Coverage.Counters
