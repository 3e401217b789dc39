import Coverage.Proofs.DecodedGraphs
import Coverage.Proofs.Insertions
import Coverage.Proofs.NotesRoundTrip
import Coverage.Proofs.Placeless

/-!
# What stands between the records of notes

Where the decoder of notes looks for a tag it passes over every word that is none.  What it knows
does not change there, and no step of it depends on where in the file it is made.  So words that are
no tags may be put in wherever a tag is looked for, and the file still means the same, however it
goes on and wherever it ends (`decode_insert_words`).
-/

namespace Coverage.Notes

open Scanner

/-! ## Words that are no tags -/

/-- The tags of notes files. -/
def tags : List Nat :=
  [functionTag, GraphRecord.blocks.tag, GraphRecord.arcs.tag, GraphRecord.lines.tag]

theorem ofWord?_eq_none_iff {word : Nat} : Tag.ofWord? word = none ↔ word ∉ tags := by
  by_cases hfunction : word = functionTag
  · simp [Tag.ofWord?, tags, hfunction]
  · simp [Tag.ofWord?, tags, hfunction]

section Words

variable {order : ByteOrder} {offset : Nat} {words : List Bytes}

/-- Between records, words that are no tags are passed over. -/
theorem carries_words {s : State} (hmode : s.mode = .between)
    (hwords : ∀ word ∈ words, word.length = wordSize ∧ order.toNat word ∉ tags) :
    machine.Carries order offset words.flatten s s := by
  induction words generalizing offset with
  | nil => exact .refl s
  | cons word words ih =>
    obtain ⟨hlength, htag⟩ := hwords word List.mem_cons_self
    exact (carries_passedOver hmode hlength (ofWord?_eq_none_iff.mpr htag)).trans
      (ih fun w hw => hwords w (List.mem_cons_of_mem word hw))

/-- With such words before it, the rest of a file has the outcome that it has without them. -/
theorem run_words {t : Scan State} (hmode : t.state.mode = .between)
    (hwords : ∀ word ∈ words, word.length = wordSize ∧ t.cursor.order.toNat word ∉ tags) :
    machine.run (t.before (words.flatten ++ t.cursor.rest)) = machine.run t := by
  have hpassed : machine.run (t.before (words.flatten ++ t.cursor.rest))
      = machine.run (t.shift words.flatten.length) :=
    carries_words hmode hwords t.cursor.rest
  exact hpassed.trans (run_shift step_placeless t _)

end Words

/-! ## Files -/

/-- `Visits registry bytes t`: decoding the file passes through `t`. -/
def Visits (registry : Registry) (bytes : Bytes) (t : Scan State) : Prop :=
  ∃ version cursor, records? .notes bytes = some (version, cursor)
    ∧ machine.Reaches { cursor, state := { version, registry } } t

section Files

variable {registry : Registry} {bytes bytes' : Bytes}

/-- All words of a file are read in the order that its magic shows. -/
theorem Visits.order {t : Scan State} (h : Visits registry bytes t) {c : Cursor}
    (hopen : openFile .notes bytes = .ok c) : t.cursor.order = c.order := by
  obtain ⟨version, cursor, hrecords, hreach⟩ := h
  obtain ⟨n, -, hcursor, -⟩ := reaches_before (fun s c => (step_placeless s).goes c) hreach
  rw [hcursor, ← records?_order hopen hrecords]
  rfl

/-- Files with the same header have the same outcome if their records have. -/
theorem decode_congr {version : Nat} {cursor cursor' : Cursor}
    (h : records? .notes bytes = some (version, cursor))
    (h' : records? .notes bytes' = some (version, cursor')) (horder : cursor'.order = cursor.order)
    (hrun : decodeRecords registry version cursor' = decodeRecords registry version cursor) :
    decode registry bytes' = decode registry bytes := by
  obtain ⟨c, hopen, hversion⟩ := exists_of_records? h
  obtain ⟨c', hopen', hversion'⟩ := exists_of_records? h'
  rw [readVersion_order hversion, readVersion_order hversion'] at horder
  simp only [decode, hopen, hopen', hversion, hversion', hrun, horder]

/-- Words that are no tags mean nothing between records.  Put into a notes file where the decoder
looks for a tag, or tries to at the end of the file, any number of them changes nothing about what
the file is decoded to: neither the functions and their graphs, nor the registry, nor the error, nor
what is logged. -/
theorem decode_insert_words (registry : Registry) (bytes : Bytes) {c : Cursor}
    (hopen : openFile .notes bytes = .ok c) {t : Scan State} (hvisits : Visits registry bytes t)
    (hmode : t.state.mode = .between) (words : List Bytes)
    (hwords : ∀ word ∈ words, word.length = wordSize ∧ c.order.toNat word ∉ tags) :
    decode registry (insertAt bytes t.cursor.offset words.flatten) = decode registry bytes := by
  rw [← hvisits.order hopen] at hwords
  obtain ⟨version, cursor, hrecords, hreach⟩ := hvisits
  obtain ⟨n, hcursor, hrun⟩ :=
    run_insertAt (fun s c => (step_placeless s).goes c) hreach (run_words hmode hwords)
  rw [hcursor]
  exact decode_congr hrecords (records?_insertAt hrecords n _) rfl hrun

end Files

/-- Words that are put before the last record of a file, which ends in that record. -/
theorem unevenNotes_with_words :
    (∃ c, openFile .notes unevenNotes = .ok c ∧ c.order = .little)
      ∧ (∃ t, Visits {} unevenNotes t ∧ t.state.mode = .between ∧ t.cursor.offset = 104)
      ∧ decode {} (insertAt unevenNotes 104 (Writer.words .little [7, 0, countersTag]))
        = decode {} unevenNotes := by
  let start : Scan State :=
    { cursor := { rest := unevenNotes.drop 12, offset := 12, order := .little }
      state := { version := 0x34303200, registry := {} } }
  have hopen : openFile .notes unevenNotes
      = .ok { rest := unevenNotes.drop 4, offset := 4, order := .little } := by
    decide +kernel
  have hrecords : records? .notes unevenNotes = some (0x34303200, start.cursor) := by
    decide +kernel
  have htrace : (machine.trace start).any
      (fun t => t.state.mode = .between ∧ t.cursor.offset = 104) = true := by
    decide +kernel
  obtain ⟨t, hreach, ht⟩ := List.any_eq_true.mp htrace
  obtain ⟨hmode, hoffset⟩ := of_decide_eq_true ht
  have hvisits : Visits {} unevenNotes t :=
    ⟨_, _, hrecords, machine.mem_trace.mp hreach⟩
  refine ⟨⟨_, hopen, rfl⟩, ⟨t, hvisits, hmode, hoffset⟩, ?_⟩
  rw [← hoffset]
  exact decode_insert_words {} unevenNotes hopen hvisits hmode
    ([7, 0, (countersTag : Int)].map (Writer.word .little)) (by decide)

end Coverage.Notes
