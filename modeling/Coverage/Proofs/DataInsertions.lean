import Coverage.Proofs.Acceptance
import Coverage.Proofs.DataTruncation
import Coverage.Proofs.Insertions
import Coverage.Proofs.Parallels
import Coverage.Proofs.Placeless

/-!
# What stands between the records of data

Between records the decoder of data passes over zero words, and over complete records with tags that
it does not know, whatever they hold.  It counts from the beginning of the file where a record ends,
so what follows is read at other offsets; but the ends of records move along with the records
(`shifted_parallel`).  So both may be put in wherever a tag is looked for, also between a function
and its counters, and the file still means the same (`decode_insert_records`).
-/

namespace Coverage

/-! ## Other offsets -/

/-- A place, and the same place counted from another beginning. -/
def Shifted (d : Nat) (c c' : Cursor) : Prop :=
  c' = c.shift d

/-- Actions that take as much at places that correspond. -/
theorem Read.Spans.parallel_shift {α β : Type} {action : Read α} {other : Read β}
    {size size' : Nat → Nat} {value : ByteOrder → Nat → Bytes → α}
    {value' : ByteOrder → Nat → Bytes → β} (h : action.Spans size value)
    (h' : other.Spans size' value') {d : Nat} {R : α → β → Prop}
    (hsize : ∀ offset, size' (offset + d) = size offset)
    (hvalue : ∀ order offset bytes, R (value order offset bytes) (value' order (offset + d) bytes)) :
    action.Parallel (Shifted d) R other := by
  rintro c _ rfl
  have hsame : size' (c.shift d).offset = size c.offset := hsize c.offset
  by_cases hle : size c.offset ≤ c.rest.length
  · have hle' : size' (c.shift d).offset ≤ (c.shift d).rest.length := hsame ▸ hle
    rw [h.run_of_le hle, h'.run_of_le hle', hsame]
    exact .ok (hvalue _ _ _) (c.shift_ahead d _).symm
  · have hlt := Nat.lt_of_not_le hle
    have hlt' : (c.shift d).rest.length < size' (c.shift d).offset := hsame ▸ hlt
    obtain ⟨e, c', he⟩ := h.run_of_lt hlt
    obtain ⟨e', c'', he'⟩ := h'.run_of_lt hlt'
    rw [he, he']
    exact .error

namespace Counters

open Scanner

/-- The ends of records move along with the records. -/
theorem shifted_parallel (d : Nat) : Parallel (Shifted d) fun fin fin' => fin' = fin + d where
  word := Cursor.word_spans.parallel_shift Cursor.word_spans (fun _ => rfl) fun _ _ _ => rfl
  counter :=
    Cursor.counter_spans.parallel_shift Cursor.counter_spans (fun _ => rfl) fun _ _ _ => rfl
  skipWords count := (Cursor.skipWords_spans count).parallel_shift (Cursor.skipWords_spans count)
    (fun _ => rfl) fun _ _ _ => trivial
  skipTo := by
    rintro fin _ rfl
    exact (Cursor.skipTo_spans fin).parallel_shift (Cursor.skipTo_spans (fin + d))
      (fun offset => Nat.add_sub_add_right fin d offset) fun _ _ _ => trivial
  readFrame := readFrame_spans.parallel_shift readFrame_spans (fun _ => rfl)
    fun _ _ _ => ⟨rfl, by dsimp only; omega⟩

/-- Between records a decoder has the same outcome at any offset. -/
theorem run_shift {t : Scan State} (hmode : t.state.mode = .between) (d : Nat) :
    machine.run (t.shift d) = machine.run t :=
  run_parallel (fun _ _ hst => step_parallel (shifted_parallel d) hst)
    ⟨rfl, .between t.state hmode⟩

/-! ## Records that mean nothing -/

/-- The tags of data files. -/
def tags : List Nat :=
  [functionTag, countersTag, objectSummaryTag, programSummaryTag]

theorem handle_of_unknown (s : State) {tag : Nat} (htag : tag ∉ tags) (length fin : Nat) :
    handle s tag length fin = s.leave fin := by
  simp only [tags, List.mem_cons, List.not_mem_nil, or_false, not_or] at htag
  obtain ⟨hfunction, hcounters, hobject, hprogram⟩ := htag
  rw [handle, if_neg hfunction, if_neg hcounters, if_neg hobject, if_neg hprogram]

section Items

variable {order : ByteOrder} {offset : Nat} {items : List (Option Frame)}

/-- A record of an unknown tag is left at its end. -/
theorem passes_unknown {s : State} (hmode : s.mode = .between) {f : Frame} (htag : f.tag ∉ tags) :
    (step s).Passes order offset (f.bytes order) s := by
  refine passes_frame hmode f.tag_pos f.tag_lt f.words_lt ?_
  rw [handle_of_unknown s htag, ← f.length_payload]
  have hleave : (s.leave (offset + 2 * wordSize + f.payload.length)).Passes order
      (offset + 2 * wordSize) f.payload { s with mode := .between } := passes_leave rfl
  rwa [← hmode] at hleave

/-- Zero words and records of unknown tags are passed over. -/
theorem carries_items {s : State} (hmode : s.mode = .between)
    (hitems : ∀ f, some f ∈ items → f.tag ∉ tags) :
    machine.Carries order offset (paddedBytes order items) s s := by
  induction items generalizing offset with
  | nil => exact .refl s
  | cons item items ih =>
    have hrest : ∀ f, some f ∈ items → f.tag ∉ tags := fun f hf =>
      hitems f (List.mem_cons_of_mem item hf)
    cases item with
    | none => exact (Machine.carries_of_passes (passes_padding hmode)).trans (ih hrest)
    | some f =>
      have htag := hitems f List.mem_cons_self
      exact (Machine.carries_of_passes (passes_unknown hmode htag)).trans (ih hrest)

/-- With such items before it, the rest of a file has the outcome that it has without them. -/
theorem run_items {t : Scan State} (hmode : t.state.mode = .between)
    (hitems : ∀ f, some f ∈ items → f.tag ∉ tags) :
    machine.run (t.before (paddedBytes t.cursor.order items ++ t.cursor.rest)) = machine.run t := by
  have hpassed : machine.run (t.before (paddedBytes t.cursor.order items ++ t.cursor.rest))
      = machine.run (t.shift (paddedBytes t.cursor.order items).length) :=
    carries_items hmode hitems t.cursor.rest
  exact hpassed.trans (run_shift hmode _)

end Items

/-! ## Files -/

section Files

variable {functions : List Func} {bytes bytes' : Bytes}

/-- All words of a file are read in the order that its magic shows. -/
theorem Visits.order {t : Scan State} (h : Visits functions bytes t) {c : Cursor}
    (hopen : openFile .data bytes = .ok c) : t.cursor.order = c.order := by
  obtain ⟨version, cursor, hrecords, hreach⟩ := h
  obtain ⟨n, -, hcursor, -⟩ :=
    reaches_before (fun s c => (goes_step s c).imp fun _ _ => trivial) hreach
  rw [hcursor, ← records?_order hopen hrecords]
  rfl

/-- Files with the same header have the same outcome if their records have. -/
theorem decode_congr {version : Nat} {cursor cursor' : Cursor}
    (h : records? .data bytes = some (version, cursor))
    (h' : records? .data bytes' = some (version, cursor')) (horder : cursor'.order = cursor.order)
    (hrun : decodeRecords functions version cursor' = decodeRecords functions version cursor) :
    decode functions bytes' = decode functions bytes := by
  obtain ⟨c, hopen, hversion⟩ := exists_of_records? h
  obtain ⟨c', hopen', hversion'⟩ := exists_of_records? h'
  rw [readVersion_order hversion, readVersion_order hversion'] at horder
  simp only [decode, hopen, hopen', hversion, hversion', hrun, horder]

/-- Zero words and complete records of unknown tags mean nothing between records.  Put into a data
file where the decoder looks for a tag, or tries to at the end of the file, any number of them
changes nothing about what the file is decoded to: neither the functions with their counts and with
what is pending in their graphs, nor the error, nor what is logged. -/
theorem decode_insert_records (functions : List Func) (bytes : Bytes) {c : Cursor}
    (hopen : openFile .data bytes = .ok c) {t : Scan State} (hvisits : Visits functions bytes t)
    (hmode : t.state.mode = .between) (items : List (Option Frame))
    (hitems : ∀ f, some f ∈ items → f.tag ∉ tags) :
    decode functions (insertAt bytes t.cursor.offset (paddedBytes c.order items))
      = decode functions bytes := by
  rw [← hvisits.order hopen]
  obtain ⟨version, cursor, hrecords, hreach⟩ := hvisits
  obtain ⟨n, hcursor, hrun⟩ := run_insertAt
    (fun s c => (goes_step s c).imp fun _ _ => trivial) hreach (run_items hmode hitems)
  have hoffset : t.cursor.offset = cursor.offset + n := by
    rw [hcursor]
    rfl
  rw [hoffset]
  exact decode_congr hrecords (records?_insertAt hrecords n _) rfl hrun

end Files

/-- A function is selected, and its counters are cut off in the middle of the third. -/
def cutData : Bytes :=
  Writer.words .little
    [FileKind.data.magic, 0x34303200, 0, functionTag, 2, 1, 2, countersTag, 6, 7, 0, 8, 0, 9]

/-- Zero words, and a record of which the words look like the head of a function. -/
def strayItems : List (Option Frame) :=
  [ none,
    some (.ofWords 0xAF000000 [functionTag, 2, 1, 3] (by decide) (by decide)),
    none,
    none ]

/-- They are put between the function and its counters. -/
theorem cutData_with_records :
    (∃ c, openFile .data cutData = .ok c ∧ c.order = .little)
      ∧ (∃ t, Visits [Notes.unevenFunc] cutData t ∧ t.state.mode = .between
        ∧ t.state.selection = .matched 0 ∧ t.cursor.offset = 28)
      ∧ (∀ f, some f ∈ strayItems → f.tag ∉ tags)
      ∧ decode [Notes.unevenFunc] (insertAt cutData 28 (paddedBytes .little strayItems))
        = decode [Notes.unevenFunc] cutData
      ∧ (decode [Notes.unevenFunc] cutData).state.map (·.graph.measuredArcs.map (·.count))
        = [[7, 8, 0]] := by
  let start : Scan State :=
    { cursor := { rest := cutData.drop 12, offset := 12, order := .little }
      state := { version := 0x34303200, functions := [Notes.unevenFunc] } }
  have hopen : openFile .data cutData
      = .ok { rest := cutData.drop 4, offset := 4, order := .little } := by
    decide +kernel
  have hrecords : records? .data cutData = some (0x34303200, start.cursor) := by
    decide +kernel
  have htrace : (machine.trace start).any (fun t => t.state.mode = .between
      ∧ t.state.selection = .matched 0 ∧ t.cursor.offset = 28) = true := by
    decide +kernel
  have hitems : ∀ f, some f ∈ strayItems → f.tag ∉ tags := by
    have hall : strayItems.reduceOption.all (·.tag ∉ tags) = true := by decide
    intro f hf
    exact of_decide_eq_true (List.all_eq_true.mp hall f (List.reduceOption_mem_iff.mpr hf))
  obtain ⟨t, hreach, ht⟩ := List.any_eq_true.mp htrace
  obtain ⟨hmode, hselection, hoffset⟩ := of_decide_eq_true ht
  have hvisits : Visits [Notes.unevenFunc] cutData t :=
    ⟨_, _, hrecords, machine.mem_trace.mp hreach⟩
  refine ⟨⟨_, hopen, rfl⟩, ⟨t, hvisits, hmode, hselection, hoffset⟩, hitems, ?_,
    by decide +kernel⟩
  rw [← hoffset]
  exact decode_insert_records [Notes.unevenFunc] cutData hopen hvisits hmode strayItems hitems

end Counters

end Coverage
