import Coverage.Proofs.FrameReading
import Mathlib.Data.List.ReduceOption

/-!
# Which records are accepted

A data file whose records are complete, and no shorter than what is taken of them, is decoded record
by record.  Behind records that were accepted the decoder knows which function is selected and has
credited what was to be credited, and nothing else (`Behind`).  Every record either keeps it so
(`Behind.accepts`) or has an `offence?`, and is refused (`Behind.refuses`).  Zero words in between
make no difference.

* `decode_frames` — which records of a file are accepted, and which counters go where.
-/

namespace Coverage.Counters

open FlowGraph

/-! ## Offences -/

/-- The error that a record leads to behind other records, if it cannot be accepted: the checksum is
not that of the first function with the ident, or there is no function that the counters could be
for, or it has no blocks. -/
def offence? (functions : List Func) (order : ByteOrder) (before : List Frame) (f : Frame) :
    Option CoverageError :=
  if f.tag = functionTag then
    (findFunction? functions (f.ident order)).bind fun (_, func) =>
      if f.word order 1 = func.checksum then none
      else some (.checksumMismatch func.name func.checksum (f.word order 1))
  else if f.tag = countersTag then
    match selector? before with
    | none => some .countersBeforeFunction
    | some _ => (selected? functions order before).bind fun (_, func) =>
      if func.graph.size = 0 then some (.countersWithoutBlocks func.name) else none
  else none

section Offences

variable {functions : List Func} {order : ByteOrder} {before : List Frame} {f : Frame}

theorem offence?_of_found {p : Nat} {func : Func} (htag : f.tag = functionTag)
    (hfound : findFunction? functions (f.ident order) = some (p, func)) :
    offence? functions order before f = if f.word order 1 = func.checksum then none
      else some (.checksumMismatch func.name func.checksum (f.word order 1)) := by
  rw [offence?, if_pos htag, hfound]
  rfl

theorem offence?_of_not_found (htag : f.tag = functionTag)
    (hfound : findFunction? functions (f.ident order) = none) :
    offence? functions order before f = none := by
  rw [offence?, if_pos htag, hfound]
  rfl

theorem tag_ne_functionTag (htag : f.tag = countersTag) : f.tag ≠ functionTag := by
  rw [htag]
  decide

theorem offence?_of_selector?_eq_none (htag : f.tag = countersTag)
    (hselector : selector? before = none) :
    offence? functions order before f = some .countersBeforeFunction := by
  rw [offence?, if_neg (tag_ne_functionTag htag), if_pos htag, hselector]

theorem offence?_of_selected {p : Nat} {func : Func} (htag : f.tag = countersTag)
    (hselected : selected? functions order before = some (p, func)) :
    offence? functions order before f
      = if func.graph.size = 0 then some (.countersWithoutBlocks func.name) else none := by
  obtain ⟨g, hselector, -⟩ := Option.bind_eq_some_iff.mp hselected
  rw [offence?, if_neg (tag_ne_functionTag htag), if_pos htag, hselector, hselected]
  rfl

theorem offence?_of_unmatched (htag : f.tag = countersTag) {g : Frame}
    (hselector : selector? before = some g) (hselected : selected? functions order before = none) :
    offence? functions order before f = none := by
  rw [offence?, if_neg (tag_ne_functionTag htag), if_pos htag, hselector, hselected]
  rfl

theorem offence?_of_other (hfunction : f.tag ≠ functionTag) (hcounters : f.tag ≠ countersTag) :
    offence? functions order before f = none := by
  rw [offence?, if_neg hfunction, if_neg hcounters]

/-- A function is refused for its checksum, and counters as records out of place. -/
theorem kind_of_offence? {error : CoverageError}
    (h : offence? functions order before f = some error) :
    (f.tag = functionTag ∧ error.kind = .checksumMismatch)
      ∨ (f.tag = countersTag ∧ error.kind = .parsing) := by
  by_cases hfunction : f.tag = functionTag
  · refine .inl ⟨hfunction, ?_⟩
    cases hfound : findFunction? functions (f.ident order) with
    | none =>
      rw [offence?_of_not_found hfunction hfound] at h
      cases h
    | some found =>
      rw [offence?_of_found hfunction hfound] at h
      split at h <;> cases h
      rfl
  · by_cases hcounters : f.tag = countersTag
    · refine .inr ⟨hcounters, ?_⟩
      cases hselector : selector? before with
      | none =>
        rw [offence?_of_selector?_eq_none hcounters hselector] at h
        cases h
        rfl
      | some g =>
        cases hselected : selected? functions order before with
        | none =>
          rw [offence?_of_unmatched hcounters hselector hselected] at h
          cases h
        | some found =>
          rw [offence?_of_selected hcounters hselected] at h
          split at h <;> cases h
          rfl
    · rw [offence?_of_other hfunction hcounters] at h
      cases h

end Offences

/-- The error that one of some records leads to. -/
def offenceAt (functions : List Func) (order : ByteOrder) (frames : List Frame) (k : Nat) :
    Option CoverageError :=
  frames[k]?.bind (offence? functions order (frames.take k))

/-! ## Records behind records -/

/-- What the decoder knows behind some records that it has accepted. -/
structure Behind (functions : List Func) (version : Nat) (order : ByteOrder) (before : List Frame)
    (s : State) : Prop where
  mode : s.mode = .between
  version : s.version = version
  selection : s.selection = selectionAfter functions order before
  accounts : Accounts functions (credits functions order before) s

/-- A record is not shorter than what is taken of it behind some records. -/
def Frame.Suffices (functions : List Func) (version : Nat) (order : ByteOrder)
    (before : List Frame) (f : Frame) : Prop :=
  ({ version, functions } : State).layout.words (selectionAfter functions order before) f.tag
    f.words (f.ident order) ≤ f.words

/-- From the start of a record, the decoder comes to the place behind it. -/
def GetsBehind (functions : List Func) (version : Nat) (before : List Frame) (f : Frame)
    (s : State) (c : Cursor) : Prop :=
  ∃ t, machine.Reaches { cursor := c, state := s } t ∧ t.cursor = c.ahead f.size
    ∧ Behind functions version c.order (before ++ [f]) t.state

section Behind

variable {functions : List Func} {version : Nat} {order : ByteOrder} {before : List Frame}
  {f : Frame} {s : State} {c : Cursor} {rest : Bytes}

/-- The record of a function has an ident, and a known one has checksums. -/
theorem Frame.Suffices.of_function (h : f.Suffices functions version order before)
    (htag : f.tag = functionTag) :
    (if (Counters.findFunction? functions (f.ident order)).isSome
      then Version.graphChecksumWords version + 2 else 1) ≤ f.words := by
  rw [Suffices, Layout.words, if_pos htag, find?_layout, Option.isSome_map] at h
  exact h

/-- Counters are there for all measured arcs of the selected function. -/
theorem Frame.Suffices.of_counters (h : f.Suffices functions version order before)
    (htag : f.tag = countersTag) {p : Nat} {func : Func}
    (hselected : selected? functions order before = some (p, func)) :
    (measuredIds func.graph).length * 2 ≤ f.words := by
  obtain ⟨g, -, hfound⟩ := Option.bind_eq_some_iff.mp hselected
  obtain ⟨hfunc, -⟩ := of_findFunction? hfound
  rw [Suffices, Layout.words, if_neg (tag_ne_functionTag htag), if_pos htag,
    selectionAfter_eq_matched hselected, Layout.counters, State.layout, List.getElem?_map,
    hfunc] at h
  exact h

theorem credits_concat (functions : List Func) (order : ByteOrder) (before : List Frame)
    (f : Frame) : credits functions order (before ++ [f])
      = credits functions order before ++ if f.tag = countersTag then
          (selected? functions order before).elim [] fun found =>
            readingsOf order found.1 (measuredIds found.2.graph) f
        else [] :=
  gather_concat _ before f

/-- Functions are found as before, with what was credited to them. -/
theorem Behind.findFunction? (h : Behind functions version order before s) (ident : Nat) :
    Counters.findFunction? s.functions ident
      = (Counters.findFunction? functions ident).map fun found => (found.1, found.2.mapGraph
          (receive · (readingsFor (credits functions order before) found.1))) := by
  rw [h.accounts.recorded.eq, findFunction?_foldl_apply]

/-- The function that counters are for, with what was credited to it. -/
theorem Behind.selected (h : Behind functions version order before s) {p : Nat} {func : Func}
    (hselected : selected? functions order before = some (p, func)) :
    s.selection = .matched p ∧ s.functions[p]? = some (func.mapGraph
      (receive · (readingsFor (credits functions order before) p))) := by
  obtain ⟨g, -, hfound⟩ := Option.bind_eq_some_iff.mp hselected
  obtain ⟨hfunc, -⟩ := of_findFunction? hfound
  refine ⟨h.selection.trans (selectionAfter_eq_matched hselected), ?_⟩
  rw [h.accounts.recorded.eq, getElem?_foldl_apply, hfunc, Option.map_some]

/-- A record that is read in one step. -/
theorem Behind.next (h : Behind functions version c.order before s)
    (hlinked : ∀ func ∈ functions, func.graph.Linked) {selection : Selection} {log : List LogEvent}
    (hstep : step s c = .next
      { cursor := c.ahead f.size, state := { s with selection, mode := .between, log } })
    (hselection : selection = selectionAfter functions c.order (before ++ [f]))
    (hcredits : credits functions c.order (before ++ [f]) = credits functions c.order before) :
    GetsBehind functions version before f s c := by
  refine ⟨_, .step .start hstep, rfl, rfl, h.version, hselection, ?_⟩
  have hnone : reading? { cursor := c, state := s } = none := by
    rw [reading?, h.mode]
  have haccounts := (Accounts.step (t := { cursor := c, state := s }) h.accounts hlinked).1 _ hstep
  rwa [hnone, Option.toList_none, List.append_nil, ← hcredits] at haccounts

/-- The record of a function that the notes do not have, or of one with the right checksum. -/
theorem Behind.accepts_function (h : Behind functions version c.order before s)
    (hlinked : ∀ func ∈ functions, func.graph.Linked) (htag : f.tag = functionTag)
    (hfits : f.Suffices functions version c.order before)
    (hnone : offence? functions c.order before f = none)
    (hrest : c.rest = f.bytes c.order ++ rest) :
    GetsBehind functions version before f s c := by
  obtain ⟨hroom, hfin, hend⟩ := frame_room hrest
  have hstep : step s c = readFunction s (c.offset + f.size) (c.ahead (2 * wordSize)) := by
    rw [step_frame h.mode hrest, handle, if_pos htag]
  have hcredits : credits functions c.order (before ++ [f]) = credits functions c.order before := by
    rw [credits_concat, if_neg (by rw [htag]; decide), List.append_nil]
  have hwords := hfits.of_function htag
  have hselection := selectionAfter_concat functions c.order before f
  rw [if_pos htag] at hselection
  have hfunctions := h.findFunction? (f.ident c.order)
  cases hfound : Counters.findFunction? functions (f.ident c.order) with
  | none =>
    rw [hfound] at hwords hfunctions hselection
    have hpos : 0 < f.words := hwords
    rw [f.ident_eq, ← peek_word hrest hpos] at hfunctions
    obtain ⟨log, hread⟩ := readFunction_of_unmatched hfunctions
      (by simpa using hroom 1 hpos) hfin
    rw [hend] at hread
    exact h.next hlinked (hstep.trans hread) hselection.symm hcredits
  | some found =>
    obtain ⟨p, func⟩ := found
    rw [hfound] at hwords hfunctions hselection
    replace hwords : Version.graphChecksumWords version + 2 ≤ f.words := hwords
    have hchecksum : f.word c.order 1 = func.checksum := by
      by_contra hne
      rw [offence?_of_found htag hfound, if_neg hne] at hnone
      cases hnone
    rw [f.ident_eq, ← peek_word hrest (by omega)] at hfunctions
    rw [← peek_word hrest (by omega)] at hchecksum
    have hread := readFunction_of_checksum hfunctions hchecksum (by
      rw [h.version]
      exact hroom _ hwords) hfin
    rw [hend] at hread
    exact h.next hlinked (hstep.trans hread) hselection.symm hcredits

/-- A record of counters for a function, or for one that the notes do not have. -/
theorem Behind.accepts_counters (h : Behind functions version c.order before s)
    (hlinked : ∀ func ∈ functions, func.graph.Linked) (htag : f.tag = countersTag)
    (hfits : f.Suffices functions version c.order before)
    (hnone : offence? functions c.order before f = none)
    (hrest : c.rest = f.bytes c.order ++ rest) :
    GetsBehind functions version before f s c := by
  obtain ⟨hroom, hfin, hend⟩ := frame_room hrest
  have hstep : step s c = beginCounters s (c.offset + f.size) (c.ahead (2 * wordSize)) := by
    rw [step_frame h.mode hrest, handle, if_neg (tag_ne_functionTag htag), if_pos htag]
  have hselection := selectionAfter_concat functions c.order before f
  rw [if_neg (tag_ne_functionTag htag), if_pos htag] at hselection
  have hcredits := credits_concat functions c.order before f
  rw [if_pos htag] at hcredits
  cases hselected : selected? functions c.order before with
  | none =>
    cases hselector : selector? before with
    | none =>
      rw [offence?_of_selector?_eq_none htag hselector] at hnone
      cases hnone
    | some g =>
      have hunmatched := h.selection.trans (selectionAfter_eq_unmatched hselector hselected)
      have hbegin : beginCounters s (c.offset + f.size)
          = ((s.select .none).logging .skippedCounters).leave (c.offset + f.size) := by
        rw [beginCounters, hunmatched]
      rw [hbegin, leave_frame hrest] at hstep
      rw [hselected, Option.elim_none, List.append_nil] at hcredits
      exact h.next hlinked hstep hselection.symm hcredits
  | some found =>
    obtain ⟨p, func⟩ := found
    have hsize : func.graph.size ≠ 0 := by
      intro hzero
      rw [offence?_of_selected htag hselected, if_pos hzero] at hnone
      cases hnone
    obtain ⟨hmatched, hcounted⟩ := h.selected hselected
    obtain ⟨g, -, hfound⟩ := Option.bind_eq_some_iff.mp hselected
    obtain ⟨-, hident, -⟩ := of_findFunction? hfound
    rw [← hident] at hfound
    have hlength := hfits.of_counters htag hselected
    have hbegin : beginCounters s (c.offset + f.size)
        = resume s p (measuredExits func.graph) (c.offset + f.size) := by
      rw [beginCounters, hmatched]
      simp only [hcounted, Func.mapGraph, receive_size, measuredExits_receive, if_neg hsize]
    have hle := hroom _ hlength
    rw [Nat.mul_assoc, ← length_measuredExits] at hle
    obtain ⟨u, t, hresume, hreach, hcursor, hmode, hversion, hnext, haccounts⟩ :=
      resume_reaches hlinked ⟨func, hfound, fun _ => id⟩ h.accounts hle hfin
    rw [← hbegin] at hresume
    refine ⟨t, hreach.of_next _ (hstep.trans hresume), hcursor.trans hend, hmode,
      hversion.trans h.version, hnext.trans hselection.symm, ?_⟩
    rw [hcredits, hselected, Option.elim_some, readingsOf_eq hrest p hlength]
    rwa [map_id_measuredExits] at haccounts

/-- A summary, or a record with another tag. -/
theorem Behind.accepts_other (h : Behind functions version c.order before s)
    (hlinked : ∀ func ∈ functions, func.graph.Linked) (hfunction : f.tag ≠ functionTag)
    (hcounters : f.tag ≠ countersTag)
    (hfits : f.Suffices functions version c.order before)
    (hrest : c.rest = f.bytes c.order ++ rest) :
    GetsBehind functions version before f s c := by
  have hstep := step_frame h.mode hrest
  rw [handle, if_neg hfunction, if_neg hcounters] at hstep
  rw [Frame.Suffices, Layout.words, if_neg hfunction, if_neg hcounters] at hfits
  have hselection := selectionAfter_concat functions c.order before f
  rw [if_neg hfunction, if_neg hcounters, ← h.selection] at hselection
  have hcredits := credits_concat functions c.order before f
  rw [if_neg hcounters, List.append_nil] at hcredits
  suffices hleft : step s c = .next
      { cursor := c.ahead f.size, state := { s with mode := .between } } from
    h.next hlinked hleft hselection.symm hcredits
  rw [hstep]
  split at hfits
  · next hobject =>
    have hwords : objectSummaryWords s.version ≤ f.words := h.version ▸ hfits
    rw [if_pos hobject]
    exact skipWords_frame hrest s (Int.toNat_natCast _) hwords
  · next hobject =>
    rw [if_neg hobject]
    split at hfits
    · next hprogram =>
      rw [if_pos hprogram]
      exact skipWords_frame hrest s (by omega) hfits
    · next hprogram =>
      rw [if_neg hprogram]
      exact leave_frame hrest s

/-- A record that is accepted leads to the place behind it. -/
theorem Behind.accepts (h : Behind functions version c.order before s)
    (hlinked : ∀ func ∈ functions, func.graph.Linked)
    (hfits : f.Suffices functions version c.order before)
    (hnone : offence? functions c.order before f = none)
    (hrest : c.rest = f.bytes c.order ++ rest) :
    GetsBehind functions version before f s c := by
  by_cases hfunction : f.tag = functionTag
  · exact h.accepts_function hlinked hfunction hfits hnone hrest
  · by_cases hcounters : f.tag = countersTag
    · exact h.accepts_counters hlinked hcounters hfits hnone hrest
    · exact h.accepts_other hlinked hfunction hcounters hfits hrest

/-- The record of a function with another checksum is refused. -/
theorem Behind.refuses_function (h : Behind functions version c.order before s)
    (htag : f.tag = functionTag)
    (hfits : f.Suffices functions version c.order before)
    {error : CoverageError} (herror : offence? functions c.order before f = some error)
    (hrest : c.rest = f.bytes c.order ++ rest) :
    step s c = .stop { state := s.functions, result := .error error, log := s.log } := by
  obtain ⟨hroom, hfin, -⟩ := frame_room hrest
  have hstep := step_frame h.mode hrest
  rw [handle, if_pos htag] at hstep
  have hwords := hfits.of_function htag
  have hfunctions := h.findFunction? (f.ident c.order)
  cases hfound : Counters.findFunction? functions (f.ident c.order) with
  | none =>
    rw [offence?_of_not_found htag hfound] at herror
    cases herror
  | some found =>
    obtain ⟨p, func⟩ := found
    rw [hfound] at hwords hfunctions
    replace hwords : Version.graphChecksumWords version + 2 ≤ f.words := hwords
    have htwo := hroom 2 (by omega)
    rw [offence?_of_found htag hfound] at herror
    split at herror
    · cases herror
    · next hchecksum =>
      cases herror
      rw [← peek_word hrest (by omega)] at hchecksum ⊢
      rw [f.ident_eq, ← peek_word hrest (by omega)] at hfunctions
      have hread : readFunction s (c.offset + f.size) (c.ahead (2 * wordSize)) = _ :=
        readFunction_of_mismatch hfunctions hchecksum (by omega)
      exact hstep.trans hread

/-- Counters are refused if no function was selected, or one without blocks. -/
theorem Behind.refuses_counters (h : Behind functions version c.order before s)
    (htag : f.tag = countersTag) {error : CoverageError}
    (herror : offence? functions c.order before f = some error)
    (hrest : c.rest = f.bytes c.order ++ rest) :
    step s c = .stop { state := s.functions, result := .error error, log := s.log } := by
  have hstep := step_frame h.mode hrest
  rw [handle, if_neg (tag_ne_functionTag htag), if_pos htag] at hstep
  cases hselector : selector? before with
  | none =>
    rw [offence?_of_selector?_eq_none htag hselector] at herror
    cases herror
    have hselection : s.selection = .none := by
      rw [h.selection, selectionAfter, hselector, Option.elim_none]
    rw [hstep, beginCounters, hselection]
    rfl
  | some g =>
    cases hselected : selected? functions c.order before with
    | none =>
      rw [offence?_of_unmatched htag hselector hselected] at herror
      cases herror
    | some found =>
      obtain ⟨p, func⟩ := found
      obtain ⟨hselection, hfunc⟩ := h.selected hselected
      rw [offence?_of_selected htag hselected] at herror
      split at herror
      · next hzero =>
        cases herror
        rw [hstep, beginCounters, hselection]
        simp only [hfunc, Func.mapGraph, receive_size, if_pos hzero]
        rfl
      · cases herror

/-- A record that cannot be accepted ends the decoding, and nothing of it is credited. -/
theorem Behind.refuses (h : Behind functions version c.order before s)
    (hfits : f.Suffices functions version c.order before)
    {error : CoverageError} (herror : offence? functions c.order before f = some error)
    (hrest : c.rest = f.bytes c.order ++ rest) :
    step s c = .stop { state := s.functions, result := .error error, log := s.log } := by
  by_cases hfunction : f.tag = functionTag
  · exact h.refuses_function hfunction hfits herror hrest
  · by_cases hcounters : f.tag = countersTag
    · exact h.refuses_counters hcounters herror hrest
    · rw [offence?_of_other hfunction hcounters] at herror
      cases herror

end Behind

/-! ## Files -/

/-- Records, and zero words between them. -/
def paddedBytes (order : ByteOrder) (items : List (Option Frame)) : Bytes :=
  items.flatMap fun item => item.elim (Writer.word order 0) (·.bytes order)

/-- A data file: the magic word, the version, the stamp, and records with zero words between them.
-/
def paddedFile (order : ByteOrder) (version stamp : Nat) (items : List (Option Frame)) : Bytes :=
  Writer.words order [FileKind.data.magic, version, stamp] ++ paddedBytes order items

section Files

variable {functions : List Func} {version : Nat} {order : ByteOrder} {frames : List Frame}
  {items : List (Option Frame)}

theorem paddedBytes_concat (order : ByteOrder) (items : List (Option Frame))
    (item : Option Frame) : paddedBytes order (items ++ [item])
      = paddedBytes order items ++ item.elim (Writer.word order 0) (·.bytes order) := by
  rw [paddedBytes, List.flatMap_append, List.flatMap_singleton, ← paddedBytes]

theorem paddedBytes_append_cons (order : ByteOrder) (done todo : List (Option Frame)) (f : Frame) :
    paddedBytes order (done ++ some f :: todo)
      = paddedBytes order done ++ (f.bytes order ++ paddedBytes order todo) := by
  rw [paddedBytes, List.flatMap_append, List.flatMap_cons]
  rfl

/-- Records that are long enough are so without those that follow. -/
theorem Layout.Fits.of_append {layout : Layout} {more : List Frame}
    (h : layout.Fits order (frames ++ more)) : layout.Fits order frames := by
  intro k hk f hf
  have hfits := h k (by rw [List.length_append]; omega) f (by rwa [List.getElem?_append_left hk])
  rwa [Layout.selectionAt, List.take_append_of_le_length (Nat.le_of_lt hk)] at hfits

theorem Layout.Fits.last {f : Frame}
    (h : ({ version, functions } : State).layout.Fits order (frames ++ [f])) :
    f.Suffices functions version order frames := by
  have hfits := h frames.length (by simp) f (by simp)
  rwa [selectionAt_eq, List.take_left' rfl] at hfits

theorem offenceAt_append {k : Nat} (hk : k < frames.length) (more : List Frame) :
    offenceAt functions order (frames ++ more) k = offenceAt functions order frames k := by
  rw [offenceAt, offenceAt, List.getElem?_append_left hk,
    List.take_append_of_le_length (Nat.le_of_lt hk)]

/-- Records that can be accepted can be accepted without those that follow. -/
theorem offenceAt_eq_none {more : List Frame}
    (h : ∀ j < frames.length, offenceAt functions order (frames ++ more) j = none) (k : Nat) :
    offenceAt functions order frames k = none := by
  by_cases hk : k < frames.length
  · rw [← offenceAt_append hk more]
    exact h k hk
  · rw [offenceAt, List.getElem?_eq_none (Nat.le_of_not_lt hk), Option.bind_none]

theorem offenceAt_length (f : Frame) (more : List Frame) :
    offenceAt functions order (frames ++ f :: more) frames.length
      = offence? functions order frames f := by
  rw [offenceAt, List.take_left' rfl, List.getElem?_append_right (Nat.le_refl _), Nat.sub_self]
  rfl

/-- Zero words between records are passed over. -/
theorem step_padding {s : State} {c : Cursor} {rest : Bytes} (hmode : s.mode = .between)
    (hrest : c.rest = Writer.word c.order 0 ++ rest) :
    step s c = .next { cursor := c.ahead wordSize, state := s } := by
  obtain ⟨bytes, offset, order⟩ := c
  obtain rfl : bytes = Writer.word order 0 ++ rest := hrest
  rw [passes_padding hmode rest, Cursor.ahead, Writer.length_word,
    List.drop_left' (Writer.length_word _ _)]

theorem behind_nil (functions : List Func) (version : Nat) (order : ByteOrder) :
    Behind functions version order [] { version, functions } where
  mode := rfl
  version := rfl
  selection := rfl
  accounts :=
    { recorded := ⟨rfl, by simp [credits, gather]⟩
      selected := by rintro p ⟨⟩
      counting := by rintro p next further fin ⟨⟩ }

/-- Records that can all be accepted lead to the place behind them. -/
theorem reaches_items (hlinked : ∀ func ∈ functions, func.graph.Linked) (offset : Nat)
    (hfits : ({ version, functions } : State).layout.Fits order items.reduceOption)
    (hnone : ∀ k, offenceAt functions order items.reduceOption k = none) (rest : Bytes) :
    ∃ t : Scan State, machine.Reaches
        { cursor := { rest := paddedBytes order items ++ rest, offset, order }
          state := { version, functions } } t
      ∧ t.cursor.rest = rest ∧ t.cursor.order = order
      ∧ Behind functions version order items.reduceOption t.state := by
  induction items using List.reverseRecOn generalizing rest with
  | nil => exact ⟨_, .start, rfl, rfl, behind_nil functions version order⟩
  | append_singleton items item ih =>
    rw [List.reduceOption_append] at hfits hnone ⊢
    obtain ⟨t, hreach, hrest, horder, hbehind⟩ := ih hfits.of_append
      (offenceAt_eq_none fun j _ => hnone j)
      (item.elim (Writer.word order 0) (·.bytes order) ++ rest)
    rw [paddedBytes_concat, List.append_assoc]
    subst horder
    cases item with
    | none =>
      have hpadding := step_padding hbehind.mode hrest
      have hleft : (t.cursor.ahead wordSize).rest = rest := by
        rw [Cursor.ahead_rest, hrest]
        exact List.drop_left' (Writer.length_word _ _)
      refine ⟨_, hreach.step hpadding, hleft, rfl, ?_⟩
      rw [List.reduceOption_singleton, Option.toList_none, List.append_nil]
      exact hbehind
    | some f =>
      rw [List.reduceOption_singleton, Option.toList_some] at hfits hnone ⊢
      have hlast := hnone items.reduceOption.length
      rw [offenceAt_length] at hlast
      obtain ⟨u, hreach', hcursor, hbehind'⟩ := hbehind.accepts hlinked hfits.last hlast hrest
      refine ⟨u, hreach.trans machine hreach', ?_, by rw [hcursor]; rfl, hbehind'⟩
      rw [hcursor, Cursor.ahead_rest, hrest]
      exact List.drop_left' (f.length_bytes _)

/-- A record of a file stands behind the records before it. -/
theorem exists_item {items : List (Option Frame)} {k : Nat} {f : Frame}
    (hf : items.reduceOption[k]? = some f) :
    ∃ done todo, items = done ++ some f :: todo
      ∧ done.reduceOption = items.reduceOption.take k := by
  induction items generalizing k with
  | nil => simp at hf
  | cons item items ih =>
    cases item with
    | none =>
      obtain ⟨done, todo, rfl, hdone⟩ := ih hf
      exact ⟨none :: done, todo, rfl, hdone⟩
    | some g =>
      cases k with
      | zero =>
        cases hf
        exact ⟨[], items, rfl, rfl⟩
      | succ k =>
        obtain ⟨done, todo, rfl, hdone⟩ := ih hf
        exact ⟨some g :: done, todo, rfl, congrArg (g :: ·) hdone⟩

/-- A file is decoded from its first word behind the header on. -/
theorem decode_paddedFile (functions : List Func) (order : ByteOrder) {version : Nat}
    (hversion : version < wordRange) (stamp : Nat) (items : List (Option Frame)) :
    ∃ offset log, decode functions (paddedFile order version stamp items)
      = { machine.run
            { cursor := { rest := paddedBytes order items, offset, order }
              state := { version, functions } } with log } := by
  have hword : InWord version := ⟨Int.natCast_nonneg _, by exact_mod_cast hversion⟩
  have hrecords : records? .data (paddedFile order version stamp items) = some (version, _) :=
    @records?_header .data { version, order, stamp } hword (paddedBytes order items)
  obtain ⟨log, hdecode⟩ := decode_of_records functions hrecords
  exact ⟨_, log, hdecode⟩

/-- Which records of a data file are accepted, and which counters go where.  The file is a header,
and behind it records and zero words in any order; no record is shorter than what is taken of it,
which is at most the ident and the checksums of a function, a counter for every measured arc of the
selected function, and the words of a summary.  The first record with an offence ends the decoding
with the error that goes with it, and what the records before it credit stays credited.  Without
offences the decoding succeeds, and everything is credited: the measured arcs of a function, in the
order of its arcs, hold the leading counters of the last record of counters for it. -/
theorem decode_frames (registry : Registry) (notes : Bytes) (functions : List Func)
    (hnotes : (Notes.decode registry notes).result = .ok functions) (order : ByteOrder)
    (version stamp : Nat) (hversion : version < wordRange) (items : List (Option Frame))
    (hfits : ({ version, functions } : State).layout.Fits order items.reduceOption) :
    (∀ (k : Nat) (error : CoverageError),
        offenceAt functions order items.reduceOption k = some error →
        (∀ j < k, offenceAt functions order items.reduceOption j = none) →
        (decode functions (paddedFile order version stamp items)).result = .error error
          ∧ (∃ f, items.reduceOption[k]? = some f
            ∧ ((f.tag = functionTag ∧ error.kind = .checksumMismatch)
              ∨ (f.tag = countersTag ∧ error.kind = .parsing)))
          ∧ Credited functions order (items.reduceOption.take k)
            (decode functions (paddedFile order version stamp items)).state)
      ∧ ((∀ k, offenceAt functions order items.reduceOption k = none) →
        (decode functions (paddedFile order version stamp items)).result = .ok ()
          ∧ Credited functions order items.reduceOption
            (decode functions (paddedFile order version stamp items)).state) := by
  have hlinked : ∀ func ∈ functions, func.graph.Linked := fun func hfunc =>
    (Notes.decode_intact registry notes functions hnotes func hfunc).linked
  obtain ⟨offset, log, hdecode⟩ := decode_paddedFile functions order hversion stamp items
  rw [hdecode]
  refine ⟨fun k error herror hfirst => ?_, fun hnone => ?_⟩
  · obtain ⟨f, hf, hoffence⟩ := Option.bind_eq_some_iff.mp herror
    obtain ⟨done, todo, rfl, hdone⟩ := exists_item hf
    have hlength : done.reduceOption.length = k := by
      rw [hdone, List.length_take_of_le (Nat.le_of_lt (List.getElem?_eq_some_iff.mp hf).1)]
    rw [← hdone] at hoffence ⊢
    rw [List.reduceOption_append, List.reduceOption_cons_of_some] at hfits hfirst
    have haccepted : ∀ j, offenceAt functions order done.reduceOption j = none :=
      offenceAt_eq_none fun j hj => hfirst j (hlength ▸ hj)
    rw [List.append_cons] at hfits
    obtain ⟨t, hreach, hrest, rfl, hbehind⟩ := reaches_items hlinked offset
      hfits.of_append.of_append haccepted (f.bytes order ++ paddedBytes order todo)
    have hstop := hbehind.refuses hfits.of_append.last hoffence hrest
    have hrun : machine.run t = _ := machine.run_of_stop hstop
    rw [paddedBytes_append_cons, ← hreach.run_eq, hrun]
    exact ⟨rfl, ⟨f, hf, kind_of_offence? hoffence⟩,
      hbehind.accounts.recorded.credited hlinked⟩
  · obtain ⟨⟨⟨bytes, offset', order'⟩, s⟩, hreach, rfl, -, hbehind⟩ :=
      reaches_items hlinked offset hfits hnone []
    rw [List.append_nil] at hreach
    rw [← hreach.run_eq, run_end hbehind.mode]
    exact ⟨rfl, hbehind.accounts.recorded.credited hlinked⟩

end Files

/-- A record of some numbers. -/
def Frame.ofWords (tag : Nat) (numbers : List Int) (htag : 0 < tag ∧ tag < wordRange)
    (hwords : numbers.length < wordRange) : Frame where
  tag
  words := numbers.length
  payload := Writer.words .little numbers
  tag_pos := htag.1
  tag_lt := htag.2
  words_lt := hwords
  length_payload := Writer.length_words .little numbers

/-- Records of a function that the notes do not have, and of one that they have and that is counted
twice; and in the end counters once more, for no function. -/
def strayFrames : List (Option Frame) :=
  [ some (.ofWords functionTag [9, 2] (by decide) (by decide)),
    some (.ofWords countersTag [1, 0] (by decide) (by decide)),
    none,
    some (.ofWords functionTag [1, 2] (by decide) (by decide)),
    some (.ofWords countersTag [7, 0, 8, 0, 9, 0] (by decide) (by decide)),
    some (.ofWords functionTag [1, 2] (by decide) (by decide)),
    some (.ofWords countersTag [4, 0, 5, 0, 6, 0, 3, 0] (by decide) (by decide)),
    some (.ofWords countersTag [2, 0] (by decide) (by decide)) ]

theorem strayFrames_decoded :
    (decode [Notes.unevenFunc] (paddedFile .little 0x34303200 0 strayFrames.dropLast)).result
        = .ok ()
      ∧ (decode [Notes.unevenFunc] (paddedFile .little 0x34303200 0 strayFrames)).result
        = .error .countersBeforeFunction
      ∧ ∃ graph : FlowGraph,
        (decode [Notes.unevenFunc] (paddedFile .little 0x34303200 0 strayFrames)).state[0]?
          = some { Notes.unevenFunc with graph }
        ∧ graph.measuredArcs.map (·.count) = [4, 5, 6] := by
  have hnotes : (Notes.decode {} Notes.unevenNotes).result = .ok [Notes.unevenFunc] := by
    decide +kernel
  have hnone : ∀ j < 6, offenceAt [Notes.unevenFunc] .little
      (strayFrames.dropLast.reduceOption ++ []) j = none := by
    decide +kernel
  obtain ⟨-, hall⟩ := decode_frames {} Notes.unevenNotes _ hnotes .little 0x34303200 0 (by decide)
    strayFrames.dropLast (by decide +kernel)
  obtain ⟨hfirst, -⟩ := decode_frames {} Notes.unevenNotes _ hnotes .little 0x34303200 0
    (by decide) strayFrames (by decide +kernel)
  obtain ⟨hresult, -, -, hcredited⟩ := hfirst 6 .countersBeforeFunction (by decide +kernel)
    (by decide +kernel)
  obtain ⟨graph, hstate, -, -, hmeasured⟩ := hcredited 0 Notes.unevenFunc rfl
  have hlast : (countersFor [Notes.unevenFunc] .little 0
      (strayFrames.reduceOption.take 6)).getLast?
      = some (.ofWords countersTag [4, 0, 5, 0, 6, 0, 3, 0] (by decide) (by decide)) := by
    rfl
  rw [hlast] at hmeasured
  refine ⟨(hall (offenceAt_eq_none hnone)).1, hresult, graph, hstate, ?_⟩
  rw [hmeasured.1]
  decide +kernel

end Coverage.Counters
