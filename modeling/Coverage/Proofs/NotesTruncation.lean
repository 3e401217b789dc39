import Coverage.Proofs.NotesRoundTrip
import Coverage.Proofs.Placeless
import Coverage.Proofs.RoundTrip
import Coverage.Proofs.Steps

/-!
# Notes files that are cut off

A notes file that is cut off gives the functions that the whole file begins with; only the last of
them may lack some of its graph.  The decoder appends functions and works on the last one
(`Func.Begins` is kept by all that a step does), and a file that is cut off ends in a state that the
decoder of the whole file goes on from.
-/

namespace Coverage

open Scanner

/-! ## The beginning of a list of functions -/

/-- Functions that agree in all but their graphs. -/
def Func.SameHead (func func' : Func) : Prop :=
  ∃ graph, func' = { func with graph }

theorem Func.SameHead.refl (func : Func) : func.SameHead func :=
  ⟨func.graph, rfl⟩

theorem Func.SameHead.trans {func func' func'' : Func} (h : func.SameHead func')
    (h' : func'.SameHead func'') : func.SameHead func'' := by
  obtain ⟨graph, rfl⟩ := h
  obtain ⟨graph', rfl⟩ := h'
  exact ⟨graph', rfl⟩

/-- `Func.Begins some all`: the first functions, of which the last may lack some of its graph. -/
structure Func.Begins (part whole : List Func) : Prop where
  length : part.length ≤ whole.length
  /-- All functions but the last are the same. -/
  same : ∀ i, i + 1 < part.length → part[i]? = whole[i]?
  head : ∀ (i : Nat) (func : Func), part[i]? = some func →
    ∃ func', whole[i]? = some func' ∧ func.SameHead func'

namespace Func.Begins

variable {part whole more : List Func}

theorem refl (part : List Func) : Func.Begins part part where
  length := Nat.le_refl _
  same _ _ := rfl
  head _ func hfunc := ⟨func, hfunc, .refl func⟩

theorem trans (h : Func.Begins part whole) (h' : Func.Begins whole more) :
    Func.Begins part more where
  length := Nat.le_trans h.length h'.length
  same i hi := by
    have hlength := h.length
    rw [h.same i hi]
    exact h'.same i (by omega)
  head i func hfunc := by
    obtain ⟨func', hfunc', hsame⟩ := h.head i func hfunc
    obtain ⟨func'', hfunc'', hsame'⟩ := h'.head i func' hfunc'
    exact ⟨func'', hfunc'', hsame.trans hsame'⟩

/-- Another function is appended. -/
theorem append (part more : List Func) : Func.Begins part (part ++ more) where
  length := by simp
  same i hi := by
    rw [List.getElem?_append_left]
    omega
  head i func hfunc := by
    have hi := (List.getElem?_eq_some_iff.mp hfunc).1
    refine ⟨func, ?_, .refl func⟩
    rw [List.getElem?_append_left hi]
    exact hfunc

/-- The last function gets another graph. -/
theorem last {done : List Func} {func func' : Func} (h : func.SameHead func') :
    Func.Begins (done ++ [func]) (done ++ [func']) where
  length := by simp
  same i hi := by
    have hlt : i < done.length := by simpa using hi
    rw [List.getElem?_append_left hlt, List.getElem?_append_left hlt]
  head i f hf := by
    by_cases hlt : i < done.length
    · rw [List.getElem?_append_left hlt] at hf ⊢
      exact ⟨f, hf, .refl f⟩
    · have hi := (List.getElem?_eq_some_iff.mp hf).1
      rw [List.length_append, List.length_singleton] at hi
      obtain rfl : i = done.length := by omega
      rw [List.getElem?_concat_length] at hf ⊢
      cases hf
      exact ⟨func', rfl, h⟩

end Func.Begins

/-- Files keep their places, so names are listed in the same order. -/
theorem Registry.Extends.names_prefix {r r' : Registry} (h : r.Extends r') :
    r.names <+: r'.names := by
  refine List.prefix_iff_getElem?.mpr fun i hi => ?_
  have hname : r.names[i]? = some r.names[i] := List.getElem?_eq_getElem hi
  rw [names_getElem?] at hname
  obtain ⟨file, hfile, hfileName⟩ := Option.map_eq_some_iff.mp hname
  obtain ⟨file', hfile', hsame, -⟩ := h i file hfile
  rw [names_getElem?, hfile', Option.map_some, hsame, hfileName]

namespace Notes

/-! ## What is kept to the end -/

theorem Change.begins {s t : State} (h : Change s t) : Func.Begins s.functions t.functions := by
  cases h with
  | move => exact .refl _
  | openFunction header _ => exact .append _ _
  | setBlocks func count hcurrent =>
    rw [functions_of_current hcurrent]
    exact .last ⟨_, rfl⟩
  | linkArc func src dst flags mode hcurrent _ =>
    rw [functions_of_current hcurrent]
    exact .last ⟨_, rfl⟩
  | nameSource => exact .refl _
  | emitLine func block source line emitted hcurrent _ _ =>
    rw [functions_of_current hcurrent]
    exact .last ⟨_, rfl⟩

/-- What is known at some point against what is left at the end: the registry has grown, and either
a record was refused or the functions are the first of those in the end. -/
structure Precedes (s : State) (w : Result) : Prop where
  extends_state : s.registry.Extends w.state
  result : (∃ whole, w.result = .ok whole ∧ Func.Begins s.functions whole)
    ∨ ∃ error, w.result = .error error ∧ error.kind = .parsing

theorem run_precedes (s : Scan State) : Precedes s.state (machine.run s) := by
  have hfirst : ∀ s, (step s).Leaves (Change s) (Precedes s) := by
    intro s
    obtain ⟨hnext, hstop⟩ := step_leaves s
    refine ⟨hnext, fun c w hw => ?_⟩
    cases hstop c w hw with
    | close => exact ⟨.refl _, .inl ⟨_, rfl, .refl _⟩⟩
    | refuse error herror => exact ⟨.refl _, .inr ⟨error, rfl, herror⟩⟩
  refine run_of_leaves hfirst ?_ s
  intro s t w hchange hw
  refine ⟨hchange.extends.trans hw.extends_state, ?_⟩
  rcases hw.result with ⟨whole, hwhole, hbegins⟩ | herror
  · exact .inl ⟨whole, hwhole, hchange.begins.trans hbegins⟩
  · exact .inr herror

/-! ## Files -/

/-- What a file that is cut off leaves against what the whole file leaves: the same result, or
the first functions where the whole file has more of them or is refused further on. -/
structure CutOff (part whole : Result) : Prop where
  extends_state : part.state.Extends whole.state
  result : part.result = whole.result
    ∨ ∃ funcs, part.result = .ok funcs
      ∧ ((∃ all, whole.result = .ok all ∧ Func.Begins funcs all)
        ∨ ∃ error, whole.result = .error error ∧ error.kind = .parsing)

theorem CutOff.of_eq {part whole : Result} (hstate : part.state = whole.state)
    (hresult : part.result = whole.result) : CutOff part whole where
  extends_state := by
    rw [hstate]
    exact .refl _
  result := .inl hresult

/-- Closing early, in a state that the decoder of the whole file goes on from. -/
theorem Precedes.cutOff {s : State} {part whole : Result} (h : Precedes s whole)
    (hstate : part.state = s.registry) (hresult : part.result = .ok s.functions) :
    CutOff part whole where
  extends_state := by
    rw [hstate]
    exact h.extends_state
  result := .inr ⟨_, hresult, h.result⟩

theorem decodeRecords_cut (registry : Registry) (version : Nat) (cursor : Cursor) (more : Bytes) :
    CutOff (decodeRecords registry version cursor)
      (decodeRecords registry version (cursor.extend more)) := by
  rcases run_cut (h := fun s => (advances_step s).mono (by decide))
      (fun s => (step_placeless s).cuts)
      { cursor, state := { version, registry } } more with hrun | ⟨t, hreach, hclose⟩
  · change decodeRecords registry version cursor
      = decodeRecords registry version (cursor.extend more) at hrun
    rw [hrun]
    exact .of_eq rfl rfl
  · change decodeRecords registry version cursor = t.state.close at hclose
    have hwhole : machine.run t = decodeRecords registry version (cursor.extend more) :=
      hreach.run_eq
    rw [hclose, ← hwhole]
    exact (run_precedes t).cutOff rfl rfl

theorem decode_cutOff (registry : Registry) {bytes : Bytes} (h : wordSize ≤ bytes.length)
    (more : Bytes) : CutOff (decode registry bytes) (decode registry (bytes ++ more)) := by
  have hopen := openFile_append .notes h more
  cases hshort : openFile .notes bytes with
  | error e =>
    rw [hshort] at hopen
    rw [decode, decode, hshort, hopen]
    exact .of_eq rfl rfl
  | ok c =>
    rw [hshort] at hopen
    cases hversion : readVersion.run c with
    | error _ _ =>
      -- the header itself is cut off
      have hresult : (decode registry bytes).result = .ok [] := by
        simp only [decode, hshort, hversion]
      have hstate : (decode registry bytes).state = registry := by
        simp only [decode, hshort, hversion]
      cases hwhole : readVersion.run (c.extend more) with
      | error _ _ =>
        refine .of_eq ?_ ?_
        · simp only [decode, hopen, Except.map, hshort, hversion, hwhole]
        · simp only [decode, hopen, Except.map, hshort, hversion, hwhole]
      | ok version c' =>
        obtain ⟨log, hdecode⟩ := decode_of_records (r := registry) (records?_eq_some hopen hwhole)
        rw [hdecode]
        have hprecedes := run_precedes { cursor := c', state := { version, registry } }
        have hstart : Precedes { version, registry }
            { decodeRecords registry version c' with log } :=
          ⟨hprecedes.extends_state, hprecedes.result⟩
        exact hstart.cutOff hstate hresult
    | ok version c' =>
      have hwhole := readVersion_placeless.stable c version c' more hversion
      obtain ⟨log, hdecode⟩ := decode_of_records (r := registry) (records?_eq_some hshort hversion)
      obtain ⟨log', hdecode'⟩ := decode_of_records (r := registry) (records?_eq_some hopen hwhole)
      rw [hdecode, hdecode']
      obtain ⟨hstate, hresult⟩ := decodeRecords_cut registry version c' more
      exact ⟨hstate, hresult⟩

/-- A notes file that is cut off decodes to the beginning of what the whole file decodes to.  Let at
least the magic be there.  Then files are registered in the same order, with line bounds that are no
greater.  If the whole file gives functions, the part gives the first of them: all but the last are
the same, and the last has the same head.  If the whole file is refused, the part is either refused
for the same reason or, where a record was refused and not the magic, decoded; and what the part is
refused for the whole is refused for as well. -/
theorem decode_of_prefix (registry : Registry) {part bytes : Bytes} (hpart : part <+: bytes)
    (hmagic : 4 ≤ part.length) :
    (decode registry part).state.names <+: (decode registry bytes).state.names
      ∧ (∀ (i : Nat) (file file' : SourceFile),
          (decode registry part).state.files[i]? = some file →
          (decode registry bytes).state.files[i]? = some file' → file.lineCount ≤ file'.lineCount)
      ∧ (∀ all, (decode registry bytes).result = .ok all →
          ∃ funcs, (decode registry part).result = .ok funcs ∧ funcs.length ≤ all.length
            ∧ (∀ i, i + 1 < funcs.length → funcs[i]? = all[i]?)
            ∧ ∀ (i : Nat) (func : Func), funcs[i]? = some func → ∃ func', all[i]? = some func'
              ∧ (func.ident, func.checksum, func.name, func.source, func.firstLine)
                = (func'.ident, func'.checksum, func'.name, func'.source, func'.firstLine))
      ∧ (∀ error, (decode registry bytes).result = .error error →
          (decode registry part).result = .error error
            ∨ error.kind = .parsing ∧ ∃ funcs, (decode registry part).result = .ok funcs)
      ∧ ∀ error, (decode registry part).result = .error error →
          (decode registry bytes).result = .error error := by
  obtain ⟨more, rfl⟩ := hpart
  obtain ⟨hextends, hresult⟩ := decode_cutOff registry hmagic more
  refine ⟨hextends.names_prefix, fun i file file' hfile hfile' => ?_, fun all hall => ?_,
    fun error herror => ?_, fun error herror => ?_⟩
  · obtain ⟨grown, hgrown, -, hcount⟩ := hextends i file hfile
    cases hgrown.symm.trans hfile'
    exact hcount
  · have hbegins : ∃ funcs, (decode registry part).result = .ok funcs
        ∧ Func.Begins funcs all := by
      rcases hresult with hsame | ⟨funcs, hfuncs, ⟨all', hall', hbegins⟩ | ⟨error, herror, -⟩⟩
      · exact ⟨all, hsame.trans hall, .refl all⟩
      · cases hall'.symm.trans hall
        exact ⟨funcs, hfuncs, hbegins⟩
      · cases herror.symm.trans hall
    obtain ⟨funcs, hfuncs, hbegins⟩ := hbegins
    refine ⟨funcs, hfuncs, hbegins.length, hbegins.same, fun i func hfunc => ?_⟩
    obtain ⟨func', hfunc', graph, rfl⟩ := hbegins.head i func hfunc
    exact ⟨_, hfunc', rfl⟩
  · rcases hresult with hsame | ⟨funcs, hfuncs, ⟨all, hall, -⟩ | ⟨error', herror', hkind⟩⟩
    · exact .inl (hsame.trans herror)
    · cases hall.symm.trans herror
    · cases herror'.symm.trans herror
      exact .inr ⟨hkind, funcs, hfuncs⟩
  · rcases hresult with hsame | ⟨funcs, hfuncs, -⟩
    · exact hsame.symm.trans herror
    · cases hfuncs.symm.trans herror

/-- The file ends in the list of the arcs of the first of its two functions. -/
theorem samplePlan_cut :
    samplePlan.notes.take 120 <+: samplePlan.notes ∧ 4 ≤ (samplePlan.notes.take 120).length
      ∧ ∃ funcs all, (decode {} samplePlan.notes).result = .ok all ∧ all.length = 2
        ∧ (decode {} (samplePlan.notes.take 120)).result = .ok funcs ∧ funcs.length ≤ 2 := by
  have hpart : samplePlan.notes.take 120 <+: samplePlan.notes := List.take_prefix _ _
  have hmagic : 4 ≤ (samplePlan.notes.take 120).length := by decide +kernel
  obtain ⟨-, -, hall, -⟩ := decode_of_prefix {} hpart hmagic
  obtain ⟨all, hresult, hreads, -⟩ := decode_notes samplePlan_built samplePlan_encodable {}
  obtain ⟨funcs, hfuncs, hlength, -⟩ := hall all hresult
  have htwo : all.length = 2 := hreads.length_eq.symm
  exact ⟨hpart, hmagic, funcs, all, hresult, htwo, hfuncs, htwo ▸ hlength⟩

end Notes

end Coverage
