import Coverage.Proofs.Aggregation
import Coverage.Proofs.SolverLikeness
import Coverage.Proofs.UnitDecoding

/-!
# Units apart

Units are decoded onto one registry and reported together, but each of them goes its own way: what
becomes of it is what would become of it alone (`CompilationUnit.decode_alike`).

* `CompilationUnit.decodeAll_apart` — decoding units in a row leaves the functions that each of them
  has by itself, up to the positions of sources;
* `Report.isOk_ofUnits` — a report is made if each unit can be decoded and solved by itself;
* `Report.ofUnits_ends` — whatever bytes the units hold, a report is made or one of four kinds of
  error is given, none of them that of a position beyond the end of a list.
-/

namespace Coverage

open CompilationUnit

/-! ## Outcomes that end alike -/

theorem forall₂_exists_of_mem {α β : Type} {R : α → β → Prop} {xs : List α} {ys : List β} {x : α}
    (h : List.Forall₂ R xs ys) (hx : x ∈ xs) : ∃ y ∈ ys, R x y := by
  obtain ⟨k, hk⟩ := List.mem_iff_getElem?.mp hx
  obtain ⟨y, hy, hxy⟩ := optionRel_of_left (optionRel_getElem? h k) hk
  exact ⟨y, List.mem_of_getElem? hy, hxy⟩

theorem DecodesAlike.fail {r r' q q' : Registry} (h : r.GrowAlike r' q q') {error : CoverageError}
    (herror : error.kind ≠ .index) : DecodesAlike r r' (.fail q error) (.fail q' error) :=
  ⟨h, .error herror⟩

/-! ## One unit -/

namespace CompilationUnit

/-- Counters are put onto functions that are alike. -/
theorem decodeData_alike (unit : CompilationUnit) {r r' : Registry}
    {functions functions' : List Func} (h : List.Forall₂ (Func.Alike r r') functions functions') :
    DecodesAlike r r' (unit.decodeData r functions) (unit.decodeData r' functions') := by
  unfold decodeData
  cases unit.data with
  | none => exact .fail (.refl r r') (by simp [CoverageError.kind])
  | some data =>
    have hempty : functions'.isEmpty = functions.isEmpty := by
      cases h <;> rfl
    dsimp only
    rw [hempty]
    split
    · exact .fail (.refl r r') (by simp [CoverageError.kind])
    · obtain ⟨hcounted, hresult⟩ := Counters.decode_alike h data
      revert hcounted hresult
      generalize Counters.decode functions data = o
      generalize Counters.decode functions' data = o'
      obtain ⟨state, result, log⟩ := o
      obtain ⟨state', result', log'⟩ := o'
      intro hcounted hresult
      dsimp only at hcounted hresult
      cases hresult with
      | ok _ => exact ⟨.refl r r', .ok hcounted⟩
      | error herror => exact ⟨.refl r r', .error herror⟩

/-- A unit is decoded alike onto any two registries. -/
theorem decode_alike (unit : CompilationUnit) (r r' : Registry) :
    DecodesAlike r r' (unit.decode r) (unit.decode r') := by
  unfold decode
  cases unit.notes with
  | none => exact .fail (.refl r r') (by simp [CoverageError.kind])
  | some notes =>
    obtain ⟨hgrow, hresult⟩ := Notes.decode_alike r r' notes
    revert hgrow hresult
    dsimp only
    generalize Notes.decode r notes = o
    generalize Notes.decode r' notes = o'
    obtain ⟨state, result, log⟩ := o
    obtain ⟨state', result', log'⟩ := o'
    intro hgrow hresult
    dsimp only at hgrow hresult
    cases hresult with
    | @ok functions functions' hlike =>
      obtain ⟨hgrow', hresult'⟩ := unit.decodeData_alike hlike
      exact ⟨hgrow.trans hgrow', hresult'⟩
    | error herror => exact ⟨hgrow, .error herror⟩

/-- The names of the source files that a unit registers, in order of first mention. -/
def registers (unit : CompilationUnit) : List String :=
  (unit.decode {}).state.names

/-- The functions that a unit has by itself, each with the registry that the unit makes. -/
def parts (unit : CompilationUnit) : List (Registry × Func) :=
  ((unit.decode {}).result.toOption.getD []).map fun func => ((unit.decode {}).state, func)

/-- A unit can be decoded by itself. -/
def Decodes (unit : CompilationUnit) : Prop :=
  ∃ functions, (unit.decode {}).result = .ok functions

/-- What a unit decodes to on a registry, if it can be decoded by itself. -/
theorem Decodes.on {unit : CompilationUnit} (h : unit.Decodes) (r : Registry) :
    ∃ functions, (unit.decode r).result = .ok functions
      ∧ List.Forall₂ (fun func part => func.Alike (unit.decode r).state part.1 part.2)
          functions unit.parts
      ∧ r.Extends (unit.decode r).state
      ∧ (unit.decode r).state.names = unit.registers.foldl enlist r.names := by
  obtain ⟨functions, hok⟩ := h
  obtain ⟨hgrow, hresult⟩ := unit.decode_alike r {}
  obtain ⟨own, hown, hlike⟩ : ∃ own, (unit.decode r).result = .ok own
      ∧ List.Forall₂ (Func.Alike (unit.decode r).state (unit.decode {}).state) own functions := by
    rw [hok] at hresult
    generalize (unit.decode r).result = result at hresult
    cases hresult with
    | ok hlike => exact ⟨_, rfl, hlike⟩
  refine ⟨own, hown, ?_, hgrow.extends_left, hgrow.names_eq⟩
  rw [parts, hok]
  exact List.forall₂_map_right_iff.mpr hlike

/-- Units in a row leave the functions that each of them has by itself, and name the sources that
each of them names. -/
theorem decodeAll_apart {units : List CompilationUnit} (h : ∀ unit ∈ units, unit.Decodes)
    (r : Registry) :
    ∃ functions, (decodeAll units r).result = .ok functions
      ∧ List.Forall₂ (fun func part => func.Alike (decodeAll units r).state part.1 part.2)
          functions (units.flatMap parts)
      ∧ r.Extends (decodeAll units r).state
      ∧ (decodeAll units r).state.names = (units.flatMap registers).foldl enlist r.names := by
  induction units generalizing r with
  | nil => exact ⟨[], rfl, .nil, .refl r, rfl⟩
  | cons unit units ih =>
    obtain ⟨first, hfirst, hlike, hextends, hnames⟩ := (h unit List.mem_cons_self).on r
    obtain ⟨rest, hrest, hlike', hextends', hnames'⟩ :=
      ih (fun u hu => h u (List.mem_cons_of_mem _ hu)) (unit.decode r).state
    have hresult : (decodeAll (unit :: units) r).result = .ok (first ++ rest) := by
      rw [decodeAll, Outcome.result_bind hfirst]
      simp [Outcome.map, hrest, Except.map]
    have hstate : (decodeAll (unit :: units) r).state
        = (decodeAll units (unit.decode r).state).state := by
      rw [decodeAll, Outcome.state_bind hfirst]
      rfl
    rw [hresult, hstate]
    refine ⟨_, rfl, ?_, hextends.trans hextends', ?_⟩
    · rw [List.flatMap_cons]
      exact List.rel_append (hlike.imp fun _ _ hfunc => hfunc.mono hextends' (.refl _)) hlike'
    · rw [hnames', hnames, List.flatMap_cons, List.foldl_append]

/-- Where units in a row can be decoded, each of them can by itself. -/
theorem decodes_of_decodeAll {units : List CompilationUnit} {r : Registry} {functions : List Func}
    (h : (decodeAll units r).result = .ok functions) : ∀ unit ∈ units, unit.Decodes := by
  induction units generalizing r functions with
  | nil => simp
  | cons unit units ih =>
    have hresult := (unit.decode_alike r {}).result
    rw [decodeAll] at h
    cases hown : (unit.decode r).result with
    | error other => simp [Outcome.bind, hown] at h
    | ok first =>
      rw [hown] at hresult
      rw [Outcome.result_bind hown] at h
      obtain ⟨own, hunit, -⟩ := hresult.of_ok
      have hrest : ∃ rest, (decodeAll units (unit.decode r).state).result = .ok rest := by
        cases hrest : (decodeAll units (unit.decode r).state).result with
        | ok rest => exact ⟨rest, rfl⟩
        | error other => simp [Outcome.map, hrest, Except.map] at h
      obtain ⟨rest, hrest⟩ := hrest
      intro u hu
      rcases List.mem_cons.mp hu with rfl | hu
      · exact ⟨own, hunit⟩
      · exact ih hrest u hu

/-- Units in a row fail as one of them fails by itself. -/
theorem decodeAll_error {units : List CompilationUnit} {r : Registry} {error : CoverageError}
    (h : (decodeAll units r).result = .error error) : error.kind ≠ .index := by
  induction units generalizing r error with
  | nil => cases h
  | cons unit units ih =>
    have hresult := (unit.decode_alike r {}).result
    rw [decodeAll] at h
    cases hown : (unit.decode r).result with
    | ok first =>
      rw [Outcome.result_bind hown] at h
      cases hrest : (decodeAll units (unit.decode r).state).result with
      | ok functions => simp [Outcome.map, hrest, Except.map] at h
      | error other =>
        simp only [Outcome.map, hrest, Except.map, Except.error.injEq] at h
        exact h ▸ ih hrest
    | error other =>
      rw [hown] at hresult
      obtain rfl : other = error := by simpa [Outcome.bind, hown] using h
      exact hresult.kind_ne

end CompilationUnit

/-! ## Solving and counting -/

/-- The lines that functions list are lines of the files of their registry. -/
theorem Registry.admits_of_alike {r : Registry} {functions : List Func}
    (h : ∀ func ∈ functions, ∃ r' func', func.Alike r r' func') :
    ∀ v ∈ Func.allVisits functions, r.Admits v.file v.line := by
  intro v hv
  obtain ⟨func, block, hfunc, hblock, -, hplace⟩ := Func.mem_allVisits.mp hv
  obtain ⟨r', func', hlike⟩ := h func (List.mem_of_getElem? hfunc)
  obtain ⟨e, named, hlists⟩ := hlike.lists_left hblock
  obtain ⟨entry, -, hlocates⟩ := forall₂_exists_of_mem hlists.located hplace
  obtain ⟨file, hfile, -, -, hlt⟩ := hlocates
  exact ⟨file, hfile, hlt⟩

/-- Functions that are alike to others are solved alike, each by itself. -/
theorem Func.solve_apart {r : Registry} {functions : List Func} {parts : List (Registry × Func)}
    (h : List.Forall₂ (fun func part => func.Alike r part.1 part.2) functions parts) :
    List.Forall₂ (fun func part => func.Alike r part.1 part.2.solve.state)
      (functions.map (·.solve.state)) parts :=
  List.forall₂_map_left_iff.mpr (h.imp fun _ _ hlike => hlike.solve.1)

namespace CompilationUnit

/-- The functions of a unit can be solved. -/
def Solves (unit : CompilationUnit) : Prop :=
  unit.Decodes ∧ ∀ part ∈ unit.parts, part.2.solve.result = .ok ()

end CompilationUnit

namespace Report

variable {units : List CompilationUnit}

/-- Where the functions of all units can be solved, the report is a summary of what lines come to
by functions that are alike to those of the units by themselves. -/
theorem ofUnits_of_solves (h : ∀ unit ∈ units, unit.Solves) :
    ∃ (r r' : Registry) (solved : List Func),
      (ofUnits units).result = .ok { files := r'.summarize, functions := solved }
        ∧ r'.names = (units.flatMap registers).eraseDups ∧ r'.names = r.names
        ∧ List.Forall₂ (fun func part => func.Alike r part.1 part.2.solve.state)
            solved (units.flatMap parts)
        ∧ ∀ i n, r'.line? i n
          = (r.resetLines.line? i n).map fun _ => .tally solved (visitsAt solved i n) := by
  obtain ⟨functions, hdecode, hlike, -, hnames⟩ :=
    decodeAll_apart (fun unit hunit => (h unit hunit).1) {}
  have hsolve : ∀ func ∈ functions, func.solve.result = .ok () := by
    intro func hfunc
    obtain ⟨part, hpart, hfuncs⟩ := forall₂_exists_of_mem hlike hfunc
    obtain ⟨unit, hunit, hpart⟩ := List.mem_flatMap.mp hpart
    have hends := hfuncs.solve.2
    rw [(h unit hunit).2 part hpart] at hends
    obtain ⟨_, hok⟩ := hends.isOk_iff.mpr ⟨(), rfl⟩
    exact hok
  obtain ⟨hresult, hstate⟩ := Func.solveAll_eq hsolve
  have hsolved := Func.solve_apart hlike
  rw [← hstate] at hsolved
  have hadmits : ∀ v ∈ Func.allVisits (Func.solveAll functions).state,
      (decodeAll units {}).state.Admits v.file v.line := by
    refine Registry.admits_of_alike fun func hfunc => ?_
    obtain ⟨part, -, hlike⟩ := forall₂_exists_of_mem hsolved hfunc
    exact ⟨part.1, _, hlike⟩
  obtain ⟨r', hreport, hnames', hlines⟩ := ofFunctions_counted hresult hadmits
  refine ⟨(decodeAll units {}).state, r', _, ?_, ?_, hnames', hsolved, hlines⟩
  · rw [ofUnits, Outcome.result_bind hdecode, hreport]
  · rw [hnames', hnames, ← foldl_enlist_nil]
    rfl

/-- Where the functions of some unit cannot be solved, there is no report, and an error tells why.
-/
theorem ofUnits_of_not_solves (h : ¬ ∀ unit ∈ units, unit.Solves) :
    ∃ error, (ofUnits units).result = .error error ∧ error.kind ≠ .index := by
  cases hdecode : (decodeAll units {}).result with
  | error error =>
    refine ⟨error, ?_, decodeAll_error hdecode⟩
    simp [ofUnits, Outcome.bind, hdecode]
  | ok functions =>
    have hdecodes := decodes_of_decodeAll hdecode
    obtain ⟨_, hown, hlike, -⟩ := decodeAll_apart hdecodes {}
    obtain rfl := Except.ok.inj (hdecode.symm.trans hown)
    cases hsolve : (Func.solveAll functions).result with
    | ok _ =>
      refine absurd (fun unit hunit => ⟨hdecodes unit hunit, fun part hpart => ?_⟩) h
      obtain ⟨func, hfunc, hfuncs⟩ :=
        forall₂_exists_of_mem hlike.flip (List.mem_flatMap_of_mem hunit hpart)
      have hends := hfuncs.solve.2
      rw [Func.solve_of_solveAll hsolve func hfunc] at hends
      obtain ⟨_, hpart, -⟩ := hends.of_ok
      exact hpart
    | error error =>
      obtain ⟨func, hfunc, herror⟩ := Func.exists_of_solveAll_error hsolve
      obtain ⟨part, -, hfuncs⟩ := forall₂_exists_of_mem hlike hfunc
      have hends := hfuncs.solve.2
      rw [herror] at hends
      refine ⟨error, ?_, hends.kind_ne⟩
      rw [ofUnits, Outcome.result_bind hdecode]
      simp [ofFunctions, Outcome.bind, hsolve]

/-- A report on units is made just if each of them can be decoded and solved by itself. -/
theorem isOk_ofUnits :
    (∃ report, (ofUnits units).result = .ok report) ↔ ∀ unit ∈ units, unit.Solves := by
  constructor
  · rintro ⟨report, hreport⟩
    by_contra hnot
    obtain ⟨error, herror, -⟩ := ofUnits_of_not_solves hnot
    rw [hreport] at herror
    cases herror
  · intro h
    obtain ⟨r, r', solved, hreport, -⟩ := ofUnits_of_solves h
    exact ⟨_, hreport⟩

/-- Whatever bytes the files of units hold, a report on them is made, or an error of one of four
kinds tells why not. -/
theorem ofUnits_ends (units : List CompilationUnit) :
    (∃ report, (ofUnits units).result = .ok report)
      ∨ ∃ error, (ofUnits units).result = .error error ∧ error.kind ∈
        [.missingFile, .unsupportedFormat, .checksumMismatch, .parsing] := by
  by_cases h : ∀ unit ∈ units, unit.Solves
  · exact .inl (isOk_ofUnits.mpr h)
  · obtain ⟨error, herror, hkind⟩ := ofUnits_of_not_solves h
    refine .inr ⟨error, herror, ?_⟩
    revert hkind
    cases error.kind <;> simp

end Report

end Coverage
