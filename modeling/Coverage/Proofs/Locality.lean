import Coverage.Proofs.Executions
import Coverage.Proofs.Shares
import Coverage.Proofs.UnitsApart

/-!
# The coverage of a file is a matter of the units that name it

All units share one registry and all functions are counted together, but the coverage of a file
depends on nothing but the units that register its name, taken as a multiset
(`Report.ofUnits_locality`).  What a line comes to is a sum over the functions of all units
(`CompilationUnit.lineShare`), in which units that do not name the file have no share, and neither
the order of the units nor the positions of sources and functions play a part.
-/

namespace Coverage

open CompilationUnit

/-! ## The share of units in a line -/

namespace CompilationUnit

/-- The share that the functions of units have in a line, when each is solved by itself. -/
def lineShare (units : List CompilationUnit) (file : String) (n : Nat) : Share :=
  .sum ((units.flatMap parts).map fun part => part.2.solve.state.share part.1 file n)

/-- The share of units is that of each of them. -/
theorem lineShare_eq (units : List CompilationUnit) (file : String) (n : Nat) :
    lineShare units file n = .sum (units.map fun unit =>
      .sum (unit.parts.map fun part => part.2.solve.state.share part.1 file n)) := by
  rw [lineShare, List.map_flatMap, Share.sum_flatMap]

/-- The files of a unit, without its name. -/
def buffers (unit : CompilationUnit) : Option Bytes × Option Bytes :=
  (unit.notes, unit.data)

/-- The name of a unit only tells in errors. -/
theorem decode_of_buffers {unit other : CompilationUnit} (h : unit.buffers = other.buffers)
    (r : Registry) : (unit.decode r).state = (other.decode r).state
      ∧ (unit.decode r).result.toOption = (other.decode r).result.toOption := by
  obtain ⟨name, notes, data⟩ := unit
  obtain ⟨name', notes', data'⟩ := other
  obtain ⟨rfl, rfl⟩ := Prod.mk.inj h
  unfold decode
  cases notes with
  | none => exact ⟨rfl, rfl⟩
  | some notes =>
    dsimp only
    generalize Notes.decode r notes = decoded
    obtain ⟨state, error | functions, log⟩ := decoded
    · exact ⟨rfl, rfl⟩
    · cases data with
      | none => exact ⟨rfl, rfl⟩
      | some data =>
        simp only [Outcome.bind, decodeData]
        split
        · exact ⟨rfl, rfl⟩
        · generalize (Counters.decode functions data).result = result
          cases result <;> exact ⟨rfl, rfl⟩

theorem registers_of_buffers {unit other : CompilationUnit} (h : unit.buffers = other.buffers) :
    unit.registers = other.registers :=
  congrArg Registry.names (decode_of_buffers h {}).1

theorem parts_of_buffers {unit other : CompilationUnit} (h : unit.buffers = other.buffers) :
    unit.parts = other.parts := by
  obtain ⟨hstate, hresult⟩ := decode_of_buffers h {}
  rw [parts, parts, hstate, hresult]

/-- The units that register a file. -/
def naming (units : List CompilationUnit) (file : String) : List CompilationUnit :=
  units.filter (file ∈ ·.registers)

/-- Units have no share in the lines of a file that they do not name. -/
theorem lineShare_naming (units : List CompilationUnit) (file : String) (n : Nat) :
    lineShare (naming units file) file n = lineShare units file n := by
  rw [lineShare_eq, lineShare_eq, naming]
  refine Share.sum_filter fun unit _ hunit => ?_
  have hnot : file ∉ unit.registers := by simpa using hunit
  have hshares : (unit.parts.map fun part => part.2.solve.state.share part.1 file n)
      = unit.parts.map fun _ => Share.none := by
    refine List.map_congr_left fun part hpart => ?_
    obtain ⟨func, -, rfl⟩ := List.mem_map.mp hpart
    exact Func.share_eq_zero hnot _ n
  rw [hshares, Share.sum_none]

/-- The share of units depends on their files only, and not on their order. -/
theorem lineShare_perm {units units' : List CompilationUnit}
    (h : (units.map buffers).Perm (units'.map buffers)) (file : String) (n : Nat) :
    lineShare units file n = lineShare units' file n := by
  let shareOf (files : Option Bytes × Option Bytes) : Share :=
    .sum ((parts ⟨"", files.1, files.2⟩).map fun part => part.2.solve.state.share part.1 file n)
  have hshare : ∀ us : List CompilationUnit,
      lineShare us file n = .sum ((us.map buffers).map shareOf) := by
    intro us
    rw [lineShare_eq, List.map_map]
    refine congrArg Share.sum (List.map_congr_left fun unit _ => ?_)
    show _ = shareOf unit.buffers
    have hparts : unit.parts = parts ⟨"", unit.notes, unit.data⟩ := parts_of_buffers rfl
    rw [hparts]
    rfl
  rw [hshare, hshare]
  exact Share.sum_perm (h.map shareOf)

end CompilationUnit

/-! ## Coverage by shares -/

/-- `coverage.Gathers entry`: the coverage lists the entries of all lines that have one. -/
def FileCoverage.Gathers (coverage : FileCoverage) (entry : Nat → Option LineCoverage) : Prop :=
  ∃ bound, (∀ n, bound ≤ n → entry n = none)
    ∧ coverage = .ofLines coverage.file ((List.range bound).filterMap entry)

theorem FileCoverage.Gathers.unique {coverage other : FileCoverage}
    {entry : Nat → Option LineCoverage} (h : coverage.Gathers entry) (h' : other.Gathers entry)
    (hfile : coverage.file = other.file) : coverage = other := by
  obtain ⟨bound, hnone, heq⟩ := h
  obtain ⟨bound', hnone', heq'⟩ := h'
  rw [heq, heq', hfile, filterMap_range_eq hnone hnone']

namespace Report

variable {units units' : List CompilationUnit} {report report' : Report}

/-- `report.Covers units`: the report has the files that the units name, each with the lines in
which the units have a share. -/
structure Covers (report : Report) (units : List CompilationUnit) : Prop where
  names : report.files.map (·.file) = (units.flatMap registers).eraseDups
  gathers : ∀ coverage ∈ report.files,
    coverage.Gathers fun n => (lineShare units coverage.file n).entry n

/-- Functions that are alike to those of some units have the same shares. -/
theorem map_share_of_alike {r : Registry} {solved : List Func} {parts : List (Registry × Func)}
    (h : List.Forall₂ (fun func part => func.Alike r part.1 part.2.solve.state) solved parts)
    (file : String) (n : Nat) : solved.map (·.share r file n)
      = parts.map fun part => part.2.solve.state.share part.1 file n := by
  induction h with
  | nil => rfl
  | cons hfunc _ ih => rw [List.map_cons, List.map_cons, ih, hfunc.share_eq]

/-- A report on units covers them. -/
theorem covers_ofUnits (h : (ofUnits units).result = .ok report) : report.Covers units := by
  obtain ⟨r, r', solved, hreport, hnames, hgrown, hlike, hlines⟩ :=
    ofUnits_of_solves (isOk_ofUnits.mp ⟨report, h⟩)
  obtain rfl := Except.ok.inj (h.symm.trans hreport)
  have hnodup : r.names.Nodup := by
    rw [← hgrown, hnames, ← foldl_enlist_nil]
    exact nodup_foldl_enlist List.nodup_nil _
  have hshare : ∀ file n, Share.sum (solved.map (·.share r file n)) = lineShare units file n := by
    intro file n
    rw [lineShare, map_share_of_alike hlike]
  have hadmits : ∀ v ∈ Func.allVisits solved, r.Admits v.file v.line := by
    refine Registry.admits_of_alike fun func hfunc => ?_
    obtain ⟨part, -, hfuncs⟩ := forall₂_exists_of_mem hlike hfunc
    exact ⟨part.1, _, hfuncs⟩
  refine ⟨?_, ?_⟩
  · rw [← hnames]
    simp [Registry.summarize, Registry.names, SourceFile.coverage, FileCoverage.ofLines]
  · intro coverage hcoverage
    obtain ⟨f, hf, rfl⟩ := List.mem_map.mp hcoverage
    obtain ⟨i, hi⟩ := List.mem_iff_getElem?.mp hf
    rw [Array.getElem?_toList] at hi
    have hfile : r.names[i]? = some f.name := by
      rw [← hgrown, Registry.names_getElem?, hi, Option.map_some]
    have hentry : ∀ n : Nat, ((f.lines[n]?).bind fun line =>
        if line.instrumented then
          some ({ line := n, executed := decide (0 < line.count), count := line.count } :
            LineCoverage)
        else none) = (lineShare units f.name n).entry n := by
      intro n
      have hline : f.lines[n]? = r'.line? i n := by simp [Registry.line?, hi]
      obtain ⟨hcount, hinstrumented⟩ := tally_eq_share solved n hnodup hfile
      rw [hshare] at hcount hinstrumented
      rw [hline, hlines, Registry.resetLines_line?, Share.entry]
      by_cases hblocks : (lineShare units f.name n).blocks = 0
      · rw [if_pos hblocks]
        have hnot : ¬ (SourceLine.tally solved (visitsAt solved i n)).instrumented = true :=
          fun htrue => hinstrumented.mp htrue hblocks
        split
        · simp [hnot]
        · rfl
      · have htrue := hinstrumented.mpr hblocks
        obtain ⟨owner, func, block, hfunc, hblock, hplace⟩ := instrumented_tally.mp htrue
        have hadmit : r.Admits i n := hadmits ⟨owner, block.count, i, n⟩
          (Func.mem_allVisits.mpr ⟨func, block, hfunc, hblock, rfl, hplace⟩)
        rw [if_neg hblocks, if_pos hadmit, Option.map_some, Option.bind_some, if_pos htrue, hcount]
    refine ⟨f.lines.size, fun n hn => ?_, ?_⟩
    · show (lineShare units f.name n).entry n = none
      rw [← hentry, Array.getElem?_eq_none hn, Option.bind_none]
    · show FileCoverage.ofLines f.name f.lineCoverage = .ofLines f.name _
      rw [SourceFile.lineCoverage_eq]
      exact congrArg (fun entry => FileCoverage.ofLines f.name
        ((List.range f.lines.size).filterMap entry)) (funext hentry)

/-- Files of the same name have the same coverage, if the units have the same share in it. -/
theorem Covers.eq_of_mem (h : report.Covers units) (h' : report'.Covers units')
    {coverage coverage' : FileCoverage} (hmem : coverage ∈ report.files)
    (hmem' : coverage' ∈ report'.files) (hfile : coverage.file = coverage'.file)
    (hshare : ∀ n, lineShare units coverage.file n = lineShare units' coverage.file n) :
    coverage = coverage' := by
  have hgathers' := h'.gathers coverage' hmem'
  rw [← hfile] at hgathers'
  simp only [← hshare] at hgathers'
  exact (h.gathers coverage hmem).unique hgathers' hfile

theorem Covers.mem_names (h : report.Covers units) {file : String} :
    (∃ coverage ∈ report.files, coverage.file = file) ↔ naming units file ≠ [] := by
  have hmem : file ∈ report.files.map (·.file) ↔ file ∈ (units.flatMap registers).eraseDups := by
    rw [h.names]
  rw [List.mem_map, List.mem_eraseDups, List.mem_flatMap] at hmem
  rw [hmem, naming, Ne, List.filter_eq_nil_iff]
  simp

theorem Covers.nodup (h : report.Covers units) : (report.files.map (·.file)).Nodup := by
  rw [h.names, ← foldl_enlist_nil]
  exact nodup_foldl_enlist List.nodup_nil _

/-- A report finds the file of a name just if it has it. -/
theorem Covers.find_eq_some (h : report.Covers units) {file : String} {coverage : FileCoverage} :
    report.find file = some coverage ↔ coverage ∈ report.files ∧ coverage.file = file := by
  constructor
  · intro hfind
    exact ⟨List.mem_of_find?_eq_some hfind, by simpa using List.find?_some hfind⟩
  · rintro ⟨hmem, hfile⟩
    cases hfind : report.find file with
    | none =>
      have hnone := List.find?_eq_none.mp hfind coverage hmem
      exact absurd hfile (by simpa using hnone)
    | some found =>
      have hfound : found.file = file := by simpa using List.find?_some hfind
      exact congrArg some (List.inj_on_of_nodup_map h.nodup (List.mem_of_find?_eq_some hfind) hmem
        (hfound.trans hfile.symm))

/-- A file that the same units name, in any order, has the same coverage in both reports. -/
theorem Covers.mem_of_perm (h : report.Covers units) (h' : report'.Covers units') {file : String}
    (hperm : ((naming units file).map buffers).Perm ((naming units' file).map buffers))
    {coverage : FileCoverage} (hmem : coverage ∈ report.files) (hfile : coverage.file = file) :
    coverage ∈ report'.files := by
  have hnaming : naming units' file ≠ [] := by
    have hne := h.mem_names.mp ⟨coverage, hmem, hfile⟩
    have hlength := hperm.length_eq
    rw [List.length_map, List.length_map] at hlength
    rw [← List.length_pos_iff] at hne ⊢
    omega
  obtain ⟨coverage', hmem', hfile'⟩ := h'.mem_names.mpr hnaming
  have heq : coverage = coverage' := by
    refine h.eq_of_mem h' hmem hmem' (hfile.trans hfile'.symm) fun n => ?_
    rw [hfile, ← lineShare_naming units, ← lineShare_naming units', lineShare_perm hperm]
  rwa [heq]

theorem Covers.find_eq (h : report.Covers units) (h' : report'.Covers units') {file : String}
    (hperm : ((naming units file).map buffers).Perm ((naming units' file).map buffers)) :
    report.find file = report'.find file := by
  refine Option.ext fun coverage => ?_
  rw [h.find_eq_some, h'.find_eq_some]
  constructor
  · rintro ⟨hmem, hfile⟩
    exact ⟨h.mem_of_perm h' hperm hmem hfile, hfile⟩
  · rintro ⟨hmem, hfile⟩
    exact ⟨h'.mem_of_perm h hperm.symm hmem hfile, hfile⟩

/-- The units that name a file are in the same order as before, whatever the order of all. -/
theorem naming_perm (h : (units.map buffers).Perm (units'.map buffers)) (file : String) :
    ((naming units file).map buffers).Perm ((naming units' file).map buffers) := by
  let names (files : Option Bytes × Option Bytes) : Bool :=
    file ∈ registers ⟨"", files.1, files.2⟩
  have hnaming : ∀ us : List CompilationUnit,
      (naming us file).map buffers = (us.map buffers).filter names := by
    intro us
    rw [naming, List.filter_map]
    refine congrArg (List.map buffers) (List.filter_congr fun unit _ => ?_)
    have hregisters : unit.registers = registers ⟨"", unit.notes, unit.data⟩ :=
      registers_of_buffers rfl
    rw [hregisters]
    rfl
  rw [hnaming, hnaming]
  exact h.filter names

theorem Covers.files_perm (h : report.Covers units) (h' : report'.Covers units')
    (hperm : (units.map buffers).Perm (units'.map buffers)) :
    report.files.Perm report'.files := by
  refine (List.perm_ext_iff_of_nodup h.nodup.of_map h'.nodup.of_map).mpr fun coverage => ?_
  constructor
  · exact fun hmem => h.mem_of_perm h' (naming_perm hperm _) hmem rfl
  · exact fun hmem => h'.mem_of_perm h (naming_perm hperm.symm _) hmem rfl

/-- Lists of files with the same names are the same, if files of the same name are. -/
theorem files_ext {files files' : List FileCoverage}
    (hnames : files.map (·.file) = files'.map (·.file))
    (heq : ∀ coverage ∈ files, ∀ coverage' ∈ files', coverage.file = coverage'.file →
      coverage = coverage') : files = files' := by
  induction files generalizing files' with
  | nil => exact (List.map_eq_nil_iff.mp hnames.symm).symm
  | cons coverage files ih =>
    cases files' with
    | nil => cases hnames
    | cons coverage' files' =>
      obtain ⟨hfile, hrest⟩ := List.cons.inj hnames
      rw [heq coverage List.mem_cons_self coverage' List.mem_cons_self hfile]
      exact congrArg (coverage' :: ·) (ih hrest fun c hc c' hc' =>
        heq c (List.mem_cons_of_mem _ hc) c' (List.mem_cons_of_mem _ hc'))

/-- Units that register no file of a name are not among those that name it. -/
theorem naming_eq_nil {file : String} (h : file ∉ units.flatMap registers) :
    naming units file = [] := by
  rw [naming, List.filter_eq_nil_iff]
  intro unit hunit
  simpa using fun hmem => h (List.mem_flatMap_of_mem hunit hmem)

theorem naming_append (units units' : List CompilationUnit) (file : String) :
    naming (units ++ units') file = naming units file ++ naming units' file :=
  List.filter_append _ _

theorem Covers.mem_registers (h : report.Covers units) {coverage : FileCoverage}
    (hmem : coverage ∈ report.files) : coverage.file ∈ units.flatMap registers := by
  have hname : coverage.file ∈ report.files.map (·.file) := List.mem_map_of_mem hmem
  rwa [h.names, List.mem_eraseDups] at hname

/-- Units over other names have their files listed behind. -/
theorem Covers.files_append {both : Report} (h : report.Covers units) (h' : report'.Covers units')
    (hboth : both.Covers (units ++ units'))
    (hdisjoint : ∀ file ∈ units.flatMap registers, file ∉ units'.flatMap registers) :
    both.files = report.files ++ report'.files := by
  refine files_ext ?_ fun coverage hmem coverage' hmem' hfile => ?_
  · have hremove : (units'.flatMap registers).removeAll (units.flatMap registers)
        = units'.flatMap registers := by
      refine List.filter_eq_self.mpr fun file hfile => ?_
      have hnot : file ∉ units.flatMap registers := fun hmem => hdisjoint file hmem hfile
      simpa using hnot
    rw [hboth.names, List.map_append, h.names, h'.names, List.flatMap_append,
      List.eraseDups_append, hremove]
  · have hcoverage' : coverage' ∈ both.files := by
      rcases List.mem_append.mp hmem' with hmem' | hmem'
      · refine h.mem_of_perm hboth ?_ hmem' rfl
        rw [naming_append, naming_eq_nil (hdisjoint _ (h.mem_registers hmem')), List.append_nil]
      · refine h'.mem_of_perm hboth ?_ hmem' rfl
        have hnot : coverage'.file ∉ units.flatMap registers :=
          fun hmem => hdisjoint _ hmem (h'.mem_registers hmem')
        rw [naming_append, naming_eq_nil hnot, List.nil_append]
    exact List.inj_on_of_nodup_map hboth.nodup hmem hcoverage' hfile

/-! ## Locality -/

/-- The coverage of a file depends only on the units that name it.  A report on units is made just
if one is made on each of them; its files are the names that the units register, in the order of
first registration; and whatever other units there are a report on, a file has the same coverage in
both reports if the units that name it are the same up to their order.  So reordering units reorders
files, further units leave the files that they do not name as they are, and units over other names
add their files behind. -/
theorem ofUnits_locality (units : List CompilationUnit) :
    ((∃ report, (ofUnits units).result = .ok report)
        ↔ ∀ unit ∈ units, ∃ report, (ofUnits [unit]).result = .ok report)
      ∧ ∀ report, (ofUnits units).result = .ok report →
        report.files.map (·.file) = (units.flatMap registers).eraseDups
        ∧ ∀ (units' : List CompilationUnit) (report' : Report),
          (ofUnits units').result = .ok report' →
          (∀ file, ((naming units file).map buffers).Perm ((naming units' file).map buffers) →
              report.find file = report'.find file)
            ∧ ((units.map buffers).Perm (units'.map buffers) → report.files.Perm report'.files)
            ∧ ∃ both, (ofUnits (units ++ units')).result = .ok both
              ∧ (∀ file, file ∉ units'.flatMap registers → both.find file = report.find file)
              ∧ ((∀ file ∈ units.flatMap registers, file ∉ units'.flatMap registers) →
                  both.files = report.files ++ report'.files) := by
  refine ⟨?_, fun report hreport => ?_⟩
  · simp only [isOk_ofUnits, List.mem_singleton, forall_eq]
  · have h := covers_ofUnits hreport
    refine ⟨h.names, fun units' report' hreport' => ?_⟩
    have h' := covers_ofUnits hreport'
    have hsolves : ∀ unit ∈ units ++ units', unit.Solves := by
      intro unit hunit
      rcases List.mem_append.mp hunit with hunit | hunit
      · exact isOk_ofUnits.mp ⟨report, hreport⟩ unit hunit
      · exact isOk_ofUnits.mp ⟨report', hreport'⟩ unit hunit
    obtain ⟨both, hok⟩ := isOk_ofUnits.mpr hsolves
    have hboth := covers_ofUnits hok
    refine ⟨fun file hperm => h.find_eq h' hperm, h.files_perm h', both, hok, fun file hnot => ?_,
      h.files_append h' hboth⟩
    refine (h.find_eq hboth ?_).symm
    rw [naming_append, naming_eq_nil hnot, List.append_nil]

/-- Two units with a file in common, in either order. -/
theorem sampleUnits_reordered :
    ∃ report report', (ofUnits sampleUnits).result = .ok report
      ∧ (ofUnits sampleUnits.reverse).result = .ok report'
      ∧ report.files.map (·.file) = ["main.c", "list.h"]
      ∧ report.files.Perm report'.files ∧ report.find "list.h" = report'.find "list.h" := by
  have hok : ∀ units : List CompilationUnit, (ofUnits units).result.toOption.isSome = true →
      ∃ report, (ofUnits units).result = .ok report := by
    intro units hsome
    cases hresult : (ofUnits units).result with
    | ok report => exact ⟨report, rfl⟩
    | error error =>
      rw [hresult] at hsome
      cases hsome
  obtain ⟨report, hreport⟩ := hok sampleUnits (by decide +kernel)
  obtain ⟨report', hreport'⟩ := hok sampleUnits.reverse (by decide +kernel)
  obtain ⟨-, hlocal⟩ := ofUnits_locality sampleUnits
  obtain ⟨hnames, hothers⟩ := hlocal report hreport
  obtain ⟨hfind, hperm, -⟩ := hothers sampleUnits.reverse report' hreport'
  refine ⟨report, report', hreport, hreport', ?_, hperm ?_, hfind "list.h" ?_⟩
  · rw [hnames]
    decide +kernel
  · exact (List.reverse_perm _).symm.map buffers
  · exact naming_perm ((List.reverse_perm _).symm.map buffers) "list.h"

end Report

end Coverage
