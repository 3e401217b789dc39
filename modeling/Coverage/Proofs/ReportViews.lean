import Coverage.Proofs.Listings
import Coverage.Proofs.UnitsApart
import Coverage.Proofs.Merging

/-!
# The views of a report

A report is shown in four ways, each of which goes through its files anew: as figures, in total and
file by file, as a flat list of records, and as listings of all lines and of the missed ones.  What
they have in common is that the figures of a file fit its lines (`FileCoverage.Consistent`), which
is so of all files of a report on units.  Listings are text, and `Prints` says what stands in it.
So all views tell of the same lines, whatever the report is filtered by (`Report.views_agree`).
-/

namespace Coverage

open Text

/-! ## Filters -/

/-- Whether a name passes a filter: it contains the text, upper and lower case being the same. -/
def PassesFilter (filter : Option String) (name : String) : Prop :=
  ∀ text ∈ filter, (lower text).toList <:+: (lower name).toList

instance (filter : Option String) : DecidablePred (PassesFilter filter) :=
  fun name => inferInstanceAs (Decidable (∀ text ∈ filter,
    (lower text).toList <:+: (lower name).toList))

/-- Every name contains the empty text. -/
theorem passesFilter_empty (name : String) : PassesFilter (some "") name := by
  rintro text ⟨⟩
  exact List.nil_infix

theorem Report.files_filterByFile (report : Report) (text : String) :
    (report.filterByFile text).files
      = report.files.filter fun f => PassesFilter (some text) f.file := by
  refine List.filter_congr fun f _ => Bool.eq_iff_iff.mpr ?_
  simp [PassesFilter, occurs_iff]

/-- The files that are shown are those of which the name passes the filter. -/
theorem Report.files_filterBy? (report : Report) (filter : Option String) :
    (report.filterBy? filter).files = report.files.filter fun f => PassesFilter filter f.file := by
  cases filter with
  | none => simp [filterBy?, PassesFilter]
  | some text =>
    rw [filterBy?]
    split
    · next hempty =>
      rw [String.isEmpty_iff.mp hempty]
      simp [passesFilter_empty]
    · exact report.files_filterByFile text

/-! ## One file -/

namespace FileCoverage

/-- The figures of a file fit its lines, which are in ascending order. -/
structure Consistent (coverage : FileCoverage) : Prop where
  ascending : (coverage.lines.map (·.line)).Pairwise (· < ·)
  instrumented : coverage.instrumented = coverage.lines.length
  executed : coverage.executed = coverage.lines.countP (·.executed)

variable {coverage : FileCoverage}

/-- A line is executed or missed. -/
theorem Consistent.executed_add_missed (h : coverage.Consistent) :
    coverage.executed + coverage.missedLines.length = coverage.instrumented := by
  have hsplit : coverage.lines.length
      = coverage.lines.countP (·.executed) + coverage.lines.countP (!·.executed) := by
    simpa using coverage.lines.length_eq_countP_add_countP (·.executed)
  rw [h.executed, h.instrumented, missedLines, List.length_map, ← List.countP_eq_length_filter]
  omega

theorem Consistent.pairwise_missedLines (h : coverage.Consistent) :
    coverage.missedLines.Pairwise (· < ·) := by
  have hlines := List.pairwise_map.mp h.ascending
  exact List.pairwise_map.mpr (hlines.filter _)

end FileCoverage

/-- The coverage of a file of a registry is consistent. -/
theorem SourceFile.consistent_coverage (file : SourceFile) : file.coverage.Consistent where
  ascending := file.pairwise_lineCoverage
  instrumented := rfl
  executed := rfl

/-! ## All files -/

namespace Report

variable {report : Report} {filter : Option String} {units : List CompilationUnit}

/-- All files of a report on units are consistent. -/
theorem consistent_of_ofUnits (h : (ofUnits units).result = .ok report) :
    ∀ f ∈ report.files, f.Consistent := by
  obtain ⟨r, r', solved, hreport, -⟩ := ofUnits_of_solves (isOk_ofUnits.mp ⟨report, h⟩)
  obtain rfl := Except.ok.inj (h.symm.trans hreport)
  intro f hf
  obtain ⟨file, -, rfl⟩ := List.mem_map.mp hf
  exact file.consistent_coverage

/-- There is a record for every instrumented line. -/
theorem length_records (h : ∀ f ∈ report.files, f.Consistent) :
    (report.records.length : Int) = report.instrumented := by
  have hfiles : report.instrumented
      = total (fun f => ((f.lines.map fun l => Record.mk f.file l.line l.executed).countP
          fun _ => true : Int)) report.files := by
    refine total_congr fun f hf => ?_
    simp [(h f hf).instrumented]
  rw [hfiles, total_countP_flatMap, List.countP_true]
  rfl

/-- The records of executed lines are as many as the report tells. -/
theorem countP_executed_records (h : ∀ f ∈ report.files, f.Consistent) :
    ((report.records.countP (·.executed) : Nat) : Int) = report.executed := by
  rw [records, ← total_countP_flatMap, executed]
  refine total_congr fun f hf => ?_
  simp [(h f hf).executed, List.countP_map, Function.comp_def]

/-- The records of missed lines are the missed lines of the files, one file after another. -/
theorem missed_records (report : Report) :
    (report.records.filter (!·.executed)).map (fun r => (r.file, r.line))
      = report.files.flatMap fun f => f.missedLines.map (f.file, ·) := by
  rw [records, List.filter_flatMap, List.map_flatMap]
  simp [FileCoverage.missedLines, List.filter_map, Function.comp_def]

/-- `r.ShownBy (name, row)`: under the name of the file of the record a row shows its line, with
some count. -/
def Record.ShownBy (r : Record) (entry : String × String) : Prop :=
  entry.1 = r.file
    ∧ ∃ count, LineCoverage.ShownBy { line := r.line, executed := r.executed, count } entry.2

/-- The rows of a full listing show the records one by one. -/
theorem records_shown (report : Report) :
    List.Forall₂ Record.ShownBy report.records
      ((report.files.map (·.page false)).flatMap fun page => page.rows.map (page.file, ·)) := by
  have hrows : ∀ f ∈ report.files, List.Forall₂ Record.ShownBy
      (f.lines.map fun l => ⟨f.file, l.line, l.executed⟩)
      ((f.page false).rows.map (f.file, ·)) := by
    intro f _
    rw [List.forall₂_map_left_iff, List.forall₂_map_right_iff]
    exact f.page_shows_lines.rows.imp fun l row hrow => ⟨rfl, l.count, hrow⟩
  rw [records, List.flatMap_map]
  revert hrows
  induction report.files with
  | nil => exact fun _ => .nil
  | cons f files ih =>
    intro hrows
    obtain ⟨hf, hfiles⟩ := List.forall_mem_cons.mp hrows
    rw [List.flatMap_cons, List.flatMap_cons]
    exact List.rel_append hf (ih hfiles)

/-! ## The views -/

/-- The views of a report, filtered by a text or not, account for the same lines. -/
structure ViewsAgree (report : Report) (filter : Option String) : Prop where
  /-- The files that are shown are those of which the name passes the filter, as they are. -/
  shown : (report.filterBy? filter).files = report.files.filter fun f => PassesFilter filter f.file
  /-- A report that was restricted beforehand has the same files. -/
  restricted : ∀ text ∈ filter, (report.filterByFile text).files = (report.filterBy? filter).files
  /-- The figures are those of the files that are shown, in their order. -/
  figures : (report.summary filter).files
    = (report.files.filter fun f => PassesFilter filter f.file).map (·.summary)
  /-- In every file, the lines are executed or missed. -/
  accounted : ∀ s ∈ (report.summary filter).files,
    s.executed + s.missedLines.length = s.instrumented
  /-- In every file, the missed lines are in ascending order. -/
  ascending : ∀ s ∈ (report.summary filter).files, s.missedLines.Pairwise (· < ·)
  /-- The files are counted that figures are given for. -/
  fileCount : (report.summary filter).fileCount = (report.summary filter).files.length
  /-- The totals are the sums over these files. -/
  instrumented : (report.summary filter).instrumented
    = total (·.instrumented) (report.summary filter).files
  executed : (report.summary filter).executed = total (·.executed) (report.summary filter).files
  /-- There is a record for every instrumented line. -/
  records : ((report.filterBy? filter).records.length : Int) = (report.summary filter).instrumented
  /-- The records that are flagged are those of executed lines. -/
  flagged : (((report.filterBy? filter).records.countP (·.executed) : Nat) : Int)
    = (report.summary filter).executed
  /-- The other records are those of the missed lines, in their order. -/
  missed : ((report.filterBy? filter).records.filter (!·.executed)).map (fun r => (r.file, r.line))
    = (report.summary filter).files.flatMap fun s => s.missedLines.map (s.file, ·)
  /-- The listing of missed lines has a page for every file, with a row for each of its missed
  lines. -/
  missedListing : ∃ pages, Prints pages (report.lineListing filter true)
    ∧ List.Forall₂ (fun page s =>
        page.Shows s.file (s.missedLines.map fun line => { line, executed := false }))
      pages (report.summary filter).files
  /-- The full listing has a page for every file, with a row for each of its lines, and the rows
  show the records one by one. -/
  listing : ∃ pages, Prints pages (report.lineListing filter false)
    ∧ List.Forall₂ (fun page f => page.Shows f.file f.lines) pages (report.filterBy? filter).files
    ∧ pages.map (fun page => (page.file, (page.rows.length : Int)))
      = (report.summary filter).files.map (fun s => (s.file, s.instrumented))
    ∧ List.Forall₂ Record.ShownBy (report.filterBy? filter).records
        (pages.flatMap fun page => page.rows.map (page.file, ·))

/-- The views of a report on units agree, whatever it is filtered by. -/
theorem views_agree (h : (ofUnits units).result = .ok report) (filter : Option String) :
    report.ViewsAgree filter := by
  have hconsistent : ∀ f ∈ (report.filterBy? filter).files, f.Consistent := by
    intro f hf
    rw [files_filterBy?] at hf
    exact consistent_of_ofUnits h f (List.mem_of_mem_filter hf)
  have hfigures : (report.summary filter).files
      = (report.filterBy? filter).files.map (·.summary) := rfl
  exact
    { shown := report.files_filterBy? filter
      restricted := by
        rintro text ⟨⟩
        rw [files_filterByFile, files_filterBy?]
      figures := by rw [hfigures, files_filterBy?]
      accounted := by
        rw [hfigures, List.forall_mem_map]
        exact fun f hf => (hconsistent f hf).executed_add_missed
      ascending := by
        rw [hfigures, List.forall_mem_map]
        exact fun f hf => (hconsistent f hf).pairwise_missedLines
      fileCount := by simp [summary]
      instrumented := by
        rw [hfigures, total_map]
        rfl
      executed := by
        rw [hfigures, total_map]
        rfl
      records := length_records hconsistent
      flagged := countP_executed_records hconsistent
      missed := by
        rw [missed_records, hfigures, List.flatMap_map]
        rfl
      missedListing := by
        refine ⟨_, report.prints_lineListing filter true, ?_⟩
        rw [hfigures, List.forall₂_map_left_iff, List.forall₂_map_right_iff, List.forall₂_same]
        exact fun f _ => f.page_shows_missedLines
      listing := by
        refine ⟨_, report.prints_lineListing filter false, ?_, ?_, records_shown _⟩
        · rw [List.forall₂_map_left_iff, List.forall₂_same]
          exact fun f _ => f.page_shows_lines
        · rw [hfigures, List.map_map, List.map_map]
          refine List.map_congr_left fun f hf => ?_
          have hrows := f.page_shows_lines.rows.length_eq
          rw [Function.comp_apply, ← hrows, ← (hconsistent f hf).instrumented]
          rfl }

/-- A unit of which all lines are executed, and another that comes twice, of which no line is. -/
def halfMissedUnits : List CompilationUnit :=
  [.numbered 0 (some samplePlan.notes) (some samplePlan.data), probeUnit, probeUnit]

/-- A filter in upper case shows the file that was missed. -/
theorem halfMissedUnits_views :
    ∃ report, (ofUnits halfMissedUnits).result = .ok report
      ∧ report.records =
        [⟨"main.c", 4, true⟩, ⟨"main.c", 5, true⟩, ⟨"list.h", 8, true⟩, ⟨"list.h", 9, true⟩,
          ⟨"probe.h", 5, false⟩]
      ∧ PassesFilter (some "PROBE") "probe.h" ∧ ¬ PassesFilter (some "PROBE") "main.c"
      ∧ report.lineListing (some "PROBE") true = "probe.h\n       #####       5\n\n"
      ∧ report.ViewsAgree (some "PROBE") := by
  have hcomputed : (ofUnits halfMissedUnits).result.map
      (fun report => (report.records, report.lineListing (some "PROBE") true)) = .ok
      ([⟨"main.c", 4, true⟩, ⟨"main.c", 5, true⟩, ⟨"list.h", 8, true⟩, ⟨"list.h", 9, true⟩,
        ⟨"probe.h", 5, false⟩], "probe.h\n       #####       5\n\n") := by
    decide +kernel
  obtain ⟨report, hreport, hviews⟩ := exists_report hcomputed
  obtain ⟨hrecords, hlisting⟩ := Prod.mk.inj hviews
  exact ⟨report, hreport, hrecords, by decide +kernel, by decide +kernel, hlisting,
    views_agree hreport (some "PROBE")⟩

end Report

end Coverage
