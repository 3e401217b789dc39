import Coverage.Proofs.Listers
import Coverage.Proofs.Tables

/-!
# What is told of a file

A summary is told by what blocks list and count, without tables of lines and without passes over
them (`FileCoverage.Tells`): which lines of a file are instrumented, and how often control came to
each of them.  Collecting and counting lead to just this summary, whatever tables there were before,
and doing both again changes nothing (`Registry.summarize_tells`).
-/

namespace Coverage

/-! ## The reference -/

/-- `coverage.Tells functions i`: the coverage is that of the file at the position `i`, as the
blocks of the functions have it. -/
structure FileCoverage.Tells (coverage : FileCoverage) (functions : List Func) (i : Nat) :
    Prop where
  ascending : (coverage.lines.map (·.line)).Pairwise (· < ·)
  listed : ∀ line : Int, line ∈ coverage.lines.map (·.line)
    ↔ ∃ (n : Nat) (owner : BlockRef), line = n ∧ Lists functions i n owner
  /-- A line of a single block counts with the block, as often as the block lists it. -/
  single : ∀ l ∈ coverage.lines, ∀ (n : Nat) (owner : BlockRef) (func : Func) (block : Block),
    l.line = n → functions[owner.func]? = some func →
    func.graph.blocks[owner.block]? = some block → (i, n) ∈ block.associations →
    (∀ other, Lists functions i n other → other = owner) →
    l.count = block.associations.count (i, n) * block.count
  /-- A line of several blocks counts the arcs into one of them from a block of the same function
  that does not list the line. -/
  shared : ∀ l ∈ coverage.lines, ∀ (n : Nat) (owner other : BlockRef), l.line = n →
    Lists functions i n owner → Lists functions i n other → other ≠ owner →
    l.count = total (fun func =>
      total (func.inflowBeyond (func.listers i n)) (func.listers i n)) functions
  executed_iff : ∀ l ∈ coverage.lines, l.executed = true ↔ 0 < l.count
  instrumented : coverage.instrumented = coverage.lines.length
  executed : coverage.executed = coverage.lines.countP (·.executed)

/-! ## The count of a shared line -/

/-- A line that several blocks list counts what enters them from without, function by function. -/
theorem tally_of_listers {functions : List Func} {i n : Nat} {owner other : BlockRef}
    (howner : Lists functions i n owner) (hother : Lists functions i n other)
    (hne : other ≠ owner) :
    (SourceLine.tally functions (visitsAt functions i n)).count = total (fun func =>
      total (func.inflowBeyond (func.listers i n)) (func.listers i n)) functions := by
  rw [tally_of_shared howner hother hne, externalInflow_ownersAt, Option.getD_some]

namespace Registry

variable {r r' r₁ r₂ : Registry} {functions : List Func}

/-! ## Doing it again -/

/-- Tables that start afresh do not depend on what they held. -/
theorem resetLines_of_bare (h : r'.bare = r.bare) : r'.resetLines = r.resetLines := by
  have hbare : ∀ r : Registry, r.bare.resetLines = r.resetLines := by
    intro r
    simp [bare, resetLines, SourceFile.bare, SourceFile.resetLines, Function.comp_def]
  rw [← hbare, h, hbare]

/-- Collecting does not depend on the tables that there were before. -/
theorem collectLines_of_bare (h : r'.bare = r.bare) (functions : List Func) :
    r'.collectLines functions = r.collectLines functions := by
  rw [collectLines, collectLines, resetLines_of_bare h]

/-- Collecting and counting leave all but the tables as it was. -/
theorem bare_of_counted (hcollect : r.collectLines functions = .ok r₁ ())
    (hcount : r₁.accumulateCounts functions = .ok r₂ ()) : r₂.bare = r.bare := by
  have hfirst := r.bare_collectLines functions
  have hsecond := (Prod.mk.inj (r₁.keeps_accumulateCounts functions)).1
  rw [hcollect] at hfirst
  rw [hcount] at hsecond
  exact hsecond.trans hfirst

/-! ## Summaries -/

theorem map_file_summarize (r : Registry) : r.summarize.map (·.file) = r.names := by
  simp [summarize, names, SourceFile.coverage, FileCoverage.ofLines, Function.comp_def]

/-- The coverage of a file whose lines have come to what the visits to them add up to. -/
theorem tells_coverage (hadmits : r.AdmitsAll functions)
    (hlines : ∀ i n, r'.line? i n = (r.resetLines.line? i n).map fun _ =>
      .tally functions (visitsAt functions i n)) {i : Nat} {file : SourceFile}
    (hfile : r'.files[i]? = some file) : file.coverage.Tells functions i := by
  have hline : ∀ n : Nat, file.lines[n]? = r'.line? i n := by
    intro n
    simp [line?, hfile]
  have hmem : ∀ l ∈ file.lineCoverage, ∃ n : Nat, l.line = n
      ∧ (∃ owner, Lists functions i n owner)
      ∧ l.count = (SourceLine.tally functions (visitsAt functions i n)).count
      ∧ (l.executed = true ↔ 0 < l.count) := by
    intro l hl
    obtain ⟨n, line, hentry, hinstrumented, rfl⟩ := SourceFile.mem_lineCoverage.mp hl
    rw [hline, hlines] at hentry
    obtain ⟨_, -, rfl⟩ := Option.map_eq_some_iff.mp hentry
    exact ⟨n, rfl, instrumented_tally.mp hinstrumented, rfl, decide_eq_true_iff⟩
  have hcount : ∀ l ∈ file.lineCoverage, ∀ n : Nat, l.line = n →
      l.count = (SourceLine.tally functions (visitsAt functions i n)).count := by
    intro l hl n hn
    obtain ⟨m, hm, -, hcount, -⟩ := hmem l hl
    obtain rfl : m = n := Int.ofNat_inj.mp (hm.symm.trans hn)
    exact hcount
  refine {
    ascending := file.pairwise_lineCoverage
    listed := fun line => ⟨fun hmem' => ?_, ?_⟩
    single := fun l hl n owner func block hn hfunc hblock hplace honly => ?_
    shared := fun l hl n owner other hn howner hother hne => ?_
    executed_iff := fun l hl => ?_
    instrumented := rfl
    executed := rfl }
  · obtain ⟨l, hl, rfl⟩ := List.mem_map.mp hmem'
    obtain ⟨n, hn, ⟨owner, howner⟩, -, -⟩ := hmem l hl
    exact ⟨n, owner, hn, howner⟩
  · rintro ⟨n, owner, rfl, howner⟩
    refine List.mem_map.mpr ⟨_, SourceFile.mem_lineCoverage.mpr ⟨n, _, ?_,
      instrumented_tally.mpr ⟨owner, howner⟩, rfl⟩, rfl⟩
    rw [hline, hlines, resetLines_line?, if_pos (hadmits i n owner howner), Option.map_some]
  · rw [hcount l hl n hn]
    exact tally_of_single hfunc hblock hplace honly
  · rw [hcount l hl n hn]
    exact tally_of_listers howner hother hne
  · obtain ⟨n, -, -, -, hexecuted⟩ := hmem l hl
    exact hexecuted

/-- Collecting and counting end well where files admit all lines that blocks list, whatever their
tables held before.  Then the summary has one entry for every file, in the order of registration,
and tells of it what the blocks of the functions list and count.  Collecting and counting again
lead to the same tables. -/
theorem summarize_tells (functions : List Func) (r : Registry) (hadmits : r.AdmitsAll functions) :
    ∃ r₁ r₂, r.collectLines functions = .ok r₁ () ∧ r₁.accumulateCounts functions = .ok r₂ ()
      ∧ r₂.summarize.map (·.file) = r.names
      ∧ (∀ (i : Nat) (coverage : FileCoverage), r₂.summarize[i]? = some coverage →
        coverage.Tells functions i)
      ∧ ((r₂.collectLines functions).bind fun again _ => again.accumulateCounts functions)
        = .ok r₂ () := by
  obtain ⟨r₁, r₂, hcollect, hcount, hnames, hlines⟩ :=
    count_lines (admitsAll_iff.mp hadmits)
  refine ⟨r₁, r₂, hcollect, hcount, ?_, fun i coverage hcoverage => ?_, ?_⟩
  · rw [map_file_summarize, hnames]
  · rw [summarize, List.getElem?_map, Array.getElem?_toList] at hcoverage
    obtain ⟨file, hfile, rfl⟩ := Option.map_eq_some_iff.mp hcoverage
    exact tells_coverage hadmits hlines hfile
  · have hagain := collectLines_of_bare (bare_of_counted hcollect hcount) functions
    rw [hagain, hcollect, Outcome.ok_bind, hcount]

end Registry

/-- Two functions that share the line 5 of a file.  The first one lists its line 3 twice, and goes
round in a loop on line 5 and in a header. -/
def pollFunctions : List Func :=
  [ { ident := 1, checksum := 0, name := "poll", source := "poll.c", firstLine := 3
      graph :=
        { blocks :=
            #[{ exits := [0], lines := [0, 0, 3, 3], count := 2 },
              { exits := [1], entries := [0, 1], lines := [0, 0, 5, 0, 1, 7], count := 6 }]
          arcs := #[{ src := 0, dst := 1, count := 2 }, { src := 1, dst := 1, count := 4 }] } },
    { ident := 2, checksum := 0, name := "peek", source := "poll.c", firstLine := 4
      graph :=
        { blocks :=
            #[{ exits := [0], lines := [0, 0, 4], count := 1 },
              { entries := [0], lines := [0, 0, 5], count := 1 }]
          arcs := #[{ src := 0, dst := 1, count := 1 }] } } ]

/-- The files of these functions, one of them with a table that was left from before. -/
def pollRegistry : Registry where
  files :=
    #[{ name := "poll.c", index := 0, lineCount := 6,
        lines := #[{}, { instrumented := true, count := 9 }] },
      { name := "poll.h", index := 1, lineCount := 8 }]

/-- Line 3 counts twice what its block counts, and line 5 what enters it from lines 3 and 4. -/
theorem pollRegistry_summarized :
    pollRegistry.AdmitsAll pollFunctions ∧ ∃ r₁ r₂ coverage,
      pollRegistry.collectLines pollFunctions = .ok r₁ ()
        ∧ r₁.accumulateCounts pollFunctions = .ok r₂ ()
        ∧ r₂.summarize[0]? = some coverage ∧ coverage.file = "poll.c"
        ∧ (∀ n : Nat, n ∈ [3, 5] → (n : Int) ∈ coverage.lines.map (·.line))
        ∧ ∀ l ∈ coverage.lines, (l.line = 3 → l.count = 4) ∧ (l.line = 5 → l.count = 3) := by
  have hadmits : pollRegistry.AdmitsAll pollFunctions := by decide
  have hthree : ownersAt pollFunctions 0 3 = [⟨0, 0⟩] := by decide
  have hfive : ownersAt pollFunctions 0 5 = [⟨0, 1⟩, ⟨1, 1⟩] := by decide
  have hlists : ∀ (n : Nat) (owner : BlockRef), owner ∈ ownersAt pollFunctions 0 n →
      Lists pollFunctions 0 n owner := fun n owner => mem_ownersAt.mp
  obtain ⟨r₁, r₂, hcollect, hcount, hfiles, htells, -⟩ :=
    Registry.summarize_tells pollFunctions pollRegistry hadmits
  have hfirst : (r₂.summarize.map (·.file))[0]? = some "poll.c" := by
    rw [hfiles]
    decide
  rw [List.getElem?_map] at hfirst
  obtain ⟨coverage, hcoverage, hname⟩ := Option.map_eq_some_iff.mp hfirst
  have hcover := htells 0 coverage hcoverage
  refine ⟨hadmits, r₁, r₂, coverage, hcollect, hcount, hcoverage, hname,
    fun n hn => (hcover.listed n).mpr ?_, fun l hl => ⟨fun hline => ?_, fun hline => ?_⟩⟩
  · rcases List.mem_pair.mp hn with rfl | rfl
    · exact ⟨3, ⟨0, 0⟩, rfl, hlists 3 _ (by rw [hthree]; decide)⟩
    · exact ⟨5, ⟨0, 1⟩, rfl, hlists 5 _ (by rw [hfive]; decide)⟩
  · refine hcover.single l hl 3 ⟨0, 0⟩ _ _ hline rfl rfl (by decide) fun other hother => ?_
    rw [← mem_ownersAt, hthree, List.mem_singleton] at hother
    exact hother
  · exact hcover.shared l hl 5 ⟨0, 1⟩ ⟨1, 1⟩ hline (hlists 5 _ (by rw [hfive]; decide))
      (hlists 5 _ (by rw [hfive]; decide)) (by decide)

end Coverage
