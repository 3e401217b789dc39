import Coverage.Proofs.Aggregation
import Coverage.Proofs.RoundTrip
import Coverage.Proofs.UnitDecoding

/-!
# Executions

Line coverage tells what was executed.  A program that is made of planned units runs: in every
function it walks from the first block to the last, any number of times, and its counters are
written.  The report that is made of the files of the units shows just the lines that blocks list;
a line of one block has as its count how often the block was visited, and a line of several blocks
how often control came to them from elsewhere (`ofUnits_of_walks`).
-/

namespace Coverage

/-! ## What a program does -/

section Program

variable {functions : List FuncPlan} {walks : Nat → List (List Nat)}

/-- Whether a line of a source is attributed to a block. -/
def attributes (functions : List FuncPlan) (place : String × Nat) (owner : BlockRef) : Bool :=
  (functions[owner.func]?).any fun plan => decide (place ∈ plan.attributions owner.block)

/-- The steps of all walks, each from one block to another. -/
def programSteps (functions : List FuncPlan) (walks : Nat → List (List Nat)) :
    List (BlockRef × BlockRef) :=
  functions.zipIdx.flatMap fun (plan, k) =>
    (plan.allSteps (walks k)).map fun arc => (⟨k, arc.src⟩, ⟨k, arc.dst⟩)

/-- How often control comes to one of some blocks from another one. -/
def entrances (functions : List FuncPlan) (walks : Nat → List (List Nat))
    (inside : BlockRef → Bool) : Nat :=
  (programSteps functions walks).countP fun step => !inside step.1 && inside step.2

theorem attributes_eq_true {place : String × Nat} {owner : BlockRef} :
    attributes functions place owner = true
      ↔ ∃ plan, functions[owner.func]? = some plan ∧ place ∈ plan.attributions owner.block := by
  simp [attributes, Option.any_eq_true]

/-- A line is attributed to a block by some entry. -/
theorem exists_entry {place : String × Nat} {owner : BlockRef}
    (h : attributes functions place owner = true) :
    owner.func < functions.length ∧ ∃ entry ∈ (functions[owner.func]?).elim [] (·.lines),
      place ∈ entry.attributions ∧ entry.block = owner.block := by
  obtain ⟨plan, hplan, hplace⟩ := attributes_eq_true.mp h
  obtain ⟨entry, hentry, hattributed⟩ := List.mem_flatMap.mp hplace
  obtain ⟨hentry, hblock⟩ := List.mem_filter.mp hentry
  refine ⟨(List.getElem?_eq_some_iff.mp hplan).1, entry, ?_, hattributed, beq_iff_eq.mp hblock⟩
  rwa [hplan, Option.elim_some]

/-- The steps to a block are those of the walks through its function. -/
theorem countP_programSteps {owner : BlockRef} {plan : FuncPlan}
    (hplan : functions[owner.func]? = some plan) (q : BlockRef → Bool) :
    (programSteps functions walks).countP (fun step => step.2 == owner && q step.1)
      = (plan.allSteps (walks owner.func)).countP fun arc =>
          arc.dst == owner.block && q ⟨owner.func, arc.src⟩ := by
  obtain ⟨k, i⟩ := owner
  have hget : functions.zipIdx[k]? = some (plan, k) := by
    simp [List.getElem?_zipIdx, hplan]
  have hsum := total_countP_flatMap
    (fun step : BlockRef × BlockRef => step.2 == ⟨k, i⟩ && q step.1)
    (fun entry : FuncPlan × Nat => (entry.1.allSteps (walks entry.2)).map fun arc =>
      ((⟨entry.2, arc.src⟩, ⟨entry.2, arc.dst⟩) : BlockRef × BlockRef)) functions.zipIdx
  -- the steps in other functions lead to other blocks
  rw [total_eq_of_single hget] at hsum
  · rw [programSteps, ← Int.natCast_inj, ← hsum, List.countP_map]
    refine congrArg _ (List.countP_congr fun arc _ => ?_)
    simp
  · rintro l ⟨other, l'⟩ hother hne
    obtain ⟨-, rfl⟩ : functions[l]? = some other ∧ l = l' := by
      simpa [List.getElem?_zipIdx] using hother
    rw [List.countP_map, Int.natCast_eq_zero, List.countP_eq_zero]
    intro arc _
    simp [hne]

/-- What comes to single blocks from without adds up. -/
theorem total_entrances {owners : List BlockRef} (hnodup : owners.Nodup) {inside : BlockRef → Bool}
    (hinside : ∀ owner, owner ∈ owners ↔ inside owner = true) :
    total (fun owner => (((programSteps functions walks).countP fun step =>
        step.2 == owner && !inside step.1 : Nat) : Int)) owners
      = entrances functions walks inside := by
  have hsum := total_count hnodup
    (((programSteps functions walks).filter fun step => !inside step.1).map (·.2))
  simp only [List.count, List.countP_map, List.countP_filter, Function.comp_apply, hinside,
    Bool.decide_eq_true] at hsum
  rw [hsum, entrances]
  refine congrArg _ (List.countP_congr fun step _ => ?_)
  rw [Bool.and_comm]

end Program

/-! ## Places -/

section Places

variable {functions : List FuncPlan} {walks : Nat → List (List Nat)} {r : Registry}
  {solved : List Func}

/-- Every block of a function that was run lists what the plan attributes to it. -/
theorem Runs.exists_planned (h : Runs functions walks r solved) {owner : BlockRef} {func : Func}
    {block : Block} (hfunc : solved[owner.func]? = some func)
    (hblock : func.graph.blocks[owner.block]? = some block) :
    ∃ plan, functions[owner.func]? = some plan ∧ plan.SolvedAs (walks owner.func) r func
      ∧ List.Forall₂ r.Locates block.associations (plan.attributions owner.block) := by
  obtain ⟨plan, hplan, hsolved⟩ := h.solvedAs _ func hfunc
  obtain ⟨emitted, hlists⟩ := hsolved.lists _ block hblock
  exact ⟨plan, hplan, hsolved, hlists.located⟩

/-- A block to which a line is attributed is there. -/
theorem Runs.exists_block (h : Runs functions walks r solved)
    (hsound : ∀ plan ∈ functions, plan.Sound) {owner : BlockRef} {plan : FuncPlan}
    (hplan : functions[owner.func]? = some plan) {place : String × Nat}
    (hplace : place ∈ plan.attributions owner.block) :
    ∃ func block, solved[owner.func]? = some func
      ∧ func.graph.blocks[owner.block]? = some block ∧ plan.SolvedAs (walks owner.func) r func
      ∧ List.Forall₂ r.Locates block.associations (plan.attributions owner.block) := by
  have hlt : owner.func < solved.length := h.length ▸ (List.getElem?_eq_some_iff.mp hplan).1
  have hfunc := List.getElem?_eq_getElem hlt
  obtain ⟨plan', hplan', hsolved⟩ := h.solvedAs _ _ hfunc
  obtain rfl : plan = plan' := Option.some.inj (hplan.symm.trans hplan')
  obtain ⟨entry, hentry, -⟩ := List.mem_flatMap.mp hplace
  obtain ⟨hentry, hat⟩ := List.mem_filter.mp hentry
  have hin := (hsound plan (List.mem_of_getElem? hplan)).lines entry hentry
  rw [beq_iff_eq.mp hat, ← hsolved.shapes.size] at hin
  obtain ⟨block, hblock⟩ := FlowGraph.exists_block hin
  obtain ⟨emitted, hlists⟩ := hsolved.lists _ block hblock
  exact ⟨_, block, hfunc, hblock, hsolved, hlists.located⟩

/-- A block lists a place if and only if the line is attributed to it. -/
theorem Runs.lists_iff (h : Runs functions walks r solved)
    (hsound : ∀ plan ∈ functions, plan.Sound) (hnames : r.names.Nodup) {i n : Nat} {file : String}
    (hfile : r.names[i]? = some file) (owner : BlockRef) :
    Lists solved i n owner ↔ attributes functions (file, n) owner = true := by
  rw [attributes_eq_true]
  constructor
  · rintro ⟨func, block, hfunc, hblock, hplace⟩
    obtain ⟨plan, hplan, -, hlocated⟩ := h.exists_planned hfunc hblock
    refine ⟨plan, hplan, ?_⟩
    rw [← List.count_pos_iff, ← Registry.count_of_locates hnames hlocated hfile]
    exact List.count_pos_iff.mpr hplace
  · rintro ⟨plan, hplan, hplace⟩
    obtain ⟨func, block, hfunc, hblock, -, hlocated⟩ := h.exists_block hsound hplan hplace
    refine ⟨func, block, hfunc, hblock, ?_⟩
    rw [← List.count_pos_iff, Registry.count_of_locates hnames hlocated hfile]
    exact List.count_pos_iff.mpr hplace

/-- The source of a line that is attributed to a block is registered. -/
theorem Runs.exists_file (h : Runs functions walks r solved)
    (hsound : ∀ plan ∈ functions, plan.Sound) {place : String × Nat} {owner : BlockRef}
    (hattributes : attributes functions place owner = true) :
    ∃ i : Nat, r.names[i]? = some place.1 := by
  obtain ⟨plan, hplan, hplace⟩ := attributes_eq_true.mp hattributes
  obtain ⟨func, block, -, -, -, hlocated⟩ := h.exists_block hsound hplan hplace
  obtain ⟨k, hk⟩ := List.mem_iff_getElem?.mp hplace
  obtain ⟨position, -, file, hfile, hname, -⟩ := forall₂_getElem? hlocated hk
  exact ⟨position.1, by rw [Registry.names_getElem?, hfile, Option.map_some, hname]⟩

/-- Files admit all lines that blocks list. -/
theorem Runs.admits (h : Runs functions walks r solved) {v : Visit}
    (hv : v ∈ Func.allVisits solved) : r.Admits v.file v.line := by
  obtain ⟨func, block, hfunc, hblock, -, hplace⟩ := Func.mem_allVisits.mp hv
  obtain ⟨plan, -, -, hlocated⟩ := h.exists_planned hfunc hblock
  obtain ⟨k, hk⟩ := List.mem_iff_getElem?.mp hplace
  obtain ⟨named, -, file, hfile, -, -, hlt⟩ := forall₂_getElem? hlocated.flip hk
  exact ⟨file, hfile, hlt⟩

/-- What enters a block from without is how often control comes to it from without. -/
theorem Runs.inflowTo_eq (h : Runs functions walks r solved) {owners : List BlockRef}
    {inside : BlockRef → Bool} (hinside : ∀ owner, owner ∈ owners ↔ inside owner = true)
    {i n : Nat} {owner : BlockRef} (howner : Lists solved i n owner) :
    inflowTo solved owners owner
      = some (((programSteps functions walks).countP fun step =>
          step.2 == owner && !inside step.1 : Nat) : Int) := by
  obtain ⟨func, block, hfunc, hblock, -⟩ := howner
  obtain ⟨plan, hplan, hsolved⟩ := h.solvedAs _ func hfunc
  rw [Coverage.inflowTo_eq hfunc hblock, countP_programSteps hplan fun source => !inside source,
    ← hsolved.total_entries hblock fun source => !inside ⟨owner.func, source⟩]
  refine congrArg some (congrArg (total _) (List.filter_congr fun arc _ => ?_))
  simp [hinside]

/-- A line of one block counts the visits to the block. -/
theorem Runs.tally_of_single (h : Runs functions walks r solved)
    (hsound : ∀ plan ∈ functions, plan.Sound) (hnames : r.names.Nodup) {i n : Nat} {file : String}
    (hfile : r.names[i]? = some file) {owner : BlockRef} {plan : FuncPlan}
    (hplan : functions[owner.func]? = some plan)
    (hplace : (file, n) ∈ plan.attributions owner.block)
    (honly : ∀ other, attributes functions (file, n) other = true → other = owner) :
    (SourceLine.tally solved (visitsAt solved i n)).count
      = (plan.attributions owner.block).count (file, n)
        * plan.visits (walks owner.func) owner.block := by
  obtain ⟨func, block, hfunc, hblock, hsolved, hlocated⟩ := h.exists_block hsound hplan hplace
  have hcount : block.associations.count (i, n) = _ := Registry.count_of_locates hnames hlocated hfile
  have hlists : (i, n) ∈ block.associations :=
    List.count_pos_iff.mp (hcount ▸ List.count_pos_iff.mpr hplace)
  have honly' : ∀ other, Lists solved i n other → other = owner := fun other hother =>
    honly other ((h.lists_iff hsound hnames hfile other).mp hother)
  rw [Coverage.tally_of_single hfunc hblock hlists honly', hcount, hsolved.block _ _ hblock]

/-- A line of several blocks counts how often control comes to them from elsewhere. -/
theorem Runs.tally_of_several (h : Runs functions walks r solved)
    (hsound : ∀ plan ∈ functions, plan.Sound) (hnames : r.names.Nodup) {i n : Nat} {file : String}
    (hfile : r.names[i]? = some file) {owner other : BlockRef}
    (howner : attributes functions (file, n) owner = true)
    (hother : attributes functions (file, n) other = true) (hne : other ≠ owner) :
    (SourceLine.tally solved (visitsAt solved i n)).count
      = entrances functions walks (attributes functions (file, n)) := by
  have hlists := h.lists_iff hsound hnames (n := n) hfile
  have hinside : ∀ o, o ∈ ownersAt solved i n ↔ attributes functions (file, n) o = true :=
    fun o => mem_ownersAt.trans (hlists o)
  rw [Coverage.tally_of_several ((hlists owner).mpr howner) ((hlists other).mpr hother) hne
    fun o ho => h.inflowTo_eq hinside (mem_ownersAt.mp ho),
    total_entrances (nodup_ownersAt _ _ _) hinside]

end Places

/-! ## The report -/

/-- The functions of all units, in order. -/
def program (plans : List UnitPlan) : List FuncPlan :=
  plans.flatMap (·.functions)

/-- Line coverage is faithful to what was executed.  Whatever walks a program of planned units takes
through its functions, if the counters of the units hold how often the arcs off the spanning trees
were taken, then the report on the units shows the lines that are attributed to blocks, and no
others.  The count of a line of one block is how often the block was visited, times how often it
lists the line; that of a line of several blocks is how often control came to one of them from
elsewhere. -/
theorem ofUnits_of_walks {plans : List UnitPlan} {units : List CompilationUnit}
    (hunits : List.Forall₂ UnitPlan.Writes plans units) (hplans : ∀ plan ∈ plans, plan.Regular)
    (walks : Nat → List (List Nat))
    (hran : ∀ (k : Nat) (func : FuncPlan), (program plans)[k]? = some func →
      func.Instrumented ∧ func.RanAs (walks k)) :
    ∃ report, (Report.ofUnits units).result = .ok report
      ∧ (∀ (file : String) (line : Int), (∃ count, report.Shows file line count)
        ↔ ∃ (n : Nat) (owner : BlockRef), line = n
          ∧ attributes (program plans) (file, n) owner = true)
      ∧ ∀ (file : String) (n : Nat) (count : Int), report.Shows file n count →
        (∀ (owner : BlockRef) (func : FuncPlan), (program plans)[owner.func]? = some func →
          (file, n) ∈ func.attributions owner.block →
          (∀ other, attributes (program plans) (file, n) other = true → other = owner) →
          count = (func.attributions owner.block).count (file, n)
            * func.visits (walks owner.func) owner.block)
        ∧ ∀ owner other : BlockRef, attributes (program plans) (file, n) owner = true →
          attributes (program plans) (file, n) other = true → other ≠ owner →
          count = entrances (program plans) walks (attributes (program plans) (file, n)) := by
  have hinstrumented : ∀ func ∈ program plans, func.Instrumented := by
    intro func hfunc
    obtain ⟨k, hk⟩ := List.mem_iff_getElem?.mp hfunc
    exact (hran k func hk).1
  have hblocks : ∀ plan ∈ plans, ∀ func ∈ plan.functions, 0 < func.blockCount := by
    intro plan hplan func hfunc
    have := (hinstrumented func (List.mem_flatMap.mpr ⟨plan, hplan, hfunc⟩)).two_le
    omega
  have hsound : ∀ func ∈ program plans, func.Sound := by
    intro func hfunc
    obtain ⟨plan, hplan, hfunc⟩ := List.mem_flatMap.mp hfunc
    exact ((hplans plan hplan).built func hfunc).sound
  obtain ⟨funcs, hdecode, hcounted, -, hnames⟩ :=
    CompilationUnit.decodeAll_plans hunits hplans hblocks {}
  generalize hr : (CompilationUnit.decodeAll units {}).state = r at hcounted hnames
  have hnodup : r.names.Nodup := hnames ▸ nodup_foldl_enlist List.nodup_nil _
  obtain ⟨hsolve, hruns⟩ := solveAll_counted hcounted hran
  generalize hsolved : (Func.solveAll funcs).state = solved at hruns
  obtain ⟨report, hreport, hshows⟩ := Report.shows_ofFunctions (r := r) hsolve
    (hsolved ▸ fun v hv => hruns.admits hv)
  rw [hsolved] at hshows
  refine ⟨report, ?_, fun file line => ⟨?_, ?_⟩, fun file n count hshown => ?_⟩
  · rw [Report.ofUnits, Outcome.result_bind hdecode, hr, hreport]
  · rintro ⟨count, hshown⟩
    obtain ⟨i, n, hfile, ⟨owner, howner⟩, rfl, -⟩ := (hshows _ _ _).mp hshown
    exact ⟨n, owner, rfl, (hruns.lists_iff hsound hnodup hfile owner).mp howner⟩
  · rintro ⟨n, owner, rfl, howner⟩
    obtain ⟨i, hfile⟩ := hruns.exists_file hsound howner
    exact ⟨_, (hshows _ _ _).mpr ⟨i, n, hfile,
      ⟨owner, (hruns.lists_iff hsound hnodup hfile owner).mpr howner⟩, rfl, rfl⟩⟩
  · obtain ⟨i, n', hfile, -, hn, rfl⟩ := (hshows _ _ _).mp hshown
    obtain rfl : n = n' := Int.natCast_inj.mp hn
    exact ⟨fun owner func hfunc hplace honly =>
        hruns.tally_of_single hsound hnodup hfile hfunc hplace honly,
      fun owner other howner hother hne =>
        hruns.tally_of_several hsound hnodup hfile howner hother hne⟩

/-- A unit whose one function has lines in common with another unit. -/
def sharingPlan : UnitPlan where
  functions :=
    [{ ident := 1, checksum := 5, name := "next", source := "list.h", line := 7, blockCount := 3
       arcs := [{ src := 0, dst := 1, flags := 1 }, { src := 1, dst := 2, count := 3 }]
       lines := [{ block := 1, source := "list.h", numbers := [8, 8, 9] }] }]

theorem sharingPlan_regular : sharingPlan.Regular where
  built := by
    have happly : UnitPlan.applyAll {} [.function "next" "list.h" 7 none 5, .blocks 3,
        .arc 0 1 1 0, .arc 1 2 0 3, .lines 1 [8, 8, 9] none] = .ok sharingPlan := by
      decide
    refine UnitPlan.Built.applyAll (fun _ hfunc => absurd hfunc List.not_mem_nil)
      (fun count hcount => ?_) happly
    simp at hcount
    omega
  encodable := by decide
  nonempty := by decide
  idents := by decide

theorem samplePlan_regular : samplePlan.Regular where
  built := samplePlan_built
  encodable := samplePlan_encodable
  nonempty := by decide
  idents := by decide

/-- Three rounds through the loop of the first function, one call of the second, and three of the
third. -/
def sampleWalks : Nat → List (List Nat)
  | 0 => [[0, 1, 3, 1, 3, 2]]
  | 1 => [[0]]
  | 2 => [[0, 1], [0, 1], [0, 1]]
  | _ => []

theorem sampleWalks_ran (k : Nat) (func : FuncPlan)
    (hfunc : (program [samplePlan, sharingPlan])[k]? = some func) :
    func.Instrumented ∧ func.RanAs (sampleWalks k) := by
  have hk : k < 3 := (List.getElem?_eq_some_iff.mp hfunc).1
  have hcases : k = 0 ∨ k = 1 ∨ k = 2 := by omega
  rcases hcases with rfl | rfl | rfl
  · cases hfunc
    exact ⟨⟨by decide, by decide, by decide, FuncPlan.acyclic_treeEdges
      [.closing, .arc 3, .arc 0] (by decide) (by decide) (by decide)⟩,
      .of_bounded (by decide) (by decide)⟩
  · cases hfunc
    exact ⟨⟨by decide, by decide, by decide, FuncPlan.acyclic_treeEdges
      [.closing] (by decide) (by decide) (by decide)⟩,
      .of_bounded (by decide) (by decide)⟩
  · cases hfunc
    exact ⟨⟨by decide, by decide, by decide, FuncPlan.acyclic_treeEdges
      [.closing, .arc 0] (by decide) (by decide) (by decide)⟩,
      .of_bounded (by decide) (by decide)⟩

/-- The units of both plans. -/
def sampleUnits : List CompilationUnit :=
  [.numbered 0 (some samplePlan.notes) (some samplePlan.data),
    .numbered 1 (some sharingPlan.notes) (some sharingPlan.data)]

theorem sampleUnits_written :
    List.Forall₂ UnitPlan.Writes [samplePlan, sharingPlan] sampleUnits :=
  .cons ⟨rfl, rfl⟩ (.cons ⟨rfl, rfl⟩ .nil)

theorem sampleUnits_reported :
    ∃ report, (Report.ofUnits sampleUnits).result = .ok report
      ∧ report.Shows "main.c" 4 3 ∧ report.Shows "list.h" 8 5
      ∧ ∀ count, ¬ report.Shows "main.c" 6 count := by
  have hregular : ∀ plan ∈ [samplePlan, sharingPlan], plan.Regular := by
    intro plan hplan
    rcases List.mem_cons.mp hplan with rfl | hplan
    · exact samplePlan_regular
    · rw [List.mem_singleton.mp hplan]
      exact sharingPlan_regular
  obtain ⟨report, hreport, hshown, hcounts⟩ :=
    ofUnits_of_walks sampleUnits_written hregular sampleWalks sampleWalks_ran
  refine ⟨report, hreport, ?_, ?_, fun count hcount => ?_⟩
  · obtain ⟨count, hcount⟩ := (hshown "main.c" 4).mpr ⟨4, ⟨0, 1⟩, rfl, by decide⟩
    have honly : ∀ other, attributes (program [samplePlan, sharingPlan]) ("main.c", 4) other = true
        → other = ⟨0, 1⟩ := by
      rintro ⟨k, b⟩ hother
      obtain ⟨hk, entry, hentry, hplace, rfl⟩ := exists_entry hother
      have hall : ∀ k < 3, ∀ entry ∈ ((program [samplePlan, sharingPlan])[k]?).elim [] (·.lines),
          ("main.c", 4) ∈ entry.attributions → (⟨k, entry.block⟩ : BlockRef) = ⟨0, 1⟩ := by
        decide
      exact hall k hk entry hentry hplace
    have hthree : count = 3 := (hcounts "main.c" 4 count hcount).1 ⟨0, 1⟩ _ rfl (by decide) honly
    exact hthree ▸ hcount
  · obtain ⟨count, hcount⟩ := (hshown "list.h" 8).mpr ⟨8, ⟨0, 2⟩, rfl, by decide⟩
    have hfive : count = 5 := (hcounts "list.h" 8 count hcount).2 ⟨0, 2⟩ ⟨2, 1⟩ (by decide)
      (by decide) (by decide)
    exact hfive ▸ hcount
  · obtain ⟨n, ⟨k, b⟩, hn, howner⟩ := (hshown "main.c" 6).mp ⟨count, hcount⟩
    obtain rfl : 6 = n := Int.natCast_inj.mp hn
    obtain ⟨hk, entry, hentry, hplace, -⟩ := exists_entry howner
    have hnone : ∀ k < 3, ∀ entry ∈ ((program [samplePlan, sharingPlan])[k]?).elim [] (·.lines),
        ("main.c", 6) ∉ entry.attributions := by
      decide
    exact hnone k hk entry hentry hplace

end Coverage
