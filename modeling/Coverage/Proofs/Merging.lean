import Coverage.Proofs.Executions

/-!
# Merging units

A line is executed if control came to one of its blocks from elsewhere, or if its only block is
the first of a function that was called (`Report.executes_of_walks`).  The second way is needed
because control comes to a first block along no arc.  Control that came to a line in some units
still does when a unit is added to them, but a line that only the first block of a function had is
then one of several blocks, and the call of the function counts no more.  So the lines that stay
executed are all others, and of these the ones that control comes to in the added unit
(`Report.executes_append`).
-/

namespace Coverage

/-! ## Coming to a block -/

namespace FuncPlan

variable {plan : FuncPlan} {walks : List (List Nat)}

/-- A walk that comes to a block other than the one where it starts comes there from elsewhere. -/
theorem exists_step_into {i j : Nat} {walk : List Nat} (h : Leads plan.orderedArcs i walk j)
    {block : Nat} (hne : i ≠ block) (hmem : block ∈ (plan.steps walk).map (·.dst)) :
    ∃ arc ∈ plan.steps walk, arc.dst = block ∧ arc.src ≠ block := by
  induction h with
  | nil i => cases hmem
  | @cons id j arc walk harc _ ih =>
    have hsteps : plan.steps (id :: walk) = arc :: plan.steps walk := by
      rw [steps, List.filterMap_cons, harc]
      rfl
    rw [hsteps] at hmem ⊢
    by_cases hdst : arc.dst = block
    · exact ⟨arc, List.mem_cons_self, hdst, hne⟩
    · rcases List.mem_cons.mp hmem with heq | hmem
      · exact absurd heq.symm hdst
      · obtain ⟨later, hlater, h⟩ := ih hdst hmem
        exact ⟨later, List.mem_cons_of_mem _ hlater, h⟩

/-- Blocks are visited along arcs from other blocks, but for the first, where walks start. -/
theorem RanAs.visits_pos_iff (h : plan.RanAs walks) {block : Nat} :
    0 < plan.visits walks block ↔ (∃ arc ∈ plan.allSteps walks, arc.dst = block ∧ arc.src ≠ block)
      ∨ block = 0 ∧ walks ≠ [] := by
  simp only [visits, List.count_pos_iff, List.mem_flatMap, path, List.mem_cons, allSteps]
  constructor
  · rintro ⟨walk, hwalk, hvisit⟩
    by_cases hzero : block = 0
    · exact .inr ⟨hzero, List.ne_nil_of_mem hwalk⟩
    · obtain ⟨arc, harc, hinto⟩ := exists_step_into (h.leads walk hwalk) (Ne.symm hzero)
        (hvisit.resolve_left hzero)
      exact .inl ⟨arc, ⟨walk, hwalk, harc⟩, hinto⟩
  · rintro (⟨arc, ⟨walk, hwalk, harc⟩, rfl, -⟩ | ⟨rfl, hwalks⟩)
    · exact ⟨walk, hwalk, .inr (List.mem_map_of_mem harc)⟩
    · obtain ⟨walk, hwalk⟩ := List.exists_mem_of_ne_nil _ hwalks
      exact ⟨walk, hwalk, .inl rfl⟩

end FuncPlan

/-! ## Coming to a line -/

section Lines

variable {functions : List FuncPlan} {walks : Nat → List (List Nat)} {place : String × Nat}
  {owner : BlockRef}

/-- The block is the only one to which the line is attributed. -/
def OnlyAt (functions : List FuncPlan) (place : String × Nat) (owner : BlockRef) : Prop :=
  ∀ other, attributes functions place other = true ↔ other = owner

/-- The line is attributed to nothing but the first block of some function. -/
def OnlyAtEntry (functions : List FuncPlan) (place : String × Nat) : Prop :=
  ∃ owner, owner.block = 0 ∧ OnlyAt functions place owner

/-- Control comes to the line: from elsewhere, or with the call of the function whose first block is
the only one of the line. -/
def Reaches (functions : List FuncPlan) (walks : Nat → List (List Nat)) (place : String × Nat) :
    Prop :=
  0 < entrances functions walks (attributes functions place)
    ∨ ∃ owner, owner.block = 0 ∧ OnlyAt functions place owner ∧ walks owner.func ≠ []

/-- What comes to the only block of a line is what the walks through its function do. -/
theorem OnlyAt.entrances_eq (h : OnlyAt functions place owner) {plan : FuncPlan}
    (hplan : functions[owner.func]? = some plan) :
    entrances functions walks (attributes functions place)
      = (plan.allSteps (walks owner.func)).countP fun arc =>
          arc.dst == owner.block && !arc.src == owner.block := by
  have hinside : attributes functions place = (· == owner) := by
    funext other
    rw [Bool.eq_iff_iff, h other, beq_iff_eq]
  rw [entrances, hinside]
  refine Eq.trans (List.countP_congr fun step _ => by rw [Bool.and_comm])
    ((countP_programSteps hplan fun source => !source == owner).trans ?_)
  refine List.countP_congr fun arc _ => ?_
  obtain ⟨k, i⟩ := owner
  simp

/-- The only block of a line is visited if control comes to the line. -/
theorem OnlyAt.visits_pos_iff (h : OnlyAt functions place owner) {plan : FuncPlan}
    (hplan : functions[owner.func]? = some plan) (hran : plan.RanAs (walks owner.func)) :
    0 < plan.visits (walks owner.func) owner.block ↔ Reaches functions walks place := by
  have hentry : (∃ entry : BlockRef, entry.block = 0 ∧ OnlyAt functions place entry
      ∧ walks entry.func ≠ []) ↔ owner.block = 0 ∧ walks owner.func ≠ [] := by
    constructor
    · rintro ⟨entry, hzero, honly, hcalled⟩
      obtain rfl : entry = owner := (h entry).mp ((honly entry).mpr rfl)
      exact ⟨hzero, hcalled⟩
    · exact fun ⟨hzero, hcalled⟩ => ⟨owner, hzero, h, hcalled⟩
  rw [hran.visits_pos_iff, Reaches, hentry, h.entrances_eq hplan, List.countP_pos_iff]
  simp

/-- Control comes only to lines that are attributed to blocks. -/
theorem Reaches.exists_owner (h : Reaches functions walks place) :
    ∃ owner, attributes functions place owner = true := by
  rcases h with h | ⟨owner, -, honly, -⟩
  · obtain ⟨step, -, hstep⟩ := List.countP_pos_iff.mp h
    exact ⟨step.2, (Bool.and_eq_true_iff.mp hstep).2⟩
  · exact ⟨owner, (honly owner).mpr rfl⟩

/-- A line of several blocks has no only block. -/
theorem not_onlyAt {other : BlockRef} (howner : attributes functions place owner = true)
    (hother : attributes functions place other = true) (hne : other ≠ owner) (only : BlockRef) :
    ¬ OnlyAt functions place only :=
  fun h => hne (((h other).mp hother).trans ((h owner).mp howner).symm)

end Lines

/-! ## Executed lines -/

/-- A line of an instrumented program counts something if and only if control came to it. -/
theorem Runs.tally_pos_iff {functions : List FuncPlan} {walks : Nat → List (List Nat)}
    {r : Registry} {solved : List Func} (h : Runs functions walks r solved)
    (hsound : ∀ plan ∈ functions, plan.Sound)
    (hran : ∀ (k : Nat) (plan : FuncPlan), functions[k]? = some plan → plan.RanAs (walks k))
    (hnames : r.names.Nodup) {i n : Nat} {file : String} (hfile : r.names[i]? = some file)
    {owner : BlockRef} (howner : attributes functions (file, n) owner = true) :
    0 < (SourceLine.tally solved (visitsAt solved i n)).count
      ↔ Reaches functions walks (file, n) := by
  by_cases honly : ∀ other, attributes functions (file, n) other = true → other = owner
  · obtain ⟨plan, hplan, hplace⟩ := attributes_eq_true.mp howner
    have hat : OnlyAt functions (file, n) owner := fun other =>
      ⟨honly other, fun heq => heq ▸ howner⟩
    have hlisted : 0 < ((plan.attributions owner.block).count (file, n) : Int) :=
      Int.natCast_pos.mpr (List.count_pos_iff.mpr hplace)
    rw [h.tally_of_single hsound hnames hfile hplan hplace honly, mul_pos_iff_of_pos_left hlisted,
      Int.natCast_pos]
    exact hat.visits_pos_iff hplan (hran _ plan hplan)
  · push Not at honly
    obtain ⟨other, hother, hne⟩ := honly
    rw [h.tally_of_several hsound hnames hfile howner hother hne, Int.natCast_pos, Reaches,
      or_iff_left fun ⟨only, _, hat, _⟩ => not_onlyAt howner hother hne only hat]

namespace Report

/-- `report.Executes file line`: the report has the line of the file as executed. -/
def Executes (report : Report) (file : String) (line : Int) : Prop :=
  { file, line, executed := true } ∈ report.records

variable {file : String} {line : Int}

/-- What a summary has as executed are the lines that it shows with a positive count. -/
theorem executes_summarize {r : Registry} {functions : List Func} :
    Executes { files := r.summarize, functions } file line
      ↔ ∃ count, 0 < count ∧ Shows { files := r.summarize, functions } file line count := by
  simp only [Executes, records, Shows, List.mem_flatMap, List.mem_map, Record.mk.injEq]
  constructor
  · rintro ⟨f, hf, l, hl, hname, hline, hexecuted⟩
    obtain ⟨source, -, rfl⟩ := List.mem_map.mp hf
    obtain ⟨n, counted, -, -, rfl⟩ := SourceFile.mem_lineCoverage.mp hl
    exact ⟨_, of_decide_eq_true hexecuted, _, hf, hname, _, hl, hline, rfl⟩
  · rintro ⟨count, hpos, f, hf, hname, l, hl, hline, rfl⟩
    obtain ⟨source, -, rfl⟩ := List.mem_map.mp hf
    obtain ⟨n, counted, -, -, rfl⟩ := SourceFile.mem_lineCoverage.mp hl
    exact ⟨_, hf, _, hl, hname, hline, decide_eq_true hpos⟩

/-- The lines that are executed are those that control came to. -/
theorem executes_of_walks {plans : List UnitPlan} {units : List CompilationUnit}
    (hunits : List.Forall₂ UnitPlan.Writes plans units) (hplans : ∀ plan ∈ plans, plan.Regular)
    {walks : Nat → List (List Nat)}
    (hran : ∀ (k : Nat) (func : FuncPlan), (program plans)[k]? = some func →
      func.Instrumented ∧ func.RanAs (walks k)) :
    ∃ report, (ofUnits units).result = .ok report ∧ ∀ file line, report.Executes file line
      ↔ ∃ n : Nat, line = n ∧ Reaches (program plans) walks (file, n) := by
  have hfuncs : ∀ func ∈ program plans, func.Sound ∧ func.Instrumented := by
    intro func hfunc
    obtain ⟨k, hk⟩ := List.mem_iff_getElem?.mp hfunc
    obtain ⟨plan, hplan, hbuilt⟩ := List.mem_flatMap.mp hfunc
    exact ⟨((hplans plan hplan).built func hbuilt).sound, (hran k func hk).1⟩
  have hsound : ∀ func ∈ program plans, func.Sound := fun func hfunc => (hfuncs func hfunc).1
  obtain ⟨funcs, hdecode, hcounted, -, hnames⟩ := CompilationUnit.decodeAll_plans hunits hplans
    (fun plan hplan func hfunc => Int.lt_of_lt_of_le (by decide)
      (hfuncs func (List.mem_flatMap.mpr ⟨plan, hplan, hfunc⟩)).2.two_le) {}
  generalize hr : (CompilationUnit.decodeAll units {}).state = r at hcounted hnames
  have hnodup : r.names.Nodup := hnames ▸ nodup_foldl_enlist List.nodup_nil _
  obtain ⟨hsolve, hruns⟩ := solveAll_counted hcounted hran
  have hadmits := fun v hv => hruns.admits (v := v) hv
  obtain ⟨r', hreport, -⟩ := ofFunctions_counted hsolve hadmits
  obtain ⟨_, hsame, hshows⟩ := shows_ofFunctions hsolve hadmits
  obtain rfl := Except.ok.inj (hsame.symm.trans hreport)
  have htally : ∀ {i n : Nat} {file : String} {owner : BlockRef}, r.names[i]? = some file →
      attributes (program plans) (file, n) owner = true →
      (0 < (SourceLine.tally _ (visitsAt (Func.solveAll funcs).state i n)).count
        ↔ Reaches (program plans) walks (file, n)) := fun hfile howner =>
    hruns.tally_pos_iff hsound (fun k func hfunc => (hran k func hfunc).2) hnodup hfile howner
  refine ⟨_, by rw [ofUnits, Outcome.result_bind hdecode, hr, hreport], fun file line => ?_⟩
  simp only [executes_summarize, hshows]
  constructor
  · rintro ⟨_, hpos, i, n, hfile, ⟨owner, howner⟩, rfl, rfl⟩
    exact ⟨n, rfl, (htally hfile ((hruns.lists_iff hsound hnodup hfile owner).mp howner)).mp hpos⟩
  · rintro ⟨n, rfl, hreaches⟩
    obtain ⟨owner, howner⟩ := hreaches.exists_owner
    obtain ⟨i, hfile⟩ := hruns.exists_file hsound howner
    exact ⟨_, (htally hfile howner).mpr hreaches, i, n, hfile,
      ⟨owner, (hruns.lists_iff hsound hnodup hfile owner).mpr howner⟩, rfl, rfl⟩

end Report

/-! ## Programs one after another -/

section Append

variable {functions added : List FuncPlan} {walks : Nat → List (List Nat)} {place : String × Nat}

/-- A block, behind some functions. -/
def BlockRef.behind (functions : List FuncPlan) (owner : BlockRef) : BlockRef where
  func := functions.length + owner.func
  block := owner.block

theorem attributes_append (owner : BlockRef) :
    attributes (functions ++ added) place owner
      = if owner.func < functions.length then attributes functions place owner
        else attributes added place ⟨owner.func - functions.length, owner.block⟩ := by
  simp only [attributes, List.getElem?_append]
  split <;> rfl

theorem attributes_behind (owner : BlockRef) :
    attributes (functions ++ added) place (owner.behind functions)
      = attributes added place owner := by
  rw [attributes_append, if_neg (by simp [BlockRef.behind])]
  simp [BlockRef.behind]

/-- A line keeps its blocks. -/
theorem attributes_append_of_left {owner : BlockRef} (h : attributes functions place owner = true) :
    attributes (functions ++ added) place owner = true := by
  rw [attributes_append, if_pos (exists_entry h).1, h]

/-- The steps of a program lead from its blocks to its blocks. -/
theorem func_lt_of_mem_programSteps {step : BlockRef × BlockRef}
    (h : step ∈ programSteps functions walks) :
    step.1.func < functions.length ∧ step.2.func < functions.length := by
  obtain ⟨⟨plan, k⟩, hplan, hstep⟩ := List.mem_flatMap.mp h
  obtain ⟨arc, -, rfl⟩ := List.mem_map.mp hstep
  have hlt := (List.getElem?_eq_some_iff.mp (List.mem_zipIdx_iff_getElem?.mp hplan)).1
  exact ⟨hlt, hlt⟩

/-- The steps of added functions are taken as if they were by themselves. -/
theorem programSteps_append :
    programSteps (functions ++ added) walks = programSteps functions walks
      ++ (programSteps added fun k => walks (functions.length + k)).map
        (Prod.map (·.behind functions) (·.behind functions)) := by
  rw [programSteps, List.zipIdx_append, List.flatMap_append, Nat.zero_add,
    List.zipIdx_eq_map_add (l := added), List.flatMap_map]
  simp only [programSteps, List.map_flatMap, List.map_map]
  rfl

/-- What comes to a line adds up. -/
theorem entrances_append :
    entrances (functions ++ added) walks (attributes (functions ++ added) place)
      = entrances functions walks (attributes functions place)
        + entrances added (fun k => walks (functions.length + k)) (attributes added place) := by
  rw [entrances, programSteps_append, List.countP_append, List.countP_map]
  refine congrArg₂ _ (List.countP_congr fun step hstep => ?_)
    (List.countP_congr fun step _ => ?_)
  · obtain ⟨hsrc, hdst⟩ := func_lt_of_mem_programSteps hstep
    rw [attributes_append, attributes_append, if_pos hsrc, if_pos hdst]
  · simp only [Function.comp_apply, Prod.map_fst, Prod.map_snd, attributes_behind]

/-- Where arcs do not lead to first blocks, control does not come to a line of only such a block. -/
theorem OnlyAtEntry.entrances_eq_zero (h : OnlyAtEntry functions place)
    (hentry : ∀ func ∈ functions, ∀ arc ∈ func.arcs, arc.dst ≠ 0) :
    entrances functions walks (attributes functions place) = 0 := by
  obtain ⟨owner, hzero, honly⟩ := h
  obtain ⟨plan, hplan, -⟩ := attributes_eq_true.mp ((honly owner).mpr rfl)
  rw [honly.entrances_eq hplan, List.countP_eq_zero]
  intro arc harc
  obtain ⟨walk, -, harc⟩ := List.mem_flatMap.mp harc
  obtain ⟨id, -, harc⟩ := List.mem_filterMap.mp harc
  have hmem := FuncPlan.mem_orderedArcs.mp (List.mem_of_getElem? harc)
  simp [hzero, hentry plan (List.mem_of_getElem? hplan) arc hmem]

/-- Control that came to a line still does when functions are added, unless these have the line as
well, only the first block of a function had it before, and control does not come to it in them. -/
theorem Reaches.append_iff (h : Reaches functions walks place)
    (hentry : ∀ func ∈ functions, ∀ arc ∈ func.arcs, arc.dst ≠ 0) :
    Reaches (functions ++ added) walks place
      ↔ (OnlyAtEntry functions place → (∃ owner, attributes added place owner = true) →
        0 < entrances added (fun k => walks (functions.length + k)) (attributes added place)) := by
  obtain ⟨owner, howner⟩ := h.exists_owner
  by_cases hadded : ∃ other, attributes added place other = true
  · obtain ⟨other, hother⟩ := hadded
    have hne : other.behind functions ≠ owner := by
      rintro rfl
      have := (exists_entry howner).1
      simp only [BlockRef.behind] at this
      omega
    have howner' : attributes (functions ++ added) place owner = true :=
      attributes_append_of_left howner
    have hother' : attributes (functions ++ added) place (other.behind functions) = true := by
      rw [attributes_behind, hother]
    rw [Reaches, or_iff_left fun ⟨only, _, hat, _⟩ => not_onlyAt howner' hother' hne only hat,
      entrances_append]
    constructor
    · intro hpos hat _
      rwa [hat.entrances_eq_zero hentry, Nat.zero_add] at hpos
    · intro hstays
      rcases h with hpos | ⟨only, hzero, hat, -⟩
      · exact Nat.add_pos_left hpos _
      · exact Nat.add_pos_right _ (hstays ⟨only, hzero, hat⟩ ⟨other, hother⟩)
  · refine iff_of_true ?_ fun _ hsome => absurd hsome hadded
    rcases h with hpos | ⟨only, hzero, hat, hcalled⟩
    · exact .inl (entrances_append ▸ Nat.add_pos_left hpos _)
    · refine .inr ⟨only, hzero, fun other => ⟨fun hother => ?_, ?_⟩, hcalled⟩
      · rw [attributes_append] at hother
        split at hother
        · exact (hat other).mp hother
        · exact absurd ⟨_, hother⟩ hadded
      · rintro rfl
        exact attributes_append_of_left ((hat other).mpr rfl)

end Append

theorem program_append (plans added : List UnitPlan) :
    program (plans ++ added) = program plans ++ program added :=
  List.flatMap_append

namespace Report

/-- Lines that are executed remain so when units are added, with one exception: a line of no block
but the first of a function is lost to units that have the line as well and in which control does
not come to it. -/
theorem executes_append {plans added : List UnitPlan} {units further : List CompilationUnit}
    (hunits : List.Forall₂ UnitPlan.Writes plans units)
    (hfurther : List.Forall₂ UnitPlan.Writes added further)
    (hplans : ∀ plan ∈ plans ++ added, plan.Regular) (walks : Nat → List (List Nat))
    (hran : ∀ (k : Nat) (func : FuncPlan), (program (plans ++ added))[k]? = some func →
      func.Instrumented ∧ func.RanAs (walks k)) :
    ∃ before after, (ofUnits units).result = .ok before
      ∧ (ofUnits (units ++ further)).result = .ok after
      ∧ ∀ file line, before.Executes file line → ∃ n : Nat, line = n
        ∧ (after.Executes file line ↔ (OnlyAtEntry (program plans) (file, n) →
            (∃ owner, attributes (program added) (file, n) owner = true) →
            0 < entrances (program added) (fun k => walks ((program plans).length + k))
              (attributes (program added) (file, n)))) := by
  have hfirst : ∀ (k : Nat) (func : FuncPlan), (program plans)[k]? = some func →
      func.Instrumented ∧ func.RanAs (walks k) := by
    intro k func hfunc
    refine hran k func ?_
    rw [program_append, List.getElem?_append_left (List.getElem?_eq_some_iff.mp hfunc).1, hfunc]
  have hentry : ∀ func ∈ program plans, ∀ arc ∈ func.arcs, arc.dst ≠ 0 := by
    intro func hfunc
    obtain ⟨k, hk⟩ := List.mem_iff_getElem?.mp hfunc
    exact (hfirst k func hk).1.no_entry
  obtain ⟨before, hbefore, hexecutes⟩ := executes_of_walks hunits
    (fun plan hplan => hplans plan (List.mem_append_left _ hplan)) hfirst
  obtain ⟨after, hafter, hexecutes'⟩ :=
    executes_of_walks (List.rel_append hunits hfurther) hplans hran
  refine ⟨before, after, hbefore, hafter, fun file line hline => ?_⟩
  obtain ⟨n, rfl, hreaches⟩ := (hexecutes file line).mp hline
  refine ⟨n, rfl, ?_⟩
  rw [← hreaches.append_iff hentry, ← program_append, hexecutes']
  simp

/-- A unit of one function, whose first block has a line of its own. -/
def probePlan : UnitPlan where
  functions :=
    [{ ident := 1, checksum := 0, name := "probe", source := "probe.h", line := 4, blockCount := 2
       arcs := [{ src := 0, dst := 1, count := 1 }]
       lines := [{ block := 0, source := "probe.h", numbers := [5] }] }]

theorem probePlan_regular : probePlan.Regular where
  built := by
    have happly : UnitPlan.applyAll {} [.function "probe" "probe.h" 4 none 0, .blocks 2,
        .arc 0 1 0 1, .lines 0 [5] none] = .ok probePlan := by
      decide
    refine UnitPlan.Built.applyAll (fun _ hfunc => absurd hfunc List.not_mem_nil)
      (fun count hcount => ?_) happly
    simp at hcount
    omega
  encodable := by decide
  nonempty := by decide
  idents := by decide

/-- The function was called once, in every unit. -/
theorem probePlan_ran {plans : List UnitPlan} (hplans : ∀ plan ∈ plans, plan = probePlan) (k : Nat)
    (func : FuncPlan) (hfunc : (program plans)[k]? = some func) :
    func.Instrumented ∧ func.RanAs [[0]] := by
  obtain ⟨plan, hplan, hfunc⟩ := List.mem_flatMap.mp (List.mem_of_getElem? hfunc)
  rw [hplans plan hplan, probePlan, List.mem_singleton] at hfunc
  subst hfunc
  exact ⟨⟨by decide, by decide, by decide, FuncPlan.acyclic_treeEdges
    [.closing] (by decide) (by decide) (by decide)⟩, .of_bounded (by decide) (by decide)⟩

/-- A unit of the plan. -/
def probeUnit : CompilationUnit :=
  .numbered 0 (some probePlan.notes) (some probePlan.data)

theorem probeUnit_written : List.Forall₂ UnitPlan.Writes [probePlan] [probeUnit] :=
  .cons ⟨rfl, rfl⟩ .nil

/-- A report of which a view is known. -/
theorem exists_report {α : Type} {units : List CompilationUnit} {f : Report → α} {a : α}
    (h : (ofUnits units).result.map f = .ok a) :
    ∃ report, (ofUnits units).result = .ok report ∧ f report = a := by
  cases hresult : (ofUnits units).result with
  | ok report =>
    rw [hresult] at h
    exact ⟨report, rfl, Except.ok.inj h⟩
  | error error =>
    rw [hresult] at h
    cases h

/-- The line is executed in the unit. -/
theorem records_probeUnit :
    ∃ report, (ofUnits [probeUnit]).result = .ok report
      ∧ report.records = [{ file := "probe.h", line := 5, executed := true }] :=
  exists_report (f := (·.records)) (by decide +kernel)

/-- The line is not executed where the unit comes twice. -/
theorem records_probeUnits :
    ∃ report, (ofUnits [probeUnit, probeUnit]).result = .ok report
      ∧ report.records = [{ file := "probe.h", line := 5, executed := false }] :=
  exists_report (f := (·.records)) (by decide +kernel)

theorem probePlan_onlyAtEntry : OnlyAtEntry (program [probePlan]) ("probe.h", 5) := by
  refine ⟨⟨0, 0⟩, rfl, fun other => ⟨fun hother => ?_, ?_⟩⟩
  · obtain ⟨k, b⟩ := other
    obtain ⟨hk, entry, hentry, hplace, rfl⟩ := exists_entry hother
    have hall : ∀ k < 1, ∀ entry ∈ ((program [probePlan])[k]?).elim [] (·.lines),
        ("probe.h", 5) ∈ entry.attributions → (⟨k, entry.block⟩ : BlockRef) = ⟨0, 0⟩ := by
      decide
    exact hall k hk entry hentry hplace
  · rintro rfl
    decide

/-- The unit is executed before and after, but its line is lost to the same line of its copy. -/
theorem probeUnit_executes :
    ∃ before after, (ofUnits [probeUnit]).result = .ok before
      ∧ (ofUnits [probeUnit, probeUnit]).result = .ok after
      ∧ before.Executes "probe.h" 5 ∧ ¬ after.Executes "probe.h" 5 := by
  have hplans : ∀ plan ∈ [probePlan] ++ [probePlan], plan = probePlan := by
    decide
  obtain ⟨before, after, hbefore, hafter, hexecutes⟩ :=
    executes_append probeUnit_written probeUnit_written
      (fun plan hplan => hplans plan hplan ▸ probePlan_regular) (fun _ => [[0]])
      (probePlan_ran hplans)
  obtain ⟨report, hreport, hrecords⟩ := records_probeUnit
  obtain rfl : report = before := Except.ok.inj (hreport.symm.trans hbefore)
  have hline : report.Executes "probe.h" 5 := by
    rw [Executes, hrecords]
    exact List.mem_singleton_self _
  refine ⟨report, after, hbefore, hafter, hline, fun hafter => ?_⟩
  obtain ⟨n, hn, hstays⟩ := hexecutes "probe.h" 5 hline
  obtain rfl : 5 = n := Int.natCast_inj.mp hn
  exact absurd (hstays.mp hafter probePlan_onlyAtEntry ⟨⟨0, 0⟩, by decide⟩) (by decide)

/-- So merging does lose coverage. -/
theorem not_executes_mono :
    ¬ ∀ (plans : List UnitPlan) (units : List CompilationUnit) (plan : UnitPlan)
        (unit : CompilationUnit) (walks : Nat → List (List Nat)),
      List.Forall₂ UnitPlan.Writes plans units → plan.Writes unit →
      (∀ p ∈ plans ++ [plan], p.Regular) →
      (∀ (k : Nat) (func : FuncPlan), (program (plans ++ [plan]))[k]? = some func →
        func.Instrumented ∧ func.RanAs (walks k)) →
      ∀ before after, (ofUnits units).result = .ok before →
        (ofUnits (units ++ [unit])).result = .ok after →
        ∀ file line, before.Executes file line → after.Executes file line := by
  intro hmono
  obtain ⟨before, hbefore, hrecords⟩ := records_probeUnit
  obtain ⟨after, hafter, hrecords'⟩ := records_probeUnits
  have hplans : ∀ plan ∈ [probePlan] ++ [probePlan], plan = probePlan := by
    decide
  have hline := hmono [probePlan] [probeUnit] probePlan probeUnit (fun _ => [[0]])
    probeUnit_written ⟨rfl, rfl⟩ (fun plan hplan => hplans plan hplan ▸ probePlan_regular)
    (probePlan_ran hplans) before after hbefore hafter "probe.h" 5
  rw [Executes, Executes, hrecords, hrecords'] at hline
  exact absurd (hline (List.mem_singleton_self _)) (by decide)

end Report

end Coverage
