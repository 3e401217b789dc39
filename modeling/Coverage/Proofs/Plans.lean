import Coverage.FlowGraph
import Coverage.Plan.Files
import Coverage.Proofs.Grouping
import Coverage.Proofs.Wire

/-!
# Plans that can be written

`FuncPlan.Built` says how a planned function comes about: from its header, by additions none of
which is refused.  Such a plan is sound (`FuncPlan.Sound`): its arcs and lines are within its
blocks.  Units are built step by step (`UnitPlan.Built.applyAll`).  `UnitPlan.Encodable` bounds the
numbers and the texts of a plan, so that they fit the words of a file.
-/

namespace Coverage

/-! ## Building -/

namespace FuncPlan

/-- The functions that are made by additions none of which is refused.  Blocks are only added, not
taken away. -/
inductive Built : FuncPlan → Prop
  | header (ident checksum : Int) (name source : String) (line : Int) :
      Built { ident, checksum, name, source, line }
  | blocks {func : FuncPlan} {count : Int} :
      Built func → 0 ≤ count → Built (func.addBlocks count)
  | arc {func func' : FuncPlan} {src dst flags count : Int} :
      Built func → func.addArc src dst flags count = .ok func' → Built func'
  | lines {func func' : FuncPlan} {block : Int} {numbers : List Int} {source : Option String} :
      Built func → func.addLines block numbers source = .ok func' → Built func'

/-- Arcs and lines are within the blocks of the function, and lines are positive. -/
structure Sound (func : FuncPlan) : Prop where
  blocks : 0 ≤ func.blockCount
  arcs : ∀ arc ∈ func.arcs, arc.src < func.blockCount.toNat ∧ arc.dst < func.blockCount.toNat
  lines : ∀ entry ∈ func.lines, entry.block < func.blockCount.toNat
  numbers : ∀ entry ∈ func.lines, ∀ n ∈ entry.numbers, 0 < n

theorem block?_eq_ok {func : FuncPlan} {index : Int} {block : Nat}
    (h : func.block? index = .ok block) : block < func.blockCount.toNat := by
  unfold block? at h
  split at h
  · cases h
    omega
  · cases h

theorem Sound.addBlocks {func : FuncPlan} (h : func.Sound) {count : Int} (hcount : 0 ≤ count) :
    (func.addBlocks count).Sound := by
  have hle : func.blockCount.toNat ≤ (func.blockCount + count).toNat := by omega
  exact {
    blocks := Int.add_nonneg h.blocks hcount
    arcs := fun arc harc => ⟨Nat.lt_of_lt_of_le (h.arcs arc harc).1 hle,
      Nat.lt_of_lt_of_le (h.arcs arc harc).2 hle⟩
    lines := fun entry hentry => Nat.lt_of_lt_of_le (h.lines entry hentry) hle
    numbers := h.numbers }

theorem Sound.addArc {func func' : FuncPlan} (h : func.Sound) {src dst flags count : Int}
    (hadd : func.addArc src dst flags count = .ok func') : func'.Sound := by
  unfold FuncPlan.addArc at hadd
  cases hsrc : func.block? src with
  | error _ => rw [hsrc] at hadd; cases hadd
  | ok s =>
    cases hdst : func.block? dst with
    | error _ => rw [hsrc, hdst] at hadd; cases hadd
    | ok d =>
      rw [hsrc, hdst] at hadd
      cases hadd
      refine ⟨h.blocks, fun arc harc => ?_, h.lines, h.numbers⟩
      rcases List.mem_append.mp harc with harc | harc
      · exact h.arcs arc harc
      · rw [List.mem_singleton] at harc
        subst harc
        exact ⟨block?_eq_ok hsrc, block?_eq_ok hdst⟩

theorem Sound.addLines {func func' : FuncPlan} (h : func.Sound) {block : Int}
    {numbers : List Int} {source : Option String}
    (hadd : func.addLines block numbers source = .ok func') : func'.Sound := by
  unfold FuncPlan.addLines at hadd
  cases hblock : func.block? block with
  | error _ => rw [hblock] at hadd; cases hadd
  | ok b =>
    rw [hblock] at hadd
    cases hany : numbers.any (· ≤ 0) with
    | true => simp [Bind.bind, Except.bind, hany, throw, throwThe, MonadExceptOf.throw] at hadd
    | false =>
      simp only [Bind.bind, Except.bind, hany, Bool.false_eq_true, if_false, pure,
        Except.pure, Except.ok.injEq] at hadd
      subst hadd
      refine ⟨h.blocks, h.arcs, fun entry hentry => ?_, fun entry hentry n hn => ?_⟩
      · rcases List.mem_append.mp hentry with hentry | hentry
        · exact h.lines entry hentry
        · rw [List.mem_singleton] at hentry
          subst hentry
          exact block?_eq_ok hblock
      · rcases List.mem_append.mp hentry with hentry | hentry
        · exact h.numbers entry hentry n hn
        · rw [List.mem_singleton] at hentry
          subst hentry
          obtain ⟨i, hi, rfl⟩ := List.mem_map.mp hn
          have hpos := List.any_eq_false.mp hany i hi
          simp only [decide_eq_true_eq] at hpos
          omega

theorem Built.sound {func : FuncPlan} (h : func.Built) : func.Sound := by
  induction h with
  | header => exact ⟨Int.le_refl _, by simp, by simp, by simp⟩
  | blocks _ hcount ih => exact ih.addBlocks hcount
  | arc _ hadd ih => exact ih.addArc hadd
  | lines _ hadd ih => exact ih.addLines hadd

end FuncPlan

/-- All functions of the unit are built by additions. -/
def UnitPlan.Built (plan : UnitPlan) : Prop :=
  ∀ func ∈ plan.functions, func.Built

/-- Changing the last function keeps the plan built, if the change does. -/
theorem UnitPlan.Built.mapLast {plan plan' : UnitPlan} (h : plan.Built)
    {f : FuncPlan → Except PlanError FuncPlan}
    (hf : ∀ func func', func.Built → f func = .ok func' → func'.Built)
    (hmap : plan.mapLast f = .ok plan') : plan'.Built := by
  unfold UnitPlan.mapLast at hmap
  split at hmap
  · cases hmap
    exact h
  · next func hlast =>
    cases hchanged : f func with
    | error _ => rw [hchanged] at hmap; cases hmap
    | ok func' =>
      rw [hchanged] at hmap
      cases hmap
      intro other hother
      rcases List.mem_append.mp hother with hother | hother
      · exact h other (List.dropLast_subset _ hother)
      · rw [List.mem_singleton] at hother
        subst hother
        exact hf func _ (h func (List.mem_of_getLast? hlast)) hchanged

theorem UnitPlan.Built.apply {plan plan' : UnitPlan} (h : plan.Built) {step : PlanStep}
    (hstep : ∀ count, step = .blocks count → 0 ≤ count) (happly : plan.apply step = .ok plan') :
    plan'.Built := by
  cases step with
  | function name source line ident checksum =>
    cases happly
    intro func hfunc
    rcases List.mem_append.mp hfunc with hfunc | hfunc
    · exact h func hfunc
    · rw [List.mem_singleton] at hfunc
      subst hfunc
      exact .header _ _ _ _ _
  | blocks count =>
    refine h.mapLast (fun func func' hfunc hadd => ?_) happly
    cases hadd
    exact hfunc.blocks (hstep count rfl)
  | arc src dst flags count => exact h.mapLast (fun _ _ hfunc hadd => hfunc.arc hadd) happly
  | lines block numbers source => exact h.mapLast (fun _ _ hfunc hadd => hfunc.lines hadd) happly

/-- Steps none of which is refused build a plan, where no blocks are taken away. -/
theorem UnitPlan.Built.applyAll {steps : List PlanStep} {plan plan' : UnitPlan} (h : plan.Built)
    (hsteps : ∀ count, .blocks count ∈ steps → 0 ≤ count)
    (happly : plan.applyAll steps = .ok plan') : plan'.Built := by
  induction steps generalizing plan with
  | nil =>
    cases happly
    exact h
  | cons step steps ih =>
    rw [UnitPlan.applyAll, List.foldlM_cons] at happly
    cases hstep : plan.apply step with
    | error _ => rw [hstep] at happly; cases happly
    | ok next =>
      rw [hstep] at happly
      refine ih (h.apply (fun count hcount => hsteps count ?_) hstep)
        (fun count hcount => hsteps count (List.mem_cons_of_mem _ hcount)) happly
      rw [hcount]
      exact List.mem_cons_self

/-! ## Bounds -/

/-- Whether a number is one that a word can hold. -/
def InWord (n : Int) : Prop :=
  0 ≤ n ∧ n < wordRange

instance (n : Int) : Decidable (InWord n) :=
  inferInstanceAs (Decidable (0 ≤ n ∧ n < wordRange))

/-- What a function has to observe in order to be written without loss. -/
structure FuncPlan.Encodable (func : FuncPlan) : Prop where
  ident : InWord func.ident
  checksum : InWord func.checksum
  line : InWord func.line
  blockCount : func.blockCount < wordRange
  name : Storable func.name
  source : func.source ≠ "" ∧ Storable func.source
  flags : ∀ arc ∈ func.arcs, InWord arc.flags
  sources : ∀ entry ∈ func.lines, entry.source ≠ "" ∧ Storable entry.source
  numbers : ∀ entry ∈ func.lines, ∀ n ∈ entry.numbers, n < wordRange
  /-- The arcs that leave a block fit one record. -/
  exits : ∀ src, 2 * (func.arcs.filter (·.src == src)).length + 1 < wordRange
  /-- The counters fit one record. -/
  counters : 2 * func.measuredCounts.length < wordRange

/-- What a unit has to observe in order to be written without loss.  The directory stands where
records are looked for, so nothing in it may look like one. -/
structure UnitPlan.Encodable (plan : UnitPlan) : Prop where
  version : InWord plan.version
  directory : ∀ directory ∈ plan.directory, 1 ∉ Utf8.encode directory.toList
    ∧ (Utf8.encode directory.toList).length / wordSize + 1 < 0x1000000
  functions : ∀ func ∈ plan.functions, func.Encodable

/-- The arcs that leave a block fit one record if those do that leave the source of some arc. -/
theorem FuncPlan.exits_fit_iff {func : FuncPlan} :
    (∀ src, 2 * (func.arcs.filter (·.src == src)).length + 1 < wordRange)
      ↔ ∀ arc ∈ func.arcs, 2 * (func.arcs.filter (·.src == arc.src)).length + 1 < wordRange := by
  refine ⟨fun h arc _ => h arc.src, fun h src => ?_⟩
  by_cases hsome : ∃ arc ∈ func.arcs, arc.src = src
  · obtain ⟨arc, harc, rfl⟩ := hsome
    exact h arc harc
  · rw [List.filter_eq_nil_iff.mpr fun arc harc heq => hsome ⟨arc, harc, eq_of_beq heq⟩]
    decide

instance (func : FuncPlan) : Decidable func.Encodable :=
  decidable_of_iff (InWord func.ident ∧ InWord func.checksum ∧ InWord func.line
      ∧ func.blockCount < wordRange ∧ Storable func.name
      ∧ (func.source ≠ "" ∧ Storable func.source) ∧ (∀ arc ∈ func.arcs, InWord arc.flags)
      ∧ (∀ entry ∈ func.lines, entry.source ≠ "" ∧ Storable entry.source)
      ∧ (∀ entry ∈ func.lines, ∀ n ∈ entry.numbers, n < wordRange)
      ∧ (∀ arc ∈ func.arcs, 2 * (func.arcs.filter (·.src == arc.src)).length + 1 < wordRange)
      ∧ 2 * func.measuredCounts.length < wordRange)
    ⟨fun ⟨ident, checksum, line, blockCount, name, source, flags, sources, numbers, exits,
        counters⟩ =>
      { ident, checksum, line, blockCount, name, source, flags, sources, numbers
        exits := FuncPlan.exits_fit_iff.mpr exits
        counters },
     fun h => ⟨h.ident, h.checksum, h.line, h.blockCount, h.name, h.source, h.flags, h.sources,
      h.numbers, FuncPlan.exits_fit_iff.mp h.exits, h.counters⟩⟩

instance (plan : UnitPlan) : Decidable plan.Encodable :=
  decidable_of_iff (InWord plan.version
      ∧ (∀ directory ∈ plan.directory, 1 ∉ Utf8.encode directory.toList
        ∧ (Utf8.encode directory.toList).length / wordSize + 1 < 0x1000000)
      ∧ ∀ func ∈ plan.functions, func.Encodable)
    ⟨fun ⟨version, directory, functions⟩ => { version, directory, functions },
     fun h => ⟨h.version, h.directory, h.functions⟩⟩

/-! ## What a plan says -/

/-- An arc as a notes file tells it. -/
def ArcPlan.noted (arc : ArcPlan) : Arc where
  src := arc.src
  dst := arc.dst
  flags := arc.flags

/-- The lines that an entry attributes to its block, with their source. -/
def LinesPlan.attributions (entry : LinesPlan) : List (String × Nat) :=
  entry.numbers.map fun n => (entry.source, n)

namespace FuncPlan

/-- The lines that are attributed to a block, with their sources. -/
def attributions (func : FuncPlan) (block : Nat) : List (String × Nat) :=
  (func.lines.filter (·.block == block)).flatMap (·.attributions)

/-- The sources that a notes file names, in the order in which it names them. -/
def sources (func : FuncPlan) : List String :=
  func.source :: func.orderedLines.flatMap fun (_, entries) => entries.map (·.source)

variable {func : FuncPlan}

theorem mem_orderedArcs {arc : ArcPlan} : arc ∈ func.orderedArcs ↔ arc ∈ func.arcs :=
  mem_flatMap_groupByKey

theorem perm_orderedArcs (func : FuncPlan) : func.orderedArcs.Perm func.arcs :=
  perm_flatMap_groupByKey (fun arc : ArcPlan => arc.src) func.arcs

theorem pairwise_orderedArcs (func : FuncPlan) :
    func.orderedArcs.Pairwise fun a b => a.src ≤ b.src :=
  pairwise_flatMap_groupByKey (·.src) func.arcs

end FuncPlan

/-- The sources that a notes file names, in the order in which it names them. -/
def UnitPlan.sources (plan : UnitPlan) : List String :=
  plan.functions.flatMap (·.sources)

end Coverage
