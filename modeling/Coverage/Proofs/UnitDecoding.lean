import Coverage.Report
import Coverage.Proofs.Walks

/-!
# Units one after another

Units are decoded onto one registry, which grows from unit to unit, so that what a function lists
stays true (`decodeAll_plans`).  Then all functions are solved, each by itself
(`solveAll_counted`).
-/

namespace Coverage

/-! ## Outcomes in sequence -/

namespace Outcome

variable {σ α β : Type} {o : Outcome σ α} {a : α}

theorem result_bind (h : o.result = .ok a) (next : σ → α → Outcome σ β) :
    (o.bind next).result = (next o.state a).result := by
  simp [bind, h]

theorem state_bind (h : o.result = .ok a) (next : σ → α → Outcome σ β) :
    (o.bind next).state = (next o.state a).state := by
  simp [bind, h]

end Outcome

/-! ## Planned units -/

/-- What it takes to decode the files of a plan: it is built and can be written, it has functions,
and idents tell them apart. -/
structure UnitPlan.Regular (plan : UnitPlan) : Prop where
  built : plan.Built
  encodable : plan.Encodable
  nonempty : plan.functions ≠ []
  idents : (plan.functions.map (·.ident)).Nodup

/-- `plan.Writes unit`: the files of the unit are those of the plan. -/
def UnitPlan.Writes (plan : UnitPlan) (unit : CompilationUnit) : Prop :=
  unit.notes = some plan.notes ∧ unit.data = some plan.data

namespace CompilationUnit

/-- The unit of a plan decodes to the functions of the plan. -/
theorem decode_plan {plan : UnitPlan} (h : plan.Regular)
    (hblocks : ∀ func ∈ plan.functions, 0 < func.blockCount) {unit : CompilationUnit}
    (hunit : plan.Writes unit) (r : Registry) :
    ∃ funcs, (unit.decode r).result = .ok funcs
      ∧ List.Forall₂ (·.CountedAs (unit.decode r).state) plan.functions funcs
      ∧ r.Extends (unit.decode r).state
      ∧ (unit.decode r).state.names = plan.sources.foldl enlist r.names := by
  obtain ⟨funcs, hnotes, hreads, hextends, hnames⟩ := Notes.decode_notes h.built h.encodable r
  obtain ⟨hdata, hcounted, -⟩ :=
    Counters.decode_data h.built h.encodable hblocks h.idents hreads
  have hfuncs : funcs.isEmpty = false := by
    have hlength := hreads.length_eq
    have hpos := List.length_pos_of_ne_nil h.nonempty
    rw [List.isEmpty_eq_false_iff]
    rintro rfl
    rw [List.length_nil] at hlength
    omega
  have hdecode : unit.decode r = (Notes.decode r plan.notes).bind unit.decodeData := by
    rw [decode, hunit.1]
  have hcount : (unit.decodeData (Notes.decode r plan.notes).state funcs).result
        = .ok (Counters.decode funcs plan.data).state
      ∧ (unit.decodeData (Notes.decode r plan.notes).state funcs).state
        = (Notes.decode r plan.notes).state := by
    simp [decodeData, hunit.2, hfuncs, Outcome.bind, hdata, Except.map]
  rw [hdecode, Outcome.result_bind hnotes, Outcome.state_bind hnotes, hcount.1, hcount.2]
  exact ⟨_, rfl, hcounted, hextends, hnames⟩

/-- The units of plans decode to the functions of all plans, in order. -/
theorem decodeAll_plans {plans : List UnitPlan} {units : List CompilationUnit}
    (hunits : List.Forall₂ UnitPlan.Writes plans units) (hplans : ∀ plan ∈ plans, plan.Regular)
    (hblocks : ∀ plan ∈ plans, ∀ func ∈ plan.functions, 0 < func.blockCount) (r : Registry) :
    ∃ funcs, (decodeAll units r).result = .ok funcs
      ∧ List.Forall₂ (·.CountedAs (decodeAll units r).state) (plans.flatMap (·.functions)) funcs
      ∧ r.Extends (decodeAll units r).state
      ∧ (decodeAll units r).state.names = (plans.flatMap (·.sources)).foldl enlist r.names := by
  induction hunits generalizing r with
  | nil => exact ⟨[], rfl, .nil, .refl r, rfl⟩
  | @cons plan unit plans units hunit _ ih =>
    obtain ⟨first, hfirst, hcounted, hextends, hnames⟩ :=
      decode_plan (hplans plan List.mem_cons_self) (hblocks plan List.mem_cons_self) hunit r
    obtain ⟨rest, hrest, hcounted', hextends', hnames'⟩ :=
      ih (fun p hp => hplans p (List.mem_cons_of_mem _ hp))
        (fun p hp => hblocks p (List.mem_cons_of_mem _ hp)) (unit.decode r).state
    have hresult : (decodeAll (unit :: units) r).result = .ok (first ++ rest) := by
      rw [decodeAll, Outcome.result_bind hfirst]
      simp [Outcome.map, hrest, Except.map]
    have hstate : (decodeAll (unit :: units) r).state
        = (decodeAll units (unit.decode r).state).state := by
      rw [decodeAll, Outcome.state_bind hfirst]
      rfl
    rw [hresult, hstate]
    refine ⟨_, rfl, ?_, hextends.trans hextends', ?_⟩
    · rw [List.flatMap_cons]
      exact List.rel_append (hcounted.imp fun _ _ hfunc => hfunc.mono hextends') hcounted'
    · rw [hnames', hnames, List.flatMap_cons, List.foldl_append]

end CompilationUnit

/-! ## Solving all functions -/

namespace Func

/-- Functions that can be solved one by one can be solved together. -/
theorem solveAll_eq {functions : List Func} (h : ∀ func ∈ functions, func.solve.result = .ok ()) :
    (solveAll functions).result = .ok ()
      ∧ (solveAll functions).state = functions.map (·.solve.state) := by
  induction functions with
  | nil => exact ⟨rfl, rfl⟩
  | cons func rest ih =>
    obtain ⟨hresult, hstate⟩ := ih fun other hother => h other (List.mem_cons_of_mem _ hother)
    have hfirst := h func List.mem_cons_self
    simp [solveAll, hfirst, hresult, hstate]

end Func

/-- What related lists have in the same place is related. -/
theorem forall₂_getElem? {α β : Type} {R : α → β → Prop} {xs : List α} {ys : List β}
    (h : List.Forall₂ R xs ys) {k : Nat} {y : β} (hy : ys[k]? = some y) :
    ∃ x, xs[k]? = some x ∧ R x y := by
  induction h generalizing k with
  | nil => simp at hy
  | @cons x y' xs ys hxy _ ih =>
    cases k with
    | zero =>
      obtain rfl : y' = y := by simpa using hy
      exact ⟨x, rfl, hxy⟩
    | succ k => exact ih (by simpa using hy)

/-- `Runs plans walks r solved`: the planned functions were solved to what walks did in each. -/
structure Runs (plans : List FuncPlan) (walks : Nat → List (List Nat)) (r : Registry)
    (solved : List Func) : Prop where
  length : solved.length = plans.length
  solvedAs : ∀ (k : Nat) (func : Func), solved[k]? = some func →
    ∃ plan, plans[k]? = some plan ∧ plan.SolvedAs (walks k) r func

/-- Functions whose counters were written by walks are solved to what the walks did. -/
theorem solveAll_counted {plans : List FuncPlan} {functions : List Func} {r : Registry}
    (hcounted : List.Forall₂ (·.CountedAs r) plans functions) {walks : Nat → List (List Nat)}
    (hran : ∀ (k : Nat) (plan : FuncPlan), plans[k]? = some plan →
      plan.Instrumented ∧ plan.RanAs (walks k)) :
    (Func.solveAll functions).result = .ok ()
      ∧ Runs plans walks r (Func.solveAll functions).state := by
  have hsolve : ∀ (k : Nat) (func : Func), functions[k]? = some func → ∃ plan, plans[k]? = some plan
      ∧ func.solve.result = .ok () ∧ plan.SolvedAs (walks k) r func.solve.state := by
    intro k func hfunc
    obtain ⟨plan, hplan, hcount⟩ := forall₂_getElem? hcounted hfunc
    obtain ⟨hinstrumented, hwalks⟩ := hran k plan hplan
    exact ⟨plan, hplan, hcount.solve hinstrumented hwalks⟩
  have hall : ∀ func ∈ functions, func.solve.result = .ok () := by
    intro func hfunc
    obtain ⟨k, hk⟩ := List.mem_iff_getElem?.mp hfunc
    obtain ⟨plan, -, hfunc, -⟩ := hsolve k func hk
    exact hfunc
  obtain ⟨hresult, hstate⟩ := Func.solveAll_eq hall
  refine ⟨hresult, { length := ?_, solvedAs := fun k func hfunc => ?_ }⟩
  · rw [hstate, List.length_map, hcounted.length_eq]
  · rw [hstate, List.getElem?_map] at hfunc
    obtain ⟨func, hget, rfl⟩ := Option.map_eq_some_iff.mp hfunc
    obtain ⟨plan, hplan, -, hsolved⟩ := hsolve k func hget
    exact ⟨plan, hplan, hsolved⟩

end Coverage
