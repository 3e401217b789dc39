import Coverage.Proofs.DataReading
import Coverage.Proofs.NotesRoundTrip

/-!
# Data files round trip

A data file that was written from a plan gives every arc off the spanning tree the count that the
plan has for it, as far as a counter can hold it, and leaves all other arcs unresolved
(`Counters.decode_data`).  The functions are then prepared for solving, and so they are at all
times before, with counters on some of the arcs (`FuncPlan.MeasuredAs`).
-/

namespace Coverage

/-- An arc of a plan after the counters were read. -/
def ArcPlan.counted (arc : ArcPlan) : Arc :=
  if arc.onTree then arc.noted
  else { arc.noted with count := storedCount arc.count, resolved := true }

theorem ArcPlan.counted_eq (arc : ArcPlan) :
    (arc.counted.src, arc.counted.dst, arc.counted.flags, arc.counted.resolved, arc.counted.count)
      = (arc.src, arc.dst, arc.flags, !arc.onTree,
          if arc.onTree then 0 else arc.count % 2 ^ 64) := by
  rw [ArcPlan.counted]
  cases htree : arc.onTree with
  | true => rfl
  | false => simp [ArcPlan.noted, natCast_storedCount]

/-- `plan.CountedAs r func`: the function is what the plan says, counters included. -/
structure FuncPlan.CountedAs (plan : FuncPlan) (r : Registry) (func : Func) : Prop
    extends plan.HeadAs func where
  size : func.graph.size = plan.blockCount.toNat
  prepared : func.graph.Prepared
  arcs : func.graph.arcs = (plan.orderedArcs.map ArcPlan.counted).toArray
  orderedArcs : func.graph.orderedArcs = plan.orderedArcs.map ArcPlan.counted
  lists : func.Lists r plan.attributions

/-- `plan.MeasuredAs func`: the function is what the plan says, with the counters of some arcs. -/
structure FuncPlan.MeasuredAs (plan : FuncPlan) (func : Func) : Prop extends plan.HeadAs func where
  size : func.graph.size = plan.blockCount.toNat
  prepared : func.graph.Prepared
  exitOrder : func.graph.exitOrder = List.range plan.orderedArcs.length
  arcs : ∀ id : Nat, func.graph.arcs[id]? = (plan.orderedArcs[id]?).map ArcPlan.noted
    ∨ func.graph.arcs[id]? = (plan.orderedArcs[id]?).map ArcPlan.counted

/-- The counter that is stored for the arc of a number. -/
def FuncPlan.storedAt (plan : FuncPlan) (id : Nat) : Nat :=
  (plan.orderedArcs[id]?).elim 0 fun arc => storedCount arc.count

namespace Counters

open Writer

/-! ## The arcs that are measured -/

/-- What passes a test, by position. -/
theorem map_filter_range {α β : Type} (p : α → Bool) (f : α → β) (b : β) (l : List α) :
    ((List.range l.length).filter fun i => (l[i]?).any p).map (fun i => (l[i]?).elim b f)
      = (l.filter p).map f := by
  induction l with
  | nil => rfl
  | cons a l ih =>
    have hstart : (((a :: l)[0]?).any p) = p a := rfl
    rw [List.length_cons, List.range_succ_eq_map, List.filter_cons, hstart, List.filter_map,
      List.filter_cons]
    split <;> simpa [Function.comp_def] using ih

section Measured

variable {plan : FuncPlan} {r : Registry} {func : Func}

theorem arcs_getElem? (h : plan.ReadAs r func) (id : Nat) :
    func.graph.arcs[id]? = (plan.orderedArcs[id]?).map ArcPlan.noted := by
  rw [h.arcs, List.getElem?_toArray, List.getElem?_map]

theorem measuredIds_eq (h : plan.ReadAs r func) (hsound : plan.Sound) :
    measuredIds func.graph = (List.range plan.orderedArcs.length).filter fun id =>
      (plan.orderedArcs[id]?).any (!·.onTree) := by
  rw [measuredIds, h.exitOrder hsound]
  refine List.filter_congr fun id _ => ?_
  rw [arcs_getElem? h]
  cases plan.orderedArcs[id]? <;> rfl

theorem mem_measuredIds (h : plan.ReadAs r func) (hsound : plan.Sound) {id : Nat} :
    id ∈ measuredIds func.graph ↔ ∃ arc, plan.orderedArcs[id]? = some arc ∧ arc.onTree = false := by
  rw [measuredIds_eq h hsound, List.mem_filter, List.mem_range]
  constructor
  · rintro ⟨hid, hany⟩
    rw [List.getElem?_eq_getElem hid] at hany ⊢
    exact ⟨_, rfl, by simpa using hany⟩
  · rintro ⟨arc, harc, htree⟩
    exact ⟨(List.getElem?_eq_some_iff.mp harc).1, by simp [harc, htree]⟩

theorem storedCounts_eq (h : plan.ReadAs r func) (hsound : plan.Sound) :
    plan.measuredCounts.map storedCount = (measuredIds func.graph).map plan.storedAt := by
  have hstored := map_filter_range (fun arc : ArcPlan => !arc.onTree)
    (fun arc => storedCount arc.count) 0 plan.orderedArcs
  rw [measuredIds_eq h hsound, FuncPlan.measuredCounts, List.map_map]
  exact hstored.symm

/-- What the counters of some arcs make of a function. -/
theorem countArcs_measured (h : plan.ReadAs r func) (hsound : plan.Sound) {ids : List Nat}
    (hnodup : ids.Nodup) (hids : ∀ id ∈ ids, id ∈ measuredIds func.graph) :
    (countArcs func.graph ids (ids.map plan.storedAt)).Prepared
      ∧ (countArcs func.graph ids (ids.map plan.storedAt)).size = func.graph.size
      ∧ (countArcs func.graph ids (ids.map plan.storedAt)).exitOrder = func.graph.exitOrder
      ∧ (∀ (i : Nat) (b' : Block),
          (countArcs func.graph ids (ids.map plan.storedAt)).blocks[i]? = some b' →
          ∃ b, func.graph.blocks[i]? = some b ∧ b'.lines = b.lines)
      ∧ ∀ id, (countArcs func.graph ids (ids.map plan.storedAt)).arcs[id]?
          = (plan.orderedArcs[id]?).map fun arc => if id ∈ ids then arc.counted else arc.noted := by
  have hunresolved : ∀ id ∈ ids, ∃ arc, func.graph.arcs[id]? = some arc ∧ arc.resolved = false := by
    intro id hid
    obtain ⟨arc, harc, -⟩ := (mem_measuredIds h hsound).mp (hids id hid)
    exact ⟨arc.noted, by rw [arcs_getElem? h, harc, Option.map_some], rfl⟩
  obtain ⟨hprepared, hsize, hside, hlines, harcs⟩ :=
    countArcs_spec ids hnodup plan.storedAt (h.prepared hsound) hunresolved
  refine ⟨hprepared, hsize, FlowGraph.exitOrder_congr hsize fun i => hside i .exits, hlines,
    fun id => ?_⟩
  rw [harcs, arcs_getElem? h]
  cases harc : plan.orderedArcs[id]? with
  | none => rfl
  | some arc =>
    simp only [Option.map_some]
    split
    · next hid =>
      obtain ⟨arc', harc', htree⟩ := (mem_measuredIds h hsound).mp (hids id hid)
      cases harc.symm.trans harc'
      rw [ArcPlan.counted, if_neg (by simp [htree]), FuncPlan.storedAt, harc]
      rfl
    · rfl

theorem nodup_measuredIds (h : plan.ReadAs r func) (hsound : plan.Sound) :
    (measuredIds func.graph).Nodup := by
  rw [measuredIds_eq h hsound]
  exact List.nodup_range.filter _

/-- What is read from the first counters of a function. -/
theorem measuredAs (h : plan.ReadAs r func) (hsound : plan.Sound) (k : Nat) :
    plan.MeasuredAs (func.mapGraph (countArcs · ((measuredIds func.graph).take k)
      ((plan.measuredCounts.map storedCount).take k))) := by
  obtain ⟨hprepared, hsize, hexits, -, harcs⟩ := countArcs_measured h hsound
    ((nodup_measuredIds h hsound).sublist (List.take_sublist k _))
    fun id hid => List.mem_of_mem_take hid
  rw [storedCounts_eq h hsound, ← List.map_take]
  exact {
    toHeadAs := ⟨h.ident, h.checksum, h.name, h.source, h.firstLine⟩
    size := hsize.trans h.size
    prepared := hprepared
    exitOrder := hexits.trans (h.exitOrder hsound)
    arcs := fun id => by
      by_cases hid : id ∈ (measuredIds func.graph).take k
      · refine .inr ((harcs id).trans ?_)
        simp only [if_pos hid]
      · refine .inl ((harcs id).trans ?_)
        simp only [if_neg hid] }

/-- Functions as the notes file has them, of which no counter is read yet. -/
theorem forall₂_measuredAs {plans : List FuncPlan} {funcs : List Func}
    (h : List.Forall₂ (·.ReadAs r) plans funcs) (hsound : ∀ plan ∈ plans, plan.Sound) :
    List.Forall₂ FuncPlan.MeasuredAs plans funcs := by
  refine List.Forall₂.imp (fun plan func hboth => ?_)
    ((List.forall₂_and_left _ _).mpr ⟨hsound, h⟩)
  exact measuredAs hboth.2 hboth.1 0

/-- What is read from the counters of a function. -/
theorem countedAs (h : plan.ReadAs r func) (hsound : plan.Sound) :
    plan.CountedAs r (func.mapGraph (countArcs · (measuredIds func.graph)
      (plan.measuredCounts.map storedCount))) := by
  obtain ⟨hprepared, hsize, hexits, hlines, harcs⟩ := countArcs_measured h hsound
    (nodup_measuredIds h hsound) fun _ => id
  rw [storedCounts_eq h hsound]
  have harcs' : (countArcs func.graph (measuredIds func.graph)
      ((measuredIds func.graph).map plan.storedAt)).arcs
      = (plan.orderedArcs.map ArcPlan.counted).toArray := by
    refine Array.ext_getElem? fun id => ?_
    rw [harcs, List.getElem?_toArray, List.getElem?_map]
    refine Option.map_congr fun arc harc => ?_
    split
    · rfl
    · next hid =>
      -- an arc without a counter is on the spanning tree
      rw [mem_measuredIds h hsound] at hid
      rw [ArcPlan.counted, if_pos]
      by_contra htree
      exact hid ⟨arc, harc, by simpa using htree⟩
  exact {
    toHeadAs := ⟨h.ident, h.checksum, h.name, h.source, h.firstLine⟩
    size := hsize.trans h.size
    prepared := hprepared
    arcs := harcs'
    orderedArcs := by
      refine FlowGraph.orderedArcs_of_exitOrder harcs' ?_
      rw [List.length_map, ← h.exitOrder hsound]
      exact hexits
    lists := fun i b' hb' => by
      obtain ⟨b, hb, hline⟩ := hlines i b' hb'
      obtain ⟨emitted, hlists⟩ := h.lists i b hb
      exact ⟨emitted, hlists.of_lines hline⟩ }

end Measured

/-! ## Functions -/

variable {s : State}

section Functions

variable (order : ByteOrder) (offset : Nat)

/-- The records of a function whose place is behind the functions that are done.  Until the last
counter is read, some of its arcs are measured. -/
theorem carries_function {Q : List Func → Prop} {plan : FuncPlan} (h : plan.Encodable)
    (hsound : plan.Sound) (hblocks : 0 < plan.blockCount) (hmode : s.mode = .between)
    {r : Registry} {func : Func} (hread : plan.ReadAs r func) {done todo : List Func}
    (hfunctions : s.functions = done ++ func :: todo)
    (hdone : ∀ f ∈ done, f.ident ≠ func.ident)
    (hQ : ∀ f, plan.MeasuredAs f → Q (done ++ f :: todo)) :
    ∃ counted, machine.CarriesIn (fun u => Q u.functions) order offset
        (plan.dataRecords s.version order) s
        { s with functions := done ++ counted :: todo, selection := .none }
      ∧ plan.CountedAs r counted ∧ plan.MeasuredAs counted := by
  have hids : (measuredIds func.graph).length = plan.measuredCounts.length := by
    have hlength := congrArg List.length (storedCounts_eq hread hsound)
    rwa [List.length_map, List.length_map, eq_comm] at hlength
  have hall := measuredAs hread hsound plan.measuredCounts.length
  rw [List.take_of_length_le (Nat.le_of_eq hids),
    List.take_of_length_le (by rw [List.length_map])] at hall
  refine ⟨_, ?_, countedAs hread hsound, hall⟩
  have hnone : Q s.functions := by
    rw [hfunctions]
    exact hQ func (measuredAs hread hsound 0)
  have hselect : machine.CarriesIn (fun u => Q u.functions) order offset _ s
      { s with selection := .matched done.length } :=
    carriesIn_of_passes hnone
      (passes_selection hmode h hfunctions hdone hread.ident hread.checksum)
  have hfunc : s.functions[done.length]? = some func := by
    rw [hfunctions, List.getElem?_append_right (Nat.le_refl _), Nat.sub_self]
    rfl
  have hsize : func.graph.size ≠ 0 := by
    rw [hread.size]
    omega
  have hlinked := (hread.prepared hsound).linked
  have harcs : ∀ exit ∈ measuredExits func.graph, ∃ arc, func.graph.arcs[exit.id]? = some arc
      ∧ arc.src = exit.block ∧ arc.dst < func.graph.size := by
    intro exit hexit
    have harc := Array.getElem?_eq_getElem (lt_arcs_of_mem_measuredIds (id_mem_measuredIds hexit))
    exact ⟨_, harc, src_of_mem_measuredExits hlinked hexit harc, hlinked.nearEnd_lt harc .entries⟩
  have hset : ∀ f, s.functions.set done.length f = done ++ f :: todo := by
    intro f
    rw [hfunctions, List.set_append_right _ _ (Nat.le_refl _), Nat.sub_self]
    rfl
  have hcounts : ∀ k, Q (s.functions.set done.length (func.mapGraph
      (countArcs · ((measuredIds func.graph).take k)
        ((plan.measuredCounts.map storedCount).take k)))) := by
    intro k
    rw [hset]
    exact hQ _ (measuredAs hread hsound k)
  rw [← hset]
  exact hselect.trans (carries_countersRecord (s := { s with selection := .matched done.length })
    hmode rfl hfunc hsize hids harcs h.counters hcounts)

/-- The records of functions, one after another.  All the while some of their arcs are measured. -/
theorem carries_functions (plans : List FuncPlan) (hplans : ∀ plan ∈ plans, plan.Encodable)
    (hsound : ∀ plan ∈ plans, plan.Sound) (hblocks : ∀ plan ∈ plans, 0 < plan.blockCount)
    {r : Registry} {s : State} (hmode : s.mode = .between) {done todo : List Func}
    (hfunctions : s.functions = done ++ todo) (hreads : List.Forall₂ (·.ReadAs r) plans todo)
    (hidents : ((done ++ todo).map (·.ident)).Nodup) {before : List FuncPlan}
    (hbefore : List.Forall₂ FuncPlan.MeasuredAs before done) :
    ∃ t counted, machine.CarriesIn
        (fun u => List.Forall₂ FuncPlan.MeasuredAs (before ++ plans) u.functions) order offset
        (plans.flatMap fun plan => plan.dataRecords s.version order) s t
      ∧ t.mode = .between ∧ t.version = s.version ∧ t.functions = done ++ counted
      ∧ List.Forall₂ (·.CountedAs r) plans counted
      ∧ List.Forall₂ FuncPlan.MeasuredAs plans counted := by
  induction hreads generalizing s done offset before with
  | nil => exact ⟨s, [], .refl s, hmode, rfl, hfunctions, .nil, .nil⟩
  | @cons plan func plans todo hread hreads ih =>
    have hdone : ∀ f ∈ done, f.ident ≠ func.ident := by
      rw [List.map_append, List.nodup_append] at hidents
      exact fun f hf => hidents.2.2 _ (List.mem_map_of_mem hf) _ (by simp)
    have htodo : List.Forall₂ FuncPlan.MeasuredAs plans todo :=
      forall₂_measuredAs hreads fun p hp => hsound p (List.mem_cons_of_mem _ hp)
    obtain ⟨counted, hcarries, hcounted, hmeasured⟩ :=
      carries_function order offset (hplans plan List.mem_cons_self)
        (hsound plan List.mem_cons_self) (hblocks plan List.mem_cons_self) hmode hread hfunctions
        hdone fun f hf => List.rel_append hbefore (.cons hf htodo)
    have hident : counted.ident = func.ident := by
      have := hcounted.ident
      have := hread.ident
      omega
    have hsplit : done ++ counted :: todo = (done ++ [counted]) ++ todo := by simp
    have hbefore' : List.Forall₂ FuncPlan.MeasuredAs (before ++ [plan]) (done ++ [counted]) :=
      List.rel_append hbefore (.cons hmeasured .nil)
    obtain ⟨t, rest, hcarries', hmode', hversion, hfunctions', hcounteds, hmeasureds⟩ :=
      ih (offset + (plan.dataRecords s.version order).length)
        (fun p hp => hplans p (List.mem_cons_of_mem _ hp))
        (fun p hp => hsound p (List.mem_cons_of_mem _ hp))
        (fun p hp => hblocks p (List.mem_cons_of_mem _ hp))
        (s := { s with functions := done ++ counted :: todo, selection := .none }) hmode hsplit
        (by simpa [hident] using hidents) hbefore'
    rw [List.append_assoc, List.singleton_append] at hcarries'
    refine ⟨t, counted :: rest, ?_, hmode', hversion, ?_, .cons hcounted hcounteds,
      .cons hmeasured hmeasureds⟩
    · rw [List.flatMap_cons]
      exact hcarries.trans hcarries'
    · rw [hfunctions', List.append_assoc]
      rfl

end Functions

/-! ## Summaries -/

variable {order : ByteOrder} {offset : Nat}

/-- A record of which some words are skipped and the others left. -/
theorem passes_skipped (hmode : s.mode = .between) {tag words skipped : Nat} {payload : Bytes}
    (htag : 0 < tag) (htag' : tag < wordRange) (hlength : payload.length = words * wordSize)
    (hwords : words < wordRange) (hskipped : skipped ≤ words)
    (hhandle : ∀ fin, handle s tag words fin
      = s.read (Cursor.skipWords skipped) fun _ => s.leave fin) :
    (step s).Passes order offset (record order tag payload) s := by
  have hs : { s with mode := .between } = s := by rw [← hmode]
  refine passes_record hmode htag htag' hlength hwords fun offset => ?_
  have htake : (payload.take (skipped * wordSize)).length = skipped * wordSize := by
    rw [List.length_take, hlength]
    exact Nat.min_eq_left (Nat.mul_le_mul_right _ hskipped)
  have hleave : (s.leave (offset + payload.length)).Passes order
      (offset + (payload.take (skipped * wordSize)).length) (payload.drop (skipped * wordSize))
      { s with mode := .between } := by
    refine passes_leave ?_
    rw [Nat.add_assoc, ← List.length_append, List.take_append_drop]
  have hread : (handle s tag words (offset + payload.length)).Passes order offset
      (payload.take (skipped * wordSize) ++ payload.drop (skipped * wordSize)) s := by
    rw [hhandle, ← hs]
    exact passes_read (Cursor.takes_skipWords htake) hleave
  rwa [List.take_append_drop] at hread

/-- The summaries are passed over. -/
theorem carries_summaries {Q : List Func → Prop} {plan : UnitPlan}
    (hversion : ((s.version : Nat) : Int) = plan.version) (hmode : s.mode = .between)
    (hQ : Q s.functions) :
    machine.CarriesIn (fun u => Q u.functions) plan.order offset plan.summaryRecords s s := by
  rw [UnitPlan.summaryRecords, ← hversion]
  split
  · next hshort =>
    have hwords : objectSummaryWords s.version = 2 := by rw [objectSummaryWords, if_pos hshort]
    have hlength : (words plan.order [1, plan.greatestCount]).length = 2 * wordSize :=
      length_words _ _
    refine carriesIn_of_passes hQ (passes_skipped hmode (by decide) (by decide) hlength (by decide)
      (Nat.le_refl 2) fun fin => ?_)
    rw [← hwords]
    rfl
  · next hlong =>
    have hwords : objectSummaryWords s.version = 6 := by rw [objectSummaryWords, if_neg hlong]
    have hobject : machine.CarriesIn (fun u => Q u.functions) plan.order offset
        (record plan.order objectSummaryTag (words plan.order (List.replicate 9 0))) s s := by
      refine carriesIn_of_passes hQ (passes_skipped hmode (by decide) (by decide) (length_words _ _)
        (by decide) (by decide : 6 ≤ 9) fun fin => ?_)
      rw [← hwords]
      rfl
    refine hobject.trans (carriesIn_of_passes hQ (passes_skipped hmode (by decide) (by decide)
      (length_words _ _) (by decide) (Nat.le_refl 9) fun fin => rfl))

/-! ## Files -/

theorem records?_data {plan : UnitPlan} (h : InWord plan.version) :
    records? .data plan.data = some (plan.version.toNat,
      { rest := plan.functions.flatMap (·.dataRecords plan.version plan.order)
          ++ plan.summaryRecords
        offset := wordSize + (words plan.order [plan.version, plan.stamp]).length
        order := plan.order }) := by
  rw [UnitPlan.data, List.append_assoc]
  exact records?_header .data h _

theorem map_ident_eq {plans : List FuncPlan} {funcs : List Func} {r : Registry}
    (h : List.Forall₂ (·.ReadAs r) plans funcs) :
    plans.map (·.ident) = funcs.map fun func => (func.ident : Int) := by
  induction h with
  | nil => rfl
  | cons hread _ ih => rw [List.map_cons, List.map_cons, ih, hread.ident]

/-- The records of a data file, which leave every arc off the spanning tree with its count.  All
the while some arcs are measured. -/
theorem carries_data {plan : UnitPlan} (hbuilt : plan.Built) (h : plan.Encodable)
    (hblocks : ∀ func ∈ plan.functions, 0 < func.blockCount)
    (hidents : (plan.functions.map (·.ident)).Nodup) {r : Registry} {funcs : List Func}
    (hreads : List.Forall₂ (·.ReadAs r) plan.functions funcs) (offset : Nat) :
    ∃ t, machine.CarriesIn (fun u => List.Forall₂ FuncPlan.MeasuredAs plan.functions u.functions)
        plan.order offset
        (plan.functions.flatMap (·.dataRecords plan.version plan.order) ++ plan.summaryRecords)
        { version := plan.version.toNat, functions := funcs } t
      ∧ t.mode = .between ∧ List.Forall₂ (·.CountedAs r) plan.functions t.functions
      ∧ List.Forall₂ FuncPlan.MeasuredAs plan.functions t.functions := by
  have hversion : ((plan.version.toNat : Nat) : Int) = plan.version :=
    Int.toNat_of_nonneg h.version.1
  have hidents' : (funcs.map (·.ident)).Nodup := by
    rw [map_ident_eq hreads] at hidents
    exact List.Nodup.of_map (fun n : Nat => (n : Int)) (by simpa [Function.comp_def] using hidents)
  obtain ⟨t, counted, hcarries, hmode, hversion', hfunctions, hcounted, hmeasured⟩ :=
    carries_functions plan.order offset plan.functions h.functions
      (fun func hfunc => (hbuilt func hfunc).sound) hblocks
      (s := { version := plan.version.toNat, functions := funcs }) rfl (List.nil_append funcs).symm
      hreads hidents' .nil
  rw [hversion, List.nil_append] at hcarries
  rw [List.nil_append] at hfunctions
  subst hfunctions
  refine ⟨t, hcarries.trans (carries_summaries ?_ hmode hmeasured), hmode, hcounted, hmeasured⟩
  rw [hversion', hversion]

/-- A data file is read onto the functions of its notes file: every arc off the spanning tree gets
the count that the plan has for it. -/
theorem decode_data {plan : UnitPlan} (hbuilt : plan.Built) (h : plan.Encodable)
    (hblocks : ∀ func ∈ plan.functions, 0 < func.blockCount)
    (hidents : (plan.functions.map (·.ident)).Nodup) {r : Registry} {funcs : List Func}
    (hreads : List.Forall₂ (·.ReadAs r) plan.functions funcs) :
    (decode funcs plan.data).result = .ok ()
      ∧ List.Forall₂ (·.CountedAs r) plan.functions (decode funcs plan.data).state
      ∧ List.Forall₂ FuncPlan.MeasuredAs plan.functions (decode funcs plan.data).state := by
  obtain ⟨t, hcarries, hmode, hcounted, hmeasured⟩ := carries_data hbuilt h hblocks hidents hreads
    (wordSize + (words plan.order [plan.version, plan.stamp]).length)
  have hrun := hcarries.run_eq []
  rw [List.append_nil] at hrun
  obtain ⟨log, hdecode⟩ := decode_of_records funcs (records?_data h.version)
  rw [hdecode, decodeRecords, hrun, run_end hmode]
  exact ⟨rfl, hcounted, hmeasured⟩

end Counters

end Coverage
