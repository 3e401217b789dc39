import Coverage.Proofs.Frames
import Coverage.Proofs.PlannedFlows
import Coverage.Proofs.Truncation

/-!
# Data files that are cut off

A data file that is cut off brings fewer counters, and no wrong one.  At all times while a written
file is read, the functions have the counts of some of their arcs and are prepared for solving
(`Counters.visits_measured`).  So they are when the file ends too early, and what the solver makes
of some counts of a flow is that flow (`FuncPlan.MeasuredAs.solve`).
-/

namespace Coverage

namespace Counters

open Scanner

/-! ## Steps -/

section Cuts

variable {s : State}

theorem leave_cuts (t : State) (fin : Nat) : (t.leave fin).Cuts State.close s :=
  cuts_read_goOn (Cursor.skipTo_spans fin).stable rfl

theorem confirm_cuts (s : State) (position : Nat) (func : Func) (fin : Nat) :
    (confirm s position func fin).Cuts State.close s := by
  refine cuts_read Cursor.word_spans.stable fun checksum => ?_
  split
  · exact cuts_read (Cursor.skipWords_spans _).stable fun _ => leave_cuts _ _
  · exact cuts_finish _

theorem readFunction_cuts (s : State) (fin : Nat) : (readFunction s fin).Cuts State.close s := by
  refine cuts_read Cursor.word_spans.stable fun ident => ?_
  split
  · exact confirm_cuts s _ _ _
  · exact leave_cuts _ _

theorem resume_cuts (t : State) (position : Nat) (exits : List Exit) (fin : Nat) :
    (resume t position exits fin).Cuts State.close s := by
  cases exits with
  | nil => exact leave_cuts _ _
  | cons next further => exact cuts_goOn _

theorem beginCounters_cuts (s : State) (fin : Nat) :
    (beginCounters s fin).Cuts State.close s := by
  unfold beginCounters
  split
  · exact cuts_finish _
  · exact leave_cuts _ _
  · split
    · exact cuts_finish _
    · split
      · exact cuts_finish _
      · exact resume_cuts _ _ _ _

theorem readCounter_cuts (s : State) (position : Nat) (exit : Exit) (further : List Exit)
    (fin : Nat) : (readCounter s position exit further fin).Cuts State.close s := by
  refine cuts_read Cursor.counter_spans.stable fun count => ?_
  split
  · exact cuts_finish _
  · split
    · exact cuts_finish _
    · split
      · exact resume_cuts _ _ _ _
      · exact cuts_finish _

theorem handle_cuts (s : State) (tag length fin : Nat) :
    (handle s tag length fin).Cuts State.close s := by
  unfold handle
  split
  · exact readFunction_cuts s fin
  · split
    · exact beginCounters_cuts s fin
    · split
      · exact cuts_read (Cursor.skipWords_spans _).stable fun _ => leave_cuts _ _
      · split
        · exact cuts_read (Cursor.skipWords_spans _).stable fun _ => leave_cuts _ _
        · exact leave_cuts _ _

theorem step_cuts (s : State) : (step s).Cuts State.close s := by
  unfold step
  split
  · refine cuts_read Cursor.word_spans.stable fun tag => ?_
    split
    · exact cuts_goOn _
    · exact cuts_read readFrame_spans.stable fun (length, fin) => handle_cuts s tag length fin
  · exact readCounter_cuts s _ _ _ _

end Cuts

/-! ## Files -/

/-- `Visits functions bytes t`: decoding the file onto the functions passes through `t`. -/
def Visits (functions : List Func) (bytes : Bytes) (t : Scan State) : Prop :=
  ∃ version cursor, records? .data bytes = some (version, cursor)
    ∧ machine.Reaches { cursor, state := { version, functions } } t

/-- A file that is cut off behind its magic leaves what the whole file leaves, or what the decoder
has at some point of the whole file. -/
theorem decode_cut (functions : List Func) {bytes : Bytes} (h : wordSize ≤ bytes.length)
    (more : Bytes) :
    ((decode functions bytes).state = (decode functions (bytes ++ more)).state
        ∧ (decode functions bytes).result = (decode functions (bytes ++ more)).result)
      ∨ (decode functions bytes).result = .ok ()
        ∧ ((decode functions bytes).state = functions
          ∨ ∃ t, Visits functions (bytes ++ more) t
            ∧ (decode functions bytes).state = t.state.functions) := by
  have hopen := openFile_append .data h more
  cases hshort : openFile .data bytes with
  | error e =>
    rw [hshort] at hopen
    refine .inl ?_
    rw [decode, decode, hshort, hopen]
    exact ⟨rfl, rfl⟩
  | ok c =>
    rw [hshort] at hopen
    cases hversion : readVersion.run c with
    | error _ _ =>
      -- the header itself is cut off
      refine .inr ?_
      simp only [decode, hshort, hversion, true_or, and_self]
    | ok version c' =>
      have hrecords : records? .data (bytes ++ more) = some (version, c'.extend more) :=
        records?_eq_some hopen (readVersion_placeless.stable c version c' more hversion)
      obtain ⟨log, hdecode⟩ := decode_of_records functions (records?_eq_some hshort hversion)
      obtain ⟨log', hdecode'⟩ := decode_of_records functions hrecords
      rw [hdecode, hdecode']
      rcases run_cut (h := fun s => (advances_step s).mono (by decide)) step_cuts
          { cursor := c', state := { version, functions } } more with hrun | ⟨t, hreach, hclose⟩
      · refine .inl ?_
        change decodeRecords functions version c'
          = decodeRecords functions version (c'.extend more) at hrun
        rw [hrun]
        exact ⟨rfl, rfl⟩
      · refine .inr ?_
        change decodeRecords functions version c' = t.state.close at hclose
        rw [hclose]
        exact ⟨rfl, .inr ⟨t, ⟨version, c'.extend more, hrecords, hreach⟩, rfl⟩⟩

/-! ## Written files -/

/-- While a written file is read, the functions have the counters of some of their arcs. -/
theorem visits_measured {plan : UnitPlan} (hbuilt : plan.Built) (h : plan.Encodable)
    (hblocks : ∀ func ∈ plan.functions, 0 < func.blockCount)
    (hidents : (plan.functions.map (·.ident)).Nodup) {r : Registry} {funcs : List Func}
    (hreads : List.Forall₂ (·.ReadAs r) plan.functions funcs) {t : Scan State}
    (hvisits : Visits funcs plan.data t) :
    List.Forall₂ FuncPlan.MeasuredAs plan.functions t.state.functions := by
  obtain ⟨version, cursor, hrecords, hreach⟩ := hvisits
  obtain ⟨last, hcarries, hmode, -, hmeasured⟩ := carries_data hbuilt h hblocks hidents hreads
    (wordSize + (Writer.words plan.order [plan.version, plan.stamp]).length)
  rw [records?_data h.version] at hrecords
  cases hrecords
  have hthrough := hcarries []
  rw [List.append_nil] at hthrough
  rcases hthrough.of_reaches hreach with hbefore | hreach
  · exact hbefore
  · have hend := hreach.eq_of_stop _ (step_end hmode)
    rw [hend]
    exact hmeasured

/-- A written file that is cut off behind its magic is read without an error, and leaves the
functions with the counters of some of their arcs. -/
theorem decode_cut_measured {plan : UnitPlan} (hbuilt : plan.Built) (h : plan.Encodable)
    (hblocks : ∀ func ∈ plan.functions, 0 < func.blockCount)
    (hidents : (plan.functions.map (·.ident)).Nodup) {r : Registry} {funcs : List Func}
    (hreads : List.Forall₂ (·.ReadAs r) plan.functions funcs) {bytes : Bytes}
    (hcut : bytes <+: plan.data) (hmagic : wordSize ≤ bytes.length) :
    (decode funcs bytes).result = .ok ()
      ∧ List.Forall₂ FuncPlan.MeasuredAs plan.functions (decode funcs bytes).state := by
  obtain ⟨more, hmore⟩ := hcut
  obtain ⟨hdata, -, hmeasured⟩ := decode_data hbuilt h hblocks hidents hreads
  rcases decode_cut funcs hmagic more with
    ⟨hstate, hresult⟩ | ⟨hresult, hstate | ⟨t, hvisits, hstate⟩⟩
  · rw [hmore] at hstate hresult
    rw [hresult, hstate]
    exact ⟨hdata, hmeasured⟩
  · refine ⟨hresult, ?_⟩
    rw [hstate]
    exact forall₂_measuredAs hreads fun func hfunc => (hbuilt func hfunc).sound
  · refine ⟨hresult, ?_⟩
    rw [hstate]
    rw [hmore] at hvisits
    exact visits_measured hbuilt h hblocks hidents hreads hvisits

end Counters

/-! ## Truncated data -/

/-- A data file that is cut off never brings a wrong count.  Let the counts of all arcs of a plan be
flows that counters can hold.  However much of its data file is left, if only the magic is there,
the file is read onto the functions of its notes file without an error, and every function is
solved.  Then an arc has its count if it is resolved and zero if it is not, and a block with a count
has the flow that passes through it. -/
theorem decode_of_truncated (plan : UnitPlan) (hbuilt : plan.Built) (h : plan.Encodable)
    (hidents : (plan.functions.map (·.ident)).Nodup)
    (hflows : ∀ func ∈ plan.functions, func.Flows) (registry : Registry) :
    ∃ funcs, (Notes.decode registry plan.notes).result = .ok funcs
      ∧ ∀ bytes, bytes <+: plan.data → 4 ≤ bytes.length →
        (Counters.decode funcs bytes).result = .ok ()
        ∧ List.Forall₂ (fun (planned : FuncPlan) (func : Func) =>
            planned.HeadAs func ∧ func.solve.result = .ok () ∧ planned.Sees func.solve.state)
          plan.functions (Counters.decode funcs bytes).state := by
  have hblocks : ∀ func ∈ plan.functions, 0 < func.blockCount := by
    intro func hfunc
    have htwo := (hflows func hfunc).two_le
    omega
  obtain ⟨funcs, hresult, hreads, -, -⟩ := Notes.decode_notes hbuilt h registry
  refine ⟨funcs, hresult, fun bytes hcut hmagic => ?_⟩
  obtain ⟨hdata, hmeasured⟩ :=
    Counters.decode_cut_measured hbuilt h hblocks hidents hreads hcut hmagic
  refine ⟨hdata, List.Forall₂.imp (fun planned func hboth => ?_)
    ((List.forall₂_and_left _ _).mpr ⟨hflows, hmeasured⟩)⟩
  obtain ⟨hflow, hmeasured⟩ := hboth
  obtain ⟨hsolved, hsees⟩ := hmeasured.solve hflow
  exact ⟨hmeasured.toHeadAs, hsolved, hsees⟩

/-- A function with a loop, of which two rounds are made. -/
def loopPlan : UnitPlan where
  functions :=
    [{ ident := 1, checksum := 7, name := "loop", source := "loop.c", line := 3, blockCount := 4
       arcs := [{ src := 0, dst := 1, flags := 1, count := 1 }, { src := 1, dst := 2, count := 2 },
         { src := 2, dst := 1, flags := 1, count := 2 }, { src := 1, dst := 3, count := 1 }] }]

/-- The additions that make the unit. -/
def loopSteps : List PlanStep :=
  [.function "loop" "loop.c" 3 none 7, .blocks 4, .arc 0 1 1 1, .arc 1 2 0 2, .arc 2 1 1 2,
    .arc 1 3 0 1]

theorem loopPlan_built : loopPlan.Built := by
  have happly : UnitPlan.applyAll {} loopSteps = .ok loopPlan := by
    decide
  refine UnitPlan.Built.applyAll (fun _ hfunc => absurd hfunc List.not_mem_nil)
    (fun count hcount => ?_) happly
  simp [loopSteps] at hcount
  omega

theorem loopPlan_flows : ∀ func ∈ loopPlan.functions, func.Flows := by
  intro func hfunc
  obtain rfl := List.mem_singleton.mp hfunc
  exact {
    two_le := by decide
    no_entry := by decide
    no_exit := by decide
    counts := by decide
    balanced := by decide }

/-- The file ends between the two words of the second counter. -/
theorem loopPlan_truncated :
    loopPlan.Built ∧ loopPlan.Encodable ∧ (loopPlan.functions.map (·.ident)).Nodup
      ∧ (∀ func ∈ loopPlan.functions, func.Flows)
      ∧ loopPlan.data.take 52 <+: loopPlan.data ∧ 4 ≤ (loopPlan.data.take 52).length
      ∧ ∃ funcs, (Notes.decode {} loopPlan.notes).result = .ok funcs
        ∧ (Counters.decode funcs (loopPlan.data.take 52)).result = .ok ()
        ∧ ∃ func, (Counters.decode funcs (loopPlan.data.take 52)).state = [func]
          ∧ func.name = "loop" ∧ func.solve.result = .ok ()
          ∧ ∀ arc ∈ func.solve.state.graph.orderedArcs, arc.resolved = true →
            (arc.src, arc.dst, arc.count) ∈ [(0, 1, 1), (1, 2, 2), (1, 3, 1), (2, 1, 2)] := by
  have hcut : loopPlan.data.take 52 <+: loopPlan.data := List.take_prefix _ _
  have hmagic : 4 ≤ (loopPlan.data.take 52).length := by decide
  obtain ⟨funcs, hnotes, htruncated⟩ := decode_of_truncated loopPlan loopPlan_built (by decide)
    (by decide) loopPlan_flows {}
  obtain ⟨hdata, hfuncs⟩ := htruncated _ hcut hmagic
  refine ⟨loopPlan_built, by decide, by decide, loopPlan_flows, hcut, hmagic, funcs, hnotes, hdata,
    ?_⟩
  generalize (Counters.decode funcs (loopPlan.data.take 52)).state = counted at hfuncs
  obtain _ | ⟨⟨hhead, hsolved, hsees⟩, ⟨⟩⟩ := hfuncs
  refine ⟨_, rfl, hhead.name, hsolved, fun arc harc hres => ?_⟩
  have hplanned : ∀ func ∈ loopPlan.functions, ∀ arc ∈ func.orderedArcs,
      (arc.src, arc.dst, arc.count) ∈ [((0 : Nat), (1 : Nat), (1 : Int)), (1, 2, 2), (1, 3, 1),
        (2, 1, 2)] := by
    decide
  obtain ⟨id, hid, rfl⟩ := List.getElem_of_mem harc
  obtain ⟨hlength, hget⟩ := List.forall₂_iff_get.mp hsees.arcs
  obtain ⟨hshape, hcount⟩ := hget id (hlength ▸ hid) hid
  rw [List.get_eq_getElem, if_pos hres] at hcount
  rw [List.get_eq_getElem, Prod.mk.injEq, Prod.mk.injEq] at hshape
  rw [hshape.1, hshape.2.1, hcount]
  exact hplanned _ (List.mem_singleton.mpr rfl) _ (List.get_mem _ _)

end Coverage
