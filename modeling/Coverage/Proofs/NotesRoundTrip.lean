import Coverage.Proofs.NotesReading

/-!
# Notes files round trip

A notes file that was written from a plan is read as what the plan says, onto whatever registry
there is (`Notes.decode_notes`): every function has its header, the arcs of the plan by ascending
source, and the lines that were attributed to its blocks.  The registry keeps what it had, and
lists further sources in the order in which the plan names them.
-/

namespace Coverage

/-- `plan.HeadAs func`: the function has the header that the plan says. -/
structure FuncPlan.HeadAs (plan : FuncPlan) (func : Func) : Prop where
  ident : (func.ident : Int) = plan.ident
  checksum : (func.checksum : Int) = plan.checksum
  name : func.name = plan.name
  source : func.source = plan.source
  firstLine : (func.firstLine : Int) = plan.line

/-- `plan.ReadAs r func`: the function is what the plan says, with its sources in the registry. -/
structure FuncPlan.ReadAs (plan : FuncPlan) (r : Registry) (func : Func) : Prop
    extends plan.HeadAs func where
  skeleton : func.graph.skeleton
    = .ofArcs plan.blockCount.toNat (plan.orderedArcs.map ArcPlan.noted)
  lists : func.Lists r plan.attributions

namespace FuncPlan.ReadAs

variable {plan : FuncPlan} {r r' : Registry} {func : Func}

theorem mono (h : plan.ReadAs r func) (hr : r.Extends r') : plan.ReadAs r' func :=
  { h with lists := h.lists.mono hr }

theorem size (h : plan.ReadAs r func) : func.graph.size = plan.blockCount.toNat := by
  rw [← FlowGraph.skeleton_size, h.skeleton, FlowGraph.ofArcs_size]

theorem arcs (h : plan.ReadAs r func) :
    func.graph.arcs = (plan.orderedArcs.map ArcPlan.noted).toArray := by
  rw [← FlowGraph.skeleton_arcs, h.skeleton, FlowGraph.ofArcs_arcs]

theorem prepared (h : plan.ReadAs r func) (hsound : plan.Sound) : func.graph.Prepared := by
  refine FlowGraph.Prepared.of_skeleton ?_
  rw [h.skeleton]
  refine FlowGraph.prepared_ofArcs fun arc harc => ?_
  obtain ⟨planned, hplanned, rfl⟩ := List.mem_map.mp harc
  exact hsound.arcs planned (mem_orderedArcs.mp hplanned)

theorem exitOrder (h : plan.ReadAs r func) (hsound : plan.Sound) :
    func.graph.exitOrder = List.range plan.orderedArcs.length := by
  rw [← FlowGraph.skeleton_exitOrder, h.skeleton, FlowGraph.exitOrder_ofArcs, List.length_map]
  · rw [List.pairwise_map]
    exact plan.pairwise_orderedArcs
  · intro arc harc
    obtain ⟨planned, hplanned, rfl⟩ := List.mem_map.mp harc
    exact (hsound.arcs planned (mem_orderedArcs.mp hplanned)).1

theorem orderedArcs (h : plan.ReadAs r func) (hsound : plan.Sound) :
    func.graph.orderedArcs = plan.orderedArcs.map ArcPlan.noted :=
  FlowGraph.orderedArcs_of_exitOrder h.arcs (by rw [h.exitOrder hsound, List.length_map])

end FuncPlan.ReadAs

namespace Notes

open Writer

variable {order : ByteOrder} {offset : Nat} {s : State}

/-! ## The arcs of a function -/

theorem skeleton_linkPlanned (func : Func) {arc : ArcPlan} (hflags : 0 ≤ arc.flags) :
    (linkPlanned func arc).graph.skeleton = func.graph.skeleton.addArc arc.noted := by
  have harc : ({ src := arc.src, dst := arc.dst, flags := (arc.flags.toNat : Int) } : Arc)
      = arc.noted := by
    rw [Int.toNat_of_nonneg hflags, ArcPlan.noted]
  simp only [linkPlanned, linkArc, Func.mapGraph, harc]
  split
  · rw [FlowGraph.skeleton_mapBlock _ _ fun _ => by rfl, FlowGraph.skeleton_addArc]
  · exact FlowGraph.skeleton_addArc _ _

theorem lists_linkPlanned {func : Func} {r : Registry} {named : Nat → List (String × Nat)}
    (h : func.Lists r named) (arc : ArcPlan) : (linkPlanned func arc).Lists r named := by
  intro i b hb
  obtain ⟨b₀, hb₀, hlines⟩ := lines_linkArc hb
  obtain ⟨emitted, hlists⟩ := h i b₀ hb₀
  exact ⟨emitted, hlists.of_lines hlines⟩

theorem foldl_linkPlanned (arcs : List ArcPlan) (hflags : ∀ arc ∈ arcs, 0 ≤ arc.flags) {func : Func}
    {r : Registry} {named : Nat → List (String × Nat)} (h : func.Lists r named) :
    ∃ graph, arcs.foldl linkPlanned func = { func with graph }
      ∧ graph.skeleton = (arcs.map ArcPlan.noted).foldl FlowGraph.addArc func.graph.skeleton
      ∧ (arcs.foldl linkPlanned func).Lists r named := by
  induction arcs generalizing func with
  | nil => exact ⟨func.graph, rfl, rfl, h⟩
  | cons arc arcs ih =>
    obtain ⟨graph, hfunc, hskeleton, hlists⟩ :=
      ih (fun a ha => hflags a (List.mem_cons_of_mem _ ha)) (lists_linkPlanned h arc)
    refine ⟨graph, hfunc, ?_, hlists⟩
    rw [hskeleton, skeleton_linkPlanned func (hflags arc List.mem_cons_self)]
    rfl

/-- The records of the arcs of a function. -/
theorem carries_arcsRecords (groups : List (Nat × List ArcPlan)) {s : State} {func : Func}
    (hmode : s.mode = .between) (hopen : s.current = some func)
    (hsize : func.graph.size ≤ wordRange)
    (hgroups : ∀ group ∈ groups, group.1 < func.graph.size
      ∧ 2 * group.2.length + 1 < wordRange
      ∧ ∀ arc ∈ group.2, arc.src = group.1 ∧ arc.dst < func.graph.size ∧ InWord arc.flags) :
    machine.Carries order offset (groups.flatMap fun (src, arcs) =>
        record order GraphRecord.arcs.tag (FuncPlan.arcsPayload order src arcs)) s
      { s with current := some ((groups.flatMap (·.2)).foldl linkPlanned func) } := by
  induction groups generalizing s func offset with
  | nil =>
    have hs : { s with current := some func } = s := by rw [← hopen]
    rw [List.flatMap_nil, List.flatMap_nil, List.foldl_nil, hs]
    exact .refl s
  | cons group groups ih =>
    obtain ⟨hsrc, hlength, harcs⟩ := hgroups group List.mem_cons_self
    rw [List.flatMap_cons, List.flatMap_cons, List.foldl_append]
    refine (carries_arcsRecord hmode hopen hsize hsrc hlength harcs).trans ?_
    refine ih hmode rfl (by rwa [foldl_linkPlanned_size]) fun group' hgroup' => ?_
    rw [foldl_linkPlanned_size]
    exact hgroups group' (List.mem_cons_of_mem _ hgroup')

/-! ## Functions -/

/-- The groups of the arcs of a plan fit records. -/
theorem arcGroup_fits {plan : FuncPlan} (h : plan.Encodable) (hsound : plan.Sound)
    {group : Nat × List ArcPlan} (hgroup : group ∈ groupByKey (·.src) plan.arcs) :
    group.1 < plan.blockCount.toNat ∧ 2 * group.2.length + 1 < wordRange
      ∧ ∀ arc ∈ group.2,
        arc.src = group.1 ∧ arc.dst < plan.blockCount.toNat ∧ InWord arc.flags := by
  obtain ⟨⟨arc, harc, hsrc⟩, hitems⟩ := mem_groupByKey.mp hgroup
  rw [hitems]
  refine ⟨?_, h.exits group.1, fun arc' harc' => ?_⟩
  · rw [← hsrc]
    exact (hsound.arcs arc harc).1
  · obtain ⟨hmem, hkey⟩ := List.mem_filter.mp harc'
    exact ⟨beq_iff_eq.mp hkey, (hsound.arcs arc' hmem).2, h.flags arc' hmem⟩

theorem linesGroup_readable {plan : FuncPlan} (h : plan.Encodable) (hsound : plan.Sound)
    {group : Nat × List LinesPlan} (hgroup : group ∈ plan.orderedLines) :
    group.1 < plan.blockCount.toNat ∧ Readable group.2 := by
  obtain ⟨⟨entry, hentry, hblock⟩, hitems⟩ := mem_groupByKey.mp hgroup
  rw [hitems]
  refine ⟨?_, fun entry' hentry' => ?_⟩
  · rw [← hblock]
    exact hsound.lines entry hentry
  · have hmem := List.mem_of_mem_filter hentry'
    exact ⟨(h.sources entry' hmem).1, (h.sources entry' hmem).2,
      fun n hn => ⟨hsound.numbers entry' hmem n hn, h.numbers entry' hmem n hn⟩⟩

theorem attributions_eq (plan : FuncPlan) (block : Nat) :
    (plan.orderedLines.flatMap fun (k, entries) =>
      if k = block then entries.flatMap (·.attributions) else []) = plan.attributions block :=
  flatMap_groupByKey_of_key (fun entries : List LinesPlan => entries.flatMap (·.attributions)) rfl
    block

theorem lists_ofSize (func : Func) (n : Nat) (r : Registry) :
    Func.Lists { func with graph := .ofSize n } r fun _ => [] := by
  intro i b hb
  obtain rfl := FlowGraph.eq_of_ofSize hb
  exact ⟨none, Block.lists_nil rfl _⟩

variable (order offset)

/-- The records of the blocks and the arcs of a function. -/
theorem carries_graph {plan : FuncPlan} (h : plan.Encodable) (hsound : plan.Sound)
    (hmode : s.mode = .between) {func : Func} (hopen : s.current = some func) :
    ∃ graph, machine.Carries order offset
        (record order GraphRecord.blocks.tag (plan.blocksPayload s.version order)
          ++ (groupByKey (·.src) plan.arcs).flatMap fun (src, arcs) =>
            record order GraphRecord.arcs.tag (FuncPlan.arcsPayload order src arcs)) s
        { s with current := some { func with graph } }
      ∧ graph.skeleton = .ofArcs plan.blockCount.toNat (plan.orderedArcs.map ArcPlan.noted)
      ∧ Func.Lists { func with graph } s.registry fun _ => [] := by
  obtain ⟨graph, hlinked, hskeleton, hlists⟩ :=
    foldl_linkPlanned plan.orderedArcs
      (fun arc harc => (h.flags arc (FuncPlan.mem_orderedArcs.mp harc)).1)
      (lists_ofSize func plan.blockCount.toNat s.registry)
  rw [hlinked] at hlists
  refine ⟨graph, ?_, ?_, hlists⟩
  · have hsize : (FlowGraph.ofSize plan.blockCount.toNat).size = plan.blockCount.toNat := by
      simp [FlowGraph.size, FlowGraph.ofSize]
    have hword : (FlowGraph.ofSize plan.blockCount.toNat).size ≤ wordRange := by
      have := h.blockCount
      omega
    have hgroups : ∀ group ∈ groupByKey (·.src) plan.arcs,
        group.1 < (FlowGraph.ofSize plan.blockCount.toNat).size ∧ 2 * group.2.length + 1 < wordRange
          ∧ ∀ arc ∈ group.2, arc.src = group.1
            ∧ arc.dst < (FlowGraph.ofSize plan.blockCount.toNat).size ∧ InWord arc.flags := by
      rw [hsize]
      exact fun group hgroup => arcGroup_fits h hsound hgroup
    have hblocks : machine.Carries order offset _ s (setBlocks s func plan.blockCount.toNat) :=
      carries_blocks hmode hopen h hsound.blocks
    have hcarries := hblocks.trans
      (carries_arcsRecords _ (s := setBlocks s func plan.blockCount.toNat) hmode rfl hword hgroups)
    rw [show (groupByKey (·.src) plan.arcs).flatMap (·.2) = plan.orderedArcs from rfl,
      hlinked] at hcarries
    exact hcarries
  · rw [hskeleton, FlowGraph.skeleton_ofSize]
    rfl

/-- The records of a function. -/
theorem carries_function {plan : FuncPlan} (h : plan.Encodable) (hsound : plan.Sound)
    (hmode : s.mode = .between) :
    ∃ t func, machine.Carries order offset (plan.notesRecords s.version order) s t
      ∧ t.mode = .between ∧ t.version = s.version ∧ t.functions = s.functions ++ [func]
      ∧ plan.ReadAs t.registry func ∧ s.registry.Extends t.registry
      ∧ t.registry.names = plan.sources.foldl enlist s.registry.names := by
  have hhead : machine.Carries order offset _ s (openFunction s (headerOf plan)) :=
    carries_head hmode h
  obtain ⟨graph, hgraph, hskeleton, hlists⟩ :=
    carries_graph order (offset + (record order functionTag
      (plan.headPayload s.version order)).length) h hsound
      (s := openFunction s (headerOf plan)) hmode rfl
  have hsize : graph.size = plan.blockCount.toNat := by
    rw [← FlowGraph.skeleton_size, hskeleton, FlowGraph.ofArcs_size]
  have hword : graph.size ≤ wordRange := by
    have := h.blockCount
    omega
  obtain ⟨t, hcarries, hmode', ⟨func, hopen, hlists'⟩, hcontinues, hnames⟩ :=
    carries_linesRecords order (offset + (record order functionTag
        (plan.headPayload s.version order) ++ (record order GraphRecord.blocks.tag
          (plan.blocksPayload s.version order) ++ (groupByKey (·.src) plan.arcs).flatMap
            fun (src, arcs) => record order GraphRecord.arcs.tag
              (FuncPlan.arcsPayload order src arcs))).length) plan.orderedLines
      (s := { openFunction s (headerOf plan) with
        current := some { headerOf plan with serial := s.registry.issued, graph } })
      hmode rfl hlists hword (fun group hgroup => by
        have hreadable := linesGroup_readable h hsound hgroup
        rwa [← hsize] at hreadable)
  obtain ⟨graph', hgraph', hskeleton'⟩ := hcontinues.current _ rfl
  have hfunc : func = { headerOf plan with serial := s.registry.issued, graph := graph' } :=
    Option.some.inj (hopen.symm.trans hgraph')
  refine ⟨t, func, ?_, hmode', hcontinues.version, ?_, ?_, ?_, ?_⟩
  · refine Eq.mp ?_ ((hhead.trans hgraph).trans hcarries)
    simp only [FuncPlan.notesRecords, List.append_assoc, openFunction]
  · rw [State.functions, hcontinues.finished, hopen]
    rfl
  · refine ⟨⟨?_, ?_, by rw [hfunc]; rfl, by rw [hfunc]; rfl, ?_⟩, ?_, ?_⟩
    · rw [hfunc]
      exact Int.toNat_of_nonneg h.ident.1
    · rw [hfunc]
      exact Int.toNat_of_nonneg h.checksum.1
    · rw [hfunc]
      exact Int.toNat_of_nonneg h.line.1
    · rw [hfunc]
      exact hskeleton'.trans hskeleton
    · have hnamed : (fun i => [] ++ plan.orderedLines.flatMap fun (k, entries) =>
          if k = i then entries.flatMap (·.attributions) else []) = plan.attributions := by
        funext i
        rw [List.nil_append]
        exact attributions_eq plan i
      rwa [hnamed] at hlists'
  · exact (Registry.extends_addFunc s.registry (headerOf plan)).trans hcontinues.registry
  · rw [hnames]
    show List.foldl enlist (s.registry.addFunc (headerOf plan)).2.names _ = _
    rw [Registry.names_addFunc]
    rfl

/-- The records of functions, one after another. -/
theorem carries_functions (plans : List FuncPlan) (hplans : ∀ plan ∈ plans, plan.Encodable)
    (hsound : ∀ plan ∈ plans, plan.Sound) {s : State} (hmode : s.mode = .between) :
    ∃ t funcs, machine.Carries order offset
        (plans.flatMap fun plan => plan.notesRecords s.version order) s t
      ∧ t.mode = .between ∧ t.functions = s.functions ++ funcs
      ∧ List.Forall₂ (·.ReadAs t.registry) plans funcs ∧ s.registry.Extends t.registry
      ∧ t.registry.names = (plans.flatMap (·.sources)).foldl enlist s.registry.names := by
  induction plans generalizing s offset with
  | nil => exact ⟨s, [], .refl s, hmode, (List.append_nil _).symm, .nil, .refl _, rfl⟩
  | cons plan plans ih =>
    obtain ⟨t, func, hcarries, hmode', hversion, hfunctions, hread, hextends, hnames⟩ :=
      carries_function order offset (hplans plan List.mem_cons_self)
        (hsound plan List.mem_cons_self) hmode
    obtain ⟨u, funcs, hcarries', hmode'', hfunctions', hreads, hextends', hnames'⟩ :=
      ih (offset + (plan.notesRecords s.version order).length)
        (fun p hp => hplans p (List.mem_cons_of_mem _ hp))
        (fun p hp => hsound p (List.mem_cons_of_mem _ hp)) hmode'
    rw [hversion] at hcarries'
    refine ⟨u, func :: funcs, ?_, hmode'', ?_, .cons (hread.mono hextends') hreads,
      hextends.trans hextends', ?_⟩
    · rw [List.flatMap_cons]
      exact hcarries.trans hcarries'
    · rw [hfunctions', hfunctions, List.append_assoc, List.singleton_append]
    · rw [hnames', hnames, List.flatMap_cons, List.foldl_append]

/-! ## What stands between records -/

variable {order offset}

/-- The most significant byte of every tag is one. -/
theorem ofWord?_eq_none {word : Nat} (h : word / 0x1000000 ≠ 1) : Tag.ofWord? word = none := by
  have hfunction : word ≠ functionTag := by
    unfold functionTag
    omega
  have hrecord : ∀ record : GraphRecord, word ≠ record.tag := by
    intro record
    cases record <;> simp only [GraphRecord.tag] <;> omega
  simp [Tag.ofWord?, hfunction, hrecord]

theorem ofWord?_of_no_one {bytes : Bytes} (hlength : bytes.length = wordSize) (hone : 1 ∉ bytes) :
    Tag.ofWord? (order.toNat bytes) = none := by
  obtain ⟨a, b, c, d, rfl⟩ : ∃ a b c d, bytes = [a, b, c, d] := by
    match bytes, hlength with
    | [a, b, c, d], _ => exact ⟨a, b, c, d, rfl⟩
  have hbyte : ∀ e ∈ [a, b, c, d], e.toNat ≠ 1 := by
    intro e he heq
    exact hone (UInt8.toNat_inj.mp (heq.trans (UInt8.toNat_ofNat (n := 1)).symm) ▸ he)
  have ha := hbyte a (by simp)
  have hd := hbyte d (by simp)
  have := a.toNat_lt
  have := b.toNat_lt
  have := c.toNat_lt
  have := d.toNat_lt
  refine ofWord?_eq_none ?_
  cases order <;> simp [ByteOrder.toNat, ByteOrder.littleToNat] <;> omega

/-- A word that is no tag is passed over. -/
theorem carries_passedOver (hmode : s.mode = .between) {bytes : Bytes}
    (hlength : bytes.length = wordSize) (htag : Tag.ofWord? (order.toNat bytes) = none) :
    machine.Carries order offset bytes s s := by
  refine carries_of_passes ?_
  rw [step_between hmode, readTag]
  refine passes_read_goOn (Cursor.takes_word_of_length hlength) ?_
  rw [htag]

/-- Words without a byte that is one are passed over. -/
theorem carries_noOnes (hmode : s.mode = .between) {n : Nat} {bytes : Bytes}
    (hlength : bytes.length = n * wordSize) (hone : 1 ∉ bytes) :
    machine.Carries order offset bytes s s := by
  induction n generalizing bytes offset with
  | zero =>
    rw [Nat.zero_mul] at hlength
    rw [List.eq_nil_of_length_eq_zero hlength]
    exact .refl s
  | succ n ih =>
    rw [Nat.succ_mul] at hlength
    have hsplit : bytes = bytes.take wordSize ++ bytes.drop wordSize :=
      (List.take_append_drop _ _).symm
    rw [hsplit]
    have hfirst : (bytes.take wordSize).length = wordSize := by
      rw [List.length_take]
      omega
    refine (carries_passedOver hmode hfirst (ofWord?_of_no_one hfirst fun hmem => ?_)).trans
      (ih ?_ fun hmem => ?_)
    · exact hone (List.mem_of_mem_take hmem)
    · rw [List.length_drop]
      omega
    · exact hone (List.mem_of_mem_drop hmem)

/-- The directory of the compilation is passed over. -/
theorem carries_directory {plan : UnitPlan} (h : plan.Encodable) (hmode : s.mode = .between) :
    machine.Carries plan.order offset plan.directoryBytes s s := by
  unfold UnitPlan.directoryBytes
  split
  · exact .refl s
  · next directory hdirectory =>
    split
    · exact .refl s
    · next hempty =>
      obtain ⟨hone, hfits⟩ := h.directory directory hdirectory
      rw [Writer.string, if_neg hempty, List.append_assoc]
      refine (carries_passedOver hmode (Writer.length_word _ _) ?_).trans
        (carries_noOnes hmode (n := (Utf8.encode directory.toList).length / wordSize + 1) ?_ ?_)
      · have hmod (n : Nat) : ((n : Int) % wordRange).toNat = n % wordRange := by omega
        rw [Writer.word, ByteOrder.toNat_word, hmod]
        refine ofWord?_eq_none ?_
        generalize (Utf8.encode directory.toList).length / wordSize = n at hfits
        unfold wordRange
        omega
      · simp only [List.length_append, List.length_replicate, wordSize]
        omega
      · rw [List.mem_append, List.mem_replicate]
        rintro (hmem | ⟨-, hmem⟩)
        · exact hone hmem
        · cases hmem

/-! ## Files -/

theorem run_end (hmode : s.mode = .between) :
    machine.run { cursor := { rest := [], offset, order }, state := s } = s.close := by
  refine Machine.run_of_stop _ ?_
  show step s _ = _
  rw [step_between hmode]
  rfl

/-- A file of which the header is all there is decoded record by record. -/
theorem decode_of_records {r : Registry} {bytes : Bytes} {version : Nat} {cursor : Cursor}
    (h : records? .notes bytes = some (version, cursor)) :
    ∃ log, decode r bytes = { decodeRecords r version cursor with log } := by
  obtain ⟨c, hopen, hversion⟩ := exists_of_records? h
  simp only [decode, hopen, hversion]
  exact ⟨_, rfl⟩

theorem records?_notes {plan : UnitPlan} (h : InWord plan.version) :
    records? .notes plan.notes = some (plan.version.toNat,
      { rest := plan.directoryBytes
          ++ plan.functions.flatMap (·.notesRecords plan.version plan.order)
        offset := wordSize + (words plan.order [plan.version, plan.stamp]).length
        order := plan.order }) := by
  rw [UnitPlan.notes, List.append_assoc]
  exact records?_header .notes h _

/-- A notes file is read as the plan that it was written from, onto whatever registry there is. -/
theorem decode_notes {plan : UnitPlan} (hbuilt : plan.Built) (h : plan.Encodable) (r : Registry) :
    ∃ funcs, (decode r plan.notes).result = .ok funcs
      ∧ List.Forall₂ (·.ReadAs (decode r plan.notes).state) plan.functions funcs
      ∧ r.Extends (decode r plan.notes).state
      ∧ (decode r plan.notes).state.names = plan.sources.foldl enlist r.names := by
  let s : State := { version := plan.version.toNat, registry := r }
  have hversion : ((s.version : Nat) : Int) = plan.version := Int.toNat_of_nonneg h.version.1
  obtain ⟨t, funcs, hcarries, hmode, hfunctions, hreads, hextends, hnames⟩ :=
    carries_functions plan.order
      (wordSize + (words plan.order [plan.version, plan.stamp]).length
        + plan.directoryBytes.length)
      plan.functions h.functions (fun func hfunc => (hbuilt func hfunc).sound) (s := s) rfl
  rw [hversion] at hcarries
  have hrun : decodeRecords r plan.version.toNat
      { rest := plan.directoryBytes
          ++ plan.functions.flatMap (·.notesRecords plan.version plan.order)
        offset := wordSize + (words plan.order [plan.version, plan.stamp]).length
        order := plan.order } = t.close := by
    have hall := ((carries_directory h (s := s) rfl).trans hcarries) []
    rw [List.append_nil] at hall
    exact hall.trans (run_end hmode)
  obtain ⟨log, hdecode⟩ := decode_of_records (r := r) (records?_notes h.version)
  rw [hdecode, hrun]
  refine ⟨funcs, ?_, hreads, hextends, hnames⟩
  exact congrArg Except.ok hfunctions

end Notes

end Coverage
