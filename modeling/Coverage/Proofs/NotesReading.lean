import Coverage.Proofs.Associations
import Coverage.Proofs.Records
import Coverage.Proofs.GraphConstruction

/-!
# Notes files are read as they were written

A record is read one piece at a time, in a state that knows which piece is due.  What is shown here
of each record is the state that it leads to: a head opens a function, blocks and arcs are added to
its graph, and lines are attributed to its blocks.

* `carries_head`, `carries_blocks`, `carries_arcsRecord` — the records of a graph;
* `State.At` — the source that lines are attributed to, which a name changes and a number does not;
* `carries_linesRecords` — after any number of records of lines, blocks list what was written.
-/

namespace Coverage

namespace Notes

open Writer

variable {order : ByteOrder} {offset : Nat} {s t : State} {bytes : Bytes}

theorem carries_of_passes (h : (step s).Passes order offset bytes t) :
    machine.Carries order offset bytes s t :=
  Machine.carries_of_passes h

/-- Reading, in a step. -/
theorem passes_read {α : Type} {action : Read α} {a : α} {use : α → Step} {bytes' : Bytes}
    (h : action.Takes order offset bytes a)
    (huse : (use a).Passes order (offset + bytes.length) bytes' t) :
    (s.read action use).Passes order offset (bytes ++ bytes') t :=
  Scanner.passes_read h huse

/-- A read that ends a step. -/
theorem passes_read_goOn {α : Type} {action : Read α} {a : α} {use : α → Step}
    (h : action.Takes order offset bytes a) (huse : use a = t.goOn) :
    (s.read action use).Passes order offset bytes t :=
  Scanner.passes_read_goOn h huse

theorem within_eq {func : Func} (hopen : s.current = some func) (record : GraphRecord)
    (use : Func → Step) : s.within record use = use func := by
  rw [State.within, hopen]

theorem step_between (hmode : s.mode = .between) : step s = readTag s := by
  rw [step, hmode]

theorem step_inArcs {func : Func} {src further : Nat} (hmode : s.mode = .inArcs src further)
    (hopen : s.current = some func) : step s = readArc s func src further := by
  rw [step, hmode]
  exact within_eq hopen _ _

theorem step_inLines {func : Func} {block : Nat} {emitted : Option Nat}
    (hmode : s.mode = .inLines block emitted) (hopen : s.current = some func) :
    step s = readLine s func block emitted := by
  rw [step, hmode]
  exact within_eq hopen _ _

/-! ## Tags -/

theorem ofWord?_functionTag : Tag.ofWord? functionTag = some .function := by
  decide

theorem ofWord?_tag (record : GraphRecord) : Tag.ofWord? record.tag = some (.graph record) := by
  cases record <;> decide

/-- The head of a record of a function. -/
theorem passes_functionRecord (hmode : s.mode = .between) {payload : Bytes} {header : Func}
    (h : ∀ offset, (readHeader s.version).Takes order offset payload header) :
    (step s).Passes order offset (record order functionTag payload) (openFunction s header) := by
  rw [step_between hmode, record_eq]
  refine passes_read (Cursor.takes_natWord (by decide)) ?_
  rw [ofWord?_functionTag]
  exact passes_read (Cursor.takes_lengthWord _) (passes_read_goOn (h _) rfl)

/-- The head of a record about the open function. -/
theorem passes_graphRecord (hmode : s.mode = .between) {record : GraphRecord} {length : Nat}
    {payload : Bytes}
    (h : ∀ offset, (readGraphRecord s record (length % wordRange)).Passes order offset payload t) :
    (step s).Passes order offset
      (word order record.tag ++ (word order (length : Nat) ++ payload)) t := by
  rw [step_between hmode]
  have hlt : record.tag < wordRange := by cases record <;> decide
  refine passes_read (Cursor.takes_natWord hlt) ?_
  rw [ofWord?_tag]
  exact passes_read (Cursor.takes_lengthWord _) (h _)

/-! ## Heads -/

/-- The header of a function as a notes file tells it. -/
def headerOf (func : FuncPlan) : Func where
  ident := func.ident.toNat
  checksum := func.checksum.toNat
  name := func.name
  source := func.source
  firstLine := func.line.toNat

theorem length_extent (version : Int) (line : Int) :
    (([0, line, 0] : List Int).take (Version.extentWords version)).length
      = Version.extentWords version := by
  unfold Version.extentWords
  split
  · rfl
  · split <;> rfl

theorem readHeader_takes {func : FuncPlan} (h : func.Encodable) (version : Nat) (offset : Nat) :
    (readHeader version).Takes order offset (func.headPayload version order) (headerOf func) := by
  have hbytes : func.headPayload version order
      = word order func.ident ++ (word order func.checksum
        ++ (words order (List.replicate (Version.graphChecksumWords version) 0)
        ++ (string order func.name
        ++ (words order (List.replicate (Version.artificialWords version) 0)
        ++ (string order func.source ++ (word order func.line
        ++ (words order (([0, func.line, 0] : List Int).take (Version.extentWords version))
        ++ []))))))) := by
    simp [FuncPlan.headPayload]
  rw [hbytes, readHeader]
  refine (Cursor.takes_word_of_lt h.ident.1 h.ident.2).bind ?_
  refine (Cursor.takes_word_of_lt h.checksum.1 h.checksum.2).bind ?_
  refine (Cursor.takes_skipZeros _).bind ?_
  refine (Cursor.takes_string h.name).bind ?_
  refine (Cursor.takes_skipZeros _).bind ?_
  refine (Cursor.takes_string h.source.2).bind ?_
  refine (Cursor.takes_word_of_lt h.line.1 h.line.2).bind ?_
  refine (Cursor.takes_skipWords ?_).bind (Read.takes_pure _)
  rw [length_words, length_extent]

/-- The record that begins a function. -/
theorem carries_head (hmode : s.mode = .between) {func : FuncPlan} (h : func.Encodable) :
    machine.Carries order offset (record order functionTag (func.headPayload s.version order)) s
      (openFunction s (headerOf func)) :=
  carries_of_passes (passes_functionRecord hmode fun offset => readHeader_takes h s.version offset)

/-! ## Blocks -/

theorem carries_blocks (hmode : s.mode = .between) {open_ : Func} (hopen : s.current = some open_)
    {func : FuncPlan} (h : func.Encodable) (hblocks : 0 ≤ func.blockCount) :
    machine.Carries order offset
      (record order GraphRecord.blocks.tag (func.blocksPayload s.version order)) s
      (setBlocks s open_ func.blockCount.toNat) := by
  refine carries_of_passes ?_
  rw [record_eq]
  refine passes_graphRecord hmode fun offset => ?_
  rw [readGraphRecord, within_eq hopen]
  refine passes_read_goOn ?_ rfl
  unfold FuncPlan.blocksPayload readBlockCount
  split
  · rw [words_cons, words_nil, List.append_nil]
    exact Cursor.takes_word_of_lt hblocks h.blockCount
  · have hlength : (words order (List.replicate func.blockCount.toNat 0)).length / wordSize
        % wordRange = func.blockCount.toNat := by
      rw [length_words, List.length_replicate, Nat.mul_div_cancel _ (by decide)]
      exact Nat.mod_eq_of_lt (by have := h.blockCount; omega)
    rw [hlength]
    exact (Cursor.takes_skipZeros _).map fun _ => func.blockCount.toNat

/-! ## Arcs -/

/-- Adds an arc as a notes file tells it. -/
def linkPlanned (func : Func) (arc : ArcPlan) : Func :=
  linkArc func arc.src arc.dst arc.flags.toNat

theorem linkArc_size (func : Func) (src dst flags : Nat) :
    (linkArc func src dst flags).graph.size = func.graph.size := by
  simp only [linkArc, Func.mapGraph]
  split
  · simp [FlowGraph.size, FlowGraph.mapBlock, FlowGraph.addArc]
  · exact FlowGraph.addArc_size _ _

/-- An arc leaves the lines of all blocks as they are. -/
theorem lines_linkArc {func : Func} {src dst flags i : Nat} {b : Block}
    (hb : (linkArc func src dst flags).graph.blocks[i]? = some b) :
    ∃ b₀, func.graph.blocks[i]? = some b₀ ∧ b.lines = b₀.lines := by
  have hadd : ∀ b', (func.graph.addArc { src, dst, flags }).blocks[i]? = some b' →
      ∃ b₀, func.graph.blocks[i]? = some b₀ ∧ b'.lines = b₀.lines := by
    intro b' hb'
    rw [FlowGraph.addArc_block] at hb'
    obtain ⟨b₀, hb₀, rfl⟩ := Option.map_eq_some_iff.mp hb'
    refine ⟨b₀, hb₀, ?_⟩
    dsimp only
    split <;> split <;> simp only [Block.attach_lines]
  simp only [linkArc, Func.mapGraph] at hb
  split at hb
  · rw [FlowGraph.getElem?_mapBlock] at hb
    split at hb
    · obtain ⟨b', hb', rfl⟩ := Option.map_eq_some_iff.mp hb
      exact hadd b' hb'
    · exact hadd b hb
  · exact hadd b hb

@[simp] theorem linkPlanned_size (func : Func) (arc : ArcPlan) :
    (linkPlanned func arc).graph.size = func.graph.size :=
  linkArc_size func _ _ _

@[simp] theorem foldl_linkPlanned_size (func : Func) (arcs : List ArcPlan) :
    (arcs.foldl linkPlanned func).graph.size = func.graph.size := by
  induction arcs generalizing func with
  | nil => rfl
  | cons arc arcs ih => rw [List.foldl_cons, ih, linkPlanned_size]

theorem carries_arc {func : Func} {src further : Nat} {arc : ArcPlan}
    (hmode : s.mode = .inArcs src further) (hopen : s.current = some func) (hsrc : arc.src = src)
    (hdst : arc.dst < func.graph.size) (hdst' : arc.dst < wordRange) (hflags : InWord arc.flags) :
    machine.Carries order offset (words order [(arc.dst : Int), arc.flags]) s
      { s with current := some (linkPlanned func arc), mode := .beforeArcs src further } := by
  refine carries_of_passes ?_
  rw [step_inArcs hmode hopen, words_cons, words_cons, words_nil, List.append_nil]
  refine passes_read_goOn (a := (arc.dst, arc.flags.toNat)) ?_ ?_
  · exact (Cursor.takes_natWord hdst').bind
      ((Cursor.takes_word_of_lt hflags.1 hflags.2).map fun flags => (arc.dst, flags))
  · subst hsrc
    simp only [State.withBlock, hdst, if_true]
    rfl

theorem carries_arcs {src : Nat} (arcs : List ArcPlan) {func : Func} {s : State}
    (hmode : s.mode = .beforeArcs src arcs.length) (hopen : s.current = some func)
    (hsize : func.graph.size ≤ wordRange)
    (harcs : ∀ arc ∈ arcs, arc.src = src ∧ arc.dst < func.graph.size ∧ InWord arc.flags) :
    machine.Carries order offset
      (words order (arcs.flatMap fun arc => [(arc.dst : Int), arc.flags])) s
      { s with current := some (arcs.foldl linkPlanned func), mode := .between } := by
  induction arcs generalizing s func offset with
  | nil =>
    have hs : { s with current := some func, mode := .between } = s := by
      rw [← hopen, show Mode.between = s.mode from hmode.symm]
    rw [List.foldl_nil, hs]
    exact .refl s
  | cons arc arcs ih =>
    obtain ⟨hsrc, hdst, hflags⟩ := harcs arc List.mem_cons_self
    rw [List.flatMap_cons, words_append]
    refine (carries_arc hmode hopen hsrc hdst (by omega) hflags).trans ?_
    refine ih rfl rfl ?_ fun arc' harc' => ?_
    · rwa [linkPlanned_size]
    · rw [linkPlanned_size]
      exact harcs arc' (List.mem_cons_of_mem _ harc')

/-- The record of the arcs that leave a block. -/
theorem carries_arcsRecord (hmode : s.mode = .between) {func : Func} (hopen : s.current = some func)
    (hsize : func.graph.size ≤ wordRange) {src : Nat} {arcs : List ArcPlan}
    (hsrc : src < func.graph.size) (hlength : 2 * arcs.length + 1 < wordRange)
    (harcs : ∀ arc ∈ arcs, arc.src = src ∧ arc.dst < func.graph.size ∧ InWord arc.flags) :
    machine.Carries order offset
      (record order GraphRecord.arcs.tag (FuncPlan.arcsPayload order src arcs)) s
      { s with current := some (arcs.foldl linkPlanned func) } := by
  have hwords : (FuncPlan.arcsPayload order src arcs).length / wordSize = 2 * arcs.length + 1 := by
    rw [FuncPlan.arcsPayload, length_words, Nat.mul_div_cancel _ (by decide)]
    simp [Nat.mul_comm]
  have hfurther : ((2 * arcs.length + 1) % wordRange - 1) / 2 = arcs.length := by
    rw [Nat.mod_eq_of_lt hlength]
    omega
  have hend : ∀ current, { s with current, mode := .between } = { s with current } := by
    intro current
    rw [← hmode]
  rw [record_eq, hwords, FuncPlan.arcsPayload, words_cons, ← List.append_assoc (word order _),
    ← List.append_assoc, ← hend, List.append_assoc (word order _)]
  refine Machine.Carries.trans (t := { s with mode := .beforeArcs src arcs.length })
    (carries_of_passes (passes_graphRecord hmode fun offset => ?_)) 
    (carries_arcs arcs (s := { s with mode := .beforeArcs src arcs.length }) rfl hopen hsize harcs)
  rw [readGraphRecord, within_eq hopen]
  refine passes_read_goOn (Cursor.takes_natWord (by omega)) ?_
  simp only [State.withBlock, hsrc, if_true, hfurther]

/-! ## Lines -/

/-- `Continues s t`: what was known in `s` holds in `t`, where the open function may list more
lines. -/
structure Continues (s t : State) : Prop where
  version : t.version = s.version
  finished : t.finished = s.finished
  registry : s.registry.Extends t.registry
  current : ∀ func, s.current = some func →
    ∃ graph, t.current = some { func with graph } ∧ graph.skeleton = func.graph.skeleton

theorem Continues.trans {u : State} (h : Continues s t) (h' : Continues t u) : Continues s u where
  version := h'.version.trans h.version
  finished := h'.finished.trans h.finished
  registry := h.registry.trans h'.registry
  current func hfunc := by
    obtain ⟨graph, hgraph, hskeleton⟩ := h.current func hfunc
    obtain ⟨graph', hgraph', hskeleton'⟩ := h'.current _ hgraph
    exact ⟨graph', hgraph', hskeleton'.trans hskeleton⟩

/-- In a record of lines of a block, where the blocks of the open function list `named` so far. -/
structure InLines (s : State) (block : Nat) (named : Nat → List (String × Nat)) : Prop where
  exists_func : ∃ func emitted, s.mode = .inLines block emitted ∧ s.current = some func
    ∧ func.Lists s.registry named
    ∧ ∀ b, func.graph.blocks[block]? = some b →
        ∃ e, b.Lists s.registry e (named block) ∧ (emitted = none ∨ emitted = e)

/-- The source file of a name is the current one. -/
def State.At (s : State) (name : String) : Prop :=
  ∃ i file, s.source = some i ∧ s.registry.files[i]? = some file ∧ file.name = name

variable {block : Nat} {named : Nat → List (String × Nat)}

theorem readLine_passes_number {func : Func} {emitted : Option Nat} {i n : Nat}
    (hsource : s.source = some i) (hpos : 0 < n) (hlt : n < wordRange) :
    (readLine s func block emitted).Passes order offset (word order n)
      (emitLine s func block i n emitted) := by
  refine passes_read_goOn (Cursor.takes_natWord hlt) ?_
  rw [if_neg (Nat.ne_of_gt hpos)]
  simp only [hsource]

variable (order offset)

/-- A line of the current source. -/
theorem carries_number (h : InLines s block named) {name : String} (hat : s.At name) {n : Nat}
    (hpos : 0 < n) (hlt : n < wordRange) :
    ∃ t, machine.Carries order offset (word order n) s t
      ∧ InLines t block (Function.update named block (named block ++ [(name, n)]))
      ∧ Continues s t ∧ t.At name ∧ t.registry.names = s.registry.names := by
  obtain ⟨func, emitted, hmode, hopen, hlists, hblock⟩ := h
  obtain ⟨i, file, hsource, hfile, rfl⟩ := hat
  have hcarries : machine.Carries order offset (word order n) s
      (emitLine s func block i n emitted) := by
    refine carries_of_passes ?_
    rw [step_inLines hmode hopen]
    exact readLine_passes_number hsource hpos hlt
  have hextends : s.registry.Extends (s.registry.mapFile i (·.extendTo n)) :=
    Registry.extends_mapFile _ _ (fun _ => rfl) fun _ => Registry.lineCount_extendTo _ _
  have hlocates := Registry.locates_mapFile_extendTo hfile n
  have hgraph : ∀ j b', (addLine func block i n emitted).graph.blocks[j]? = some b' →
      ∃ b, func.graph.blocks[j]? = some b ∧ b' = if block = j then
        { b with lines := b.lines ++ lineTokens emitted i n } else b := by
    intro j b' hb'
    rw [addLine, Func.mapGraph, FlowGraph.getElem?_mapBlock] at hb'
    split at hb'
    · next hj =>
      obtain ⟨b, hb, rfl⟩ := Option.map_eq_some_iff.mp hb'
      refine ⟨b, hb, ?_⟩
      rw [if_pos hj]
      rfl
    · next hj => exact ⟨b', hb', (if_neg hj).symm⟩
  have hadded : ∀ b', (addLine func block i n emitted).graph.blocks[block]? = some b' →
      b'.Lists (s.registry.mapFile i (·.extendTo n)) (some i)
        (named block ++ [(file.name, n)]) := by
    intro b' hb'
    obtain ⟨b, hb, rfl⟩ := hgraph block b' hb'
    obtain ⟨e, hb, hemitted⟩ := hblock b hb
    rw [if_pos rfl]
    exact (hb.mono hextends).add hemitted (Nat.ne_of_gt hpos) hlocates
  refine ⟨_, hcarries, ⟨addLine func block i n emitted, some i, rfl, rfl, fun j b' hb' => ?_,
    fun b' hb' => ?_⟩, ⟨rfl, rfl, hextends, fun func' hfunc' => ?_⟩, ?_, ?_⟩
  · by_cases hj : j = block
    · subst hj
      rw [Function.update_self]
      exact ⟨_, hadded b' hb'⟩
    · obtain ⟨b, hb, rfl⟩ := hgraph j b' hb'
      rw [Function.update_of_ne hj, if_neg (Ne.symm hj)]
      obtain ⟨e, hlists⟩ := hlists j b hb
      exact ⟨e, hlists.mono hextends⟩
  · rw [Function.update_self]
    exact ⟨_, hadded b' hb', .inr rfl⟩
  · obtain rfl : func = func' := Option.some.inj (hopen.symm.trans hfunc')
    exact ⟨_, rfl, FlowGraph.skeleton_mapBlock _ _ fun _ => rfl⟩
  · obtain ⟨file', hfile', hname, -⟩ := hextends i file hfile
    exact ⟨i, file', hsource, hfile', hname⟩
  · exact Registry.names_mapFile _ _ fun _ => rfl

theorem Continues.refl (s : State) : Continues s s :=
  ⟨rfl, rfl, .refl _, fun func hfunc => ⟨func.graph, hfunc, rfl⟩⟩

/-- Lines of the current source, one after another. -/
theorem carries_numbers {name : String} (numbers : List Nat)
    (hnumbers : ∀ n ∈ numbers, 0 < n ∧ n < wordRange) {s : State}
    {named : Nat → List (String × Nat)} (h : InLines s block named) (hat : s.At name) :
    ∃ t, machine.Carries order offset (words order (numbers.map fun n : Nat => (n : Int))) s t
      ∧ InLines t block
        (Function.update named block (named block ++ numbers.map fun n => (name, n)))
      ∧ Continues s t ∧ t.At name ∧ t.registry.names = s.registry.names := by
  induction numbers generalizing s named offset with
  | nil =>
    refine ⟨s, .refl s, ?_, .refl s, hat, rfl⟩
    rwa [List.map_nil, List.append_nil, Function.update_eq_self]
  | cons n numbers ih =>
    obtain ⟨hpos, hlt⟩ := hnumbers n List.mem_cons_self
    obtain ⟨t, hcarries, hlines, hcontinues, hat, hnames⟩ :=
      carries_number order offset h hat hpos hlt
    obtain ⟨u, hcarries', hlines', hcontinues', hat', hnames'⟩ :=
      ih (offset + (word order n).length)
        (fun m hm => hnumbers m (List.mem_cons_of_mem _ hm)) hlines hat
    refine ⟨u, hcarries.trans hcarries', ?_, hcontinues.trans hcontinues', hat',
      hnames'.trans hnames⟩
    rwa [Function.update_idem, Function.update_self, List.append_assoc] at hlines'

/-- The name of a source. -/
theorem carries_name (h : InLines s block named) {name : String} (hname : name ≠ "")
    (hstorable : Storable name) :
    ∃ t, machine.Carries order offset (word order 0 ++ string order name) s t
      ∧ InLines t block named ∧ Continues s t ∧ t.At name
      ∧ t.registry.names = enlist s.registry.names name := by
  obtain ⟨func, emitted, hmode, hopen, hlists, hblock⟩ := h
  have hcarries : machine.Carries order offset (word order 0 ++ string order name) s
      (nameSource s name) := by
    refine carries_of_passes ?_
    rw [step_inLines hmode hopen]
    refine passes_read (Cursor.takes_natWord (n := 0) (by decide)) ?_
    rw [if_pos rfl]
    refine passes_read_goOn (Cursor.takes_string hstorable) ?_
    rw [if_neg]
    rwa [String.isEmpty_iff]
  have hextends := Registry.extends_findOrAdd s.registry name
  obtain ⟨file, hfile, hfileName⟩ := Registry.files_findOrAdd s.registry name
  refine ⟨_, hcarries, ⟨func, emitted, hmode, hopen, hlists.mono hextends, fun b hb => ?_⟩,
    ⟨rfl, rfl, hextends, fun func hfunc => ⟨func.graph, hfunc, rfl⟩⟩,
    ⟨_, file, rfl, hfile, hfileName⟩, Registry.names_findOrAdd s.registry name⟩
  obtain ⟨e, hb, hemitted⟩ := hblock b hb
  exact ⟨e, hb.mono hextends, hemitted⟩

theorem State.At.enlist_eq {name : String} (hat : s.At name) :
    enlist s.registry.names name = s.registry.names := by
  obtain ⟨i, file, -, hfile, rfl⟩ := hat
  refine if_pos (List.mem_of_getElem? (i := i) ?_)
  rw [Registry.names_getElem?, hfile, Option.map_some]

/-- Entries of a record, with their sources. -/
theorem carries_writeLines (entries : List LinesPlan)
    (hsources : ∀ entry ∈ entries, entry.source ≠ "" ∧ Storable entry.source)
    (hnumbers : ∀ entry ∈ entries, ∀ n ∈ entry.numbers, 0 < n ∧ n < wordRange) {s : State}
    {named : Nat → List (String × Nat)} (h : InLines s block named) {current : Option String}
    (hat : ∀ name, current = some name → s.At name) :
    ∃ t, machine.Carries order offset (FuncPlan.writeLines order current entries) s t
      ∧ InLines t block
        (Function.update named block (named block ++ entries.flatMap (·.attributions)))
      ∧ Continues s t
      ∧ t.registry.names = (entries.map (·.source)).foldl enlist s.registry.names := by
  induction entries generalizing s named offset current with
  | nil =>
    refine ⟨s, .refl s, ?_, .refl s, rfl⟩
    rwa [List.flatMap_nil, List.append_nil, Function.update_eq_self]
  | cons entry entries ih =>
    obtain ⟨hsource, hstorable⟩ := hsources entry List.mem_cons_self
    have hname : ∃ t, machine.Carries order offset
        (if current = some entry.source then [] else word order 0 ++ string order entry.source) s t
        ∧ InLines t block named ∧ Continues s t ∧ t.At entry.source
        ∧ t.registry.names = enlist s.registry.names entry.source := by
      split
      · next hcurrent =>
        have hs := hat _ hcurrent
        exact ⟨s, .refl s, h, .refl s, hs, hs.enlist_eq.symm⟩
      · exact carries_name order offset h hsource hstorable
    obtain ⟨t, hcarries, hlines, hcontinues, hat, hnames⟩ := hname
    obtain ⟨u, hcarries', hlines', hcontinues', hat', hnames'⟩ :=
      carries_numbers order _ entry.numbers (hnumbers entry List.mem_cons_self) hlines hat
    have hcurrent : ∀ name, some entry.source = some name → u.At name :=
      fun name hname => Option.some.inj hname ▸ hat'
    obtain ⟨v, hcarries'', hlines'', hcontinues'', hnames''⟩ :=
      ih _ (fun e he => hsources e (List.mem_cons_of_mem _ he))
        (fun e he => hnumbers e (List.mem_cons_of_mem _ he)) hlines' hcurrent
    refine ⟨v, (hcarries.trans hcarries').trans hcarries'', ?_,
      (hcontinues.trans hcontinues').trans hcontinues'', ?_⟩
    · rw [Function.update_idem, Function.update_self, List.append_assoc] at hlines''
      exact hlines''
    · rw [hnames'', hnames', hnames]
      rfl

/-- The blocks of the open function list these lines. -/
def State.Lists (s : State) (named : Nat → List (String × Nat)) : Prop :=
  ∃ func, s.current = some func ∧ func.Lists s.registry named

/-- The entries of a record have names and lines that can be read. -/
def Readable (entries : List LinesPlan) : Prop :=
  ∀ entry ∈ entries, entry.source ≠ "" ∧ Storable entry.source
    ∧ ∀ n ∈ entry.numbers, 0 < n ∧ n < wordRange

/-- A record of the lines of a block. -/
theorem carries_linesRecord (hmode : s.mode = .between) {func : Func}
    (hopen : s.current = some func) (hlists : func.Lists s.registry named)
    (hblock : block < func.graph.size) (hword : block < wordRange) {entries : List LinesPlan}
    (hentries : Readable entries) :
    ∃ t, machine.Carries order offset
        (record order GraphRecord.lines.tag (FuncPlan.linesPayload order block entries)) s t
      ∧ t.mode = .between
      ∧ t.Lists (Function.update named block (named block ++ entries.flatMap (·.attributions)))
      ∧ Continues s t
      ∧ t.registry.names = (entries.map (·.source)).foldl enlist s.registry.names := by
  have hbegin : ∀ length : Nat, machine.Carries order offset
      (word order GraphRecord.lines.tag ++ (word order length ++ word order block)) s
      { s with mode := .inLines block none } := by
    intro length
    refine carries_of_passes (passes_graphRecord hmode fun offset => ?_)
    rw [readGraphRecord, within_eq hopen]
    refine passes_read_goOn (Cursor.takes_natWord hword) ?_
    simp only [State.withBlock, hblock, if_true]
  have hstart : InLines { s with mode := .inLines block none } block named := by
    refine ⟨func, none, rfl, hopen, hlists, fun b hb => ?_⟩
    obtain ⟨e, hb⟩ := hlists block b hb
    exact ⟨e, hb, .inl rfl⟩
  have hnone : ∀ name, none = some name → State.At { s with mode := .inLines block none } name :=
    fun _ hnone => absurd hnone (by simp)
  obtain ⟨t, hcarries, ⟨func', emitted, hmode', hopen', hlists', -⟩, hcontinues, hnames⟩ :=
    carries_writeLines order
      (offset + (word order GraphRecord.lines.tag ++ (word order
        ((FuncPlan.linesPayload order block entries).length / wordSize : Nat)
          ++ word order block)).length)
      entries (fun e he => ⟨(hentries e he).1, (hentries e he).2.1⟩)
      (fun e he => (hentries e he).2.2) hstart hnone
  have hend : ∀ offset, machine.Carries order offset (word order 0 ++ string order "") t
      { t with mode := .between } := by
    intro offset
    refine carries_of_passes ?_
    rw [step_inLines hmode' hopen']
    refine passes_read (Cursor.takes_natWord (n := 0) (by decide)) ?_
    rw [if_pos rfl]
    exact passes_read_goOn (Cursor.takes_string ⟨by decide, by decide⟩) (if_pos rfl)
  refine ⟨{ t with mode := .between }, ?_, rfl, ⟨func', hopen', hlists'⟩,
    ⟨hcontinues.version, hcontinues.finished, hcontinues.registry, hcontinues.current⟩, hnames⟩
  have hcarries' := ((hbegin _).trans hcarries).trans (hend _)
  rw [record_eq]
  refine Eq.mp ?_ hcarries'
  rw [FuncPlan.linesPayload]
  simp only [List.append_assoc]

/-- The records of the lines of blocks. -/
theorem carries_linesRecords (records : List (Nat × List LinesPlan)) {s : State} {func : Func}
    (hmode : s.mode = .between) (hopen : s.current = some func)
    {named : Nat → List (String × Nat)} (hlists : func.Lists s.registry named)
    (hsize : func.graph.size ≤ wordRange)
    (hrecords : ∀ entry ∈ records, entry.1 < func.graph.size ∧ Readable entry.2) :
    ∃ t, machine.Carries order offset (records.flatMap fun (block, entries) =>
        record order GraphRecord.lines.tag (FuncPlan.linesPayload order block entries)) s t
      ∧ t.mode = .between
      ∧ t.Lists (fun i => named i ++ records.flatMap fun (block, entries) =>
          if block = i then entries.flatMap (·.attributions) else [])
      ∧ Continues s t
      ∧ t.registry.names = (records.flatMap fun (_, entries) => entries.map (·.source)).foldl enlist
          s.registry.names := by
  induction records generalizing s func named offset with
  | nil =>
    refine ⟨s, .refl s, hmode, ⟨func, hopen, ?_⟩, .refl s, rfl⟩
    simpa using hlists
  | cons entry records ih =>
    obtain ⟨block, entries⟩ := entry
    obtain ⟨hblock, hentries⟩ := hrecords _ List.mem_cons_self
    obtain ⟨t, hcarries, hmode', ⟨func', hopen', hlists'⟩, hcontinues, hnames⟩ :=
      carries_linesRecord order offset hmode hopen hlists hblock
        (Nat.lt_of_lt_of_le hblock hsize) hentries
    have hsize' : func'.graph.size = func.graph.size := by
      obtain ⟨graph, hgraph, hskeleton⟩ := hcontinues.current func hopen
      rw [hopen', Option.some.injEq] at hgraph
      rw [← FlowGraph.skeleton_size, hgraph, hskeleton, FlowGraph.skeleton_size]
    obtain ⟨u, hcarries', hmode'', hlists'', hcontinues', hnames'⟩ :=
      ih (offset + (record order GraphRecord.lines.tag
          (FuncPlan.linesPayload order block entries)).length) hmode' hopen' hlists'
        (hsize' ▸ hsize)
        (fun entry hentry => hsize' ▸ hrecords entry (List.mem_cons_of_mem _ hentry))
    refine ⟨u, hcarries.trans hcarries', hmode'', ?_, hcontinues.trans hcontinues', ?_⟩
    · have hupdate : (fun i => Function.update named block
            (named block ++ entries.flatMap (·.attributions)) i
            ++ records.flatMap fun (k, es) => if k = i then es.flatMap (·.attributions) else [])
          = fun i => named i ++ ((block, entries) :: records).flatMap fun (k, es) =>
            if k = i then es.flatMap (·.attributions) else [] := by
        funext i
        rw [List.flatMap_cons]
        by_cases hi : block = i
        · subst hi
          simp
        · simp [Function.update_of_ne (Ne.symm hi), hi]
      rwa [hupdate] at hlists''
    · rw [hnames', hnames, List.flatMap_cons, List.foldl_append]

end Notes

end Coverage
