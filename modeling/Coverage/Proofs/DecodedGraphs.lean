import Coverage.Proofs.SpanningTree
import Coverage.Proofs.Steps

/-!
# The graphs that notes files describe

Notes come from outside, and they may say anything: that an arc ends where it begins, or is there
twice, that a function has other blocks after all, or that a record of arcs is longer than the
file.  A graph is `Untouched` if every arc stands where it should, degrees are numbers of arcs, call
sites are the blocks that a fake arc leaves, and nothing was counted yet.  Blocks alone are an
untouched graph, and every arc that the decoder adds leaves one, so that it does not matter where
in a record the file ends.

* `step_intact` — a step leaves untouched graphs, whatever the bytes are;
* `decode_graphs` — the same of whatever is decoded.
-/

namespace Coverage

namespace FlowGraph

variable {g : FlowGraph}

/-! ## Graphs before anything is counted -/

/-- A graph of arcs that were added, and of which none was counted. -/
structure Untouched (g : FlowGraph) : Prop extends g.Prepared where
  unmeasured : ∀ arc ∈ g.arcs, arc.resolved = false ∧ arc.count = 0
  callSite : ∀ (i : Nat) (b : Block), g.blocks[i]? = some b →
    b.callSite = (g.arcsOf b.exits).any (·.fake)

theorem untouched_ofSize (n : Nat) : (ofSize n).Untouched where
  toPrepared := prepared_ofSize n
  unmeasured arc harc := absurd harc (by simp [ofSize])
  callSite i b hb := by
    obtain rfl := eq_of_ofSize hb
    rfl

/-- Lines do not matter. -/
theorem Untouched.mapLines (hg : g.Untouched) (i : Nat) (f : List Nat → List Nat) :
    (g.mapBlock i fun b => { b with lines := f b.lines }).Untouched where
  toPrepared := hg.toPrepared.mapBlock i fun _ => rfl
  unmeasured := hg.unmeasured
  callSite j b' hb' := by
    rw [getElem?_mapBlock] at hb'
    split at hb'
    · obtain ⟨b, hb, rfl⟩ := Option.map_eq_some_iff.mp hb'
      exact hg.callSite j b hb
    · exact hg.callSite j b' hb'

/-- Adds an arc; a fake one makes its source a call site. -/
def link (g : FlowGraph) (arc : Arc) : FlowGraph :=
  if arc.fake then (g.addArc arc).mapBlock arc.src fun b => { b with callSite := true }
  else g.addArc arc

@[simp] theorem link_arcs (g : FlowGraph) (arc : Arc) : (g.link arc).arcs = g.arcs.push arc := by
  unfold link
  split <;> rfl

@[simp] theorem link_size (g : FlowGraph) (arc : Arc) : (g.link arc).size = g.size := by
  unfold link
  split <;> simp

/-- The exits of a block, and whether it is a call site, after an arc was added. -/
theorem exists_of_link {arc : Arc} {i : Nat} {b' : Block}
    (hb' : (g.link arc).blocks[i]? = some b') :
    ∃ b, g.blocks[i]? = some b
      ∧ b'.exits = b.exits ++ (if arc.src = i then [g.arcs.size] else [])
      ∧ b'.callSite = (b.callSite || (decide (arc.src = i) && arc.fake)) := by
  have hadded : ∀ b₁, (g.addArc arc).blocks[i]? = some b₁ → ∃ b, g.blocks[i]? = some b
      ∧ b₁.exits = b.exits ++ (if arc.src = i then [g.arcs.size] else [])
      ∧ b₁.callSite = b.callSite := by
    intro b₁ hb₁
    rw [addArc_block] at hb₁
    obtain ⟨b, hb, rfl⟩ := Option.map_eq_some_iff.mp hb₁
    refine ⟨b, hb, ?_, ?_⟩
    · change Block.arcsOn _ .exits = b.arcsOn .exits ++ _
      dsimp only
      split <;> split <;> simp
    · dsimp only
      split <;> split <;> simp
  unfold link at hb'
  split at hb'
  · next hfake =>
    rw [getElem?_mapBlock] at hb'
    split at hb'
    · next hsrc =>
      obtain ⟨b₁, hb₁, rfl⟩ := Option.map_eq_some_iff.mp hb'
      obtain ⟨b, hb, hexits, -⟩ := hadded b₁ hb₁
      exact ⟨b, hb, hexits, by simp [hsrc, hfake]⟩
    · next hsrc =>
      obtain ⟨b, hb, hexits, hsite⟩ := hadded b' hb'
      exact ⟨b, hb, hexits, by simp [hsite, hsrc]⟩
  · next hfake =>
    obtain ⟨b, hb, hexits, hsite⟩ := hadded b' hb'
    exact ⟨b, hb, hexits, by simp [hsite, hfake]⟩

/-- Adding an arc between two blocks leaves an untouched graph. -/
theorem Untouched.link (hg : g.Untouched) {arc : Arc} (hsrc : arc.src < g.size)
    (hdst : arc.dst < g.size) (hnew : arc.resolved = false ∧ arc.count = 0) :
    (g.link arc).Untouched where
  toPrepared := by
    have hadded := hg.toPrepared.addArc hsrc hdst
    unfold FlowGraph.link
    split
    · exact hadded.mapBlock arc.src fun _ => rfl
    · exact hadded
  unmeasured a ha := by
    rw [link_arcs, Array.mem_push] at ha
    rcases ha with ha | rfl
    · exact hg.unmeasured a ha
    · exact hnew
  callSite i b' hb' := by
    obtain ⟨b, hb, hexits, hsite⟩ := exists_of_link hb'
    have hold : (g.link arc).arcsOf b.exits = g.arcsOf b.exits := by
      refine List.filterMap_congr fun id hid => ?_
      have hlt : id < g.arcs.size :=
        hg.linked.lt_arcs (i := i) (s := .exits) (by rwa [side_of_getElem? hb])
      rw [link_arcs, Array.getElem?_push, if_neg (Nat.ne_of_lt hlt)]
    have hlast : (g.link arc).arcsOf [g.arcs.size] = [arc] := by simp [arcsOf]
    have happend : ∀ ids, (g.link arc).arcsOf (b.exits ++ ids)
        = g.arcsOf b.exits ++ (g.link arc).arcsOf ids := by
      intro ids
      rw [← hold]
      exact List.filterMap_append
    rw [hexits, hsite, happend, List.any_append, hg.callSite i b hb]
    by_cases hi : arc.src = i
    · rw [if_pos hi, hlast]
      simp [hi]
    · rw [if_neg hi]
      simp [hi, arcsOf]

/-- Degrees are numbers of arcs as long as none of them was counted. -/
theorem Untouched.pending_eq (hg : g.Untouched) {i : Nat} {b : Block}
    (hb : g.blocks[i]? = some b) (s : Side) : b.pending s = (b.arcsOn s).length := by
  have hopen : ∀ id ∈ g.side i s, g.isOpen id = true := by
    intro id hid
    obtain ⟨arc, harc, -⟩ := (hg.linked.mem_side i s id).mp hid
    obtain ⟨hres, -⟩ := hg.unmeasured arc (Array.mem_of_getElem? harc)
    rw [isOpen_eq_true_iff harc, knowledge_arc_eq_none_iff harc, hres]
  rw [hg.pending i b s hb, openDegree, List.countP_eq_length.mpr hopen, side_of_getElem? hb]

theorem Untouched.callSite_iff (hg : g.Untouched) {i : Nat} {b : Block}
    (hb : g.blocks[i]? = some b) :
    b.callSite = true ↔ ∃ id ∈ b.exits, ∃ arc, g.arcs[id]? = some arc ∧ arc.fake = true := by
  rw [hg.callSite i b hb, List.any_eq_true]
  constructor
  · rintro ⟨arc, harc, hfake⟩
    obtain ⟨id, hid, harc⟩ := List.mem_filterMap.mp harc
    exact ⟨id, hid, arc, harc, hfake⟩
  · rintro ⟨id, hid, arc, harc, hfake⟩
    exact ⟨arc, List.mem_filterMap.mpr ⟨id, hid, harc⟩, hfake⟩

/-- An arc stands once on the side where it leaves or enters. -/
theorem Linked.exists_block_at (hg : g.Linked) {id : Nat} {arc : Arc}
    (harc : g.arcs[id]? = some arc) (s : Side) :
    ∃ b, g.blocks[arc.nearEnd s]? = some b ∧ (b.arcsOn s).count id = 1 := by
  obtain ⟨b, hb⟩ := exists_block (hg.nearEnd_lt harc s)
  have hmem : id ∈ g.side (arc.nearEnd s) s := (hg.mem_side _ s id).mpr ⟨arc, harc, rfl⟩
  have hone := List.count_eq_one_of_mem (hg.nodup _ s) hmem
  rw [side_of_getElem? hb] at hone
  exact ⟨b, hb, hone⟩

end FlowGraph

namespace Notes

/-! ## What the decoder keeps -/

/-- The arcs of a record leave a block that the open function has. -/
def Mode.Within (func : Func) : Mode → Prop
  | .inArcs src _ => src < func.graph.size
  | _ => True

theorem Mode.within_beforeArcs {func : Func} {src : Nat} (hsrc : src < func.graph.size)
    (further : Nat) : (Mode.beforeArcs src further).Within func := by
  cases further
  · trivial
  · exact hsrc

/-- A state of the decoder in which the graphs of all functions are untouched. -/
structure State.Intact (s : State) : Prop where
  finished : ∀ func ∈ s.finished, func.graph.Untouched
  current : ∀ func, s.current = some func → func.graph.Untouched
  mode : ∀ func, s.current = some func → s.mode.Within func

variable {s : State}

theorem State.Intact.functions (hs : s.Intact) : ∀ func ∈ s.functions, func.graph.Untouched := by
  intro func hfunc
  rcases List.mem_append.mp hfunc with hfunc | hfunc
  · exact hs.finished func hfunc
  · exact hs.current func (Option.mem_toList.mp hfunc)

/-- What is left when untouched functions are given back, or none. -/
def GivesIntact (result : Result) : Prop :=
  ∀ functions, result.result = .ok functions → ∀ func ∈ functions, func.graph.Untouched

/-- Steps that leave the graphs of all functions untouched. -/
abbrev Step.Keeps (step : Step) : Prop :=
  step.Leaves State.Intact GivesIntact

theorem keeps_refuse (s : State) (error : CoverageError) : Step.Keeps (s.refuse error) :=
  Scanner.leaves_finish (by rintro functions ⟨⟩)

theorem State.Intact.givesIntact_close (hs : s.Intact) : GivesIntact s.close := by
  rintro functions ⟨⟩
  exact hs.functions

theorem State.Intact.keeps_read (hs : s.Intact) {α : Type} (action : Read α) {use : α → Step}
    (huse : ∀ a, Step.Keeps (use a)) : Step.Keeps (s.read action use) :=
  Scanner.leaves_read (Read.yields_true action) hs.givesIntact_close fun a _ => huse a

theorem keeps_within (record : GraphRecord) {use : Func → Step}
    (huse : ∀ func, s.current = some func → Step.Keeps (use func)) :
    Step.Keeps (s.within record use) := by
  unfold State.within
  split
  · next func hcurrent => exact huse func hcurrent
  · exact keeps_refuse s _

theorem keeps_withBlock (s : State) (func : Func) (index : Nat) {use : Step}
    (huse : index < func.graph.size → Step.Keeps use) :
    Step.Keeps (s.withBlock func index use) := by
  unfold State.withBlock
  split
  · next hindex => exact huse hindex
  · exact keeps_refuse s _

/-- Another graph of the open function, and another place. -/
theorem State.Intact.update (hs : s.Intact) {func : Func} {mode : Mode}
    (hfunc : func.graph.Untouched) (hmode : mode.Within func) (registry : Registry) :
    State.Intact { s with registry, current := some func, mode } where
  finished := hs.finished
  current := by
    rintro func ⟨⟩
    exact hfunc
  mode := by
    rintro func ⟨⟩
    exact hmode

theorem State.Intact.readArc (hs : s.Intact) {func : Func} (hcurrent : s.current = some func)
    {src : Nat} (hsrc : src < func.graph.size) (further : Nat) :
    Step.Keeps (readArc s func src further) := by
  refine hs.keeps_read _ fun (dst, flags) => keeps_withBlock s func dst fun hdst => ?_
  have hlinked : (linkArc func src dst flags).graph.Untouched :=
    (hs.current func hcurrent).link hsrc hdst ⟨rfl, rfl⟩
  have hsize : (linkArc func src dst flags).graph.size = func.graph.size :=
    FlowGraph.link_size func.graph { src, dst, flags }
  exact Scanner.leaves_goOn
    (hs.update hlinked (Mode.within_beforeArcs (hsize ▸ hsrc) further) s.registry)

theorem State.Intact.readLine (hs : s.Intact) {func : Func} (hcurrent : s.current = some func)
    (block : Nat) (emitted : Option Nat) : Step.Keeps (readLine s func block emitted) := by
  refine hs.keeps_read _ fun line => ?_
  split
  · refine hs.keeps_read _ fun name => ?_
    split
    · exact Scanner.leaves_goOn
        { finished := hs.finished, current := hs.current, mode := fun _ _ => trivial }
    · exact Scanner.leaves_goOn { hs with }
  · split
    · exact keeps_refuse s _
    · next source _ =>
      have hlines : (addLine func block source line emitted).graph.Untouched :=
        (hs.current func hcurrent).mapLines block
          (· ++ if emitted = some source then [line] else [0, source, line])
      have hmode : (Mode.inLines block (some source)).Within
          (addLine func block source line emitted) := trivial
      exact Scanner.leaves_goOn (hs.update hlines hmode _)

theorem State.Intact.readGraphRecord (hs : s.Intact) (hmode : s.mode = .between)
    (record : GraphRecord) (length : Nat) : Step.Keeps (readGraphRecord s record length) := by
  refine keeps_within record fun func hcurrent => ?_
  cases record with
  | blocks =>
    refine hs.keeps_read _ fun count => ?_
    have hblocks : s.mode.Within { func with graph := .ofSize count } := by
      rw [hmode]
      trivial
    exact Scanner.leaves_goOn
      (hs.update (FlowGraph.untouched_ofSize count) hblocks s.registry)
  | arcs =>
    refine hs.keeps_read _ fun src => keeps_withBlock s func src fun hsrc => ?_
    refine Scanner.leaves_goOn { hs with mode := fun func' hfunc' => ?_ }
    obtain rfl : func' = func := Option.some.inj (hfunc'.symm.trans hcurrent)
    exact Mode.within_beforeArcs hsrc _
  | lines =>
    refine hs.keeps_read _ fun block => keeps_withBlock s func block fun _ => ?_
    exact Scanner.leaves_goOn { hs with mode := fun _ _ => trivial }

theorem State.Intact.openFunction (hs : s.Intact) (hmode : s.mode = .between) {header : Func}
    (hheader : header.graph = {}) : (openFunction s header).Intact where
  finished := hs.functions
  current := by
    rintro func ⟨⟩
    show header.graph.Untouched
    rw [hheader]
    exact FlowGraph.untouched_ofSize 0
  mode := by
    intro func _
    show s.mode.Within func
    rw [hmode]
    trivial

theorem State.Intact.readTag (hs : s.Intact) (hmode : s.mode = .between) :
    Step.Keeps (readTag s) := by
  refine hs.keeps_read _ fun word => ?_
  split
  · exact Scanner.leaves_goOn hs
  · refine hs.keeps_read _ fun length => ?_
    split
    · exact Scanner.leaves_read (readHeader_yields s.version) hs.givesIntact_close
        fun header hheader => Scanner.leaves_goOn (hs.openFunction hmode hheader)
    · exact hs.readGraphRecord hmode _ length

/-- A step leaves the graphs of all functions untouched, whatever the bytes are. -/
theorem State.Intact.step (hs : s.Intact) : Step.Keeps (step s) := by
  unfold Notes.step
  split
  · next hmode => exact hs.readTag hmode
  · next src further hmode =>
    refine keeps_within .arcs fun func hcurrent => hs.readArc hcurrent ?_ further
    have hsrc := hs.mode func hcurrent
    rwa [hmode] at hsrc
  · exact keeps_within .lines fun func hcurrent => hs.readLine hcurrent _ _

/-- Decoding the records of a file gives untouched graphs. -/
theorem decodeRecords_intact (registry : Registry) (version : Nat) (cursor : Cursor) :
    GivesIntact (decodeRecords registry version cursor) := by
  have hkeep : ∀ s t : Scan State, machine.step s = .next t → s.state.Intact → t.state.Intact :=
    fun s t ht hs => hs.step.next s.cursor t ht
  have hstart : State.Intact { version, registry } :=
    { finished := by simp, current := by simp, mode := by simp }
  obtain ⟨last, hreach, hstop⟩ :=
    machine.exists_reaches_stop ({ cursor, state := { version, registry } } : Scan State)
  have hlast : last.state.Intact := hreach.invariant machine hkeep hstart
  exact hlast.step.stop last.cursor _ hstop

/-- Decoding gives untouched graphs, whatever the bytes are. -/
theorem decode_intact (registry : Registry) (bytes : Bytes) :
    GivesIntact (decode registry bytes) := by
  intro functions hfunctions
  rcases decode_cases registry bytes with ⟨-, hnone⟩ | ⟨version, cursor, -, hresult⟩
  · rw [hnone functions hfunctions]
    simp
  · exact decodeRecords_intact registry version cursor functions (hresult ▸ hfunctions)

/-! ## Whatever is decoded -/

/-- The graphs of the functions that are decoded from any bytes at all, wherever these end.  On the
sides of either kind every arc stands once, at the block where it leaves or enters, and the sides
hold nothing else.  Degrees are numbers of arcs.  A call site is a block that a fake arc leaves.
Nothing is counted. -/
theorem decode_graphs (registry : Registry) (bytes : Bytes) (functions : List Func)
    (hdecoded : (decode registry bytes).result = .ok functions) :
    ∀ func ∈ functions,
      (∀ side, (func.graph.blocks.toList.flatMap (·.arcsOn side)).Perm
        (List.range func.graph.arcs.size))
      ∧ (∀ (id : Nat) (arc : Arc), func.graph.arcs[id]? = some arc →
          (∃ block, func.graph.blocks[arc.src]? = some block ∧ block.exits.count id = 1)
          ∧ (∃ block, func.graph.blocks[arc.dst]? = some block ∧ block.entries.count id = 1)
          ∧ arc.src < func.graph.size ∧ arc.dst < func.graph.size
          ∧ arc.resolved = false ∧ arc.count = 0)
      ∧ ∀ (i : Nat) (block : Block), func.graph.blocks[i]? = some block →
          block.pendingOut = block.exits.length ∧ block.pendingIn = block.entries.length
          ∧ (block.callSite = true ↔
              ∃ id ∈ block.exits, ∃ arc, func.graph.arcs[id]? = some arc ∧ arc.fake = true)
          ∧ block.count = 0 ∧ block.countValid = false
          ∧ block.onUnresolved = false ∧ block.onResolved = false := by
  intro func hfunc
  have hg : func.graph.Untouched := decode_intact registry bytes functions hdecoded func hfunc
  refine ⟨fun side => ?_, fun id arc harc => ?_, fun i block hblock => ?_⟩
  · rw [FlowGraph.flatMap_arcsOn]
    exact hg.linked.perm_sides side
  · obtain ⟨hres, hcount⟩ := hg.unmeasured arc (Array.mem_of_getElem? harc)
    exact ⟨hg.linked.exists_block_at harc .exits, hg.linked.exists_block_at harc .entries,
      hg.linked.nearEnd_lt harc .exits, hg.linked.nearEnd_lt harc .entries, hres, hcount⟩
  · exact ⟨hg.pending_eq hblock .exits, hg.pending_eq hblock .entries, hg.callSite_iff hblock,
      hg.fresh i block hblock⟩

/-- Notes of one function.  Its blocks come twice; the arcs that leave the last block are an arc
onto itself, the same arc once more, a fake one back to the first block, and half of a fourth. -/
def unevenNotes : Bytes :=
  Writer.words .little
    [0x67636E6F, 0x34303200, 0, 0x01000000, 9, 1, 2, 1, 0x6E69616D, 1, 0x632E6D, 3,
      0x01410000, 3, 0, 0, 0, 0x01430000, 3, 0, 2, 1, 0x01410000, 2, 0, 0,
      0x01430000, 99, 1, 1, 0, 1, 0, 0, 2, 0]

/-- What is decoded from them. -/
def unevenFunc : Func where
  ident := 1
  checksum := 2
  name := "main"
  source := "m.c"
  firstLine := 3
  graph :=
    [{ src := 1, dst := 1 }, { src := 1, dst := 1 }, { src := 1, dst := 0, flags := 2 }].foldl
      .link (.ofSize 2)

theorem unevenNotes_graphs :
    (decode {} unevenNotes).result = .ok [unevenFunc]
      ∧ unevenFunc.graph.blocks.toList.map (·.exits) = [[], [0, 1, 2]]
      ∧ unevenFunc.graph.blocks.toList.map (·.entries) = [[2], [0, 1]]
      ∧ (∀ side, (unevenFunc.graph.blocks.toList.flatMap (·.arcsOn side)).Perm [0, 1, 2])
      ∧ ∀ (i : Nat) (block : Block), unevenFunc.graph.blocks[i]? = some block →
          block.pendingOut = block.exits.length ∧ block.pendingIn = block.entries.length := by
  have hdecoded : (decode {} unevenNotes).result = .ok [unevenFunc] := by decide +kernel
  obtain ⟨hsides, -, hblocks⟩ :=
    decode_graphs {} unevenNotes [unevenFunc] hdecoded unevenFunc (List.mem_singleton_self _)
  refine ⟨hdecoded, by decide, by decide, hsides, fun i block hblock => ?_⟩
  obtain ⟨hout, hin, -⟩ := hblocks i block hblock
  exact ⟨hout, hin⟩

end Notes

end Coverage
