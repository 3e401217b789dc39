import Coverage.Proofs.Mentions
import Coverage.Proofs.NotesTruncation

/-!
# Lines stay with their blocks

The decoder keeps the lines of a block as one list of numbers, in which a zero says that the next
number is the position of a source.  The source that was named last stays current across records
and functions, and is put on the list only before a line.

The decoder is followed here by a reader that takes down what records mention and keeps no such
list (`State.Reflects`).  Every step of the one is a step of the other
(`State.Reflects.step`), so what a block lists in the end is what the file attributes to it: no line
is lost or added, and none goes to another source or another block (`decode_lines`).
-/

namespace Coverage

/-! ## Positions of sources -/

theorem Registry.indexOf?_eq (r : Registry) (name : String) :
    r.indexOf? name = r.names.findIdx? (· == name) := by
  rw [indexOf?, names, List.findIdx?_map]
  rfl

/-- A name keeps its position when a registry grows. -/
theorem Registry.Extends.indexOf?_eq_some {r r' : Registry} (h : r.Extends r') {name : String}
    {index : Nat} (hindex : r.indexOf? name = some index) : r'.indexOf? name = some index := by
  obtain ⟨more, hnames⟩ := h.names_prefix
  rw [Registry.indexOf?_eq] at hindex ⊢
  rw [← hnames, List.findIdx?_append, hindex, Option.some_or]

/-- A name has the position that it was found at, or added at. -/
theorem Registry.indexOf?_findOrAdd (r : Registry) (name : String) :
    (r.findOrAdd name).2.indexOf? name = some (r.findOrAdd name).1 := by
  unfold findOrAdd
  split
  · next index hindex => exact hindex
  · next hnone =>
    have hfiles : r.files.toList.findIdx? (·.name == name) = none := hnone
    simp [indexOf?, List.findIdx?_append, hfiles]

/-- `r.Finds place entry`: the place is that of a line of a source with the given name. -/
def Registry.Finds (r : Registry) (place : Nat × Nat) (entry : Option String × Nat) : Prop :=
  entry.1.bind r.indexOf? = some place.1 ∧ entry.2 = place.2

theorem Registry.Finds.mono {r r' : Registry} {place : Nat × Nat} {entry : Option String × Nat}
    (h : r.Finds place entry) (hr : r.Extends r') : r'.Finds place entry := by
  obtain ⟨hindex, hline⟩ := h
  obtain ⟨name, hname, hindex⟩ := Option.bind_eq_some_iff.mp hindex
  exact ⟨Option.bind_eq_some_iff.mpr ⟨name, hname, hr.indexOf?_eq_some hindex⟩, hline⟩

/-! ## Blocks -/

/-- `b.Holds r entries`: the block lists these lines, and its list can go on in some source. -/
structure Block.Holds (b : Block) (r : Registry) (entries : List (Option String × Nat)) :
    Prop where
  places : List.Forall₂ r.Finds b.associations entries
  continues : ∃ e, ∀ tail, associationsFrom none (b.lines ++ tail)
    = b.associations ++ associationsFrom e tail

namespace Block

variable {b b' : Block} {r r' : Registry} {entries : List (Option String × Nat)}

theorem Holds.mono (h : b.Holds r entries) (hr : r.Extends r') : b.Holds r' entries where
  places := h.places.imp fun _ _ hplace => hplace.mono hr
  continues := h.continues

theorem Holds.of_lines (h : b.Holds r entries) (hb : b'.lines = b.lines) : b'.Holds r entries := by
  have hassociations : b'.associations = b.associations := congrArg (associationsFrom none) hb
  refine ⟨hassociations ▸ h.places, ?_⟩
  rw [hb, hassociations]
  exact h.continues

/-- A block without lines. -/
theorem holds_nil (hb : b.lines = []) (r : Registry) : b.Holds r [] := by
  have hassociations : b.associations = [] := congrArg (associationsFrom none) hb
  refine ⟨hassociations ▸ .nil, none, fun tail => ?_⟩
  rw [hb, hassociations]
  rfl

/-- The list with one more line, and how it goes on. -/
theorem Holds.addLine {emitted : Option Nat} {source line : Nat} {entry : Option String × Nat}
    (h : b.Holds r entries) (hgo : b.GoesOn emitted) (hline : line ≠ 0)
    (hentry : r.Finds (source, line) entry) :
    (b.addLine emitted source line).Holds r (entries ++ [entry])
      ∧ (b.addLine emitted source line).GoesOn (some source) := by
  have hadd : ∀ tail, associationsFrom none ((b.addLine emitted source line).lines ++ tail)
      = b.associations ++ [(source, line)] ++ associationsFrom (some source) tail := by
    intro tail
    rcases hgo with hnone | hgo
    · obtain ⟨e, hcontinues⟩ := h.continues
      exact associationsFrom_add hcontinues (.inl hnone) source hline tail
    · exact associationsFrom_add hgo (.inr rfl) source hline tail
  have hassociations : (b.addLine emitted source line).associations
      = b.associations ++ [(source, line)] := by
    simpa [associations, associationsFrom] using hadd []
  rw [← hassociations] at hadd
  refine ⟨⟨?_, some source, hadd⟩, .inr hadd⟩
  rw [hassociations]
  exact List.rel_append h.places (.cons hentry .nil)

/-- What a block holds is told by positions. -/
theorem Holds.associations_eq (h : b.Holds r entries) :
    b.associations.map (fun place => (some place.1, place.2))
      = entries.map fun entry => (entry.1.bind r.indexOf?, entry.2) := by
  rw [← List.forall₂_eq_eq_eq, List.forall₂_map_left_iff, List.forall₂_map_right_iff]
  refine h.places.imp fun place entry hplace => ?_
  rw [hplace.1, hplace.2]

end Block

/-! ## Functions -/

open Notes (Mention attributed)

/-- `func.Bears r told i`: the blocks of the function hold the lines that are attributed to those of
the function at position `i`. -/
def Func.Bears (func : Func) (r : Registry) (told : List Mention) (i : Nat) : Prop :=
  ∀ (b : Nat) (block : Block), func.graph.blocks[b]? = some block →
    block.Holds r (attributed told i b)

theorem Func.Bears.mono {func : Func} {r r' : Registry} {told told' : List Mention} {i : Nat}
    (h : func.Bears r told i) (hr : r.Extends r')
    (htold : ∀ b, attributed told' i b = attributed told i b) : func.Bears r' told' i := by
  intro b block hblock
  rw [htold]
  exact (h b block hblock).mono hr

/-- A line that is put on the list of a block is the next one that the block bears, and the list
can go on in its source. -/
theorem Func.Bears.addLine {func : Func} {r : Registry} {told told' : List Mention}
    {i block source line : Nat} {emitted : Option Nat} {entry : Option String × Nat}
    (h : func.Bears r told i)
    (hgo : ∀ b, func.graph.blocks[block]? = some b → b.GoesOn emitted) (hline : line ≠ 0)
    (hentry : r.Finds (source, line) entry)
    (htold : ∀ b, attributed told' i b
      = attributed told i b ++ if b = block then [entry] else []) :
    (Notes.addLine func block source line emitted).Bears r told' i
      ∧ ∀ b, (Notes.addLine func block source line emitted).graph.blocks[block]? = some b →
        b.GoesOn (some source) := by
  have hblocks : ∀ b after,
      (Notes.addLine func block source line emitted).graph.blocks[b]? = some after →
      after.Holds r (attributed told' i b) ∧ (b = block → after.GoesOn (some source)) := by
    intro b after hafter
    replace hafter : (func.graph.mapBlock block (·.addLine emitted source line)).blocks[b]?
        = some after := hafter
    rw [FlowGraph.getElem?_mapBlock] at hafter
    rw [htold]
    by_cases hb : block = b
    · subst hb
      rw [if_pos rfl] at hafter ⊢
      obtain ⟨before, hbefore, rfl⟩ := Option.map_eq_some_iff.mp hafter
      obtain ⟨hadded, hgoes⟩ := (h block before hbefore).addLine (hgo before hbefore) hline hentry
      exact ⟨hadded, fun _ => hgoes⟩
    · rw [if_neg hb] at hafter
      rw [if_neg (Ne.symm hb), List.append_nil]
      exact ⟨h b after hafter, fun heq => absurd heq.symm hb⟩
  exact ⟨fun b after hafter => (hblocks b after hafter).1,
    fun after hafter => (hblocks block after hafter).2 rfl⟩

/-! ## Reading in a row -/

/-- What is read in a row may be read piece by piece. -/
theorem Scanner.read_bind {σ ω α β : Type} (action : Read α) (next : α → Read β) (close : ω)
    (use : β → Scanner σ ω) :
    read (action >>= next) close use = read action close fun a => read (next a) close use := by
  funext cursor
  simp only [read, EStateM.run, Bind.bind, EStateM.bind]
  cases action cursor <;> rfl

namespace Notes

/-! ## The decoder and the reader -/

/-- Where the reader stands when the decoder is in a mode. -/
def Mode.place : Mode → Place
  | .between => .between
  | .inArcs _ further => .inArcs further
  | .inLines _ _ => .inLines

@[simp] theorem Mode.place_beforeArcs (src further : Nat) :
    (Mode.beforeArcs src further).place = .beforeArcs further := by
  cases further <;> rfl

theorem Mode.beforeArcs_ne_inLines (src further block : Nat) (emitted : Option Nat) :
    Mode.beforeArcs src further ≠ .inLines block emitted := by
  cases further <;> nofun

/-- `s.Reflects pad`: the decoder has made of the file what the reader took down.  The functions are
as many and bear their lines, the current source is the one that was named last, and a record of
lines goes on with the list of the block that was mentioned last. -/
structure State.Reflects (s : State) (pad : Notepad) : Prop where
  version : pad.version = s.version
  place : pad.place = s.mode.place
  count : s.functions.length = functionCount pad.told
  source : Option.Rel (fun name index => s.registry.indexOf? name = some index)
    (lastSource? pad.told) s.source
  block : ∀ block emitted, s.mode = .inLines block emitted → lastBlock? pad.told = some block
    ∧ ∀ (func : Func) (b : Block), s.current = some func →
      func.graph.blocks[block]? = some b → b.GoesOn emitted
  lines : ∀ (i : Nat) (func : Func), s.functions[i]? = some func →
    func.Bears s.registry pad.told i

namespace State.Reflects

variable {s : State} {pad : Notepad} {func : Func}

theorem of_start (version : Nat) (registry : Registry) :
    ({ version, registry } : State).Reflects { version } where
  version := rfl
  place := rfl
  count := rfl
  source := .none
  block := by simp
  lines := by simp [functions]

/-- The open function is the one that was mentioned last. -/
theorem count_current (h : s.Reflects pad) (hcurrent : s.current = some func) :
    functionCount pad.told = s.finished.length + 1 := by
  rw [← h.count, functions_of_current hcurrent, List.length_append, List.length_singleton]

theorem bears_current (h : s.Reflects pad) (hcurrent : s.current = some func) :
    func.Bears s.registry pad.told s.finished.length := by
  refine h.lines _ func ?_
  rw [functions_of_current hcurrent, List.getElem?_concat_length]

/-- The functions, of which the open one has changed. -/
theorem lines_update (h : s.Reflects pad) (hcurrent : s.current = some func) {func' : Func}
    {registry : Registry} {told : List Mention} (hextends : s.registry.Extends registry)
    (hothers : ∀ i b, i ≠ s.finished.length → attributed told i b = attributed pad.told i b)
    (hbears : func'.Bears registry told s.finished.length) (i : Nat) (f : Func)
    (hf : (s.finished ++ [func'])[i]? = some f) : f.Bears registry told i := by
  by_cases hi : i = s.finished.length
  · subst hi
    rw [List.getElem?_concat_length] at hf
    obtain rfl := Option.some.inj hf
    exact hbears
  · have hlt : i < s.finished.length := by
      have hlength := (List.getElem?_eq_some_iff.mp hf).1
      rw [List.length_append, List.length_singleton] at hlength
      omega
    rw [List.getElem?_append_left hlt] at hf
    refine (h.lines i f ?_).mono hextends (hothers i · hi)
    rw [functions_of_current hcurrent, List.getElem?_append_left hlt]
    exact hf

/-! ### What a step does -/

/-- Goes to a place that is not among lines. -/
theorem move (h : s.Reflects pad) (mode : Mode)
    (hmode : ∀ block emitted, mode ≠ .inLines block emitted) :
    ({ s with mode } : State).Reflects { pad with place := mode.place } where
  version := h.version
  place := rfl
  count := h.count
  source := h.source
  block block emitted hlines := absurd hlines (hmode block emitted)
  lines := h.lines

/-- Begins a record of lines. -/
theorem enterBlock (h : s.Reflects pad) (block : Nat) :
    ({ s with mode := .inLines block none } : State).Reflects
      { pad with place := .inLines, told := pad.told ++ [.block block] } where
  version := h.version
  place := rfl
  count := by
    rw [functionCount_concat]
    exact h.count
  source := by
    rw [lastSource?_concat]
    exact h.source
  block := by
    rintro _ _ ⟨⟩
    exact ⟨lastBlock?_concat _ _, fun _ _ _ _ => .inl rfl⟩
  lines i func hfunc := (h.lines i func hfunc).mono (.refl _) fun b =>
    attributed_concat_of_silent pad.told (.block block) nofun rfl i b

/-- Opens a function, which has no blocks yet. -/
theorem openFunction (h : s.Reflects pad) (hmode : s.mode = .between) {header : Func}
    (hgraph : header.graph = {}) :
    (Notes.openFunction s header).Reflects
      { pad with place := .between, told := pad.told ++ [.function] } where
  version := h.version
  place := by
    show Place.between = s.mode.place
    rw [hmode]
    rfl
  count := by
    show (s.functions ++ [_]).length = _
    rw [functionCount_concat, List.length_append, h.count]
    rfl
  source := by
    rw [lastSource?_concat]
    exact optionRel_imp h.source fun _ _ hindex =>
      (Registry.extends_addFunc s.registry header).indexOf?_eq_some hindex
  block block emitted hlines := by
    have hbetween : (Notes.openFunction s header).mode = .between := hmode
    rw [hbetween] at hlines
    cases hlines
  lines i func hfunc := by
    replace hfunc : (s.functions ++ [{ header with serial := s.registry.issued }])[i]? = some func :=
      hfunc
    by_cases hi : i < s.functions.length
    · rw [List.getElem?_append_left hi] at hfunc
      exact (h.lines i func hfunc).mono (Registry.extends_addFunc s.registry header) fun b =>
        attributed_concat_of_silent pad.told .function nofun rfl i b
    · rw [List.getElem?_append_right (Nat.le_of_not_lt hi), List.getElem?_singleton] at hfunc
      split at hfunc
      · obtain rfl := Option.some.inj hfunc
        intro b block hblock
        simp [hgraph] at hblock
      · cases hfunc

/-- Gives the open function other blocks, which have no lines. -/
theorem setBlocks (h : s.Reflects pad) (hmode : s.mode = .between)
    (hcurrent : s.current = some func) (count : Nat) :
    (Notes.setBlocks s func count).Reflects
      { pad with place := .between, told := pad.told ++ [.blocks] } where
  version := h.version
  place := by
    show Place.between = s.mode.place
    rw [hmode]
    rfl
  count := by
    show (s.finished ++ [_]).length = _
    rw [functionCount_concat, h.count_current hcurrent, List.length_append]
    rfl
  source := by
    rw [lastSource?_concat]
    exact h.source
  block block emitted hlines := by
    have hbetween : (Notes.setBlocks s func count).mode = .between := hmode
    rw [hbetween] at hlines
    cases hlines
  lines := by
    have hcount := h.count_current hcurrent
    refine h.lines_update hcurrent (.refl _) (fun i b hi => ?_) fun b block hblock => ?_
    · rw [attributed_concat_blocks, if_neg (by omega)]
    · obtain rfl := FlowGraph.eq_of_ofSize hblock
      rw [attributed_concat_blocks, if_pos hcount]
      exact Block.holds_nil rfl s.registry

/-- Adds an arc to the open function. -/
theorem linkArc (h : s.Reflects pad) (hcurrent : s.current = some func)
    (src dst flags further : Nat) :
    ({ s with
        current := some (Notes.linkArc func src dst flags)
        mode := .beforeArcs src further } : State).Reflects
      { pad with place := .beforeArcs further } where
  version := h.version
  place := (Mode.place_beforeArcs src further).symm
  count := by
    show (s.finished ++ [_]).length = _
    rw [h.count_current hcurrent, List.length_append]
    rfl
  source := h.source
  block block emitted hlines := absurd hlines (Mode.beforeArcs_ne_inLines src further block emitted)
  lines := by
    refine h.lines_update hcurrent (.refl _) (fun _ _ _ => rfl) fun b block hblock => ?_
    obtain ⟨b₀, hb₀, hsame⟩ := lines_linkArc hblock
    exact (h.bears_current hcurrent b b₀ hb₀).of_lines hsame

/-- Names a source. -/
theorem nameSource (h : s.Reflects pad) (name : String) :
    (Notes.nameSource s name).Reflects
      { pad with place := s.mode.place, told := pad.told ++ [.source name] } where
  version := h.version
  place := rfl
  count := by
    rw [functionCount_concat]
    exact h.count
  source := by
    rw [lastSource?_concat]
    exact .some (Registry.indexOf?_findOrAdd s.registry name)
  block block emitted hlines := by
    rw [lastBlock?_concat]
    exact h.block block emitted hlines
  lines i func hfunc :=
    (h.lines i func hfunc).mono (Registry.extends_findOrAdd s.registry name) fun b =>
      attributed_concat_of_silent pad.told (.source name) nofun rfl i b

/-- The current source is the one that was named last. -/
theorem exists_name (h : s.Reflects pad) {source : Nat} (hsource : s.source = some source) :
    ∃ name, lastSource? pad.told = some name ∧ s.registry.indexOf? name = some source := by
  rcases optionRel_cases h.source with ⟨name, index, hname, hindex, hrel⟩ | ⟨-, hnone⟩
  · obtain rfl : source = index := Option.some.inj (hsource.symm.trans hindex)
    exact ⟨name, hname, hrel⟩
  · rw [hsource] at hnone
    cases hnone

/-- Attributes a line to a block of the open function. -/
theorem emitLine (h : s.Reflects pad) (hcurrent : s.current = some func) {block source line : Nat}
    {emitted : Option Nat} (hmode : s.mode = .inLines block emitted)
    (hsource : s.source = some source) (hline : line ≠ 0) :
    (Notes.emitLine s func block source line emitted).Reflects
      { pad with place := .inLines, told := pad.told ++ [.line line] } := by
  obtain ⟨hblock, hgo⟩ := h.block block emitted hmode
  obtain ⟨name, hname, hindex⟩ := h.exists_name hsource
  have hcount := h.count_current hcurrent
  have hextends : s.registry.Extends (s.registry.mapFile source (·.extendTo line)) :=
    Registry.extends_mapFile _ source (fun _ => rfl) fun file =>
      Registry.lineCount_extendTo file line
  -- the line goes to this block of the open function, and to no other
  have hattributed : ∀ i b, attributed (pad.told ++ [.line line]) i b
      = attributed pad.told i b ++ if i = s.finished.length ∧ b = block then [(some name, line)]
        else [] := by
    intro i b
    rw [attributed_concat_line, hcount, hblock, hname]
    simp [eq_comm]
  have hbears := (h.bears_current hcurrent).mono hextends fun _ => rfl
  have hfinds : (s.registry.mapFile source (·.extendTo line)).Finds (source, line)
      (some name, line) := ⟨hextends.indexOf?_eq_some hindex, rfl⟩
  obtain ⟨hadded, hgoes⟩ := hbears.addLine (hgo func · hcurrent) hline hfinds
    fun b => (hattributed s.finished.length b).trans (by simp)
  exact {
    version := h.version
    place := rfl
    count := by
      show (s.finished ++ [_]).length = _
      rw [functionCount_concat, hcount, List.length_append]
      rfl
    source := by
      rw [lastSource?_concat]
      exact optionRel_imp h.source fun _ _ => hextends.indexOf?_eq_some
    block := by
      rintro _ _ ⟨⟩
      refine ⟨(lastBlock?_concat _ _).trans hblock, ?_⟩
      rintro _ after ⟨⟩ hafter
      exact hgoes after hafter
    lines := h.lines_update hcurrent hextends
      (fun i b hi => by rw [hattributed, if_neg fun hand => hi hand.1, List.append_nil]) hadded }

end State.Reflects

/-! ## Steps -/

/-- What a step of the decoder leaves against what a step of the reader leaves: they go on from the
same place, or both are at the end of the file, or the decoder ends with an error. -/
inductive Matches : Verdict (Scan State) Result → Verdict (Scan Notepad) (List Mention) → Prop
  | goOn {cursor : Cursor} {s : State} {pad : Notepad} :
      s.Reflects pad → Matches (.next { cursor, state := s }) (.next { cursor, state := pad })
  | close {s : State} {pad : Notepad} : s.Reflects pad → Matches (.stop s.close) (.stop pad.told)
  | refuse {w : Result} {error : CoverageError} {verdict : Verdict (Scan Notepad) (List Mention)} :
      w.result = .error error → Matches (.stop w) verdict

/-- Steps that match wherever they are made. -/
def Step.Matches (step : Step) (other : Scanner Notepad (List Mention)) : Prop :=
  ∀ cursor, Notes.Matches (step cursor) (other cursor)

variable {s : State} {pad : Notepad}

theorem State.Reflects.goOn (h : s.Reflects pad) : Step.Matches s.goOn (Scanner.goOn pad) :=
  fun _ => .goOn h

theorem matches_refuse (s : State) (error : CoverageError)
    (other : Scanner Notepad (List Mention)) : Step.Matches (s.refuse error) other :=
  fun _ => .refuse rfl

theorem State.Reflects.read (h : s.Reflects pad) {α : Type} {action : Read α} {P : α → Prop}
    (haction : action.Yields P) {use : α → Step} {use' : α → Scanner Notepad (List Mention)}
    (huse : ∀ a, P a → Step.Matches (use a) (use' a)) :
    Step.Matches (s.read action use) (Scanner.read action pad.told use') := by
  intro cursor
  unfold State.read Scanner.read
  split
  · next a cursor' ha => exact huse a (haction cursor a cursor' ha) cursor'
  · exact .close h

theorem matches_within (s : State) (record : GraphRecord) {use : Func → Step}
    {other : Scanner Notepad (List Mention)}
    (huse : ∀ func, s.current = some func → Step.Matches (use func) other) :
    Step.Matches (s.within record use) other := by
  unfold State.within
  split
  · next func hcurrent => exact huse func hcurrent
  · exact matches_refuse s _ other

theorem matches_withBlock (s : State) (func : Func) (index : Nat) {use : Step}
    {other : Scanner Notepad (List Mention)} (huse : Step.Matches use other) :
    Step.Matches (s.withBlock func index use) other := by
  unfold State.withBlock
  split
  · exact huse
  · exact matches_refuse s _ other

/-! ### The parts of a step -/

/-- The head of a record about the open function. -/
theorem State.Reflects.readGraphRecord (h : s.Reflects pad) (hmode : s.mode = .between)
    (record : GraphRecord) (length : Nat) :
    Step.Matches (Notes.readGraphRecord s record length)
      (Scanner.read (readGraphItem s.version length record) pad.told fun item =>
        Scanner.goOn (pad.note item)) := by
  refine matches_within s record fun func hcurrent => ?_
  cases record with
  | blocks =>
    rw [readGraphItem, Scanner.read_bind]
    refine h.read (Read.yields_true _) fun count _ => ?_
    exact (h.setBlocks hmode hcurrent count).goOn
  | arcs =>
    rw [readGraphItem, Scanner.read_bind]
    refine h.read (Read.yields_true _) fun src _ => ?_
    have hmoved := h.move (.beforeArcs src ((length - 1) / 2)) (Mode.beforeArcs_ne_inLines src _)
    rw [Mode.place_beforeArcs] at hmoved
    exact matches_withBlock s func src hmoved.goOn
  | lines =>
    rw [readGraphItem, Scanner.read_bind]
    refine h.read (Read.yields_true _) fun block _ => ?_
    exact matches_withBlock s func block (h.enterBlock block).goOn

/-- A tag with the head of its record. -/
theorem State.Reflects.readTag (h : s.Reflects pad) (hmode : s.mode = .between) :
    Step.Matches (Notes.readTag s) (takeDown pad) := by
  have hplace : pad.place = .between := h.place.trans (congrArg Mode.place hmode)
  rw [takeDown, hplace, h.version, readItem, Scanner.read_bind]
  refine h.read (Read.yields_true _) fun word _ => ?_
  cases Tag.ofWord? word with
  | none =>
    have hstays : s.Reflects { pad with place := .between } := by
      rw [← hplace]
      exact h
    exact hstays.goOn
  | some tag =>
    dsimp only
    rw [Scanner.read_bind]
    refine h.read (Read.yields_true _) fun length _ => ?_
    cases tag with
    | function =>
      dsimp only
      rw [Scanner.read_bind]
      refine h.read (readHeader_yields s.version) fun header hgraph => ?_
      exact (h.openFunction hmode hgraph).goOn
    | graph record => exact h.readGraphRecord hmode record length

/-- An arc. -/
theorem State.Reflects.readArc (h : s.Reflects pad) {src further : Nat}
    (hmode : s.mode = .inArcs src further) {func : Func} (hcurrent : s.current = some func) :
    Step.Matches (Notes.readArc s func src further) (takeDown pad) := by
  have hplace : pad.place = .inArcs further := h.place.trans (congrArg Mode.place hmode)
  rw [takeDown, hplace, readItem, Scanner.read_bind]
  refine h.read (Read.yields_true _) fun (dst, flags) _ => ?_
  exact matches_withBlock s func dst (h.linkArc hcurrent src dst flags further).goOn

/-- A token of a record of lines. -/
theorem State.Reflects.readLine (h : s.Reflects pad) {block : Nat} {emitted : Option Nat}
    (hmode : s.mode = .inLines block emitted) {func : Func} (hcurrent : s.current = some func) :
    Step.Matches (Notes.readLine s func block emitted) (takeDown pad) := by
  have hplace : pad.place = .inLines := h.place.trans (congrArg Mode.place hmode)
  rw [takeDown, hplace, readItem, Scanner.read_bind]
  refine h.read (Read.yields_true _) fun line _ => ?_
  by_cases hline : line = 0
  · rw [if_pos hline, if_pos hline, Scanner.read_bind]
    refine h.read (Read.yields_true _) fun name _ => ?_
    by_cases hempty : name.isEmpty
    · rw [if_pos hempty, if_pos hempty]
      exact (h.move .between nofun).goOn
    · rw [if_neg hempty, if_neg hempty]
      have hnamed := h.nameSource name
      rw [hmode] at hnamed
      exact hnamed.goOn
  · rw [if_neg hline, if_neg hline]
    split
    · exact matches_refuse s _ _
    · next source hsource => exact (h.emitLine hcurrent hmode hsource hline).goOn

/-- A step of the decoder is a step of the reader, whatever the bytes are. -/
theorem State.Reflects.step (h : s.Reflects pad) : Step.Matches (Notes.step s) (takeDown pad) := by
  unfold Notes.step
  split
  · next hmode => exact h.readTag hmode
  · next src further hmode =>
    exact matches_within s .arcs fun func hcurrent => h.readArc hmode hcurrent
  · next block emitted hmode =>
    exact matches_within s .lines fun func hcurrent => h.readLine hmode hcurrent

/-! ## Files -/

/-- A decoder that ends without an error ends in a state that reflects what the reader took down to
the end of the file. -/
theorem run_matches (scan : Scan State) (pad : Notepad) (h : scan.state.Reflects pad) :
    (∃ error, (machine.run scan).result = .error error)
      ∨ ∃ (s : State) (last : Notepad), s.Reflects last ∧ machine.run scan = s.close
        ∧ reader.run { cursor := scan.cursor, state := pad } = last.told := by
  refine machine.run_induction (motive := fun scan w => ∀ pad, scan.state.Reflects pad →
    (∃ error, w.result = .error error)
      ∨ ∃ (s : State) (last : Notepad), s.Reflects last ∧ w = s.close
        ∧ reader.run { cursor := scan.cursor, state := pad } = last.told) ?_ ?_ scan pad h
  · intro scan w hstop pad h
    have hmatches := h.step scan.cursor
    rw [show Notes.step scan.state scan.cursor = .stop w from hstop] at hmatches
    generalize hreader : takeDown pad scan.cursor = verdict at hmatches
    cases hmatches with
    | close hlast => exact .inr ⟨_, _, hlast, rfl, reader.run_of_stop hreader⟩
    | refuse herror => exact .inl ⟨_, herror⟩
  · intro scan t hnext ih pad h
    have hmatches := h.step scan.cursor
    rw [show Notes.step scan.state scan.cursor = .next t from hnext] at hmatches
    generalize hreader : takeDown pad scan.cursor = verdict at hmatches
    cases hmatches with
    | goOn ht =>
      rw [reader.run_of_next (s := { cursor := scan.cursor, state := pad }) hreader]
      exact ih _ ht

/-- A file that ends in its header has no functions. -/
theorem functions_of_no_records {registry : Registry} {bytes : Bytes} {functions : List Func}
    (h : records? .notes bytes = none) (hdecoded : (decode registry bytes).result = .ok functions) :
    functions = [] := by
  cases hopen : openFile .notes bytes with
  | error error =>
    rw [decode, hopen] at hdecoded
    cases hdecoded
  | ok cursor =>
    cases hversion : readVersion.run cursor with
    | error e c =>
      simp only [decode, hopen, hversion] at hdecoded
      exact (Except.ok.inj hdecoded).symm
    | ok version c =>
      rw [records?_eq_some hopen hversion] at h
      cases h

/-- The lines of blocks lose nothing.  Whatever bytes are decoded, there is a function for every
function that the records mention, and each of its blocks lists the lines that they attribute to it,
in the order of the file.  Each line stands with the position of the source that was named last
before it, whatever record and function named it. -/
theorem decode_lines (registry : Registry) (bytes : Bytes) (functions : List Func)
    (hdecoded : (decode registry bytes).result = .ok functions) :
    functions.length = functionCount (mentions bytes)
      ∧ ∀ (i : Nat) (func : Func), functions[i]? = some func →
        ∀ (b : Nat) (block : Block), func.graph.blocks[b]? = some block →
          block.associations.map (fun place => (some place.1, place.2))
            = (attributed (mentions bytes) i b).map fun entry =>
                (entry.1.bind (decode registry bytes).state.indexOf?, entry.2) := by
  cases hrecords : records? .notes bytes with
  | none =>
    obtain rfl := functions_of_no_records hrecords hdecoded
    rw [mentions, hrecords]
    exact ⟨rfl, by simp⟩
  | some header =>
    obtain ⟨version, cursor⟩ := header
    obtain ⟨log, hdecode⟩ := decode_of_records (r := registry) hrecords
    rw [hdecode] at hdecoded ⊢
    have hstart := State.Reflects.of_start version registry
    rcases run_matches ⟨cursor, { version, registry }⟩ { version } hstart with
      ⟨error, herror⟩ | ⟨s, last, hlast, hclose, htold⟩
    · exact absurd (herror.symm.trans hdecoded) nofun
    · have hmentions : mentions bytes = last.told := by
        rw [mentions, hrecords]
        exact htold
      have hend : decodeRecords registry version cursor = s.close := hclose
      rw [hend] at hdecoded ⊢
      obtain rfl := Except.ok.inj hdecoded
      rw [hmentions]
      refine ⟨hlast.count, fun i func hfunc b block hblock => ?_⟩
      exact (hlast.lines i func hfunc b block hblock).associations_eq

/-- Notes of two functions.  The first block of the first has two records of lines: the one names a
source of which no line follows, then the source at position zero, and this once more; the other
goes on in that source without naming it, and then names another one.  The second function goes on
in that one, and the file ends where a name is due. -/
def switchingNotes : Bytes :=
  Writer.words .little
    [0x67636E6F, 0x34303200, 0, 0x01000000, 9, 1, 2, 1, 0x6E69616D, 1, 0x632E6D, 3,
      0x01410000, 2, 0, 0,
      0x01450000, 9, 0, 0, 1, 0x682E68, 0, 1, 0x632E6D, 7, 0, 1, 0x632E6D, 8, 0, 0,
      0x01450000, 9, 0, 9, 0, 1, 0x682E68, 4, 0, 0,
      0x01000000, 9, 2, 2, 1, 0x7478656E, 1, 0x632E6D, 12, 0x01410000, 1, 0,
      0x01450000, 9, 0, 5, 0]

/-- The functions that are decoded from them. -/
def switchingFuncs : List Func :=
  [{ ident := 1, checksum := 2, name := "main", source := "m.c", firstLine := 3
     graph := { blocks := #[{ lines := [0, 0, 7, 8, 0, 0, 9, 0, 1, 4] }, {}] } },
    { serial := 1, ident := 2, checksum := 2, name := "next", source := "m.c", firstLine := 12
      graph := { blocks := #[{ lines := [0, 1, 5] }] } }]

theorem switchingNotes_lines :
    (decode {} switchingNotes).result = .ok switchingFuncs
      ∧ (decode {} switchingNotes).state.names = ["m.c", "h.h"]
      ∧ attributed (mentions switchingNotes) 0 0
        = [(some "m.c", 7), (some "m.c", 8), (some "m.c", 9), (some "h.h", 4)]
      ∧ attributed (mentions switchingNotes) 1 0 = [(some "h.h", 5)]
      ∧ switchingFuncs.length = functionCount (mentions switchingNotes)
      ∧ ∀ (func : Func) (block : Block), switchingFuncs[0]? = some func →
          func.graph.blocks[0]? = some block →
          block.associations.map (fun place => (some place.1, place.2))
            = [(some 0, 7), (some 0, 8), (some 0, 9), (some 1, 4)] := by
  have hdecoded : (decode {} switchingNotes).result = .ok switchingFuncs := by decide +kernel
  obtain ⟨hcount, hlines⟩ := decode_lines {} switchingNotes switchingFuncs hdecoded
  have hmain : attributed (mentions switchingNotes) 0 0
      = [(some "m.c", 7), (some "m.c", 8), (some "m.c", 9), (some "h.h", 4)] := by
    decide +kernel
  have hpositions : (decode {} switchingNotes).state.indexOf? "m.c" = some 0
      ∧ (decode {} switchingNotes).state.indexOf? "h.h" = some 1 := by
    decide +kernel
  refine ⟨hdecoded, by decide +kernel, hmain, by decide +kernel, hcount,
    fun func block hfunc hblock => ?_⟩
  rw [hlines 0 func hfunc 0 block hblock, hmain]
  simp [hpositions]

end Notes

end Coverage
