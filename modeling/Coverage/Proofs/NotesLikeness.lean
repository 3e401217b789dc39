import Coverage.Notes
import Coverage.Proofs.Likeness
import Coverage.Proofs.NotesReading
import Coverage.Proofs.SideBySide

/-!
# Notes files on different registries

The same notes file is decoded onto two registries, which may hold other files already.  Whatever
the bytes are, the two decoders go through the file side by side: they accept and refuse the same
records, name the same sources in the same order, and leave functions that are alike
(`decode_alike`).

`State.Alike` relates the two decoders between any two steps.  It also says what a decoder relies
on without asking again: the block that a record of arcs or lines belongs to is one of the open
function, and the source named last is a registered file.
-/

namespace Coverage

/-! ## Registries that grow alike -/

/-- Two registries that grew by the same names. -/
structure Registry.GrowAlike (r r' q q' : Registry) : Prop where
  extends_left : r.Extends q
  extends_right : r'.Extends q'
  names : ∃ mentioned : List String,
    q.names = mentioned.foldl enlist r.names ∧ q'.names = mentioned.foldl enlist r'.names

namespace Registry.GrowAlike

variable {r r' q q' p p' : Registry}

theorem refl (r r' : Registry) : r.GrowAlike r' r r' where
  extends_left := .refl r
  extends_right := .refl r'
  names := ⟨[], rfl, rfl⟩

theorem trans (h : r.GrowAlike r' q q') (h' : q.GrowAlike q' p p') : r.GrowAlike r' p p' where
  extends_left := h.extends_left.trans h'.extends_left
  extends_right := h.extends_right.trans h'.extends_right
  names := by
    obtain ⟨first, hfirst, hfirst'⟩ := h.names
    obtain ⟨second, hsecond, hsecond'⟩ := h'.names
    refine ⟨first ++ second, ?_, ?_⟩
    · rw [hsecond, hfirst, List.foldl_append]
    · rw [hsecond', hfirst', List.foldl_append]

theorem findOrAdd (r r' : Registry) (name : String) :
    r.GrowAlike r' (r.findOrAdd name).2 (r'.findOrAdd name).2 where
  extends_left := extends_findOrAdd r name
  extends_right := extends_findOrAdd r' name
  names := ⟨[name], names_findOrAdd r name, names_findOrAdd r' name⟩

theorem addFunc (r r' : Registry) (func : Func) :
    r.GrowAlike r' (r.addFunc func).2 (r'.addFunc func).2 where
  extends_left := extends_addFunc r func
  extends_right := extends_addFunc r' func
  names := ⟨[func.source], names_addFunc r func, names_addFunc r' func⟩

theorem extendTo (r r' : Registry) (i j : Nat) (line : Int) :
    r.GrowAlike r' (r.mapFile i (·.extendTo line)) (r'.mapFile j (·.extendTo line)) where
  extends_left := extends_mapFile r i (fun _ => rfl) fun file => lineCount_extendTo file line
  extends_right := extends_mapFile r' j (fun _ => rfl) fun file => lineCount_extendTo file line
  names := ⟨[], names_mapFile r i fun _ => rfl, names_mapFile r' j fun _ => rfl⟩

/-- What a registry has more than at first are the names that an empty one got by the same way. -/
theorem names_eq (h : r.GrowAlike {} q q') : q.names = q'.names.foldl enlist r.names := by
  obtain ⟨mentioned, hnames, hnames'⟩ := h.names
  rw [hnames, hnames', ← foldl_enlist_foldl]
  rfl

end Registry.GrowAlike

/-- Positions of files with the same name. -/
def Registry.SameName (r r' : Registry) (i j : Nat) : Prop :=
  ∃ file file', r.files[i]? = some file ∧ r'.files[j]? = some file' ∧ file'.name = file.name

theorem Registry.SameName.mono {r r' q q' : Registry} {i j : Nat} (h : r.SameName r' i j)
    (hr : r.Extends q) (hr' : r'.Extends q') : q.SameName q' i j := by
  obtain ⟨file, file', hfile, hfile', hname⟩ := h
  obtain ⟨grown, hgrown, hgrownName, -⟩ := hr i file hfile
  obtain ⟨grown', hgrown', hgrownName', -⟩ := hr' j file' hfile'
  exact ⟨grown, grown', hgrown, hgrown', by rw [hgrownName', hname, hgrownName]⟩

/-- What decodings onto the registries `r` and `r'` leave when they end alike. -/
structure DecodesAlike (r r' : Registry) (o o' : Outcome Registry (List Func)) : Prop where
  grow : r.GrowAlike r' o.state o'.state
  result : EndsAlike (List.Forall₂ (Func.Alike o.state o'.state)) o.result o'.result

theorem openFile_error {kind : FileKind} {bytes : Bytes} {error : CoverageError}
    (h : openFile kind bytes = .error error) : error.kind = .unsupportedFormat := by
  unfold openFile at h
  split at h
  · cases h
    rfl
  · split at h
    · cases h
    · split at h
      · cases h
      · cases h
        rfl

/-! ## States -/

namespace Notes

/-- Where decoders with these open functions stand alike. -/
inductive Mode.Alike : Option Func → Option Func → Mode → Mode → Prop
  | between {current current' : Option Func} : Alike current current' .between .between
  | inArcs {func func' : Func} {src further : Nat} : src < func.graph.size →
      Alike (some func) (some func') (.inArcs src further) (.inArcs src further)
  | inLines {func func' : Func} {block : Nat} {emitted emitted' : Option Nat} :
      block < func.graph.size →
      (∀ b, func.graph.blocks[block]? = some b → b.GoesOn emitted) →
      (∀ b, func'.graph.blocks[block]? = some b → b.GoesOn emitted') →
      Alike (some func) (some func') (.inLines block emitted) (.inLines block emitted')

theorem Mode.Alike.beforeArcs {func func' : Func} {src : Nat} (hsrc : src < func.graph.size)
    (further : Nat) :
    Mode.Alike (some func) (some func') (.beforeArcs src further) (.beforeArcs src further) := by
  cases further with
  | zero => exact .between
  | succ further => exact .inArcs hsrc

/-- `s.Alike r r' t`: decoders that began on the registries `r` and `r'` and are in the same place
of the same file. -/
structure State.Alike (r r' : Registry) (s t : State) : Prop where
  version : t.version = s.version
  grow : r.GrowAlike r' s.registry t.registry
  finished : List.Forall₂ (Func.Alike s.registry t.registry) s.finished t.finished
  current : Option.Rel (Func.Alike s.registry t.registry) s.current t.current
  source : Option.Rel (s.registry.SameName t.registry) s.source t.source
  mode : Mode.Alike s.current t.current s.mode t.mode

/-- Steps that agree. -/
abbrev Step.Agrees (r r' : Registry) (step step' : Step) : Prop :=
  Scanner.Agrees (State.Alike r r') (DecodesAlike r r') step step'

variable {r r' : Registry} {s t : State}

theorem State.Alike.functions (h : s.Alike r r' t) :
    List.Forall₂ (Func.Alike s.registry t.registry) s.functions t.functions := by
  refine List.rel_append h.finished ?_
  rcases optionRel_cases h.current with ⟨func, func', hfunc, hfunc', hlike⟩ | ⟨hfunc, hfunc'⟩
  · rw [hfunc, hfunc']
    exact .cons hlike .nil
  · rw [hfunc, hfunc']
    exact .nil

/-! ## Steps -/

theorem State.Alike.goOn (h : s.Alike r r' t) : Step.Agrees r r' s.goOn t.goOn :=
  Scanner.agrees_goOn h

theorem State.Alike.refuse (h : s.Alike r r' t) {error : CoverageError}
    (herror : error.kind ≠ .index) : Step.Agrees r r' (s.refuse error) (t.refuse error) :=
  Scanner.agrees_finish ⟨h.grow, .error herror⟩

theorem State.Alike.read (h : s.Alike r r' t) {α : Type} {action : Read α} {use use' : α → Step}
    (huse : ∀ a, Step.Agrees r r' (use a) (use' a)) :
    Step.Agrees r r' (s.read action use) (t.read action use') :=
  Scanner.agrees_read (Read.yields_true action) ⟨h.grow, .ok h.functions⟩ fun a _ => huse a

theorem State.Alike.within (h : s.Alike r r' t) (record : GraphRecord) {use use' : Func → Step}
    (huse : ∀ func func', s.current = some func → t.current = some func' →
      func.Alike s.registry t.registry func' → Step.Agrees r r' (use func) (use' func')) :
    Step.Agrees r r' (s.within record use) (t.within record use') := by
  unfold State.within
  rcases optionRel_cases h.current with ⟨func, func', hfunc, hfunc', hlike⟩ | ⟨hfunc, hfunc'⟩
  · rw [hfunc, hfunc']
    exact huse func func' hfunc hfunc' hlike
  · rw [hfunc, hfunc']
    exact h.refuse (by simp [CoverageError.kind])

theorem State.Alike.withBlock (h : s.Alike r r' t) {func func' : Func}
    (hlike : func.Alike s.registry t.registry func') (index : Nat) {use use' : Step}
    (huse : index < func.graph.size → Step.Agrees r r' use use') :
    Step.Agrees r r' (s.withBlock func index use) (t.withBlock func' index use') := by
  rw [State.withBlock, State.withBlock, hlike.graph.size, hlike.name]
  split
  · next hlt => exact huse hlt
  · exact h.refuse (by simp [CoverageError.kind])

/-! ## What a step changes -/

/-- Opens a function on both sides. -/
theorem State.Alike.openFunction (h : s.Alike r r' t) (hmode : s.mode = .between)
    (hmode' : t.mode = .between) (header : Func) (hgraph : header.graph = {}) :
    (Notes.openFunction s header).Alike r r' (Notes.openFunction t header) := by
  have hgrow := Registry.GrowAlike.addFunc s.registry t.registry header
  exact {
    version := h.version
    grow := h.grow.trans hgrow
    finished := h.functions.imp fun _ _ hlike => hlike.mono hgrow.extends_left hgrow.extends_right
    current := by
      refine .some (.of_graph { header with serial := s.registry.issued } ?_)
      show header.graph.Alike _ _ header.graph
      rw [hgraph]
      exact FlowGraph.Alike.ofSize 0
    source := optionRel_imp h.source fun _ _ hname =>
      hname.mono hgrow.extends_left hgrow.extends_right
    mode := by
      show Mode.Alike _ _ s.mode t.mode
      rw [hmode, hmode']
      exact .between }

/-- Changes the open function on both sides, and the place where the decoders stand. -/
theorem State.Alike.update (h : s.Alike r r' t) {func func' : Func} {mode mode' : Mode}
    (hfunc : func.Alike s.registry t.registry func')
    (hmode : Mode.Alike (some func) (some func') mode mode') :
    ({ s with current := some func, mode } : State).Alike r r'
      { t with current := some func', mode := mode' } where
  version := h.version
  grow := h.grow
  finished := h.finished
  current := .some hfunc
  source := h.source
  mode := hmode

/-- Changes the place where the decoders stand. -/
theorem State.Alike.move (h : s.Alike r r' t) {mode mode' : Mode}
    (hmode : Mode.Alike s.current t.current mode mode') :
    ({ s with mode } : State).Alike r r' { t with mode := mode' } where
  version := h.version
  grow := h.grow
  finished := h.finished
  current := h.current
  source := h.source
  mode := hmode

/-- Registers more on both sides. -/
theorem State.Alike.register (h : s.Alike r r' t) {q q' : Registry}
    (hgrow : s.registry.GrowAlike t.registry q q') :
    ({ s with registry := q } : State).Alike r r' { t with registry := q' } where
  version := h.version
  grow := h.grow.trans hgrow
  finished := h.finished.imp fun _ _ hlike => hlike.mono hgrow.extends_left hgrow.extends_right
  current := optionRel_imp h.current fun _ _ hlike =>
    hlike.mono hgrow.extends_left hgrow.extends_right
  source := optionRel_imp h.source fun _ _ hname =>
    hname.mono hgrow.extends_left hgrow.extends_right
  mode := h.mode

/-! ## Records -/

/-- The head of a function brings no graph. -/
theorem readHeader_yields (version : Nat) :
    (readHeader version).Yields fun header => header.graph = {} :=
  Read.yields_bind fun _ => Read.yields_bind fun _ => Read.yields_bind fun _ =>
    Read.yields_bind fun _ => Read.yields_bind fun _ => Read.yields_bind fun _ =>
    Read.yields_bind fun _ => Read.yields_bind fun _ => Read.yields_pure rfl

/-- One arc, in a record of arcs that leave a block of the open function. -/
theorem State.Alike.readArc (h : s.Alike r r' t) {func func' : Func} {src : Nat}
    (hlike : func.Alike s.registry t.registry func') (hsrc : src < func.graph.size)
    (further : Nat) :
    Step.Agrees r r' (Notes.readArc s func src further) (Notes.readArc t func' src further) := by
  refine h.read fun (dst, flags) => h.withBlock hlike dst fun hdst => ?_
  have hlinked : (linkArc func src dst flags).Alike s.registry t.registry
      (linkArc func' src dst flags) := by
    have hadd := hlike.graph.addArc { src, dst, flags } hsrc hdst
    unfold linkArc
    refine hlike.mapGraph ?_
    dsimp only
    split
    · exact hadd.mapBlock src ⟨fun _ _ => rfl, fun _ => rfl, fun _ s => by cases s <;> rfl⟩
    · exact hadd
  refine (h.update hlinked (Mode.Alike.beforeArcs ?_ further)).goOn
  rwa [linkArc_size]

/-- Makes a file the current source on both sides. -/
theorem State.Alike.nameSource (h : s.Alike r r' t) (name : String) :
    (Notes.nameSource s name).Alike r r' (Notes.nameSource t name) := by
  have hgrow := Registry.GrowAlike.findOrAdd s.registry t.registry name
  have hregister := h.register hgrow
  obtain ⟨file, hfile, hname⟩ := Registry.files_findOrAdd s.registry name
  obtain ⟨file', hfile', hname'⟩ := Registry.files_findOrAdd t.registry name
  exact {
    version := hregister.version
    grow := hregister.grow
    finished := hregister.finished
    current := hregister.current
    source := .some ⟨file, file', hfile, hfile', hname'.trans hname.symm⟩
    mode := hregister.mode }

/-- Behind a line the list of its block goes on in the source of the line. -/
theorem goesOn_addLine {q : Registry} {func : Func} {block source line : Nat} {name : String}
    {emitted : Option Nat}
    (hlists : ∀ b, func.graph.blocks[block]? = some b → ∃ e named, b.Lists q e named)
    (hgo : ∀ b, func.graph.blocks[block]? = some b → b.GoesOn emitted) (hline : line ≠ 0)
    (hlocates : q.Locates (source, line) (name, line)) (b : Block)
    (hb : (addLine func block source line emitted).graph.blocks[block]? = some b) :
    b.GoesOn (some source) := by
  rw [addLine, Func.mapGraph, FlowGraph.getElem?_mapBlock, if_pos rfl] at hb
  obtain ⟨b, hget, rfl⟩ := Option.map_eq_some_iff.mp hb
  obtain ⟨e, named, hlist⟩ := hlists b hget
  exact .inr (hlist.addLine (hgo b hget) hline hlocates).continues

/-- Attributes a line of the current source on both sides. -/
theorem State.Alike.emitLine (h : s.Alike r r' t) {func func' : Func}
    (hlike : func.Alike s.registry t.registry func') {block source source' line : Nat}
    {emitted emitted' : Option Nat} (hblock : block < func.graph.size)
    (hgo : ∀ b, func.graph.blocks[block]? = some b → b.GoesOn emitted)
    (hgo' : ∀ b, func'.graph.blocks[block]? = some b → b.GoesOn emitted')
    (hsource : s.registry.SameName t.registry source source') (hline : line ≠ 0) :
    (Notes.emitLine s func block source line emitted).Alike r r'
      (Notes.emitLine t func' block source' line emitted') := by
  obtain ⟨file, file', hfile, hfile', hname⟩ := hsource
  have hgrow := Registry.GrowAlike.extendTo s.registry t.registry source source' line
  have hlocates := Registry.locates_mapFile_extendTo hfile line
  have hlocates' := Registry.locates_mapFile_extendTo hfile' line
  rw [hname] at hlocates'
  have hlike := hlike.mono hgrow.extends_left hgrow.extends_right
  have hadd : (addLine func block source line emitted).Alike
      (s.registry.mapFile source (·.extendTo line)) (t.registry.mapFile source' (·.extendTo line))
      (addLine func' block source' line emitted') :=
    hlike.mapGraph (f := (·.mapBlock block (·.addLine emitted source line)))
      (k := (·.mapBlock block (·.addLine emitted' source' line)))
      (hlike.graph.mapBlock_of block
        (fun b b' hb hget hget' =>
          hb.addLine (hgo b hget) (hgo' b' hget') hline hlocates hlocates')
        fun b side => Block.withLines_arcsOn b _ side)
  refine (h.register hgrow).update hadd (.inLines ?_ ?_ ?_)
  · rwa [addLine, Func.mapGraph, FlowGraph.mapBlock_size]
  · exact goesOn_addLine (fun b hb => hlike.lists_left hb) hgo hline hlocates
  · exact goesOn_addLine (fun b hb => hlike.lists_right hb) hgo' hline hlocates'

theorem State.Alike.readLine (h : s.Alike r r' t) {func func' : Func}
    (hlike : func.Alike s.registry t.registry func') {block : Nat} {emitted emitted' : Option Nat}
    (hblock : block < func.graph.size)
    (hgo : ∀ b, func.graph.blocks[block]? = some b → b.GoesOn emitted)
    (hgo' : ∀ b, func'.graph.blocks[block]? = some b → b.GoesOn emitted') :
    Step.Agrees r r' (Notes.readLine s func block emitted)
      (Notes.readLine t func' block emitted') := by
  refine h.read fun line => ?_
  split
  · refine h.read fun name => ?_
    split
    · exact (h.move .between).goOn
    · exact (h.nameSource name).goOn
  · next hline =>
    rcases optionRel_cases h.source with ⟨source, source', hsource, hsource', hname⟩ |
      ⟨hsource, hsource'⟩
    · rw [hsource, hsource']
      exact (h.emitLine hlike hblock hgo hgo' hname hline).goOn
    · rw [hsource, hsource', hlike.name]
      exact h.refuse (by simp [CoverageError.kind])

/-- The head of a record about the open function. -/
theorem State.Alike.readGraphRecord (h : s.Alike r r' t) (hmode : s.mode = .between)
    (hmode' : t.mode = .between) (record : GraphRecord) (length : Nat) :
    Step.Agrees r r' (Notes.readGraphRecord s record length)
      (Notes.readGraphRecord t record length) := by
  refine h.within record fun func func' hfunc hfunc' hlike => ?_
  cases record with
  | blocks =>
    rw [h.version]
    refine h.read fun count => State.Alike.goOn ?_
    have hset := hlike.mapGraph (f := fun _ => .ofSize count) (k := fun _ => .ofSize count)
      (.ofSize count)
    refine h.update hset ?_
    rw [hmode, hmode']
    exact .between
  | arcs =>
    refine h.read fun src => h.withBlock hlike src fun hsrc => ?_
    refine (h.move ?_).goOn
    rw [hfunc, hfunc']
    exact .beforeArcs hsrc _
  | lines =>
    refine h.read fun block => h.withBlock hlike block fun hblock => ?_
    refine (h.move ?_).goOn
    rw [hfunc, hfunc']
    exact .inLines hblock (fun _ _ => .inl rfl) fun _ _ => .inl rfl

/-- A word that may be a tag, and the head of its record. -/
theorem State.Alike.readTag (h : s.Alike r r' t) (hmode : s.mode = .between)
    (hmode' : t.mode = .between) : Step.Agrees r r' (Notes.readTag s) (Notes.readTag t) := by
  refine h.read fun word => ?_
  split
  · exact h.goOn
  · refine h.read fun length => ?_
    split
    · rw [h.version]
      refine Scanner.agrees_read (readHeader_yields s.version) ⟨h.grow, .ok h.functions⟩ ?_
      exact fun header hgraph => (h.openFunction hmode hmode' header hgraph).goOn
    · exact h.readGraphRecord hmode hmode' _ length

/-- One step of decoders in the same place. -/
theorem State.Alike.step (h : s.Alike r r' t) :
    Step.Agrees r r' (Notes.step s) (Notes.step t) := by
  have hplace := h.mode
  unfold Notes.step
  generalize hmode : s.mode = mode at hplace ⊢
  generalize hmode' : t.mode = mode' at hplace ⊢
  generalize hopen : s.current = current at hplace
  generalize hopen' : t.current = current' at hplace
  cases hplace with
  | between => exact h.readTag hmode hmode'
  | inArcs hsrc =>
    refine h.within .arcs fun func func' hfunc _ hlike => ?_
    obtain rfl := Option.some.inj (hopen.symm.trans hfunc)
    exact h.readArc hlike hsrc _
  | inLines hblock hgo hgo' =>
    refine h.within .lines fun func func' hfunc hfunc' hlike => ?_
    obtain rfl := Option.some.inj (hopen.symm.trans hfunc)
    obtain rfl := Option.some.inj (hopen'.symm.trans hfunc')
    exact h.readLine hlike hblock hgo hgo'

/-- Decoders that go through the same records. -/
theorem decodeRecords_alike (r r' : Registry) (version : Nat) (cursor : Cursor) :
    DecodesAlike r r' (decodeRecords r version cursor) (decodeRecords r' version cursor) := by
  refine Scanner.run_agrees (R := State.Alike r r') (fun s t h => h.step) ?_
  exact {
    version := rfl
    grow := .refl r r'
    finished := .nil
    current := .none
    source := .none
    mode := .between }

/-- The same bytes are decoded alike onto any two registries. -/
theorem decode_alike (r r' : Registry) (bytes : Bytes) :
    DecodesAlike r r' (decode r bytes) (decode r' bytes) := by
  unfold decode
  split
  · next error herror =>
    refine ⟨.refl r r', .error ?_⟩
    rw [openFile_error herror]
    decide
  · next cursor _ =>
    dsimp only
    split
    · exact ⟨.refl r r', .ok .nil⟩
    · next version cursor' _ =>
      obtain ⟨hgrow, hresult⟩ := decodeRecords_alike r r' version cursor'
      exact ⟨hgrow, hresult⟩

end Notes

end Coverage
