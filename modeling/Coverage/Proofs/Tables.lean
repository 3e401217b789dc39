import Coverage.Proofs.Aggregation
import Coverage.Proofs.Enrolment
import Coverage.Proofs.Outlines
import Coverage.Proofs.UnitsApart

/-!
# Tables of lines

Collecting and counting change the tables of lines of a registry, and nothing else
(`Registry.bare`).  Counting does not even change the owners of a line (`Registry.owners`), and it
ends well just if every line that some block lists is in its table
(`Registry.accumulateCounts_ok`, `Registry.accumulateCounts_error`).
-/

namespace Coverage

/-- What every element leaves as it was, all of them do, however far they get. -/
theorem Outcome.forEach_keeps {σ γ β : Type} {step : σ → γ → Outcome σ Unit} (view : σ → β)
    (hstep : ∀ state item, view (step state item).state = view state) (state : σ)
    (items : List γ) : view (forEach step state items).state = view state := by
  induction items generalizing state with
  | nil => rfl
  | cons item rest ih =>
    have hfirst := hstep state item
    rw [forEach_cons]
    unfold bind
    split
    · exact (ih _).trans hfirst
    · exact hfirst

/-! ## Blocks that list a line -/

section Lists

variable {functions functions' more : List Func} {i n : Nat} {owner : BlockRef}

/-- Who lists a line can be read off the outlines. -/
theorem lists_iff_outlines : Lists functions i n owner ↔
    ∃ outline lines, (functions.map (·.outline))[owner.func]? = some outline
      ∧ outline.2[owner.block]? = some lines ∧ (i, n) ∈ associationsFrom none lines := by
  constructor
  · rintro ⟨func, block, hfunc, hblock, hplace⟩
    refine ⟨func.outline, block.lines, ?_, ?_, hplace⟩
    · rw [List.getElem?_map, hfunc, Option.map_some]
    · show func.graph.lineLists[owner.block]? = some block.lines
      rw [FlowGraph.lineLists_getElem?, hblock, Option.map_some]
  · rintro ⟨outline, lines, houtline, hlines, hplace⟩
    rw [List.getElem?_map] at houtline
    obtain ⟨func, hfunc, rfl⟩ := Option.map_eq_some_iff.mp houtline
    change func.graph.lineLists[owner.block]? = some lines at hlines
    rw [FlowGraph.lineLists_getElem?] at hlines
    obtain ⟨block, hblock, rfl⟩ := Option.map_eq_some_iff.mp hlines
    exact ⟨func, block, hfunc, hblock, hplace⟩

theorem lists_of_outlines (h : functions'.map (·.outline) = functions.map (·.outline)) :
    Lists functions' i n owner ↔ Lists functions i n owner := by
  rw [lists_iff_outlines, lists_iff_outlines, h]

theorem Lists.append (h : Lists functions i n owner) (more : List Func) :
    Lists (functions ++ more) i n owner := by
  obtain ⟨func, block, hfunc, hblock, hplace⟩ := h
  refine ⟨func, block, ?_, hblock, hplace⟩
  rw [List.getElem?_append_left (List.getElem?_eq_some_iff.mp hfunc).1]
  exact hfunc

/-- A block of some functions and others is one of the former, or one of the others. -/
theorem Lists.of_append (h : Lists (functions ++ more) i n owner) :
    Lists functions i n owner ∨ ∃ other, Lists more i n other := by
  obtain ⟨func, block, hfunc, hblock, hplace⟩ := h
  by_cases hlt : owner.func < functions.length
  · rw [List.getElem?_append_left hlt] at hfunc
    exact .inl ⟨func, block, hfunc, hblock, hplace⟩
  · rw [List.getElem?_append_right (Nat.not_lt.mp hlt)] at hfunc
    exact .inr ⟨⟨owner.func - functions.length, owner.block⟩, func, block, hfunc, hblock, hplace⟩

theorem Visit.lists {v : Visit} (hv : v ∈ Func.allVisits functions) :
    Lists functions v.file v.line v.owner := by
  obtain ⟨func, block, hfunc, hblock, -, hplace⟩ := Func.mem_allVisits.mp hv
  exact ⟨func, block, hfunc, hblock, hplace⟩

theorem Lists.exists_visit (h : Lists functions i n owner) :
    ∃ v ∈ Func.allVisits functions, v.file = i ∧ v.line = n := by
  obtain ⟨func, block, hfunc, hblock, hplace⟩ := h
  refine ⟨⟨owner, block.count, i, n⟩, ?_, rfl, rfl⟩
  exact Func.mem_allVisits.mpr ⟨func, block, hfunc, hblock, rfl, hplace⟩

end Lists

/-! ## Registries without their tables -/

/-- A file without its table of lines. -/
def SourceFile.bare (file : SourceFile) : SourceFile :=
  { file with lines := #[] }

namespace Registry

variable {r r' : Registry} {functions : List Func}

/-- A registry without its tables of lines. -/
def bare (r : Registry) : Registry :=
  { r with files := r.files.map (·.bare) }

theorem files_bare (r : Registry) (i : Nat) :
    r.bare.files[i]? = (r.files[i]?).map (·.bare) := by
  rw [bare, Array.getElem?_map]

theorem issued_of_bare (h : r'.bare = r.bare) : r'.issued = r.issued := by
  have hissued := congrArg Registry.issued h
  exact hissued

theorem entries_of_bare (h : r'.bare = r.bare) : r'.entries = r.entries := by
  have hmap : ∀ r : Registry, r.entries = r.bare.entries := by
    intro r
    simp [entries, bare, SourceFile.bare, Function.comp_def]
  rw [hmap, hmap r, h]

/-- Files that differ in their tables only admit the same lines. -/
theorem extends_of_bare (h : r'.bare = r.bare) : r.Extends r' := by
  intro i file hfile
  have hbare : r'.bare.files[i]? = some file.bare := by
    rw [h, files_bare, hfile, Option.map_some]
  rw [files_bare] at hbare
  obtain ⟨file', hfile', hsame⟩ := Option.map_eq_some_iff.mp hbare
  have hname := congrArg SourceFile.name hsame
  have hcount := congrArg SourceFile.lineCount hsame
  exact ⟨file', hfile', hname, Nat.le_of_eq hcount.symm⟩

theorem Admits.mono {i n : Nat} (h : r.Admits i n) (hr : r.Extends r') : r'.Admits i n := by
  obtain ⟨file, hfile, hlt⟩ := h
  obtain ⟨file', hfile', -, hcount⟩ := hr i file hfile
  exact ⟨file', hfile', Nat.lt_of_lt_of_le hlt hcount⟩

theorem bare_mapFile (r : Registry) (index : Nat) {f : SourceFile → SourceFile}
    (hf : ∀ file, (f file).bare = file.bare) : (r.mapFile index f).bare = r.bare := by
  have hfiles : (r.mapFile index f).bare.files = r.bare.files := map_modify_of_eq hf r.files index
  exact congrArg (fun files => { r with files := files }) hfiles

theorem bare_mapLine? {index line : Nat} {f : SourceLine → SourceLine}
    (h : r.mapLine? index line f = some r') : r'.bare = r.bare := by
  unfold mapLine? at h
  split at h
  · split at h
    · cases h
      exact r.bare_mapFile index fun _ => rfl
    · cases h
  · cases h

theorem bare_resetLines (r : Registry) : r.resetLines.bare = r.bare := by
  have hfiles : r.resetLines.bare.files = r.bare.files := by
    apply Array.ext_getElem?
    intro i
    simp [bare, resetLines, SourceFile.resetLines, SourceFile.bare, Function.comp_def]
  exact congrArg (fun files => { r with files := files }) hfiles

theorem bare_collectVisit (r : Registry) (v : Visit) : (collectVisit r v).state.bare = r.bare := by
  unfold collectVisit
  split
  · next r' hmap => exact bare_mapLine? hmap
  · rfl

/-- Collecting changes the tables only. -/
theorem bare_collectLines (r : Registry) (functions : List Func) :
    (r.collectLines functions).state.bare = r.bare :=
  (Outcome.forEach_keeps bare bare_collectVisit _ _).trans r.bare_resetLines

/-! ## What counting keeps -/

/-- The owners of all lines. -/
def owners (r : Registry) (i n : Nat) : Option (List BlockRef) :=
  (r.line? i n).map (·.owners)

theorem Rewritten.owners {f : Nat → Nat → SourceLine → SourceLine} (h : r.Rewritten f r')
    (hf : ∀ i n line, (f i n line).owners = line.owners) : r'.owners = r.owners := by
  funext i n
  rw [Registry.owners, Registry.owners, h.line?, Option.map_map]
  exact congrArg (fun g => (r.line? i n).map g) (funext fun line => hf i n line)

theorem mapLine?_eq_none {i n : Nat} (h : r.line? i n = none) (f : SourceLine → SourceLine) :
    r.mapLine? i n f = none := by
  unfold mapLine?
  split
  · next file hfile =>
    rw [line?, hfile] at h
    rw [if_neg]
    exact Nat.not_lt.mpr (Array.getElem?_eq_none_iff.mp h)
  · rfl

/-- Changes the counts of lines, and nothing else. -/
theorem keeps_mapLine? {v : Visit} {f : SourceLine → SourceLine}
    (h : r.mapLine? v.file v.line f = some r') (hf : ∀ line, (f line).owners = line.owners) :
    (r'.bare, r'.owners) = (r.bare, r.owners) := by
  cases hline : r.line? v.file v.line with
  | none =>
    rw [mapLine?_eq_none hline] at h
    cases h
  | some line =>
    obtain ⟨r₁, hmap, hrewritten⟩ := mapLine?_rewritten hline f
    cases h.symm.trans hmap
    refine Prod.ext (bare_mapLine? h) (hrewritten.owners fun i n line => ?_)
    unfold Visit.only
    split
    · exact hf line
    · rfl

theorem keeps_countOwned (r : Registry) (v : Visit) :
    ((countOwned r v).state.bare, (countOwned r v).state.owners) = (r.bare, r.owners) := by
  unfold countOwned
  dsimp only
  split
  · next r' hmap =>
    refine keeps_mapLine? hmap fun line => ?_
    split <;> rfl
  · rfl

theorem keeps_countShared (functions : List Func) (r : Registry) (v : Visit) :
    ((countShared functions r v).state.bare, (countShared functions r v).state.owners)
      = (r.bare, r.owners) := by
  unfold countShared
  split
  · rfl
  · split
    · rfl
    · split
      · rfl
      · split
        · next r' hmap => exact keeps_mapLine? hmap fun _ => rfl
        · rfl

/-- However counting ends, the files and the owners of their lines stay. -/
theorem keeps_accumulateCounts (r : Registry) (functions : List Func) :
    ((r.accumulateCounts functions).state.bare, (r.accumulateCounts functions).state.owners)
      = (r.bare, r.owners) := by
  have hfirst := Outcome.forEach_keeps (fun r : Registry => (r.bare, r.owners)) keeps_countOwned r
    (Func.allVisits functions)
  unfold accumulateCounts Outcome.bind
  split
  · have hsecond := Outcome.forEach_keeps (fun r : Registry => (r.bare, r.owners))
      (keeps_countShared functions)
    exact (hsecond _ _).trans hfirst
  · exact hfirst

/-! ## How counting ends -/

/-- Steps that change the line of a visit stop at one that is in no table. -/
theorem forEach_error (step : Registry → Visit → Outcome Registry Unit)
    (f : Visit → SourceLine → SourceLine)
    (hnone : ∀ (r : Registry) (v : Visit), r.line? v.file v.line = none →
      step r v = .fail r .outOfRange)
    (hsome : ∀ (r : Registry) (v : Visit) (line : SourceLine), r.line? v.file v.line = some line →
      ∃ r', step r v = .ok r' () ∧ r.Rewritten (v.only (f v)) r')
    {visits : List Visit} (h : ∃ v ∈ visits, r.line? v.file v.line = none) :
    (Outcome.forEach step r visits).result = .error .outOfRange := by
  induction visits generalizing r with
  | nil =>
    obtain ⟨v, hv, -⟩ := h
    cases hv
  | cons v visits ih =>
    rw [Outcome.forEach_cons]
    cases hline : r.line? v.file v.line with
    | none =>
      rw [hnone r v hline]
      rfl
    | some line =>
      obtain ⟨r', hstep, hrewritten⟩ := hsome r v line hline
      rw [hstep, Outcome.ok_bind]
      -- changing a line puts no other line into a table
      apply ih
      obtain ⟨w, hw, hmissing⟩ := h
      rcases List.mem_cons.mp hw with rfl | hw
      · rw [hline] at hmissing
        cases hmissing
      · refine ⟨w, hw, ?_⟩
        rw [hrewritten.line?, hmissing, Option.map_none]

/-- Counting stops at a line that is in no table. -/
theorem accumulateCounts_error {i n : Nat} {owner : BlockRef} (h : Lists functions i n owner)
    (hmissing : r.line? i n = none) :
    (r.accumulateCounts functions).result = .error .outOfRange := by
  obtain ⟨v, hv, rfl, rfl⟩ := h.exists_visit
  have hfirst := forEach_error countOwned (fun v line => line.addCount v)
    (fun r v hnone => by simp only [countOwned, mapLine?_eq_none hnone])
    (fun r v line hline => countOwned_rewritten hline) ⟨v, hv, hmissing⟩
  unfold accumulateCounts Outcome.bind
  rw [hfirst]

/-- `r.AdmitsAll functions`: files admit all lines that are listed. -/
def AdmitsAll (r : Registry) (functions : List Func) : Prop :=
  ∀ i n owner, Lists functions i n owner → r.Admits i n

instance (r : Registry) (i n : Nat) : Decidable (r.Admits i n) :=
  decidable_of_iff ((r.files[i]?).any (n < ·.lineCount) = true) <| by
    rw [Option.any_eq_true, Admits]
    simp only [decide_eq_true_iff]

theorem admitsAll_iff :
    r.AdmitsAll functions ↔ ∀ v ∈ Func.allVisits functions, r.Admits v.file v.line := by
  constructor
  · exact fun h v hv => h _ _ _ (Visit.lists hv)
  · intro h i n owner hlists
    obtain ⟨v, hv, rfl, rfl⟩ := hlists.exists_visit
    exact h v hv

instance (r : Registry) (functions : List Func) : Decidable (r.AdmitsAll functions) :=
  decidable_of_iff _ admitsAll_iff.symm

/-- Collecting stops at a line that its file does not admit. -/
theorem collectLines_error {i n : Nat} {owner : BlockRef} (h : Lists functions i n owner)
    (hrefused : ¬ r.Admits i n) : (r.collectLines functions).result = .error .outOfRange := by
  obtain ⟨v, hv, rfl, rfl⟩ := h.exists_visit
  refine forEach_error collectVisit (fun v line => line.addOwner v.owner) (fun r v hnone => ?_)
    (fun r v line hline => collectVisit_rewritten hline) ⟨v, hv, ?_⟩
  · simp only [collectVisit, mapLine?_eq_none hnone]
  · rw [resetLines_line?, if_neg hrefused]

/-- Lines can be collected only where files admit them. -/
theorem admitsAll_of_collectLines (h : r.collectLines functions = .ok r' ()) :
    r.AdmitsAll functions := by
  intro i n owner hlists
  by_contra hrefused
  have herror := collectLines_error hlists hrefused
  rw [h] at herror
  cases herror

/-- `r.OwnedBy functions`: lines are owned by blocks that list them. -/
def OwnedBy (r : Registry) (functions : List Func) : Prop :=
  ∀ i n listed, r.owners i n = some listed → ∀ owner ∈ listed, Lists functions i n owner

/-- Counting ends well where every line that is listed is in its table, and is owned by blocks
that list it. -/
theorem accumulateCounts_ok (howners : r.OwnedBy functions)
    (hlines : ∀ i n owner, Lists functions i n owner → ∃ line, r.line? i n = some line) :
    (r.accumulateCounts functions).result = .ok () := by
  have hvisits : ∀ v ∈ Func.allVisits functions, ∃ line, r.line? v.file v.line = some line
      ∧ (externalInflow functions line.owners).isSome := by
    intro v hv
    obtain ⟨line, hline⟩ := hlines _ _ _ (Visit.lists hv)
    refine ⟨line, hline, externalInflow_isSome ?_⟩
    intro owner howner
    have hlisted : r.owners v.file v.line = some line.owners := by
      rw [owners, hline, Option.map_some]
    obtain ⟨func, block, hfunc, hblock, -⟩ := howners _ _ line.owners hlisted owner howner
    exact ⟨func, block, hfunc, hblock⟩
  obtain ⟨r', hcount, -⟩ := accumulateCounts_rewritten hvisits
  rw [hcount]
  rfl

/-- Collecting ends well where files admit what is listed.  Then every such line is in its table,
and is owned by the blocks that list it. -/
theorem collectLines_ok (h : r.AdmitsAll functions) :
    ∃ r', r.collectLines functions = .ok r' () ∧ r'.OwnedBy functions
      ∧ ∀ i n owner, Lists functions i n owner → ∃ line, r'.line? i n = some line := by
  obtain ⟨r', hcollect, hrewritten⟩ := collectLines_rewritten (admitsAll_iff.mp h)
  refine ⟨r', hcollect, fun i n listed hlisted owner howner => ?_, fun i n owner hlists => ?_⟩
  · rw [owners, hrewritten.line?, resetLines_line?] at hlisted
    split at hlisted
    · cases hlisted
      dsimp only at howner
      rw [SourceLine.foldl_addOwner] at howner
      exact mem_ownersAt.mp howner
    · cases hlisted
  · rw [hrewritten.line?, resetLines_line?, if_pos (h i n owner hlists)]
    exact ⟨_, rfl⟩

/-! ## Registering -/

theorem line?_findOrAdd (r : Registry) (name : String) (i n : Nat) :
    (r.findOrAdd name).2.line? i n = r.line? i n := by
  unfold findOrAdd
  split
  · rfl
  · rw [line?, line?, Array.getElem?_push]
    split
    · next hi =>
      -- the new file has no table yet
      rw [Array.getElem?_eq_none_iff.mpr (Nat.le_of_eq hi.symm)]
      rfl
    · rfl

theorem line?_mapFile (r : Registry) (index : Nat) {f : SourceFile → SourceFile}
    (hf : ∀ file, (f file).lines = file.lines) (i n : Nat) :
    (r.mapFile index f).line? i n = r.line? i n := by
  rw [line?, line?, files_mapFile]
  split
  · cases r.files[i]? with
    | none => rfl
    | some file => exact congrArg (fun lines : Array SourceLine => lines[n]?) (hf file)
  · rfl

theorem line?_addFunc (r : Registry) (func : Func) (i n : Nat) :
    (r.addFunc func).2.line? i n = r.line? i n := by
  have hlines : ∀ file : SourceFile,
      ((file.extendTo func.firstLine).addFunction (r.addFunc func).1.ref).lines = file.lines := by
    intro file
    unfold SourceFile.addFunction
    split <;> rfl
  have hmap := line?_mapFile (r.findOrAdd func.source).2 (r.findOrAdd func.source).1 hlines i n
  rw [line?_findOrAdd] at hmap
  rw [← hmap, line?, line?, files_addFunc]

end Registry

/-! ## Decoding -/

namespace Notes

open Scanner

theorem Change.line? {s t : State} (h : Change s t) (i n : Nat) :
    t.registry.line? i n = s.registry.line? i n := by
  cases h with
  | move => rfl
  | openFunction header _ => exact Registry.line?_addFunc _ header i n
  | setBlocks => rfl
  | linkArc => rfl
  | nameSource name => exact Registry.line?_findOrAdd _ name i n
  | emitLine func block source line _ _ _ _ =>
    exact s.registry.line?_mapFile source (f := (·.extendTo line)) (fun _ => rfl) i n

/-- Decoding changes no table. -/
theorem decode_line? (r : Registry) (bytes : Bytes) (i n : Nat) :
    (decode r bytes).state.line? i n = r.line? i n := by
  have hfirst : ∀ s, (step s).Leaves (Change s) fun w =>
      w.state.line? i n = s.registry.line? i n := by
    intro s
    obtain ⟨hnext, hstop⟩ := step_leaves s
    refine ⟨hnext, fun c w hw => ?_⟩
    cases hstop c w hw with
    | close => rfl
    | refuse => rfl
  rcases decode_cases r bytes with ⟨hstate, -⟩ | ⟨version, cursor, hstate, -⟩
  · rw [hstate]
  · rw [hstate]
    refine run_of_leaves hfirst ?_ { cursor, state := { version, registry := r } }
    intro s t w hchange hw
    exact hw.trans (hchange.line? i n)

/-- The registry admits the lines that the functions list. -/
theorem decode_admitsAll {r : Registry} {bytes : Bytes} {functions : List Func}
    (h : (decode r bytes).result = .ok functions) :
    (decode r bytes).state.AdmitsAll functions := by
  refine Registry.admitsAll_iff.mpr (Registry.admits_of_alike fun func hfunc => ?_)
  have hresult := (decode_alike r r bytes).result
  rw [h] at hresult
  cases hresult with
  | ok hlike =>
    obtain ⟨func', -, hfunc'⟩ := forall₂_exists_of_mem hlike hfunc
    exact ⟨_, func', hfunc'⟩

end Notes

end Coverage
