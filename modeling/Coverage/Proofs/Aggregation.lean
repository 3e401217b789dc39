import Coverage.Report
import Coverage.Proofs.SourceFiles

/-!
# What lines add up to

Collecting and counting go over the places where blocks list lines, and change one line at each
(`Registry.Rewritten`).  So a line comes to what the visits that list it make of it, whatever
happens elsewhere in between: its owners are the blocks that list it, each once, and its count is
either that of its one block, as often as it lists the line, or the flow into its blocks.

* `Registry.forEach_rewritten` — what a pass makes of every line;
* `Registry.count_lines` — what all passes make of every line (`SourceLine.tally`);
* `tally_of_single`, `tally_of_several` — the count of a line with one block, and with several;
* `shows_summarize` — what a summary shows of the tables.
-/

namespace Coverage

/-! ## Changing lines -/

namespace Registry

variable {r r' r'' : Registry}

/-- `r.Rewritten f r'`: in `r'` every line of the tables of `r` was changed by `f`, and nothing
else that counts. -/
structure Rewritten (r : Registry) (f : Nat → Nat → SourceLine → SourceLine) (r' : Registry) :
    Prop where
  names : r'.names = r.names
  line? : ∀ i n, r'.line? i n = (r.line? i n).map (f i n)

theorem Rewritten.trans {f g : Nat → Nat → SourceLine → SourceLine} (h : r.Rewritten f r')
    (h' : r'.Rewritten g r'') : r.Rewritten (fun i n line => g i n (f i n line)) r'' where
  names := h'.names.trans h.names
  line? i n := by
    rw [h'.line?, h.line?, Option.map_map]
    rfl

theorem Rewritten.congr {f g : Nat → Nat → SourceLine → SourceLine} (h : r.Rewritten f r')
    (hfg : ∀ i n line, r.line? i n = some line → f i n line = g i n line) : r.Rewritten g r' where
  names := h.names
  line? i n := by
    rw [h.line?]
    cases hline : r.line? i n with
    | none => rfl
    | some line => rw [Option.map_some, Option.map_some, hfg i n line hline]

end Registry

/-- Whether a visit is to a line of a file. -/
def Visit.isAt (v : Visit) (i n : Nat) : Bool :=
  v.file == i && v.line == n

/-- Changes one line only. -/
def Visit.only (v : Visit) (f : SourceLine → SourceLine) (i n : Nat) : SourceLine → SourceLine :=
  if v.isAt i n then f else id

namespace Registry

variable {r r' : Registry}

/-- A line that is in the tables can be changed. -/
theorem mapLine?_rewritten {v : Visit} {line : SourceLine}
    (hline : r.line? v.file v.line = some line) (f : SourceLine → SourceLine) :
    ∃ r', r.mapLine? v.file v.line f = some r' ∧ r.Rewritten (v.only f) r' := by
  obtain ⟨file, hfile, hentry⟩ := Option.bind_eq_some_iff.mp hline
  have hlt : v.line < file.lines.size := (Array.getElem?_eq_some_iff.mp hentry).1
  refine ⟨r.mapFile v.file fun file => { file with lines := file.lines.modify v.line f },
    ?_, ?_, ?_⟩
  · simp [mapLine?, hfile, hlt]
  · exact names_mapFile r v.file fun _ => rfl
  · intro i n
    simp only [Registry.line?, files_mapFile, Visit.only, Visit.isAt, Bool.and_eq_true, beq_iff_eq]
    by_cases hi : v.file = i
    · subst hi
      by_cases hn : v.line = n <;> simp [hfile, Array.getElem?_modify, hn]
    · simp [hi]

/-- A pass over visits makes of every line what the visits to it make of it, one after another. -/
theorem forEach_rewritten (step : Registry → Visit → Outcome Registry Unit)
    (f : Visit → SourceLine → SourceLine) (good : SourceLine → Prop)
    (hstep : ∀ (r : Registry) (v : Visit) (line : SourceLine),
      r.line? v.file v.line = some line → good line →
      ∃ r', step r v = .ok r' () ∧ r.Rewritten (v.only (f v)) r')
    (hgood : ∀ v line, good line → good (f v line)) {visits : List Visit} {r : Registry}
    (hvisits : ∀ v ∈ visits, ∃ line, r.line? v.file v.line = some line ∧ good line) :
    ∃ r', Outcome.forEach step r visits = .ok r' ()
      ∧ r.Rewritten (fun i n line => (visits.filter (·.isAt i n)).foldl (fun l v => f v l) line)
        r' := by
  induction visits generalizing r with
  | nil => exact ⟨r, rfl, rfl, fun i n => by simp⟩
  | cons v visits ih =>
    obtain ⟨line, hline, hline'⟩ := hvisits v List.mem_cons_self
    obtain ⟨r₁, hfirst, hrewritten⟩ := hstep r v line hline hline'
    have hvisits' : ∀ w ∈ visits, ∃ line, r₁.line? w.file w.line = some line ∧ good line := by
      intro w hw
      obtain ⟨line, hline, hline'⟩ := hvisits w (List.mem_cons_of_mem _ hw)
      refine ⟨v.only (f v) w.file w.line line, by rw [hrewritten.line?, hline, Option.map_some], ?_⟩
      unfold Visit.only
      split
      · exact hgood v line hline'
      · exact hline'
    obtain ⟨r₂, hrest, hrewritten'⟩ := ih hvisits'
    refine ⟨r₂, ?_, (hrewritten.trans hrewritten').congr fun i n line _ => ?_⟩
    · rw [Outcome.forEach_cons, hfirst, Outcome.ok_bind, hrest]
    · unfold Visit.only
      rw [List.filter_cons]
      split <;> rfl

end Registry

/-! ## Places that are visited -/

section Visits

variable {functions : List Func} {i n : Nat}

theorem Func.mem_allVisits {v : Visit} :
    v ∈ Func.allVisits functions ↔ ∃ func block, functions[v.owner.func]? = some func
      ∧ func.graph.blocks[v.owner.block]? = some block ∧ v.count = block.count
      ∧ (v.file, v.line) ∈ block.associations := by
  simp only [Func.allVisits, Func.visits, List.mem_flatMap, List.mem_map, Prod.exists,
    List.mem_zipIdx_iff_getElem?, Array.getElem?_toList]
  constructor
  · rintro ⟨func, position, hfunc, block, index, hblock, file, line, hplace, rfl⟩
    exact ⟨func, block, hfunc, hblock, rfl, hplace⟩
  · rintro ⟨func, block, hfunc, hblock, hcount, hplace⟩
    refine ⟨func, v.owner.func, hfunc, block, v.owner.block, hblock, v.file, v.line, hplace, ?_⟩
    rw [← hcount]

/-- The visits to a line of a file. -/
def visitsAt (functions : List Func) (i n : Nat) : List Visit :=
  (Func.allVisits functions).filter (·.isAt i n)

/-- The blocks that list a line of a file, each once. -/
def ownersAt (functions : List Func) (i n : Nat) : List BlockRef :=
  ((visitsAt functions i n).map (·.owner)).foldl enlist []

/-- `Lists functions i n owner`: the block lists the line of the file. -/
def Lists (functions : List Func) (i n : Nat) (owner : BlockRef) : Prop :=
  ∃ func block, functions[owner.func]? = some func
    ∧ func.graph.blocks[owner.block]? = some block ∧ (i, n) ∈ block.associations

theorem mem_visitsAt {v : Visit} :
    v ∈ visitsAt functions i n ↔ v ∈ Func.allVisits functions ∧ v.file = i ∧ v.line = n := by
  rw [visitsAt, List.mem_filter, Visit.isAt, Bool.and_eq_true, beq_iff_eq, beq_iff_eq]

theorem mem_ownersAt {owner : BlockRef} :
    owner ∈ ownersAt functions i n ↔ Lists functions i n owner := by
  rw [ownersAt, mem_foldl_enlist, List.mem_map]
  constructor
  · rintro (h | ⟨v, hv, rfl⟩)
    · cases h
    · obtain ⟨hvisit, rfl, rfl⟩ := mem_visitsAt.mp hv
      obtain ⟨func, block, hfunc, hblock, -, hplace⟩ := Func.mem_allVisits.mp hvisit
      exact ⟨func, block, hfunc, hblock, hplace⟩
  · rintro ⟨func, block, hfunc, hblock, hplace⟩
    refine .inr ⟨⟨owner, block.count, i, n⟩, mem_visitsAt.mpr ⟨?_, rfl, rfl⟩, rfl⟩
    exact Func.mem_allVisits.mpr ⟨func, block, hfunc, hblock, rfl, hplace⟩

theorem nodup_ownersAt (functions : List Func) (i n : Nat) : (ownersAt functions i n).Nodup :=
  nodup_foldl_enlist List.nodup_nil _

/-- The counts of a block that lists some places, once for each time that it lists one of them. -/
theorem total_placed (owner : BlockRef) (count : Int) (places : List (Nat × Nat)) (i n : Nat) :
    total (·.count) ((places.map fun (file, line) =>
        ({ owner, count, file, line } : Visit)).filter (·.isAt i n))
      = places.count (i, n) * count := by
  induction places with
  | nil => simp
  | cons place places ih =>
    obtain ⟨file, line⟩ := place
    rw [List.map_cons, List.filter_cons, List.count_cons]
    by_cases hplace : file = i ∧ line = n
    · obtain ⟨rfl, rfl⟩ := hplace
      rw [if_pos (by simp [Visit.isAt]), total_cons, ih]
      simp only [beq_self_eq_true, if_true, Int.natCast_add, Int.add_mul]
      omega
    · rw [if_neg (by simpa [Visit.isAt] using hplace), ih]
      simp [hplace]

/-- How often the blocks list a line, each weighted with its count. -/
theorem total_visitsAt (functions : List Func) (i n : Nat) :
    total (·.count) (visitsAt functions i n)
      = total (fun func => total (fun block => block.associations.count (i, n) * block.count)
          func.graph.blocks.toList) functions := by
  simp only [visitsAt, Func.allVisits, Func.visits, List.filter_flatMap, total_flatMap,
    total_placed, total_zipIdx (fun block : Block =>
      (block.associations.count (i, n) : Int) * block.count),
    total_zipIdx (fun func : Func => total (fun block : Block =>
      (block.associations.count (i, n) : Int) * block.count) func.graph.blocks.toList)]

/-! ## Flow from without -/

/-- What enters a block from without, for a block that there is. -/
theorem inflowTo_eq {owners : List BlockRef} {owner : BlockRef} {func : Func} {block : Block}
    (hfunc : functions[owner.func]? = some func)
    (hblock : func.graph.blocks[owner.block]? = some block) :
    inflowTo functions owners owner
      = some (total (·.count) ((func.graph.arcsOf block.entries).filter fun arc =>
          { func := owner.func, block := arc.src } ∉ owners)) := by
  simp [inflowTo, hfunc, hblock]

theorem externalInflow_eq {owners : List BlockRef} {inflow : BlockRef → Int}
    (h : ∀ owner ∈ owners, inflowTo functions owners owner = some (inflow owner)) :
    externalInflow functions owners = some (total inflow owners) := by
  have hmap : ∀ part ⊆ owners, part.mapM (inflowTo functions owners) = some (part.map inflow) := by
    intro part hsub
    induction part with
    | nil => rfl
    | cons owner rest ih =>
      rw [List.mapM_cons, h owner (hsub List.mem_cons_self),
        ih fun o ho => hsub (List.mem_cons_of_mem _ ho)]
      rfl
  rw [externalInflow, hmap owners (List.Subset.refl _), Option.map_some, total_map]
  rfl

/-- There is a flow into blocks that all exist. -/
theorem externalInflow_isSome {owners : List BlockRef}
    (h : ∀ owner ∈ owners, ∃ func block, functions[owner.func]? = some func
      ∧ func.graph.blocks[owner.block]? = some block) :
    (externalInflow functions owners).isSome := by
  have hinflow : ∀ owner ∈ owners, inflowTo functions owners owner
      = some ((inflowTo functions owners owner).getD 0) := by
    intro owner howner
    obtain ⟨func, block, hfunc, hblock⟩ := h owner howner
    rw [inflowTo_eq hfunc hblock, Option.getD_some]
  rw [externalInflow_eq hinflow]
  rfl

end Visits

/-! ## What visits make of a line -/

namespace SourceLine

/-- Adds the count of a visit to a line with one owner. -/
def addCount (line : SourceLine) (v : Visit) : SourceLine :=
  if line.isOwned then { line with count := line.count + v.count } else line

/-- Counts what enters the owners of a line, if there are several. -/
def share (functions : List Func) (line : SourceLine) : SourceLine :=
  if line.isOwned then line
  else { line with count := (externalInflow functions line.owners).getD 0 }

theorem share_of_owned {functions : List Func} {line : SourceLine} (h : line.isOwned = true) :
    line.share functions = line :=
  if_pos h

theorem share_of_shared {functions : List Func} {line : SourceLine} (h : ¬ line.isOwned = true) :
    line.share functions
      = { line with count := (externalInflow functions line.owners).getD 0 } :=
  if_neg h

/-- What the visits to a line make of it. -/
def tally (functions : List Func) (visits : List Visit) : SourceLine where
  instrumented := !visits.isEmpty
  count :=
    if ((visits.map (·.owner)).foldl enlist []).length = 1 then total (·.count) visits
    else (externalInflow functions ((visits.map (·.owner)).foldl enlist [])).getD 0
  owners := (visits.map (·.owner)).foldl enlist []

variable {functions : List Func}

theorem foldl_addOwner (visits : List Visit) (line : SourceLine) :
    visits.foldl (fun l v => l.addOwner v.owner) line
      = { line with
          instrumented := line.instrumented || !visits.isEmpty
          owners := (visits.map (·.owner)).foldl enlist line.owners } := by
  induction visits generalizing line with
  | nil => simp
  | cons v visits ih =>
    rw [List.foldl_cons, ih]
    simp [addOwner, enlist]

theorem foldl_addCount (visits : List Visit) (line : SourceLine) :
    visits.foldl addCount line
      = if line.isOwned then { line with count := line.count + total (·.count) visits }
        else line := by
  induction visits generalizing line with
  | nil => simp
  | cons v visits ih =>
    rw [List.foldl_cons, ih, addCount]
    split
    · next howned =>
      have howned' : ({ line with count := line.count + v.count } : SourceLine).isOwned = true :=
        howned
      simp [howned', Int.add_assoc]
    · simp

theorem share_share (line : SourceLine) :
    (line.share functions).share functions = line.share functions := by
  unfold share
  split
  · rfl
  · next howned => exact if_neg howned

theorem foldl_share {visits : List Visit} (hne : visits ≠ []) (line : SourceLine) :
    visits.foldl (fun l _ => share functions l) line = share functions line := by
  induction visits generalizing line with
  | nil => exact absurd rfl hne
  | cons v visits ih =>
    rw [List.foldl_cons]
    cases visits with
    | nil => rfl
    | cons w visits => rw [ih (by simp), share_share]

/-- All passes over the visits to a line that starts afresh. -/
theorem foldl_eq_tally (visits : List Visit) :
    visits.foldl (fun l _ => share functions l)
        (visits.foldl addCount (visits.foldl (fun l v => l.addOwner v.owner) {}))
      = tally functions visits := by
  rw [foldl_addOwner, foldl_addCount]
  cases visits with
  | nil => rfl
  | cons v visits =>
    rw [foldl_share (by simp)]
    simp only [isOwned, tally, share, beq_iff_eq]
    split <;> simp

end SourceLine

/-! ## All passes -/

namespace Registry

variable {r : Registry} {functions : List Func}

/-- `r.Admits i n`: the file has the line, once its table starts afresh. -/
def Admits (r : Registry) (i n : Nat) : Prop :=
  ∃ file, r.files[i]? = some file ∧ n < file.lineCount

open Classical in
theorem resetLines_line? (r : Registry) (i n : Nat) :
    r.resetLines.line? i n = if r.Admits i n then some {} else none := by
  have hfiles : r.resetLines.files[i]? = (r.files[i]?).map (·.resetLines) := by simp [resetLines]
  rw [Registry.line?, hfiles, Admits]
  cases r.files[i]? with
  | none => simp
  | some file => simp [SourceFile.resetLines, Array.getElem?_replicate]

theorem resetLines_names (r : Registry) : r.resetLines.names = r.names := by
  simp [resetLines, names, SourceFile.resetLines, Function.comp_def]

/-- A visit adds the owner to the line. -/
theorem collectVisit_rewritten {v : Visit} {line : SourceLine}
    (hline : r.line? v.file v.line = some line) :
    ∃ r', collectVisit r v = .ok r' () ∧ r.Rewritten (v.only (·.addOwner v.owner)) r' := by
  obtain ⟨r', hmap, hrewritten⟩ := mapLine?_rewritten hline (·.addOwner v.owner)
  exact ⟨r', by rw [collectVisit, hmap], hrewritten⟩

/-- Collecting changes every line by its visits. -/
theorem collectLines_rewritten
    (hadmits : ∀ v ∈ Func.allVisits functions, r.Admits v.file v.line) :
    ∃ r', r.collectLines functions = .ok r' () ∧ r.resetLines.Rewritten
      (fun i n line => (visitsAt functions i n).foldl (fun l v => l.addOwner v.owner) line) r' := by
  refine forEach_rewritten collectVisit (fun v line => line.addOwner v.owner) (fun _ => True)
    (fun r v line hline _ => collectVisit_rewritten hline) (fun _ _ _ => trivial)
    fun v hv => ⟨{}, ?_, trivial⟩
  rw [resetLines_line?, if_pos (hadmits v hv)]

/-- A visit to a line with one owner adds the count of the owner. -/
theorem countOwned_rewritten {v : Visit} {line : SourceLine}
    (hline : r.line? v.file v.line = some line) :
    ∃ r', countOwned r v = .ok r' () ∧ r.Rewritten (v.only (·.addCount v)) r' := by
  obtain ⟨r', hmap, hrewritten⟩ := mapLine?_rewritten hline (·.addCount v)
  refine ⟨r', ?_, hrewritten⟩
  unfold SourceLine.addCount at hmap
  rw [countOwned, hmap]

/-- A visit to a shared line counts it, and to any other line changes nothing. -/
theorem countShared_rewritten {v : Visit} {line : SourceLine}
    (hline : r.line? v.file v.line = some line)
    (hsome : (externalInflow functions line.owners).isSome) :
    ∃ r', countShared functions r v = .ok r' () ∧ r.Rewritten (v.only (·.share functions)) r' := by
  obtain ⟨count, hcount⟩ := Option.isSome_iff_exists.mp hsome
  have hline' : ∀ {i n l}, v.isAt i n = true → r.line? i n = some l → l = line := by
    intro i n l hat hl
    rw [Visit.isAt, Bool.and_eq_true, beq_iff_eq, beq_iff_eq] at hat
    obtain ⟨rfl, rfl⟩ := hat
    exact Option.some.inj (hl.symm.trans hline)
  unfold countShared
  rw [hline]
  dsimp only
  split
  · next howned =>
    refine ⟨r, rfl, rfl, fun i n => ?_⟩
    cases hl : r.line? i n with
    | none => rfl
    | some l =>
      rw [Option.map_some, Visit.only]
      split
      · next hat =>
        rw [hline' hat hl]
        exact congrArg some (SourceLine.share_of_owned howned).symm
      · rfl
  · next howned =>
    obtain ⟨r', hmap, hrewritten⟩ := mapLine?_rewritten hline ({ · with count })
    refine ⟨r', by simp only [hcount, hmap], hrewritten.congr fun i n l hl => ?_⟩
    unfold Visit.only
    split
    · next hat =>
      rw [hline' hat hl]
      show _ = line.share functions
      rw [SourceLine.share_of_shared howned, hcount, Option.getD_some]
    · rfl

/-- Counting changes every line by its visits, where the owners of all lines exist. -/
theorem accumulateCounts_rewritten
    (hlines : ∀ v ∈ Func.allVisits functions, ∃ line, r.line? v.file v.line = some line
      ∧ (externalInflow functions line.owners).isSome) :
    ∃ r', r.accumulateCounts functions = .ok r' () ∧ r.Rewritten
      (fun i n line => (visitsAt functions i n).foldl (fun l _ => l.share functions)
        ((visitsAt functions i n).foldl SourceLine.addCount line)) r' := by
  have hcount : ∀ (v : Visit) (line : SourceLine), (line.addCount v).owners = line.owners := by
    intro v line
    unfold SourceLine.addCount
    split <;> rfl
  obtain ⟨r₁, hfirst, hrewritten₁⟩ := forEach_rewritten countOwned (fun v line => line.addCount v)
    (fun line => (externalInflow functions line.owners).isSome)
    (fun r v line hline _ => countOwned_rewritten hline)
    (fun v line hline => by rwa [hcount]) hlines
  have hlines₁ : ∀ v ∈ Func.allVisits functions, ∃ line, r₁.line? v.file v.line = some line
      ∧ (externalInflow functions line.owners).isSome := by
    intro v hv
    obtain ⟨line, hline, hsome⟩ := hlines v hv
    refine ⟨_, by rw [hrewritten₁.line?, hline, Option.map_some], ?_⟩
    rw [SourceLine.foldl_addCount]
    split <;> exact hsome
  obtain ⟨r₂, hsecond, hrewritten₂⟩ := forEach_rewritten (countShared functions)
    (fun _ line => line.share functions)
    (fun line => (externalInflow functions line.owners).isSome)
    (fun r v line hline hsome => countShared_rewritten hline hsome)
    (fun v line hline => by
      unfold SourceLine.share
      split <;> exact hline) hlines₁
  refine ⟨r₂, ?_, hrewritten₁.trans hrewritten₂⟩
  rw [accumulateCounts, hfirst, Outcome.ok_bind, hsecond]

/-- What lines come to.  Where files admit all lines that blocks list, collecting and counting end
well, and make of every line what the visits to it add up to. -/
theorem count_lines (hadmits : ∀ v ∈ Func.allVisits functions, r.Admits v.file v.line) :
    ∃ r₁ r₂, r.collectLines functions = .ok r₁ () ∧ r₁.accumulateCounts functions = .ok r₂ ()
      ∧ r₂.names = r.names ∧ ∀ i n, r₂.line? i n = (r.resetLines.line? i n).map fun _ =>
        .tally functions (visitsAt functions i n) := by
  have hfresh : ∀ {i n line}, r.resetLines.line? i n = some line → line = {} := by
    intro i n line hline
    rw [resetLines_line?] at hline
    split at hline
    · exact (Option.some.inj hline).symm
    · cases hline
  obtain ⟨r₁, hcollect, hcollected⟩ := collectLines_rewritten hadmits
  have howners : ∀ v ∈ Func.allVisits functions, ∃ line, r₁.line? v.file v.line = some line
      ∧ (externalInflow functions line.owners).isSome := by
    intro v hv
    rw [hcollected.line?, resetLines_line?, if_pos (hadmits v hv), Option.map_some]
    refine ⟨_, rfl, externalInflow_isSome fun owner howner => ?_⟩
    rw [SourceLine.foldl_addOwner] at howner
    obtain ⟨func, block, hfunc, hblock, -⟩ := mem_ownersAt.mp howner
    exact ⟨func, block, hfunc, hblock⟩
  obtain ⟨r₂, hcount, hcounted⟩ := accumulateCounts_rewritten howners
  have hall : r.resetLines.Rewritten (fun i n _ => .tally functions (visitsAt functions i n)) r₂ :=
    (hcollected.trans hcounted).congr fun i n line hline => by
      rw [hfresh hline]
      exact SourceLine.foldl_eq_tally _
  exact ⟨r₁, r₂, hcollect, hcount, hall.names.trans (resetLines_names r), hall.line?⟩

end Registry

/-! ## The count of a line -/

section Tally

variable {functions : List Func} {i n : Nat}

theorem instrumented_tally :
    (SourceLine.tally functions (visitsAt functions i n)).instrumented = true
      ↔ ∃ owner, Lists functions i n owner := by
  have hempty : visitsAt functions i n = [] ↔ ¬ ∃ owner, Lists functions i n owner := by
    rw [List.eq_nil_iff_forall_not_mem]
    constructor
    · rintro hnone ⟨owner, func, block, hfunc, hblock, hplace⟩
      refine hnone ⟨owner, block.count, i, n⟩ (mem_visitsAt.mpr ⟨?_, rfl, rfl⟩)
      exact Func.mem_allVisits.mpr ⟨func, block, hfunc, hblock, rfl, hplace⟩
    · intro hnone v hv
      exact hnone ⟨v.owner, mem_ownersAt.mp (by
        rw [ownersAt, mem_foldl_enlist]
        exact .inr (List.mem_map_of_mem hv))⟩
  rw [SourceLine.tally, Bool.not_eq_true', List.isEmpty_eq_false_iff, ne_eq, hempty, not_not]

/-- A line that one block lists has the count of the block, as often as the block lists it. -/
theorem tally_of_single {owner : BlockRef} {func : Func} {block : Block}
    (hfunc : functions[owner.func]? = some func)
    (hblock : func.graph.blocks[owner.block]? = some block)
    (hlists : (i, n) ∈ block.associations)
    (honly : ∀ other, Lists functions i n other → other = owner) :
    (SourceLine.tally functions (visitsAt functions i n)).count
      = block.associations.count (i, n) * block.count := by
  have howner : Lists functions i n owner := ⟨func, block, hfunc, hblock, hlists⟩
  have howners : ownersAt functions i n = [owner] := by
    refine List.perm_singleton.mp ((List.perm_ext_iff_of_nodup (nodup_ownersAt _ _ _)
      (List.nodup_singleton _)).mpr fun other => ?_)
    rw [mem_ownersAt, List.mem_singleton]
    exact ⟨honly other, fun h => h ▸ howner⟩
  have hzero : ∀ (k : Nat) (f : Func) (j : Nat) (b : Block), functions[k]? = some f →
      f.graph.blocks[j]? = some b → (⟨k, j⟩ : BlockRef) ≠ owner →
      (b.associations.count (i, n) : Int) * b.count = 0 := by
    intro k f j b hf hb hne
    have hnot : (i, n) ∉ b.associations := fun hmem =>
      hne (honly ⟨k, j⟩ ⟨f, b, hf, hb, hmem⟩)
    simp [List.count_eq_zero_of_not_mem hnot]
  have hcount : (SourceLine.tally functions (visitsAt functions i n)).count
      = total (·.count) (visitsAt functions i n) :=
    if_pos (congrArg List.length howners)
  have hblock' : func.graph.blocks.toList[owner.block]? = some block := by simpa using hblock
  rw [hcount, total_visitsAt, total_eq_of_single hfunc, total_eq_of_single hblock']
  · intro j b hb hne
    refine hzero owner.func func j b hfunc (by simpa using hb) fun h => hne ?_
    rw [← h]
  · intro k f hf hne
    refine (total_congr fun b hb => ?_).trans (total_zero _)
    obtain ⟨j, hj⟩ := List.mem_iff_getElem?.mp hb
    exact hzero k f j b hf (by simpa using hj) fun h => hne (by rw [← h])

/-- A line that several blocks list takes its count from them all. -/
theorem tally_of_shared {owner other : BlockRef} (howner : Lists functions i n owner)
    (hother : Lists functions i n other) (hne : other ≠ owner) :
    (SourceLine.tally functions (visitsAt functions i n)).count
      = (externalInflow functions (ownersAt functions i n)).getD 0 := by
  refine if_neg fun hone => ?_
  obtain ⟨a, ha⟩ := List.length_eq_one_iff.mp hone
  change ownersAt functions i n = [a] at ha
  have h₁ := mem_ownersAt.mpr howner
  have h₂ := mem_ownersAt.mpr hother
  rw [ha, List.mem_singleton] at h₁ h₂
  exact hne (h₂.trans h₁.symm)

/-- A line that several blocks list has as its count what enters these blocks from others. -/
theorem tally_of_several {owner other : BlockRef} (howner : Lists functions i n owner)
    (hother : Lists functions i n other) (hne : other ≠ owner) {inflow : BlockRef → Int}
    (hinflow : ∀ o ∈ ownersAt functions i n,
      inflowTo functions (ownersAt functions i n) o = some (inflow o)) :
    (SourceLine.tally functions (visitsAt functions i n)).count
      = total inflow (ownersAt functions i n) := by
  rw [tally_of_shared howner hother hne, externalInflow_eq hinflow, Option.getD_some]

end Tally

/-! ## Summaries -/

theorem SourceFile.mem_lineCoverage {file : SourceFile} {l : LineCoverage} :
    l ∈ file.lineCoverage ↔ ∃ (n : Nat) (line : SourceLine), file.lines[n]? = some line
      ∧ line.instrumented = true
      ∧ l = { line := n, executed := decide (0 < line.count), count := line.count } := by
  simp only [lineCoverage, List.mem_map, List.mem_filter, Prod.exists,
    List.mem_zipIdx_iff_getElem?, Array.getElem?_toList]
  constructor
  · rintro ⟨line, n, ⟨hline, hinstrumented⟩, rfl⟩
    exact ⟨n, line, hline, hinstrumented, rfl⟩
  · rintro ⟨n, line, hline, hinstrumented, rfl⟩
    exact ⟨line, n, ⟨hline, hinstrumented⟩, rfl⟩

/-- The coverage of a file lists its lines in ascending order. -/
theorem SourceFile.pairwise_lineCoverage (file : SourceFile) :
    (file.lineCoverage.map (·.line)).Pairwise (· < ·) := by
  have hnumbers : file.lines.toList.zipIdx.Pairwise fun a b => a.2 < b.2 := by
    rw [← List.pairwise_map, List.zipIdx_map_snd]
    exact List.pairwise_lt_range'
  rw [lineCoverage, List.map_map, List.pairwise_map]
  exact (hnumbers.filter _).imp fun hlt => Int.ofNat_lt.mpr hlt

namespace Report

/-- `report.Shows file line count`: the report gives this count for the line of the file. -/
def Shows (report : Report) (file : String) (line count : Int) : Prop :=
  ∃ f ∈ report.files, f.file = file ∧ ∃ l ∈ f.lines, l.line = line ∧ l.count = count

variable {r : Registry} {functions : List Func} {file : String} {line count : Int}

theorem shows_summarize :
    Shows { files := r.summarize, functions } file line count
      ↔ ∃ (i n : Nat) (l : SourceLine), r.names[i]? = some file ∧ r.line? i n = some l
        ∧ l.instrumented = true ∧ line = n ∧ count = l.count := by
  simp only [Shows, Registry.summarize, List.mem_map]
  constructor
  · rintro ⟨_, ⟨f, hf, rfl⟩, rfl, _, hl, rfl, rfl⟩
    obtain ⟨n, l, hline, hinstrumented, rfl⟩ := SourceFile.mem_lineCoverage.mp hl
    obtain ⟨i, hi⟩ := List.mem_iff_getElem?.mp hf
    rw [Array.getElem?_toList] at hi
    refine ⟨i, n, l, ?_, ?_, hinstrumented, rfl, rfl⟩
    · rw [Registry.names_getElem?, hi]
      rfl
    · simp [Registry.line?, hi, hline]
  · rintro ⟨i, n, l, hname, hline, hinstrumented, rfl, rfl⟩
    obtain ⟨f, hf, hentry⟩ := Option.bind_eq_some_iff.mp hline
    rw [Registry.names_getElem?, hf, Option.map_some, Option.some.injEq] at hname
    refine ⟨f.coverage, ⟨f, ?_, rfl⟩, hname, _,
      SourceFile.mem_lineCoverage.mpr ⟨n, l, hentry, hinstrumented, rfl⟩, rfl, rfl⟩
    exact Array.mem_toList_iff.mpr (Array.mem_of_getElem? hf)

/-- The report on functions that can be solved, and whose lines their files admit, is a summary of
what all lines come to. -/
theorem ofFunctions_counted (hsolved : (Func.solveAll functions).result = .ok ())
    (hadmits : ∀ v ∈ Func.allVisits (Func.solveAll functions).state, r.Admits v.file v.line) :
    ∃ r' : Registry, (ofFunctions r functions).result
        = .ok { files := r'.summarize, functions := (Func.solveAll functions).state }
      ∧ r'.names = r.names ∧ ∀ i n, r'.line? i n = (r.resetLines.line? i n).map fun _ =>
        .tally (Func.solveAll functions).state (visitsAt (Func.solveAll functions).state i n) := by
  obtain ⟨r₁, r₂, hcollect, hcount, hnames, hlines⟩ := Registry.count_lines hadmits
  refine ⟨r₂, ?_, hnames, hlines⟩
  simp [ofFunctions, Outcome.bind, hsolved, hcollect, hcount, Outcome.ok]

/-- The report on functions that can be solved, and whose lines their files admit, shows the lines
that blocks list, and the count that each comes to. -/
theorem shows_ofFunctions (hsolved : (Func.solveAll functions).result = .ok ())
    (hadmits : ∀ v ∈ Func.allVisits (Func.solveAll functions).state, r.Admits v.file v.line) :
    ∃ report, (ofFunctions r functions).result = .ok report
      ∧ ∀ file line count, report.Shows file line count
        ↔ ∃ i n : Nat, r.names[i]? = some file
          ∧ (∃ owner, Lists (Func.solveAll functions).state i n owner) ∧ line = n
          ∧ count = (SourceLine.tally (Func.solveAll functions).state
              (visitsAt (Func.solveAll functions).state i n)).count := by
  obtain ⟨r', hreport, hnames, hlines⟩ := ofFunctions_counted hsolved hadmits
  refine ⟨_, hreport, fun file line count => ?_⟩
  rw [shows_summarize]
  constructor
  · rintro ⟨i, n, l, hname, hline, hinstrumented, rfl, rfl⟩
    rw [hlines] at hline
    obtain ⟨_, -, rfl⟩ := Option.map_eq_some_iff.mp hline
    exact ⟨i, n, hnames ▸ hname, instrumented_tally.mp hinstrumented, rfl, rfl⟩
  · rintro ⟨i, n, hname, ⟨owner, func, block, hfunc, hblock, hplace⟩, rfl, rfl⟩
    have hadmit : r.Admits i n := hadmits ⟨owner, block.count, i, n⟩
      (Func.mem_allVisits.mpr ⟨func, block, hfunc, hblock, rfl, hplace⟩)
    refine ⟨i, n, _, hnames ▸ hname, ?_, instrumented_tally.mpr
      ⟨owner, func, block, hfunc, hblock, hplace⟩, rfl, rfl⟩
    rw [hlines, Registry.resetLines_line?, if_pos hadmit, Option.map_some]

end Report

end Coverage
