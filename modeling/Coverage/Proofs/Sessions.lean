import Coverage.Session
import Coverage.Proofs.RoundTrip
import Coverage.Proofs.Tables

/-!
# What every session keeps

A session decodes, solves, collects and counts in any order, and goes on where something failed.
Functions that were decoded long ago list lines by the position of a file, while later files are
registered, bounds are raised and tables are made afresh.  `Session.Sound` is what every command
keeps; it is enough to know where commands can fail (`Session.run_addressed`).
-/

namespace Coverage

namespace Session

/-! ## Commands -/

/-- Decodes a data file onto a stretch of the functions. -/
def readDataOnto (s : Session) (first count : Nat) (bytes : Bytes) : Outcome Session Unit :=
  let decoded := Counters.decode ((s.functions.drop first).take count) bytes
  { state :=
      { s with
        functions := s.functions.take first ++ decoded.state ++ s.functions.drop (first + count) }
    result := decoded.result
    log := decoded.log }

theorem readData_eq (s : Session) (bytes : Bytes) :
    s.readData bytes = s.readDataOnto (s.functions.length - s.newest) s.newest bytes := by
  have htake : s.latest.take s.newest = s.latest := by
    apply List.take_of_length_le
    rw [latest, List.length_drop]
    omega
  have hrest : s.functions.drop (s.functions.length - s.newest + s.newest) = [] := by
    apply List.drop_of_length_le
    omega
  unfold latest at htake
  simp only [readDataOnto, readData, latest, older, htake, hrest, List.append_nil]

theorem readDataOntoAll_eq (s : Session) (bytes : Bytes) :
    s.readDataOntoAll bytes = s.readDataOnto 0 s.functions.length bytes := by
  simp [readDataOntoAll, readDataOnto]

/-- What can be done in a session. -/
inductive Command where
  | readNotes (bytes : Bytes)
  | readData (bytes : Bytes)
  | readDataOntoAll (bytes : Bytes)
  | readDataOnto (first count : Nat) (bytes : Bytes)
  | solveAll
  | solve (position : Nat)
  | collectLines
  | accumulateCounts
deriving DecidableEq

/-- Does what a command says. -/
def perform (s : Session) : Command → Outcome Session Unit
  | .readNotes bytes => (s.readNotes bytes).map fun _ => ()
  | .readData bytes => s.readData bytes
  | .readDataOntoAll bytes => s.readDataOntoAll bytes
  | .readDataOnto first count bytes => s.readDataOnto first count bytes
  | .solveAll => s.solveAll
  | .solve position => s.solve position
  | .collectLines => s.collectLines
  | .accumulateCounts => s.accumulateCounts

/-- Performs commands one after another, whether they fail or not. -/
def run (commands : List Command) : Session :=
  commands.foldl (fun s command => (s.perform command).state) {}

/-! ## What every command keeps -/

/-- The functions are enrolled, files admit the lines that they list, and lines are owned by blocks
that list them. -/
structure Sound (s : Session) : Prop where
  enrolled : s.registry.Enrolled s.functions
  admits : s.registry.AdmitsAll s.functions
  owned : s.registry.OwnedBy s.functions

/-- A step of a session: what was sound is so afterwards, and the registry has only grown. -/
structure Keeps (s t : Session) : Prop where
  sound : s.Sound → t.Sound
  grows : s.registry.Extends t.registry

variable {s t : Session}

/-- Counts were put on functions. -/
theorem Keeps.of_outlines (hregistry : t.registry = s.registry)
    (h : t.functions.map (·.outline) = s.functions.map (·.outline)) : s.Keeps t where
  sound hs := by
    have hrefs : t.functions.map (fun func => (func.ref, func.source))
        = s.functions.map fun func => (func.ref, func.source) := by
      have hfirst := congrArg (List.map Prod.fst) h
      rw [List.map_map, List.map_map] at hfirst
      exact hfirst
    refine ⟨?_, ?_, ?_⟩
    · rw [hregistry]
      exact hs.enrolled.of_refs hrefs
    · intro i n owner hlists
      rw [hregistry]
      exact hs.admits i n owner ((lists_of_outlines h).mp hlists)
    · intro i n listed hlisted owner howner
      rw [hregistry] at hlisted
      exact (lists_of_outlines h).mpr (hs.owned i n listed hlisted owner howner)
  grows := by
    rw [hregistry]
    exact .refl _

/-- Tables were made or changed. -/
theorem Keeps.of_bare {r : Registry} (hbare : r.bare = s.registry.bare)
    (howned : s.Sound → r.OwnedBy s.functions) : s.Keeps { s with registry := r } where
  sound hs := by
    refine ⟨?_, ?_, howned hs⟩
    · exact hs.enrolled.of_entries (Registry.entries_of_bare hbare) (Registry.issued_of_bare hbare)
    · intro i n owner hlists
      exact (hs.admits i n owner hlists).mono (Registry.extends_of_bare hbare)
  grows := Registry.extends_of_bare hbare

/-- A notes file that is refused leaves the functions as they are, and one that is read adds to
them; both leave the registry that was grown. -/
theorem state_readNotes (s : Session) (bytes : Bytes) :
    (s.readNotes bytes).state = match (Notes.decode s.registry bytes).result with
      | .ok functions =>
        { registry := (Notes.decode s.registry bytes).state
          functions := s.functions ++ functions
          newest := functions.length }
      | .error _ => { s with registry := (Notes.decode s.registry bytes).state } := rfl

theorem readNotes_keeps (s : Session) (bytes : Bytes) : s.Keeps (s.readNotes bytes).state where
  sound hs := by
    obtain ⟨hbefore, hall⟩ := Notes.decode_enlists hs.enrolled bytes
    have hgrows := (Notes.decode_alike s.registry s.registry bytes).grow.extends_left
    have hadmits : (Notes.decode s.registry bytes).state.AdmitsAll s.functions :=
      fun i n owner hlists => (hs.admits i n owner hlists).mono hgrows
    -- new lines are in no table yet, so every owner was there before
    have howned : (Notes.decode s.registry bytes).state.OwnedBy s.functions := by
      intro i n listed hlisted
      rw [Registry.owners, Notes.decode_line?] at hlisted
      exact hs.owned i n listed hlisted
    rw [state_readNotes]
    cases hresult : (Notes.decode s.registry bytes).result with
    | error error => exact ⟨hbefore, hadmits, howned⟩
    | ok functions =>
      refine ⟨hall functions hresult, fun i n owner hlists => ?_,
        fun i n listed hlisted owner howner => ?_⟩
      · rcases hlists.of_append with hold | ⟨other, hnew⟩
        · exact hadmits i n owner hold
        · exact Notes.decode_admitsAll hresult i n other hnew
      · exact (howned i n listed hlisted owner howner).append functions
  grows := by
    have hgrows := (Notes.decode_alike s.registry s.registry bytes).grow.extends_left
    rw [state_readNotes]
    split <;> exact hgrows

theorem readDataOnto_keeps (s : Session) (first count : Nat) (bytes : Bytes) :
    s.Keeps (s.readDataOnto first count bytes).state := by
  refine .of_outlines rfl ?_
  simp only [readDataOnto, List.map_append, Counters.decode_outlines]
  rw [← List.map_append, ← List.map_append, List.append_assoc, ← List.drop_drop,
    List.take_append_drop, List.take_append_drop]

theorem solve_keeps (s : Session) (position : Nat) : s.Keeps (s.solve position).state := by
  unfold solve
  split
  · exact .of_outlines rfl rfl
  · next func hfunc =>
    refine .of_outlines rfl ?_
    dsimp only
    rw [List.map_set, func.outline_solve]
    apply List.ext_getElem?
    intro i
    rw [List.getElem?_set]
    split
    · next hi =>
      subst hi
      rw [List.getElem?_map, hfunc]
      simp [(List.getElem?_eq_some_iff.mp hfunc).1]
    · rfl

theorem collectLines_keeps (s : Session) : s.Keeps s.collectLines.state := by
  refine .of_bare (Registry.bare_collectLines _ _) fun hs => ?_
  obtain ⟨r, hcollect, howned, -⟩ := Registry.collectLines_ok hs.admits
  rw [hcollect]
  exact howned

theorem accumulateCounts_keeps (s : Session) : s.Keeps s.accumulateCounts.state := by
  obtain ⟨hbare, howners⟩ :=
    Prod.mk.inj (Registry.keeps_accumulateCounts s.registry s.functions)
  refine .of_bare hbare fun hs i n listed hlisted => ?_
  rw [howners] at hlisted
  exact hs.owned i n listed hlisted

/-- Every command keeps what is sound, also one that fails. -/
theorem perform_keeps (s : Session) (command : Command) : s.Keeps (s.perform command).state := by
  cases command with
  | readNotes bytes => exact s.readNotes_keeps bytes
  | readData bytes =>
    rw [perform, readData_eq]
    exact s.readDataOnto_keeps _ _ bytes
  | readDataOntoAll bytes =>
    rw [perform, readDataOntoAll_eq]
    exact s.readDataOnto_keeps _ _ bytes
  | readDataOnto first count bytes => exact s.readDataOnto_keeps first count bytes
  | solveAll => exact .of_outlines rfl (Func.outlines_solveAll s.functions)
  | solve position => exact s.solve_keeps position
  | collectLines => exact s.collectLines_keeps
  | accumulateCounts => exact s.accumulateCounts_keeps

/-- Every session is sound. -/
theorem run_sound (commands : List Command) : (run commands).Sound := by
  have hstart : Sound {} := by
    refine ⟨.nil Registry.ordered_empty, ?_, ?_⟩
    · rintro i n owner ⟨func, block, hfunc, -⟩
      cases hfunc
    · intro i n listed hlisted
      simp [Registry.owners, Registry.line?] at hlisted
  have hfold : ∀ (commands : List Command) (s : Session), s.Sound →
      (commands.foldl (fun s command => (s.perform command).state) s).Sound := by
    intro commands
    induction commands with
    | nil => exact fun s hs => hs
    | cons command rest ih => exact fun s hs => ih _ ((s.perform_keeps command).sound hs)
  exact hfold commands {} hstart

/-! ## Where commands can fail -/

/-- Some block lists a line that its file has no room for in its table. -/
def Overruns (s : Session) : Prop :=
  ∃ func ∈ s.functions, ∃ block ∈ func.graph.blocks, ∃ place ∈ block.associations,
    ∃ file, s.registry.files[place.1]? = some file ∧ file.lines.size ≤ place.2

theorem Sound.overruns_iff (hs : s.Sound) :
    s.Overruns ↔ ∃ i n owner, Lists s.functions i n owner ∧ s.registry.line? i n = none := by
  constructor
  · rintro ⟨func, hfunc, block, hblock, ⟨i, n⟩, hplace, file, hfile, hsize⟩
    obtain ⟨position, hposition⟩ := List.mem_iff_getElem?.mp hfunc
    obtain ⟨index, hindex⟩ := Array.mem_iff_getElem?.mp hblock
    refine ⟨i, n, ⟨position, index⟩, ⟨func, block, hposition, hindex, hplace⟩, ?_⟩
    rw [Registry.line?, hfile]
    exact Array.getElem?_eq_none hsize
  · rintro ⟨i, n, owner, hlists, hmissing⟩
    obtain ⟨file, hfile, -⟩ := hs.admits i n owner hlists
    -- the file is there, so it is its table that is too short
    obtain ⟨func, block, hfunc, hblock, hplace⟩ := hlists
    refine ⟨func, List.mem_of_getElem? hfunc, block, Array.mem_of_getElem? hblock, (i, n), hplace,
      file, hfile, ?_⟩
    rw [Registry.line?, hfile] at hmissing
    exact Array.getElem?_eq_none_iff.mp hmissing

theorem Sound.collectLines_ok (hs : s.Sound) :
    s.collectLines.result = .ok () ∧ ¬ s.collectLines.state.Overruns := by
  have hcollected := s.collectLines_keeps.sound hs
  obtain ⟨r, hcollect, -, hlines⟩ := Registry.collectLines_ok hs.admits
  have hstate : s.collectLines = .ok { s with registry := r } () := by
    rw [collectLines, onRegistry, hcollect]
    rfl
  rw [hcollected.overruns_iff, hstate]
  refine ⟨rfl, ?_⟩
  rintro ⟨i, n, owner, hlists, hmissing⟩
  obtain ⟨line, hline⟩ := hlines i n owner hlists
  have hnone : r.line? i n = none := hmissing
  rw [hline] at hnone
  cases hnone

theorem Sound.accumulateCounts_error (hs : s.Sound) (h : s.Overruns) :
    s.accumulateCounts.result = .error .outOfRange := by
  obtain ⟨i, n, owner, hlists, hmissing⟩ := hs.overruns_iff.mp h
  exact Registry.accumulateCounts_error hlists hmissing

theorem Sound.accumulateCounts_ok (hs : s.Sound) (h : ¬ s.Overruns) :
    s.accumulateCounts.result = .ok () := by
  refine Registry.accumulateCounts_ok hs.owned fun i n owner hlists => ?_
  by_contra hnone
  apply h
  refine hs.overruns_iff.mpr ⟨i, n, owner, hlists, ?_⟩
  apply Option.eq_none_iff_forall_ne_some.mpr
  intro line hline
  exact hnone ⟨line, hline⟩

/-! ## Addresses -/

/-- What the addresses of a session are good for. -/
structure Addressed (s : Session) : Prop where
  /-- Files know their positions. -/
  index : ∀ (i : Nat) (file : SourceFile), s.registry.files[i]? = some file → file.index = i
  names : s.registry.names.Nodup
  /-- Whatever is done next, every file keeps its position and its name, and admits no fewer lines.
  -/
  keeps : ∀ command, s.registry.Extends (s.perform command).state.registry
  /-- No two functions have the same serial number, and so files tell them apart. -/
  serials : (s.functions.map (·.serial)).Nodup
  /-- Every function is listed by the file of its source, once, and by no other. -/
  listed : ∀ func ∈ s.functions, func.source ∈ s.registry.names
    ∧ ∀ file ∈ s.registry.files,
      file.functions.count func.ref = if file.name = func.source then 1 else 0
  /-- Every line that some block lists is one of a registered file, below its bound. -/
  places : ∀ func ∈ s.functions, ∀ block ∈ func.graph.blocks, ∀ place ∈ block.associations,
    ∃ file, s.registry.files[place.1]? = some file ∧ 1 ≤ place.2 ∧ place.2 < file.lineCount
  collects : s.collectLines.result = .ok ()
  /-- Counting fails just if some block lists a line that its file has no room for in its table. -/
  counts : s.accumulateCounts.result = .error .outOfRange ↔ s.Overruns
  counts_otherwise : ¬ s.Overruns → s.accumulateCounts.result = .ok ()
  collects_counts : s.collectLines.state.accumulateCounts.result = .ok ()

/-- Addresses are good in every session: for all commands, in any order, whatever the bytes are and
whether they fail or not. -/
theorem run_addressed (commands : List Command) : (run commands).Addressed := by
  have hs := run_sound commands
  obtain ⟨hcollects, hroom⟩ := hs.collectLines_ok
  exact {
    index := hs.enrolled.ordered.index
    names := hs.enrolled.ordered.names
    keeps := fun command => ((run commands).perform_keeps command).grows
    serials := hs.enrolled.serials
    listed := by
      intro func hfunc
      have henrols := hs.enrolled.enrols func hfunc
      refine ⟨henrols.source, fun file hfile => ?_⟩
      obtain ⟨i, hi⟩ := Array.mem_iff_getElem?.mp hfile
      exact henrols.count i file hi
    places := by
      rintro func hfunc block hblock ⟨i, n⟩ hplace
      obtain ⟨position, hposition⟩ := List.mem_iff_getElem?.mp hfunc
      obtain ⟨index, hindex⟩ := Array.mem_iff_getElem?.mp hblock
      obtain ⟨file, hfile, hlt⟩ := hs.admits i n ⟨position, index⟩
        ⟨func, block, hposition, hindex, hplace⟩
      have hne : n ≠ 0 := ne_zero_of_mem_associationsFrom hplace
      exact ⟨file, hfile, Nat.one_le_iff_ne_zero.mpr hne, hlt⟩
    collects := hcollects
    counts := by
      refine ⟨fun hfail => ?_, hs.accumulateCounts_error⟩
      by_contra hnone
      rw [hs.accumulateCounts_ok hnone] at hfail
      cases hfail
    counts_otherwise := hs.accumulateCounts_ok
    collects_counts :=
      ((run commands).collectLines_keeps.sound hs).accumulateCounts_ok hroom }

/-- Before lines are collected there is no room for any of them. -/
example : (run [.readNotes samplePlan.notes]).accumulateCounts.result = .error .outOfRange := by
  decide +kernel

end Session

end Coverage
