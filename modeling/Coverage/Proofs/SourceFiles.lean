import Coverage.Source
import Mathlib.Data.List.Induction
import Mathlib.Data.List.Nodup
import Mathlib.Tactic.Common

/-!
# The registry of source files

A registry only grows: positions keep their files, and files keep their names and every line that
they once admitted (`Registry.Extends`).  Names are listed in the order in which they are first
named, without repetition (`enlist`), so that a place in the registry stands for a line of a
source of a certain name (`Registry.Locates`) once and for all.
-/

namespace Coverage

/-! ## Lists in order of first mention -/

section Enlist

variable {α : Type} [DecidableEq α]

/-- Puts an element last, unless it is listed already. -/
def enlist (listed : List α) (a : α) : List α :=
  if a ∈ listed then listed else listed ++ [a]

theorem nodup_enlist {listed : List α} (h : listed.Nodup) (a : α) : (enlist listed a).Nodup := by
  unfold enlist
  split
  · exact h
  · next ha => exact h.append (List.nodup_singleton _) (by simpa using ha)

@[simp] theorem mem_enlist {listed : List α} {a b : α} :
    b ∈ enlist listed a ↔ b ∈ listed ∨ b = a := by
  unfold enlist
  split
  · next ha =>
    constructor
    · exact .inl
    · rintro (h | rfl)
      · exact h
      · exact ha
  · simp

theorem nodup_foldl_enlist {listed : List α} (h : listed.Nodup) (more : List α) :
    (more.foldl enlist listed).Nodup := by
  induction more generalizing listed with
  | nil => exact h
  | cons a more ih => exact ih (nodup_enlist h a)

theorem foldl_enlist_eq (listed more : List α) :
    more.foldl enlist listed = listed ++ (more.filter (· ∉ listed)).eraseDups := by
  induction more generalizing listed with
  | nil => simp
  | cons a more ih =>
    rw [List.foldl_cons, ih, enlist]
    split
    · next ha => simp [ha]
    · next ha =>
      have hfilter : (more.filter (· ∉ listed ++ [a]))
          = (more.filter (· ∉ listed)).filter fun b => !b == a := by
        rw [List.filter_filter]
        congr 1
        funext b
        by_cases h₁ : b ∈ listed <;> by_cases h₂ : b = a <;> simp [h₁, h₂]
      rw [List.filter_cons_of_pos (by simpa using ha), List.eraseDups_cons, hfilter,
        List.append_assoc]
      rfl

/-- From nothing on, enlisting leaves each element where it is first mentioned. -/
theorem foldl_enlist_nil (mentioned : List α) :
    mentioned.foldl enlist [] = mentioned.eraseDups := by
  rw [foldl_enlist_eq]
  simp

theorem mem_foldl_enlist {listed more : List α} {a : α} :
    a ∈ more.foldl enlist listed ↔ a ∈ listed ∨ a ∈ more := by
  induction more generalizing listed with
  | nil => simp
  | cons b more ih => rw [List.foldl_cons, ih, mem_enlist, List.mem_cons, or_assoc]

/-- Enlisting what was enlisted before from nothing on is enlisting what was mentioned. -/
theorem foldl_enlist_foldl (listed mentioned : List α) :
    (mentioned.foldl enlist []).foldl enlist listed = mentioned.foldl enlist listed := by
  induction mentioned using List.reverseRecOn with
  | nil => rfl
  | append_singleton mentioned a ih =>
    rw [List.foldl_append, List.foldl_append, List.foldl_cons, List.foldl_nil, List.foldl_cons,
      List.foldl_nil]
    by_cases ha : a ∈ mentioned
    · rw [enlist, enlist, if_pos (mem_foldl_enlist.mpr (.inr ha)),
        if_pos (mem_foldl_enlist.mpr (.inr ha)), ih]
    · have hnot : a ∉ mentioned.foldl enlist [] := by
        rw [mem_foldl_enlist]
        simpa using ha
      rw [enlist, if_neg hnot, List.foldl_append, ih, List.foldl_cons, List.foldl_nil]

end Enlist

/-- A change to one element that does not show under `g`. -/
theorem map_modify_of_eq {α β : Type} {f : α → α} {g : α → β} (h : ∀ a, g (f a) = g a)
    (items : Array α) (index : Nat) : (items.modify index f).map g = items.map g := by
  apply Array.ext_getElem?
  intro i
  rw [Array.getElem?_map, Array.getElem?_map, Array.getElem?_modify]
  split
  · rw [Option.map_map]
    exact congrArg (fun k => (items[i]?).map k) (funext h)
  · rfl

namespace Registry

variable {r r' r'' : Registry}

/-- The names of the files. -/
def names (r : Registry) : List String :=
  r.files.toList.map (·.name)

theorem names_getElem? (r : Registry) (i : Nat) :
    r.names[i]? = (r.files[i]?).map (·.name) := by
  simp [names]

/-! ## Growing -/

/-- `r.Extends r'`: the files of `r` are in their places in `r'`, and admit no fewer lines. -/
def Extends (r r' : Registry) : Prop :=
  ∀ (i : Nat) (file : SourceFile), r.files[i]? = some file →
    ∃ file', r'.files[i]? = some file' ∧ file'.name = file.name
      ∧ file.lineCount ≤ file'.lineCount

theorem Extends.refl (r : Registry) : r.Extends r :=
  fun _ file h => ⟨file, h, rfl, Nat.le_refl _⟩

theorem Extends.trans (h : r.Extends r') (h' : r'.Extends r'') : r.Extends r'' := by
  intro i file hfile
  obtain ⟨file', hfile', hname, hcount⟩ := h i file hfile
  obtain ⟨file'', hfile'', hname', hcount'⟩ := h' i file' hfile'
  exact ⟨file'', hfile'', hname'.trans hname, Nat.le_trans hcount hcount'⟩

/-! ## Places -/

/-- `r.Locates place named`: the position and the line of `place` stand for the line `named.2` of
the source `named.1`, and the source admits that line. -/
def Locates (r : Registry) (place : Nat × Nat) (named : String × Nat) : Prop :=
  ∃ file, r.files[place.1]? = some file ∧ file.name = named.1 ∧ place.2 = named.2
    ∧ place.2 < file.lineCount

theorem Locates.mono {place : Nat × Nat} {named : String × Nat} (h : r.Locates place named)
    (hr : r.Extends r') : r'.Locates place named := by
  obtain ⟨file, hfile, hname, hline, hlt⟩ := h
  obtain ⟨file', hfile', hname', hcount⟩ := hr _ _ hfile
  exact ⟨file', hfile', hname'.trans hname, hline, Nat.lt_of_lt_of_le hlt hcount⟩

/-- Places that are located have the names and lines that they are located by. -/
theorem map_names_of_locates {places : List (Nat × Nat)} {named : List (String × Nat)}
    (h : List.Forall₂ r.Locates places named) :
    places.map (fun place => (r.names[place.1]?, place.2))
      = named.map fun entry => (some entry.1, entry.2) := by
  induction h with
  | nil => rfl
  | cons hplace _ ih =>
    obtain ⟨file, hfile, hname, hline, -⟩ := hplace
    rw [List.map_cons, List.map_cons, ih, names_getElem?, hfile, Option.map_some, hname, hline]

/-- A place in the registry is a line of a source. -/
theorem Locates.eq_iff (hnames : r.names.Nodup) {place : Nat × Nat} {named : String × Nat}
    (h : r.Locates place named) {i n : Nat} {file : String} (hfile : r.names[i]? = some file) :
    place = (i, n) ↔ named = (file, n) := by
  obtain ⟨f, hf, hname, hline, -⟩ := h
  have hget : r.names[place.1]? = some named.1 := by
    rw [names_getElem?, hf, Option.map_some, hname]
  constructor
  · rintro rfl
    exact Prod.ext (Option.some.inj (hget.symm.trans hfile)) hline.symm
  · rintro rfl
    refine Prod.ext ?_ hline
    exact (List.getElem?_inj (List.getElem?_eq_some_iff.mp hget).1 hnames).mp
      (hget.trans hfile.symm)

/-- A place is met as often as the line that it stands for. -/
theorem count_of_locates (hnames : r.names.Nodup) {places : List (Nat × Nat)}
    {named : List (String × Nat)} (h : List.Forall₂ r.Locates places named) {i n : Nat}
    {file : String} (hfile : r.names[i]? = some file) :
    places.count (i, n) = named.count (file, n) := by
  induction h with
  | nil => rfl
  | cons hplace _ ih =>
    rw [List.count_cons, List.count_cons, ih]
    simp only [beq_iff_eq, hplace.eq_iff hnames hfile]

/-! ## Changing a file -/

theorem files_mapFile (r : Registry) (index : Nat) (f : SourceFile → SourceFile) (i : Nat) :
    (r.mapFile index f).files[i]? = if index = i then (r.files[i]?).map f else r.files[i]? := by
  rw [mapFile, Array.getElem?_modify]

theorem extends_mapFile {f : SourceFile → SourceFile} (r : Registry) (index : Nat)
    (hname : ∀ file, (f file).name = file.name)
    (hcount : ∀ file, file.lineCount ≤ (f file).lineCount) : r.Extends (r.mapFile index f) := by
  intro i file hfile
  rw [files_mapFile, hfile]
  split
  · exact ⟨f file, rfl, hname file, hcount file⟩
  · exact ⟨file, rfl, rfl, Nat.le_refl _⟩

theorem names_mapFile {f : SourceFile → SourceFile} (r : Registry) (index : Nat)
    (hname : ∀ file, (f file).name = file.name) : (r.mapFile index f).names = r.names := by
  have hmap := map_modify_of_eq hname r.files index
  rw [names, names, ← Array.toList_map, ← Array.toList_map]
  exact congrArg Array.toList hmap

/-! ## Finding or adding a file -/

theorem indexOf?_eq_none {name : String} : r.indexOf? name = none ↔ name ∉ r.names := by
  simp only [indexOf?, List.findIdx?_eq_none_iff, names, List.mem_map, beq_eq_false_iff_ne]
  push Not
  rfl

theorem exists_of_indexOf? {name : String} {i : Nat} (h : r.indexOf? name = some i) :
    ∃ file, r.files[i]? = some file ∧ file.name = name := by
  obtain ⟨hlt, hname, -⟩ := List.findIdx?_eq_some_iff_getElem.mp h
  refine ⟨r.files.toList[i], ?_, by simpa using hname⟩
  rw [← Array.getElem?_toList, List.getElem?_eq_getElem hlt]

theorem files_findOrAdd (r : Registry) (name : String) :
    ∃ file, (r.findOrAdd name).2.files[(r.findOrAdd name).1]? = some file ∧ file.name = name := by
  unfold findOrAdd
  split
  · next i hi => exact exists_of_indexOf? hi
  · exact ⟨_, Array.getElem?_push_size, rfl⟩

theorem extends_findOrAdd (r : Registry) (name : String) : r.Extends (r.findOrAdd name).2 := by
  unfold findOrAdd
  split
  · exact .refl r
  · intro i file hfile
    have hlt := (Array.getElem?_eq_some_iff.mp hfile).1
    refine ⟨file, ?_, rfl, Nat.le_refl _⟩
    rwa [Array.getElem?_push, if_neg (by omega)]

theorem names_findOrAdd (r : Registry) (name : String) :
    (r.findOrAdd name).2.names = enlist r.names name := by
  unfold findOrAdd enlist
  split
  · next i hi =>
    obtain ⟨file, hfile, rfl⟩ := exists_of_indexOf? hi
    rw [if_pos]
    refine List.mem_map_of_mem ?_
    exact Array.mem_toList_iff.mpr (Array.mem_of_getElem? hfile)
  · next hi =>
    rw [if_neg (indexOf?_eq_none.mp hi)]
    simp [names]

/-! ## Naming sources and functions -/

theorem lineCount_extendTo (file : SourceFile) (line : Int) :
    file.lineCount ≤ (file.extendTo line).lineCount :=
  Nat.le_max_left _ _

theorem lt_lineCount_extendTo (file : SourceFile) (line : Nat) :
    line < (file.extendTo line).lineCount := by
  simp only [SourceFile.extendTo]
  omega

@[simp] theorem name_addFunction (file : SourceFile) (func : FuncRef) :
    (file.addFunction func).name = file.name := by
  unfold SourceFile.addFunction
  split <;> rfl

@[simp] theorem lineCount_addFunction (file : SourceFile) (func : FuncRef) :
    (file.addFunction func).lineCount = file.lineCount := by
  unfold SourceFile.addFunction
  split <;> rfl

theorem extends_addFunc (r : Registry) (func : Func) : r.Extends (r.addFunc func).2 := by
  have hmap := extends_mapFile (r.findOrAdd func.source).2 (r.findOrAdd func.source).1
    (f := fun file => (file.extendTo func.firstLine).addFunction
      { func with serial := r.issued }.ref)
    (fun _ => name_addFunction _ _)
    (fun file => by
      rw [lineCount_addFunction]
      exact lineCount_extendTo file _)
  exact (extends_findOrAdd r func.source).trans hmap

theorem names_addFunc (r : Registry) (func : Func) :
    (r.addFunc func).2.names = enlist r.names func.source := by
  have hmap := names_mapFile (r.findOrAdd func.source).2 (r.findOrAdd func.source).1
    (f := fun file => (file.extendTo func.firstLine).addFunction
      { func with serial := r.issued }.ref)
    (fun _ => name_addFunction _ _)
  exact hmap.trans (names_findOrAdd r func.source)

/-- A file that admits a line, once it was made to. -/
theorem locates_mapFile_extendTo {r : Registry} {index : Nat} {file : SourceFile}
    (hfile : r.files[index]? = some file) (line : Nat) :
    (r.mapFile index (·.extendTo line)).Locates (index, line) (file.name, line) := by
  refine ⟨file.extendTo line, ?_, rfl, rfl, lt_lineCount_extendTo file line⟩
  rw [files_mapFile, if_pos rfl, hfile, Option.map_some]

end Registry

end Coverage
