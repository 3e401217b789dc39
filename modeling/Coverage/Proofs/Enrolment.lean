import Coverage.Proofs.Steps

/-!
# Functions that files list

A registry knows its files by position, and each function by the one file that the function names.
`Registry.Ordered` is what holds of every registry that was ever decoded onto, and
`Registry.Enrolled` adds the functions: each is listed by the file of its source, once, and by no
other.  Both are kept by all that a decoder does, and so by the decoding of any bytes, whether it
ends well or not (`Notes.decode_enrolled`).
-/

namespace Coverage

/-! ## Registries in order -/

namespace Registry

variable {r r' : Registry}

/-- Files know their positions and have names of their own; functions are numbered as they come. -/
structure Ordered (r : Registry) : Prop where
  index : ∀ (i : Nat) (file : SourceFile), r.files[i]? = some file → file.index = i
  names : r.names.Nodup
  issued : ∀ (i : Nat) (file : SourceFile), r.files[i]? = some file →
    ∀ ref ∈ file.functions, ref.serial < r.issued

/-- `r.Enrols func`: the function is listed by the file of its source, once, and by no other. -/
structure Enrols (r : Registry) (func : Func) : Prop where
  serial : func.serial < r.issued
  source : func.source ∈ r.names
  count : ∀ (i : Nat) (file : SourceFile), r.files[i]? = some file →
    file.functions.count func.ref = if file.name = func.source then 1 else 0

/-- What files are called, where they stand and which functions they list. -/
def entries (r : Registry) : List (String × Nat × List FuncRef) :=
  r.files.toList.map fun file => (file.name, file.index, file.functions)

theorem ordered_empty : Ordered {} where
  index i file hfile := by simp at hfile
  names := List.nodup_nil
  issued i file hfile := by simp at hfile

theorem names_of_entries (h : r'.entries = r.entries) : r'.names = r.names := by
  have hmap : ∀ r : Registry, r.names = r.entries.map (·.1) := by
    intro r
    rw [entries, List.map_map]
    rfl
  rw [hmap, hmap, h]

theorem exists_of_entries (h : r'.entries = r.entries) {i : Nat} {file' : SourceFile}
    (hfile' : r'.files[i]? = some file') :
    ∃ file, r.files[i]? = some file ∧ file'.name = file.name ∧ file'.index = file.index
      ∧ file'.functions = file.functions := by
  have hget : r.entries[i]? = some (file'.name, file'.index, file'.functions) := by
    rw [← h, entries, List.getElem?_map, Array.getElem?_toList, hfile', Option.map_some]
  rw [entries, List.getElem?_map, Array.getElem?_toList] at hget
  obtain ⟨file, hfile, hentry⟩ := Option.map_eq_some_iff.mp hget
  simp only [Prod.mk.injEq] at hentry
  obtain ⟨hname, hindex, hfunctions⟩ := hentry
  exact ⟨file, hfile, hname.symm, hindex.symm, hfunctions.symm⟩

theorem Ordered.of_entries (hr : r.Ordered) (h : r'.entries = r.entries)
    (hissued : r'.issued = r.issued) : r'.Ordered where
  index i file' hfile' := by
    obtain ⟨file, hfile, -, hindex, -⟩ := exists_of_entries h hfile'
    rw [hindex]
    exact hr.index i file hfile
  names := by
    rw [names_of_entries h]
    exact hr.names
  issued i file' hfile' ref href := by
    obtain ⟨file, hfile, -, -, hfunctions⟩ := exists_of_entries h hfile'
    rw [hfunctions] at href
    rw [hissued]
    exact hr.issued i file hfile ref href

theorem Enrols.of_entries {func : Func} (hfunc : r.Enrols func) (h : r'.entries = r.entries)
    (hissued : r'.issued = r.issued) : r'.Enrols func where
  serial := by
    rw [hissued]
    exact hfunc.serial
  source := by
    rw [names_of_entries h]
    exact hfunc.source
  count i file' hfile' := by
    obtain ⟨file, hfile, hname, -, hfunctions⟩ := exists_of_entries h hfile'
    rw [hfunctions, hname]
    exact hfunc.count i file hfile

/-- Changing the lines of a file changes no entry. -/
theorem entries_mapFile (r : Registry) (index : Nat) {f : SourceFile → SourceFile}
    (hf : ∀ file, ((f file).name, (f file).index, (f file).functions)
      = (file.name, file.index, file.functions)) : (r.mapFile index f).entries = r.entries := by
  have hmap := map_modify_of_eq (g := fun file => (file.name, file.index, file.functions)) hf
    r.files index
  rw [entries, entries, ← Array.toList_map, ← Array.toList_map]
  exact congrArg Array.toList hmap

/-! ## Finding or adding a file -/

/-- A file is one that was there, or a new one in the last place that lists nothing. -/
theorem exists_of_findOrAdd {name : String} {i : Nat} {file : SourceFile}
    (hfile : (r.findOrAdd name).2.files[i]? = some file) :
    r.files[i]? = some file
      ∨ name ∉ r.names ∧ file.name = name ∧ file.index = i ∧ file.functions = [] := by
  unfold findOrAdd at hfile
  split at hfile
  · exact .inl hfile
  · next hnone =>
    rw [Array.getElem?_push] at hfile
    split at hfile
    · next hi =>
      cases hfile
      exact .inr ⟨indexOf?_eq_none.mp hnone, rfl, hi.symm, rfl⟩
    · exact .inl hfile

@[simp] theorem issued_findOrAdd (r : Registry) (name : String) :
    (r.findOrAdd name).2.issued = r.issued := by
  unfold findOrAdd
  split <;> rfl

theorem Ordered.findOrAdd (hr : r.Ordered) (name : String) : (r.findOrAdd name).2.Ordered where
  index i file hfile := by
    rcases exists_of_findOrAdd hfile with hold | ⟨-, -, hindex, -⟩
    · exact hr.index i file hold
    · exact hindex
  names := by
    rw [names_findOrAdd]
    exact nodup_enlist hr.names name
  issued i file hfile ref href := by
    rw [issued_findOrAdd]
    rcases exists_of_findOrAdd hfile with hold | ⟨-, -, -, hnone⟩
    · exact hr.issued i file hold ref href
    · rw [hnone] at href
      cases href

theorem Enrols.findOrAdd {func : Func} (hfunc : r.Enrols func) (name : String) :
    (r.findOrAdd name).2.Enrols func where
  serial := by
    rw [issued_findOrAdd]
    exact hfunc.serial
  source := by
    rw [names_findOrAdd, mem_enlist]
    exact .inl hfunc.source
  count i file hfile := by
    rcases exists_of_findOrAdd hfile with hold | ⟨hnew, hname, -, hnone⟩
    · exact hfunc.count i file hold
    · have hother : file.name ≠ func.source := by
        intro hsame
        apply hnew
        rw [← hname, hsame]
        exact hfunc.source
      rw [hnone, if_neg hother, List.count_nil]

/-! ## Registering a function -/

@[simp] theorem index_addFunction (file : SourceFile) (func : FuncRef) :
    (file.addFunction func).index = file.index := by
  unfold SourceFile.addFunction
  split <;> rfl

theorem functions_addFunction (file : SourceFile) (func : FuncRef) :
    (file.addFunction func).functions = enlist file.functions func := by
  unfold SourceFile.addFunction enlist
  split <;> rfl

/-- Whoever has a name stands where the name is found. -/
theorem Ordered.eq_of_name (hr : r.Ordered) {i j : Nat} {file other : SourceFile}
    (hfile : r.files[i]? = some file) (hother : r.files[j]? = some other)
    (hname : file.name = other.name) : i = j := by
  have hi : r.names[i]? = some file.name := by rw [names_getElem?, hfile, Option.map_some]
  have hj : r.names[j]? = some file.name := by rw [names_getElem?, hother, Option.map_some, hname]
  exact (List.getElem?_inj (List.getElem?_eq_some_iff.mp hi).1 hr.names).mp (hi.trans hj.symm)

theorem Ordered.serial_lt (hr : r.Ordered) {name : String} {i : Nat} {file : SourceFile}
    (hfile : (r.findOrAdd name).2.files[i]? = some file) {ref : FuncRef}
    (href : ref ∈ file.functions) : ref.serial < r.issued := by
  have hlt := (hr.findOrAdd name).issued i file hfile ref href
  rwa [issued_findOrAdd] at hlt

/-- No file lists a function before the function is registered. -/
theorem Ordered.not_listed (hr : r.Ordered) (func : Func) {i : Nat} {file : SourceFile}
    (hfile : (r.findOrAdd func.source).2.files[i]? = some file) :
    (r.addFunc func).1.ref ∉ file.functions := by
  intro hlisted
  have hlt : r.issued < r.issued := hr.serial_lt hfile hlisted
  exact Nat.lt_irrefl _ hlt

/-- Registering a function changes the file of its source. -/
theorem files_addFunc (r : Registry) (func : Func) :
    (r.addFunc func).2.files
      = ((r.findOrAdd func.source).2.mapFile (r.findOrAdd func.source).1 fun file =>
          (file.extendTo func.firstLine).addFunction (r.addFunc func).1.ref).files := rfl

/-- The file of the source of a function lists the function, behind those that it listed; all other
files are as they were. -/
theorem Ordered.exists_of_addFunc (hr : r.Ordered) (func : Func) {i : Nat} {file' : SourceFile}
    (hfile' : (r.addFunc func).2.files[i]? = some file') :
    ∃ file, (r.findOrAdd func.source).2.files[i]? = some file ∧ file'.name = file.name
      ∧ file'.index = file.index
      ∧ file'.functions = if file.name = func.source then
          file.functions ++ [(r.addFunc func).1.ref] else file.functions := by
  have hfound := hr.findOrAdd func.source
  obtain ⟨own, hown, hname⟩ := files_findOrAdd r func.source
  rw [files_addFunc, files_mapFile] at hfile'
  split at hfile'
  · next hi =>
    subst hi
    rw [hown, Option.map_some] at hfile'
    cases hfile'
    refine ⟨own, hown, name_addFunction _ _, index_addFunction _ _, ?_⟩
    rw [if_pos hname, functions_addFunction]
    exact if_neg (hr.not_listed func hown)
  · next hi =>
    refine ⟨file', hfile', rfl, rfl, ?_⟩
    rw [if_neg]
    intro hsame
    exact hi (hfound.eq_of_name hown hfile' (hname.trans hsame.symm))

theorem issued_addFunc (r : Registry) (func : Func) :
    (r.addFunc func).2.issued = r.issued + 1 := by
  show (r.findOrAdd func.source).2.issued + 1 = r.issued + 1
  rw [issued_findOrAdd]

theorem Ordered.addFunc (hr : r.Ordered) (func : Func) : (r.addFunc func).2.Ordered where
  index i file' hfile' := by
    obtain ⟨file, hfile, -, hindex, -⟩ := hr.exists_of_addFunc func hfile'
    rw [hindex]
    exact (hr.findOrAdd func.source).index i file hfile
  names := by
    rw [names_addFunc]
    exact nodup_enlist hr.names func.source
  issued i file' hfile' ref href := by
    obtain ⟨file, hfile, -, -, hfunctions⟩ := hr.exists_of_addFunc func hfile'
    rw [issued_addFunc]
    rw [hfunctions] at href
    split at href
    · rcases List.mem_append.mp href with hmem | hmem
      · exact Nat.lt_succ_of_lt (hr.serial_lt hfile hmem)
      · rw [List.mem_singleton.mp hmem]
        exact Nat.lt_succ_self _
    · exact Nat.lt_succ_of_lt (hr.serial_lt hfile href)

/-- Functions stay enrolled when another is registered. -/
theorem Enrols.addFunc (hr : r.Ordered) {func : Func} (hfunc : r.Enrols func) (other : Func) :
    (r.addFunc other).2.Enrols func where
  serial := by
    rw [issued_addFunc]
    exact Nat.lt_succ_of_lt hfunc.serial
  source := by
    rw [names_addFunc, mem_enlist]
    exact .inl hfunc.source
  count i file' hfile' := by
    obtain ⟨file, hfile, hname, -, hfunctions⟩ := hr.exists_of_addFunc other hfile'
    have hne : (r.addFunc other).1.ref ≠ func.ref := by
      intro hsame
      have hserial : r.issued = func.serial := congrArg FuncRef.serial hsame
      exact Nat.ne_of_gt hfunc.serial hserial
    rw [hname, ← (hfunc.findOrAdd other.source).count i file hfile, hfunctions]
    split
    · rw [List.count_append, List.count_singleton, if_neg (by simpa using hne), Nat.add_zero]
    · rfl

/-- The function that is registered is enrolled then. -/
theorem Ordered.enrols_addFunc (hr : r.Ordered) (func : Func) :
    (r.addFunc func).2.Enrols (r.addFunc func).1 where
  serial := by
    rw [issued_addFunc]
    exact Nat.lt_succ_self _
  source := by
    rw [names_addFunc, mem_enlist]
    exact .inr rfl
  count i file' hfile' := by
    obtain ⟨file, hfile, hname, -, hfunctions⟩ := hr.exists_of_addFunc func hfile'
    have hnone : file.functions.count (r.addFunc func).1.ref = 0 :=
      List.count_eq_zero_of_not_mem (hr.not_listed func hfile)
    rw [hname, hfunctions]
    show _ = if file.name = func.source then 1 else 0
    split
    · rw [List.count_append, hnone, List.count_singleton_self]
    · exact hnone

/-! ## Lists of functions -/

/-- All of these functions are enrolled, and no two of them are the same. -/
structure Enrolled (r : Registry) (functions : List Func) : Prop where
  ordered : r.Ordered
  enrols : ∀ func ∈ functions, r.Enrols func
  serials : (functions.map (·.serial)).Nodup

namespace Enrolled

variable {functions functions' : List Func}

theorem nil (hr : r.Ordered) : r.Enrolled [] where
  ordered := hr
  enrols func hfunc := by cases hfunc
  serials := List.nodup_nil

/-- Registries whose entries agree have the same functions enrolled. -/
theorem of_entries (hr : r.Enrolled functions) (h : r'.entries = r.entries)
    (hissued : r'.issued = r.issued) : r'.Enrolled functions where
  ordered := hr.ordered.of_entries h hissued
  enrols func hfunc := (hr.enrols func hfunc).of_entries h hissued
  serials := hr.serials

/-- Functions that are listed in the same way by the same files are enrolled alike. -/
theorem of_refs (hr : r.Enrolled functions)
    (h : functions'.map (fun func => (func.ref, func.source))
      = functions.map fun func => (func.ref, func.source)) : r.Enrolled functions' where
  ordered := hr.ordered
  enrols func' hfunc' := by
    have hmem := List.mem_map_of_mem (f := fun func : Func => (func.ref, func.source)) hfunc'
    rw [h] at hmem
    obtain ⟨func, hfunc, hsame⟩ := List.mem_map.mp hmem
    obtain ⟨href, hsource⟩ := Prod.mk.inj hsame
    have hold := hr.enrols func hfunc
    have hserial : func.serial = func'.serial := congrArg FuncRef.serial href
    refine ⟨hserial ▸ hold.serial, hsource ▸ hold.source, fun i file hfile => ?_⟩
    rw [← href, ← hsource]
    exact hold.count i file hfile
  serials := by
    have hmap : ∀ functions : List Func, functions.map (·.serial)
        = (functions.map fun func => (func.ref, func.source)).map (·.1.serial) := by
      intro functions
      rw [List.map_map]
      rfl
    rw [hmap, h, ← hmap]
    exact hr.serials

theorem left (h : r.Enrolled (functions ++ functions')) : r.Enrolled functions where
  ordered := h.ordered
  enrols func hfunc := h.enrols func (List.mem_append_left _ hfunc)
  serials := by
    have hserials := h.serials
    rw [List.map_append] at hserials
    exact hserials.of_append_left

theorem findOrAdd (h : r.Enrolled functions) (name : String) :
    (r.findOrAdd name).2.Enrolled functions where
  ordered := h.ordered.findOrAdd name
  enrols func hfunc := (h.enrols func hfunc).findOrAdd name
  serials := h.serials

/-- Registers one more function. -/
theorem addFunc (h : r.Enrolled functions) (func : Func) :
    (r.addFunc func).2.Enrolled (functions ++ [(r.addFunc func).1]) where
  ordered := h.ordered.addFunc func
  enrols other hother := by
    rcases List.mem_append.mp hother with hold | hnew
    · exact (h.enrols other hold).addFunc h.ordered func
    · rw [List.mem_singleton.mp hnew]
      exact h.ordered.enrols_addFunc func
  serials := by
    rw [List.map_append]
    refine h.serials.append (List.nodup_singleton _) ?_
    intro serial hserial hnew
    obtain ⟨other, hother, rfl⟩ := List.mem_map.mp hserial
    have hlt := (h.enrols other hother).serial
    rw [List.map_singleton, List.mem_singleton] at hnew
    have hsame : other.serial = r.issued := hnew
    omega

end Enrolled

end Registry

/-! ## Decoding -/

namespace Notes

open Scanner

variable {s t : State} {older : List Func}

/-- What a step does keeps functions enrolled, those that were decoded before included. -/
theorem Change.enrolled (h : Change s t) (hs : s.registry.Enrolled (older ++ s.functions)) :
    t.registry.Enrolled (older ++ t.functions) := by
  have hcurrent : ∀ (func func' : Func), s.current = some func → func'.ref = func.ref →
      func'.source = func.source → s.registry.Enrolled (older ++ (s.finished ++ [func'])) := by
    intro func func' hfunc href hsource
    refine hs.of_refs ?_
    rw [functions_of_current hfunc]
    simp only [List.map_append, List.map_cons, List.map_nil, href, hsource]
  cases h with
  | move => exact hs
  | openFunction header _ =>
    have hadd := hs.addFunc header
    rw [List.append_assoc] at hadd
    exact hadd
  | setBlocks func count hfunc => exact hcurrent func _ hfunc rfl rfl
  | linkArc func src dst flags mode hfunc _ => exact hcurrent func _ hfunc rfl rfl
  | nameSource name => exact hs.findOrAdd name
  | emitLine func block source line emitted hfunc _ _ =>
    have hadd := hcurrent func (addLine func block source line emitted) hfunc rfl rfl
    refine hadd.of_entries ?_ rfl
    exact Registry.entries_mapFile _ _ fun _ => rfl

/-- What a decoder leaves: the functions from before are enrolled as they were, and so are those
that are returned. -/
structure Enlists (older : List Func) (w : Result) : Prop where
  before : w.state.Enrolled older
  all : ∀ functions, w.result = .ok functions → w.state.Enrolled (older ++ functions)

theorem decodeRecords_enlists {r : Registry} (hr : r.Enrolled older) (version : Nat)
    (cursor : Cursor) : Enlists older (decodeRecords r version cursor) := by
  have hfirst : ∀ s, (step s).Leaves (Change s) fun w =>
      s.registry.Enrolled (older ++ s.functions) → Enlists older w := by
    intro s
    obtain ⟨hnext, hstop⟩ := step_leaves s
    refine ⟨hnext, fun c w hw hs => ?_⟩
    cases hstop c w hw with
    | close => exact ⟨hs.left, by rintro _ ⟨⟩; exact hs⟩
    | refuse error _ => exact ⟨hs.left, by rintro _ ⟨⟩⟩
  refine run_of_leaves hfirst ?_ _ ?_
  · intro s t w hchange hw hs
    exact hw (hchange.enrolled hs)
  · show r.Enrolled (older ++ [])
    rw [List.append_nil]
    exact hr

/-- Whatever the bytes are, functions stay enrolled, and those that are returned join them. -/
theorem decode_enlists {r : Registry} (hr : r.Enrolled older) (bytes : Bytes) :
    Enlists older (decode r bytes) := by
  rcases decode_cases r bytes with ⟨hstate, hnone⟩ | ⟨version, cursor, hstate, hresult⟩
  · constructor
    · rw [hstate]
      exact hr
    · intro functions hfunctions
      rw [hnone functions hfunctions, List.append_nil, hstate]
      exact hr
  · obtain ⟨hbefore, hall⟩ := decodeRecords_enlists hr version cursor
    constructor
    · rw [hstate]
      exact hbefore
    · intro functions hfunctions
      rw [hstate]
      exact hall functions (hresult.symm.trans hfunctions)

end Notes

end Coverage
