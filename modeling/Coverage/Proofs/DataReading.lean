import Coverage.Proofs.MeasuredExits
import Coverage.Proofs.Records
import Mathlib.Algebra.Ring.Int.Defs

/-!
# Data files are read as they were written

The records of a data file, one after another: the record of a function selects the function with
its ident, and the record of counters that follows gives its measured arcs their counters.
Records tell where they end; a record that was written ends where it was read to.
-/

namespace Coverage

/-- The number of values of a counter. -/
def counterRange : Nat := wordRange * wordRange

/-- The counter that is stored for a count. -/
def storedCount (count : Int) : Nat :=
  (count % (counterRange : Nat)).toNat

theorem Cursor.takes_storedCount {order : ByteOrder} {offset : Nat} (count : Int) :
    counter.Takes order offset (Writer.counter order count) (storedCount count) := by
  have hrange : ((counterRange : Nat) : Int) = wordRange * wordRange := rfl
  rw [storedCount, hrange]
  exact takes_counter count

/-- A count is stored as far as a counter can hold it. -/
theorem natCast_storedCount (count : Int) : (storedCount count : Int) = count % 2 ^ 64 := by
  have hrange : ((counterRange : Nat) : Int) = 2 ^ 64 := by decide
  rw [storedCount, hrange]
  omega

namespace Counters

open Writer

variable {order : ByteOrder} {offset fin : Nat} {s t : State} {bytes bytes' : Bytes}
  {Q : List Func → Prop}

theorem carriesIn_of_passes (hQ : Q s.functions) (h : (step s).Passes order offset bytes t) :
    machine.CarriesIn (fun u => Q u.functions) order offset bytes s t :=
  Machine.carriesIn_of_passes hQ h

/-- Reading, in a step. -/
theorem passes_read {α : Type} {action : Read α} {a : α} {use : α → Step}
    (h : action.Takes order offset bytes a)
    (huse : (use a).Passes order (offset + bytes.length) bytes' t) :
    (s.read action use).Passes order offset (bytes ++ bytes') t :=
  Scanner.passes_read h huse

/-- A read that ends a step. -/
theorem passes_read_goOn {α : Type} {action : Read α} {a : α} {use : α → Step}
    (h : action.Takes order offset bytes a) (huse : use a = t.goOn) :
    (s.read action use).Passes order offset bytes t :=
  Scanner.passes_read_goOn h huse

/-- A file of which the header is all there is decoded record by record. -/
theorem decode_of_records (functions : List Func) {bytes : Bytes} {version : Nat}
    {cursor : Cursor} (h : records? .data bytes = some (version, cursor)) :
    ∃ log, decode functions bytes = { decodeRecords functions version cursor with log } := by
  obtain ⟨c, hopen, hversion⟩ := exists_of_records? h
  simp only [decode, hopen, hversion]
  exact ⟨_, rfl⟩

/-- A file that ends in its header leaves the functions as they are. -/
theorem decode_of_no_records (functions : List Func) {bytes : Bytes}
    (h : records? .data bytes = none) : (decode functions bytes).state = functions := by
  cases hopen : openFile .data bytes with
  | error error =>
    rw [decode, hopen]
    rfl
  | ok cursor =>
    cases hversion : readVersion.run cursor with
    | error e c => simp only [decode, hopen, hversion]
    | ok version c =>
      rw [records?_eq_some hopen hversion] at h
      cases h

theorem step_end (hmode : s.mode = .between) :
    machine.step { cursor := { rest := [], offset, order }, state := s } = .stop s.close := by
  show step s _ = _
  rw [step, hmode]
  rfl

theorem run_end (hmode : s.mode = .between) :
    machine.run { cursor := { rest := [], offset, order }, state := s } = s.close :=
  Machine.run_of_stop _ (step_end hmode)

/-! ## Frames -/

/-- The length of a record shows where it ends. -/
theorem readFrame_takes_of_length (h : bytes.length = wordSize) :
    readFrame.Takes order offset bytes
      (order.toNat bytes, offset + wordSize + order.toNat bytes * wordSize) := by
  have hframe : Read.Takes (Cursor.word >>= fun length => do
      let cursor ← get
      return (length, cursor.offset + length * wordSize)) order offset (bytes ++ [])
      (order.toNat bytes, offset + wordSize + order.toNat bytes * wordSize) :=
    (Cursor.takes_word_of_length h).bind (Read.takes_get fun _ => by
      rw [h]
      rfl)
  rwa [List.append_nil] at hframe

theorem readFrame_takes {length : Nat} (hlt : length < wordRange) :
    readFrame.Takes order offset (word order length)
      (length, offset + wordSize + length * wordSize) := by
  have htakes : readFrame.Takes order offset (word order length) _ :=
    readFrame_takes_of_length (length_word order length)
  rwa [toNat_word_of_lt order hlt] at htakes

/-- A record is left where it ends. -/
theorem passes_leave (h : offset + bytes.length = fin) :
    (s.leave fin).Passes order offset bytes { s with mode := .between } :=
  passes_read_goOn (Cursor.takes_skipTo h) rfl

/-- What is done in a record, by its tag, its length and its end. -/
def handle (s : State) (tag length fin : Nat) : Step :=
  if tag = functionTag then readFunction s fin
  else if tag = countersTag then beginCounters s fin
  else if tag = objectSummaryTag then
    s.read (Cursor.skipWords (objectSummaryWords s.version)) fun _ => s.leave fin
  else if tag = programSummaryTag then
    s.read (Cursor.skipWords (max programSummaryWords length)) fun _ => s.leave fin
  else s.leave fin

/-- A zero word between records is passed over. -/
theorem passes_padding (hmode : s.mode = .between) :
    (step s).Passes order offset (word order 0) s := by
  rw [step, hmode]
  exact passes_read_goOn (Cursor.takes_natWord (n := 0) (by decide)) (if_pos rfl)

/-- The tag and the length of a record, and what is read of it in the same step. -/
theorem passes_frame (hmode : s.mode = .between) {tag words : Nat} (htag : 0 < tag)
    (htag' : tag < wordRange) (hwords : words < wordRange)
    (h : (handle s tag words (offset + 2 * wordSize + words * wordSize)).Passes order
      (offset + 2 * wordSize) bytes t) :
    (step s).Passes order offset (word order tag ++ (word order words ++ bytes)) t := by
  rw [step, hmode]
  refine passes_read (Cursor.takes_natWord htag') ?_
  rw [if_neg (Nat.ne_of_gt htag)]
  refine passes_read (readFrame_takes hwords) ?_
  have hoffset : offset + (word order tag).length + wordSize = offset + 2 * wordSize := by
    rw [length_word]
    omega
  rwa [length_word order (words : Int), hoffset]

/-- A record that is read in one step. -/
theorem passes_record (hmode : s.mode = .between) {tag words : Nat} {payload : Bytes}
    (htag : 0 < tag) (htag' : tag < wordRange) (hlength : payload.length = words * wordSize)
    (hwords : words < wordRange)
    (h : ∀ offset, (handle s tag words (offset + payload.length)).Passes order offset payload t) :
    (step s).Passes order offset (record order tag payload) t := by
  have hdiv : payload.length / wordSize = words := by
    rw [hlength, Nat.mul_div_cancel _ (by decide)]
  rw [record_eq, hdiv]
  rw [hlength] at h
  exact passes_frame hmode htag htag' hwords (h _)

/-! ## Functions -/

/-- The function with an ident, where there is only one. -/
theorem findFunction?_eq {done todo : List Func} {func : Func}
    (hdone : ∀ f ∈ done, f.ident ≠ func.ident) :
    findFunction? (done ++ func :: todo) func.ident = some (done.length, func) := by
  have hnone : done.findIdx? (·.ident == func.ident) = none := by
    rw [List.findIdx?_eq_none_iff]
    intro f hf
    simpa using hdone f hf
  have hindex : (done ++ func :: todo).findIdx? (·.ident == func.ident) = some done.length := by
    rw [List.findIdx?_append, hnone, List.findIdx?_cons]
    simp
  simp [findFunction?, hindex]

/-- The words behind the checksum are skipped, and the function is selected. -/
theorem passes_select (selection : Selection)
    (h : offset + Version.graphChecksumWords s.version * wordSize = fin) :
    (s.read (Cursor.skipWords (Version.graphChecksumWords s.version)) fun _ =>
        (s.select selection).leave fin).Passes order offset
      (words order (List.replicate (Version.graphChecksumWords s.version) 0))
      { s with selection, mode := .between } := by
  have hleave : ((s.select selection).leave fin).Passes order
      (offset + (words order (List.replicate (Version.graphChecksumWords s.version) 0)).length) []
      { s with selection, mode := .between } :=
    passes_leave (by simpa using h)
  have hread : (s.read (Cursor.skipWords (Version.graphChecksumWords s.version)) fun _ =>
      (s.select selection).leave fin).Passes order offset
      (words order (List.replicate (Version.graphChecksumWords s.version) 0) ++ [])
      { s with selection, mode := .between } :=
    passes_read (Cursor.takes_skipZeros _) hleave
  rwa [List.append_nil] at hread

/-- The record of a function selects it. -/
theorem passes_selection (hmode : s.mode = .between) {plan : FuncPlan} (h : plan.Encodable)
    {done todo : List Func} {func : Func} (hfunctions : s.functions = done ++ func :: todo)
    (hdone : ∀ f ∈ done, f.ident ≠ func.ident) (hident : (func.ident : Int) = plan.ident)
    (hchecksum : (func.checksum : Int) = plan.checksum) :
    (step s).Passes order offset
      (record order functionTag (words order [plan.ident, plan.checksum]
        ++ words order (List.replicate (Version.graphChecksumWords s.version) 0)))
      { s with selection := .matched done.length } := by
  have hextra : Version.graphChecksumWords s.version ≤ 1 := by
    unfold Version.graphChecksumWords
    split <;> omega
  have hident' : plan.ident.toNat = func.ident := by omega
  have hchecksum' : plan.checksum.toNat = func.checksum := by omega
  have hmode' : { s with selection := .matched done.length }
      = { s with selection := .matched done.length, mode := .between } := by
    rw [← hmode]
  have hlength : (words order [plan.ident, plan.checksum]
      ++ words order (List.replicate (Version.graphChecksumWords s.version) 0)).length
      = (2 + Version.graphChecksumWords s.version) * wordSize := by
    simp [Nat.add_mul, Nat.two_mul, Nat.add_assoc]
  rw [hmode']
  refine passes_record hmode (by decide) (by decide) hlength ?_ fun offset => ?_
  · unfold wordRange
    omega
  · rw [hlength, words_cons, words_cons, words_nil, List.append_nil, List.append_assoc]
    refine passes_read (Cursor.takes_word_of_lt h.ident.1 h.ident.2) ?_
    have hfind : findFunction? s.functions plan.ident.toNat = some (done.length, func) := by
      rw [hident', hfunctions, findFunction?_eq hdone]
    rw [hfind]
    refine passes_read (Cursor.takes_word_of_lt h.checksum.1 h.checksum.2) ?_
    rw [if_pos hchecksum']
    refine passes_select _ ?_
    simp only [length_word, wordSize]
    omega

/-! ## Counters -/

/-- Gives some arcs their counters, one after another, each as an exit of its source. -/
def countArcs (g : FlowGraph) : List Nat → List Nat → FlowGraph
  | id :: ids, count :: counts =>
    match g.arcs[id]? with
    | some arc => countArcs (countArc g ⟨arc.src, id⟩ arc count) ids counts
    | none => countArcs g ids counts
  | _, _ => g

/-- Before the counters of these exits, in a record that ends at `fin`. -/
def beforeCounters (s : State) (position : Nat) (exits : List Exit) (fin : Nat) : State :=
  match exits with
  | [] => { s with selection := .none, mode := .between }
  | next :: further => { s with mode := .inCounters position next further fin }

theorem passes_resume (position : Nat) {exits : List Exit}
    (h : offset + exits.length * (2 * wordSize) = fin) :
    (resume s position exits fin).Passes order offset []
      (beforeCounters s position exits fin) := by
  cases exits with
  | nil => exact passes_leave (by simpa using h)
  | cons next further => exact Scanner.passes_goOn _

/-- One counter. -/
theorem passes_counter {position : Nat} {exit : Exit} {further : List Exit} {func : Func}
    {arc : Arc} (hmode : s.mode = .inCounters position exit further fin)
    (hfunc : s.functions[position]? = some func) (harc : func.graph.arcs[exit.id]? = some arc)
    (hdst : arc.dst < func.graph.size) {count : Int}
    (h : offset + (2 * wordSize) + further.length * (2 * wordSize) = fin) :
    (step s).Passes order offset (counter order count)
      (beforeCounters (assign s position exit arc (storedCount count)) position further fin) := by
  rw [step, hmode]
  have hresume : (resume (assign s position exit arc (storedCount count)) position further
      fin).Passes order (offset + (counter order count).length) []
      (beforeCounters (assign s position exit arc (storedCount count)) position further fin) :=
    passes_resume position (by rwa [Cursor.length_counter])
  have hread : (readCounter s position exit further fin).Passes order offset
      (counter order count ++ [])
      (beforeCounters (assign s position exit arc (storedCount count)) position further fin) := by
    refine passes_read (Cursor.takes_storedCount count) ?_
    simp only [hfunc, harc, if_pos hdst]
    exact hresume
  rwa [List.append_nil] at hread

theorem modify_eq_set_of_getElem? {α : Type} {l : List α} {i : Nat} {a : α} (h : l[i]? = some a)
    (f : α → α) : l.modify i f = l.set i (f a) := by
  refine List.ext_getElem? fun j => ?_
  rw [List.getElem?_modify, List.getElem?_set]
  by_cases hij : i = j
  · subst hij
    obtain ⟨hlt, hget⟩ := List.getElem?_eq_some_iff.mp h
    simp [hlt, hget]
  · simp [hij]

theorem set_eq_of_getElem? {α : Type} {l : List α} {i : Nat} {a : α} (h : l[i]? = some a) :
    l.set i a = l := by
  obtain ⟨hlt, hget⟩ := List.getElem?_eq_some_iff.mp h
  rw [← hget, List.set_getElem_self]

/-- The first of some arcs, which its source lists, then the others. -/
theorem mapGraph_countArcs_cons {func : Func} {exit : Exit} {arc : Arc}
    (harc : func.graph.arcs[exit.id]? = some arc) (hsrc : arc.src = exit.block) (count : Nat)
    (ids counts : List Nat) :
    func.mapGraph (countArcs · (exit.id :: ids) (count :: counts))
      = (func.mapGraph (countArc · exit arc count)).mapGraph (countArcs · ids counts) := by
  simp only [Func.mapGraph, countArcs, harc, hsrc]

theorem length_counters (order : ByteOrder) (counts : List Int) :
    (counts.flatMap (counter order)).length = 2 * counts.length * wordSize := by
  induction counts with
  | nil => rfl
  | cons count counts ih =>
    rw [List.flatMap_cons, List.length_append, ih, Cursor.length_counter, List.length_cons]
    unfold wordSize
    omega

/-- The counters of a function.  Until the last one is read, the first of them are counted. -/
theorem carries_counters (offset : Nat) (counts : List Int) {s : State} {position : Nat}
    {func : Func} {exits : List Exit} (hfunc : s.functions[position]? = some func)
    (hexits : exits.length = counts.length)
    (harcs : ∀ exit ∈ exits, ∃ arc, func.graph.arcs[exit.id]? = some arc
      ∧ arc.src = exit.block ∧ arc.dst < func.graph.size)
    (h : offset + counts.length * (2 * wordSize) = fin)
    (hQ : ∀ k, Q (s.functions.set position
      (func.mapGraph (countArcs · ((exits.map (·.id)).take k)
        ((counts.map storedCount).take k))))) :
    machine.CarriesIn (fun u => Q u.functions) order offset (counts.flatMap (counter order))
      (beforeCounters s position exits fin)
      { s with
        functions := s.functions.set position
          (func.mapGraph (countArcs · (exits.map (·.id)) (counts.map storedCount)))
        selection := .none
        mode := .between } := by
  induction counts generalizing s func exits offset with
  | nil =>
    rw [List.eq_nil_of_length_eq_zero hexits]
    show machine.CarriesIn _ order offset [] _
      { s with functions := s.functions.set position func, selection := .none, mode := .between }
    rw [set_eq_of_getElem? hfunc]
    exact .refl _
  | cons count counts ih =>
    cases exits with
    | nil => cases hexits
    | cons exit exits =>
      obtain ⟨arc, harc, hsrc, hdst⟩ := harcs exit List.mem_cons_self
      have hlength : exits.length = counts.length := Nat.succ.inj hexits
      have hfin : offset + 2 * wordSize + counts.length * (2 * wordSize) = fin := by
        have hsucc : (counts.length + 1) * (2 * wordSize)
            = counts.length * (2 * wordSize) + 2 * wordSize := Nat.succ_mul _ _
        rw [← h, List.length_cons, hsucc]
        omega
      have hfin' : offset + 2 * wordSize + exits.length * (2 * wordSize) = fin := by
        rwa [hlength]
      let s' := assign s position exit arc (storedCount count)
      let func' := func.mapGraph (countArc · exit arc (storedCount count))
      have hnone : Q s.functions := by
        have hzero := hQ 0
        rw [List.take_zero, List.take_zero] at hzero
        change Q (s.functions.set position func) at hzero
        rwa [set_eq_of_getElem? hfunc] at hzero
      have hfirst : machine.CarriesIn (fun u => Q u.functions) order offset
          (counter order count) (beforeCounters s position (exit :: exits) fin)
          (beforeCounters s' position exits fin) := by
        have hcounter : (step (beforeCounters s position (exit :: exits) fin)).Passes order offset
            (counter order count)
            (beforeCounters (assign (beforeCounters s position (exit :: exits) fin) position exit
              arc (storedCount count)) position exits fin) :=
          passes_counter (s := beforeCounters s position (exit :: exits) fin) rfl hfunc harc hdst
            hfin'
        refine carriesIn_of_passes hnone ?_
        cases exits <;> exact hcounter
      have hset : s'.functions = s.functions.set position func' :=
        modify_eq_set_of_getElem? hfunc _
      have hfunc' : s'.functions[position]? = some func' := by
        rw [hset, List.getElem?_set_self (List.getElem?_eq_some_iff.mp hfunc).1]
      have hQ' : ∀ k, Q (s'.functions.set position
          (func'.mapGraph (countArcs · ((exits.map (·.id)).take k)
            ((counts.map storedCount).take k)))) := by
        intro k
        have hlater := hQ (k + 1)
        rwa [List.map_cons, List.map_cons, List.take_succ_cons, List.take_succ_cons,
          mapGraph_countArcs_cons harc hsrc, ← List.set_set, ← hset] at hlater
      have harcs' : ∀ other ∈ exits, ∃ arc, func'.graph.arcs[other.id]? = some arc
          ∧ arc.src = other.block ∧ arc.dst < func'.graph.size := by
        intro other hother
        obtain ⟨arc', harc', hends'⟩ := harcs other (List.mem_cons_of_mem _ hother)
        have hgraph : func'.graph = func.graph.resolve exit.id arc .exits (storedCount count) :=
          countArc_eq_resolve hsrc
        rw [hgraph, FlowGraph.resolve_size, FlowGraph.resolve_getElem?, harc']
        split
        · exact ⟨_, rfl, hends'⟩
        · exact ⟨_, rfl, hends'⟩
      have hrest := ih (offset + (counter order count).length) hfunc' hlength harcs'
        (by rwa [Cursor.length_counter]) hQ'
      rw [hset, List.set_set] at hrest
      rw [List.flatMap_cons, List.map_cons, List.map_cons, mapGraph_countArcs_cons harc hsrc]
      exact hfirst.trans hrest

/-- The record of the counters of a function. -/
theorem carries_countersRecord (hmode : s.mode = .between) {position : Nat}
    (hselection : s.selection = .matched position) {func : Func}
    (hfunc : s.functions[position]? = some func) (hblocks : func.graph.size ≠ 0)
    {counts : List Int} (hids : (measuredIds func.graph).length = counts.length)
    (harcs : ∀ exit ∈ measuredExits func.graph, ∃ arc, func.graph.arcs[exit.id]? = some arc
      ∧ arc.src = exit.block ∧ arc.dst < func.graph.size)
    (hfits : 2 * counts.length < wordRange)
    (hQ : ∀ k, Q (s.functions.set position (func.mapGraph
      (countArcs · ((measuredIds func.graph).take k) ((counts.map storedCount).take k))))) :
    machine.CarriesIn (fun u => Q u.functions) order offset
      (record order countersTag (counts.flatMap (counter order))) s
      { s with
        functions := s.functions.set position
          (func.mapGraph (countArcs · (measuredIds func.graph) (counts.map storedCount)))
        selection := .none } := by
  have hexits : (measuredExits func.graph).length = counts.length := by
    rw [length_measuredExits, hids]
  have hdiv : (counts.flatMap (counter order)).length / wordSize = 2 * counts.length := by
    rw [length_counters, Nat.mul_div_cancel _ (by decide)]
  have hend : ∀ functions selection, { s with functions, selection, mode := .between }
      = { s with functions, selection } := by
    intro functions selection
    rw [← hmode]
  have hnone : Q s.functions := by
    have hzero := hQ 0
    rw [List.take_zero, List.take_zero] at hzero
    change Q (s.functions.set position func) at hzero
    rwa [set_eq_of_getElem? hfunc] at hzero
  have hhead : machine.CarriesIn (fun u => Q u.functions) order offset
      (word order countersTag ++ (word order (2 * counts.length : Nat) ++ [])) s
      (beforeCounters s position (measuredExits func.graph)
        (offset + 2 * wordSize + 2 * counts.length * wordSize)) := by
    refine carriesIn_of_passes hnone (passes_frame hmode (by decide) (by decide) hfits ?_)
    have hbegin : beginCounters s (offset + 2 * wordSize + 2 * counts.length * wordSize)
        = resume s position (measuredExits func.graph)
          (offset + 2 * wordSize + 2 * counts.length * wordSize) := by
      simp only [beginCounters, hselection, hfunc, if_neg hblocks]
    have hhandle : handle s countersTag (2 * counts.length)
        (offset + 2 * wordSize + 2 * counts.length * wordSize)
        = beginCounters s (offset + 2 * wordSize + 2 * counts.length * wordSize) := rfl
    rw [hhandle, hbegin]
    refine passes_resume position ?_
    rw [hexits]
    unfold wordSize
    omega
  rw [record_eq, hdiv, ← hend, ← List.append_nil (word order (2 * counts.length : Nat)),
    ← List.append_assoc]
  rw [← map_id_measuredExits] at hQ ⊢
  refine hhead.trans (carries_counters _ counts hfunc hexits harcs ?_ hQ)
  simp only [List.length_append, length_word, List.length_nil, wordSize]
  omega

/-- What counting some arcs leaves: the graph is prepared for solving, with these arcs resolved. -/
theorem countArcs_spec (ids : List Nat) (hnodup : ids.Nodup) (count : Nat → Nat) {g : FlowGraph}
    (hg : g.Prepared)
    (hids : ∀ id ∈ ids, ∃ arc, g.arcs[id]? = some arc ∧ arc.resolved = false) :
    (countArcs g ids (ids.map count)).Prepared
      ∧ (countArcs g ids (ids.map count)).size = g.size
      ∧ (∀ i s, (countArcs g ids (ids.map count)).side i s = g.side i s)
      ∧ (∀ (i : Nat) (b' : Block), (countArcs g ids (ids.map count)).blocks[i]? = some b' →
          ∃ b, g.blocks[i]? = some b ∧ b'.lines = b.lines)
      ∧ ∀ j, (countArcs g ids (ids.map count)).arcs[j]? = (g.arcs[j]?).map fun arc =>
          if j ∈ ids then { arc with count := count j, resolved := true } else arc := by
  induction ids generalizing g with
  | nil => exact ⟨hg, rfl, fun _ _ => rfl, fun i b hb => ⟨b, hb, rfl⟩, fun j => by simp [countArcs]⟩
  | cons id ids ih =>
    obtain ⟨hmem, hnodup⟩ := List.nodup_cons.mp hnodup
    obtain ⟨arc, harc, hres⟩ := hids id List.mem_cons_self
    have hrefines := FlowGraph.refines_resolve (t := .exits) (c := count id) harc hres
    have hids' : ∀ j ∈ ids, ∃ a, (g.resolve id arc .exits (count id)).arcs[j]? = some a
        ∧ a.resolved = false := by
      intro j hj
      obtain ⟨a, ha, hopen⟩ := hids j (List.mem_cons_of_mem _ hj)
      refine ⟨a, ?_, hopen⟩
      rw [FlowGraph.resolve_getElem?, if_neg, ha]
      rintro rfl
      exact hmem hj
    obtain ⟨hprepared, hsize, hside, hlines, harcs⟩ :=
      ih hnodup (hg.resolve harc hres .exits (count id)) hids'
    have hstep : countArcs g (id :: ids) ((id :: ids).map count)
        = countArcs (g.resolve id arc .exits (count id)) ids (ids.map count) := by
      rw [List.map_cons, countArcs, harc]
      rfl
    rw [hstep]
    refine ⟨hprepared, hsize.trans hrefines.size,
      fun i s => (hside i s).trans (hrefines.side_eq i s),
      fun i b' hb' => ?_, fun j => ?_⟩
    · obtain ⟨b, hb, hline⟩ := hlines i b' hb'
      obtain ⟨b₀, hb₀, rfl⟩ := FlowGraph.resolve_block hb
      exact ⟨b₀, hb₀, hline⟩
    · rw [harcs, FlowGraph.resolve_getElem?]
      by_cases hj : id = j
      · subst hj
        simp [hmem, Function.comp_def]
      · simp [hj, Ne.symm hj]

end Counters

end Coverage
