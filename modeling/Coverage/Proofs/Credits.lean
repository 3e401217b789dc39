import Coverage.Proofs.Accounting
import Coverage.Proofs.FramedFiles

/-!
# The functions that counters are credited to

Counters do not say which function they are for.  They are for the function whose record came last,
if no other counters came in between, and if the notes have it.  What is said here of records says
it of the records before them alone: which function is selected (`selected?`), which counters it is
given (`credits`), and, as later counters take the place of earlier ones, what becomes of it
(`Credited`).
-/

namespace Coverage.Counters

open FlowGraph

/-! ## Words of a record -/

namespace Frame

/-- A word of a record. -/
def word (order : ByteOrder) (f : Frame) (k : Nat) : Nat :=
  order.toNat ((f.payload.drop (k * wordSize)).take wordSize)

theorem ident_eq (f : Frame) (order : ByteOrder) : f.ident order = f.word order 0 := by
  rw [ident, word, Nat.zero_mul, List.drop_zero]

/-- A counter of a record: two words, the low one first in either byte order. -/
def counter (order : ByteOrder) (f : Frame) (k : Nat) : Nat :=
  f.word order (2 * k) + wordRange * f.word order (2 * k + 1)

end Frame

/-! ## What is selected -/

/-- The last of some records of functions, if no record of counters comes after it. -/
def selector? (before : List Frame) : Option Frame :=
  (before.reverse.find? fun f => f.tag = functionTag ∨ f.tag = countersTag).filter
    (·.tag = functionTag)

/-- The function that counters behind some records are for, and its position: the first one with
the ident that was selected. -/
def selected? (functions : List Func) (order : ByteOrder) (before : List Frame) :
    Option (Nat × Func) :=
  (selector? before).bind fun f => findFunction? functions (f.ident order)

/-- What the decoder knows of it. -/
def selectionAfter (functions : List Func) (order : ByteOrder) (before : List Frame) : Selection :=
  (selector? before).elim .none fun f =>
    (findFunction? functions (f.ident order)).elim .unmatched fun found => .matched found.1

variable {functions : List Func} {order : ByteOrder} {before frames : List Frame} {f : Frame}

theorem selector?_concat (before : List Frame) (f : Frame) :
    selector? (before ++ [f]) = if f.tag = functionTag then some f
      else if f.tag = countersTag then none else selector? before := by
  rw [selector?, List.reverse_append, List.reverse_singleton, List.singleton_append,
    List.find?_cons]
  by_cases hfunction : f.tag = functionTag
  · simp [hfunction]
  · by_cases hcounters : f.tag = countersTag
    · simp [hcounters, functionTag, countersTag]
    · simp [hfunction, hcounters, selector?]

theorem selectionAfter_concat (functions : List Func) (order : ByteOrder) (before : List Frame)
    (f : Frame) : selectionAfter functions order (before ++ [f])
      = if f.tag = functionTag then
          (findFunction? functions (f.ident order)).elim .unmatched fun found => .matched found.1
        else if f.tag = countersTag then .none else selectionAfter functions order before := by
  rw [selectionAfter, selector?_concat]
  split
  · rfl
  · split <;> rfl

/-- A function is selected where the decoder knows one. -/
theorem selectionAfter_eq_matched {p : Nat} {func : Func}
    (h : selected? functions order before = some (p, func)) :
    selectionAfter functions order before = .matched p := by
  obtain ⟨f, hselector, hfound⟩ := Option.bind_eq_some_iff.mp h
  rw [selectionAfter, hselector, Option.elim_some, hfound]
  rfl

/-- Counters are passed over behind the record of a function that is not known. -/
theorem selectionAfter_eq_unmatched (hselector : selector? before = some f)
    (h : selected? functions order before = none) :
    selectionAfter functions order before = .unmatched := by
  rw [selected?, hselector, Option.bind_some] at h
  rw [selectionAfter, hselector, Option.elim_some, h]
  rfl

/-- The decoder knows the selection by its layout. -/
theorem selectionAt_eq (version : Nat) (functions : List Func) (order : ByteOrder)
    (frames : List Frame) (k : Nat) :
    ({ version, functions } : State).layout.selectionAt order frames k
      = selectionAfter functions order (frames.take k) := by
  rw [Layout.selectionAt]
  induction frames.take k using List.reverseRecOn with
  | nil => rfl
  | append_singleton before f ih =>
    rw [List.foldl_concat, ih, Layout.select, find?_layout, selectionAfter_concat]
    cases findFunction? functions (f.ident order) <;> rfl

/-! ## What is gathered along records -/

/-- What every record adds, which may depend on the records before it. -/
def gather {α : Type} (adds : List Frame → Frame → List α) (frames : List Frame) : List α :=
  (List.range frames.length).flatMap fun k => frames[k]?.elim [] (adds (frames.take k))

theorem gather_concat {α : Type} (adds : List Frame → Frame → List α) (frames : List Frame)
    (f : Frame) : gather adds (frames ++ [f]) = gather adds frames ++ adds frames f := by
  rw [gather, List.length_append, List.length_singleton, List.range_succ, List.flatMap_append,
    List.flatMap_singleton, List.getElem?_concat_length, Option.elim_some, List.take_left']
  · congr 1
    refine List.flatMap_congr fun k hk => ?_
    have hlt : k < frames.length := List.mem_range.mp hk
    rw [List.getElem?_append_left hlt, List.take_append_of_le_length (Nat.le_of_lt hlt)]
  · rfl

/-! ## Credits -/

/-- The counters of a record, one for each of some arcs of the function at a position. -/
def readingsOf (order : ByteOrder) (p : Nat) (ids : List Nat) (f : Frame) : List Reading :=
  ids.mapIdx fun k id => { position := p, id, count := f.counter order k }

/-- The counters of all records, as far as they are for a function. -/
def credits (functions : List Func) (order : ByteOrder) : List Frame → List Reading :=
  gather fun before f =>
    if f.tag = countersTag then
      (selected? functions order before).elim [] fun found =>
        readingsOf order found.1 (measuredIds found.2.graph) f
    else []

/-- The records of counters for the function at a position. -/
def countersFor (functions : List Func) (order : ByteOrder) (p : Nat) : List Frame → List Frame :=
  gather fun before f =>
    if f.tag = countersTag ∧ (selected? functions order before).any (·.1 = p) then [f] else []

theorem readingsFor_append (rs rs' : List Reading) (p : Nat) :
    readingsFor (rs ++ rs') p = readingsFor rs p ++ readingsFor rs' p :=
  List.filter_append ..

theorem of_mem_readingsOf {p : Nat} {ids : List Nat} {r : Reading}
    (hr : r ∈ readingsOf order p ids f) : r.position = p ∧ r.id ∈ ids := by
  obtain ⟨k, hk, rfl⟩ := List.mem_mapIdx.mp hr
  exact ⟨rfl, List.getElem_mem hk⟩

/-- A record of counters is for one function. -/
theorem readingsFor_readingsOf (order : ByteOrder) (q : Nat) (ids : List Nat) (f : Frame)
    (p : Nat) :
    readingsFor (readingsOf order q ids f) p = if q = p then readingsOf order q ids f else [] := by
  have hposition : ∀ r ∈ readingsOf order q ids f, r.position = q :=
    fun r hr => (of_mem_readingsOf hr).1
  split
  · next hq =>
    refine List.filter_eq_self.mpr fun r hr => ?_
    rw [hposition r hr, hq]
    simp
  · next hq =>
    refine List.filter_eq_nil_iff.mpr fun r hr => ?_
    rw [hposition r hr]
    simpa using hq

/-- What is credited to a function is what the records of counters for it say. -/
theorem readingsFor_credits {p : Nat} {func : Func} (hfunc : functions[p]? = some func)
    (frames : List Frame) :
    readingsFor (credits functions order frames) p
      = (countersFor functions order p frames).flatMap
          (readingsOf order p (measuredIds func.graph)) := by
  induction frames using List.reverseRecOn with
  | nil => rfl
  | append_singleton before f ih =>
    rw [credits, countersFor, gather_concat, gather_concat, ← credits, ← countersFor,
      readingsFor_append, List.flatMap_append, ih]
    congr 1
    by_cases hcounters : f.tag = countersTag
    · rw [if_pos hcounters]
      cases hselected : selected? functions order before with
      | none => simp [readingsFor]
      | some found =>
        obtain ⟨q, func'⟩ := found
        rw [Option.elim_some, readingsFor_readingsOf]
        by_cases hq : q = p
        · subst hq
          obtain ⟨f', -, hfound⟩ := Option.bind_eq_some_iff.mp hselected
          obtain ⟨hfunc', -⟩ := of_findFunction? hfound
          obtain rfl : func = func' := Option.some.inj (hfunc.symm.trans hfunc')
          simp [hcounters]
        · simp [hq]
    · simp [hcounters, readingsFor]

/-! ## What becomes of functions -/

theorem countsOf_append (rs rs' : List Reading) (id : Nat) :
    countsOf (rs ++ rs') id = countsOf rs id ++ countsOf rs' id := by
  simp [countsOf]

theorem countsOf_eq_nil {rs : List Reading} {id : Nat} (h : ∀ r ∈ rs, r.id ≠ id) :
    countsOf rs id = [] := by
  rw [countsOf, List.map_eq_nil_iff, List.filter_eq_nil_iff]
  simpa using h

/-- A record has one counter for every arc. -/
theorem countsOf_readingsOf {ids : List Nat} (hnodup : ids.Nodup) {k id : Nat}
    (hid : ids[k]? = some id) (p : Nat) (f : Frame) :
    countsOf (readingsOf order p ids f) id = [f.counter order k] := by
  obtain ⟨hk, rfl⟩ := List.getElem?_eq_some_iff.mp hid
  have hsplit : ids = ids.take k ++ ids[k] :: ids.drop (k + 1) := by
    rw [← List.drop_eq_getElem_cons hk, List.take_append_drop]
  have hlength : (ids.take k).length = k := List.length_take_of_le (Nat.le_of_lt hk)
  rw [hsplit] at hnodup
  obtain ⟨-, hrest, hapart⟩ := List.nodup_append.mp hnodup
  have hbefore : ∀ r ∈ readingsOf order p (ids.take k) f, r.id ≠ ids[k] :=
    fun r hr => hapart _ (of_mem_readingsOf hr).2 _ List.mem_cons_self
  have hafter : ∀ r ∈ (ids.drop (k + 1)).mapIdx fun j id =>
      (⟨p, id, f.counter order (j + 1 + k)⟩ : Reading), r.id ≠ ids[k] := by
    intro r hr
    obtain ⟨j, hj, rfl⟩ := List.mem_mapIdx.mp hr
    exact fun h => (List.nodup_cons.mp hrest).1 (h ▸ List.getElem_mem hj)
  have hparts : readingsOf order p ids f = readingsOf order p (ids.take k) f
      ++ ⟨p, ids[k], f.counter order k⟩ :: (ids.drop (k + 1)).mapIdx fun j id =>
        (⟨p, id, f.counter order (j + 1 + k)⟩ : Reading) := by
    conv_lhs => rw [hsplit]
    rw [readingsOf, List.mapIdx_append, List.mapIdx_cons, hlength, Nat.zero_add]
    rfl
  rw [hparts, countsOf_append, countsOf_eq_nil hbefore, List.nil_append, ← List.singleton_append,
    countsOf_append, countsOf_eq_nil hafter]
  simp [countsOf]

/-- What some records of counters leave an arc with is up to the last of them. -/
theorem getLast?_countsOf_flatMap {ids : List Nat} (hnodup : ids.Nodup) (fs : List Frame)
    (p k id : Nat) (hid : ids[k]? = some id) :
    (countsOf (fs.flatMap (readingsOf order p ids)) id).getLast?
      = fs.getLast?.map (·.counter order k) := by
  induction fs using List.reverseRecOn with
  | nil => rfl
  | append_singleton fs f _ =>
    rw [List.flatMap_append, List.flatMap_singleton, countsOf_append,
      countsOf_readingsOf hnodup hid, List.getLast?_concat, List.getLast?_concat, Option.map_some]

/-- Arcs that are not measured get no counter. -/
theorem countsOf_flatMap_of_not_mem {ids : List Nat} {id : Nat} (hid : id ∉ ids)
    (fs : List Frame) (p : Nat) : countsOf (fs.flatMap (readingsOf order p ids)) id = [] := by
  refine countsOf_eq_nil fun r hr => ?_
  obtain ⟨f, -, hr⟩ := List.mem_flatMap.mp hr
  exact fun h => hid (h ▸ (of_mem_readingsOf hr).2)

/-- The measured arcs are the arcs that carry a counter, in the same order. -/
theorem measuredArcs_eq (g : FlowGraph) : g.measuredArcs = g.arcsOf (measuredIds g) := by
  rw [measuredArcs, orderedArcs, arcsOf, arcsOf, measuredIds, List.filter_filterMap,
    List.filterMap_filter]
  refine List.filterMap_congr fun id _ => ?_
  cases g.arcs[id]? with
  | none => rfl
  | some arc => cases harc : arc.onTree <;> simp [harc]

/-- Arcs that are changed by their place. -/
theorem arcsOf_mapIdx {g g' : FlowGraph} (change : Nat → Arc → Arc) {ids : List Nat}
    (hids : ∀ id ∈ ids, id < g.arcs.size)
    (hchange : ∀ (k id : Nat), ids[k]? = some id →
      g'.arcs[id]? = (g.arcs[id]?).map (change k)) :
    g'.arcsOf ids = (g.arcsOf ids).mapIdx change := by
  induction ids generalizing change with
  | nil => rfl
  | cons id ids ih =>
    obtain ⟨hid, hids⟩ := List.forall_mem_cons.mp hids
    have harc := Array.getElem?_eq_getElem hid
    have hfirst := hchange 0 id rfl
    rw [harc, Option.map_some] at hfirst
    have hrest := ih (fun k => change (k + 1)) hids fun k id hid => hchange (k + 1) id hid
    rw [arcsOf, arcsOf, List.filterMap_cons_some hfirst, List.filterMap_cons_some harc,
      List.mapIdx_cons, ← arcsOf, ← arcsOf, hrest]

/-- `Credited functions order frames counted`: the measured arcs of every function, in the order of
its arcs, hold the leading counters of the last record of counters for it.  Its other arcs are as
they were, and so are functions that no counters are for. -/
def Credited (functions : List Func) (order : ByteOrder) (frames : List Frame)
    (counted : List Func) : Prop :=
  counted.length = functions.length
    ∧ ∀ (p : Nat) (func : Func), functions[p]? = some func →
      ∃ graph : FlowGraph, counted[p]? = some { func with graph }
        ∧ graph.size = func.graph.size ∧ graph.arcs.size = func.graph.arcs.size
        ∧ match (countersFor functions order p frames).getLast? with
          | none => graph = func.graph
          | some f =>
            graph.measuredArcs = (func.graph.measuredArcs.mapIdx fun k arc =>
              { arc with count := f.counter order k, resolved := true })
            ∧ ∀ (id : Nat) (arc : Arc), func.graph.arcs[id]? = some arc → arc.onTree = true →
              graph.arcs[id]? = some arc

theorem nodup_measuredIds_of_linked {g : FlowGraph} (hg : g.Linked) : (measuredIds g).Nodup := by
  have hnodup : g.exitOrder.Nodup := by
    rw [exitOrder_eq]
    exact (hg.perm_sides .exits).nodup_iff.mpr List.nodup_range
  exact hnodup.filter _

/-- Functions that hold what is credited to them. -/
theorem Recorded.credited (hlinked : ∀ func ∈ functions, func.graph.Linked) {counted : List Func}
    (h : Recorded functions (credits functions order frames) counted) :
    Credited functions order frames counted := by
  refine ⟨by rw [h.eq, length_foldl_apply], fun p func hfunc => ?_⟩
  have hg := hlinked func (List.mem_of_getElem? hfunc)
  have hcounted := getElem?_foldl_apply functions (credits functions order frames) p
  rw [← h.eq, hfunc, Option.map_some, readingsFor_credits hfunc] at hcounted
  refine ⟨_, hcounted, receive_size _ _, receive_arcs_size _ _, ?_⟩
  cases hlast : (countersFor functions order p frames).getLast? with
  | none =>
    rw [List.getLast?_eq_none_iff.mp hlast]
    rfl
  | some f =>
    refine ⟨?_, fun id arc harc htree => ?_⟩
    · rw [measuredArcs_eq, measuredArcs_eq, measuredIds_receive]
      refine arcsOf_mapIdx _ (fun id => lt_arcs_of_mem_measuredIds) fun k id hid => ?_
      rw [receive_getElem?,
        getLast?_countsOf_flatMap (nodup_measuredIds_of_linked hg) _ p k id hid, hlast]
      rfl
    · have hnot : id ∉ measuredIds func.graph := by
        intro hmem
        have hany := (List.mem_filter.mp hmem).2
        rw [harc, Option.any_some, htree] at hany
        cases hany
      rw [receive_getElem?, harc, countsOf_flatMap_of_not_mem hnot]
      rfl

end Coverage.Counters
