import Coverage.Proofs.DecodedGraphs
import Coverage.Proofs.Readings

/-!
# What counters do to degrees

A counter that is read is taken off the degrees at both ends of its arc, whether the arc was
resolved before or not.  The books are easily balanced: a degree is the number of arcs on its side,
less one for every counter that was read into one of them (`receive_block`).  It is the number of
unresolved arcs if and only if no arc was counted twice (`receive_pending_iff`); and if degrees are
numbers of unresolved arcs everywhere, then the graph is prepared for solving.

* `decode_accounts` — all that a data file does to functions that were decoded from notes.
-/

namespace Coverage

/-! ## Numbers of readings -/

/-- A sum of natural numbers is zero if all of them are. -/
theorem total_natCast_eq_zero {α : Type} {f : α → Nat} {xs : List α} :
    total (fun x => (f x : Int)) xs = 0 ↔ ∀ x ∈ xs, f x = 0 := by
  induction xs with
  | nil => simp
  | cons x xs ih =>
    have hrest : 0 ≤ total (fun x => (f x : Int)) xs :=
      total_nonneg fun y _ => Int.natCast_nonneg (f y)
    have hsplit : (f x : Int) + total (fun x => (f x : Int)) xs = 0
        ↔ f x = 0 ∧ total (fun x => (f x : Int)) xs = 0 := by omega
    rw [total_cons, List.forall_mem_cons, hsplit]
    exact and_congr_right fun _ => ih

namespace FlowGraph

variable {g : FlowGraph}

theorem Linked.mem_arcsOn (hg : g.Linked) {i id : Nat} {b : Block} {arc : Arc}
    (hb : g.blocks[i]? = some b) (harc : g.arcs[id]? = some arc) (s : Side) :
    id ∈ b.arcsOn s ↔ arc.nearEnd s = i := by
  rw [← side_of_getElem? hb, hg.mem_side]
  simp [harc]

end FlowGraph

namespace Counters

open FlowGraph

variable {g : FlowGraph} {rs : List Reading} {i : Nat} {b : Block}

/-- The number of counters that were read into some arcs. -/
def countersInto (rs : List Reading) (ids : List Nat) : Int :=
  total (fun id => ((countsOf rs id).length : Int)) ids

theorem length_countsOf (rs : List Reading) (id : Nat) :
    (countsOf rs id).length = (rs.map (·.id)).count id := by
  rw [countsOf, List.length_map, ← List.countP_eq_length_filter, List.count, List.countP_map]
  exact List.countP_congr fun r _ => by simp

/-- One more reading. -/
theorem countersInto_concat {ids : List Nat} (hnodup : ids.Nodup) (rs : List Reading)
    (r : Reading) :
    countersInto (rs ++ [r]) ids = countersInto rs ids + if r.id ∈ ids then 1 else 0 := by
  simp only [countersInto, length_countsOf, total_count hnodup, List.map_append, List.map_cons,
    List.map_nil, List.countP_append, List.countP_singleton]
  split <;> simp_all

/-! ## Degrees -/

/-- A counter is taken off the degrees at both ends of its arc. -/
theorem into_block {r : Reading} (hb : g.blocks[i]? = some b)
    (hmem : ∀ arc, g.arcs[r.id]? = some arc → (r.id ∈ b.exits ↔ arc.src = i)
      ∧ (r.id ∈ b.entries ↔ arc.dst = i))
    (hnone : g.arcs[r.id]? = none → r.id ∉ b.exits ∧ r.id ∉ b.entries) :
    (r.into g).blocks[i]? = some
      { b with
        pendingOut := b.pendingOut - (if r.id ∈ b.exits then 1 else 0)
        pendingIn := b.pendingIn - (if r.id ∈ b.entries then 1 else 0) } := by
  cases harc : g.arcs[r.id]? with
  | none =>
    obtain ⟨hexits, hentries⟩ := hnone harc
    rw [into_eq_self harc, hb, if_neg hexits, if_neg hentries, Int.sub_zero, Int.sub_zero]
  | some arc =>
    obtain ⟨hexits, hentries⟩ := hmem arc harc
    have hi : i < (g.resolve r.id arc .exits r.count).size := by
      rw [resolve_size]
      exact lt_of_getElem? hb
    obtain ⟨b', hb'⟩ := exists_block hi
    obtain ⟨b₀, hb₀, hchanged⟩ := resolve_block hb'
    obtain rfl : b = b₀ := Option.some.inj (hb.symm.trans hb₀)
    rw [into_eq harc, hb', hchanged]
    simp only [hexits, hentries]

/-- Counters are taken off the degrees at both ends of their arcs, and change nothing else about a
block. -/
theorem receive_block (hg : g.Linked) (rs : List Reading) (hb : g.blocks[i]? = some b) :
    (receive g rs).blocks[i]? = some
      { b with
        pendingOut := b.pendingOut - countersInto rs b.exits
        pendingIn := b.pendingIn - countersInto rs b.entries } := by
  have hnodup : ∀ s, (b.arcsOn s).Nodup := fun s => by
    rw [← side_of_getElem? hb]
    exact hg.nodup i s
  have hexits : b.exits.Nodup := hnodup .exits
  have hentries : b.entries.Nodup := hnodup .entries
  induction rs using List.reverseRecOn with
  | nil => simp [countersInto, countsOf, hb]
  | append_singleton rs r ih =>
    have hends := receive_getElem? g rs r.id
    have hstep := into_block (r := r) ih ?_ ?_
    · rw [receive_concat, hstep, countersInto_concat hexits, countersInto_concat hentries]
      dsimp only
      rw [Int.sub_sub, Int.sub_sub]
    · intro arc harc
      rw [harc] at hends
      obtain ⟨arc₀, harc₀, hsame⟩ := Option.map_eq_some_iff.mp hends.symm
      have hnear : ∀ s, arc.nearEnd s = arc₀.nearEnd s := by
        intro s
        rw [← hsame]
        cases (countsOf rs r.id).getLast? <;> cases s <;> rfl
      have hexits := hg.mem_arcsOn hb harc₀ .exits
      have hentries := hg.mem_arcsOn hb harc₀ .entries
      rw [← hnear] at hexits hentries
      exact ⟨hexits, hentries⟩
    · intro hnone
      rw [hnone] at hends
      have hnot : ∀ s, r.id ∉ b.arcsOn s := by
        intro s hmem
        rw [← side_of_getElem? hb] at hmem
        obtain ⟨arc₀, harc₀, -⟩ := (hg.mem_side i s r.id).mp hmem
        rw [harc₀] at hends
        cases hends
      exact ⟨hnot .exits, hnot .entries⟩

/-- Sides stay as they are. -/
theorem receive_side (hg : g.Linked) (rs : List Reading) (i : Nat) (s : Side) :
    (receive g rs).side i s = g.side i s := by
  by_cases hi : i < g.size
  · obtain ⟨b, hb⟩ := exists_block hi
    rw [side_of_getElem? hb, side_of_getElem? (receive_block hg rs hb)]
    cases s <;> rfl
  · rw [side_of_size_le (Nat.le_of_not_lt hi),
      side_of_size_le (by rw [receive_size]; exact Nat.le_of_not_lt hi)]

theorem linked_receive (hg : g.Linked) (rs : List Reading) : (receive g rs).Linked := by
  refine hg.of_sides (receive_side hg rs) fun id s => ?_
  rw [receive_getElem?, Option.map_map]
  congr 1
  funext arc
  rw [Function.comp_apply]
  cases (countsOf rs id).getLast? <;> cases s <;> rfl

/-- A block of the graph that is left, and what it was. -/
theorem exists_of_receive (hg : g.Linked) {b' : Block}
    (hb' : (receive g rs).blocks[i]? = some b') :
    ∃ b, g.blocks[i]? = some b ∧ b' =
      { b with
        pendingOut := b.pendingOut - countersInto rs b.exits
        pendingIn := b.pendingIn - countersInto rs b.entries } := by
  have hi : i < g.size := receive_size g rs ▸ lt_of_getElem? hb'
  obtain ⟨b, hb⟩ := exists_block hi
  exact ⟨b, hb, Option.some.inj (hb'.symm.trans (receive_block hg rs hb))⟩

/-! ## Graphs that were untouched -/

/-- An arc is open as long as no counter was read into it. -/
theorem isOpen_receive (hg : g.Untouched) {id : Nat} (hid : id < g.arcs.size) :
    (receive g rs).isOpen id = true ↔ (countsOf rs id).length = 0 := by
  have harc := Array.getElem?_eq_getElem hid
  obtain ⟨hres, -⟩ := hg.unmeasured _ (Array.mem_of_getElem? harc)
  rw [isOpen, receive_getElem?, harc, Option.map_some, Option.any_some, List.length_eq_zero_iff,
    ← List.getLast?_eq_none_iff]
  cases (countsOf rs id).getLast? <;> simp [hres]

/-- How many counters too many were read into some arcs. -/
def surplus (rs : List Reading) (ids : List Nat) : Int :=
  total (fun id => ((countsOf rs id).length - 1 : Nat)) ids

/-- Every arc is open, or has one counter, or has too many. -/
theorem countP_isOpen_receive (hg : g.Untouched) (rs : List Reading) {ids : List Nat}
    (hids : ∀ id ∈ ids, id < g.arcs.size) :
    (ids.countP (receive g rs).isOpen : Int)
      = ids.length - countersInto rs ids + surplus rs ids := by
  induction ids with
  | nil => rfl
  | cons id ids ih =>
    obtain ⟨hid, hids⟩ := List.forall_mem_cons.mp hids
    have hrest := ih hids
    have hopen : (receive g rs).isOpen id = true ↔ _ := isOpen_receive hg hid
    rw [List.countP_cons, countersInto, surplus, total_cons, total_cons, ← countersInto, ← surplus,
      List.length_cons]
    by_cases hzero : (countsOf rs id).length = 0
    · rw [if_pos (hopen.mpr hzero)]
      omega
    · rw [if_neg fun h => hzero (hopen.mp h)]
      omega

/-- A degree falls short of the number of unresolved arcs by the counters that were too many. -/
theorem receive_pending (hg : g.Untouched) {b' : Block}
    (hb' : (receive g rs).blocks[i]? = some b') (s : Side) :
    b'.pending s = (receive g rs).openDegree i s - surplus rs (g.side i s) := by
  obtain ⟨b, hb, rfl⟩ := exists_of_receive hg.linked hb'
  have hcount := countP_isOpen_receive hg rs fun id (hid : id ∈ g.side i s) =>
    hg.linked.lt_arcs hid
  have hlength := hg.pending_eq hb s
  rw [openDegree, receive_side hg.linked, hcount, side_of_getElem? hb]
  cases s with
  | exits =>
    change b.pendingOut = _ at hlength
    show b.pendingOut - countersInto rs b.exits = _
    rw [hlength]
    exact (Int.add_sub_cancel _ _).symm
  | entries =>
    change b.pendingIn = _ at hlength
    show b.pendingIn - countersInto rs b.entries = _
    rw [hlength]
    exact (Int.add_sub_cancel _ _).symm

/-- Degrees are the numbers of unresolved arcs if and only if no arc was counted twice. -/
theorem receive_pending_iff (hg : g.Untouched) (rs : List Reading) :
    (∀ (i : Nat) (b' : Block) (s : Side), (receive g rs).blocks[i]? = some b' →
        b'.pending s = (receive g rs).openDegree i s)
      ↔ ∀ id < g.arcs.size, (countsOf rs id).length ≤ 1 := by
  constructor
  · intro hpending id hid
    have harc := Array.getElem?_eq_getElem hid
    obtain ⟨b, hb⟩ := exists_block (hg.linked.nearEnd_lt harc .exits)
    have hside : id ∈ g.side (g.arcs[id].nearEnd .exits) .exits :=
      (hg.linked.mem_side _ _ id).mpr ⟨_, harc, rfl⟩
    have hb' := receive_block hg.linked rs hb
    have hdegree := hpending _ _ .exits hb'
    rw [receive_pending hg hb'] at hdegree
    have hzero : surplus rs (g.side (g.arcs[id].nearEnd .exits) .exits) = 0 := by omega
    have := total_natCast_eq_zero.mp hzero id hside
    omega
  · intro hone i b' s hb'
    have hzero : surplus rs (g.side i s) = 0 := by
      refine total_natCast_eq_zero.mpr fun id hid => ?_
      have := hone id (hg.linked.lt_arcs hid)
      omega
    rw [receive_pending hg hb', hzero, Int.sub_zero]

/-- A graph in which no arc was counted twice is prepared for solving. -/
theorem prepared_receive (hg : g.Untouched)
    (hone : ∀ id < g.arcs.size, (countsOf rs id).length ≤ 1) : (receive g rs).Prepared where
  linked := linked_receive hg.linked rs
  fresh i b' hb' := by
    obtain ⟨b, hb, rfl⟩ := exists_of_receive hg.linked hb'
    exact hg.fresh i b hb
  pending := (receive_pending_iff hg rs).mpr hone

/-- An arc is resolved if a counter was read into it, and holds the last one. -/
theorem receive_arc (hg : g.Untouched) (rs : List Reading) {id : Nat} {arc : Arc}
    (harc : g.arcs[id]? = some arc) : (receive g rs).arcs[id]? = some
      { arc with
        count := ((countsOf rs id).getLast?.getD 0 : Nat)
        resolved := decide (1 ≤ (countsOf rs id).length) } := by
  obtain ⟨hres, hcount⟩ := hg.unmeasured arc (Array.mem_of_getElem? harc)
  rw [receive_getElem?, harc, Option.map_some]
  cases hlast : (countsOf rs id).getLast? with
  | none =>
    rw [List.getLast?_eq_none_iff.mp hlast]
    simp [← hres, ← hcount]
  | some count =>
    have hpos : 1 ≤ (countsOf rs id).length :=
      List.length_pos_of_mem (List.mem_of_getLast? hlast)
    simp [hpos]

/-- Where the solver fails, an arc was counted twice. -/
theorem exists_counted_twice {func : Func} (hg : func.graph.Untouched) {error : CoverageError}
    (herror : (func.mapGraph (receive · rs)).solve.result = .error error) :
    ∃ id < func.graph.arcs.size, 2 ≤ (countsOf rs id).length := by
  by_contra htwice
  have hone : ∀ id < func.graph.arcs.size, (countsOf rs id).length ≤ 1 := by
    intro id hid
    by_contra hmany
    exact htwice ⟨id, hid, by omega⟩
  have hprepared : (func.mapGraph (receive · rs)).graph.Prepared := prepared_receive hg hone
  obtain ⟨solved, hsolved, -⟩ := Func.solve_of_prepared hprepared
  cases hsolved.symm.trans herror

/-! ## What a data file does -/

/-- Counters are delivered to arcs off the spanning tree, and to functions that come first with
their idents. -/
theorem Recorded.of_countsOf {functions counted : List Func} (h : Recorded functions rs counted)
    {p id : Nat} {func : Func} (hfunc : functions[p]? = some func)
    (hcounts : countsOf (readingsFor rs p) id ≠ []) :
    (∃ arc, func.graph.arcs[id]? = some arc ∧ arc.onTree = false)
      ∧ ∀ q < p, ∀ f, functions[q]? = some f → f.ident ≠ func.ident := by
  obtain ⟨count, hcount⟩ := List.exists_mem_of_ne_nil _ hcounts
  obtain ⟨r, hr, -⟩ := List.mem_map.mp hcount
  obtain ⟨hr, hid⟩ := List.mem_filter.mp hr
  obtain ⟨hr, hp⟩ := List.mem_filter.mp hr
  obtain ⟨func', hfound, hmeasured⟩ := h.expected r hr
  rw [of_decide_eq_true hp] at hfound
  rw [of_decide_eq_true hid] at hmeasured
  obtain ⟨hfunc', -, hfirst⟩ := of_findFunction? hfound
  obtain rfl : func = func' := Option.some.inj (hfunc.symm.trans hfunc')
  have hany := (List.mem_filter.mp hmeasured).2
  rw [Option.any_eq_true] at hany
  obtain ⟨arc, harc, htree⟩ := hany
  exact ⟨⟨arc, harc, by simpa using htree⟩, hfirst⟩

/-- All that a data file does to functions that were decoded from notes, however its decoding ends.
A degree is the number of arcs on its side, less the counters that were delivered to them.  An arc
is resolved if a counter was delivered to it, and holds the last one.  No counter is delivered to an
arc of the spanning tree, nor to a function that is not the first one with its ident.  Nothing else
changes.  So degrees are the numbers of unresolved arcs if and only if no arc was counted twice, and
where the solver fails some arc was. -/
theorem decode_accounts (registry : Registry) (notes : Bytes) (functions : List Func)
    (hnotes : (Notes.decode registry notes).result = .ok functions) (data : Bytes) :
    (decode functions data).state.length = functions.length
    ∧ ∀ (p : Nat) (func : Func), functions[p]? = some func →
      ∃ graph : FlowGraph, (decode functions data).state[p]? = some { func with graph }
        ∧ graph.size = func.graph.size ∧ graph.arcs.size = func.graph.arcs.size
        ∧ (∀ (i : Nat) (block : Block), func.graph.blocks[i]? = some block →
            graph.blocks[i]? = some
              { block with
                pendingOut := block.exits.length
                  - total (fun id => ((delivered functions data p id).length : Int)) block.exits
                pendingIn := block.entries.length
                  - total (fun id => ((delivered functions data p id).length : Int))
                    block.entries })
        ∧ (∀ (id : Nat) (arc : Arc), func.graph.arcs[id]? = some arc →
            graph.arcs[id]? = some
              { arc with
                count := ((delivered functions data p id).getLast?.getD 0 : Nat)
                resolved := decide (1 ≤ (delivered functions data p id).length) }
            ∧ (arc.onTree = true → delivered functions data p id = []))
        ∧ (∀ q < p, ∀ f, functions[q]? = some f → f.ident = func.ident →
            ∀ id, delivered functions data p id = [])
        ∧ ((∀ (i : Nat) (block : Block) (side : Side), graph.blocks[i]? = some block →
              block.pending side = graph.openDegree i side)
            ↔ ∀ id < func.graph.arcs.size, (delivered functions data p id).length ≤ 1)
        ∧ ∀ error, ({ func with graph } : Func).solve.result = .error error →
            ∃ id < func.graph.arcs.size, 2 ≤ (delivered functions data p id).length := by
  have huntouched : ∀ func ∈ functions, func.graph.Untouched :=
    Notes.decode_intact registry notes functions hnotes
  have hrecorded := decode_readings (fun func hfunc => (huntouched func hfunc).linked) data
  have hlookup : ∀ p : Nat, (decode functions data).state[p]? = (functions[p]?).map
      (·.mapGraph (receive · (readingsFor (readings functions data) p))) := by
    intro p
    rw [hrecorded.eq, getElem?_foldl_apply]
  refine ⟨by rw [hrecorded.eq, length_foldl_apply], fun p func hfunc => ?_⟩
  have hg := huntouched func (List.mem_of_getElem? hfunc)
  have hstate := hlookup p
  rw [hfunc, Option.map_some] at hstate
  refine ⟨_, hstate, receive_size _ _, receive_arcs_size _ _, fun i block hblock => ?_,
    fun id arc harc => ⟨receive_arc hg _ harc, fun htree => ?_⟩, fun q hq f hf hident id => ?_,
    receive_pending_iff hg _, fun error herror => exists_counted_twice hg herror⟩
  · have hout := hg.pending_eq hblock .exits
    have hin := hg.pending_eq hblock .entries
    change block.pendingOut = block.exits.length at hout
    change block.pendingIn = block.entries.length at hin
    rw [receive_block hg.linked _ hblock, hout, hin]
    rfl
  · by_contra hdelivered
    obtain ⟨⟨arc', harc', htree'⟩, -⟩ := hrecorded.of_countsOf hfunc hdelivered
    obtain rfl : arc = arc' := Option.some.inj (harc.symm.trans harc')
    rw [htree] at htree'
    cases htree'
  · by_contra hdelivered
    obtain ⟨-, hfirst⟩ := hrecorded.of_countsOf hfunc hdelivered
    exact hfirst q hq f hf hident

/-- Data of a function with two arcs onto its last block itself and one back to the first.  Its
record comes twice, and is cut off after the second time that the first arc was counted. -/
def repeatedData : Bytes :=
  Writer.words .little
    [0x67636461, 0x34303200, 0, 0x01000000, 2, 1, 2, 0x01A10000, 6, 7, 0, 8, 0, 9, 0,
      0x01000000, 2, 1, 2, 0x01A10000, 6, 5, 0, 6]

theorem repeatedData_accounts :
    (Notes.decode {} Notes.unevenNotes).result = .ok [Notes.unevenFunc]
      ∧ (List.range 3).map (delivered [Notes.unevenFunc] repeatedData 0) = [[7, 5], [8], [9]]
      ∧ ∃ graph : FlowGraph,
        (decode [Notes.unevenFunc] repeatedData).state[0]? = some { Notes.unevenFunc with graph }
        ∧ (∃ block, graph.blocks[1]? = some block ∧ block.pendingOut = -1 ∧ block.pendingIn = -1)
        ∧ graph.arcs[0]? = some { src := 1, dst := 1, count := 5, resolved := true }
        ∧ ¬ ∀ (i : Nat) (block : Block) (side : Side), graph.blocks[i]? = some block →
          block.pending side = graph.openDegree i side := by
  have hnotes : (Notes.decode {} Notes.unevenNotes).result = .ok [Notes.unevenFunc] := by
    decide +kernel
  have hdelivered : (List.range 3).map (delivered [Notes.unevenFunc] repeatedData 0)
      = [[7, 5], [8], [9]] := by
    decide +kernel
  obtain ⟨-, haccounts⟩ := decode_accounts {} Notes.unevenNotes _ hnotes repeatedData
  obtain ⟨graph, hstate, -, -, hblocks, harcs, -, hpending, -⟩ :=
    haccounts 0 Notes.unevenFunc rfl
  obtain ⟨hzero, hone, htwo⟩ : delivered [Notes.unevenFunc] repeatedData 0 0 = [7, 5]
      ∧ delivered [Notes.unevenFunc] repeatedData 0 1 = [8]
      ∧ delivered [Notes.unevenFunc] repeatedData 0 2 = [9] := by
    simpa [List.range_succ] using hdelivered
  have hblock := hblocks 1
    { exits := [0, 1, 2], entries := [0, 1], pendingOut := 3, pendingIn := 2, callSite := true }
    (by decide)
  obtain ⟨harc, -⟩ := harcs 0 { src := 1, dst := 1 } (by decide)
  rw [hzero] at harc
  refine ⟨hnotes, hdelivered, graph, hstate, ⟨_, hblock, ?_, ?_⟩, harc, fun hall => ?_⟩
  · simp [hzero, hone, htwo]
  · simp [hzero, hone]
  · have hlength := hpending.mp hall 0 (by decide)
    rw [hzero] at hlength
    exact absurd hlength (by decide)

end Counters

end Coverage
