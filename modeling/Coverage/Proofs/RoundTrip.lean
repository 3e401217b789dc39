import Coverage.Proofs.DataRoundTrip

/-!
# Decoding undoes building

A plan that is built by additions, and whose numbers and texts fit their words, comes back from its
own files: the notes file gives the functions, their arcs and their lines, and the data file the
counts of the arcs off the spanning tree.  This holds for every version, either byte order and any
stamp.
-/

namespace Coverage

/-- A plan comes back from its own files.  The notes file, read with a fresh registry, gives one
function per planned function, with its header, its blocks, its arcs by ascending source, and for
every block the lines that were attributed to it; the registry lists the sources in the order in
which they are first named.  The data file, if idents tell the functions apart and none of them is
without blocks, gives every arc off the spanning tree its count as far as a counter holds it; the
other arcs stay unresolved, and pending degrees are the numbers of unresolved arcs. -/
theorem decode_of_built (plan : UnitPlan) (hbuilt : plan.Built) (h : plan.Encodable) :
    ∃ (registry : Registry) (funcs : List Func),
      (Notes.decode {} plan.notes).result = .ok funcs
      ∧ (Notes.decode {} plan.notes).state = registry
      ∧ registry.names = plan.sources.eraseDups
      ∧ List.Forall₂ (fun (planned : FuncPlan) (func : Func) =>
          planned.HeadAs func
          ∧ (func.graph.size : Int) = planned.blockCount
          ∧ func.graph.orderedArcs.map (fun arc => (arc.src, arc.dst, arc.flags))
            = planned.orderedArcs.map (fun arc => (arc.src, arc.dst, arc.flags))
          ∧ ∀ (i : Nat) (block : Block), func.graph.blocks[i]? = some block →
              block.associations.map (fun place => (registry.names[place.1]?, place.2))
                = (planned.attributions i).map fun entry => (some entry.1, entry.2))
        plan.functions funcs
      ∧ ((plan.functions.map (·.ident)).Nodup → (∀ func ∈ plan.functions, 0 < func.blockCount) →
          (Counters.decode funcs plan.data).result = .ok ()
          ∧ List.Forall₂ (fun (planned : FuncPlan) (func : Func) =>
              planned.HeadAs func
              ∧ (func.graph.size : Int) = planned.blockCount
              ∧ func.graph.orderedArcs.map
                  (fun arc => (arc.src, arc.dst, arc.flags, arc.resolved, arc.count))
                = planned.orderedArcs.map (fun arc => (arc.src, arc.dst, arc.flags, !arc.onTree,
                    if arc.onTree then 0 else arc.count % 2 ^ 64))
              ∧ ∀ (i : Nat) (block : Block), func.graph.blocks[i]? = some block →
                  block.associations.map (fun place => (registry.names[place.1]?, place.2))
                    = (planned.attributions i).map (fun entry => (some entry.1, entry.2))
                  ∧ ∀ side, block.pending side
                      = ((func.graph.arcsOf (block.arcsOn side)).countP (!·.resolved) : Nat))
            plan.functions (Counters.decode funcs plan.data).state) := by
  obtain ⟨funcs, hresult, hreads, -, hnames⟩ := Notes.decode_notes hbuilt h {}
  have hsound : ∀ func ∈ plan.functions, func.Sound := fun func hfunc => (hbuilt func hfunc).sound
  refine ⟨_, funcs, hresult, rfl, hnames.trans (foldl_enlist_nil _), ?_, fun hidents hblocks => ?_⟩
  · refine List.Forall₂.imp (fun planned func hboth => ?_)
      ((List.forall₂_and_left _ _).mpr ⟨hsound, hreads⟩)
    obtain ⟨hsound, hread⟩ := hboth
    refine ⟨hread.toHeadAs, ?_, ?_, fun i block hblock => hread.lists.associations_eq hblock⟩
    · rw [hread.size, Int.toNat_of_nonneg hsound.blocks]
    · rw [hread.orderedArcs hsound, List.map_map]
      rfl
  · obtain ⟨hdata, hcounted, -⟩ := Counters.decode_data hbuilt h hblocks hidents hreads
    refine ⟨hdata, List.Forall₂.imp (fun planned func hboth => ?_)
      ((List.forall₂_and_left _ _).mpr ⟨hsound, hcounted⟩)⟩
    obtain ⟨hsound, hcount⟩ := hboth
    refine ⟨hcount.toHeadAs, ?_, ?_, fun i block hblock =>
      ⟨hcount.lists.associations_eq hblock, hcount.prepared.pending_eq hblock⟩⟩
    · rw [hcount.size, Int.toNat_of_nonneg hsound.blocks]
    · rw [hcount.orderedArcs, List.map_map]
      exact List.map_congr_left fun arc _ => arc.counted_eq

/-- A unit of two functions that share a header, the first with a loop. -/
def samplePlan : UnitPlan where
  order := .big
  directory := some "/tmp"
  functions :=
    [{ ident := 1, checksum := 7, name := "main", source := "main.c", line := 3, blockCount := 4
       arcs := [{ src := 1, dst := 2, count := 2 }, { src := 0, dst := 1, flags := 1 },
         { src := 2, dst := 1, flags := 1 }, { src := 1, dst := 3, count := 1 }]
       lines := [{ block := 2, source := "list.h", numbers := [8] },
         { block := 1, source := "main.c", numbers := [4, 5] }] },
      { ident := 2, checksum := 0, name := "first", source := "list.h", line := 8, blockCount := 2
        arcs := [{ src := 0, dst := 1, count := 1 }]
        lines := [{ block := 0, source := "list.h", numbers := [9] }] }]

/-- The additions that make the unit. -/
def sampleSteps : List PlanStep :=
  [.function "main" "main.c" 3 none 7, .blocks 4, .arc 1 2 0 2, .arc 0 1 1 0, .arc 2 1 1 0,
    .arc 1 3 0 1, .lines 2 [8] (some "list.h"), .lines 1 [4, 5] none,
    .function "first" "list.h" 8 none 0, .blocks 2, .arc 0 1 0 1, .lines 0 [9] none]

theorem samplePlan_built : samplePlan.Built := by
  have happly : UnitPlan.applyAll { order := .big, directory := some "/tmp" } sampleSteps
      = .ok samplePlan := by
    decide
  refine UnitPlan.Built.applyAll (fun _ hfunc => absurd hfunc List.not_mem_nil)
    (fun count hcount => ?_) happly
  simp [sampleSteps] at hcount
  omega

theorem samplePlan_encodable : samplePlan.Encodable := by
  decide

theorem samplePlan_decoded :
    samplePlan.Built ∧ samplePlan.Encodable
      ∧ ∃ registry funcs, (Notes.decode {} samplePlan.notes).result = .ok funcs
        ∧ (Notes.decode {} samplePlan.notes).state = registry
        ∧ registry.names = ["main.c", "list.h"]
        ∧ funcs.map (·.name) = ["main", "first"]
        ∧ (Counters.decode funcs samplePlan.data).result = .ok ()
        ∧ (Counters.decode funcs samplePlan.data).state.map
            (fun func => func.graph.orderedArcs.map (·.count)) = [[0, 2, 1, 0], [1]] := by
  obtain ⟨registry, funcs, hnotes, hregistry, hnames, hreads, hdata⟩ :=
    decode_of_built samplePlan samplePlan_built samplePlan_encodable
  obtain ⟨hresult, hcounted⟩ := hdata (by decide) (by decide)
  refine ⟨samplePlan_built, samplePlan_encodable, registry, funcs, hnotes, hregistry,
    hnames.trans (by decide), ?_, hresult, ?_⟩
  · obtain _ | ⟨⟨hmain, -⟩, _ | ⟨⟨hfirst, -⟩, ⟨⟩⟩⟩ := hreads
    rw [List.map_cons, List.map_cons, List.map_nil, hmain.name, hfirst.name]
  · generalize (Counters.decode funcs samplePlan.data).state = counted at hcounted
    obtain _ | ⟨⟨-, -, hmain, -⟩, _ | ⟨⟨-, -, hfirst, -⟩, ⟨⟩⟩⟩ := hcounted
    have hmain := congrArg (List.map (·.2.2.2.2)) hmain
    have hfirst := congrArg (List.map (·.2.2.2.2)) hfirst
    rw [List.map_map] at hmain hfirst
    rw [List.map_cons, List.map_cons, List.map_nil]
    exact congrArg₂ (fun a b => [a, b]) (hmain.trans (by decide)) (hfirst.trans (by decide))

end Coverage
