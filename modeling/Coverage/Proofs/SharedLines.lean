import Coverage.Proofs.Groups
import Coverage.Proofs.LineCounts

/-!
# Lines of several blocks

A line that several blocks list counts what enters these blocks from without.  Where as much leaves
each of them as enters it, this is also what leaves them to the outside, and what they count
together, less the counts of the arcs among them (`Registry.count_shared_lines`).
-/

namespace Coverage

variable {functions : List Func} {i n : Nat}

/-- Every block that lists the line counts what enters it, and what leaves it. -/
def ConservedAt (functions : List Func) (i n : Nat) : Prop :=
  ∀ func ∈ functions, ∀ j ∈ func.listers i n, ∀ block ∈ func.graph.blocks[j]?,
    func.graph.sumOf block.entries = block.count ∧ func.graph.sumOf block.exits = block.count

instance (functions : List Func) (i n : Nat) : Decidable (ConservedAt functions i n) :=
  inferInstanceAs (Decidable (∀ func ∈ functions, ∀ j ∈ func.listers i n, ∀ block ∈ _, _ ∧ _))

/-- What the blocks that list a line count together. -/
def countOfBlocks (functions : List Func) (i n : Nat) : Int :=
  total (fun func => func.graph.sumOfBlocks (func.listers i n)) functions

/-- What the arcs count that lead from one of these blocks to one of them. -/
def countWithin (functions : List Func) (i n : Nat) : Int :=
  total (fun func => func.graph.sumWithin (func.listers i n)) functions

/-- What the arcs count that leave these blocks, or enter them, and do not lead from one of them to
another. -/
def countAcross (functions : List Func) (i n : Nat) (s : Side) : Int :=
  total (fun func => func.graph.sumAcross (func.listers i n) s) functions

/-- A line that several blocks list counts what enters them from without. -/
theorem tally_eq_countAcross {owner other : BlockRef} (howner : Lists functions i n owner)
    (hother : Lists functions i n other) (hne : other ≠ owner) :
    (SourceLine.tally functions (visitsAt functions i n)).count
      = countAcross functions i n .entries :=
  tally_of_listers howner hother hne

/-- What crosses the boundary of the blocks of a line, on either side, and what is among them make
up what they count. -/
theorem countAcross_add_countWithin (hlinked : ∀ func ∈ functions, func.graph.Linked)
    (hconserved : ConservedAt functions i n) (s : Side) :
    countAcross functions i n s + countWithin functions i n = countOfBlocks functions i n := by
  rw [countAcross, countWithin, ← total_add, countOfBlocks]
  refine total_congr fun func hfunc => ?_
  rw [(hlinked func hfunc).sumAcross_add_sumWithin (func.nodup_listers i n) s]
  refine (FlowGraph.sumOfBlocks_eq fun j hj => ?_).symm
  obtain ⟨block, hblock, -⟩ := Func.mem_listers.mp hj
  obtain ⟨hentries, hexits⟩ := hconserved func hfunc j hj block hblock
  cases s with
  | exits => exact ⟨block, hblock, hexits⟩
  | entries => exact ⟨block, hblock, hentries⟩

theorem countWithin_nonneg
    (hnonneg : ∀ func ∈ functions, ∀ arc ∈ func.graph.arcs, 0 ≤ arc.count) :
    0 ≤ countWithin functions i n := by
  refine total_nonneg fun func hfunc => total_nonneg fun arc harc => ?_
  exact hnonneg func hfunc arc (Array.mem_toList_iff.mp (List.mem_of_mem_filter harc))

/-- Where lines were collected they can be counted, and a line that several blocks list then has a
count.  Where each of the blocks counts what enters it and what leaves it, this is what they count
together, less what the arcs among them count, and it is what leaves them to the outside.  Without
negative counts of arcs it is no more than what the blocks count together. -/
theorem Registry.count_shared_lines (functions : List Func)
    (hlinked : ∀ func ∈ functions, func.graph.Linked) (r r₁ : Registry)
    (hcollect : r.collectLines functions = .ok r₁ ()) :
    ∃ r₂, r₁.accumulateCounts functions = .ok r₂ ()
      ∧ ∀ (i n : Nat) (owner other : BlockRef), Lists functions i n owner →
        Lists functions i n other → other ≠ owner → ConservedAt functions i n →
        ∃ line, r₂.line? i n = some line
          ∧ line.count = countOfBlocks functions i n - countWithin functions i n
          ∧ line.count = countAcross functions i n .exits
          ∧ ((∀ func ∈ functions, ∀ arc ∈ func.graph.arcs, 0 ≤ arc.count) →
            line.count ≤ countOfBlocks functions i n) := by
  have hadmits := admitsAll_of_collectLines hcollect
  obtain ⟨r₁', r₂, hcollect', hcount, -, hlines⟩ := count_lines (admitsAll_iff.mp hadmits)
  cases hcollect.symm.trans hcollect'
  refine ⟨r₂, hcount, fun i n owner other howner hother hne hconserved => ?_⟩
  have hline := hlines i n
  rw [resetLines_line?, if_pos (hadmits i n owner howner), Option.map_some] at hline
  have htally := tally_eq_countAcross howner hother hne
  have hentries := countAcross_add_countWithin hlinked hconserved .entries
  have hexits := countAcross_add_countWithin hlinked hconserved .exits
  refine ⟨_, hline, ?_, ?_, fun hnonneg => ?_⟩
  · omega
  · omega
  · have hwithin : 0 ≤ countWithin functions i n := countWithin_nonneg hnonneg
    omega

/-- Two functions that share the line 5 of a file.  In the first one, two of its blocks are joined
by three arcs, and one goes round in a loop. -/
def spinFunctions : List Func :=
  [ { ident := 1, checksum := 0, name := "spin", source := "spin.c", firstLine := 3
      graph :=
        { blocks :=
            #[{ exits := [0], lines := [0, 0, 3], count := 2 },
              { exits := [1, 2, 3], entries := [0, 1, 4], lines := [0, 0, 5], count := 9 },
              { exits := [4, 5], entries := [2, 3], lines := [0, 0, 5, 5], count := 5 },
              { entries := [5], count := 2 }]
          arcs :=
            #[{ src := 0, dst := 1, count := 2 }, { src := 1, dst := 1, count := 4 },
              { src := 1, dst := 2, count := 3 }, { src := 1, dst := 2, count := 2 },
              { src := 2, dst := 1, count := 3 }, { src := 2, dst := 3, count := 2 }] } },
    { ident := 2, checksum := 0, name := "once", source := "spin.c", firstLine := 4
      graph :=
        { blocks :=
            #[{ exits := [0], count := 1 },
              { exits := [1], entries := [0], lines := [0, 0, 5], count := 1 },
              { entries := [1], count := 1 }]
          arcs := #[{ src := 0, dst := 1, count := 1 }, { src := 1, dst := 2, count := 1 }] } } ]

/-- The file of these functions. -/
def spinRegistry : Registry where
  files := #[{ name := "spin.c", index := 0, lineCount := 6 }]

/-- Their blocks on line 5 count 15 together, of which 12 pass between two of them. -/
theorem spinRegistry_counted :
    (∀ func ∈ spinFunctions, func.graph.Linked) ∧ ConservedAt spinFunctions 0 5
      ∧ ∃ r₁ r₂ line, spinRegistry.collectLines spinFunctions = .ok r₁ ()
        ∧ r₁.accumulateCounts spinFunctions = .ok r₂ ()
        ∧ r₂.line? 0 5 = some line ∧ line.count = 15 - 12
        ∧ countAcross spinFunctions 0 5 .exits = 3 := by
  have hlinked : ∀ func ∈ spinFunctions, func.graph.Linked := by decide
  have hconserved : ConservedAt spinFunctions 0 5 := by decide
  have hadmits : spinRegistry.AdmitsAll spinFunctions := by decide
  obtain ⟨r₁, hcollect, -, -⟩ := Registry.collectLines_ok hadmits
  obtain ⟨r₂, hcount, hshared⟩ :=
    Registry.count_shared_lines spinFunctions hlinked spinRegistry r₁ hcollect
  obtain ⟨line, hline, hdifference, hexits, -⟩ := hshared 0 5 ⟨0, 1⟩ ⟨1, 1⟩
    (mem_ownersAt.mp (by decide)) (mem_ownersAt.mp (by decide)) (by decide) hconserved
  have hblocks : countOfBlocks spinFunctions 0 5 = 15 := by decide
  have hwithin : countWithin spinFunctions 0 5 = 12 := by decide
  rw [hblocks, hwithin] at hdifference
  refine ⟨hlinked, hconserved, r₁, r₂, line, hcollect, hcount, hline, hdifference, ?_⟩
  rw [← hexits, hdifference]
  decide

end Coverage
