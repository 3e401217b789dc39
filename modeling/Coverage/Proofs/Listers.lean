import Coverage.Proofs.Aggregation
import Coverage.Proofs.Inference

/-!
# Blocks that list a line

A line may have blocks of several functions, but no arc leads from one function to another.  So the
blocks of a line, and the flow that enters them from without, are told function by function
(`perm_ownersAt`, `externalInflow_ownersAt`).
-/

namespace Coverage

namespace Func

/-- The blocks of a function that list a line of a file. -/
def listers (func : Func) (i n : Nat) : List Nat :=
  (List.range func.graph.size).filter fun j =>
    (func.graph.blocks[j]?).any fun b => (i, n) ∈ b.associations

/-- What enters a block from blocks other than the given ones. -/
def inflowBeyond (func : Func) (blocks : List Nat) (i : Nat) : Int :=
  total (·.count) ((func.graph.arcsOf (func.graph.side i .entries)).filter (·.src ∉ blocks))

variable {func : Func} {i n j : Nat}

theorem mem_listers : j ∈ func.listers i n
    ↔ ∃ b, func.graph.blocks[j]? = some b ∧ (i, n) ∈ b.associations := by
  rw [listers, List.mem_filter, List.mem_range, Option.any_eq_true]
  constructor
  · rintro ⟨-, b, hb, hlists⟩
    exact ⟨b, hb, by simpa using hlists⟩
  · rintro ⟨b, hb, hlists⟩
    exact ⟨(Array.getElem?_eq_some_iff.mp hb).1, b, hb, by simpa using hlists⟩

theorem nodup_listers (func : Func) (i n : Nat) : (func.listers i n).Nodup :=
  List.nodup_range.filter _

end Func

section Owners

variable {functions : List Func} {i n : Nat} {owner : BlockRef}

theorem lists_iff_listers : Lists functions i n owner
    ↔ ∃ func, functions[owner.func]? = some func ∧ owner.block ∈ func.listers i n := by
  simp only [Lists, Func.mem_listers, exists_and_left]

/-- The owners of a line are the blocks that list it, function by function. -/
theorem perm_ownersAt (functions : List Func) (i n : Nat) :
    (ownersAt functions i n).Perm (functions.zipIdx.flatMap fun (func, k) =>
      (func.listers i n).map fun block => ⟨k, block⟩) := by
  refine (List.perm_ext_iff_of_nodup (nodup_ownersAt functions i n) ?_).mpr fun owner => ?_
  · refine List.nodup_flatMap.mpr ⟨fun (func, k) _ => ?_, ?_⟩
    · refine (Func.nodup_listers func i n).map fun a b hab => ?_
      exact (BlockRef.mk.inj hab).2
    · have hpositions : (functions.zipIdx.map (·.2)).Nodup := by
        rw [List.zipIdx_map_snd]
        exact List.nodup_range'
      refine (List.pairwise_map.mp hpositions).imp fun {a b} hne => ?_
      intro owner ha hb
      obtain ⟨j, -, rfl⟩ := List.mem_map.mp ha
      obtain ⟨j', -, heq⟩ := List.mem_map.mp hb
      exact hne (BlockRef.mk.inj heq).1.symm
  · rw [mem_ownersAt, lists_iff_listers]
    simp only [List.mem_flatMap, List.mem_map, Prod.exists, List.mem_zipIdx_iff_getElem?]
    constructor
    · rintro ⟨func, hfunc, hblock⟩
      exact ⟨func, owner.func, hfunc, owner.block, hblock, rfl⟩
    · rintro ⟨func, k, hfunc, j, hj, rfl⟩
      exact ⟨func, hfunc, hj⟩

/-- A sum over the owners of a line, function by function. -/
theorem total_ownersAt (f : BlockRef → Int) (functions : List Func) (i n : Nat) :
    total f (ownersAt functions i n) = total (fun (func, k) =>
      total (fun block => f ⟨k, block⟩) (func.listers i n)) functions.zipIdx := by
  rw [total_perm (perm_ownersAt functions i n), total_flatMap]
  exact total_congr fun (func, k) _ => total_map f _ _

theorem length_ownersAt (functions : List Func) (i n : Nat) :
    ((ownersAt functions i n).length : Int)
      = total (fun func => ((func.listers i n).length : Int)) functions := by
  have hone : ∀ {α : Type} (xs : List α), (xs.length : Int) = total (fun _ => 1) xs := by
    intro α xs
    induction xs with
    | nil => rfl
    | cons x xs ih =>
      rw [List.length_cons, total_cons, ← ih]
      omega
  rw [hone, total_ownersAt]
  simp only [← hone]
  exact total_zipIdx (fun func : Func => ((func.listers i n).length : Int)) functions 0

/-- What enters one of the owners of a line from without. -/
theorem inflowTo_ownersAt {func : Func} (hfunc : functions[owner.func]? = some func)
    (howner : owner.block ∈ func.listers i n) :
    inflowTo functions (ownersAt functions i n) owner
      = some (func.inflowBeyond (func.listers i n) owner.block) := by
  obtain ⟨b, hb, -⟩ := Func.mem_listers.mp howner
  have hbeyond : ∀ arc : Arc, ({ func := owner.func, block := arc.src } : BlockRef)
      ∈ ownersAt functions i n ↔ arc.src ∈ func.listers i n := by
    intro arc
    rw [mem_ownersAt, lists_iff_listers]
    simp [hfunc]
  rw [inflowTo_eq hfunc hb]
  simp only [hbeyond, Func.inflowBeyond, FlowGraph.side_of_getElem? hb]
  rfl

/-- What enters the owners of a line from without, function by function. -/
theorem externalInflow_ownersAt (functions : List Func) (i n : Nat) :
    externalInflow functions (ownersAt functions i n) = some (total (fun func =>
      total (func.inflowBeyond (func.listers i n)) (func.listers i n)) functions) := by
  let inflow (owner : BlockRef) : Int :=
    ((functions[owner.func]?).map fun func =>
      func.inflowBeyond (func.listers i n) owner.block).getD 0
  have hinflow : ∀ owner ∈ ownersAt functions i n,
      inflowTo functions (ownersAt functions i n) owner = some (inflow owner) := by
    intro owner howner
    obtain ⟨func, hfunc, hblock⟩ := lists_iff_listers.mp (mem_ownersAt.mp howner)
    rw [inflowTo_ownersAt hfunc hblock]
    simp only [inflow, hfunc, Option.map_some, Option.getD_some]
  rw [externalInflow_eq hinflow, total_ownersAt,
    ← total_zipIdx (fun func : Func =>
      total (func.inflowBeyond (func.listers i n)) (func.listers i n)) functions 0]
  refine congrArg some (total_congr fun (func, k) hfunc => ?_)
  have hget : functions[k]? = some func := List.mem_zipIdx_iff_getElem?.mp hfunc
  simp only [inflow, hget, Option.map_some, Option.getD_some]

end Owners

end Coverage
