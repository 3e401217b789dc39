import Coverage.Proofs.Likeness
import Coverage.Proofs.Listers

/-!
# What functions add to a line

Which blocks a line has, what they count and what enters them from others are told function by
function: arcs stay within a function.  So each function has a share in a line (`Func.share`), and
what the line comes to is read off the sum of the shares (`tally_eq_share`), whatever the order of
the functions and the positions of the sources.

* `Func.Alike.share_eq` — functions that are alike have the same shares;
* `tally_eq_share` — a line comes to the sum of the shares of all functions;
* `SourceFile.lineCoverage_eq` — the coverage of a file lists the lines that anything comes to.
-/

namespace Coverage

/-! ## Related lists -/

theorem forall₂_of_optionRel {α β : Type} {R : α → β → Prop} {xs : List α} {ys : List β}
    (h : ∀ k : Nat, Option.Rel R xs[k]? ys[k]?) : List.Forall₂ R xs ys := by
  induction xs generalizing ys with
  | nil =>
    cases ys with
    | nil => exact .nil
    | cons y ys => cases h 0
  | cons x xs ih =>
    cases ys with
    | nil => cases h 0
    | cons y ys =>
      obtain ⟨y', hy, hxy⟩ := optionRel_of_left (h 0) rfl
      obtain rfl : y = y' := Option.some.inj hy
      exact .cons hxy (ih fun k => h (k + 1))

theorem total_congr_forall₂ {α β : Type} {f : α → Int} {g : β → Int} {xs : List α} {ys : List β}
    (h : List.Forall₂ (fun x y => f x = g y) xs ys) : total f xs = total g ys := by
  induction h with
  | nil => rfl
  | cons hxy _ ih => rw [total_cons, total_cons, hxy, ih]

/-! ## Lines by name -/

/-- The lines that a block lists, each with the name of its source. -/
def Block.named (b : Block) (r : Registry) : List (Option String × Nat) :=
  b.associations.map fun place => (r.names[place.1]?, place.2)

/-- How often a block lists a line of a source. -/
def Block.mentions (b : Block) (r : Registry) (file : String) (n : Nat) : Nat :=
  (b.named r).count (some file, n)

/-- Blocks that are alike list the same lines. -/
theorem Block.Alike.mentions_eq {r r' : Registry} {b b' : Block} (h : b.Alike r r' b')
    (file : String) (n : Nat) : b'.mentions r' file n = b.mentions r file n := by
  obtain ⟨hlists, hlists'⟩ := h
  rw [Block.mentions, Block.mentions, Block.named, Block.named,
    Registry.map_names_of_locates hlists.located, Registry.map_names_of_locates hlists'.located]

theorem Block.Alike.count_eq {r r' : Registry} {b b' : Block} (h : b.Alike r r' b') :
    b'.count = b.count := by
  obtain ⟨-, -⟩ := h
  rfl

/-- The only file of a name has the lines that blocks list by that name. -/
theorem Block.count_associations {r : Registry} (hnames : r.names.Nodup) {i n : Nat} {file : String}
    (hfile : r.names[i]? = some file) (b : Block) :
    b.associations.count (i, n) = b.mentions r file n := by
  rw [Block.mentions, Block.named]
  induction b.associations with
  | nil => rfl
  | cons place places ih =>
    have hplace : place = (i, n) ↔ (r.names[place.1]?, place.2) = (some file, n) := by
      constructor
      · rintro rfl
        rw [hfile]
      · intro h
        obtain ⟨hname, hline⟩ := Prod.mk.inj h
        refine Prod.ext ?_ hline
        exact (List.getElem?_inj (List.getElem?_eq_some_iff.mp hname).1 hnames).mp
          (hname.trans hfile.symm)
    rw [List.map_cons, List.count_cons, List.count_cons, ih]
    simp only [beq_iff_eq, hplace]

/-- A line of a source that is not registered is never listed. -/
theorem Block.mentions_eq_zero {r : Registry} {file : String} (h : file ∉ r.names) (b : Block)
    (n : Nat) : b.mentions r file n = 0 := by
  refine List.count_eq_zero.mpr fun hmem => ?_
  obtain ⟨place, -, hplace⟩ := List.mem_map.mp hmem
  exact h (List.mem_of_getElem? (Prod.mk.inj hplace).1)

/-! ## Shares -/

/-- What a function, or several of them, have to do with a line. -/
@[ext] structure Share where
  /-- The number of blocks that list the line. -/
  blocks : Int
  /-- The counts of these blocks, each as often as the block lists the line. -/
  visits : Int
  /-- The flow into these blocks from others. -/
  inflow : Int
deriving DecidableEq, Repr

namespace Share

/-- No share at all. -/
def none : Share where
  blocks := 0
  visits := 0
  inflow := 0

/-- All shares together. -/
def sum (shares : List Share) : Share where
  blocks := total (·.blocks) shares
  visits := total (·.visits) shares
  inflow := total (·.inflow) shares

theorem sum_perm {shares others : List Share} (h : shares.Perm others) : sum shares = sum others :=
  Share.ext (total_perm h) (total_perm h) (total_perm h)

/-- The shares of several groups are those of all their members. -/
theorem sum_flatMap {α : Type} (f : α → List Share) (xs : List α) :
    sum (xs.flatMap f) = sum (xs.map fun x => sum (f x)) := by
  simp only [sum, total_flatMap, total_map]

/-- Whoever has no share can be left out. -/
theorem sum_filter {α : Type} {f : α → Share} {p : α → Bool} {xs : List α}
    (h : ∀ x ∈ xs, p x = false → f x = none) : sum ((xs.filter p).map f) = sum (xs.map f) := by
  have htotal : ∀ g : Share → Int, g none = 0 →
      total g ((xs.filter p).map f) = total g (xs.map f) := by
    intro g hg
    rw [total_map, total_map, ← total_filter_add_total_filter_not (fun x => g (f x)) p xs]
    have hrest : total (fun x => g (f x)) (xs.filter fun x => !p x) = total (fun _ => 0)
        (xs.filter fun x => !p x) := by
      refine total_congr fun x hx => ?_
      obtain ⟨hmem, hp⟩ := List.mem_filter.mp hx
      rw [h x hmem (by simpa using hp), hg]
    rw [hrest, total_zero, Int.add_zero]
  exact Share.ext (htotal _ rfl) (htotal _ rfl) (htotal _ rfl)

/-- The count of a line in which there is this share altogether: a single block counts as often as
it lists the line, and several blocks count what enters them from others. -/
def count (share : Share) : Int :=
  if share.blocks = 1 then share.visits else share.inflow

/-- The entry of the line `n` in which there is this share altogether, if it is instrumented. -/
def entry (share : Share) (n : Nat) : Option LineCoverage :=
  if share.blocks = 0 then .none
  else some { line := n, executed := decide (0 < share.count), count := share.count }

theorem sum_none {α : Type} (xs : List α) : sum (xs.map fun _ => none) = none := by
  simp only [sum, none, total_map, total_zero]

end Share

namespace Func

/-- The blocks of a function that list a line. -/
def listing (func : Func) (r : Registry) (file : String) (n : Nat) : List Nat :=
  (List.range func.graph.size).filter fun i =>
    (func.graph.blocks[i]?).any fun b => 0 < b.mentions r file n

/-- The share of a function in a line. -/
def share (func : Func) (r : Registry) (file : String) (n : Nat) : Share where
  blocks := (func.listing r file n).length
  visits := total (fun b => b.mentions r file n * b.count) func.graph.blocks.toList
  inflow := total (func.inflowBeyond (func.listing r file n)) (func.listing r file n)

variable {r r' : Registry} {func func' : Func} {file : String} {n : Nat}

theorem mem_listing {i : Nat} : i ∈ func.listing r file n
    ↔ ∃ b, func.graph.blocks[i]? = some b ∧ 0 < b.mentions r file n := by
  rw [listing, List.mem_filter, List.mem_range, Option.any_eq_true]
  constructor
  · rintro ⟨-, b, hb, hlists⟩
    exact ⟨b, hb, by simpa using hlists⟩
  · rintro ⟨b, hb, hlists⟩
    exact ⟨FlowGraph.lt_of_getElem? hb, b, hb, by simpa using hlists⟩

/-- Functions that are alike have the same shares. -/
theorem Alike.share_eq (h : func.Alike r r' func') (file : String) (n : Nat) :
    func'.share r' file n = func.share r file n := by
  have hgraph := h.graph
  have hlisting : func'.listing r' file n = func.listing r file n := by
    rw [listing, listing, hgraph.size]
    refine List.filter_congr fun i _ => ?_
    rcases optionRel_cases (hgraph.blocks i) with ⟨b, b', hb, hb', hlike⟩ | ⟨hb, hb'⟩
    · rw [hb, hb', Option.any_some, Option.any_some, hlike.mentions_eq]
    · rw [hb, hb', Option.any_none, Option.any_none]
  have hinflow : func'.inflowBeyond = func.inflowBeyond := by
    funext blocks i
    rw [inflowBeyond, inflowBeyond, hgraph.arcsOf_eq, hgraph.side_eq]
  have hvisits : total (fun b => (b.mentions r' file n : Int) * b.count) func'.graph.blocks.toList
      = total (fun b => (b.mentions r file n : Int) * b.count) func.graph.blocks.toList := by
    refine (total_congr_forall₂ (forall₂_of_optionRel fun i => ?_)).symm
    rw [Array.getElem?_toList, Array.getElem?_toList]
    refine optionRel_imp (hgraph.blocks i) fun b b' hlike => ?_
    rw [hlike.mentions_eq, hlike.count_eq]
  rw [share, share, hlisting, hinflow, hvisits]

/-- A function has no share in a line of a source that is not registered. -/
theorem share_eq_zero (h : file ∉ r.names) (func : Func) (n : Nat) :
    func.share r file n = .none := by
  have hlisting : func.listing r file n = [] := by
    refine List.eq_nil_iff_forall_not_mem.mpr fun i hi => ?_
    obtain ⟨b, -, hlists⟩ := mem_listing.mp hi
    rw [Block.mentions_eq_zero h] at hlists
    omega
  rw [share, hlisting, Share.none]
  simp [Block.mentions_eq_zero h]

end Func

/-! ## What a line comes to -/

section Tally

variable {functions : List Func} {r : Registry} {i n : Nat} {file : String}

/-- The blocks that list a line of the only file of a name. -/
theorem listing_eq (hnames : r.names.Nodup) (hfile : r.names[i]? = some file) (func : Func) :
    func.listing r file n = func.listers i n := by
  rw [Func.listing, Func.listers]
  simp only [← Block.count_associations hnames hfile, List.count_pos_iff]

/-- A line that blocks may list comes to the sum of the shares of all functions in it. -/
theorem tally_eq_share (functions : List Func) (n : Nat) (hnames : r.names.Nodup)
    (hfile : r.names[i]? = some file) :
    (SourceLine.tally functions (visitsAt functions i n)).count
        = (Share.sum (functions.map (·.share r file n))).count
      ∧ ((SourceLine.tally functions (visitsAt functions i n)).instrumented = true
        ↔ (Share.sum (functions.map (·.share r file n))).blocks ≠ 0) := by
  have hblocks : ((ownersAt functions i n).length : Int)
      = (Share.sum (functions.map (·.share r file n))).blocks := by
    simp only [length_ownersAt, Share.sum, total_map, Func.share, listing_eq hnames hfile]
  have hvisits : total (·.count) (visitsAt functions i n)
      = (Share.sum (functions.map (·.share r file n))).visits := by
    rw [total_visitsAt]
    simp only [Share.sum, total_map, Block.count_associations hnames hfile]
    rfl
  have hinflow : externalInflow functions (ownersAt functions i n)
      = some (Share.sum (functions.map (·.share r file n))).inflow := by
    simp only [externalInflow_ownersAt, Share.sum, total_map, Func.share, listing_eq hnames hfile]
  constructor
  · show (if (ownersAt functions i n).length = 1 then total (·.count) (visitsAt functions i n)
      else (externalInflow functions (ownersAt functions i n)).getD 0) = _
    rw [hvisits, hinflow, Share.count, ← hblocks, Option.getD_some]
    norm_cast
  · rw [instrumented_tally, ← hblocks]
    simp only [← mem_ownersAt]
    rw [← List.length_pos_iff_exists_mem]
    omega

end Tally

/-! ## The coverage of a file -/

/-- The numbered elements of a list, one by one. -/
theorem filterMap_zipIdx {α β : Type} (f : α × Nat → Option β) (xs : List α) (k : Nat) :
    (xs.zipIdx k).filterMap f
      = (List.range xs.length).filterMap fun n => (xs[n]?).bind fun x => f (x, k + n) := by
  induction xs generalizing k with
  | nil => rfl
  | cons x xs ih =>
    rw [List.zipIdx_cons, List.length_cons, List.range_succ_eq_map, List.filterMap_cons,
      List.filterMap_cons, List.filterMap_map, ih]
    simp [Nat.add_assoc, Nat.add_comm 1]

/-- The coverage of a file lists the entries of its lines. -/
theorem SourceFile.lineCoverage_eq (file : SourceFile) :
    file.lineCoverage = (List.range file.lines.size).filterMap fun n =>
      (file.lines[n]?).bind fun line =>
        if line.instrumented then
          some { line := n, executed := decide (0 < line.count), count := line.count }
        else none := by
  rw [lineCoverage, ← List.filterMap_eq_map, List.filterMap_filter, filterMap_zipIdx]
  simp

/-- Entries that go on with nothing are the same in lists of any length. -/
theorem filterMap_range_eq {α : Type} {f : Nat → Option α} {a b : Nat}
    (ha : ∀ n, a ≤ n → f n = none) (hb : ∀ n, b ≤ n → f n = none) :
    (List.range a).filterMap f = (List.range b).filterMap f := by
  have hextend : ∀ {a c : Nat}, (∀ n, a ≤ n → f n = none) → a ≤ c →
      (List.range c).filterMap f = (List.range a).filterMap f := by
    intro a c hnone hac
    obtain ⟨d, rfl⟩ := Nat.exists_eq_add_of_le hac
    rw [List.range_add, List.filterMap_append, List.filterMap_map]
    have hrest : (List.range d).filterMap (f ∘ (a + ·)) = [] := by
      rw [List.filterMap_eq_nil_iff]
      exact fun n _ => hnone _ (Nat.le_add_right a n)
    rw [hrest, List.append_nil]
  rcases Nat.le_total a b with hab | hba
  · exact (hextend ha hab).symm
  · exact hextend hb hba

end Coverage
