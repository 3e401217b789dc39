import Coverage.Plan.Grouping
import Mathlib.Data.List.Nodup
import Mathlib.Tactic.Common

/-!
# Groups in ascending order

The keys of a grouping ascend without repetition, every element stands in the group of its key,
and so the groups put end to end are the list sorted by key (`pairwise_flatMap_groupByKey`,
`mem_flatMap_groupByKey`).  Conversely a list that is sorted by key is what its groups make up
(`flatMap_range_filter`).
-/

namespace Coverage

/-! ## Keys -/

@[simp] theorem mem_insertKey {key k : Nat} {keys : List Nat} :
    k ∈ insertKey key keys ↔ k = key ∨ k ∈ keys := by
  induction keys with
  | nil => simp [insertKey]
  | cons first keys ih =>
    unfold insertKey
    split
    · simp
    · split
      · next heq => simp [heq]
      · rw [List.mem_cons, ih, List.mem_cons]
        tauto

theorem pairwise_insertKey {keys : List Nat} (h : keys.Pairwise (· < ·)) (key : Nat) :
    (insertKey key keys).Pairwise (· < ·) := by
  induction keys with
  | nil => exact List.pairwise_singleton _ _
  | cons first keys ih =>
    obtain ⟨hfirst, hkeys⟩ := List.pairwise_cons.mp h
    unfold insertKey
    split
    · next hlt =>
      refine List.pairwise_cons.mpr ⟨fun k hk => ?_, h⟩
      rcases List.mem_cons.mp hk with rfl | hk
      · exact hlt
      · exact Nat.lt_trans hlt (hfirst k hk)
    · split
      · exact h
      · next hlt hne =>
        refine List.pairwise_cons.mpr ⟨fun k hk => ?_, ih hkeys⟩
        rcases mem_insertKey.mp hk with rfl | hk
        · omega
        · exact hfirst k hk

@[simp] theorem mem_ascendingKeys {k : Nat} {keys : List Nat} :
    k ∈ ascendingKeys keys ↔ k ∈ keys := by
  induction keys with
  | nil => simp [ascendingKeys]
  | cons key keys ih =>
    rw [ascendingKeys, List.foldr_cons, mem_insertKey, ← ascendingKeys, ih, List.mem_cons]

theorem pairwise_ascendingKeys (keys : List Nat) : (ascendingKeys keys).Pairwise (· < ·) := by
  induction keys with
  | nil => exact List.Pairwise.nil
  | cons key keys ih => exact pairwise_insertKey ih key

theorem nodup_ascendingKeys (keys : List Nat) : (ascendingKeys keys).Nodup :=
  (pairwise_ascendingKeys keys).imp fun h => Nat.ne_of_lt h

/-! ## Groups -/

section Groups

variable {α β : Type} {key : α → Nat} {items : List α}

theorem mem_groupByKey {k : Nat} {group : List α} :
    (k, group) ∈ groupByKey key items
      ↔ (∃ a ∈ items, key a = k) ∧ group = items.filter (key · == k) := by
  simp only [groupByKey, List.mem_map, mem_ascendingKeys, Prod.mk.injEq]
  constructor
  · rintro ⟨k, hk, rfl, rfl⟩
    exact ⟨hk, rfl⟩
  · rintro ⟨hk, rfl⟩
    exact ⟨k, hk, rfl, rfl⟩

theorem mem_flatMap_groupByKey {a : α} :
    a ∈ (groupByKey key items).flatMap (·.2) ↔ a ∈ items := by
  rw [List.mem_flatMap]
  constructor
  · rintro ⟨⟨k, group⟩, hgroup, ha⟩
    obtain ⟨-, rfl⟩ := mem_groupByKey.mp hgroup
    exact List.mem_of_mem_filter ha
  · intro ha
    exact ⟨(key a, items.filter (key · == key a)), mem_groupByKey.mpr ⟨⟨a, ha, rfl⟩, rfl⟩,
      List.mem_filter.mpr ⟨ha, beq_self_eq_true _⟩⟩

/-- Groups put end to end ascend by key. -/
theorem pairwise_flatMap_groupByKey (key : α → Nat) (items : List α) :
    ((groupByKey key items).flatMap (·.2)).Pairwise fun a b => key a ≤ key b := by
  rw [groupByKey, List.flatMap_map, List.pairwise_flatMap]
  refine ⟨fun k _ => ?_, ?_⟩
  · refine List.pairwise_of_forall_mem_list fun a ha b hb => ?_
    rw [List.mem_filter, beq_iff_eq] at ha hb
    omega
  · refine (pairwise_ascendingKeys _).imp fun {k l} hlt a ha b hb => ?_
    rw [List.mem_filter, beq_iff_eq] at ha hb
    omega

/-- What is made of the group of one key, when nothing is made of no elements. -/
theorem flatMap_groupByKey_of_key (f : List α → List β) (hf : f [] = []) (k : Nat) :
    ((groupByKey key items).flatMap fun (i, group) => if i = k then f group else [])
      = f (items.filter (key · == k)) := by
  have hkeys : ∀ keys : List Nat, keys.Nodup →
      (keys.flatMap fun i => if i = k then f (items.filter (key · == i)) else [])
        = if k ∈ keys then f (items.filter (key · == k)) else [] := by
    intro keys hnodup
    induction keys with
    | nil => rfl
    | cons i keys ih =>
      obtain ⟨hmem, hnodup⟩ := List.nodup_cons.mp hnodup
      rw [List.flatMap_cons, ih hnodup]
      by_cases hik : i = k
      · subst hik
        simp [hmem]
      · simp [hik, Ne.symm hik]
  rw [groupByKey, List.flatMap_map, hkeys _ (nodup_ascendingKeys _)]
  split
  · rfl
  · next hmem =>
    have hnil : items.filter (key · == k) = [] := by
      refine List.filter_eq_nil_iff.mpr fun a ha hk => hmem ?_
      rw [mem_ascendingKeys, ← beq_iff_eq.mp hk]
      exact List.mem_map_of_mem ha
    rw [hnil, hf]

/-- Grouping loses nothing and repeats nothing. -/
theorem perm_flatMap_groupByKey [DecidableEq α] (key : α → Nat) (items : List α) :
    ((groupByKey key items).flatMap (·.2)).Perm items := by
  refine List.perm_iff_count.mpr fun a => ?_
  have hgroup : ∀ entry ∈ groupByKey key items,
      entry.2.count a = (if entry.1 = key a then entry.2 else []).count a := by
    rintro ⟨k, group⟩ hentry
    obtain ⟨-, rfl⟩ := mem_groupByKey.mp hentry
    dsimp only
    split
    · rfl
    · next hk =>
      refine List.count_eq_zero.mpr fun ha => hk ?_
      exact (beq_iff_eq.mp (List.mem_filter.mp ha).2).symm
  have hfilter : ((groupByKey key items).flatMap fun (i, group) => if i = key a then group else [])
      = items.filter (key · == key a) := flatMap_groupByKey_of_key id rfl (key a)
  have hall := congrArg (List.count a) hfilter
  rw [List.count_flatMap] at hall ⊢
  refine (congrArg List.sum (List.map_congr_left hgroup)).trans (hall.trans ?_)
  exact List.count_filter (by simp)

/-! ## Sorted lists -/

theorem filter_lt_succ {n : Nat} (h : items.Pairwise fun a b => key a ≤ key b) :
    items.filter (key · < n + 1) = items.filter (key · < n) ++ items.filter (key · = n) := by
  induction items with
  | nil => rfl
  | cons a items ih =>
    obtain ⟨hhead, htail⟩ := List.pairwise_cons.mp h
    have hrest := ih htail
    rcases Nat.lt_trichotomy (key a) n with hlt | heq | hgt
    · rw [List.filter_cons_of_pos (by simp; omega), List.filter_cons_of_pos (by simpa using hlt),
        List.filter_cons_of_neg (by simp; omega), hrest, List.cons_append]
    · have hnil : items.filter (key · < n) = [] := by
        refine List.filter_eq_nil_iff.mpr fun b hb => ?_
        have := hhead b hb
        simp
        omega
      rw [List.filter_cons_of_pos (by simp; omega), List.filter_cons_of_neg (by simp; omega),
        List.filter_cons_of_pos (by simpa using heq), hrest, hnil]
      rfl
    · rw [List.filter_cons_of_neg (by simp; omega), List.filter_cons_of_neg (by simp; omega),
        List.filter_cons_of_neg (by simp; omega), hrest]

/-- A sorted list is made up of its groups. -/
theorem flatMap_range_filter {n : Nat} (h : items.Pairwise fun a b => key a ≤ key b)
    (hlt : ∀ a ∈ items, key a < n) :
    ((List.range n).flatMap fun i => items.filter (key · = i)) = items := by
  have hbelow : ∀ m, ((List.range m).flatMap fun i => items.filter (key · = i))
      = items.filter (key · < m) := by
    intro m
    induction m with
    | zero => simp
    | succ m ih => rw [List.range_succ, List.flatMap_append, ih, List.flatMap_singleton,
        filter_lt_succ h]
  rw [hbelow]
  exact List.filter_eq_self.mpr fun a ha => by simpa using hlt a ha

end Groups

end Coverage
