/-!
# Totals

The sum of a quantity over the elements of a list.  It splits along everything that splits the
list: heads and tails, parts put end to end, and elements that pass a test or do not.
-/

namespace Coverage

/-- The sum of `f` over a list. -/
def total {α : Type} (f : α → Int) (xs : List α) : Int :=
  xs.foldr (fun x rest => f x + rest) 0

@[simp] theorem total_nil {α : Type} (f : α → Int) : total f [] = 0 :=
  rfl

@[simp] theorem total_cons {α : Type} (f : α → Int) (x : α) (xs : List α) :
    total f (x :: xs) = f x + total f xs :=
  rfl

@[simp] theorem total_append {α : Type} (f : α → Int) (xs ys : List α) :
    total f (xs ++ ys) = total f xs + total f ys := by
  induction xs with
  | nil => simp
  | cons x xs ih => simp [ih, Int.add_assoc]

@[simp] theorem total_map {α β : Type} (f : β → Int) (g : α → β) (xs : List α) :
    total f (xs.map g) = total (fun x => f (g x)) xs := by
  induction xs with
  | nil => rfl
  | cons x xs ih => simp [ih]

theorem total_perm {α : Type} {f : α → Int} {xs ys : List α} (h : xs.Perm ys) :
    total f xs = total f ys := by
  induction h with
  | nil => rfl
  | cons x _ ih => simp [ih]
  | swap x y l => simp only [total_cons]; omega
  | trans _ _ ih₁ ih₂ => rw [ih₁, ih₂]

theorem total_flatMap {α β : Type} (f : β → Int) (g : α → List β) (xs : List α) :
    total f (xs.flatMap g) = total (fun x => total f (g x)) xs := by
  induction xs with
  | nil => rfl
  | cons x xs ih => simp [ih]

@[simp] theorem total_zipIdx {α : Type} (f : α → Int) (xs : List α) (start : Nat) :
    total (fun x => f x.1) (xs.zipIdx start) = total f xs := by
  rw [← total_map, List.zipIdx_map_fst]

theorem total_congr {α : Type} {f g : α → Int} {xs : List α} (h : ∀ x ∈ xs, f x = g x) :
    total f xs = total g xs := by
  induction xs with
  | nil => rfl
  | cons x xs ih =>
    rw [total_cons, total_cons, h x List.mem_cons_self,
      ih fun y hy => h y (List.mem_cons_of_mem _ hy)]

theorem total_add {α : Type} (f g : α → Int) (xs : List α) :
    total (fun x => f x + g x) xs = total f xs + total g xs := by
  induction xs with
  | nil => rfl
  | cons x xs ih => simp only [total_cons, ih]; omega

@[simp] theorem total_zero {α : Type} (xs : List α) : total (fun _ => 0) xs = 0 := by
  induction xs with
  | nil => rfl
  | cons x xs ih => simp [ih]

theorem total_nonneg {α : Type} {f : α → Int} {xs : List α} (h : ∀ x ∈ xs, 0 ≤ f x) :
    0 ≤ total f xs := by
  induction xs with
  | nil => exact Int.le_refl 0
  | cons x xs ih =>
    rw [total_cons]
    exact Int.add_nonneg (h x List.mem_cons_self) (ih fun y hy => h y (List.mem_cons_of_mem x hy))

/-- What passes a test and what does not make up the whole. -/
theorem total_filter_add_total_filter_not {α : Type} (f : α → Int) (p : α → Bool) (xs : List α) :
    total f (xs.filter p) + total f (xs.filter fun x => !p x) = total f xs := by
  induction xs with
  | nil => rfl
  | cons x xs ih => cases h : p x <;> simp [h] <;> omega

/-- A sum to which a single element contributes. -/
theorem total_eq_of_single {α : Type} {f : α → Int} {xs : List α} {i : Nat} {a : α}
    (ha : xs[i]? = some a) (hzero : ∀ j b, xs[j]? = some b → j ≠ i → f b = 0) :
    total f xs = f a := by
  induction xs generalizing i with
  | nil => simp at ha
  | cons x xs ih =>
    cases i with
    | zero =>
      obtain rfl : x = a := by simpa using ha
      have hrest : total f xs = total (fun _ => 0) xs :=
        total_congr fun b hb => by
          obtain ⟨j, hj⟩ := List.mem_iff_getElem?.mp hb
          exact hzero (j + 1) b (by simpa using hj) (by simp)
      rw [total_cons, hrest, total_zero, Int.add_zero]
    | succ i =>
      have hx : f x = 0 := hzero 0 x rfl (by simp)
      rw [total_cons, hx, Int.zero_add]
      exact ih (by simpa using ha) fun j b hb hne =>
        hzero (j + 1) b (by simpa using hb) (by simpa using hne)

/-- How often the elements of a list without repetition occur in another. -/
theorem total_count {α : Type} [DecidableEq α] {as : List α} (hnodup : as.Nodup) (xs : List α) :
    total (fun a => (xs.count a : Int)) as = (xs.countP (· ∈ as) : Nat) := by
  have hone : ∀ x, total (fun a => ((if x == a then 1 else 0 : Nat) : Int)) as
      = ((if x ∈ as then 1 else 0 : Nat) : Int) := by
    intro x
    induction as with
    | nil => rfl
    | cons a as ih =>
      obtain ⟨ha, has⟩ := List.nodup_cons.mp hnodup
      rw [total_cons, ih has]
      by_cases hxa : x = a
      · subst hxa
        simp [ha]
      · simp [hxa]
  induction xs with
  | nil => simp
  | cons x xs ih =>
    simp only [List.count_cons, Int.natCast_add, total_add, ih, hone, List.countP_cons,
      decide_eq_true_eq]

theorem total_countP_flatMap {α β : Type} (p : β → Bool) (f : α → List β) (xs : List α) :
    total (fun x => ((f x).countP p : Int)) xs = ((xs.flatMap f).countP p : Nat) := by
  induction xs with
  | nil => rfl
  | cons x xs ih => rw [total_cons, ih, List.flatMap_cons, List.countP_append, Int.natCast_add]

end Coverage
