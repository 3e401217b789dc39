import Mathlib.Combinatorics.SimpleGraph.Acyclic
import Mathlib.Tactic.Common

/-!
# Undirected multigraphs

Vertices are the numbers below some bound.  Edges carry names of their own, so two of them may
join the same vertices, and an edge may join a vertex to itself.  Two facts are needed of them.

* `Multigraph.Acyclic.exists_leaf` — where no trail closes, somewhere an edge has no other edge
  to go on with, and this even beside a given vertex.
* `Multigraph.Connected.order_le` — to hold `n` vertices together takes `n - 1` edges.
-/

namespace Coverage

/-- Edges between numbered vertices. -/
structure Multigraph (ε : Type) where
  /-- The number of vertices. -/
  order : Nat
  /-- The vertices that an edge joins; names that no edge has are without any. -/
  ends : ε → Option (Nat × Nat)

namespace Multigraph

variable {ε : Type} {G : Multigraph ε} {e : ε} {es : List ε} {i j k : Nat}

/-! ## Edges -/

/-- The edge `e` joins `i` and `j`, in no particular direction. -/
def Joins (G : Multigraph ε) (e : ε) (i j : Nat) : Prop :=
  G.ends e = some (i, j) ∨ G.ends e = some (j, i)

theorem Joins.symm (h : G.Joins e i j) : G.Joins e j i :=
  Or.symm h

/-- An edge joins one pair of vertices only. -/
theorem Joins.same {i' j' : Nat} (h : G.Joins e i j) (h' : G.Joins e i' j') :
    (i' = i ∧ j' = j) ∨ (i' = j ∧ j' = i) := by
  rcases h with h | h <;> rcases h' with h' | h' <;> rw [h] at h' <;> cases h' <;> simp

/-- Every edge joins vertices of the graph. -/
def Closed (G : Multigraph ε) : Prop :=
  ∀ e i j, G.ends e = some (i, j) → i < G.order ∧ j < G.order

theorem Joins.lt (hG : G.Closed) (h : G.Joins e i j) : i < G.order ∧ j < G.order := by
  rcases h with h | h
  · exact hG e i j h
  · exact (hG e j i h).symm

/-! ## Trails -/

/-- `G.Trail es i j`: the edges `es`, no two of which are the same, lead from `i` to `j`. -/
inductive Trail (G : Multigraph ε) : List ε → Nat → Nat → Prop
  | nil (i : Nat) : Trail G [] i i
  | cons {e : ε} {es : List ε} {i j k : Nat} :
      G.Joins e i j → e ∉ es → Trail G es j k → Trail G (e :: es) i k

/-- No trail comes back to where it began, but for the one that never left. -/
def Acyclic (G : Multigraph ε) : Prop :=
  ∀ es i, G.Trail es i i → es = []

/-- Every vertex can be reached from every other. -/
def Connected (G : Multigraph ε) : Prop :=
  ∀ i < G.order, ∀ j < G.order, Relation.ReflTransGen (fun i j => ∃ e, G.Joins e i j) i j

theorem Trail.nodup (h : G.Trail es i j) : es.Nodup := by
  induction h with
  | nil => exact List.nodup_nil
  | cons _ hmem _ ih => exact List.nodup_cons.mpr ⟨hmem, ih⟩

/-- The edges of a trail are among those of the graph. -/
theorem Trail.exists_joins (h : G.Trail es i j) (he : e ∈ es) : ∃ x y, G.Joins e x y := by
  induction h with
  | nil => cases he
  | cons hjoin _ _ ih =>
    rcases List.mem_cons.mp he with rfl | he
    · exact ⟨_, _, hjoin⟩
    · exact ih he

/-- A trail up to one of its edges, which it takes from `x` to `y`, and from there on. -/
theorem Trail.split {es₁ es₂ : List ε} (h : G.Trail (es₁ ++ e :: es₂) i k) :
    ∃ x y, G.Joins e x y ∧ G.Trail es₁ i x ∧ G.Trail es₂ y k ∧ e ∉ es₁ ∧ e ∉ es₂ := by
  induction es₁ generalizing i with
  | nil =>
    cases h with
    | cons hjoin hmem hrest => exact ⟨_, _, hjoin, .nil _, hrest, List.not_mem_nil, hmem⟩
  | cons d es₁ ih =>
    cases h with
    | cons hjoin hmem hrest =>
      obtain ⟨x, y, hxy, htrail, hrest, he₁, he₂⟩ := ih hrest
      replace hmem : d ∉ es₁ ++ e :: es₂ := hmem
      rw [List.mem_append, List.mem_cons, not_or, not_or] at hmem
      refine ⟨x, y, hxy, .cons hjoin hmem.1 htrail, hrest, ?_, he₂⟩
      rw [List.mem_cons, not_or]
      exact ⟨fun h => hmem.2.1 h.symm, he₁⟩

/-- A trail, and then one further edge. -/
theorem Trail.snoc (h : G.Trail es i j) (he : e ∉ es) (hjoin : G.Joins e j k) :
    G.Trail (es ++ [e]) i k := by
  induction h with
  | nil => exact .cons hjoin List.not_mem_nil (.nil _)
  | cons hd hmem _ ih =>
    simp only [List.mem_cons, not_or] at he
    refine .cons hd ?_ (ih he.2 hjoin)
    simpa using ⟨hmem, fun h => he.1 h.symm⟩

/-! ## Fewer edges -/

open Classical in
/-- The graph with those edges only that pass a test. -/
noncomputable def restrict (G : Multigraph ε) (keep : ε → Prop) : Multigraph ε where
  order := G.order
  ends e := if keep e then G.ends e else none

theorem restrict_joins {keep : ε → Prop} :
    (G.restrict keep).Joins e i j ↔ keep e ∧ G.Joins e i j := by
  by_cases h : keep e <;> simp [Joins, restrict, h]

theorem Trail.of_restrict {keep : ε → Prop} (h : (G.restrict keep).Trail es i j) :
    G.Trail es i j := by
  induction h with
  | nil i => exact .nil i
  | cons hjoin hmem _ ih => exact .cons (restrict_joins.mp hjoin).2 hmem ih

theorem Acyclic.restrict (hG : G.Acyclic) (keep : ε → Prop) : (G.restrict keep).Acyclic :=
  fun es i h => hG es i h.of_restrict

/-- An edge from a vertex to itself closes a trail. -/
theorem Acyclic.ne_of_joins (hG : G.Acyclic) (h : G.Joins e i j) : i ≠ j := by
  rintro rfl
  exact absurd (hG _ _ (.cons h List.not_mem_nil (.nil i))) (by simp)

/-! ## Leaves -/

/-- Where no trail closes, a trail can be gone on with by any edge but the one that it began
with. -/
theorem Acyclic.not_mem_of_joins (hG : G.Acyclic) (h : G.Trail (e :: es) i k) {d : ε}
    (hd : G.Joins d i j) (hne : d ≠ e) : d ∉ e :: es := by
  intro hmem
  obtain ⟨es₁, es₂, hsplit⟩ := List.append_of_mem hmem
  obtain ⟨x, y, hxy, htrail, -, hd₁, -⟩ := Trail.split (hsplit ▸ h)
  have hne₁ : es₁ ≠ [] := by
    rintro rfl
    exact hne (List.cons.inj hsplit).1.symm
  -- the edge is met again where it began, or it leads back there
  rcases hd.same hxy with ⟨rfl, -⟩ | ⟨-, rfl⟩
  · exact hne₁ (hG _ _ htrail)
  · exact absurd (hG _ _ (htrail.snoc hd₁ hxy)) (by simp)

/-- Trails of any length, where none closes and every edge leads on from every vertex but `r`. -/
theorem Acyclic.exists_trail (hG : G.Acyclic) {r i₀ j₀ : Nat} {e₀ : ε} (hstart : G.Joins e₀ i₀ j₀)
    (hr : j₀ = r ∨ ∀ e i, ¬ G.Joins e i r)
    (on : ∀ e i j, G.Joins e i j → i ≠ r → ∃ d k, d ≠ e ∧ G.Joins d i k) (n : Nat) :
    ∃ e es i, es.length = n ∧ G.Trail (e :: es) i j₀ := by
  induction n with
  | zero => exact ⟨e₀, [], i₀, rfl, .cons hstart List.not_mem_nil (.nil _)⟩
  | succ n ih =>
    obtain ⟨e, es, i, hlen, htrail⟩ := ih
    have hir : i ≠ r := by
      rintro rfl
      rcases hr with rfl | hr
      · exact absurd (hG _ _ htrail) (by simp)
      · cases htrail with
        | cons hjoin _ _ => exact hr _ _ hjoin.symm
    obtain ⟨j, hjoin⟩ : ∃ j, G.Joins e i j := by
      cases htrail with
      | cons hjoin _ _ => exact ⟨_, hjoin⟩
    obtain ⟨d, k, hne, hd⟩ := on e i j hjoin hir
    refine ⟨d, e :: es, k, by simp [hlen], ?_⟩
    exact .cons hd.symm (hG.not_mem_of_joins htrail hd hne) htrail

/-- Where no trail closes, some edge has a leaf, even beside a given vertex `r`: no other edge
goes on from one of its ends. -/
theorem Acyclic.exists_leaf (hG : G.Acyclic) {edges : List ε}
    (hedges : ∀ e i j, G.Joins e i j → e ∈ edges) (r : Nat) {e₀ : ε} {i₀ j₀ : Nat}
    (hstart : G.Joins e₀ i₀ j₀) :
    ∃ e i j, G.Joins e i j ∧ i ≠ r ∧ ∀ d k, G.Joins d i k → d = e := by
  by_contra hleaf
  push Not at hleaf
  have on : ∀ e i j, G.Joins e i j → i ≠ r → ∃ d k, d ≠ e ∧ G.Joins d i k := by
    intro e i j hjoin hir
    obtain ⟨d, k, hd, hne⟩ := hleaf e i j hjoin hir
    exact ⟨d, k, hne, hd⟩
  obtain ⟨e₁, i₁, j₁, hstart₁, hr⟩ :
      ∃ e i j, G.Joins e i j ∧ (j = r ∨ ∀ e i, ¬ G.Joins e i r) := by
    by_cases h : ∃ e i, G.Joins e i r
    · obtain ⟨e, i, h⟩ := h
      exact ⟨e, i, r, h, .inl rfl⟩
    · exact ⟨e₀, i₀, j₀, hstart, .inr fun e i hjoin => h ⟨e, i, hjoin⟩⟩
  -- a trail that is longer than there are edges
  obtain ⟨e, es, i, hlen, htrail⟩ := hG.exists_trail hstart₁ hr on edges.length
  have hsub : e :: es ⊆ edges := fun d hd =>
    let ⟨_, _, hjoin⟩ := htrail.exists_joins hd
    hedges d _ _ hjoin
  have := (htrail.nodup.subperm hsub).length_le
  simp only [List.length_cons] at this
  omega

/-! ## Recognising forests -/

/-- An edge does not touch a vertex. -/
def avoids (G : Multigraph ε) (v : Nat) (e : ε) : Bool :=
  (G.ends e).all fun p => p.1 != v && p.2 != v

/-- Each edge of a list leads to a vertex that no later one touches. -/
def peels (G : Multigraph ε) : List ε → Bool
  | [] => true
  | e :: rest =>
    ((G.ends e).all fun p => p.1 != p.2 && (rest.all (G.avoids p.1) || rest.all (G.avoids p.2)))
      && G.peels rest

theorem not_joins_of_avoids (h : G.avoids i e = true) : ¬ G.Joins e i j := by
  rintro (hends | hends) <;> simp [avoids, hends] at h

/-- A trail that leaves a vertex does so by an edge that touches it. -/
theorem Trail.exists_first (h : G.Trail es i j) (hne : i ≠ j) : ∃ e ∈ es, ∃ k, G.Joins e i k := by
  cases h with
  | nil => exact absurd rfl hne
  | cons hjoin _ _ => exact ⟨_, List.mem_cons_self, _, hjoin⟩

/-- A trail that comes to a vertex does so by an edge that touches it. -/
theorem Trail.exists_last (h : G.Trail es i j) (hne : i ≠ j) : ∃ e ∈ es, ∃ k, G.Joins e j k := by
  induction h with
  | nil => exact absurd rfl hne
  | @cons e es i k j hjoin _ _ ih =>
    by_cases hkj : k = j
    · subst hkj
      exact ⟨e, List.mem_cons_self, _, hjoin.symm⟩
    · obtain ⟨d, hd, l, hjoin'⟩ := ih hkj
      exact ⟨d, List.mem_cons_of_mem _ hd, l, hjoin'⟩

/-- A closed trail does not use an edge beyond which there is nothing to go on with. -/
theorem Trail.not_mem_of_pendant (h : G.Trail es i i) {v w : Nat} (he : G.Joins e v w)
    (hvw : v ≠ w) (hpendant : ∀ d ∈ es, d ≠ e → ∀ k, ¬ G.Joins d v k) : e ∉ es := by
  intro hmem
  obtain ⟨es₁, es₂, rfl⟩ := List.append_of_mem hmem
  obtain ⟨x, y, hxy, htrail₁, htrail₂, he₁, he₂⟩ := h.split
  have hfree : ∀ d, d ∈ es₁ ∨ d ∈ es₂ → ∀ k, ¬ G.Joins d v k := by
    rintro d (hd | hd)
    · refine hpendant d (by simp [hd]) ?_
      rintro rfl
      exact he₁ hd
    · refine hpendant d (by simp [hd]) ?_
      rintro rfl
      exact he₂ hd
  -- the vertex beyond the edge is where the trail began, or else it goes on from there
  rcases he.same hxy with ⟨rfl, rfl⟩ | ⟨rfl, rfl⟩
  · by_cases hi : i = x
    · subst hi
      obtain ⟨d, hd, k, hjoin⟩ := htrail₂.exists_last (Ne.symm hvw)
      exact hfree d (.inr hd) k hjoin
    · obtain ⟨d, hd, k, hjoin⟩ := htrail₁.exists_last hi
      exact hfree d (.inl hd) k hjoin
  · by_cases hi : y = i
    · subst hi
      obtain ⟨d, hd, k, hjoin⟩ := htrail₁.exists_first hvw
      exact hfree d (.inl hd) k hjoin
    · obtain ⟨d, hd, k, hjoin⟩ := htrail₂.exists_first hi
      exact hfree d (.inr hd) k hjoin

/-- What can be taken apart leaf by leaf has no cycle. -/
theorem acyclic_of_peels {edges : List ε} (h : G.peels edges = true)
    (hedges : ∀ e i j, G.Joins e i j → e ∈ edges) : G.Acyclic := by
  have key : ∀ edges : List ε, G.peels edges = true → ∀ es i, G.Trail es i i → es ⊆ edges →
      es = [] := by
    intro edges
    induction edges with
    | nil => exact fun _ es _ _ hsub => List.subset_nil.mp hsub
    | cons e edges ih =>
      intro hpeels es i htrail hsub
      rw [peels, Bool.and_eq_true] at hpeels
      refine ih hpeels.2 es i htrail fun d hd => ?_
      have hne : d ≠ e := by
        rintro rfl
        obtain ⟨v, w, hjoin⟩ := htrail.exists_joins hd
        have hmem : ∀ d' ∈ es, d' ≠ d → d' ∈ edges := fun d' hd' hne =>
          (List.mem_cons.mp (hsub hd')).resolve_left hne
        rcases hjoin with hends | hends <;>
          simp only [hends, Option.all_some, Bool.and_eq_true, bne_iff_ne, ne_eq, Bool.or_eq_true,
            List.all_eq_true] at hpeels
        all_goals
          obtain ⟨⟨hne, hleaf | hleaf⟩, -⟩ := hpeels
        · exact htrail.not_mem_of_pendant (.inl hends) hne
            (fun d' hd' hne _ => not_joins_of_avoids (hleaf d' (hmem d' hd' hne))) hd
        · exact htrail.not_mem_of_pendant (.inr hends) (Ne.symm hne)
            (fun d' hd' hne _ => not_joins_of_avoids (hleaf d' (hmem d' hd' hne))) hd
        · exact htrail.not_mem_of_pendant (.inl hends) hne
            (fun d' hd' hne _ => not_joins_of_avoids (hleaf d' (hmem d' hd' hne))) hd
        · exact htrail.not_mem_of_pendant (.inr hends) (Ne.symm hne)
            (fun d' hd' hne _ => not_joins_of_avoids (hleaf d' (hmem d' hd' hne))) hd
      exact (List.mem_cons.mp (hsub hd)).resolve_left hne
  exact fun es i htrail => key edges h es i htrail fun e he =>
    let ⟨_, _, hjoin⟩ := htrail.exists_joins he
    hedges e _ _ hjoin

/-! ## Counting edges -/

/-- The simple graph in which adjacent vertices are those that some edge joins. -/
def simple (G : Multigraph ε) : SimpleGraph (Fin G.order) :=
  SimpleGraph.fromRel fun i j => ∃ e, G.Joins e i j

/-- Steps to lower and lower vertices all lead to the first one. -/
theorem connected_of_parents (h : ∀ i < G.order, i ≠ 0 → ∃ e, ∃ j < i, G.Joins e i j) :
    G.Connected := by
  have hroot : ∀ i < G.order, Relation.ReflTransGen (fun i j => ∃ e, G.Joins e i j) i 0 := by
    intro i
    induction i using Nat.strong_induction_on with
    | _ i ih =>
      intro hi
      rcases eq_or_ne i 0 with rfl | hne
      · exact .refl
      · obtain ⟨e, j, hj, hjoin⟩ := h i hi hne
        exact (ih j hj (hj.trans hi)).head ⟨e, hjoin⟩
  have hsymm : Std.Symm fun i j => ∃ e, G.Joins e i j := ⟨fun _ _ ⟨e, hjoin⟩ => ⟨e, hjoin.symm⟩⟩
  intro i hi j hj
  exact (hroot i hi).trans (Relation.ReflTransGen.stdSymm.symm j 0 (hroot j hj))

theorem Connected.simple (hG : G.Connected) (hclosed : G.Closed) (hpos : 0 < G.order) :
    G.simple.Connected := by
  have key : ∀ i j, (hi : i < G.order) →
      Relation.ReflTransGen (fun i j => ∃ e, G.Joins e i j) i j →
      ∃ hj : j < G.order, G.simple.Reachable ⟨i, hi⟩ ⟨j, hj⟩ := by
    intro i j hi h
    induction h with
    | refl => exact ⟨hi, .refl _⟩
    | @tail j k _ hjk ih =>
      obtain ⟨hj, hreach⟩ := ih
      obtain ⟨e, he⟩ := hjk
      refine ⟨(he.lt hclosed).2, hreach.trans ?_⟩
      by_cases h : j = k
      · subst h
        exact .refl _
      · refine SimpleGraph.Adj.reachable ?_
        rw [Multigraph.simple, SimpleGraph.fromRel_adj]
        exact ⟨by simpa using h, .inl ⟨e, he⟩⟩
  have : Nonempty (Fin G.order) := ⟨⟨0, hpos⟩⟩
  refine ⟨fun i j => ?_⟩
  exact (key i j i.isLt (hG i i.isLt j j.isLt)).2

/-- To hold `n` vertices together takes `n - 1` edges. -/
theorem Connected.order_le (hG : G.Connected) (hclosed : G.Closed) {edges : List ε}
    (hedges : ∀ e i j, G.Joins e i j → e ∈ edges) : G.order ≤ edges.length + 1 := by
  classical
  rcases Nat.eq_zero_or_pos G.order with h0 | hpos
  · omega
  let pairs : List (Sym2 (Fin G.order)) := edges.filterMap fun e =>
    match G.ends e with
    | some (i, j) =>
      if h : i < G.order ∧ j < G.order then some s(⟨i, h.1⟩, ⟨j, h.2⟩) else none
    | none => none
  have hmem : ∀ e (i j : Fin G.order), G.ends e = some (↑i, ↑j) → s(i, j) ∈ pairs := by
    intro e i j h
    refine List.mem_filterMap.mpr ⟨e, hedges e i j (.inl h), ?_⟩
    simp [h]
  have hsub : G.simple.edgeSet ⊆ (pairs.toFinset : Set (Sym2 (Fin G.order))) := by
    intro p hp
    induction p with
    | _ i j =>
      rw [SimpleGraph.mem_edgeSet, Multigraph.simple, SimpleGraph.fromRel_adj] at hp
      have hjoin : ∃ e, G.Joins e i j := by
        rcases hp.2 with ⟨e, h⟩ | ⟨e, h⟩
        · exact ⟨e, h⟩
        · exact ⟨e, h.symm⟩
      obtain ⟨e, h | h⟩ := hjoin
      · exact_mod_cast List.mem_toFinset.mpr (hmem e i j h)
      · rw [Sym2.eq_swap]
        exact_mod_cast List.mem_toFinset.mpr (hmem e j i h)
  have hcard : Nat.card G.simple.edgeSet ≤ pairs.length := by
    calc Nat.card G.simple.edgeSet
        ≤ Nat.card (pairs.toFinset : Set (Sym2 (Fin G.order))) :=
          Nat.card_mono (Finset.finite_toSet _) hsub
      _ = pairs.toFinset.card := by rw [Nat.card_coe_set_eq, Set.ncard_coe_finset]
      _ ≤ pairs.length := List.toFinset_card_le _
  have hvert := (hG.simple hclosed hpos).card_vert_le_card_edgeSet_add_one
  rw [Nat.card_eq_fintype_card, Fintype.card_fin] at hvert
  have hlen : pairs.length ≤ edges.length := List.length_filterMap_le _ _
  omega

end Multigraph

end Coverage
