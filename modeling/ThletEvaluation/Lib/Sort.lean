import Mathlib.Data.List.Pairwise
import Mathlib.Data.List.Sort

/-!
# Sorting with a comparison function

What `qsort` promises of its result for a comparison function that returns a sign. The order
of equal elements is left open, so only the keys of the result are determined.
-/

namespace ThletEvaluation.Sorting

set_option autoImplicit false

universe u v
variable {α : Type u} {κ : Type v}

/-- `ys` may be what `qsort` leaves of the array `xs`. -/
def Sorts (cmp : α → α → Int) (xs ys : List α) : Prop :=
  ys.Perm xs ∧ ys.Pairwise fun a b => cmp a b ≤ 0

/-- A comparison function that orders by a key determines the keys of the result. -/
theorem Sorts.map_key_eq [LinearOrder κ] {cmp : α → α → Int} {key : α → κ} {xs ys : List α}
    {ks : List κ} (hcmp : ∀ a b, cmp a b ≤ 0 → key a ≤ key b) (h : Sorts cmp xs ys)
    (hperm : ks.Perm (xs.map key)) (hsorted : ks.Pairwise (· ≤ ·)) : ys.map key = ks := by
  have hys : (ys.map key).Pairwise (· ≤ ·) :=
    List.pairwise_map.mpr (h.2.imp fun hab => hcmp _ _ hab)
  have hp : (ys.map key).Perm ks := (h.1.map key).trans hperm.symm
  exact hp.eq_of_pairwise' hys hsorted

/-! ## What a conforming `qsort` does -/

/-- On the elements of the array, the comparison function orders the elements in one way. -/
structure Consistent (cmp : α → α → Int) (xs : List α) : Prop where
  antisymm : ∀ a ∈ xs, ∀ b ∈ xs, (cmp a b).sign = -(cmp b a).sign
  trans : ∀ a ∈ xs, ∀ b ∈ xs, ∀ c ∈ xs, cmp a b ≤ 0 → cmp b c ≤ 0 → cmp a c ≤ 0

/-- `qsort` permutes the array, and sorts it if the comparison function lets it. -/
def Conforming (qsort : (α → α → Int) → List α → List α) : Prop :=
  ∀ cmp xs, (qsort cmp xs).Perm xs ∧ (Consistent cmp xs → Sorts cmp xs (qsort cmp xs))

section Insertion
variable {cmp : α → α → Int} {xs ys : List α}

theorem Consistent.subset (h : Consistent cmp xs) (hsub : ys ⊆ xs) : Consistent cmp ys where
  antisymm a ha b hb := h.antisymm a (hsub ha) b (hsub hb)
  trans a ha b hb c hc := h.trans a (hsub ha) b (hsub hb) c (hsub hc)

theorem Consistent.nonneg_iff (h : Consistent cmp xs) {a b : α} (ha : a ∈ xs) (hb : b ∈ xs) :
    0 ≤ cmp b a ↔ cmp a b ≤ 0 := by
  rw [← Int.sign_nonneg_iff, ← Int.sign_nonpos_iff, h.antisymm a ha b hb]
  omega

/-- Insertion sort that moves an element on past those that compare as less, and asks the
comparison function nothing else. -/
def sortBelow (cmp : α → α → Int) (xs : List α) : List α :=
  xs.insertionSort fun a b => 0 ≤ cmp b a

theorem sortBelow_perm : (sortBelow cmp xs).Perm xs := List.perm_insertionSort _ xs

/-- The comparison function orders the elements only, hence the subtype. -/
def Below (cmp : α → α → Int) (xs : List α) (a b : {x // x ∈ xs}) : Prop := 0 ≤ cmp b a

instance : DecidableRel (Below cmp xs) := fun a b => inferInstanceAs (Decidable (0 ≤ cmp b a))

theorem Consistent.below_iff (h : Consistent cmp xs) (a b : {x // x ∈ xs}) :
    Below cmp xs a b ↔ cmp a b ≤ 0 :=
  h.nonneg_iff a.2 b.2

theorem Consistent.total (h : Consistent cmp xs) : Std.Total (Below cmp xs) := by
  refine ⟨fun a b => ?_⟩
  rw [h.below_iff a b]
  exact (Int.le_total 0 _).symm

theorem Consistent.isTrans (h : Consistent cmp xs) : IsTrans _ (Below cmp xs) := by
  refine ⟨fun a b c hab hbc => ?_⟩
  rw [h.below_iff] at hab hbc ⊢
  exact h.trans a a.2 b b.2 c c.2 hab hbc

theorem sortBelow_eq_map :
    sortBelow cmp xs = (xs.attach.insertionSort (Below cmp xs)).map Subtype.val := by
  rw [List.map_insertionSort (Below cmp xs) (fun a b => 0 ≤ cmp b a) Subtype.val xs.attach
    (fun _ _ _ _ => Iff.rfl), List.attach_map_subtype_val, sortBelow]

theorem sortBelow_sorts (h : Consistent cmp xs) : Sorts cmp xs (sortBelow cmp xs) := by
  have := h.total
  have := h.isTrans
  refine ⟨sortBelow_perm, ?_⟩
  rw [sortBelow_eq_map, List.pairwise_map]
  exact (List.pairwise_insertionSort (Below cmp xs) xs.attach).imp (h.below_iff _ _).mp

theorem sortBelow_conforming : Conforming (sortBelow (α := α)) :=
  fun _ _ => ⟨sortBelow_perm, sortBelow_sorts⟩

/-- A `qsort` need not be stable. -/
theorem sortBelow_reverse_conforming :
    Conforming fun (cmp : α → α → Int) xs => sortBelow cmp xs.reverse := by
  intro cmp xs
  have hperm : (sortBelow cmp xs.reverse).Perm xs := sortBelow_perm.trans xs.reverse_perm
  refine ⟨hperm, fun h => ⟨hperm, ?_⟩⟩
  exact (sortBelow_sorts (h.subset fun _ hx => List.mem_reverse.mp hx)).2

/-- If no element ever compares as less, nothing is moved. -/
theorem sortBelow_eq_self (h : ∀ a b, 0 ≤ cmp a b) : sortBelow cmp xs = xs :=
  (List.pairwise_of_forall fun a b => h b a).insertionSort_eq

end Insertion

/-! ## Ranks -/

/-- `v` is the element of rank `k`, counted from zero. -/
def IsRank [LinearOrder κ] (xs : List κ) (k : Nat) (v : κ) : Prop :=
  xs.countP (· < v) ≤ k ∧ k < xs.countP (· ≤ v)

section Rank
variable [LinearOrder κ] {xs ys : List κ} {k : Nat} {v : κ}

theorem IsRank.perm (h : IsRank xs k v) (hperm : xs.Perm ys) : IsRank ys k v := by
  unfold IsRank
  rw [← hperm.countP_eq, ← hperm.countP_eq]
  exact h

theorem isRank_of_ascending (h : xs.Pairwise (· ≤ ·)) (hk : xs[k]? = some v) :
    IsRank xs k v := by
  obtain ⟨hlt, hv⟩ := List.getElem?_eq_some_iff.mp hk
  have hsplit : xs = xs.take k ++ v :: xs.drop (k + 1) := by
    rw [← hv, ← List.drop_eq_getElem_cons hlt, List.take_append_drop]
  have hlen : (xs.take k).length = k := by
    rw [List.length_take]
    omega
  rw [hsplit, List.pairwise_append, List.pairwise_cons] at h
  obtain ⟨_, ⟨hbehind, _⟩, hbefore⟩ := h
  have hless : (v :: xs.drop (k + 1)).countP (· < v) = 0 := by
    apply List.countP_eq_zero.mpr
    intro x hx
    rcases List.mem_cons.mp hx with rfl | hx
    · simp
    · simpa using hbehind x hx
  have hle : (xs.take k).countP (· ≤ v) = (xs.take k).length := by
    apply List.countP_eq_length.mpr
    intro x hx
    simpa using hbefore x hx v List.mem_cons_self
  have hcount : (xs.take k).countP (· < v) ≤ (xs.take k).length := List.countP_le_length
  unfold IsRank
  rw [hsplit, List.countP_append, List.countP_append, hless, hle, List.countP_cons_of_pos (by simp)]
  omega

/-- A list that is ascending both ways has only one element to show. -/
theorem eq_of_ascending_reverse (h : xs.Pairwise (· ≤ ·)) (hrev : xs.reverse.Pairwise (· ≤ ·)) :
    ∀ x ∈ xs, ∀ y ∈ xs, x = y := by
  have heq : xs.Pairwise (· = ·) := by
    apply (h.and (List.pairwise_reverse.mp hrev)).imp
    rintro a b ⟨hab, hba⟩
    exact le_antisymm hab hba
  intro x hx y hy
  by_contra hne
  exact hne (heq.forall hx hy hne)

end Rank

end ThletEvaluation.Sorting
