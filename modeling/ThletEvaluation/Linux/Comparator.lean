import Mathlib.Algebra.Order.Ring.Int
import ThletEvaluation.Lib.Sort

/-!
# The comparator of the TCP client

`client.c` sorts its samples with a comparator that answers with a `bool`. So it never says
that one sample is less than another, and no two samples are equal for it, not even a sample
and itself. What `qsort` makes of that is up to its implementation.
-/

namespace ThletEvaluation.Linux.Client

open Sorting

set_option autoImplicit false

def cmp (a b : Int64) : Bool := decide (0 ≤ a - b)

/-- `qsort` takes the `bool` for an `int`. -/
def cmpResult (a b : Int64) : Int := (cmp a b).toInt

/-- The difference of the samples is a `long long`. -/
def DiffFits (a b : Int64) : Prop :=
  -(2 ^ 63) ≤ a.toInt - b.toInt ∧ a.toInt - b.toInt < 2 ^ 63

def percentileIndex (numbers : Nat) : Nat := numbers * 99 / 100

structure ComparatorLaws (a b c : Int64) : Prop where
  fits : DiffFits a b
  antisymm : (cmpResult a b).sign = -(cmpResult b a).sign
  zero_iff : cmpResult a b = 0 ↔ a = b
  trans : 0 < cmpResult a b → 0 < cmpResult b c → 0 < cmpResult a c

/-- What `main` relies on when it reads the array after `qsort`. -/
structure Reported (lat out : List Int64) : Prop where
  ascending : out.Pairwise (· ≤ ·)
  percentile : lat ≠ [] → ∃ v, out[percentileIndex lat.length]? = some v ∧
    IsRank (lat.map Int64.toInt) (percentileIndex lat.length) v.toInt

section Laws
variable {a b c : Int64}

theorem cmpResult_eq : cmpResult a b = if 0 ≤ a - b then 1 else 0 := by
  by_cases h : 0 ≤ a - b <;> simp [cmpResult, cmp, h]

theorem cmpResult_nonneg : 0 ≤ cmpResult a b := by
  rw [cmpResult_eq]
  split <;> decide

theorem cmpResult_self : cmpResult a a = 1 := by
  rw [cmpResult_eq, Int64.sub_self]
  rfl

/-- The comparator tests for "greater or equal" exactly if the difference fits; an overflow
turns the answer around. -/
theorem cmp_eq_iff : (cmp a b = true ↔ b ≤ a) ↔ DiffFits a b := by
  have hdiff : 0 ≤ a - b ↔ 0 ≤ (a.toInt - b.toInt).bmod (2 ^ 64) := by
    rw [Int64.le_iff_toInt_le, Int64.toInt_sub, Int64.toInt_zero]
  rw [cmp, decide_eq_true_iff, hdiff, Int64.le_iff_toInt_le, DiffFits, Int.bmod_def]
  have hlow := a.le_toInt
  have hhigh := a.toInt_lt
  have hlow' := b.le_toInt
  have hhigh' := b.toInt_lt
  split <;> omega

/-- Two answers that are never negative have opposite signs only if both are zero. -/
theorem not_comparatorLaws : ¬ ComparatorLaws a b c := by
  intro h
  by_cases heq : a = b
  · subst heq
    have hzero := h.zero_iff.mpr rfl
    rw [cmpResult_self] at hzero
    exact absurd hzero (by decide)
  · have hpos : 0 < cmpResult a b :=
      lt_of_le_of_ne cmpResult_nonneg fun hzero => heq (h.zero_iff.mp hzero.symm)
    have hneg : cmpResult b a < 0 := by
      rw [← Int.sign_eq_neg_one_iff_neg]
      have hsign := h.antisymm
      rw [Int.sign_eq_one_iff_pos.mpr hpos] at hsign
      omega
    exact absurd cmpResult_nonneg (not_le.mpr hneg)

end Laws

section Report
variable {lat out : List Int64}

theorem ascending_iff : out.Pairwise (· ≤ ·) ↔ (out.map Int64.toInt).Pairwise (· ≤ ·) := by
  rw [List.pairwise_map]
  simp only [Int64.le_iff_toInt_le]

theorem percentileIndex_lt (h : lat ≠ []) : percentileIndex lat.length < lat.length := by
  have hpos := List.length_pos_iff.mpr h
  unfold percentileIndex
  omega

theorem reported_of_ascending (hperm : out.Perm lat) (h : out.Pairwise (· ≤ ·)) :
    Reported lat out := by
  refine ⟨h, fun hne => ?_⟩
  have hlt : percentileIndex lat.length < out.length := by
    rw [hperm.length_eq]
    exact percentileIndex_lt hne
  refine ⟨_, List.getElem?_eq_getElem hlt, ?_⟩
  apply IsRank.perm _ (hperm.map Int64.toInt)
  apply isRank_of_ascending (ascending_iff.mp h)
  rw [List.getElem?_map, List.getElem?_eq_getElem hlt, Option.map_some]

/-- Two implementations of `qsort` that leave an array as it is and turn it around. -/
theorem eq_of_reported
    (h : ∀ qsort, Conforming qsort → Reported lat (qsort cmpResult lat)) :
    ∀ x ∈ lat, ∀ y ∈ lat, x = y := by
  have hkept : lat.Pairwise (· ≤ ·) := by
    have hasc := (h _ sortBelow_conforming).ascending
    rwa [sortBelow_eq_self fun _ _ => cmpResult_nonneg] at hasc
  have hturned : lat.reverse.Pairwise (· ≤ ·) := by
    have hasc := (h _ sortBelow_reverse_conforming).ascending
    rwa [sortBelow_eq_self fun _ _ => cmpResult_nonneg] at hasc
  rw [ascending_iff] at hkept hturned
  rw [List.map_reverse] at hturned
  have hall := eq_of_ascending_reverse hkept hturned
  intro x hx y hy
  exact Int64.toInt_inj.mp
    (hall _ (List.mem_map_of_mem hx) _ (List.mem_map_of_mem hy))

theorem reported_of_eq (heq : ∀ x ∈ lat, ∀ y ∈ lat, x = y) (hperm : out.Perm lat) :
    Reported lat out := by
  apply reported_of_ascending hperm
  apply List.pairwise_of_forall_mem_list
  intro x hx y hy
  rw [heq x (hperm.subset hx) y (hperm.subset hy)]
  exact Int64.le_refl y

end Report

/-- The comparator keeps the laws for no samples, and `qsort` can be trusted with an array
only if there is nothing to sort. -/
theorem comparator_never (a b c : Int64) (lat : List Int64) :
    ¬ ComparatorLaws a b c ∧
      ((∀ qsort, Conforming qsort → Reported lat (qsort cmpResult lat)) ↔
        ∀ x ∈ lat, ∀ y ∈ lat, x = y) := by
  refine ⟨not_comparatorLaws, eq_of_reported, ?_⟩
  intro heq qsort hqsort
  exact reported_of_eq heq (hqsort cmpResult lat).1

/-- A sample compares as greater than itself, and insertion sort may leave 2 before 1. -/
theorem comparator_counterexample :
    cmpResult 5 5 = 1 ∧ ¬ ComparatorLaws 5 5 5 ∧
      ∃ qsort, Conforming qsort ∧ qsort cmpResult [2, 1] = [2, 1] ∧
        ¬ Reported [2, 1] (qsort cmpResult [2, 1]) := by
  have hkept : sortBelow cmpResult [2, 1] = [2, 1] := sortBelow_eq_self fun _ _ => cmpResult_nonneg
  refine ⟨cmpResult_self, not_comparatorLaws, sortBelow, sortBelow_conforming, hkept, ?_⟩
  rw [hkept]
  intro h
  exact absurd h.ascending (by decide)

end ThletEvaluation.Linux.Client
