import Mathlib.Algebra.BigOperators.Group.List.Defs
import Mathlib.Data.List.Induction

/-!
# Loops over an array

A `for` loop over an array is `List.foldlIdx`. The invariant of such a loop speaks of the
part of the array that has been read. `IsBest` is what a loop that keeps a minimum or a
maximum computes.
-/

namespace ThletEvaluation.Loop

set_option autoImplicit false

universe u v
variable {α : Type u} {β : Type v}

theorem foldlIdx_append_singleton (f : Nat → β → α → β) (b : β) (xs : List α) (x : α)
    (s : Nat) : (xs ++ [x]).foldlIdx f b s = f (s + xs.length) (xs.foldlIdx f b s) x := by
  induction xs generalizing b s with
  | nil => simp
  | cons y ys ih =>
    simp only [List.cons_append, List.foldlIdx_cons, List.length_cons]
    rw [ih, show s + 1 + ys.length = s + (ys.length + 1) by omega]

/-- The invariant rule. -/
theorem foldlIdx_invariant {I : List α → β → Prop} {f : Nat → β → α → β} {b : β}
    {xs : List α} (hstart : I [] b)
    (hstep : ∀ (pre : List α) (x : α) (c : β), x ∈ xs → I pre c →
      I (pre ++ [x]) (f pre.length c x)) : I xs (xs.foldlIdx f b) := by
  induction xs using List.reverseRecOn with
  | nil => exact hstart
  | append_singleton xs x ih =>
    rw [foldlIdx_append_singleton, Nat.zero_add]
    apply hstep _ _ _ (by simp)
    exact ih fun pre y c hy => hstep pre y c (by simp [hy])

/-- `c` is the key of an element of `xs`, and `r` puts it before all the others. -/
def IsBest (r : β → β → Prop) (key : α → β) (xs : List α) (c : β) : Prop :=
  (∃ x ∈ xs, key x = c) ∧ ∀ x ∈ xs, r c (key x)

section Best
variable {r : β → β → Prop} {key : α → β} {xs : List α} {x : α} {c d : β}

theorem IsBest.unique (hanti : ∀ a b, r a b → r b a → a = b) (hc : IsBest r key xs c)
    (hd : IsBest r key xs d) : c = d := by
  obtain ⟨⟨x, hx, rfl⟩, hcle⟩ := hc
  obtain ⟨⟨y, hy, rfl⟩, hdle⟩ := hd
  exact hanti _ _ (hcle y hy) (hdle x hx)

theorem isBest_singleton (hrefl : r (key x) (key x)) : IsBest r key [x] (key x) :=
  ⟨⟨x, by simp, rfl⟩, by simpa using hrefl⟩

theorem IsBest.append (htrans : ∀ a b c, r a b → r b c → r a c) (h : IsBest r key xs c)
    (hd : d = c ∨ d = key x) (hdc : r d c) (hdx : r d (key x)) :
    IsBest r key (xs ++ [x]) d := by
  obtain ⟨⟨y, hy, rfl⟩, hle⟩ := h
  constructor
  · rcases hd with rfl | rfl
    · exact ⟨y, by simp [hy], rfl⟩
    · exact ⟨x, by simp, rfl⟩
  · intro z hz
    rcases List.mem_append.mp hz with hz | hz
    · exact htrans _ _ _ hdc (hle z hz)
    · obtain rfl := List.mem_singleton.mp hz
      exact hdx

end Best

end ThletEvaluation.Loop
