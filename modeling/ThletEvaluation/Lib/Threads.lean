import Mathlib.Algebra.Order.BigOperators.Group.Finset

/-!
# Numbers that threads have in common

Each thread is at some place of its program, and a number belongs to each place: the share
of a counter that the thread has paid in, or the steps that it still has to go. A step of one
thread changes the sum over all threads by its own share.
-/

namespace ThletEvaluation.Threads

set_option autoImplicit false

universe u
variable {σ : Type u}

def total (n : Nat) (f : Nat → σ → Nat) (pc : Nat → σ) : Nat :=
  ∑ t ∈ Finset.range n, f t (pc t)

variable {n t : Nat} {f : Nat → σ → Nat} {pc : Nat → σ} {bound : Nat → Nat}

theorem total_update (f : Nat → σ → Nat) (pc : Nat → σ) (p : σ) (ht : t < n) :
    total n f (Function.update pc t p) + f t (pc t) = total n f pc + f t p := by
  have hmem : t ∈ Finset.range n := Finset.mem_range.mpr ht
  have hother : ∑ v ∈ (Finset.range n).erase t, f v (Function.update pc t p v) =
      ∑ v ∈ (Finset.range n).erase t, f v (pc v) := by
    apply Finset.sum_congr rfl
    intro v hv
    rw [Function.update_of_ne (Finset.ne_of_mem_erase hv)]
  unfold total
  rw [← Finset.add_sum_erase _ _ hmem, ← Finset.add_sum_erase _ _ hmem, hother,
    Function.update_self]
  omega

theorem total_le (h : ∀ v < n, f v (pc v) ≤ bound v) :
    total n f pc ≤ ∑ v ∈ Finset.range n, bound v :=
  Finset.sum_le_sum fun v hv => h v (Finset.mem_range.mp hv)

theorem total_eq (h : ∀ v < n, f v (pc v) = bound v) :
    total n f pc = ∑ v ∈ Finset.range n, bound v :=
  Finset.sum_congr rfl fun v hv => h v (Finset.mem_range.mp hv)

theorem total_lt (h : ∀ v < n, f v (pc v) ≤ bound v) (ht : t < n) (hlt : f t (pc t) < bound t) :
    total n f pc < ∑ v ∈ Finset.range n, bound v :=
  Finset.sum_lt_sum (fun v hv => h v (Finset.mem_range.mp hv))
    ⟨t, Finset.mem_range.mpr ht, hlt⟩

end ThletEvaluation.Threads
