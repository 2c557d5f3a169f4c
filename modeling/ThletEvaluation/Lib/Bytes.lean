import Mathlib.Algebra.Ring.Nat
import Mathlib.Data.List.Basic

/-!
# Numbers as byte strings

The little-endian bytes of a number and the number that a byte string spells. Bytes of a
given width and numbers below `256 ^ width` correspond to each other; reversing the bytes
of a number is what the conversions between host and network order do on a little-endian
host.
-/

namespace ThletEvaluation.Bytes

set_option autoImplicit false

def leBytes : Nat → Nat → List UInt8
  | 0, _ => []
  | k + 1, n => UInt8.ofNat n :: leBytes k (n / 256)

def leNat : List UInt8 → Nat
  | [] => 0
  | b :: bs => b.toNat + 256 * leNat bs

/-- The value with its `k` bytes in the opposite order. -/
def bswap (k n : Nat) : Nat := leNat (leBytes k n).reverse

variable {k n : Nat}

@[simp] theorem length_leBytes (k n : Nat) : (leBytes k n).length = k := by
  induction k generalizing n with
  | zero => rfl
  | succ k ih => simp [leBytes, ih]

theorem leNat_lt (bs : List UInt8) : leNat bs < 256 ^ bs.length := by
  induction bs with
  | nil => simp [leNat]
  | cons b bs ih =>
    have hb := b.toNat_lt
    simp only [leNat, List.length_cons, Nat.pow_succ]
    omega

theorem leNat_leBytes (h : n < 256 ^ k) : leNat (leBytes k n) = n := by
  induction k generalizing n with
  | zero =>
    rw [Nat.pow_zero] at h
    simp only [leBytes, leNat]
    omega
  | succ k ih =>
    have hdiv : n / 256 < 256 ^ k := by
      rw [Nat.pow_succ] at h
      exact Nat.div_lt_of_lt_mul (by rwa [Nat.mul_comm])
    simp only [leBytes, leNat, ih hdiv, UInt8.toNat_ofNat']
    omega

theorem leBytes_leNat (bs : List UInt8) : leBytes bs.length (leNat bs) = bs := by
  induction bs with
  | nil => rfl
  | cons b bs ih =>
    have hb := b.toNat_lt
    have hdiv : (b.toNat + 256 * leNat bs) / 256 = leNat bs := by omega
    have hhead : UInt8.ofNat (b.toNat + 256 * leNat bs) = b := by
      apply UInt8.toNat_inj.mp
      rw [UInt8.toNat_ofNat']
      omega
    simp only [leNat, List.length_cons, leBytes, hhead, hdiv, ih]

theorem bswap_lt (k n : Nat) : bswap k n < 256 ^ k := by
  simpa [bswap] using leNat_lt (leBytes k n).reverse

/-- The bytes of the swapped value are those of the value, backwards. -/
theorem leBytes_bswap (k n : Nat) : leBytes k (bswap k n) = (leBytes k n).reverse := by
  have h := leBytes_leNat (leBytes k n).reverse
  rwa [List.length_reverse, length_leBytes] at h

theorem bswap_bswap (h : n < 256 ^ k) : bswap k (bswap k n) = n := by
  rw [bswap, leBytes_bswap, List.reverse_reverse, leNat_leBytes h]

theorem bswap_eq_self_iff (h : n < 256 ^ k) :
    bswap k n = n ↔ (leBytes k n).reverse = leBytes k n := by
  constructor
  · intro heq
    rw [← leBytes_bswap, heq]
  · intro heq
    rw [bswap, heq, leNat_leBytes h]

end ThletEvaluation.Bytes
