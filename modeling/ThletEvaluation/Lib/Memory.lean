import Mathlib.Algebra.Ring.Nat
import Mathlib.Data.List.Basic

/-!
# Byte memory with 64-bit words

Addresses wrap at `2 ^ 64`. A word is stored little-endian in eight bytes, and a
record is a base address with fields at fixed offsets from it. No alignment is
assumed anywhere.
-/

namespace ThletEvaluation.Memory

set_option autoImplicit false

abbrev Word := BitVec 64

abbrev Mem := Word → BitVec 8

def byte (v : Word) (i : Nat) : BitVec 8 := BitVec.ofNat 8 (v.toNat / 256 ^ i)

def store (m : Mem) (a v : Word) : Mem := fun x =>
  if (x - a).toNat < 8 then byte v (x - a).toNat else m x

def load (m : Mem) (a : Word) : Word :=
  BitVec.ofNat 64 ((List.range 8).foldr (fun i n => (m (a + BitVec.ofNat 64 i)).toNat + 256 * n) 0)

def InRange (base : Word) (len : Nat) (x : Word) : Prop := (x - base).toNat < len

variable {m m' : Mem} {a b v x base : Word} {len o o' : Nat}

theorem load_congr (h : ∀ i < 8, m (a + BitVec.ofNat 64 i) = m' (a + BitVec.ofNat 64 i)) :
    load m a = load m' a := by
  simp only [load, List.range, List.range.loop, List.foldr]
  rw [h 0 (by omega), h 1 (by omega), h 2 (by omega), h 3 (by omega), h 4 (by omega),
    h 5 (by omega), h 6 (by omega), h 7 (by omega)]

theorem sub_add_toNat (a : Word) {i : Nat} (hi : i < 2 ^ 64) :
    (a + BitVec.ofNat 64 i - a).toNat = i := by
  rw [BitVec.add_comm, BitVec.add_sub_cancel, BitVec.toNat_ofNat, Nat.mod_eq_of_lt hi]

theorem store_at (i : Nat) (hi : i < 8) : store m a v (a + BitVec.ofNat 64 i) = byte v i := by
  rw [store, sub_add_toNat a (by omega), if_pos hi]

@[simp] theorem load_store_same : load (store m a v) a = v := by
  apply BitVec.eq_of_toNat_eq
  have hv := v.isLt
  simp only [load, List.range, List.range.loop, List.foldr, store_at 0 (by omega),
    store_at 1 (by omega), store_at 2 (by omega), store_at 3 (by omega), store_at 4 (by omega),
    store_at 5 (by omega), store_at 6 (by omega), store_at 7 (by omega), byte,
    BitVec.toNat_ofNat]
  omega

theorem store_frame (ho : o + 8 ≤ len) (hlen : len ≤ 2 ^ 63) (hx : ¬ InRange base len x) :
    store m (base + BitVec.ofNat 64 o) v x = m x := by
  rw [store, if_neg]
  intro hlt
  apply hx
  unfold InRange
  bv_omega

/-- Fields of one record at least eight bytes apart do not interfere. -/
theorem load_store_apart (hapart : o + 8 ≤ o' ∨ o' + 8 ≤ o) (ho : o < 2 ^ 63) (ho' : o' < 2 ^ 63) :
    load (store m (base + BitVec.ofNat 64 o) v) (base + BitVec.ofNat 64 o') =
      load m (base + BitVec.ofNat 64 o') := by
  apply load_congr
  intro i hi
  rw [store, if_neg]
  bv_omega

theorem load_frame (ho : o + 8 ≤ len) (hlen : len ≤ 2 ^ 63)
    (h : ∀ x, InRange base len x → m x = m' x) :
    load m (base + BitVec.ofNat 64 o) = load m' (base + BitVec.ofNat 64 o) := by
  apply load_congr
  intro i hi
  apply h
  unfold InRange
  bv_omega

def storeAll (m : Mem) (base : Word) (fields : List (Nat × Word)) : Mem :=
  fields.foldl (fun m f => store m (base + BitVec.ofNat 64 f.1) f.2) m

/-- The fields are pairwise at least eight bytes apart and lie inside the record. -/
structure Fields (fields : List (Nat × Word)) (len : Nat) : Prop where
  apart : fields.Pairwise fun f g => f.1 + 8 ≤ g.1 ∨ g.1 + 8 ≤ f.1
  inside : ∀ f ∈ fields, f.1 + 8 ≤ len
  bound : len ≤ 2 ^ 63

/-- Whether fields overlap is a matter of their offsets alone. -/
theorem Fields.of_offsets {fields : List (Nat × Word)} {offs : List Nat}
    (hoffs : fields.map Prod.fst = offs)
    (hapart : offs.Pairwise fun o p => o + 8 ≤ p ∨ p + 8 ≤ o)
    (hinside : ∀ o ∈ offs, o + 8 ≤ len) (hlen : len ≤ 2 ^ 63) : Fields fields len := by
  subst hoffs
  exact ⟨List.pairwise_map.mp hapart, fun f hf => hinside f.1 (List.mem_map_of_mem hf), hlen⟩

theorem storeAll_frame {fields : List (Nat × Word)} (h : ∀ f ∈ fields, f.1 + 8 ≤ len)
    (hlen : len ≤ 2 ^ 63) (hx : ¬ InRange base len x) : storeAll m base fields x = m x := by
  induction fields generalizing m with
  | nil => rfl
  | cons f fs ih =>
    have hf : storeAll m base (f :: fs) =
        storeAll (store m (base + BitVec.ofNat 64 f.1) f.2) base fs :=
      rfl
    rw [hf, ih (fun g hg => h g (List.mem_cons_of_mem f hg)),
      store_frame (h f List.mem_cons_self) hlen hx]

theorem load_storeAll_apart {fields : List (Nat × Word)} (ho : o < 2 ^ 63)
    (h : ∀ f ∈ fields, f.1 < 2 ^ 63 ∧ (f.1 + 8 ≤ o ∨ o + 8 ≤ f.1)) :
    load (storeAll m base fields) (base + BitVec.ofNat 64 o) =
      load m (base + BitVec.ofNat 64 o) := by
  induction fields generalizing m with
  | nil => rfl
  | cons f fs ih =>
    have hf := h f List.mem_cons_self
    calc load (storeAll (store m (base + BitVec.ofNat 64 f.1) f.2) base fs) _
        = load (store m (base + BitVec.ofNat 64 f.1) f.2) (base + BitVec.ofNat 64 o) :=
          ih fun g hg => h g (List.mem_cons_of_mem f hg)
      _ = load m (base + BitVec.ofNat 64 o) := load_store_apart hf.2 hf.1 ho

theorem load_storeAll {fields : List (Nat × Word)} (h : Fields fields len)
    {f : Nat × Word} (hf : f ∈ fields) :
    load (storeAll m base fields) (base + BitVec.ofNat 64 f.1) = f.2 := by
  obtain ⟨hapart, hinside, hbound⟩ := h
  induction fields generalizing m with
  | nil => simp at hf
  | cons g gs ih =>
    obtain ⟨hg, hgs⟩ := List.pairwise_cons.mp hapart
    rcases List.mem_cons.mp hf with rfl | hf
    · have hlast : load (storeAll (store m (base + BitVec.ofNat 64 f.1) f.2) base gs)
          (base + BitVec.ofNat 64 f.1) =
          load (store m (base + BitVec.ofNat 64 f.1) f.2) (base + BitVec.ofNat 64 f.1) := by
        apply load_storeAll_apart
        · have := hinside f List.mem_cons_self
          omega
        · intro g hgmem
          have := hinside g (List.mem_cons_of_mem f hgmem)
          exact ⟨by omega, (hg g hgmem).symm⟩
      exact hlast.trans load_store_same
    · exact ih hf hgs fun k hk => hinside k (List.mem_cons_of_mem g hk)

end ThletEvaluation.Memory
