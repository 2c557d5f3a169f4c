import Mathlib.Data.List.Basic

/-!
# Circular buffers with one unused slot

A ring of `size` slots is filled at `head` and emptied at `tail`. It is empty when the two
are equal, so one slot always stays free. `Holds` relates a ring to the queue it stands for.
-/

namespace ThletEvaluation

set_option autoImplicit false

universe u
variable {α : Type u}

structure Ring (α : Type u) where
  buffer : Nat → Option α
  head : Nat
  tail : Nat

namespace Ring

def new : Ring α := ⟨fun _ => none, 0, 0⟩

def push (size : Nat) (r : Ring α) (x : α) : Ring α × Bool :=
  let nextHead := (r.head + 1) % size
  if nextHead = r.tail then (r, false)
  else ({ r with buffer := Function.update r.buffer r.head (some x), head := nextHead }, true)

def pop (size : Nat) (r : Ring α) : Ring α × Option α :=
  if r.head = r.tail then (r, none)
  else
    ({ r with buffer := Function.update r.buffer r.tail none, tail := (r.tail + 1) % size },
      r.buffer r.tail)

/-- The number of slots from `tail` to `head`. -/
def count (size : Nat) (r : Ring α) : Nat := (r.head + (size - r.tail)) % size

/-- The entries from `tail` to `head`. -/
def contents (size : Nat) (r : Ring α) : List α :=
  (List.range (r.count size)).filterMap fun i => r.buffer ((r.tail + i) % size)

structure Holds (size : Nat) (r : Ring α) (xs : List α) : Prop where
  room : xs.length < size
  tail_lt : r.tail < size
  head_eq : r.head = (r.tail + xs.length) % size
  slot : ∀ i, i < xs.length → r.buffer ((r.tail + i) % size) = xs[i]?

section Holds
variable {size : Nat} {r : Ring α} {xs : List α} {x : α}

theorem holds_new (h : 0 < size) : Holds size (new : Ring α) [] where
  room := h
  tail_lt := h
  head_eq := by simp [new]
  slot := by simp

theorem mod_add_cases {a i : Nat} (ha : a < size) (hi : i < size) :
    ((a + i) % size = a + i ∧ a + i < size) ∨ ((a + i) % size = a + i - size ∧ size ≤ a + i) := by
  by_cases h : a + i < size
  · exact .inl ⟨Nat.mod_eq_of_lt h, h⟩
  · right
    have hsub : (a + i) % size = (a + i - size) % size := Nat.mod_eq_sub_mod (by omega)
    exact ⟨by rw [hsub, Nat.mod_eq_of_lt (by omega)], by omega⟩

/-- Different distances from one place end in different slots. -/
theorem slot_injective {a i j : Nat} (ha : a < size) (hi : i < size) (hj : j < size)
    (h : (a + i) % size = (a + j) % size) : i = j := by
  rcases mod_add_cases ha hi with ⟨hmod, hle⟩ | ⟨hmod, hle⟩ <;>
    rcases mod_add_cases ha hj with ⟨hmod', hle'⟩ | ⟨hmod', hle'⟩ <;> omega

theorem slot_ne {a i : Nat} (ha : a < size) (hpos : 0 < i) (hi : i < size) :
    (a + i) % size ≠ a := by
  intro heq
  have hzero : (a + i) % size = (a + 0) % size := by
    rw [heq, Nat.add_zero, Nat.mod_eq_of_lt ha]
  have := slot_injective ha hi (by omega) hzero
  omega

theorem Holds.count_eq (h : Holds size r xs) : r.count size = xs.length := by
  have hroom := h.room
  have htail := h.tail_lt
  rw [count, h.head_eq]
  rcases mod_add_cases htail hroom with ⟨hmod, hlt⟩ | ⟨hmod, hle⟩
  · rw [hmod, show r.tail + xs.length + (size - r.tail) = size + xs.length by omega,
      Nat.add_mod_left, Nat.mod_eq_of_lt hroom]
  · rw [hmod, show r.tail + xs.length - size + (size - r.tail) = xs.length by omega,
      Nat.mod_eq_of_lt hroom]

theorem Holds.contents_eq (h : Holds size r xs) : r.contents size = xs := by
  have hslots : ∀ k, k ≤ xs.length →
      (List.range k).filterMap (fun i => r.buffer ((r.tail + i) % size)) = xs.take k := by
    intro k
    induction k with
    | zero => simp
    | succ k ih =>
      intro hk
      have hslot : r.buffer ((r.tail + k) % size) = xs[k]? := h.slot k (by omega)
      rw [List.range_succ, List.filterMap_append, ih (by omega), List.take_add_one]
      simp [hslot, List.getElem?_eq_getElem (show k < xs.length by omega)]
  rw [contents, h.count_eq, hslots _ (Nat.le_refl _), List.take_length]

theorem Holds.next_head (h : Holds size r xs) :
    (r.head + 1) % size = (r.tail + (xs.length + 1)) % size := by
  rw [h.head_eq, Nat.mod_add_mod, Nat.add_assoc]

theorem Holds.push_full (h : Holds size r xs) (hfull : xs.length = size - 1) (x : α) :
    r.push size x = (r, false) := by
  have hroom := h.room
  have hnext : (r.head + 1) % size = r.tail := by
    rw [h.next_head, hfull, show size - 1 + 1 = size by omega, Nat.add_mod_right,
      Nat.mod_eq_of_lt h.tail_lt]
  simp [push, hnext]

/-- The new entry goes behind the others. -/
theorem Holds.push_room (h : Holds size r xs) (hroom : xs.length < size - 1) (x : α) :
    ∃ r', r.push size x = (r', true) ∧ Holds size r' (xs ++ [x]) := by
  have htail := h.tail_lt
  have hne : (r.head + 1) % size ≠ r.tail := by
    rw [h.next_head]
    exact slot_ne htail (by omega) (by omega)
  refine ⟨_, if_neg hne, ?_⟩
  refine ⟨by simp; omega, htail, by simpa using h.next_head, ?_⟩
  intro i hi
  rw [List.length_append, List.length_singleton] at hi
  dsimp only
  rcases Nat.lt_or_eq_of_le (Nat.le_of_lt_succ hi) with hlt | heq
  · have hslot : (r.tail + i) % size ≠ r.head := by
      rw [h.head_eq]
      intro heq
      have := slot_injective htail (by omega) (by omega) heq
      omega
    rw [Function.update_of_ne hslot, h.slot i hlt, List.getElem?_append_left hlt]
  · subst heq
    rw [← h.head_eq, Function.update_self]
    simp

theorem Holds.pop_empty (h : Holds size r []) : r.pop size = (r, none) := by
  have heq : r.head = r.tail := by
    rw [h.head_eq, List.length_nil, Nat.add_zero, Nat.mod_eq_of_lt h.tail_lt]
  simp [pop, heq]

/-- The oldest entry comes out. -/
theorem Holds.pop_cons (h : Holds size r (x :: xs)) :
    ∃ r', r.pop size = (r', some x) ∧ Holds size r' xs := by
  have htail := h.tail_lt
  have hroom : xs.length + 1 < size := by simpa using h.room
  have hne : r.head ≠ r.tail := by
    rw [h.head_eq]
    exact slot_ne htail (by simp) h.room
  have hfirst : r.buffer r.tail = some x := by
    have := h.slot 0 (by simp)
    rwa [Nat.add_zero, Nat.mod_eq_of_lt htail] at this
  refine ⟨_, by rw [pop, if_neg hne, hfirst], ?_⟩
  refine ⟨by omega, Nat.mod_lt _ (by omega), ?_, ?_⟩
  · rw [h.head_eq, Nat.mod_add_mod, List.length_cons, Nat.add_assoc, Nat.add_comm 1]
  · intro i hi
    have hslot : ((r.tail + 1) % size + i) % size = (r.tail + (i + 1)) % size := by
      rw [Nat.mod_add_mod, Nat.add_assoc, Nat.add_comm 1]
    have hother : (r.tail + (i + 1)) % size ≠ r.tail := slot_ne htail (by omega) (by omega)
    dsimp only
    rw [hslot, Function.update_of_ne hother, h.slot (i + 1) (by simpa using hi)]
    simp

end Holds

end Ring

end ThletEvaluation
