import ThletEvaluation.Lib.Ring

/-!
# Bounded queues

The queue a ring stands for, as a list: entries go in at the end while there is room and come
out at the front. A ring of `size` slots is such a queue with room for `size - 1` entries.
-/

namespace ThletEvaluation

set_option autoImplicit false

universe u v w

/-! ## Calls on an object -/

section Calls
variable {σ : Type u} {τ : Type v} {γ : Type w} {ρ : Type w}

/-- The object after the calls, and what the calls have returned. -/
def runCalls (f : σ → γ → σ × ρ) : σ → List γ → σ × List ρ
  | s, [] => (s, [])
  | s, c :: cs => ((runCalls f (f s c).1 cs).1, (f s c).2 :: (runCalls f (f s c).1 cs).2)

/-- One call at a time is enough for a refinement. -/
theorem runCalls_refines {R : σ → τ → Prop} {f : σ → γ → σ × ρ} {g : τ → γ → τ × ρ}
    (hstep : ∀ s t c, R s t → (f s c).2 = (g t c).2 ∧ R (f s c).1 (g t c).1)
    (calls : List γ) {s : σ} {t : τ} (h : R s t) :
    (runCalls f s calls).2 = (runCalls g t calls).2 ∧
      R (runCalls f s calls).1 (runCalls g t calls).1 := by
  induction calls generalizing s t with
  | nil => exact ⟨rfl, h⟩
  | cons c cs ih =>
    obtain ⟨hout, hnext⟩ := hstep s t c h
    obtain ⟨houts, hlast⟩ := ih hnext
    refine ⟨?_, hlast⟩
    simp only [runCalls]
    rw [hout, houts]

end Calls

variable {α : Type u}

inductive QueueCall (α : Type u) where
  | push (x : α)
  | pop

inductive QueueResult (α : Type u) where
  | pushed (stored : Bool)
  | popped (x : Option α)
  deriving DecidableEq

namespace Fifo

def push (capacity : Nat) (xs : List α) (x : α) : List α × Bool :=
  if xs.length = capacity then (xs, false) else (xs ++ [x], true)

def pop : List α → List α × Option α
  | [] => ([], none)
  | x :: xs => (xs, some x)

def call (capacity : Nat) (xs : List α) : QueueCall α → List α × QueueResult α
  | .push x => ((push capacity xs x).1, .pushed (push capacity xs x).2)
  | .pop => ((pop xs).1, .popped (pop xs).2)

end Fifo

namespace Ring

def call (size : Nat) (r : Ring α) : QueueCall α → Ring α × QueueResult α
  | .push x => ((r.push size x).1, .pushed (r.push size x).2)
  | .pop => ((r.pop size).1, .popped (r.pop size).2)

/-- The ring holds `xs`, and nothing else. -/
structure Represents (size : Nat) (r : Ring α) (xs : List α) : Prop extends
    Holds size r xs where
  unused : ∀ i, xs.length ≤ i → i < size → r.buffer ((r.tail + i) % size) = none

/-- The slots from `tail` up to, but without, `head`. -/
def InRange (tail head j : Nat) : Prop :=
  if tail ≤ head then tail ≤ j ∧ j < head else tail ≤ j ∨ j < head

section Represents
variable {size : Nat} {r r' : Ring α} {xs : List α} {x : α}

theorem represents_new (h : 0 < size) : Represents size (new : Ring α) [] where
  toHolds := holds_new h
  unused := fun _ _ _ => rfl

theorem push_stored (h : r.push size x = (r', true)) :
    r' = { r with
      buffer := Function.update r.buffer r.head (some x)
      head := (r.head + 1) % size } := by
  unfold push at h
  dsimp only at h
  split at h
  · cases h
  · exact (Prod.mk.inj h).1.symm

theorem pop_taken (h : r.pop size = (r', some x)) :
    r' = { r with
      buffer := Function.update r.buffer r.tail none
      tail := (r.tail + 1) % size } := by
  unfold pop at h
  split at h
  · cases h
  · exact (Prod.mk.inj h).1.symm

theorem Represents.push_room (h : Represents size r xs) (hroom : xs.length < size - 1) (x : α) :
    ∃ r', r.push size x = (r', true) ∧ Represents size r' (xs ++ [x]) := by
  obtain ⟨r', hpush, hholds⟩ := h.toHolds.push_room hroom x
  refine ⟨r', hpush, hholds, ?_⟩
  obtain rfl := push_stored hpush
  intro i hlen hi
  rw [List.length_append, List.length_singleton] at hlen
  have hother : (r.tail + i) % size ≠ r.head := by
    rw [h.head_eq]
    intro heq
    have := slot_injective h.tail_lt hi h.room heq
    omega
  dsimp only
  rw [Function.update_of_ne hother]
  exact h.unused i (by omega) hi

theorem Represents.pop_cons (h : Represents size r (x :: xs)) :
    ∃ r', r.pop size = (r', some x) ∧ Represents size r' xs := by
  obtain ⟨r', hpop, hholds⟩ := h.toHolds.pop_cons
  refine ⟨r', hpop, hholds, ?_⟩
  obtain rfl := pop_taken hpop
  intro i hlen hi
  have hslot : ((r.tail + 1) % size + i) % size = (r.tail + (i + 1)) % size := by
    rw [Nat.mod_add_mod, Nat.add_assoc, Nat.add_comm 1]
  dsimp only
  rw [hslot]
  by_cases hlast : i + 1 = size
  · -- The slot that has just been emptied.
    rw [hlast, Nat.add_mod_right, Nat.mod_eq_of_lt h.tail_lt, Function.update_self]
  · have hother : (r.tail + (i + 1)) % size ≠ r.tail :=
      slot_ne h.tail_lt (by omega) (by omega)
    rw [Function.update_of_ne hother]
    exact h.unused (i + 1) (by simpa using hlen) (by omega)

theorem Represents.push (h : Represents size r xs) (x : α) :
    (r.push size x).2 = (Fifo.push (size - 1) xs x).2 ∧
      Represents size (r.push size x).1 (Fifo.push (size - 1) xs x).1 := by
  by_cases hfull : xs.length = size - 1
  · rw [h.toHolds.push_full hfull, Fifo.push, if_pos hfull]
    exact ⟨rfl, h⟩
  · have hlt := h.room
    obtain ⟨r', hpush, hrep⟩ := h.push_room (by omega) x
    rw [hpush, Fifo.push, if_neg hfull]
    exact ⟨rfl, hrep⟩

theorem Represents.pop (h : Represents size r xs) :
    (r.pop size).2 = (Fifo.pop xs).2 ∧ Represents size (r.pop size).1 (Fifo.pop xs).1 := by
  cases xs with
  | nil =>
    rw [h.toHolds.pop_empty]
    exact ⟨rfl, h⟩
  | cons x xs =>
    obtain ⟨r', hpop, hrep⟩ := h.pop_cons
    rw [hpop]
    exact ⟨rfl, hrep⟩

theorem Represents.call (h : Represents size r xs) (c : QueueCall α) :
    (r.call size c).2 = (Fifo.call (size - 1) xs c).2 ∧
      Represents size (r.call size c).1 (Fifo.call (size - 1) xs c).1 := by
  cases c with
  | push x =>
    obtain ⟨hout, hrep⟩ := h.push x
    exact ⟨congrArg QueueResult.pushed hout, hrep⟩
  | pop =>
    obtain ⟨hout, hrep⟩ := h.pop
    exact ⟨congrArg QueueResult.popped hout, hrep⟩

theorem Represents.head_lt (h : Represents size r xs) : r.head < size := by
  have hroom := h.room
  rw [h.head_eq]
  exact Nat.mod_lt _ (by omega)

/-- Every slot lies at some distance behind `tail`. -/
theorem slot_of_lt {a j : Nat} (ha : a < size) (hj : j < size) :
    ∃ i, i < size ∧ (a + i) % size = j ∧ (i = j - a ∧ a ≤ j ∨ i = j + size - a ∧ j < a) := by
  by_cases h : a ≤ j
  · refine ⟨j - a, by omega, ?_, .inl ⟨rfl, h⟩⟩
    rw [Nat.add_sub_cancel' h, Nat.mod_eq_of_lt hj]
  · refine ⟨j + size - a, by omega, ?_, .inr ⟨rfl, by omega⟩⟩
    rw [show a + (j + size - a) = j + size by omega, Nat.add_mod_right, Nat.mod_eq_of_lt hj]

/-- A slot is filled exactly if it lies in the range from `tail` to `head`. -/
theorem Represents.isSome_iff (h : Represents size r xs) {j : Nat} (hj : j < size) :
    (r.buffer j).isSome ↔ InRange r.tail r.head j := by
  have htail := h.tail_lt
  have hroom := h.room
  obtain ⟨i, hi, hslot, hdist⟩ := slot_of_lt htail hj
  have hfilled : (r.buffer j).isSome ↔ i < xs.length := by
    rw [← hslot]
    by_cases hlen : i < xs.length
    · rw [h.slot i hlen, List.getElem?_eq_getElem hlen]
      simp [hlen]
    · rw [h.unused i (by omega) hi]
      simp [hlen]
  rw [hfilled, InRange]
  rcases mod_add_cases htail hroom with ⟨hmod, hlt⟩ | ⟨hmod, hle⟩
  · rw [h.head_eq, hmod, if_pos (by omega)]
    omega
  · rw [h.head_eq, hmod, if_neg (by omega)]
    omega

end Represents

end Ring

end ThletEvaluation
