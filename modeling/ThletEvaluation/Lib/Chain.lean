import Mathlib.Logic.Function.Basic
import Mathlib.Data.List.Basic

/-!
# Lists threaded through memory

`next` is the link stored at each address and `null` ends a list. A chain is read
off by following `next`; a chain of chunks is read off by following a second link
from the first cell of each chunk. Nothing here fixes what an address is.
-/

namespace ThletEvaluation.Chain

set_option autoImplicit false

universe u
variable {α : Type u}

/-- Following `next` from `p` visits exactly `xs` and then reaches `null`. -/
def Linked (next : α → α) (null : α) : α → List α → Prop
  | p, [] => p = null
  | p, x :: xs => p = x ∧ x ≠ null ∧ Linked next null (next x) xs

/-- Following `nextChunk` from `p` visits the heads of the chunks, each of which is a
nonempty chain of its own. -/
def Chunked (next nextChunk : α → α) (null : α) : α → List (List α) → Prop
  | p, [] => p = null
  | p, c :: cs => p ≠ null ∧ Linked next null p c ∧ Chunked next nextChunk null (nextChunk p) cs

variable {next next' nextChunk nextChunk' : α → α} {null p a : α} {xs ys : List α}
variable {cs ds : List (List α)}

@[simp] theorem linked_nil : Linked next null p [] ↔ p = null := Iff.rfl

@[simp] theorem chunked_nil : Chunked next nextChunk null p [] ↔ p = null := Iff.rfl

namespace Linked

theorem null_iff (h : Linked next null p xs) : p = null ↔ xs = [] := by
  cases xs with
  | nil => simpa using h
  | cons x xs =>
    obtain ⟨rfl, hx, _⟩ := h
    simp [hx]

theorem null_notMem (h : Linked next null p xs) : null ∉ xs := by
  induction xs generalizing p with
  | nil => simp
  | cons x xs ih =>
    obtain ⟨_, hx, ht⟩ := h
    simp only [List.mem_cons, not_or]
    exact ⟨Ne.symm hx, ih ht⟩

theorem uncons (h : Linked next null p xs) (hp : p ≠ null) :
    ∃ ys, xs = p :: ys ∧ Linked next null (next p) ys := by
  cases xs with
  | nil => exact absurd h hp
  | cons x ys =>
    obtain ⟨rfl, _, ht⟩ := h
    exact ⟨ys, rfl, ht⟩

theorem unique (h : Linked next null p xs) (h' : Linked next null p ys) : xs = ys := by
  induction xs generalizing p ys with
  | nil => exact (h'.null_iff.mp h).symm
  | cons x xs ih =>
    obtain ⟨rfl, hx, ht⟩ := h
    obtain ⟨zs, rfl, hz⟩ := h'.uncons hx
    rw [ih ht hz]

theorem frame (h : Linked next null p xs) (hagree : ∀ x ∈ xs, next' x = next x) :
    Linked next' null p xs := by
  induction xs generalizing p with
  | nil => exact h
  | cons x xs ih =>
    obtain ⟨hp, hx, ht⟩ := h
    refine ⟨hp, hx, ?_⟩
    rw [hagree x List.mem_cons_self]
    exact ih ht (fun y hy => hagree y (List.mem_cons_of_mem x hy))

/-- Storing the old head in a cell outside the chain pushes that cell. -/
theorem push (h : Linked next null p xs) (ha : a ≠ null) (hnext : next' a = p)
    (hagree : ∀ x ∈ xs, next' x = next x) : Linked next' null a (a :: xs) := by
  refine ⟨rfl, ha, ?_⟩
  rw [hnext]
  exact h.frame hagree

end Linked

namespace Chunked

theorem null_iff (h : Chunked next nextChunk null p cs) : p = null ↔ cs = [] := by
  cases cs with
  | nil => simpa using h
  | cons c cs => simp [h.1]

theorem uncons (h : Chunked next nextChunk null p cs) (hp : p ≠ null) :
    ∃ c ds, cs = c :: ds ∧ Linked next null p c ∧
      Chunked next nextChunk null (nextChunk p) ds := by
  cases cs with
  | nil => exact absurd h hp
  | cons c ds => exact ⟨c, ds, rfl, h.2⟩

theorem unique (h : Chunked next nextChunk null p cs) (h' : Chunked next nextChunk null p ds) :
    cs = ds := by
  induction cs generalizing p ds with
  | nil => exact (h'.null_iff.mp h).symm
  | cons c cs ih =>
    obtain ⟨hp, hc, ht⟩ := h
    obtain ⟨d, es, rfl, hd, hes⟩ := h'.uncons hp
    rw [hc.unique hd, ih ht hes]

theorem frame (h : Chunked next nextChunk null p cs)
    (hnext : ∀ x ∈ cs.flatten, next' x = next x)
    (hchunk : ∀ x ∈ cs.flatten, nextChunk' x = nextChunk x) :
    Chunked next' nextChunk' null p cs := by
  induction cs generalizing p with
  | nil => exact h
  | cons c cs ih =>
    obtain ⟨hp, hc, ht⟩ := h
    simp only [List.flatten_cons, List.mem_append] at hnext hchunk
    obtain ⟨ys, rfl, _⟩ := hc.uncons hp
    refine ⟨hp, hc.frame (fun x hx => hnext x (Or.inl hx)), ?_⟩
    rw [hchunk p (Or.inl List.mem_cons_self)]
    exact ih ht (fun x hx => hnext x (Or.inr hx)) (fun x hx => hchunk x (Or.inr hx))

end Chunked

/-! ## Walks that may end anywhere -/

/-- Following `next` from `p` visits `xs` and is then at `q`. -/
def Walk (next : α → α) : α → List α → α → Prop
  | p, [], q => p = q
  | p, x :: xs, q => p = x ∧ Walk next (next x) xs q

namespace Walk
variable {q r : α}

theorem frame (h : Walk next p xs q) (hagree : ∀ x ∈ xs, next' x = next x) :
    Walk next' p xs q := by
  induction xs generalizing p with
  | nil => exact h
  | cons x xs ih =>
    obtain ⟨hp, ht⟩ := h
    refine ⟨hp, ?_⟩
    rw [hagree x List.mem_cons_self]
    exact ih ht (fun y hy => hagree y (List.mem_cons_of_mem x hy))

theorem snoc (h : Walk next p xs q) : Walk next p (xs ++ [q]) (next q) := by
  induction xs generalizing p with
  | nil => exact ⟨h, rfl⟩
  | cons x xs ih => exact ⟨h.1, ih h.2⟩

theorem init (h : Walk next p (xs ++ [a]) q) : Walk next p xs a := by
  induction xs generalizing p with
  | nil => exact h.1
  | cons x xs ih => exact ⟨h.1, ih h.2⟩

/-- The start and the number of steps determine a walk. -/
theorem unique (h : Walk next p xs q) (h' : Walk next p ys r) (hlen : xs.length = ys.length) :
    xs = ys ∧ q = r := by
  induction xs generalizing p ys with
  | nil =>
    obtain rfl := List.eq_nil_of_length_eq_zero hlen.symm
    exact ⟨rfl, h.symm.trans h'⟩
  | cons x xs ih =>
    cases ys with
    | nil => simp at hlen
    | cons y ys =>
      obtain ⟨rfl, ht⟩ := h
      obtain ⟨rfl, ht'⟩ := h'
      obtain ⟨rfl, rfl⟩ := ih ht ht' (by simpa using hlen)
      exact ⟨rfl, rfl⟩

theorem linked (h : Walk next p xs null) (hnull : null ∉ xs) : Linked next null p xs := by
  induction xs generalizing p with
  | nil => exact h
  | cons x xs ih =>
    simp only [List.mem_cons, not_or] at hnull
    exact ⟨h.1, Ne.symm hnull.1, ih h.2 hnull.2⟩

end Walk

theorem Linked.walk (h : Linked next null p xs) : Walk next p xs null := by
  induction xs generalizing p with
  | nil => exact h
  | cons x xs ih => exact ⟨h.1, ih h.2.2⟩

/-- The heads of the chunks are a walk of their own. -/
theorem Chunked.walk (h : Chunked next nextChunk null p cs) :
    ∃ hs, Walk nextChunk p hs null ∧ List.Forall₂ (Linked next null) hs cs := by
  induction cs generalizing p with
  | nil => exact ⟨[], h, .nil⟩
  | cons c cs ih =>
    obtain ⟨-, hc, ht⟩ := h
    obtain ⟨hs, hwalk, hall⟩ := ih ht
    exact ⟨p :: hs, ⟨rfl, hwalk⟩, .cons hc hall⟩

theorem Walk.chunked {hs : List α} (h : Walk nextChunk p hs null) (hnull : null ∉ hs)
    (hall : List.Forall₂ (Linked next null) hs cs) : Chunked next nextChunk null p cs := by
  induction hall generalizing p with
  | nil => exact h
  | cons hc _ ih =>
    obtain ⟨rfl, ht⟩ := h
    simp only [List.mem_cons, not_or] at hnull
    exact ⟨Ne.symm hnull.1, hc, ih ht hnull.2⟩

end ThletEvaluation.Chain
