import Mathlib.Data.List.Induction
import ThletEvaluation.Lib.Run

/-!
# Observers of traces

An observer reads the events of a trace one by one and may refuse one. It is the
abstract side of a simulation: a machine simulates an observer when no event it emits
is refused and the two states stay related.
-/

namespace ThletEvaluation.Run

set_option autoImplicit false

universe u v w x
variable {σ : Type u} {α : Type v} {ε : Type w} {β : Type x}

structure Observer (β : Type x) (ε : Type w) where
  next : β → ε → Option β

namespace Observer
variable {O : Observer β ε} {a b : β} {e : ε} {es fs : List ε}

def accept (O : Observer β ε) : β → List ε → Option β
  | a, [] => some a
  | a, e :: es =>
    match O.next a e with
    | none => none
    | some b => O.accept b es

@[simp] theorem accept_nil : O.accept a [] = some a := rfl

theorem accept_cons_iff :
    O.accept a (e :: es) = some b ↔ ∃ c, O.next a e = some c ∧ O.accept c es = some b := by
  cases h : O.next a e with
  | none => simp [accept, h]
  | some c => simp [accept, h]

theorem accept_append_iff :
    O.accept a (es ++ fs) = some b ↔ ∃ c, O.accept a es = some c ∧ O.accept c fs = some b := by
  induction es generalizing a with
  | nil => simp
  | cons e es ih =>
    simp only [List.cons_append, accept_cons_iff, ih]
    constructor
    · rintro ⟨c, hc, d, hd, hb⟩
      exact ⟨d, ⟨c, hc, hd⟩, hb⟩
    · rintro ⟨d, ⟨c, hc, hd⟩, hb⟩
      exact ⟨c, hc, d, hd, hb⟩

@[simp] theorem accept_singleton : O.accept a [e] = O.next a e := by
  cases h : O.next a e <;> simp [accept, h]

theorem accept_const (h : ∀ e ∈ es, O.next a e = some a) : O.accept a es = some a := by
  induction es with
  | nil => rfl
  | cons e es ih =>
    apply accept_cons_iff.mpr
    exact ⟨a, h e (by simp), ih fun e he => h e (by simp [he])⟩

theorem accept_split (h : O.accept a (es ++ e :: fs) = some b) :
    ∃ c d, O.accept a es = some c ∧ O.next c e = some d := by
  obtain ⟨c, hc, hrest⟩ := accept_append_iff.mp h
  obtain ⟨d, hd, -⟩ := accept_cons_iff.mp hrest
  exact ⟨c, d, hc, hd⟩

/-- The invariant rule for accepted traces. -/
theorem accept_invariant {I : List ε → β → Prop} (hstart : I [] a)
    (hnext : ∀ {tr c e d}, I tr c → O.next c e = some d → I (tr ++ [e]) d)
    (h : O.accept a es = some b) : I es b := by
  induction es using List.reverseRecOn generalizing b with
  | nil =>
    obtain rfl : a = b := by simpa using h
    exact hstart
  | append_singleton es e ih =>
    obtain ⟨c, hc, hd⟩ := accept_append_iff.mp h
    exact hnext (ih hc) (by simpa using hd)

/-- An observer that, where it does not refuse, collects the events. -/
theorem accept_foldl {f : β → ε → β} (hnext : ∀ {c e d}, O.next c e = some d → d = f c e)
    (h : O.accept a es = some b) : b = es.foldl f a := by
  apply accept_invariant (I := fun tr c => c = tr.foldl f a) rfl _ h
  intro tr c e d hc hd
  rw [hnext hd, hc, List.foldl_append]
  rfl

end Observer

/-- The simulation rule. -/
theorem Runs.simulates {M : Machine σ α ε} {ok : σ → α → Prop} {O : Observer β ε}
    {R : β → σ → Prop} {b₀ : β} {s₀ s : σ} {tr : List ε} (hstart : R b₀ s₀)
    (hstep : ∀ {b s a t es}, R b s → ok s a → M.step s a = some (t, es) →
      ∃ c, O.accept b es = some c ∧ R c t)
    (h : Runs M ok s₀ tr s) : ∃ b, O.accept b₀ tr = some b ∧ R b s := by
  apply Runs.invariant (I := fun tr s => ∃ b, O.accept b₀ tr = some b ∧ R b s) _ _ h
  · exact ⟨b₀, rfl, hstart⟩
  · rintro tr es s t a ⟨b, hb, hR⟩ hok hs
    obtain ⟨c, hc, hR'⟩ := hstep hR hok hs
    exact ⟨c, Observer.accept_append_iff.mpr ⟨b, hb, hc⟩, hR'⟩

end ThletEvaluation.Run
