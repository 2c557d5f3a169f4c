/-!
# Calls that check their arguments

A call that stops at the first failing check is an `if` chain in `Except`. These lemmas say what
a result or an error of such a call tells about its checks and about the steps it is made of.
-/

namespace ThletEvaluation.Checks

set_option autoImplicit false

universe u
variable {ε α β : Type u} {x : Except ε α} {f : α → Except ε β} {b : β} {e e' : ε}

theorem bind_eq_ok : x >>= f = .ok b ↔ ∃ a, x = .ok a ∧ f a = .ok b := by
  cases x with
  | error e =>
    constructor
    · intro h
      cases h
    · rintro ⟨a, h, -⟩
      cases h
  | ok a =>
    constructor
    · intro h
      exact ⟨a, rfl, h⟩
    · rintro ⟨a', h, hf⟩
      obtain rfl := Except.ok.inj h
      exact hf

theorem bind_eq_error :
    x >>= f = .error e ↔ x = .error e ∨ ∃ a, x = .ok a ∧ f a = .error e := by
  cases x with
  | error e' =>
    constructor
    · intro h
      exact .inl (congrArg Except.error (Except.error.inj h))
    · rintro (h | ⟨a, h, -⟩)
      · exact congrArg Except.error (Except.error.inj h)
      · cases h
  | ok a =>
    constructor
    · intro h
      exact .inr ⟨a, rfl, h⟩
    · rintro (h | ⟨a', h, hf⟩)
      · cases h
      · obtain rfl := Except.ok.inj h
        exact hf

theorem bind_of_ok {a : α} (h : x = .ok a) (f : α → Except ε β) : x >>= f = f a := by
  rw [h]
  rfl

section Guard
variable {c : Prop} [Decidable c] {a : α}

theorem guard_eq_ok : (if c then .error e else x) = .ok a ↔ ¬ c ∧ x = .ok a := by
  by_cases hc : c
  · simp [hc]
  · simp [hc]

/-- A check that fails names itself. -/
theorem guard_eq_error (hne : e ≠ e') :
    (if c then .error e else x) = .error e' ↔ ¬ c ∧ x = .error e' := by
  by_cases hc : c
  · simp [hc, hne]
  · simp [hc]

end Guard

end ThletEvaluation.Checks
