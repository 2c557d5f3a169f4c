import Mathlib.Data.List.Basic

/-!
# Runs of a partial machine

A machine takes one step under an action, which is the choice of everything the
modelled program does not decide itself. A step may be impossible, and it emits a
finite list of events. Traces are kept in the order in which the events happen, so
an observer of the trace is a left fold and a step acts on it by one append.
-/

namespace ThletEvaluation.Run

set_option autoImplicit false

universe u v w
variable {σ : Type u} {α : Type v} {ε : Type w}

structure Machine (σ : Type u) (α : Type v) (ε : Type w) where
  step : σ → α → Option (σ × List ε)

/-- `Runs M ok s₀ tr s`: from `s₀` the machine reaches `s` and emits `tr`, and every
action it takes is one that `ok` admits in the state where it is taken. -/
inductive Runs (M : Machine σ α ε) (ok : σ → α → Prop) (s₀ : σ) : List ε → σ → Prop where
  | start : Runs M ok s₀ [] s₀
  | next {tr es : List ε} {s t : σ} {a : α} :
      Runs M ok s₀ tr s → ok s a → M.step s a = some (t, es) → Runs M ok s₀ (tr ++ es) t

namespace Runs
variable {M : Machine σ α ε} {ok ok' : σ → α → Prop} {s₀ s t : σ} {tr tr' : List ε}

theorem mono (h : Runs M ok s₀ tr s) (himp : ∀ s a, ok s a → ok' s a) :
    Runs M ok' s₀ tr s := by
  induction h with
  | start => exact .start
  | next _ hok hstep ih => exact .next ih (himp _ _ hok) hstep

theorem trans (h : Runs M ok s₀ tr s) (h' : Runs M ok s tr' t) :
    Runs M ok s₀ (tr ++ tr') t := by
  induction h' with
  | start => simpa using h
  | next _ hok hstep ih =>
    rw [← List.append_assoc]
    exact .next ih hok hstep

/-- The invariant rule: what holds at the start and survives every admitted step
holds of the trace and the state of every run. -/
theorem invariant {I : List ε → σ → Prop} (hstart : I [] s₀)
    (hstep : ∀ {tr es s t a}, I tr s → ok s a → M.step s a = some (t, es) → I (tr ++ es) t)
    (h : Runs M ok s₀ tr s) : I tr s := by
  induction h with
  | start => exact hstart
  | next _ hok hs ih => exact hstep ih hok hs

/-- The progress rule: wherever a run is not at the goal yet and `I` holds, there is an
admitted step that brings it nearer and keeps `I`. -/
theorem reaches {I goal : σ → Prop} (rank : σ → Nat)
    (hnext : ∀ {tr s}, Runs M ok s₀ tr s → I s → goal s ∨
      ∃ a t es, ok s a ∧ M.step s a = some (t, es) ∧ I t ∧ rank t < rank s)
    (h : Runs M ok s₀ tr s) (hI : I s) : ∃ tr' t, Runs M ok s₀ tr' t ∧ goal t := by
  induction hrank : rank s using Nat.strongRecOn generalizing tr s with
  | ind r ih =>
    subst hrank
    rcases hnext h hI with hgoal | ⟨a, t, es, hok, hstep, ht, hlt⟩
    · exact ⟨tr, s, h, hgoal⟩
    · exact ih (rank t) hlt (h.next hok hstep) ht rfl

theorem uncons (h : Runs M ok s tr t) :
    (s = t ∧ tr = []) ∨ ∃ a r rest, ok s a ∧ M.step s a = some r ∧ Runs M ok r.1 rest t ∧
      tr = r.2 ++ rest := by
  induction h with
  | start => exact .inl ⟨rfl, rfl⟩
  | @next tr es s' t a _ hok hstep ih =>
    right
    rcases ih with ⟨rfl, rfl⟩ | ⟨b, r, rest, hb, hr, hrest, rfl⟩
    · exact ⟨a, (t, es), [], hok, hstep, .start, by simp⟩
    · exact ⟨b, r, rest ++ es, hb, hr, .next hrest hok hstep, by simp⟩

section Deterministic
variable (hdet : ∀ {s a b r r'}, ok s a → ok s b → M.step s a = some r → M.step s b = some r' →
  r = r')
include hdet

/-- A deterministic machine that can come to a stop passes through every state it can
reach. -/
theorem extends_to_stop {u : σ} (h : Runs M ok s tr t) (hstop : ∀ a, ok t a → M.step t a = none)
    (h' : Runs M ok s tr' u) : ∃ rest, Runs M ok u rest t ∧ tr = tr' ++ rest := by
  induction h' with
  | start => exact ⟨tr, h, rfl⟩
  | @next tr₁ es v w a _ hok hstep ih =>
    obtain ⟨rest, hrest, rfl⟩ := ih
    rcases hrest.uncons with ⟨rfl, -⟩ | ⟨b, r, rest', hb, hr, hrun, rfl⟩
    · simp [hstop a hok] at hstep
    · obtain rfl := hdet hok hb hstep hr
      exact ⟨rest', hrun, by simp⟩

theorem stop_unique {u : σ} (h : Runs M ok s tr t) (hstop : ∀ a, ok t a → M.step t a = none)
    (h' : Runs M ok s tr' u) (hstop' : ∀ a, ok u a → M.step u a = none) : u = t := by
  obtain ⟨rest, hrest, -⟩ := extends_to_stop hdet h hstop h'
  rcases hrest.uncons with ⟨heq, -⟩ | ⟨b, r, _, hb, hr, -⟩
  · exact heq
  · simp [hstop' b hb] at hr

end Deterministic

end Runs

def Machine.exec (M : Machine σ α ε) (ok : σ → α → Prop) [∀ s a, Decidable (ok s a)] :
    σ → List α → Option (σ × List ε)
  | s, [] => some (s, [])
  | s, a :: as =>
    if ok s a then
      match M.step s a with
      | none => none
      | some (t, es) => (M.exec ok t as).map fun r => (r.1, es ++ r.2)
    else none

theorem Machine.exec_runs {M : Machine σ α ε} {ok : σ → α → Prop} [∀ s a, Decidable (ok s a)]
    {s t : σ} {as : List α} {es : List ε} (h : M.exec ok s as = some (t, es)) :
    Runs M ok s es t := by
  induction as generalizing s es with
  | nil =>
    obtain ⟨rfl, rfl⟩ : s = t ∧ [] = es := by simpa [Machine.exec] using h
    exact .start
  | cons a as ih =>
    by_cases hok : ok s a
    · cases hs : M.step s a with
      | none => simp [Machine.exec, hok, hs] at h
      | some r =>
        simp only [Machine.exec, hok, if_true, hs, Option.map_eq_some_iff, Prod.mk.injEq] at h
        obtain ⟨r', hr', rfl, rfl⟩ := h
        have hhead : Runs M ok s r.2 r.1 := by
          simpa using Runs.next .start hok hs
        exact hhead.trans (ih hr')
    · simp [Machine.exec, hok] at h

/-- A rank that goes down with every step bounds the length of what can be executed. -/
theorem Machine.exec_length_le {M : Machine σ α ε} {ok : σ → α → Prop}
    [∀ s a, Decidable (ok s a)] (rank : σ → Nat) {I : σ → Prop}
    (hstep : ∀ {s t : σ} {a : α} {es : List ε}, I s → ok s a → M.step s a = some (t, es) →
      I t ∧ rank t < rank s)
    {s : σ} {as : List α} {r : σ × List ε} (hI : I s) (h : M.exec ok s as = some r) :
    as.length ≤ rank s := by
  induction as generalizing s r with
  | nil => exact Nat.zero_le _
  | cons a as ih =>
    by_cases hok : ok s a
    · cases hs : M.step s a with
      | none => simp [Machine.exec, hok, hs] at h
      | some q =>
        simp only [Machine.exec, hok, if_true, hs, Option.map_eq_some_iff] at h
        obtain ⟨r', hr', -⟩ := h
        obtain ⟨hI', hlt⟩ := hstep hI hok hs
        have hrest := ih hI' hr'
        rw [List.length_cons]
        omega
    · simp [Machine.exec, hok] at h

/-- A computed execution is a run; `p` is what was computed of its end. -/
theorem Machine.exec_reaches (M : Machine σ α ε) (ok : σ → α → Prop)
    [∀ s a, Decidable (ok s a)] (s : σ) (as : List α) (p : List ε → σ → Bool)
    (h : (M.exec ok s as).any (fun r => p r.2 r.1) = true) :
    ∃ tr t, Runs M ok s tr t ∧ p tr t = true := by
  obtain ⟨⟨t, tr⟩, hexec, hp⟩ := (Option.any_eq_true ..).mp h
  exact ⟨tr, t, Machine.exec_runs hexec, hp⟩

/-! ## Schedules without an end -/

section Schedules
variable {M : Machine σ α ε} {s : σ} {acts : Nat → α} {k : Nat}

end Schedules

end ThletEvaluation.Run
