import Mathlib.Logic.Function.Basic
import ThletEvaluation.Lib.Observer
import ThletEvaluation.Lib.Threads

/-!
# Critical sections

Threads make calls. A call takes the lock of one cell, touches the cell one access at a time,
gives the lock back and returns a result. Any number of threads interleave at every access.
If each section by itself does to its cell what an atomic operation does, then the calls take
effect one after the other, each between its beginning and its return.
-/

namespace ThletEvaluation.Locked

open Run Threads

set_option autoImplicit false

universe u v w x y z r
variable {κ : Type u} {ν : Type v} {ι : Type w} {μ : Type x} {χ : Type y} {ρ : Type z}
variable {τ : Type r}

/-- The code of the calls `ι` from the lock to the unlock. A place `μ` of a section is also
what the thread keeps for itself, and `χ` is what an access does not decide. A call without a
lock never gets as far as its section. -/
structure Body (κ : Type u) (ν : Type v) (ι : Type w) (μ : Type x) (χ : Type y) (ρ : Type z) where
  lock : ι → Option κ
  enter : ι → μ
  access : μ → ν → χ → Option (μ × ν)
  result : μ → Option ρ

inductive Phase (ι : Type w) (μ : Type x) (ρ : Type z) where
  | idle
  | waiting (op : ι)
  | inside (op : ι) (m : μ)
  | leaving (res : ρ)

structure State (κ : Type u) (ν : Type v) (ι : Type w) (μ : Type x) (ρ : Type z) where
  cell : κ → ν
  holder : κ → Option Nat
  phase : Nat → Phase ι μ ρ

inductive Action (ι : Type w) (χ : Type y) where
  | call (t : Nat) (op : ι)
  | acquire (t : Nat)
  | access (t : Nat) (c : χ)
  | release (t : Nat)
  | ret (t : Nat)

def Action.isCall : Action ι χ → Bool
  | .call _ _ => true
  | _ => false

@[simp] def Action.thread : Action ι χ → Nat
  | .call t _ => t
  | .acquire t => t
  | .access t _ => t
  | .release t => t
  | .ret t => t

inductive Event (ι : Type w) (ρ : Type z) where
  | call (t : Nat) (op : ι)
  | done (t : Nat) (op : ι) (res : ρ)
  | ret (t : Nat) (res : ρ)
  deriving DecidableEq

def State.at (s : State κ ν ι μ ρ) (t : Nat) (p : Phase ι μ ρ) : State κ ν ι μ ρ :=
  { s with phase := Function.update s.phase t p }

section Machine
variable [DecidableEq κ] (B : Body κ ν ι μ χ ρ)

def Body.step (s : State κ ν ι μ ρ) :
    Action ι χ → Option (State κ ν ι μ ρ × List (Event ι ρ))
  | .call t op =>
    match s.phase t with
    | .idle => some (s.at t (.waiting op), [.call t op])
    | _ => none
  | .acquire t =>
    match s.phase t with
    | .waiting op =>
      (B.lock op).bind fun k =>
        match s.holder k with
        | none => some ({ s.at t (.inside op (B.enter op)) with
            holder := Function.update s.holder k (some t) }, [])
        | some _ => none
    | _ => none
  | .access t c =>
    match s.phase t with
    | .inside op m =>
      (B.lock op).bind fun k =>
        (B.access m (s.cell k) c).map fun r =>
          ({ s.at t (.inside op r.1) with cell := Function.update s.cell k r.2 }, [])
    | _ => none
  | .release t =>
    match s.phase t with
    | .inside op m =>
      (B.lock op).bind fun k =>
        (B.result m).map fun res =>
          ({ s.at t (.leaving res) with holder := Function.update s.holder k none },
            [.done t op res])
    | _ => none
  | .ret t =>
    match s.phase t with
    | .leaving res => some (s.at t .idle, [.ret t res])
    | _ => none

def Body.machine : Machine (State κ ν ι μ ρ) (Action ι χ) (Event ι ρ) := ⟨B.step⟩

def State.start (cell : κ → ν) : State κ ν ι μ ρ := ⟨cell, fun _ => none, fun _ => .idle⟩

/-- What each action can do. -/
inductive Body.Move (s : State κ ν ι μ ρ) :
    Action ι χ → State κ ν ι μ ρ → List (Event ι ρ) → Prop where
  | call {t : Nat} (op : ι) (hphase : s.phase t = .idle) :
      Move s (.call t op) (s.at t (.waiting op)) [.call t op]
  | acquire {t : Nat} {op : ι} {k : κ} (hphase : s.phase t = .waiting op)
      (hlock : B.lock op = some k) (hfree : s.holder k = none) :
      Move s (.acquire t) { s.at t (.inside op (B.enter op)) with
        holder := Function.update s.holder k (some t) } []
  | access {t : Nat} {op : ι} {k : κ} {m m' : μ} {c : χ} {v : ν}
      (hphase : s.phase t = .inside op m) (hlock : B.lock op = some k)
      (haccess : B.access m (s.cell k) c = some (m', v)) :
      Move s (.access t c) { s.at t (.inside op m') with
        cell := Function.update s.cell k v } []
  | release {t : Nat} {op : ι} {k : κ} {m : μ} {res : ρ} (hphase : s.phase t = .inside op m)
      (hlock : B.lock op = some k) (hres : B.result m = some res) :
      Move s (.release t) { s.at t (.leaving res) with
        holder := Function.update s.holder k none } [.done t op res]
  | ret {t : Nat} {res : ρ} (hphase : s.phase t = .leaving res) :
      Move s (.ret t) (s.at t .idle) [.ret t res]

variable {B} {s s' : State κ ν ι μ ρ} {a : Action ι χ} {es : List (Event ι ρ)}

theorem Body.step_iff : B.step s a = some (s', es) ↔ B.Move s a s' es := by
  constructor
  · intro h
    cases a with
    | call t op =>
      cases hphase : s.phase t <;> simp only [step, hphase, reduceCtorEq] at h
      cases h
      exact .call op hphase
    | acquire t =>
      cases hphase : s.phase t <;> simp only [step, hphase, reduceCtorEq] at h
      obtain ⟨k, hlock, h⟩ := Option.bind_eq_some_iff.mp h
      cases hfree : s.holder k <;> simp only [hfree, reduceCtorEq] at h
      cases h
      exact .acquire hphase hlock hfree
    | access t c =>
      cases hphase : s.phase t <;> simp only [step, hphase, reduceCtorEq] at h
      obtain ⟨k, hlock, h⟩ := Option.bind_eq_some_iff.mp h
      obtain ⟨⟨m', v⟩, haccess, h⟩ := Option.map_eq_some_iff.mp h
      cases h
      exact .access hphase hlock haccess
    | release t =>
      cases hphase : s.phase t <;> simp only [step, hphase, reduceCtorEq] at h
      obtain ⟨k, hlock, h⟩ := Option.bind_eq_some_iff.mp h
      obtain ⟨res, hres, h⟩ := Option.map_eq_some_iff.mp h
      cases h
      exact .release hphase hlock hres
    | ret t =>
      cases hphase : s.phase t <;> simp only [step, hphase, reduceCtorEq] at h
      cases h
      exact .ret hphase
  · intro h
    cases h with
    | call op hphase => simp [step, hphase]
    | acquire hphase hlock hfree => simp [step, hphase, hlock, hfree]
    | access hphase hlock haccess => simp [step, hphase, hlock, haccess]
    | release hphase hlock hres => simp [step, hphase, hlock, hres]
    | ret hphase => simp [step, hphase]

/-- A step is one thread's own. -/
theorem Body.step_phase_of_ne {t : Nat} (h : B.step s a = some (s', es)) (ht : t ≠ a.thread) :
    s'.phase t = s.phase t := by
  cases Body.step_iff.mp h <;> exact Function.update_of_ne ht ..

end Machine

/-! ## The atomic object -/

inductive Status (ι : Type w) (ρ : Type z) where
  | idle
  | called (op : ι)
  | finished (res : ρ)

/-- An object that performs every call at once. It accepts a trace if each thread begins a
call, has it performed and returns the result, in this order, and if the results are those of
the calls performed one after the other. -/
def sequential [DecidableEq ι] [DecidableEq ρ] (perform : τ → ι → Option (τ × ρ)) :
    Observer (τ × (Nat → Status ι ρ)) (Event ι ρ) where
  next s
    | .call t op =>
      match s.2 t with
      | .idle => some (s.1, Function.update s.2 t (.called op))
      | _ => none
    | .done t op res =>
      match s.2 t with
      | .called op' =>
        if op' = op then
          match perform s.1 op with
          | some (T, res') =>
            if res' = res then some (T, Function.update s.2 t (.finished res)) else none
          | none => none
        else none
      | _ => none
    | .ret t res =>
      match s.2 t with
      | .finished res' =>
        if res' = res then some (s.1, Function.update s.2 t .idle) else none
      | _ => none

/-- The calls in the order in which they take effect. -/
def doneCalls : List (Event ι ρ) → List ι
  | [] => []
  | .done _ op _ :: es => op :: doneCalls es
  | _ :: es => doneCalls es

section Sequential
variable [DecidableEq ι] [DecidableEq ρ] {perform : τ → ι → Option (τ × ρ)}
variable {T T' : τ} {st st' : Nat → Status ι ρ} {tr tr' : List (Event ι ρ)}

def performAll (perform : τ → ι → Option (τ × ρ)) (T : τ) (ops : List ι) : Option τ :=
  ops.foldlM (fun T op => (perform T op).map Prod.fst) T

theorem sequential_done_iff {t : Nat} {op : ι} {res : ρ} :
    (sequential perform).next (T, st) (.done t op res) = some (T', st') ↔
      st t = .called op ∧ perform T op = some (T', res) ∧
        st' = Function.update st t (.finished res) := by
  cases hst : st t with
  | idle => simp [sequential, hst]
  | finished res' => simp [sequential, hst]
  | called op' =>
    by_cases hop : op' = op
    · subst op'
      cases hperform : perform T op with
      | none => simp [sequential, hst, hperform]
      | some r =>
        obtain ⟨T₁, res'⟩ := r
        by_cases hres : res' = res
        · simp [sequential, hst, hperform, hres, eq_comm]
        · simp [sequential, hst, hperform, hres]
    · simp [sequential, hst, hop]

theorem performAll_of_accept
    (h : (sequential perform).accept (T, st) tr = some (T', st')) :
    performAll perform T (doneCalls tr) = some T' := by
  induction tr generalizing T st with
  | nil =>
    obtain ⟨rfl, rfl⟩ : T = T' ∧ st = st' := by simpa using h
    rfl
  | cons e es ih =>
    obtain ⟨⟨T₁, st₁⟩, hnext, hrest⟩ := Observer.accept_cons_iff.mp h
    cases e with
    | call t op =>
      have hT : T = T₁ := by
        cases hst : st t <;> simp [sequential, hst] at hnext
        exact hnext.1
      exact hT ▸ ih hrest
    | done t op res =>
      obtain ⟨-, hperform, -⟩ := sequential_done_iff.mp hnext
      simpa [performAll, doneCalls, hperform] using ih hrest
    | ret t res =>
      have hT : T = T₁ := by
        cases hst : st t <;> simp [sequential, hst] at hnext
        exact hnext.2.1
      exact hT ▸ ih hrest

/-- A call returns what the object answers after all the calls that took effect before. -/
theorem result_of_accept {t : Nat} {op : ι} {res : ρ}
    (h : (sequential perform).accept (T, st) (tr ++ .done t op res :: tr') = some (T', st')) :
    ∃ T₁ T₂, performAll perform T (doneCalls tr) = some T₁ ∧
      perform T₁ op = some (T₂, res) := by
  obtain ⟨⟨T₁, st₁⟩, ⟨T₂, st₂⟩, hbefore, hnext⟩ := Observer.accept_split h
  exact ⟨T₁, T₂, performAll_of_accept hbefore, (sequential_done_iff.mp hnext).2.1⟩

end Sequential

/-- Run alone, a section does to its cell what `perform` does to the object that the cells are
a view of. `inv op v₀ m v` holds at the place `m` of a section of `op` that found `v₀` in its
cell and has made it `v`. -/
structure Meets (B : Body κ ν ι μ χ ρ) (perform : τ → ι → Option (τ × ρ)) (view : τ → κ → ν)
    [DecidableEq κ] (good : ν → Prop) (inv : ι → ν → μ → ν → Prop) : Prop where
  enter : ∀ {op v}, good v → inv op v (B.enter op) v
  access : ∀ {op v₀ m v c m' v'}, inv op v₀ m v → B.access m v c = some (m', v') →
    inv op v₀ m' v'
  finish : ∀ {op k T m v res}, B.lock op = some k → good (view T k) → inv op (view T k) m v →
    B.result m = some res → good v ∧
      ∃ T', perform T op = some (T', res) ∧ view T' = Function.update (view T) k v

/-- What the atomic object knows of a thread. -/
def Phase.status : Phase ι μ ρ → Status ι ρ
  | .idle => .idle
  | .waiting op => .called op
  | .inside op _ => .called op
  | .leaving res => .finished res

/-- Where no section is at work the cell is what the atomic object has; a section at work is
the only one of its cell and has come this far from there. -/
structure Simulates (B : Body κ ν ι μ χ ρ) (view : τ → κ → ν) (good : ν → Prop)
    (inv : ι → ν → μ → ν → Prop) (T : τ) (st : Nat → Status ι ρ) (s : State κ ν ι μ ρ) :
    Prop where
  status : ∀ t, st t = (s.phase t).status
  good : ∀ k, good (view T k)
  free : ∀ k, s.holder k = none → s.cell k = view T k
  held : ∀ k t, s.holder k = some t → ∃ op m, s.phase t = .inside op m ∧ B.lock op = some k
  inside : ∀ t op m, s.phase t = .inside op m →
    ∃ k, B.lock op = some k ∧ s.holder k = some t ∧ inv op (view T k) m (s.cell k)

section Simulation
variable {B : Body κ ν ι μ χ ρ} {view : τ → κ → ν}
variable {good : ν → Prop} {inv : ι → ν → μ → ν → Prop}
variable {s s' : State κ ν ι μ ρ} {a : Action ι χ} {es : List (Event ι ρ)}
variable {T T' : τ} {st : Nat → Status ι ρ} {t : Nat} {p : Phase ι μ ρ}
variable {op : ι} {m m' : μ} {k : κ} {v : ν} {res : ρ}

@[simp] theorem State.at_phase_self : (s.at t p).phase t = p := Function.update_self ..

theorem State.at_phase_of_ne {t' : Nat} (h : t' ≠ t) : (s.at t p).phase t' = s.phase t' :=
  Function.update_of_ne h ..

theorem Simulates.start {cell : κ → ν} (hgood : ∀ k, good (cell k)) (hview : view T = cell) :
    Simulates B view good inv T (fun _ => .idle) (State.start cell : State κ ν ι μ ρ) where
  status t := rfl
  good k := hview ▸ hgood k
  free k _ := by rw [hview]; rfl
  held k t h := by simp [State.start] at h
  inside t op m h := by simp [State.start] at h

namespace Simulates
variable (h : Simulates B view good inv T st s)
include h

theorem inside_of_lock (hphase : s.phase t = .inside op m) (hlock : B.lock op = some k) :
    s.holder k = some t ∧ inv op (view T k) m (s.cell k) := by
  obtain ⟨k', hlock', hinside⟩ := h.inside t op m hphase
  obtain rfl : k = k' := Option.some.inj (hlock.symm.trans hlock')
  exact hinside

theorem status_at (p : Phase ι μ ρ) (t' : Nat) :
    Function.update st t p.status t' = ((s.at t p).phase t').status := by
  rcases eq_or_ne t' t with rfl | hne
  · simp
  · rw [State.at_phase_of_ne hne, Function.update_of_ne hne, h.status]

/-- A thread outside its section goes on outside. -/
theorem outside (hnow : ∀ op m, s.phase t ≠ .inside op m) (hthen : ∀ op m, p ≠ .inside op m) :
    Simulates B view good inv T (Function.update st t p.status) (s.at t p) where
  status := h.status_at p
  good := h.good
  free := h.free
  held k t' hk := by
    obtain ⟨op, m, hphase, hlock⟩ := h.held k t' hk
    have hne : t' ≠ t := fun heq => hnow op m (heq ▸ hphase)
    exact ⟨op, m, by rwa [State.at_phase_of_ne hne], hlock⟩
  inside t' op m hphase := by
    have hne : t' ≠ t := by
      rintro rfl
      exact hthen op m (by simpa using hphase)
    exact h.inside t' op m (by rwa [State.at_phase_of_ne hne] at hphase)

section Cells
variable [DecidableEq κ]

theorem acquire (hphase : s.phase t = .waiting op) (hlock : B.lock op = some k)
    (hfree : s.holder k = none) (hinv : inv op (view T k) m (view T k)) :
    Simulates B view good inv T st
      { s.at t (.inside op m) with holder := Function.update s.holder k (some t) } where
  status t' := by
    have hst := h.status_at (t := t) (.inside op m) t'
    have hsame : st t = .called op := by rw [h.status, hphase]; rfl
    simpa only [Phase.status, ← hsame, Function.update_eq_self] using hst
  good := h.good
  free k' hk' := by
    rcases eq_or_ne k' k with rfl | hne
    · simp at hk'
    · exact h.free k' (by simpa [hne] using hk')
  held k' t' hk' := by
    rcases eq_or_ne k' k with rfl | hne
    · obtain rfl : t = t' := by simpa using hk'
      exact ⟨op, m, State.at_phase_self, hlock⟩
    · obtain ⟨op', m', hphase', hlock'⟩ := h.held k' t' (by simpa [hne] using hk')
      have hne' : t' ≠ t := by
        rintro rfl
        rw [hphase] at hphase'
        cases hphase'
      exact ⟨op', m', (State.at_phase_of_ne hne').trans hphase', hlock'⟩
  inside t' op' m' hphase' := by
    rcases eq_or_ne t' t with rfl | hne
    · obtain ⟨rfl, rfl⟩ : op = op' ∧ m = m' := by simpa using hphase'
      refine ⟨k, hlock, by simp, ?_⟩
      have hcell : s.cell k = view T k := h.free k hfree
      simpa [State.at, hcell] using hinv
    · have hphase' : s.phase t' = .inside op' m' := by
        simpa [State.at_phase_of_ne hne] using hphase'
      obtain ⟨k', hlock', hheld, hinv'⟩ := h.inside t' op' m' hphase'
      have hne' : k' ≠ k := by
        rintro rfl
        rw [hfree] at hheld
        cases hheld
      exact ⟨k', hlock', by simpa [hne'] using hheld, hinv'⟩

theorem access (hphase : s.phase t = .inside op m) (hlock : B.lock op = some k)
    (hinv : inv op (view T k) m' v) :
    Simulates B view good inv T st
      { s.at t (.inside op m') with cell := Function.update s.cell k v } where
  status t' := by
    have hst := h.status_at (t := t) (.inside op m') t'
    have hsame : st t = .called op := by rw [h.status, hphase]; rfl
    simpa only [Phase.status, ← hsame, Function.update_eq_self] using hst
  good := h.good
  free k' hk' := by
    have hheld := (h.inside_of_lock hphase hlock).1
    have hne : k' ≠ k := by
      rintro rfl
      exact absurd (hheld.symm.trans hk') (by simp)
    simpa [hne] using h.free k' hk'
  held k' t' hk' := by
    obtain ⟨op', m'', hphase', hlock'⟩ := h.held k' t' hk'
    rcases eq_or_ne t' t with rfl | hne
    · obtain ⟨rfl, rfl⟩ : op = op' ∧ m = m'' := by simpa [hphase] using hphase'
      exact ⟨op, m', State.at_phase_self, hlock'⟩
    · exact ⟨op', m'', (State.at_phase_of_ne hne).trans hphase', hlock'⟩
  inside t' op' m'' hphase' := by
    have hheld := (h.inside_of_lock hphase hlock).1
    rcases eq_or_ne t' t with rfl | hne
    · obtain ⟨rfl, rfl⟩ : op = op' ∧ m' = m'' := by simpa using hphase'
      exact ⟨k, hlock, hheld, by simpa using hinv⟩
    · have hphase' : s.phase t' = .inside op' m'' := by
        simpa [State.at_phase_of_ne hne] using hphase'
      obtain ⟨k', hlock', hheld', hinv'⟩ := h.inside t' op' m'' hphase'
      -- two sections in one cell would both hold its lock
      have hne' : k' ≠ k := by
        rintro rfl
        exact hne (Option.some.inj (hheld'.symm.trans hheld))
      exact ⟨k', hlock', hheld', by simpa [hne'] using hinv'⟩

theorem release (hphase : s.phase t = .inside op m) (hlock : B.lock op = some k)
    (hgood : good (s.cell k)) (hview : view T' = Function.update (view T) k (s.cell k)) :
    Simulates B view good inv T' (Function.update st t (.finished res))
      { s.at t (.leaving res) with holder := Function.update s.holder k none } where
  status := h.status_at (.leaving res)
  good k' := by
    rcases eq_or_ne k' k with rfl | hne
    · simpa [hview] using hgood
    · simpa [hview, hne] using h.good k'
  free k' hk' := by
    rcases eq_or_ne k' k with rfl | hne
    · simp [hview, State.at]
    · simpa [hview, hne, State.at] using h.free k' (by simpa [hne] using hk')
  held k' t' hk' := by
    have hne : k' ≠ k := by
      rintro rfl
      simp at hk'
    obtain ⟨op', m', hphase', hlock'⟩ := h.held k' t' (by simpa [hne] using hk')
    have hne' : t' ≠ t := by
      rintro rfl
      obtain ⟨rfl, rfl⟩ : op = op' ∧ m = m' := by simpa [hphase] using hphase'
      exact hne (Option.some.inj (hlock'.symm.trans hlock))
    exact ⟨op', m', (State.at_phase_of_ne hne').trans hphase', hlock'⟩
  inside t' op' m' hphase' := by
    have hheld := (h.inside_of_lock hphase hlock).1
    have hne : t' ≠ t := by
      rintro rfl
      simp at hphase'
    have hphase' : s.phase t' = .inside op' m' := by
      simpa [State.at_phase_of_ne hne] using hphase'
    obtain ⟨k', hlock', hheld', hinv'⟩ := h.inside t' op' m' hphase'
    have hne' : k' ≠ k := by
      rintro rfl
      exact hne (Option.some.inj (hheld'.symm.trans hheld))
    exact ⟨k', hlock', by simpa [hne'] using hheld', by simpa [hview, hne', State.at] using hinv'⟩

end Cells

end Simulates

end Simulation

section Runs
variable [DecidableEq κ] [DecidableEq ι] [DecidableEq ρ]
variable {B : Body κ ν ι μ χ ρ} {perform : τ → ι → Option (τ × ρ)} {view : τ → κ → ν}
variable {good : ν → Prop} {inv : ι → ν → μ → ν → Prop}
variable {ok : State κ ν ι μ ρ → Action ι χ → Prop}
variable {s s' : State κ ν ι μ ρ} {a : Action ι χ} {tr es : List (Event ι ρ)}
variable {T : τ} {st : Nat → Status ι ρ}

theorem Simulates.step (hB : Meets B perform view good inv) (h : Simulates B view good inv T st s)
    (hstep : B.step s a = some (s', es)) :
    ∃ T' st', (sequential perform).accept (T, st) es = some (T', st') ∧
      Simulates B view good inv T' st' s' := by
  cases Body.step_iff.mp hstep with
  | @call t op hphase =>
    refine ⟨T, Function.update st t (.called op), ?_, h.outside (p := .waiting op) ?_ ?_⟩
    · simp [sequential, h.status, hphase, Phase.status]
    · simp [hphase]
    · simp
  | @acquire t op k hphase hlock hfree =>
    exact ⟨T, st, rfl, h.acquire hphase hlock hfree (hB.enter (h.good k))⟩
  | @access t op k m m' c v hphase hlock haccess =>
    obtain ⟨-, hinv⟩ := h.inside_of_lock hphase hlock
    exact ⟨T, st, rfl, h.access hphase hlock (hB.access hinv haccess)⟩
  | @release t op k m res hphase hlock hres =>
    obtain ⟨-, hinv⟩ := h.inside_of_lock hphase hlock
    obtain ⟨hgood, T', hperform, hview⟩ := hB.finish hlock (h.good k) hinv hres
    refine ⟨T', Function.update st t (.finished res), ?_, h.release hphase hlock hgood hview⟩
    simp [sequential, h.status, hphase, Phase.status, hperform]
  | @ret t res hphase =>
    refine ⟨T, Function.update st t .idle, ?_, h.outside (p := .idle) ?_ ?_⟩
    · simp [sequential, h.status, hphase, Phase.status]
    · simp [hphase]
    · simp

/-- Sections that meet their operation when run alone make the operations atomic. -/
theorem linearizable (hB : Meets B perform view good inv) {cell : κ → ν}
    (hgood : ∀ k, good (cell k)) (hview : view T = cell)
    (hrun : Runs B.machine ok (State.start cell) tr s) :
    ∃ T' st', (sequential perform).accept (T, fun _ => .idle) tr = some (T', st') ∧
      Simulates B view good inv T' st' s := by
  have hsim : ∃ b, (sequential perform).accept (T, fun _ => .idle) tr = some b ∧
      Simulates B view good inv b.1 b.2 s := by
    apply hrun.simulates (R := fun (b : τ × (Nat → Status ι ρ)) s =>
      Simulates B view good inv b.1 b.2 s)
    · exact Simulates.start hgood hview
    · rintro ⟨T, st⟩ s a s' es hsim _ hstep
      obtain ⟨T', st', haccept, hsim'⟩ := hsim.step hB hstep
      exact ⟨(T', st'), haccept, hsim'⟩
  obtain ⟨⟨T', st'⟩, haccept, hsim⟩ := hsim
  exact ⟨T', st', haccept, hsim⟩

end Runs

/-! ## Progress -/

/-- A section of a call that `P` admits can go on until it has come to its end, and each access
brings the end nearer. -/
structure Ends (B : Body κ ν ι μ χ ρ) (P : ι → Prop) (inv : ι → ν → μ → ν → Prop)
    (cost : μ → Nat) : Prop where
  locks : ∀ {op}, P op → ∃ k, B.lock op = some k
  goes : ∀ {op v₀ m v}, P op → inv op v₀ m v → B.result m = none → ∃ c r, B.access m v c = some r
  nearer : ∀ {m v c m' v'}, B.access m v c = some (m', v') → cost m' < cost m

/-- `n` threads make the calls, and only such as `P` admits. -/
def Action.Within (n : Nat) (P : ι → Prop) : Action ι χ → Prop
  | .call t op => t < n ∧ P op
  | _ => True

instance (n : Nat) (P : ι → Prop) [DecidablePred P] (a : Action ι χ) : Decidable (a.Within n P) :=
  match a with
  | .call t op => inferInstanceAs (Decidable (t < n ∧ P op))
  | .acquire _ => inferInstanceAs (Decidable True)
  | .access _ _ => inferInstanceAs (Decidable True)
  | .release _ => inferInstanceAs (Decidable True)
  | .ret _ => inferInstanceAs (Decidable True)

structure State.Within (n : Nat) (P : ι → Prop) (s : State κ ν ι μ ρ) : Prop where
  busy : ∀ t, s.phase t ≠ .idle → t < n
  waiting : ∀ t op, s.phase t = .waiting op → P op
  inside : ∀ t op m, s.phase t = .inside op m → P op

/-- What a thread still has to do before its call has returned. -/
@[simp] def Phase.remaining (B : Body κ ν ι μ χ ρ) (cost : μ → Nat) : Phase ι μ ρ → Nat
  | .idle => 0
  | .waiting op => cost (B.enter op) + 3
  | .inside _ m => cost m + 2
  | .leaving _ => 1

def State.remaining (B : Body κ ν ι μ χ ρ) (cost : μ → Nat) (n : Nat)
    (s : State κ ν ι μ ρ) : Nat :=
  total n (fun _ p => p.remaining B cost) s.phase

section Progress
variable {B : Body κ ν ι μ χ ρ} {P : ι → Prop} {inv : ι → ν → μ → ν → Prop} {cost : μ → Nat}
variable {good : ν → Prop} {view : τ → κ → ν}
variable {s s' : State κ ν ι μ ρ} {a : Action ι χ} {tr es : List (Event ι ρ)}
variable {T : τ} {st : Nat → Status ι ρ} {n t : Nat}

theorem State.Within.at {p : Phase ι μ ρ} (h : s.Within n P) (ht : t < n)
    (hwaiting : ∀ op, p = .waiting op → P op) (hinside : ∀ op m, p = .inside op m → P op) :
    (s.at t p).Within n P where
  busy t' hbusy := by
    rcases eq_or_ne t' t with rfl | hne
    · exact ht
    · exact h.busy t' (by rwa [State.at_phase_of_ne hne] at hbusy)
  waiting t' op hphase := by
    rcases eq_or_ne t' t with rfl | hne
    · exact hwaiting op (by simpa using hphase)
    · exact h.waiting t' op (by rwa [State.at_phase_of_ne hne] at hphase)
  inside t' op m hphase := by
    rcases eq_or_ne t' t with rfl | hne
    · exact hinside op m (by simpa using hphase)
    · exact h.inside t' op m (by rwa [State.at_phase_of_ne hne] at hphase)

theorem State.Within.congr (h : s.Within n P) (hphase : s'.phase = s.phase) : s'.Within n P :=
  ⟨by rw [hphase]; exact h.busy, by rw [hphase]; exact h.waiting, by rw [hphase]; exact h.inside⟩

theorem remaining_at {p : Phase ι μ ρ} (ht : t < n)
    (h : p.remaining B cost < (s.phase t).remaining B cost) :
    total n (fun _ p => p.remaining B cost) (Function.update s.phase t p) <
      s.remaining B cost n := by
  have hsum := total_update (fun _ p => p.remaining B cost) s.phase p ht
  unfold State.remaining
  omega

theorem Action.within_of_isCall (h : a.isCall = false) : a.Within n P := by
  cases a with
  | call t op => cases h
  | _ => trivial

variable [DecidableEq κ]

theorem State.Within.step (h : s.Within n P) (ha : a.Within n P)
    (hstep : B.step s a = some (s', es)) : s'.Within n P := by
  cases Body.step_iff.mp hstep with
  | call op hphase => exact h.at ha.1 (by rintro _ ⟨⟩; exact ha.2) (by simp)
  | @acquire t op k hphase hlock hfree =>
    have hat := h.at (p := .inside op (B.enter op)) (h.busy t (by simp [hphase])) (by simp)
      (by rintro _ _ ⟨⟩; exact h.waiting t op hphase)
    exact hat.congr rfl
  | @access t op k m m' c v hphase hlock haccess =>
    have hat := h.at (p := .inside op m') (h.busy t (by simp [hphase])) (by simp)
      (by rintro _ _ ⟨⟩; exact h.inside t op m hphase)
    exact hat.congr rfl
  | @release t op k m res hphase hlock hres =>
    have hat := h.at (p := .leaving res) (h.busy t (by simp [hphase])) (by simp) (by simp)
    exact hat.congr rfl
  | @ret t res hphase => exact h.at (h.busy t (by simp [hphase])) (by simp) (by simp)

theorem within_of_runs {ok : State κ ν ι μ ρ → Action ι χ → Prop} {cell : κ → ν}
    (hok : ∀ s a, ok s a → a.Within n P) (hrun : Runs B.machine ok (State.start cell) tr s) :
    s.Within n P := by
  apply hrun.invariant (I := fun _ s => s.Within n P)
  · exact ⟨by simp [State.start], by simp [State.start], by simp [State.start]⟩
  · intro tr es s s' a hs ha hstep
    exact hs.step (hok s a ha) hstep

theorem remaining_step (hends : Ends B P inv cost) (h : s.Within n P) (hcall : a.isCall = false)
    (hstep : B.step s a = some (s', es)) : s'.remaining B cost n < s.remaining B cost n := by
  cases Body.step_iff.mp hstep with
  | call op hphase => simp [Action.isCall] at hcall
  | @acquire t _ _ hphase hlock hfree =>
    apply remaining_at (h.busy t (by simp [hphase]))
    simp [hphase]
  | @access t _ _ _ _ _ _ hphase hlock haccess =>
    have hlt := hends.nearer haccess
    apply remaining_at (h.busy t (by simp [hphase]))
    simpa [hphase] using hlt
  | @release t _ _ _ _ hphase hlock hres =>
    apply remaining_at (h.busy t (by simp [hphase]))
    simp [hphase]
  | @ret t _ hphase =>
    apply remaining_at (h.busy t (by simp [hphase]))
    simp [hphase]

/-- Without new calls there are at most so many steps left, whatever the scheduler does. -/
theorem exec_length_le [DecidableEq ι] {as : List (Action ι χ)}
    {r : State κ ν ι μ ρ × List (Event ι ρ)} (hends : Ends B P inv cost) (h : s.Within n P)
    (hexec : B.machine.exec (fun _ a => a.isCall = false) s as = some r) :
    as.length ≤ s.remaining B cost n := by
  refine Machine.exec_length_le (fun s => s.remaining B cost n) (I := fun s => s.Within n P)
    (fun hw hcall hstep => ?_) h hexec
  exact ⟨hw.step (Action.within_of_isCall hcall) hstep, remaining_step hends hw hcall hstep⟩

/-- There is no deadlock: a thread that waits, waits for one that can take a step. -/
theorem exists_step (hends : Ends B P inv cost) (h : Simulates B view good inv T st s)
    (hw : s.Within n P) (hbusy : s.phase t ≠ .idle) :
    ∃ (a : Action ι χ) (r : State κ ν ι μ ρ × List (Event ι ρ)),
      a.isCall = false ∧ B.step s a = some r := by
  have hsection : ∀ t op m, s.phase t = .inside op m →
      ∃ (a : Action ι χ) (r : State κ ν ι μ ρ × List (Event ι ρ)),
        a.isCall = false ∧ B.step s a = some r := by
    intro t op m hphase
    obtain ⟨k, hlock, -, hinv⟩ := h.inside t op m hphase
    cases hres : B.result m with
    | some res => exact ⟨.release t, _, rfl, Body.step_iff.mpr (.release hphase hlock hres)⟩
    | none =>
      obtain ⟨c, ⟨m', v⟩, haccess⟩ := hends.goes (hw.inside t op m hphase) hinv hres
      exact ⟨.access t c, _, rfl, Body.step_iff.mpr (.access hphase hlock haccess)⟩
  cases hphase : s.phase t with
  | idle => exact absurd hphase hbusy
  | waiting op =>
    obtain ⟨k, hlock⟩ := hends.locks (hw.waiting t op hphase)
    cases hheld : s.holder k with
    | none => exact ⟨.acquire t, _, rfl, Body.step_iff.mpr (.acquire hphase hlock hheld)⟩
    | some t' =>
      obtain ⟨op', m', hphase', -⟩ := h.held k t' hheld
      exact hsection t' op' m' hphase'
  | inside op m => exact hsection t op m hphase
  | leaving res => exact ⟨.ret t, _, rfl, Body.step_iff.mpr (.ret hphase)⟩

end Progress

end ThletEvaluation.Locked
