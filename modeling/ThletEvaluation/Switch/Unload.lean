import ThletEvaluation.Switch.Recording

/-!
# The benchmark comes to its end

The loops of the threads are bounded, and nobody waits for somebody who waits: the threads wait
for the loader once, before they measure, and the exit waits for the threads. Both wait in busy
loops, so a scheduler is needed that lets everybody run again and again.
-/

namespace ThletEvaluation.Switch

open Run Threads

set_option autoImplicit false

variable {cfg : Config} {random : Nat → Nat → UInt64} {s s' : Bench} {t : Nat} {act : BenchAct}
variable {tr es : List BenchEvent}

/-- More than a round takes. -/
def ROUND : Nat := 2 ^ 64 + 6

/-- A bound for the steps to the reading of `end_cycle`. -/
def Measure.left (r : Rounds) : Measure → Nat
  | .idle => r.iters * ROUND + 2
  | .looping f => (r.iters - f.i) * ROUND + 1
  | .spinning f _ =>
    (r.iters - f.i - 1) * ROUND + ((r.iter f.i).toNat + 2 - f.cnt.toNat) + 4
  | .spun f _ => (r.iters - f.i - 1) * ROUND + 3
  | .yielding f => (r.iters - f.i - 1) * ROUND + 2
  | .measured _ _ => 0

/-- A bound for the steps of a thread outside of its loop, and whether the loop is before it. -/
def ThreadPlace.left (loop : Nat) : ThreadPlace → Nat
  | .absent => 13 + loop
  | .waiting => 12 + loop
  | .enabling => 11 + loop
  | .measuring => 10 + loop
  | .counting _ _ => 9
  | .storing _ todo => 4 + todo.length
  | .checking => 3
  | .disabling => 2
  | .returned => 0

def LoaderPlace.left (n : Nat) : LoaderPlace → Nat
  | .clearing => n * 6 + n + 8
  | .creating i => n * 6 + (n - i) + 7
  | .releasing => n * 6 + 6
  | .loaded => n * 6 + 5
  | .waiting i _ => (n - i) * 6 + 4
  | .reading i _ _ todo => (n - i - 1) * 6 + 5 + todo.length
  | .reporting _ => 3
  | .disabling => 2
  | .zeroing => 1
  | .unloaded | .divideError => 0

def Bench.threadLeft (cfg : Config) (random : Nat → Nat → UInt64) (s : Bench) (t : Nat) : Nat :=
  (s.thread t).left ((s.measuring.thread t).left (benchRounds cfg random t))

def Bench.left (cfg : Config) (random : Nat → Nat → UInt64) (s : Bench) : Nat :=
  ∑ t ∈ Finset.range cfg.threads, s.threadLeft cfg random t + s.loader.left cfg.threads

/-- The loader has released the threads. -/
def LoaderPlace.released : LoaderPlace → Bool
  | .clearing | .creating _ | .releasing => false
  | _ => true

/-- The report has been printed, or could not be because `cost` is zero. -/
def CostOk (cfg : Config) (s : Bench) : Prop :=
  match s.loader with
  | .disabling | .zeroing | .unloaded => (thletSwitchExit (s.records cfg.threads)).cost ≠ 0
  | .divideError => (thletSwitchExit (s.records cfg.threads)).cost = 0
  | _ => True

theorem CostOk.congr (h : CostOk cfg s) (hloader : s'.loader = s.loader)
    (hok : LoaderOk cfg s) (hsettled : Settled s s') : CostOk cfg s' := by
  unfold CostOk at h ⊢
  unfold LoaderOk at hok
  rw [hloader]
  cases hp : s.loader with
  | disabling | zeroing | unloaded | divideError =>
    rw [hp] at h hok
    rw [hsettled.records hok]
    exact h
  | _ => trivial

/-- All threads are gone, and the module is unloaded, unless it could not divide by `cost`. -/
def Bench.Over (cfg : Config) (s : Bench) : Prop :=
  (∀ t < cfg.threads, s.thread t = .returned) ∧
    s.loader = if (thletSwitchExit (s.records cfg.threads)).cost = 0 then .divideError
      else .unloaded

theorem Bench.Over.ended (h : s.Over cfg) : s.loader = .unloaded ∨ s.loader = .divideError := by
  rw [h.2]
  split
  · exact .inr rfl
  · exact .inl rfl

/-- An action of the loader or of one of the threads. -/
def BenchAct.Own (n : Nat) : BenchAct → Prop
  | .thread t => t < n
  | .loader => True
  | .tick _ | .kernel _ => False

end ThletEvaluation.Switch
