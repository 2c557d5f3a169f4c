import Mathlib.Algebra.Ring.Nat
import ThletEvaluation.Lib.Run
import ThletEvaluation.Lib.Threads
import ThletEvaluation.Switch.Cost

/-!
# What a thread of the switch benchmark measures

The kernel module and the user program run the same loop in every thread: it spins for a while,
reads the cycle counter before and after, and gives up the core. The threads of one run are on
one core, and the scheduler can take it from a thread between any two of its steps.
-/

namespace ThletEvaluation.Switch

open Run Threads Loop

set_option autoImplicit false

/-- The macros of one of the two programs. -/
structure Config where
  /-- `THLET_SWITCH_THREADS` -/
  threads : Nat
  /-- `THLET_SWITCH_ITER` -/
  iters : Nat
  /-- `THLET_LOOPS` -/
  loops : UInt64
  threads_pos : 0 < threads
  threads_lt : threads < 2 ^ 64
  iters_pos : 0 < iters
  loops_pos : 0 < loops.toNat
  small : iters * (2 * loops.toNat) + 2 < 2 ^ 64

/-- `get_possion` of the module and `get_poisson` of the program, for their `THLET_LOOPS`. -/
def getPossion (loops u : UInt64) : UInt64 := u % loops + loops

/-- `iter_cnt` of a thread that gets these random numbers. -/
def iterCnt (loops : UInt64) (random : Nat → UInt64) : Nat → UInt64
  | 0 => getPossion loops (random 0)
  | i + 1 => iterCnt loops random i + getPossion loops (random (i + 1))

/-- The rounds of a thread, and the values of `cnt` up to which they spin. -/
structure Rounds where
  iters : Nat
  iter : Nat → UInt64

def Config.rounds (cfg : Config) (random : Nat → UInt64) : Rounds :=
  ⟨cfg.iters, iterCnt cfg.loops random⟩

/-- The local variables of the loop. -/
structure Frame where
  startCycle : UInt64
  i : Nat
  cnt : UInt64
  pure : UInt64
  deriving DecidableEq

inductive Measure where
  | idle
  | looping (f : Frame)
  | spinning (f : Frame) (pureStart : UInt64)
  | spun (f : Frame) (pureStart : UInt64)
  | yielding (f : Frame)
  | measured (f : Frame) (endCycle : UInt64)
  deriving DecidableEq

/-- One step of `thlet_switch_fn` from the reading of `start_cycle` to that of `end_cycle`, when
`rdtsc` returns `now`. -/
def Measure.step (r : Rounds) (now : UInt64) : Measure → Option Measure
  | .idle => some (.looping ⟨now, 0, 0, 0⟩)
  | .looping f =>
    if f.i < r.iters then some (.spinning f now) else some (.measured f now)
  | .spinning f pureStart =>
    if f.cnt ≤ r.iter f.i then some (.spinning { f with cnt := f.cnt + 1 } pureStart)
    else some (.spun { f with cnt := f.cnt + 1 } pureStart)
  | .spun f pureStart => some (.yielding { f with pure := f.pure + (now - pureStart) })
  | .yielding f => some (.looping { f with i := f.i + 1 })
  | .measured _ _ => none

structure Measuring where
  now : Nat
  thread : Nat → Measure

def Measuring.init (now : Nat) : Measuring := ⟨now, fun _ => .idle⟩

inductive MeasureAct where
  | tick (d : Nat)
  | thread (t : Nat)

/-- Thread `t` has executed the `nop` of its loop. -/
structure Nop where
  t : Nat
  deriving DecidableEq

def Measure.nops (t : Nat) : Measure → List Nop
  | .spinning _ _ => [⟨t⟩]
  | _ => []

def Measuring.step (n : Nat) (rounds : Nat → Rounds) (s : Measuring) :
    MeasureAct → Option (Measuring × List Nop)
  | .tick d => some ({ s with now := s.now + d }, [])
  | .thread t =>
    if t < n then
      ((s.thread t).step (rounds t) (UInt64.ofNat s.now)).map fun m =>
        ({ s with thread := Function.update s.thread t m }, (s.thread t).nops t)
    else none

def measureMachine (n : Nat) (rounds : Nat → Rounds) : Machine Measuring MeasureAct Nop :=
  ⟨Measuring.step n rounds⟩

/-- The cycle counter does not wrap around. -/
def NoWrap (s : Measuring) : MeasureAct → Prop
  | .tick d => s.now + d < 2 ^ 64
  | .thread _ => True

/-- Between its two readings of the counter. -/
def Measure.computing : Measure → Bool
  | .spinning _ _ | .spun _ _ => true
  | _ => false

/-- The core is not taken from a thread that is computing, nor does the counter wrap. -/
def Undisturbed (n : Nat) (s : Measuring) : MeasureAct → Prop
  | .tick d => s.now + d < 2 ^ 64
  | .thread t => ∀ u < n, u ≠ t → (s.thread u).computing = false

instance decidableNoWrap (s : Measuring) (act : MeasureAct) : Decidable (NoWrap s act) :=
  match act with
  | .tick d => inferInstanceAs (Decidable (s.now + d < 2 ^ 64))
  | .thread _ => .isTrue trivial

instance decidableUndisturbed (n : Nat) (s : Measuring) (act : MeasureAct) :
    Decidable (Undisturbed n s act) :=
  match act with
  | .tick d => inferInstanceAs (Decidable (s.now + d < 2 ^ 64))
  | .thread t => inferInstanceAs (Decidable (∀ u < n, u ≠ t → (s.thread u).computing = false))

variable {n t : Nat} {rounds : Nat → Rounds} {s s' : Measuring} {act : MeasureAct}
variable {tr es : List Nop}

/-- Everything a step can be. -/
theorem measuring_step_cases (h : s.step n rounds act = some (s', es)) :
    (∃ d, act = .tick d ∧ s' = { s with now := s.now + d } ∧ es = []) ∨
    ∃ t m, act = .thread t ∧ t < n ∧
      (s.thread t).step (rounds t) (UInt64.ofNat s.now) = some m ∧
      s' = { s with thread := Function.update s.thread t m } ∧ es = (s.thread t).nops t := by
  cases act with
  | tick d =>
    obtain ⟨rfl, rfl⟩ := by simpa [Measuring.step] using h
    exact .inl ⟨d, rfl, rfl, rfl⟩
  | thread t =>
    by_cases ht : t < n
    · simp only [Measuring.step, ht, if_true, Option.map_eq_some_iff,
        Prod.mk.injEq] at h
      obtain ⟨m, hm, rfl, rfl⟩ := h
      exact .inr ⟨t, m, rfl, ht, hm, rfl, rfl⟩
    · simp [Measuring.step, ht] at h

/-! ## The readings of one thread are in order -/

def Measure.Timed (now : Nat) : Measure → Prop
  | .idle => True
  | .looping f | .yielding f => f.startCycle.toNat + f.pure.toNat ≤ now
  | .spinning f p | .spun f p => f.startCycle.toNat + f.pure.toNat ≤ p.toNat ∧ p.toNat ≤ now
  | .measured f e => f.startCycle.toNat + f.pure.toNat ≤ e.toNat ∧ e.toNat ≤ now

theorem Measure.Timed.mono {m : Measure} {now now' : Nat} (h : m.Timed now) (hle : now ≤ now') :
    m.Timed now' := by
  cases m with
  | idle => trivial
  | looping f | yielding f => exact Nat.le_trans h hle
  | spinning f p | spun f p => exact ⟨h.1, Nat.le_trans h.2 hle⟩
  | measured f e => exact ⟨h.1, Nat.le_trans h.2 hle⟩

theorem toNat_now {now : Nat} (h : now < 2 ^ 64) : (UInt64.ofNat now).toNat = now :=
  UInt64.toNat_ofNat_of_lt' h

/-- What has been computed since `p`, added to what was computed before it. -/
theorem toNat_pure {pure p : UInt64} {now start : Nat} (hnow : now < 2 ^ 64)
    (hle : start + pure.toNat ≤ p.toNat) (hp : p.toNat ≤ now) :
    (pure + (UInt64.ofNat now - p)).toNat = pure.toNat + (now - p.toNat) := by
  have hsub : (UInt64.ofNat now - p).toNat = now - p.toNat := by
    rw [UInt64.toNat_sub_of_le _ _ (UInt64.le_iff_toNat_le.mpr (by rwa [toNat_now hnow])),
      toNat_now hnow]
  rw [UInt64.toNat_add, hsub, Nat.mod_eq_of_lt (by omega)]

theorem Measure.Timed.step {r : Rounds} {m m' : Measure} {now : Nat}
    (h : m.Timed now) (hnow : now < 2 ^ 64)
    (hstep : m.step r (UInt64.ofNat now) = some m') : m'.Timed now := by
  cases m with
  | idle =>
    obtain rfl := by simpa [Measure.step] using hstep
    simp [Measure.Timed, toNat_now hnow]
  | looping f =>
    by_cases hi : f.i < r.iters
    · obtain rfl := by simpa [Measure.step, hi] using hstep
      exact ⟨by rwa [toNat_now hnow], (toNat_now hnow).le⟩
    · obtain rfl := by simpa [Measure.step, hi] using hstep
      exact ⟨by rwa [toNat_now hnow], (toNat_now hnow).le⟩
  | spinning f p =>
    by_cases hc : f.cnt ≤ r.iter f.i
    · obtain rfl := by simpa [Measure.step, hc] using hstep
      exact h
    · obtain rfl := by simpa [Measure.step, hc] using hstep
      exact h
  | spun f p =>
    obtain rfl := by simpa [Measure.step] using hstep
    obtain ⟨hle, hp⟩ := h
    simp only [Measure.Timed, toNat_pure hnow hle hp]
    omega
  | yielding f =>
    obtain rfl := by simpa [Measure.step] using hstep
    exact h
  | measured f e => simp [Measure.step] at hstep

theorem timed_of_runs {now : Nat} (hnow : now < 2 ^ 64)
    (h : Runs (measureMachine n rounds) NoWrap (.init now) tr s) :
    s.now < 2 ^ 64 ∧ ∀ t, (s.thread t).Timed s.now := by
  refine h.invariant (I := fun _ s => s.now < 2 ^ 64 ∧ ∀ t, (s.thread t).Timed s.now)
    ⟨hnow, fun t => trivial⟩ ?_
  intro tr es s s' act ⟨hlt, htimed⟩ hok hstep
  rcases measuring_step_cases hstep with ⟨d, rfl, rfl, rfl⟩ | ⟨t, m, rfl, -, hm, rfl, rfl⟩
  · exact ⟨hok, fun t => (htimed t).mono (Nat.le_add_right _ _)⟩
  · refine ⟨hlt, fun u => ?_⟩
    by_cases hu : u = t
    · subst hu
      simpa using (htimed u).step hlt hm
    · simpa [hu] using htimed u

/-! ## A thread computes what it says -/

/-- The counts of a thread go up, and the loop does not overflow. -/
structure Rounds.Steps (r : Rounds) : Prop where
  lt : ∀ i, i + 1 < r.iters → (r.iter i).toNat < (r.iter (i + 1)).toNat
  small : ∀ i < r.iters, (r.iter i).toNat + 2 < 2 ^ 64

section Counts
variable (cfg : Config) (random : Nat → UInt64)

theorem Config.loops_le : 2 * cfg.loops.toNat + 2 < 2 ^ 64 := by
  have hmul := Nat.le_mul_of_pos_left (2 * cfg.loops.toNat) cfg.iters_pos
  have hsmall := cfg.small
  omega

theorem getPossion_bounds (u : UInt64) : cfg.loops.toNat ≤ (getPossion cfg.loops u).toNat ∧
    (getPossion cfg.loops u).toNat < 2 * cfg.loops.toNat := by
  have hmod : u.toNat % cfg.loops.toNat < cfg.loops.toNat := Nat.mod_lt _ cfg.loops_pos
  have hle := cfg.loops_le
  have hval : (getPossion cfg.loops u).toNat = u.toNat % cfg.loops.toNat + cfg.loops.toNat := by
    rw [getPossion, UInt64.toNat_add, UInt64.toNat_mod, Nat.mod_eq_of_lt (by omega)]
  omega

theorem iterCnt_le (i : Nat) :
    (iterCnt cfg.loops random i).toNat ≤ (i + 1) * (2 * cfg.loops.toNat) := by
  induction i with
  | zero =>
    obtain ⟨-, hlt⟩ := getPossion_bounds cfg (random 0)
    simp only [iterCnt]
    omega
  | succ i ih =>
    obtain ⟨-, hlt⟩ := getPossion_bounds cfg (random (i + 1))
    rw [iterCnt, UInt64.toNat_add]
    refine Nat.le_trans (Nat.mod_le _ _) ?_
    rw [Nat.add_mul (i + 1) 1, Nat.one_mul]
    omega

theorem iterCnt_small {i : Nat} (hi : i < cfg.iters) :
    (iterCnt cfg.loops random i).toNat ≤ cfg.iters * (2 * cfg.loops.toNat) :=
  Nat.le_trans (iterCnt_le cfg random i) (Nat.mul_le_mul_right _ hi)

theorem steps_rounds : (cfg.rounds random).Steps where
  lt i hi := by
    have hsum := Nat.mul_le_mul_right (2 * cfg.loops.toNat) hi
    have hle := iterCnt_le cfg random i
    obtain ⟨hge, hlt⟩ := getPossion_bounds cfg (random (i + 1))
    have hpos := cfg.loops_pos
    have hsmall := cfg.small
    simp only [Config.rounds, Nat.succ_eq_add_one, Nat.add_mul, Nat.one_mul] at hsum hle
    simp only [Config.rounds, iterCnt]
    rw [UInt64.toNat_add, Nat.mod_eq_of_lt (by omega)]
    omega
  small i hi := by
    have hle := iterCnt_small cfg random hi
    have hsmall := cfg.small
    simp only [Config.rounds]
    omega

end Counts

def Measure.cnt : Measure → UInt64
  | .idle => 0
  | .looping f | .spinning f _ | .spun f _ | .yielding f | .measured f _ => f.cnt

/-- The count of `nop`s with which round `i` begins. -/
def Rounds.spent (r : Rounds) : Nat → Nat
  | 0 => 0
  | i + 1 => (r.iter i).toNat + 2

def Measure.Counted (r : Rounds) : Measure → Prop
  | .idle => True
  | .looping f => f.i ≤ r.iters ∧ f.cnt.toNat = r.spent f.i
  | .spinning f _ => f.i < r.iters ∧ f.cnt.toNat ≤ (r.iter f.i).toNat + 1
  | .spun f _ | .yielding f => f.i < r.iters ∧ f.cnt.toNat = (r.iter f.i).toNat + 2
  | .measured f _ => f.i = r.iters ∧ f.cnt.toNat = r.spent f.i

theorem Rounds.Steps.spent_le {r : Rounds} (h : r.Steps) {i : Nat} (hi : i < r.iters) :
    r.spent i ≤ (r.iter i).toNat + 1 := by
  cases i with
  | zero => exact Nat.zero_le _
  | succ i =>
    have hlt := h.lt i hi
    simp only [Rounds.spent]
    omega

theorem toNat_succ {c : UInt64} (h : c.toNat + 1 < 2 ^ 64) : (c + 1).toNat = c.toNat + 1 := by
  rw [UInt64.toNat_add, UInt64.toNat_one, Nat.mod_eq_of_lt h]

/-- Each `nop` counts. -/
theorem Measure.Counted.step {r : Rounds} {m m' : Measure} {now : UInt64}
    (h : m.Counted r) (hsteps : r.Steps) (hstep : m.step r now = some m') (t : Nat) :
    m'.Counted r ∧ m'.cnt.toNat = m.cnt.toNat + (m.nops t).length := by
  cases m with
  | idle =>
    obtain rfl := by simpa [Measure.step] using hstep
    exact ⟨⟨Nat.zero_le _, rfl⟩, rfl⟩
  | looping f =>
    obtain ⟨hi, hcnt⟩ := h
    by_cases hlt : f.i < r.iters
    · obtain rfl := by simpa [Measure.step, hlt] using hstep
      exact ⟨⟨hlt, hcnt ▸ hsteps.spent_le hlt⟩, rfl⟩
    · obtain rfl := by simpa [Measure.step, hlt] using hstep
      exact ⟨⟨by omega, hcnt⟩, rfl⟩
  | spinning f p =>
    obtain ⟨hi, hcnt⟩ := h
    have hsucc : (f.cnt + 1).toNat = f.cnt.toNat + 1 :=
      toNat_succ (by have hsmall := hsteps.small f.i hi; omega)
    by_cases hc : f.cnt ≤ r.iter f.i
    · obtain rfl := by simpa [Measure.step, hc] using hstep
      have hle := UInt64.le_iff_toNat_le.mp hc
      exact ⟨⟨hi, by simp only [hsucc]; omega⟩, by simp [Measure.cnt, Measure.nops, hsucc]⟩
    · obtain rfl := by simpa [Measure.step, hc] using hstep
      have hgt := mt UInt64.le_iff_toNat_le.mpr hc
      exact ⟨⟨hi, by simp only [hsucc]; omega⟩, by simp [Measure.cnt, Measure.nops, hsucc]⟩
  | spun f p =>
    obtain rfl := by simpa [Measure.step] using hstep
    exact ⟨h, rfl⟩
  | yielding f =>
    obtain rfl := by simpa [Measure.step] using hstep
    exact ⟨⟨h.1, h.2⟩, rfl⟩
  | measured f e => simp [Measure.step] at hstep

theorem count_nops (m : Measure) (t u : Nat) :
    (m.nops t).count ⟨u⟩ = if u = t then (m.nops t).length else 0 := by
  by_cases hu : u = t
  · subst hu
    cases m <;> simp [Measure.nops]
  · have hne : t ≠ u := fun h => hu h.symm
    cases m <;> simp [Measure.nops, hu, hne]

theorem counted_of_runs {ok : Measuring → MeasureAct → Prop} {now : Nat}
    (hsteps : ∀ t, (rounds t).Steps) (h : Runs (measureMachine n rounds) ok (.init now) tr s) :
    ∀ t, (s.thread t).Counted (rounds t) ∧ tr.count ⟨t⟩ = (s.thread t).cnt.toNat := by
  refine h.invariant
    (I := fun tr s => ∀ t, (s.thread t).Counted (rounds t) ∧ tr.count ⟨t⟩ = (s.thread t).cnt.toNat)
    (fun t => ⟨trivial, rfl⟩) ?_
  intro tr es s s' act ih _ hstep u
  rcases measuring_step_cases hstep with ⟨d, rfl, rfl, rfl⟩ | ⟨t, m, rfl, -, hm, rfl, rfl⟩
  · simpa using ih u
  · obtain ⟨hcounted, hcnt⟩ := ih u
    rw [List.count_append, count_nops, hcnt]
    by_cases hu : u = t
    · subst hu
      obtain ⟨hcounted', hcnt'⟩ := hcounted.step (hsteps u) hm u
      simpa [hcnt'] using hcounted'
    · simpa [hu] using hcounted

/-! ## Where the core is left to those who compute, all they compute fits into the interval -/

def Measure.pure : Measure → Nat
  | .idle => 0
  | .looping f | .spinning f _ | .spun f _ | .yielding f | .measured f _ => f.pure.toNat

def Measure.start : Measure → Option UInt64
  | .idle => none
  | .looping f | .spinning f _ | .spun f _ | .yielding f | .measured f _ => some f.startCycle

/-- Has read `start_cycle` and not `end_cycle`. -/
def Measure.running : Measure → Bool
  | .idle | .measured _ _ => false
  | _ => true

def Measure.computesFrom (p : UInt64) : Measure → Prop
  | .spinning _ q | .spun _ q => q = p
  | _ => False

def Measuring.pureSum (n : Nat) (s : Measuring) : Nat := total n (fun _ m => m.pure) s.thread

/-- All that was computed fits between any time `c` that no start precedes and the present; it
ended before a computation that is going on, and before the last end if all have ended. -/
structure Packed (n c : Nat) (s : Measuring) : Prop where
  now : c + s.pureSum n ≤ s.now
  computing : ∀ u p, (s.thread u).computesFrom p → c + s.pureSum n ≤ p.toNat
  ended : (∃ u, s.thread u ≠ .idle) → (∀ u, (s.thread u).running = false) →
    ∃ u f e, s.thread u = .measured f e ∧ c + s.pureSum n ≤ e.toNat

/-- No thread has started before `c`. -/
def Measuring.StartedAfter (c : Nat) (s : Measuring) : Prop :=
  c ≤ s.now ∧ ∀ u a, (s.thread u).start = some a → c ≤ a.toNat

theorem Measure.start_step {r : Rounds} {m m' : Measure} {now : UInt64}
    (h : m.step r now = some m') (hm : m ≠ .idle) : m'.start = m.start := by
  cases m with
  | idle => exact absurd rfl hm
  | looping f =>
    by_cases hi : f.i < r.iters
    · obtain rfl := by simpa [Measure.step, hi] using h
      rfl
    · obtain rfl := by simpa [Measure.step, hi] using h
      rfl
  | spinning f p =>
    by_cases hc : f.cnt ≤ r.iter f.i
    · obtain rfl := by simpa [Measure.step, hc] using h
      rfl
    · obtain rfl := by simpa [Measure.step, hc] using h
      rfl
  | spun f p | yielding f =>
    obtain rfl := by simpa [Measure.step] using h
    rfl
  | measured f e => simp [Measure.step] at h

theorem pureSum_update (ht : t < n) (m : Measure) :
    Measuring.pureSum n { s with thread := Function.update s.thread t m } + (s.thread t).pure =
      s.pureSum n + m.pure :=
  total_update (fun _ m => m.pure) s.thread m ht

theorem pureSum_of_idle (h : ∀ u, s.thread u = .idle) : s.pureSum n = 0 := by
  unfold Measuring.pureSum total
  exact Finset.sum_eq_zero fun u _ => by rw [h u]; rfl

theorem Measure.start_eq_none {m : Measure} : m.start = none ↔ m = .idle := by
  cases m <;> simp [Measure.start]

/-- Thread `t` is the only one that may be computing. -/
def Alone (t : Nat) (s : Measuring) : Prop := ∀ u p, u ≠ t → ¬ (s.thread u).computesFrom p

theorem not_computesFrom {m : Measure} (h : m.computing = false) (p : UInt64) :
    ¬ m.computesFrom p := by
  cases m <;> simp_all [Measure.computing, Measure.computesFrom]

/-- What a thread does to `Packed` when it starts nothing and adds nothing to what was
computed. -/
theorem Packed.keep {c : Nat} {m : Measure} (h : Packed n c s) (ht : t < n) (halone : Alone t s)
    (hpure : m.pure = (s.thread t).pure)
    (hcomputing : ∀ p, m.computesFrom p →
      p.toNat = s.now ∨ (s.thread t).computesFrom p)
    (hended : m.running = false → ∃ f e, m = .measured f e ∧ e.toNat = s.now) :
    Packed n c { s with thread := Function.update s.thread t m } := by
  have hsum : Measuring.pureSum n { s with thread := Function.update s.thread t m } =
      s.pureSum n := by
    have hupdate := pureSum_update (s := s) ht m
    omega
  refine ⟨?_, fun u p hp => ?_, fun _ hall => ?_⟩
  · rw [hsum]
    exact h.now
  · by_cases hu : u = t
    · subst hu
      rw [hsum]
      simp only [Function.update_self] at hp
      rcases hcomputing p hp with hp | hp
      · exact hp ▸ h.now
      · exact h.computing u p hp
    · simp only [Function.update_of_ne hu] at hp
      exact absurd hp (halone u p hu)
  · have hm : m.running = false := by simpa using hall t
    obtain ⟨f, e, rfl, he⟩ := hended hm
    exact ⟨t, f, e, by simp, by rw [hsum, he]; exact h.now⟩

theorem packed_idle {c : Nat} (h : ∀ u, s.thread u = .idle) (hc : c ≤ s.now) :
    Packed n c s where
  now := by rw [pureSum_of_idle h]; exact hc
  computing u p hp := by rw [h u] at hp; exact hp.elim
  ended := fun ⟨u, hu⟩ => absurd (h u) hu

theorem Packed.tick {c d : Nat} (h : Packed n c s) : Packed n c { s with now := s.now + d } where
  now := Nat.le_trans h.now (Nat.le_add_right _ _)
  computing := h.computing
  ended := h.ended

theorem Measure.Timed.start_le {m : Measure} {now : Nat} {a : UInt64} (h : m.Timed now)
    (ha : m.start = some a) : a.toNat ≤ now := by
  cases m <;> simp only [Measure.start, reduceCtorEq, Option.some.injEq] at ha <;>
    simp only [Measure.Timed] at h <;> subst ha <;> omega

theorem Packed.step {c : Nat} {m : Measure} (h : Packed n c s) (ht : t < n) (halone : Alone t s)
    (hnow : s.now < 2 ^ 64) (htimed : (s.thread t).Timed s.now)
    (hstep : (s.thread t).step (rounds t) (UInt64.ofNat s.now) = some m) :
    Packed n c { s with thread := Function.update s.thread t m } := by
  cases hm : s.thread t with
  | idle =>
    rw [hm] at hstep
    obtain rfl := by simpa [Measure.step] using hstep
    exact h.keep ht halone (by simp [hm, Measure.pure]) (fun p hp => hp.elim)
      (by simp [Measure.running])
  | looping f =>
    rw [hm] at hstep
    by_cases hi : f.i < (rounds t).iters
    · obtain rfl := by simpa [Measure.step, hi] using hstep
      refine h.keep ht halone (by simp [hm, Measure.pure]) (fun p hp => .inl ?_)
        (by simp [Measure.running])
      obtain rfl : UInt64.ofNat s.now = p := hp
      exact toNat_now hnow
    · obtain rfl := by simpa [Measure.step, hi] using hstep
      exact h.keep ht halone (by simp [hm, Measure.pure]) (fun p hp => hp.elim)
        fun _ => ⟨f, _, rfl, toNat_now hnow⟩
  | spinning f q =>
    rw [hm] at hstep
    by_cases hc : f.cnt ≤ (rounds t).iter f.i
    · obtain rfl := by simpa [Measure.step, hc] using hstep
      exact h.keep ht halone (by simp [hm, Measure.pure]) (fun p hp => .inr (hm ▸ hp))
        (by simp [Measure.running])
    · obtain rfl := by simpa [Measure.step, hc] using hstep
      exact h.keep ht halone (by simp [hm, Measure.pure]) (fun p hp => .inr (hm ▸ hp))
        (by simp [Measure.running])
  | spun f q =>
    rw [hm] at hstep htimed
    obtain rfl := by simpa [Measure.step] using hstep
    obtain ⟨hle, hq⟩ := htimed
    have hold : c + s.pureSum n ≤ q.toNat := h.computing t q (by rw [hm]; rfl)
    have hsum := pureSum_update (s := s) ht
      (.yielding { f with pure := f.pure + (UInt64.ofNat s.now - q) })
    simp only [hm, Measure.pure, toNat_pure hnow hle hq] at hsum
    refine ⟨?_, fun u p hp => ?_, fun _ hall => ?_⟩
    · simp only
      omega
    · by_cases hu : u = t
      · subst hu
        simp only [Function.update_self] at hp
        exact hp.elim
      · simp only [Function.update_of_ne hu] at hp
        exact absurd hp (halone u p hu)
    · simpa [Measure.running] using hall t
  | yielding f =>
    rw [hm] at hstep
    obtain rfl := by simpa [Measure.step] using hstep
    exact h.keep ht halone (by simp [hm, Measure.pure]) (fun p hp => hp.elim)
      (by simp [Measure.running])
  | measured f e =>
    rw [hm] at hstep
    simp [Measure.step] at hstep

/-- What is known of an undisturbed run. -/
structure PackedRun (n : Nat) (s : Measuring) : Prop where
  now : s.now < 2 ^ 64
  timed : ∀ t, (s.thread t).Timed s.now
  within : ∀ t, n ≤ t → s.thread t = .idle
  packed : ∀ c, s.StartedAfter c → Packed n c s

theorem packedRun_tick {d : Nat} (h : PackedRun n s) (hd : s.now + d < 2 ^ 64) :
    PackedRun n { s with now := s.now + d } where
  now := hd
  timed t := (h.timed t).mono (Nat.le_add_right _ _)
  within := h.within
  packed c := by
    rintro ⟨hc, hstart⟩
    by_cases hle : c ≤ s.now
    · exact (h.packed c ⟨hle, hstart⟩).tick
    · refine packed_idle (fun u => ?_) hc
      cases ha : (s.thread u).start with
      | none => exact Measure.start_eq_none.mp ha
      | some a =>
        have hca : c ≤ a.toNat := hstart u a ha
        have hnow := (h.timed u).start_le ha
        omega

theorem PackedRun.alone (h : PackedRun n s)
    (hothers : ∀ u < n, u ≠ t → (s.thread u).computing = false) : Alone t s := by
  intro u p hu
  by_cases hn : u < n
  · exact not_computesFrom (hothers u hn hu) p
  · rw [h.within u (by omega)]
    exact not_computesFrom rfl p

theorem packedRun_thread {m : Measure} (h : PackedRun n s) (ht : t < n)
    (hothers : ∀ u < n, u ≠ t → (s.thread u).computing = false)
    (hstep : (s.thread t).step (rounds t) (UInt64.ofNat s.now) = some m) :
    PackedRun n { s with thread := Function.update s.thread t m } where
  now := h.now
  timed u := by
    by_cases hu : u = t
    · subst hu
      simpa using (h.timed u).step h.now hstep
    · simpa [hu] using h.timed u
  within u hu := by
    have hne : u ≠ t := by omega
    simpa [hne] using h.within u hu
  packed c := by
    rintro ⟨hc, hstart⟩
    refine (h.packed c ⟨hc, fun u a ha => ?_⟩).step ht (h.alone hothers) h.now (h.timed t) hstep
    by_cases hu : u = t
    · subst hu
      have hne : s.thread u ≠ .idle := fun hidle => by simp [hidle, Measure.start] at ha
      apply hstart u a
      simpa [Measure.start_step hstep hne] using ha
    · exact hstart u a (by simpa [hu] using ha)

theorem packed_of_runs {now : Nat} (hnow : now < 2 ^ 64)
    (h : Runs (measureMachine n rounds) (Undisturbed n) (.init now) tr s) : PackedRun n s := by
  refine h.invariant (I := fun _ s => PackedRun n s) ?_ ?_
  · exact ⟨hnow, fun t => trivial, fun t _ => rfl, fun c hc => packed_idle (fun u => rfl) hc.1⟩
  · intro tr es s s' act ih hok hstep
    rcases measuring_step_cases hstep with ⟨d, rfl, rfl, rfl⟩ | ⟨t, m, rfl, ht, hm, rfl, rfl⟩
    · exact packedRun_tick ih hok
    · exact packedRun_thread ih ht hok hm

/-! ## What the threads commit -/

/-- The record of a thread that has read `end_cycle`. -/
def Measure.commit (r : Rounds) : Measure → Option ModuleStats
  | .measured f e => some ⟨f.startCycle, e, r.iter (r.iters - 1), f.pure⟩
  | _ => none

theorem commit_eq_some {r : Rounds} {m : Measure} {c : ModuleStats} (h : m.commit r = some c) :
    ∃ f e, m = .measured f e ∧ c = ⟨f.startCycle, e, r.iter (r.iters - 1), f.pure⟩ := by
  cases m with
  | measured f e => exact ⟨f, e, rfl, (Option.some.inj h).symm⟩
  | _ => simp [Measure.commit] at h

theorem commit_timed {r : Rounds} {m : Measure} {c : ModuleStats} {now : Nat}
    (h : m.commit r = some c) (ht : m.Timed now) :
    c.start ≤ c.endCycle ∧ c.pureComputation ≤ c.endCycle - c.start := by
  obtain ⟨f, e, rfl, rfl⟩ := commit_eq_some h
  obtain ⟨hle, -⟩ := ht
  have hse : f.startCycle ≤ e := UInt64.le_iff_toNat_le.mpr (by omega)
  refine ⟨hse, UInt64.le_iff_toNat_le.mpr ?_⟩
  rw [UInt64.toNat_sub_of_le _ _ hse]
  simp only
  omega

theorem commit_counted {r : Rounds} {m : Measure} {c : ModuleStats} (h : m.commit r = some c)
    (hr : 0 < r.iters) (hc : m.Counted r) : m.cnt.toNat = c.total.toNat + 2 := by
  obtain ⟨f, e, rfl, rfl⟩ := commit_eq_some h
  obtain ⟨hi, hcnt⟩ := hc
  obtain ⟨i, hi'⟩ := Nat.exists_eq_succ_of_ne_zero hr.ne'
  simp only [Measure.cnt, hcnt, hi, hi', Rounds.spent, Nat.succ_sub_one]

theorem toNat_pure_exit (xs : List ModuleStats) :
    (thletSwitchExit xs).pure.toNat =
      (xs.map fun c => c.pureComputation.toNat).sum % 2 ^ 64 := by
  unfold thletSwitchExit
  apply foldlIdx_invariant (I := fun (xs : List ModuleStats) (t : ExitSums) =>
    t.pure.toNat = (xs.map fun c => c.pureComputation.toNat).sum % 2 ^ 64)
  · rfl
  · intro pre c t _ ih
    simp only [exitBody, List.map_append, List.map_cons, List.map_nil, List.sum_append,
      List.sum_cons, List.sum_nil, Nat.add_zero]
    rw [UInt64.toNat_add, ih, Nat.mod_add_mod]

section Interval
variable {stats : Nat → ModuleStats}

theorem pureSum_commit (h : ∀ t < n, (s.thread t).commit (rounds t) = some (stats t)) :
    s.pureSum n = (((List.range n).map stats).map fun c => c.pureComputation.toNat).sum := by
  have hsum : s.pureSum n = ∑ t ∈ Finset.range n, (stats t).pureComputation.toNat := by
    unfold Measuring.pureSum total
    refine Finset.sum_congr rfl fun t ht => ?_
    obtain ⟨f, e, hm, hc⟩ := commit_eq_some (h t (Finset.mem_range.mp ht))
    rw [hm, hc]
    rfl
  rw [hsum, List.map_map]
  rfl

/-- The sum of what the threads have computed is at most the length of the interval. -/
theorem pureSum_le_cost (hs : PackedRun n s) (hn : 0 < n)
    (h : ∀ t < n, (s.thread t).commit (rounds t) = some (stats t)) :
    s.pureSum n ≤ (userMain ((List.range n).map stats)).cost.toNat := by
  have hne : (List.range n).map stats ≠ [] := by
    simpa using hn.ne'
  obtain ⟨⟨hfirst, hmin⟩, ⟨-, hmax⟩⟩ := userMain_extrema ((List.range n).map stats) hne
  generalize (userMain ((List.range n).map stats)) = sums at hfirst hmin hmax
  have hstart : ∀ u a, (s.thread u).start = some a → sums.start.toNat ≤ a.toNat := by
    intro u a ha
    by_cases hu : u < n
    · obtain ⟨f, e, hm, hc⟩ := commit_eq_some (h u hu)
      have hle := hmin (stats u) (List.mem_map.mpr ⟨u, List.mem_range.mpr hu, rfl⟩)
      obtain rfl : f.startCycle = a := by simpa [hm, Measure.start] using ha
      rw [hc] at hle
      exact UInt64.le_iff_toNat_le.mp hle
    · simp [hs.within u (by omega), Measure.start] at ha
  have hnow : sums.start.toNat ≤ s.now := by
    obtain ⟨f, e, hm, -⟩ := commit_eq_some (h 0 hn)
    have ha : (s.thread 0).start = some f.startCycle := by rw [hm]; rfl
    exact Nat.le_trans (hstart 0 _ ha) ((hs.timed 0).start_le ha)
  have hidle : ∃ u, s.thread u ≠ .idle := by
    obtain ⟨f, e, hm, -⟩ := commit_eq_some (h 0 hn)
    exact ⟨0, by simp [hm]⟩
  have hstopped : ∀ u, (s.thread u).running = false := by
    intro u
    by_cases hu : u < n
    · obtain ⟨f, e, hm, -⟩ := commit_eq_some (h u hu)
      rw [hm]
      rfl
    · rw [hs.within u (by omega)]
      rfl
  obtain ⟨u, f, e, hm, hle⟩ := (hs.packed _ ⟨hnow, hstart⟩).ended hidle hstopped
  have hu : u < n := by
    by_contra hu
    simp [hs.within u (by omega)] at hm
  have hend : e.toNat ≤ sums.endCycle.toNat := by
    have hle := hmax (stats u) (List.mem_map.mpr ⟨u, List.mem_range.mpr hu, rfl⟩)
    obtain ⟨f', e', hm', hc⟩ := commit_eq_some (h u hu)
    rw [hm] at hm'
    injection hm' with _ he
    rw [hc, ← he] at hle
    exact UInt64.le_iff_toNat_le.mp hle
  rw [UserSums.cost, UInt64.toNat_sub_of_le _ _ (UInt64.le_iff_toNat_le.mpr (by omega))]
  omega

end Interval

end ThletEvaluation.Switch
