import ThletEvaluation.Switch.Measure

/-!
# The switch benchmark as a kernel module

`thlet_switch_init` creates the threads and lets them go, each of them measures and commits what
it has measured, and `thlet_switch_exit` waits for all of them and reports. Every access to a
shared variable is a step, `finish_cnt ++` two of them, and any of the parties may go on.
-/

namespace ThletEvaluation.Switch

open Run

set_option autoImplicit false

inductive StatField where
  | start
  | endCycle
  | total
  | pureComputation
  deriving DecidableEq

def StatField.get : StatField → ModuleStats → UInt64
  | .start, r => r.start
  | .endCycle, r => r.endCycle
  | .total, r => r.total
  | .pureComputation, r => r.pureComputation

def StatField.set : StatField → UInt64 → ModuleStats → ModuleStats
  | .start, v, r => { r with start := v }
  | .endCycle, v, r => { r with endCycle := v }
  | .total, v, r => { r with total := v }
  | .pureComputation, v, r => { r with pureComputation := v }

/-- The order in which a thread stores them. -/
def StatField.stores : List StatField := [.start, .endCycle, .total, .pureComputation]

/-- The order in which `thlet_switch_exit` reads them. -/
def StatField.reads : List StatField := [.total, .pureComputation, .start, .endCycle]

inductive ThreadPlace where
  | absent
  /-- `while (!thlet_switch_start)` -/
  | waiting
  /-- Before the store to `cpu_thlet_switch_start`. -/
  | enabling
  | measuring
  /-- `finish_cnt ++` has loaded `c`. -/
  | counting (r : ModuleStats) (c : UInt64)
  | storing (r : ModuleStats) (todo : List StatField)
  | checking
  | disabling
  | returned
  deriving DecidableEq

/-- The per-CPU sums of the patched kernel. -/
structure SwitchStatsSum where
  sched : UInt64
  cs : UInt64
  pick : UInt64
  csMm : UInt64
  csReg : UInt64
  deriving DecidableEq

/-- The numbers that `thlet_switch_exit` prints. -/
structure Report where
  threads : Nat
  cost : UInt64
  pure : UInt64
  sched : UInt64
  cs : UInt64
  pick : UInt64
  deriving DecidableEq

inductive LoaderPlace where
  | clearing
  | creating (i : Nat)
  | releasing
  | loaded
  | waiting (i : Nat) (sums : ExitSums)
  | reading (i : Nat) (sums : ExitSums) (got : ModuleStats) (todo : List StatField)
  | reporting (sums : ExitSums)
  | disabling
  | zeroing
  | unloaded
  /-- The printed percentages divide by `cost`. -/
  | divideError
  deriving DecidableEq

structure Bench where
  measuring : Measuring
  thread : Nat → ThreadPlace
  loader : LoaderPlace
  finishCnt : UInt64
  /-- `thlet_switch_start` -/
  released : Bool
  /-- `cpu_thlet_switch_start` of the core of the threads. -/
  recording : Bool
  stats : Nat → ModuleStats
  finished : Nat → Bool
  sums : SwitchStatsSum

/-- The module when it is loaded: the counter is at `now`, the patched kernel may have left
anything in its variables. -/
def Bench.init (now : UInt64) (recording : Bool) (sums : SwitchStatsSum) : Bench where
  measuring := .init now.toNat
  thread := fun _ => .absent
  loader := .clearing
  finishCnt := 0
  released := false
  recording := recording
  stats := fun _ => ⟨0, 0, 0, 0⟩
  finished := fun _ => false
  sums := sums

inductive BenchAct where
  | tick (d : Nat)
  | thread (t : Nat)
  /-- The process that loads and unloads the module goes on. -/
  | loader
  /-- The scheduler of the patched kernel leaves these sums. -/
  | kernel (sums : SwitchStatsSum)

inductive BenchEvent where
  | nop (e : Nop)
  | report (r : Report)
  deriving DecidableEq

def Bench.goto (s : Bench) (t : Nat) (p : ThreadPlace) : Bench :=
  { s with thread := Function.update s.thread t p }

def Bench.enter (s : Bench) (p : LoaderPlace) : Bench := { s with loader := p }

/-- What `printk` gets, unless `cost` is zero. -/
def exitReport (threads : Nat) (t : ExitSums) (sums : SwitchStatsSum) : Option Report :=
  if t.cost = 0 then none
  else some {
    threads := threads
    cost := t.cost
    pure := t.pure * 100 / t.cost
    sched := sums.sched * 100 / t.cost
    cs := sums.cs * 100 / t.cost
    pick := sums.pick }

section Model
variable (cfg : Config) (random : Nat → Nat → UInt64)

def benchRounds (t : Nat) : Rounds := cfg.rounds (random t)

/-- `thlet_switch_fn` of thread `t`. -/
def Bench.threadStep (s : Bench) (t : Nat) : Option (Bench × List BenchEvent) :=
  match s.thread t with
  | .absent => none
  | .waiting => if s.released then some (s.goto t .enabling, []) else none
  | .enabling => some ({ s.goto t .measuring with recording := true }, [])
  | .measuring =>
    match (s.measuring.thread t).commit (benchRounds cfg random t) with
    | some r => some (s.goto t (.counting r s.finishCnt), [])
    | none => (s.measuring.step cfg.threads (benchRounds cfg random) (.thread t)).map fun m =>
        ({ s with measuring := m.1 }, m.2.map .nop)
  | .counting r c =>
    some ({ s.goto t (.storing r StatField.stores) with finishCnt := c + 1 }, [])
  | .storing r (field :: todo) =>
    some ({ s.goto t (.storing r todo) with
      stats := Function.update s.stats t (field.set (field.get r) (s.stats t)) }, [])
  | .storing _ [] =>
    some ({ s.goto t .checking with finished := Function.update s.finished t true }, [])
  | .checking =>
    if s.finishCnt = UInt64.ofNat cfg.threads then some (s.goto t .disabling, [])
    else some (s.goto t .returned, [])
  | .disabling => some ({ s.goto t .returned with recording := false }, [])
  | .returned => none

/-- `thlet_switch_init`, and after it `thlet_switch_exit`. -/
def Bench.loaderStep (s : Bench) : Option (Bench × List BenchEvent) :=
  match s.loader with
  | .clearing => some ({ s.enter (.creating 0) with recording := false }, [])
  | .creating i =>
    if i < cfg.threads then
      some ({ (s.goto i .waiting).enter (.creating (i + 1)) with
        finished := Function.update s.finished i false }, [])
    else some (s.enter .releasing, [])
  | .releasing => some ({ s.enter .loaded with released := true }, [])
  | .loaded => some (s.enter (.waiting 0 ⟨0, 0, 0, 0⟩), [])
  | .waiting i sums =>
    if i < cfg.threads then
      if s.finished i then some (s.enter (.reading i sums ⟨0, 0, 0, 0⟩ StatField.reads), [])
      else none
    else some (s.enter (.reporting sums), [])
  | .reading i sums got (field :: todo) =>
    some (s.enter (.reading i sums (field.set (field.get (s.stats i)) got) todo), [])
  | .reading i sums got [] => some (s.enter (.waiting (i + 1) (exitBody i sums got)), [])
  | .reporting sums =>
    match exitReport cfg.threads sums s.sums with
    | some r => some (s.enter .disabling, [.report r])
    | none => some (s.enter .divideError, [])
  | .disabling => some ({ s.enter .zeroing with recording := false }, [])
  | .zeroing => some ({ s.enter .unloaded with sums := ⟨0, 0, 0, 0, 0⟩ }, [])
  | .unloaded | .divideError => none

def Bench.step (s : Bench) : BenchAct → Option (Bench × List BenchEvent)
  | .tick d =>
    some ({ s with measuring := { s.measuring with now := s.measuring.now + d } }, [])
  | .thread t => s.threadStep cfg random t
  | .loader => s.loaderStep cfg
  | .kernel sums => some ({ s with sums := sums }, [])

def benchMachine : Machine Bench BenchAct BenchEvent := ⟨Bench.step cfg random⟩

end Model

/-- What `ok` says of the clock and of the thread that goes on. -/
def BenchAct.Admits (ok : Measuring → MeasureAct → Prop) (s : Bench) : BenchAct → Prop
  | .tick d => ok s.measuring (.tick d)
  | .thread t => ok s.measuring (.thread t)
  | .loader | .kernel _ => True

instance decidableAdmits (ok : Measuring → MeasureAct → Prop) [∀ s act, Decidable (ok s act)]
    (s : Bench) (act : BenchAct) : Decidable (act.Admits ok s) :=
  match act with
  | .tick d => inferInstanceAs (Decidable (ok s.measuring (.tick d)))
  | .thread t => inferInstanceAs (Decidable (ok s.measuring (.thread t)))
  | .loader | .kernel _ => .isTrue trivial

variable {cfg : Config} {random : Nat → Nat → UInt64} {s s' : Bench} {t : Nat} {act : BenchAct}
variable {tr es : List BenchEvent}

/-! ## Everything a step can be -/

inductive ThreadMove (cfg : Config) (random : Nat → Nat → UInt64) (s : Bench) (t : Nat) :
    Bench → List BenchEvent → Prop
  | release (h : s.thread t = .waiting) (hreleased : s.released = true) :
      ThreadMove cfg random s t (s.goto t .enabling) []
  | enable (h : s.thread t = .enabling) :
      ThreadMove cfg random s t { s.goto t .measuring with recording := true } []
  | measure {m : Measuring} {nops : List Nop} (h : s.thread t = .measuring)
      (hm : s.measuring.step cfg.threads (benchRounds cfg random) (.thread t) = some (m, nops)) :
      ThreadMove cfg random s t { s with measuring := m } (nops.map .nop)
  | load {r : ModuleStats} (h : s.thread t = .measuring)
      (hr : (s.measuring.thread t).commit (benchRounds cfg random t) = some r) :
      ThreadMove cfg random s t (s.goto t (.counting r s.finishCnt)) []
  | count {r : ModuleStats} {c : UInt64} (h : s.thread t = .counting r c) :
      ThreadMove cfg random s t
        { s.goto t (.storing r StatField.stores) with finishCnt := c + 1 } []
  | store {r : ModuleStats} {field : StatField} {todo : List StatField}
      (h : s.thread t = .storing r (field :: todo)) :
      ThreadMove cfg random s t { s.goto t (.storing r todo) with
        stats := Function.update s.stats t (field.set (field.get r) (s.stats t)) } []
  | finish {r : ModuleStats} (h : s.thread t = .storing r []) :
      ThreadMove cfg random s t
        { s.goto t .checking with finished := Function.update s.finished t true } []
  | last (h : s.thread t = .checking) (hcnt : s.finishCnt = UInt64.ofNat cfg.threads) :
      ThreadMove cfg random s t (s.goto t .disabling) []
  | pass (h : s.thread t = .checking) (hcnt : s.finishCnt ≠ UInt64.ofNat cfg.threads) :
      ThreadMove cfg random s t (s.goto t .returned) []
  | disable (h : s.thread t = .disabling) :
      ThreadMove cfg random s t { s.goto t .returned with recording := false } []

inductive LoaderMove (cfg : Config) (s : Bench) : Bench → List BenchEvent → Prop
  | clear (h : s.loader = .clearing) :
      LoaderMove cfg s { s.enter (.creating 0) with recording := false } []
  | create {i : Nat} (h : s.loader = .creating i) (hi : i < cfg.threads) :
      LoaderMove cfg s { (s.goto i .waiting).enter (.creating (i + 1)) with
        finished := Function.update s.finished i false } []
  | created {i : Nat} (h : s.loader = .creating i) (hi : ¬ i < cfg.threads) :
      LoaderMove cfg s (s.enter .releasing) []
  | release (h : s.loader = .releasing) :
      LoaderMove cfg s { s.enter .loaded with released := true } []
  | exit (h : s.loader = .loaded) : LoaderMove cfg s (s.enter (.waiting 0 ⟨0, 0, 0, 0⟩)) []
  | await {i : Nat} {sums : ExitSums} (h : s.loader = .waiting i sums) (hi : i < cfg.threads)
      (hfinished : s.finished i = true) :
      LoaderMove cfg s (s.enter (.reading i sums ⟨0, 0, 0, 0⟩ StatField.reads)) []
  | read {i : Nat} {sums : ExitSums} {got : ModuleStats} {field : StatField}
      {todo : List StatField} (h : s.loader = .reading i sums got (field :: todo)) :
      LoaderMove cfg s
        (s.enter (.reading i sums (field.set (field.get (s.stats i)) got) todo)) []
  | add {i : Nat} {sums : ExitSums} {got : ModuleStats} (h : s.loader = .reading i sums got []) :
      LoaderMove cfg s (s.enter (.waiting (i + 1) (exitBody i sums got))) []
  | summed {i : Nat} {sums : ExitSums} (h : s.loader = .waiting i sums)
      (hi : ¬ i < cfg.threads) : LoaderMove cfg s (s.enter (.reporting sums)) []
  | report {sums : ExitSums} {r : Report} (h : s.loader = .reporting sums)
      (hr : exitReport cfg.threads sums s.sums = some r) :
      LoaderMove cfg s (s.enter .disabling) [.report r]
  | divide {sums : ExitSums} (h : s.loader = .reporting sums)
      (hr : exitReport cfg.threads sums s.sums = none) :
      LoaderMove cfg s (s.enter .divideError) []
  | disable (h : s.loader = .disabling) :
      LoaderMove cfg s { s.enter .zeroing with recording := false } []
  | zero (h : s.loader = .zeroing) :
      LoaderMove cfg s { s.enter .unloaded with sums := ⟨0, 0, 0, 0, 0⟩ } []

theorem threadStep_move (h : s.threadStep cfg random t = some (s', es)) :
    ThreadMove cfg random s t s' es := by
  unfold Bench.threadStep at h
  split at h
  case h_1 => simp at h
  case h_2 hp =>
    split at h
    · obtain ⟨rfl, rfl⟩ := by simpa using h
      exact .release hp ‹_›
    · simp at h
  case h_3 hp =>
    obtain ⟨rfl, rfl⟩ := by simpa using h
    exact .enable hp
  case h_4 hp =>
    split at h
    case h_1 r hr =>
      obtain ⟨rfl, rfl⟩ := by simpa using h
      exact .load hp hr
    case h_2 hr =>
      simp only [Option.map_eq_some_iff, Prod.mk.injEq] at h
      obtain ⟨⟨m, nops⟩, hm, rfl, rfl⟩ := h
      exact .measure hp hm
  case h_5 r c hp =>
    obtain ⟨rfl, rfl⟩ := by simpa using h
    exact .count hp
  case h_6 r field todo hp =>
    obtain ⟨rfl, rfl⟩ := by simpa using h
    exact .store hp
  case h_7 r hp =>
    obtain ⟨rfl, rfl⟩ := by simpa using h
    exact .finish hp
  case h_8 hp =>
    split at h
    · obtain ⟨rfl, rfl⟩ := by simpa using h
      exact .last hp ‹_›
    · obtain ⟨rfl, rfl⟩ := by simpa using h
      exact .pass hp ‹_›
  case h_9 hp =>
    obtain ⟨rfl, rfl⟩ := by simpa using h
    exact .disable hp
  case h_10 => simp at h

theorem loaderStep_move (h : s.loaderStep cfg = some (s', es)) : LoaderMove cfg s s' es := by
  unfold Bench.loaderStep at h
  split at h
  case h_1 hp =>
    obtain ⟨rfl, rfl⟩ := by simpa using h
    exact .clear hp
  case h_2 i hp =>
    split at h
    · obtain ⟨rfl, rfl⟩ := by simpa using h
      exact .create hp ‹_›
    · obtain ⟨rfl, rfl⟩ := by simpa using h
      exact .created hp ‹_›
  case h_3 hp =>
    obtain ⟨rfl, rfl⟩ := by simpa using h
    exact .release hp
  case h_4 hp =>
    obtain ⟨rfl, rfl⟩ := by simpa using h
    exact .exit hp
  case h_5 i sums hp =>
    split at h
    case isTrue hi =>
      split at h
      · obtain ⟨rfl, rfl⟩ := by simpa using h
        exact .await hp hi ‹_›
      · simp at h
    case isFalse hi =>
      obtain ⟨rfl, rfl⟩ := by simpa using h
      exact .summed hp hi
  case h_6 i sums got field todo hp =>
    obtain ⟨rfl, rfl⟩ := by simpa using h
    exact .read hp
  case h_7 i sums got hp =>
    obtain ⟨rfl, rfl⟩ := by simpa using h
    exact .add hp
  case h_8 sums hp =>
    split at h
    case h_1 r hr =>
      obtain ⟨rfl, rfl⟩ := by simpa using h
      exact .report hp hr
    case h_2 hr =>
      obtain ⟨rfl, rfl⟩ := by simpa using h
      exact .divide hp hr
  case h_9 hp =>
    obtain ⟨rfl, rfl⟩ := by simpa using h
    exact .disable hp
  case h_10 hp =>
    obtain ⟨rfl, rfl⟩ := by simpa using h
    exact .zero hp
  all_goals simp at h

/-! ## The threads measure -/

def BenchEvent.nop? : BenchEvent → Option Nop
  | .nop e => some e
  | .report _ => none

theorem filterMap_nops (nops : List Nop) :
    (nops.map BenchEvent.nop).filterMap BenchEvent.nop? = nops := by
  rw [List.filterMap_map]
  exact List.filterMap_some

theorem bench_step_measures (h : s.step cfg random act = some (s', es)) :
    (s'.measuring = s.measuring ∧ es.filterMap BenchEvent.nop? = []) ∨
    ∃ m : MeasureAct, (measureMachine cfg.threads (benchRounds cfg random)).step s.measuring m =
      some (s'.measuring, es.filterMap BenchEvent.nop?) ∧
        ∀ ok, act.Admits ok s → ok s.measuring m := by
  cases act with
  | tick d =>
    obtain ⟨rfl, rfl⟩ := by simpa [Bench.step] using h
    exact .inr ⟨.tick d, rfl, fun _ hok => hok⟩
  | thread t =>
    cases threadStep_move h with
    | measure hp hm =>
      right
      refine ⟨.thread t, ?_, fun _ hok => hok⟩
      rw [filterMap_nops]
      exact hm
    | _ => exact .inl ⟨rfl, rfl⟩
  | loader =>
    cases loaderStep_move h with
    | _ => exact .inl ⟨rfl, rfl⟩
  | kernel sums =>
    obtain ⟨rfl, rfl⟩ := by simpa [Bench.step] using h
    exact .inl ⟨rfl, rfl⟩

/-- The clock and the loops of the threads are a run of their own. -/
theorem measures_of_runs {ok : Measuring → MeasureAct → Prop} {now : UInt64} {recording : Bool}
    {sums : SwitchStatsSum}
    (h : Runs (benchMachine cfg random) (fun s a => a.Admits ok s) (.init now recording sums)
      tr s) :
    Runs (measureMachine cfg.threads (benchRounds cfg random)) ok (.init now.toNat)
      (tr.filterMap BenchEvent.nop?) s.measuring := by
  induction h with
  | start => exact .start
  | next _ hok hstep ih =>
    rw [List.filterMap_append]
    rcases bench_step_measures hstep with ⟨hm, hes⟩ | ⟨m, hm, hadmits⟩
    · rw [hm, hes, List.append_nil]
      exact ih
    · exact ih.next (hadmits ok hok) hm

end ThletEvaluation.Switch
