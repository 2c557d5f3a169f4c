import ThletEvaluation.Switch.Exit

/-!
# The switch benchmark as a user program

`main` of `thlet_switch_user.c` creates the threads, starts the recording of the patched kernel by
an `ioctl` on the helper device, lets the threads go and joins them. A thread that finds that all
have counted, and `main` at the end, make the device stop the recording and copy the sums of the
kernel to the page that `main` has mapped. Every access to a shared variable is a step.
-/

namespace ThletEvaluation.Switch

open Run Threads Loop

set_option autoImplicit false

/-- The members of `struct kernel_stats`. -/
inductive KernelField where
  | pick
  | csMm
  | csReg
  | csExit
  | cs
  | sched
  deriving DecidableEq

def KernelField.all : List KernelField := [.pick, .csMm, .csReg, .csExit, .cs, .sched]

inductive UserPlace where
  | absent
  /-- `while (!thlet_switch_start)` -/
  | waiting
  | measuring
  | storing (r : ModuleStats) (todo : List StatField)
  | counting
  | checking
  /-- `THLET_IOCTL_FINISH`, before the store to `cpu_thlet_switch_start`. -/
  | disabling
  /-- `THLET_IOCTL_FINISH`, with these members of the sums still to be copied. -/
  | copying (todo : List KernelField)
  | returned
  deriving DecidableEq

inductive MainPlace where
  | creating (i : Nat)
  /-- `THLET_IOCTL_START`, with these members of the sums still to be zeroed. -/
  | clearing (todo : List KernelField)
  | enabling
  | releasing
  | joining (i : Nat) (sums : UserSums)
  | disabling (sums : UserSums)
  | copying (sums : UserSums) (todo : List KernelField)
  | printing (sums : UserSums)
  | exited
  /-- `pthread_create` has failed for thread `i`, and the process has ended. -/
  | failed (i : Nat)
  deriving DecidableEq

/-- The numbers that `main` prints. -/
structure UserReport where
  cost : UInt64
  pureSum : UInt64
  purePercent : UInt64
  schedPercent : UInt64
  csPercent : UInt64
  deriving DecidableEq

structure UserBench where
  measuring : Measuring
  thread : Nat → UserPlace
  main : MainPlace
  finishCnt : UInt64
  /-- `thlet_switch_start` -/
  released : Bool
  /-- `cpu_thlet_switch_start` of the core of the threads. -/
  recording : Bool
  stats : Nat → ModuleStats
  finished : Nat → Bool
  /-- `cpu_thlet_switch_stats_sum` of that core. -/
  sums : KernelField → UInt64
  /-- The page of the device, which `main` has mapped. -/
  kstats : KernelField → UInt64

def UserBench.init (now : UInt64) (recording : Bool) (sums : KernelField → UInt64) :
    UserBench where
  measuring := .init now.toNat
  thread := fun _ => .absent
  main := .creating 0
  finishCnt := 0
  released := false
  recording := recording
  stats := fun _ => ⟨0, 0, 0, 0⟩
  finished := fun _ => false
  sums := sums
  kstats := fun _ => 0

inductive UserAct where
  | tick (d : Nat)
  | thread (t : Nat)
  /-- `success` tells whether `pthread_create` returns zero, if it is called. -/
  | main (success : Bool)
  /-- The scheduler of the patched kernel adds to its sums. -/
  | kernel (field : KernelField) (amount : UInt64)

inductive UserEvent where
  | nop (e : Nop)
  | cleared (field : KernelField)
  | added (field : KernelField) (amount : UInt64)
  | print (r : UserReport)
  deriving DecidableEq

def UserBench.goto (s : UserBench) (t : Nat) (p : UserPlace) : UserBench :=
  { s with thread := Function.update s.thread t p }

def UserBench.enter (s : UserBench) (p : MainPlace) : UserBench := { s with main := p }

/-- What is printed if `cost` is greater than zero. -/
def userReport (u : UserSums) (kstats : KernelField → UInt64) : Option UserReport :=
  if u.cost > 0 then some {
    cost := u.cost
    pureSum := u.pureSum
    purePercent := u.pureSum * 100 / u.cost
    schedPercent := kstats .sched * 100 / u.cost
    csPercent := kstats .cs * 100 / u.cost }
  else none

section Model
variable (cfg : Config) (random : Nat → Nat → UInt64)

/-- `thlet_switch_fn` of thread `t`. -/
def UserBench.threadStep (s : UserBench) (t : Nat) : Option (UserBench × List UserEvent) :=
  match s.thread t with
  | .absent => none
  | .waiting => if s.released then some (s.goto t .measuring, []) else none
  | .measuring =>
    match (s.measuring.thread t).commit (benchRounds cfg random t) with
    | some r => some ({ s.goto t (.storing r StatField.stores) with
        finished := Function.update s.finished t true }, [])
    | none => (s.measuring.step cfg.threads (benchRounds cfg random) (.thread t)).map fun m =>
        ({ s with measuring := m.1 }, m.2.map .nop)
  | .storing r (field :: todo) =>
    some ({ s.goto t (.storing r todo) with
      stats := Function.update s.stats t (field.set (field.get r) (s.stats t)) }, [])
  | .storing _ [] => some (s.goto t .counting, [])
  | .counting => some ({ s.goto t .checking with finishCnt := s.finishCnt + 1 }, [])
  | .checking =>
    if s.finishCnt = UInt64.ofNat cfg.threads then some (s.goto t .disabling, [])
    else some (s.goto t .returned, [])
  | .disabling =>
    some ({ s.goto t (.copying KernelField.all) with recording := false }, [])
  | .copying (field :: todo) =>
    some ({ s.goto t (.copying todo) with
      kstats := Function.update s.kstats field (s.sums field) }, [])
  | .copying [] => some (s.goto t .returned, [])
  | .returned => none

/-- `main` from the creation of the threads on. -/
def UserBench.mainStep (s : UserBench) (success : Bool) :
    Option (UserBench × List UserEvent) :=
  match s.main with
  | .creating i =>
    if i < cfg.threads then
      if success then some ({ (s.goto i .waiting).enter (.creating (i + 1)) with
        finished := Function.update s.finished i false }, [])
      else some (s.enter (.failed i), [])
    else some (s.enter (.clearing KernelField.all), [])
  | .clearing (field :: todo) =>
    some ({ s.enter (.clearing todo) with sums := Function.update s.sums field 0 },
      [.cleared field])
  | .clearing [] => some (s.enter .enabling, [])
  | .enabling => some ({ s.enter .releasing with recording := true }, [])
  | .releasing => some ({ s.enter (.joining 0 ⟨0, 0, 0⟩) with released := true }, [])
  | .joining i u =>
    if i < cfg.threads then
      if s.thread i = .returned then
        some (s.enter (.joining (i + 1) (userBody i u (s.stats i))), [])
      else none
    else some (s.enter (.disabling u), [])
  | .disabling u => some ({ s.enter (.copying u KernelField.all) with recording := false }, [])
  | .copying u (field :: todo) =>
    some ({ s.enter (.copying u todo) with
      kstats := Function.update s.kstats field (s.sums field) }, [])
  | .copying u [] => some (s.enter (.printing u), [])
  | .printing u => some (s.enter .exited, ((userReport u s.kstats).map .print).toList)
  | .exited | .failed _ => none

def MainPlace.running : MainPlace → Bool
  | .failed _ => false
  | _ => true

def UserBench.step (s : UserBench) : UserAct → Option (UserBench × List UserEvent)
  | .tick d =>
    some ({ s with measuring := { s.measuring with now := s.measuring.now + d } }, [])
  | .thread t => if s.main.running then s.threadStep cfg random t else none
  | .main success => s.mainStep cfg success
  | .kernel field amount =>
    some ({ s with sums := Function.update s.sums field (s.sums field + amount) },
      [.added field amount])

def userMachine : Machine UserBench UserAct UserEvent := ⟨UserBench.step cfg random⟩

end Model

/-- The patched kernel adds to its sums only while `cpu_thlet_switch_start` is set, and the cycle
counter does not wrap around. -/
def UserAct.Recorded (s : UserBench) : UserAct → Prop
  | .tick d => NoWrap s.measuring (.tick d)
  | .kernel _ _ => s.recording = true
  | .thread _ | .main _ => True

instance decidableRecorded (s : UserBench) (act : UserAct) : Decidable (act.Recorded s) :=
  match act with
  | .tick d => inferInstanceAs (Decidable (NoWrap s.measuring (.tick d)))
  | .kernel _ _ => inferInstanceAs (Decidable (s.recording = true))
  | .thread _ | .main _ => .isTrue trivial

variable {cfg : Config} {random : Nat → Nat → UInt64} {s s' : UserBench} {t : Nat} {act : UserAct}
variable {tr es : List UserEvent}

/-! ## Everything a step can be -/

inductive UserThreadMove (cfg : Config) (random : Nat → Nat → UInt64) (s : UserBench) (t : Nat) :
    UserBench → List UserEvent → Prop
  | release (h : s.thread t = .waiting) (hreleased : s.released = true) :
      UserThreadMove cfg random s t (s.goto t .measuring) []
  | measure {m : Measuring} {nops : List Nop} (h : s.thread t = .measuring)
      (hm : s.measuring.step cfg.threads (benchRounds cfg random) (.thread t) = some (m, nops)) :
      UserThreadMove cfg random s t { s with measuring := m } (nops.map .nop)
  | finish {r : ModuleStats} (h : s.thread t = .measuring)
      (hr : (s.measuring.thread t).commit (benchRounds cfg random t) = some r) :
      UserThreadMove cfg random s t { s.goto t (.storing r StatField.stores) with
        finished := Function.update s.finished t true } []
  | store {r : ModuleStats} {field : StatField} {todo : List StatField}
      (h : s.thread t = .storing r (field :: todo)) :
      UserThreadMove cfg random s t { s.goto t (.storing r todo) with
        stats := Function.update s.stats t (field.set (field.get r) (s.stats t)) } []
  | stored {r : ModuleStats} (h : s.thread t = .storing r []) :
      UserThreadMove cfg random s t (s.goto t .counting) []
  | count (h : s.thread t = .counting) :
      UserThreadMove cfg random s t { s.goto t .checking with finishCnt := s.finishCnt + 1 } []
  | last (h : s.thread t = .checking) (hcnt : s.finishCnt = UInt64.ofNat cfg.threads) :
      UserThreadMove cfg random s t (s.goto t .disabling) []
  | pass (h : s.thread t = .checking) (hcnt : s.finishCnt ≠ UInt64.ofNat cfg.threads) :
      UserThreadMove cfg random s t (s.goto t .returned) []
  | disable (h : s.thread t = .disabling) :
      UserThreadMove cfg random s t
        { s.goto t (.copying KernelField.all) with recording := false } []
  | copy {field : KernelField} {todo : List KernelField}
      (h : s.thread t = .copying (field :: todo)) :
      UserThreadMove cfg random s t { s.goto t (.copying todo) with
        kstats := Function.update s.kstats field (s.sums field) } []
  | copied (h : s.thread t = .copying []) : UserThreadMove cfg random s t (s.goto t .returned) []

inductive MainMove (cfg : Config) (s : UserBench) : UserBench → List UserEvent → Prop
  | create {i : Nat} (h : s.main = .creating i) (hi : i < cfg.threads) :
      MainMove cfg s { (s.goto i .waiting).enter (.creating (i + 1)) with
        finished := Function.update s.finished i false } []
  | fail {i : Nat} (h : s.main = .creating i) (hi : i < cfg.threads) :
      MainMove cfg s (s.enter (.failed i)) []
  | created {i : Nat} (h : s.main = .creating i) (hi : ¬ i < cfg.threads) :
      MainMove cfg s (s.enter (.clearing KernelField.all)) []
  | clear {field : KernelField} {todo : List KernelField} (h : s.main = .clearing (field :: todo)) :
      MainMove cfg s
        { s.enter (.clearing todo) with sums := Function.update s.sums field 0 } [.cleared field]
  | cleared (h : s.main = .clearing []) : MainMove cfg s (s.enter .enabling) []
  | enable (h : s.main = .enabling) :
      MainMove cfg s { s.enter .releasing with recording := true } []
  | release (h : s.main = .releasing) :
      MainMove cfg s { s.enter (.joining 0 ⟨0, 0, 0⟩) with released := true } []
  | join {i : Nat} {u : UserSums} (h : s.main = .joining i u) (hi : i < cfg.threads)
      (hreturned : s.thread i = .returned) :
      MainMove cfg s (s.enter (.joining (i + 1) (userBody i u (s.stats i)))) []
  | joined {i : Nat} {u : UserSums} (h : s.main = .joining i u) (hi : ¬ i < cfg.threads) :
      MainMove cfg s (s.enter (.disabling u)) []
  | disable {u : UserSums} (h : s.main = .disabling u) :
      MainMove cfg s { s.enter (.copying u KernelField.all) with recording := false } []
  | copy {u : UserSums} {field : KernelField} {todo : List KernelField}
      (h : s.main = .copying u (field :: todo)) :
      MainMove cfg s { s.enter (.copying u todo) with
        kstats := Function.update s.kstats field (s.sums field) } []
  | copied {u : UserSums} (h : s.main = .copying u []) : MainMove cfg s (s.enter (.printing u)) []
  | print {u : UserSums} (h : s.main = .printing u) :
      MainMove cfg s (s.enter .exited) ((userReport u s.kstats).map .print).toList

theorem userThreadStep_move (h : s.threadStep cfg random t = some (s', es)) :
    UserThreadMove cfg random s t s' es := by
  unfold UserBench.threadStep at h
  split at h
  case h_1 => simp at h
  case h_2 hp =>
    split at h
    · obtain ⟨rfl, rfl⟩ := by simpa using h
      exact .release hp ‹_›
    · simp at h
  case h_3 hp =>
    split at h
    case h_1 r hr =>
      obtain ⟨rfl, rfl⟩ := by simpa using h
      exact .finish hp hr
    case h_2 hr =>
      simp only [Option.map_eq_some_iff, Prod.mk.injEq] at h
      obtain ⟨⟨m, nops⟩, hm, rfl, rfl⟩ := h
      exact .measure hp hm
  case h_4 r field todo hp =>
    obtain ⟨rfl, rfl⟩ := by simpa using h
    exact .store hp
  case h_5 r hp =>
    obtain ⟨rfl, rfl⟩ := by simpa using h
    exact .stored hp
  case h_6 hp =>
    obtain ⟨rfl, rfl⟩ := by simpa using h
    exact .count hp
  case h_7 hp =>
    split at h
    · obtain ⟨rfl, rfl⟩ := by simpa using h
      exact .last hp ‹_›
    · obtain ⟨rfl, rfl⟩ := by simpa using h
      exact .pass hp ‹_›
  case h_8 hp =>
    obtain ⟨rfl, rfl⟩ := by simpa using h
    exact .disable hp
  case h_9 field todo hp =>
    obtain ⟨rfl, rfl⟩ := by simpa using h
    exact .copy hp
  case h_10 hp =>
    obtain ⟨rfl, rfl⟩ := by simpa using h
    exact .copied hp
  case h_11 => simp at h

theorem userMainStep_move {success : Bool} (h : s.mainStep cfg success = some (s', es)) :
    MainMove cfg s s' es := by
  unfold UserBench.mainStep at h
  split at h
  case h_1 i hp =>
    split at h
    case isTrue hi =>
      split at h
      · obtain ⟨rfl, rfl⟩ := by simpa using h
        exact .create hp hi
      · obtain ⟨rfl, rfl⟩ := by simpa using h
        exact .fail hp hi
    case isFalse hi =>
      obtain ⟨rfl, rfl⟩ := by simpa using h
      exact .created hp hi
  case h_2 field todo hp =>
    obtain ⟨rfl, rfl⟩ := by simpa using h
    exact .clear hp
  case h_3 hp =>
    obtain ⟨rfl, rfl⟩ := by simpa using h
    exact .cleared hp
  case h_4 hp =>
    obtain ⟨rfl, rfl⟩ := by simpa using h
    exact .enable hp
  case h_5 hp =>
    obtain ⟨rfl, rfl⟩ := by simpa using h
    exact .release hp
  case h_6 i u hp =>
    split at h
    case isTrue hi =>
      split at h
      · obtain ⟨rfl, rfl⟩ := by simpa using h
        exact .join hp hi ‹_›
      · simp at h
    case isFalse hi =>
      obtain ⟨rfl, rfl⟩ := by simpa using h
      exact .joined hp hi
  case h_7 u hp =>
    obtain ⟨rfl, rfl⟩ := by simpa using h
    exact .disable hp
  case h_8 u field todo hp =>
    obtain ⟨rfl, rfl⟩ := by simpa using h
    exact .copy hp
  case h_9 u hp =>
    obtain ⟨rfl, rfl⟩ := by simpa using h
    exact .copied hp
  case h_10 u hp =>
    obtain ⟨rfl, rfl⟩ := by simpa using h
    exact .print hp
  all_goals simp at h

/-! ## The threads measure -/

def UserEvent.nop? : UserEvent → Option Nop
  | .nop e => some e
  | _ => none

theorem filterMap_userNops (nops : List Nop) :
    (nops.map UserEvent.nop).filterMap UserEvent.nop? = nops := by
  rw [List.filterMap_map]
  exact List.filterMap_some

theorem user_step_measures (h : s.step cfg random act = some (s', es)) :
    (s'.measuring = s.measuring ∧ es.filterMap UserEvent.nop? = []) ∨
    ∃ m : MeasureAct, (measureMachine cfg.threads (benchRounds cfg random)).step s.measuring m =
      some (s'.measuring, es.filterMap UserEvent.nop?) ∧
        (act.Recorded s → NoWrap s.measuring m) := by
  cases act with
  | tick d =>
    obtain ⟨rfl, rfl⟩ := by simpa [UserBench.step] using h
    exact .inr ⟨.tick d, rfl, fun hok => hok⟩
  | thread t =>
    simp only [UserBench.step] at h
    split at h
    · cases userThreadStep_move h with
      | measure hp hm =>
        right
        refine ⟨.thread t, ?_, fun _ => trivial⟩
        rw [filterMap_userNops]
        exact hm
      | _ => exact .inl ⟨rfl, rfl⟩
    · simp at h
  | main success =>
    cases userMainStep_move h with
    | @print u hp =>
      left
      refine ⟨rfl, ?_⟩
      cases userReport u s.kstats <;> rfl
    | _ => exact .inl ⟨rfl, rfl⟩
  | kernel field amount =>
    obtain ⟨rfl, rfl⟩ := by simpa [UserBench.step] using h
    exact .inl ⟨rfl, rfl⟩

theorem user_measures_of_runs {now : UInt64} {recording : Bool} {sums : KernelField → UInt64}
    (h : Runs (userMachine cfg random) (fun s act => act.Recorded s) (.init now recording sums)
      tr s) :
    Runs (measureMachine cfg.threads (benchRounds cfg random)) NoWrap (.init now.toNat)
      (tr.filterMap UserEvent.nop?) s.measuring := by
  induction h with
  | start => exact .start
  | next _ hok hstep ih =>
    rw [List.filterMap_append]
    rcases user_step_measures hstep with ⟨hm, hes⟩ | ⟨m, hm, hadmits⟩
    · rw [hm, hes, List.append_nil]
      exact ih
    · exact ih.next (hadmits hok) hm

end ThletEvaluation.Switch
