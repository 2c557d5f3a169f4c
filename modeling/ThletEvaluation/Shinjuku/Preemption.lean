import Mathlib.Algebra.Ring.Nat
import ThletEvaluation.Shinjuku.Ownership

/-!
# When the dispatcher preempts

`preempt_worker` decides with two variables that only the dispatcher touches. Here the
dispatcher runs against workers that may do anything to the records they share with it,
and the cycle counter is a number without bound of which the code reads the low 64 bits.
`watch` collects, for one CPU, what a trace shows of the dispatcher: the count of the
current iteration, whether the response flag was read as `RUNNING` in it, the count of the
last dispatch, and the IPIs sent since. An IPI is justified by what is collected.
-/

namespace ThletEvaluation.Shinjuku

open Run

set_option autoImplicit false

/-- `now` is the full count behind `cur_time`. A time slice lasts from its dispatch to the
call of `handle_finished` or `handle_preempted` for it; `slices` has the CPU and the count
of each one. -/
structure Clocked where
  sys : Sys
  now : Nat
  slices : List (Nat × Nat)

def Clocked.init : Clocked := ⟨Sys.init, 0, []⟩

inductive ClockAct where
  /-- `t` is the full count, in case this step of the dispatcher reads the counter. -/
  | disp (v : Env) (t : Nat)
  | worker (i : Nat) (c : Core)

inductive ClockEvent where
  | iter (t : Nat)
  | read (i : Nat) (f : ResponseFlag)
  | sched (ev : Event)
  deriving DecidableEq

/-- What a step of the dispatcher reads: the counter, or a response flag. -/
def readings (s : Sys) (t : Nat) : List ClockEvent :=
  match s.dpc with
  | .loop => [.iter t]
  | .serve i .poll => [.read i (s.cpu i).data.response.flag]
  | _ => []

def slicesNext (now : Nat) (slices : List (Nat × Nat)) : Event → List (Nat × Nat)
  | .dispatch i _ => (i, now) :: slices.filter (·.1 ≠ i)
  | .consumeSkb i _ | .requeue i _ _ => slices.filter (·.1 ≠ i)
  | _ => slices

/-- Whatever runs on CPU `i` may store, except to `shinjuku_timestamps` and
`preempt_check`. -/
def Sys.anyWorker (s : Sys) (i : Nat) (c : Core) : Sys :=
  s.setCpu i { c with data := { c.data with
    shinjukuTimestamp := (s.cpu i).data.shinjukuTimestamp
    preemptCheck := (s.cpu i).data.preemptCheck } }

def clockedStep (n : Nat) (s : Clocked) : ClockAct → Option (Clocked × List ClockEvent)
  | .disp v t =>
    match dispatcherStep n { v with tsc := UInt64.ofNat t } s.sys with
    | none => none
    | some (u, es) =>
      let now := if s.sys.dpc = .loop then t else s.now
      some (⟨u, now, es.foldl (slicesNext now) s.slices⟩, readings s.sys t ++ es.map .sched)
  | .worker i c => some ({ s with sys := s.sys.anyWorker i c }, [])

def clocked (n : Nat) : Machine Clocked ClockAct ClockEvent := ⟨clockedStep n⟩

/-- The counter does not decrease, and it advances by less than `2 ^ 64` during a time
slice. -/
def SlicesShort (s : Clocked) : ClockAct → Prop
  | .disp _ t => s.sys.dpc = .loop → s.now ≤ t ∧ ∀ p ∈ s.slices, t - p.2 < 2 ^ 64
  | .worker .. => True

instance (s : Clocked) (act : ClockAct) : Decidable (SlicesShort s act) :=
  match act with
  | .disp _ t => inferInstanceAs (Decidable (_ → s.now ≤ t ∧ ∀ p ∈ s.slices, t - p.2 < 2 ^ 64))
  | .worker .. => .isTrue trivial

theorem workerStep_private {i : Nat} {fin : Bool} {c c' : PerCpu} {pc pc' : WorkerPc}
    {es : List Event} (h : workerStep i fin c pc = some (c', pc', es)) :
    c'.shinjukuTimestamp = c.shinjukuTimestamp ∧ c'.preemptCheck = c.preemptCheck := by
  unfold workerStep at h
  split at h
  case h_1 => simp at h
  case h_7 =>
    split at h
    · obtain ⟨rfl, -, -⟩ := by simpa using h
      exact ⟨rfl, rfl⟩
    · obtain ⟨rfl, -, -⟩ := by simpa using h
      exact ⟨rfl, rfl⟩
  all_goals
    obtain ⟨rfl, -, -⟩ := by simpa using h
    exact ⟨rfl, rfl⟩

/-- A `do_work` thread is one of the workers considered here. -/
theorem clockedStep_of_work {n i now : Nat} {fin : Bool} {slices : List (Nat × Nat)} {s t : Sys}
    {es : List Event} (h : sysStep n s (.work i fin) = some (t, es)) :
    ∃ c, clockedStep n ⟨s, now, slices⟩ (.worker i c) = some (⟨t, now, slices⟩, []) := by
  obtain ⟨c, pc, hstep, rfl⟩ := sysStep_work h
  obtain ⟨hstamp, hcheck⟩ := workerStep_private hstep
  exact ⟨⟨c, pc⟩, by simp [clockedStep, Sys.anyWorker, ← hstamp, ← hcheck]⟩

/-- What a trace shows of the dispatcher's dealings with one CPU. -/
structure Watch where
  now : Option Nat := none
  sawRunning : Bool := false
  start : Option Nat := none
  ipis : Nat := 0

def Watch.next (i : Nat) (w : Watch) : ClockEvent → Watch
  | .iter t => { w with now := some t, sawRunning := false }
  | .read j f => if j = i then { w with sawRunning := decide (f = .running) } else w
  | .sched (.dispatch j _) => if j = i then { w with start := w.now, ipis := 0 } else w
  | .sched (.ipi j) => if j = i then { w with ipis := w.ipis + 1 } else w
  | .sched _ => w

def watch (i : Nat) (tr : List ClockEvent) : Watch := tr.foldl (Watch.next i) {}

/-- The wrapped difference of two counts is the time that has passed, and it is longer than
a time slice may be. -/
def Overdue (start now : Nat) : Prop :=
  (UInt64.ofNat now - UInt64.ofNat start).toNat = now - start ∧
    PREEMPTION_DELAY < UInt64.ofNat now - UInt64.ofNat start

/-- The first IPI since a dispatch, in an iteration that has read `RUNNING`, and late
enough. -/
def Watch.Justified (w : Watch) : Prop :=
  w.ipis = 0 ∧ w.sawRunning = true ∧
    ∃ start now, w.start = some start ∧ w.now = some now ∧ Overdue start now

open Classical in
noncomputable def policyObserver (i : Nat) : Observer Watch ClockEvent where
  next w ev := if ev = .sched (.ipi i) ∧ ¬ w.Justified then none else some (w.next i ev)

/-- `handle_worker` is not between two stores that belong together. -/
def Stage.steady : Stage → Bool
  | .finCheck | .preCheck | .setCheck _ | .setActive _ => false
  | _ => true

def DispatcherPc.inLoop : DispatcherPc → Bool
  | .serve .. | .net _ => true
  | _ => false

def DispatcherPc.booting : DispatcherPc → Bool
  | .start | .create _ | .timestamps | .checks => true
  | _ => false

structure Armed (i : Nat) (w : Watch) (slices : List (Nat × Nat)) (stamp : UInt64) : Prop where
  unused : w.ipis = 0
  running : ∃ start, w.start = some start ∧ stamp = UInt64.ofNat start ∧ (i, start) ∈ slices

structure Policed (i : Nat) (w : Watch) (s : Clocked) : Prop where
  idle : s.sys.dpc.booting = true → (s.sys.cpu i).data.preemptCheck = false
  clock : s.sys.dpc.inLoop = true → w.now = some s.now ∧ s.sys.curTime = UInt64.ofNat s.now
  short : ∀ p ∈ s.slices, p.2 ≤ s.now ∧ s.now - p.2 < 2 ^ 64
  armed : (stageOf s.sys.dpc i).steady = true → (s.sys.cpu i).data.preemptCheck = true →
    Armed i w s.slices (s.sys.cpu i).data.shinjukuTimestamp
  stamped : ∀ t, stageOf s.sys.dpc i = .setCheck t ∨ stageOf s.sys.dpc i = .setActive t →
    (s.sys.cpu i).data.shinjukuTimestamp = s.sys.curTime
  saw : stageOf s.sys.dpc i = .preempt → w.sawRunning = true

section Steps
variable {n i : Nat} {w : Watch} {s : Clocked} {u : Sys} {es : List Event}

theorem policed_init (i : Nat) : Policed i {} Clocked.init where
  idle := fun _ => rfl
  clock := by simp [Clocked.init, Sys.init, DispatcherPc.inLoop]
  short := by simp [Clocked.init]
  armed := by simp [Clocked.init, Sys.init]
  stamped := by simp [Clocked.init, Sys.init, stageOf]
  saw := by simp [Clocked.init, Sys.init, stageOf]

theorem policy_next {ev : ClockEvent} (h : ev ≠ .sched (.ipi i)) :
    (policyObserver i).next w ev = some (w.next i ev) := by
  simp [policyObserver, h]

theorem policy_ipi (h : w.Justified) :
    (policyObserver i).next w (.sched (.ipi i)) = some (w.next i (.sched (.ipi i))) := by
  simp [policyObserver, h]

theorem watch_next_of_ne {ev : Event} (h : ev.worker ≠ some i) : w.next i (.sched ev) = w := by
  cases ev <;> simp_all [Watch.next, Event.worker]

theorem mem_slices_of_ne {ev : Event} (h : ev.worker ≠ some i) {now start : Nat}
    {slices : List (Nat × Nat)} (hmem : (i, start) ∈ slices) :
    (i, start) ∈ slicesNext now slices ev := by
  have hne : ∀ j, ev.worker = some j → i ≠ j := by
    rintro j hj rfl
    exact h hj
  cases ev with
  | dispatch j t => simp [slicesNext, hmem, hne j rfl]
  | consumeSkb j m => simp [slicesNext, hmem, hne j rfl]
  | requeue j t stored => simp [slicesNext, hmem, hne j rfl]
  | _ => exact hmem

theorem of_mem_slicesNext {ev : Event} {now : Nat} {slices : List (Nat × Nat)} {p : Nat × Nat}
    (h : p ∈ slicesNext now slices ev) : p ∈ slices ∨ p.2 = now := by
  cases ev with
  | dispatch j t =>
    rcases List.mem_cons.mp h with rfl | h
    · exact .inr rfl
    · exact .inl (List.mem_filter.mp h).1
  | consumeSkb j m => exact .inl (List.mem_filter.mp h).1
  | requeue j t stored => exact .inl (List.mem_filter.mp h).1
  | _ => exact .inl h

theorem short_next {ev : Event} {now : Nat} {slices : List (Nat × Nat)}
    (h : ∀ p ∈ slices, p.2 ≤ now ∧ now - p.2 < 2 ^ 64) :
    ∀ p ∈ slicesNext now slices ev, p.2 ≤ now ∧ now - p.2 < 2 ^ 64 := by
  intro p hp
  rcases of_mem_slicesNext hp with hp | hp
  · exact h p hp
  · omega

theorem clockedStep_disp {v : Env} {t : Nat} {s' : Clocked} {evs : List ClockEvent}
    (h : clockedStep n s (.disp v t) = some (s', evs)) :
    ∃ u es, DispatcherMove n { v with tsc := UInt64.ofNat t } s.sys u es ∧
      (let now := if s.sys.dpc = .loop then t else s.now
       s' = ⟨u, now, es.foldl (slicesNext now) s.slices⟩) ∧
      evs = readings s.sys t ++ es.map .sched := by
  simp only [clockedStep] at h
  split at h
  · simp at h
  next u es hstep =>
    obtain ⟨rfl, rfl⟩ := Prod.mk.inj (Option.some.inj h)
    exact ⟨u, es, dispatcherStep_cases hstep, rfl, rfl⟩

/-- Between two calls of `handle_worker` for CPU `i` nothing it depends on changes. -/
theorem policed_goto (hp : Policed i w s) (hcpu : (u.cpu i).data = (s.sys.cpu i).data)
    (hfrom : stageOf s.sys.dpc i = .done)
    (hto : stageOf u.dpc i = .done ∨ stageOf u.dpc i = .poll)
    (hboot : u.dpc.booting = true → s.sys.dpc.booting = true)
    (hclock : u.dpc.inLoop = true → w.now = some s.now ∧ u.curTime = UInt64.ofNat s.now) :
    Policed i w { s with sys := u } := by
  have hsteady : (stageOf s.sys.dpc i).steady = true := by rw [hfrom]; rfl
  constructor
  · intro h
    rw [hcpu]
    exact hp.idle (hboot h)
  · exact hclock
  · exact hp.short
  · intro _ hcheck
    rw [hcpu] at hcheck ⊢
    exact hp.armed hsteady hcheck
  · intro t ht
    rcases hto with h | h <;> simp [h] at ht
  · intro ht
    rcases hto with h | h <;> simp [h] at ht

/-- An event on another CPU. -/
theorem policed_event {ev : Event} (hp : Policed i w { s with sys := u })
    (hw : ev.worker ≠ some i) (hpre : Policed i w s) :
    ∃ w', (policyObserver i).accept w [.sched ev] = some w' ∧
      Policed i w' ⟨u, s.now, slicesNext s.now s.slices ev⟩ := by
  have hne : ClockEvent.sched ev ≠ .sched (.ipi i) := by
    rintro h
    cases h
    exact hw rfl
  refine ⟨w, ?_, ?_⟩
  · rw [Observer.accept_singleton, policy_next hne, watch_next_of_ne hw]
  · refine ⟨hp.idle, hp.clock, short_next hpre.short, ?_, hp.stamped, hp.saw⟩
    intro hsteady hcheck
    obtain ⟨hunused, start, hstart, hstamp, hmem⟩ := hp.armed hsteady hcheck
    exact ⟨hunused, start, hstart, hstamp, mem_slices_of_ne hw hmem⟩

end Steps

section Serve
variable {n i : Nat} {w : Watch} {s : Clocked} {st : Stage}

/-- The state after a step of `handle_worker` for CPU `i`. -/
def Clocked.served (s : Clocked) (i : Nat) (c : PerCpu) (q : List Task) (st : Stage)
    (slices : List (Nat × Nat)) : Clocked :=
  ⟨{ s.sys.setCpu i { s.sys.cpu i with data := c } with tskq := q, dpc := .serve i st }, s.now,
    slices⟩

theorem Policed.serve {w' : Watch} {c : PerCpu} {q : List Task} {st' : Stage}
    {slices : List (Nat × Nat)} (hp : Policed i w s) (hdpc : s.sys.dpc = .serve i st)
    (hnow : w'.now = w.now)
    (hshort : ∀ p ∈ slices, p.2 ≤ s.now ∧ s.now - p.2 < 2 ^ 64)
    (harmed : st'.steady = true → c.preemptCheck = true → Armed i w' slices c.shinjukuTimestamp)
    (hstamped : ∀ t, st' = .setCheck t ∨ st' = .setActive t →
      c.shinjukuTimestamp = s.sys.curTime)
    (hsaw : st' = .preempt → w'.sawRunning = true) :
    Policed i w' (s.served i c q st' slices) := by
  constructor
  · simp [Clocked.served, DispatcherPc.booting]
  · intro _
    rw [hnow]
    exact hp.clock (by simp [hdpc, DispatcherPc.inLoop])
  · exact hshort
  · simpa [Clocked.served, Sys.setCpu, stageOf] using harmed
  · simpa [Clocked.served, Sys.setCpu, stageOf] using hstamped
  · simpa [Clocked.served, stageOf] using hsaw

/-- A step that touches neither of the two variables and says nothing of CPU `i`. -/
theorem policed_quiet {c : PerCpu} {q : List Task} {st' : Stage} (hp : Policed i w s)
    (hdpc : s.sys.dpc = .serve i st) (hst : st.steady = true)
    (hstamp : c.shinjukuTimestamp = (s.sys.cpu i).data.shinjukuTimestamp)
    (hcheck : c.preemptCheck = (s.sys.cpu i).data.preemptCheck)
    (hto : st'.steady = true) (hne : st' ≠ .preempt) :
    Policed i w (s.served i c q st' s.slices) := by
  have hstage : stageOf s.sys.dpc i = st := by simp [hdpc, stageOf]
  apply hp.serve hdpc rfl hp.short
  · intro _ hc
    rw [hstamp]
    rw [hcheck] at hc
    exact hp.armed (by rw [hstage]; exact hst) hc
  · rintro t (rfl | rfl) <;> simp [Stage.steady] at hto
  · intro h
    exact absurd h hne

theorem policed_poll (hp : Policed i w s) (hdpc : s.sys.dpc = .serve i .poll) {st' : Stage}
    (hto : st'.steady = true)
    (hrun : st' = .preempt → (s.sys.cpu i).data.response.flag = .running) :
    ∃ w', (policyObserver i).accept w [.read i (s.sys.cpu i).data.response.flag] = some w' ∧
      Policed i w' (s.served i (s.sys.cpu i).data s.sys.tskq st' s.slices) := by
  refine ⟨w.next i (.read i (s.sys.cpu i).data.response.flag), ?_, ?_⟩
  · rw [Observer.accept_singleton, policy_next (by simp)]
  · have hstage : stageOf s.sys.dpc i = .poll := by simp [hdpc, stageOf]
    apply hp.serve hdpc
    · simp [Watch.next]
    · exact hp.short
    · intro _ hc
      obtain ⟨hunused, hrest⟩ := hp.armed (by rw [hstage]; rfl) hc
      exact ⟨by simpa [Watch.next] using hunused, by simpa [Watch.next] using hrest⟩
    · rintro t (rfl | rfl) <;> simp [Stage.steady] at hto
    · intro h
      simpa [Watch.next] using hrun h

theorem policed_dispatch (hp : Policed i w s) {t : Task}
    (hdpc : s.sys.dpc = .serve i (.setActive t)) {c : PerCpu} {q : List Task}
    (hstamp : c.shinjukuTimestamp = (s.sys.cpu i).data.shinjukuTimestamp) :
    ∃ w', (policyObserver i).accept w [.sched (.dispatch i t)] = some w' ∧
      Policed i w' (s.served i c q .done (slicesNext s.now s.slices (.dispatch i t))) := by
  have hstage : stageOf s.sys.dpc i = .setActive t := by simp [hdpc, stageOf]
  obtain ⟨hnow, htime⟩ := hp.clock (by simp [hdpc, DispatcherPc.inLoop])
  refine ⟨w.next i (.sched (.dispatch i t)), ?_, ?_⟩
  · rw [Observer.accept_singleton, policy_next (by simp)]
  · apply hp.serve hdpc
    · simp [Watch.next]
    · exact short_next hp.short
    · intro _ _
      refine ⟨by simp [Watch.next], s.now, by simp [Watch.next, hnow], ?_, by simp [slicesNext]⟩
      rw [hstamp, hp.stamped t (.inr hstage), htime]
    · simp
    · simp

/-- The wrapped difference is exact while a time slice is short. -/
theorem sub_ofNat_of_lt {start now : Nat} (hle : start ≤ now) (hlt : now - start < 2 ^ 64) :
    (UInt64.ofNat now - UInt64.ofNat start).toNat = now - start := by
  rw [UInt64.toNat_sub, UInt64.toNat_ofNat', UInt64.toNat_ofNat']
  omega

theorem policed_preempt (hp : Policed i w s) (hdpc : s.sys.dpc = .serve i .preempt)
    {r : PerCpu × List Event}
    (hr : preemptWorker i s.sys.curTime (s.sys.cpu i).data = r) (q : List Task) :
    ∃ w', (policyObserver i).accept w (r.2.map .sched) = some w' ∧
      Policed i w' (s.served i r.1 q .done (r.2.foldl (slicesNext s.now) s.slices)) := by
  have hstage : stageOf s.sys.dpc i = .preempt := by simp [hdpc, stageOf]
  have hsteady : (stageOf s.sys.dpc i).steady = true := by rw [hstage]; rfl
  unfold preemptWorker at hr
  split at hr
  next hlate =>
    obtain ⟨hcheck, hdelay⟩ := hlate
    subst hr
    obtain ⟨hnow, htime⟩ := hp.clock (by simp [hdpc, DispatcherPc.inLoop])
    obtain ⟨hunused, start, hstart, hstamp, hmem⟩ := hp.armed hsteady hcheck
    obtain ⟨hle, hlt⟩ := hp.short _ hmem
    have hjust : w.Justified := by
      refine ⟨hunused, hp.saw hstage, start, s.now, hstart, hnow, sub_ofNat_of_lt hle hlt, ?_⟩
      rw [htime, hstamp] at hdelay
      exact hdelay
    refine ⟨w.next i (.sched (.ipi i)), ?_, ?_⟩
    · rw [List.map_singleton, Observer.accept_singleton, policy_ipi hjust]
    · apply hp.serve hdpc
      · simp [Watch.next]
      · exact hp.short
      · simp
      · simp
      · simp
  · subst hr
    exact ⟨w, rfl, policed_quiet hp hdpc rfl rfl rfl rfl (by simp)⟩

/-- An event that moves the task of CPU `i` without an IPI or a dispatch. -/
theorem policy_task {ev : Event} (hipi : ev ≠ .ipi i) (hdispatch : ∀ t, ev ≠ .dispatch i t) :
    (policyObserver i).accept w [.sched ev] = some w := by
  rw [Observer.accept_singleton, policy_next (by simpa using hipi)]
  cases ev <;> simp_all [Watch.next]

theorem readings_of_ne_poll (hdpc : s.sys.dpc = .serve i st) (hst : st ≠ .poll) (t : Nat) :
    readings s.sys t = [] := by
  cases st <;> simp_all [readings]

/-- A stage after which the entry is as it was and nobody is named. -/
theorem policed_own_quiet {c : PerCpu} {q : List Task} {st' : Stage} (hp : Policed i w s)
    (hdpc : s.sys.dpc = .serve i st) (hst : st.steady = true)
    (hstamp : c.shinjukuTimestamp = (s.sys.cpu i).data.shinjukuTimestamp)
    (hcheck : c.preemptCheck = (s.sys.cpu i).data.preemptCheck)
    (hto : st'.steady = true) (hne : st' ≠ .preempt) :
    ∃ w', (policyObserver i).accept w [] = some w' ∧ Policed i w' (s.served i c q st' s.slices) :=
  ⟨w, rfl, policed_quiet hp hdpc hst hstamp hcheck hto hne⟩

/-- The stages at which the flag is not read. -/
theorem policed_own_step (hp : Policed i w s) (hdpc : s.sys.dpc = .serve i st)
    (hst : st ≠ .poll) {r : PerCpu × List Task × Stage × List Event}
    (hr : serveStep i s.sys.curTime (s.sys.cpu i).data s.sys.tskq st = r) :
    ∃ w', (policyObserver i).accept w (r.2.2.2.map .sched) = some w' ∧
      Policed i w' (s.served i r.1 r.2.1 r.2.2.1
        (r.2.2.2.foldl (slicesNext s.now) s.slices)) := by
  subst hr
  have hstage : stageOf s.sys.dpc i = st := by simp [hdpc, stageOf]
  cases st with
  | poll => exact absurd rfl hst
  | finFree =>
    simp only [serveStep]
    exact ⟨w, policy_task (by simp) (by simp), policed_quiet hp hdpc rfl rfl rfl rfl (by simp)⟩
  | finConsume =>
    simp only [serveStep, List.foldl_cons, List.foldl_nil]
    refine ⟨w, policy_task (by simp) (by simp), ?_⟩
    exact hp.serve hdpc rfl (short_next hp.short) (by simp [Stage.steady]) (by simp) (by simp)
  | finCheck | preCheck =>
    simp only [serveStep]
    exact ⟨w, rfl, hp.serve hdpc rfl hp.short (by simp) (by simp) (by simp)⟩
  | copy todo u =>
    cases todo with
    | nil =>
      simp only [serveStep, List.foldl_cons, List.foldl_nil]
      refine ⟨w, policy_task (by simp) (by simp), ?_⟩
      exact hp.serve hdpc rfl (short_next hp.short) (by simp [Stage.steady]) (by simp) (by simp)
    | cons f todo => exact policed_own_quiet hp hdpc rfl rfl rfl rfl (by simp [serveStep])
  | out =>
    cases hq : s.sys.tskq with
    | nil =>
      simp only [serveStep]
      exact policed_own_quiet hp hdpc rfl rfl rfl rfl (by simp)
    | cons u q =>
      simp only [serveStep]
      exact ⟨w, policy_task (by simp) (by simp),
        policed_quiet hp hdpc rfl rfl rfl rfl (by simp)⟩
  | fill todo u =>
    cases todo with
    | nil => exact policed_own_quiet hp hdpc rfl rfl rfl rfl (by simp [serveStep])
    | cons f todo => exact policed_own_quiet hp hdpc rfl rfl rfl rfl (by simp [serveStep])
  | setStamp u =>
    simp only [serveStep]
    exact ⟨w, rfl, hp.serve hdpc rfl hp.short (by simp [Stage.steady]) (by simp) (by simp)⟩
  | setCheck u =>
    simp only [serveStep]
    refine ⟨w, rfl, hp.serve hdpc rfl hp.short (by simp [Stage.steady]) ?_ (by simp)⟩
    intro _ _
    exact hp.stamped u (.inl hstage)
  | setActive u => exact policed_dispatch hp hdpc rfl
  | preempt => exact policed_preempt hp hdpc rfl s.sys.tskq
  | isFinished | isPreempted | bugOn u =>
    apply policed_own_quiet hp hdpc rfl rfl rfl
    · simp only [serveStep]
      split <;> rfl
    · simp only [serveStep]
      split <;> simp
  | finFlag | preFlag | setRunning u | done | bug =>
    exact policed_own_quiet hp hdpc rfl rfl rfl rfl (by simp [serveStep])

theorem policed_own {r : PerCpu × List Task × Stage × List Event} (hp : Policed i w s)
    (hdpc : s.sys.dpc = .serve i st)
    (hr : serveStep i s.sys.curTime (s.sys.cpu i).data s.sys.tskq st = r) (t : Nat) :
    ∃ w', (policyObserver i).accept w (readings s.sys t ++ r.2.2.2.map .sched) = some w' ∧
      Policed i w' (s.served i r.1 r.2.1 r.2.2.1
        (r.2.2.2.foldl (slicesNext s.now) s.slices)) := by
  by_cases hst : st = .poll
  · subst hst hr
    simp only [readings, hdpc, serveStep, List.map_nil, List.append_nil]
    apply policed_poll hp hdpc
    · split <;> rfl
    · split
      · simp
      next hflag => simpa using hflag
  · rw [readings_of_ne_poll hdpc hst, List.nil_append]
    exact policed_own_step hp hdpc hst hr

end Serve

section Run
variable {n i : Nat} {w : Watch} {s t : Clocked} {evs : List ClockEvent}

/-- A step of `handle_worker` for another CPU. -/
theorem policed_other {k : Nat} {st : Stage} {r : PerCpu × List Task × Stage × List Event}
    (hp : Policed i w s) (hdpc : s.sys.dpc = .serve k st) (hne : k ≠ i)
    (hr : serveStep k s.sys.curTime (s.sys.cpu k).data s.sys.tskq st = r) (time : Nat) :
    ∃ w', (policyObserver i).accept w (readings s.sys time ++ r.2.2.2.map .sched) = some w' ∧
      Policed i w' (s.served k r.1 r.2.1 r.2.2.1
        (r.2.2.2.foldl (slicesNext s.now) s.slices)) := by
  have hread : (policyObserver i).accept w (readings s.sys time) = some w := by
    apply Observer.accept_const
    intro ev hev
    cases st <;> simp [readings, hdpc] at hev
    subst hev
    rw [policy_next (by simp)]
    simp [Watch.next, hne]
  have hgoto : Policed i w (s.served k r.1 r.2.1 r.2.2.1 s.slices) := by
    apply policed_goto hp
    · simp [Sys.setCpu, hne.symm]
    · simp [hdpc, stageOf, hne]
    · simp [stageOf, hne]
    · simp [DispatcherPc.booting]
    · intro _
      exact hp.clock (by simp [hdpc, DispatcherPc.inLoop])
  have hevent := serveStep_event k s.sys.curTime (s.sys.cpu k).data s.sys.tskq st
  rw [hr] at hevent
  rcases hevent with he | ⟨ev, he, hw, -⟩
  · rw [he]
    exact ⟨w, by simpa using hread, hgoto⟩
  · have hother : ev.worker ≠ some i := by simp [hw, hne]
    obtain ⟨w', hacc, hp'⟩ := policed_event hgoto hother hp
    rw [he]
    exact ⟨w', Observer.accept_append_iff.mpr ⟨w, hread, hacc⟩, hp'⟩

theorem policed_loop {v : Env} {time : Nat} (hp : Policed i w s) (hdpc : s.sys.dpc = .loop)
    (hok : SlicesShort s (.disp v time)) :
    ∃ w', (policyObserver i).accept w (readings s.sys time) = some w' ∧
      Policed i w' ⟨{ s.sys with curTime := UInt64.ofNat time, dpc := sweepFrom n 0 }, time,
        s.slices⟩ := by
  obtain ⟨hle, hshort⟩ := hok hdpc
  refine ⟨w.next i (.iter time), ?_, ?_⟩
  · simp only [readings, hdpc]
    rw [Observer.accept_singleton, policy_next (by simp)]
  · have hstage := stageOf_sweepFrom n 0 i
    constructor
    · intro h
      unfold sweepFrom at h
      split at h <;> simp [DispatcherPc.booting] at h
    · intro _
      exact ⟨rfl, rfl⟩
    · intro p hmem
      exact ⟨(hp.short p hmem).1.trans hle, hshort p hmem⟩
    · intro _ hcheck
      obtain ⟨hunused, hrunning⟩ := hp.armed (by simp [hdpc, stageOf, Stage.steady]) hcheck
      exact ⟨hunused, hrunning⟩
    · intro u hu
      rcases hstage with h | h <;> simp [h] at hu
    · intro hu
      rcases hstage with h | h <;> simp [h] at hu

theorem policed_net {v : Env} {k time : Nat} {r : List Task × Bool × List Event}
    (hp : Policed i w s) (hdpc : s.sys.dpc = .net k)
    (hr : networkerRound s.sys.curTime v.packet v.cont k s.sys.tskq = r) :
    ∃ w', (policyObserver i).accept w (readings s.sys time ++ r.2.2.map .sched) = some w' ∧
      Policed i w' ⟨{ s.sys with tskq := r.1, dpc := if r.2.1 then .net (k - 1) else .loop },
        s.now, r.2.2.foldl (slicesNext s.now) s.slices⟩ := by
  have hgoto : Policed i w { s with sys :=
      { s.sys with tskq := r.1, dpc := if r.2.1 then .net (k - 1) else .loop } } := by
    apply policed_goto hp
    · rfl
    · simp [hdpc, stageOf]
    · cases r.2.1 <;> exact .inl rfl
    · cases r.2.1 <;> simp [DispatcherPc.booting]
    · intro _
      exact hp.clock (by simp [hdpc, DispatcherPc.inLoop])
  have hread : readings s.sys time = [] := by simp [readings, hdpc]
  have hevent := networkerRound_event s.sys.curTime v.packet v.cont k s.sys.tskq
  rw [hr] at hevent
  rw [hread]
  rcases hevent with he | ⟨ev, he, -, hw, -⟩
  · rw [he]
    exact ⟨w, rfl, hgoto⟩
  · rw [he]
    exact policed_event hgoto (by simp [hw]) hp

/-- The steps that read nothing and emit nothing. -/
theorem policed_silent {u : Sys} (hread : ∀ time, readings s.sys time = []) (time : Nat)
    (hp : Policed i w { s with sys := u }) :
    ∃ w', (policyObserver i).accept w (readings s.sys time ++ ([] : List Event).map .sched) =
      some w' ∧ Policed i w' { s with sys := u } := by
  rw [hread]
  exact ⟨w, rfl, hp⟩

theorem policed_reset {f : PerCpu → PerCpu} {dpc : DispatcherPc} (hp : Policed i w s)
    (hfrom : s.sys.dpc.booting = true)
    (hf : ∀ c, c.preemptCheck = false → (f c).preemptCheck = false)
    (hto : stageOf dpc i = .done) (hloop : dpc.inLoop = false) :
    Policed i w { s with sys := { s.sys.mapData f with dpc := dpc } } := by
  have hidle : ((s.sys.mapData f).cpu i).data.preemptCheck = false := hf _ (hp.idle hfrom)
  constructor
  · exact fun _ => hidle
  · simp [hloop]
  · exact hp.short
  · intro _ hcheck
    simp [hidle] at hcheck
  · simp [hto]
  · simp [hto]

theorem policed_disp {v : Env} {time : Nat} (hp : Policed i w s)
    (hok : SlicesShort s (.disp v time))
    (h : clockedStep n s (.disp v time) = some (t, evs)) :
    ∃ w', (policyObserver i).accept w evs = some w' ∧ Policed i w' t := by
  obtain ⟨u, es, hmove, rfl, rfl⟩ := clockedStep_disp h
  cases hmove with
  | start hdpc =>
    simp only [hdpc, reduceCtorEq, if_false, List.foldl_nil]
    apply policed_silent (by simp [readings, hdpc])
    apply policed_goto hp
    · rfl
    · simp [hdpc, stageOf]
    · split <;> exact .inl rfl
    · simp [hdpc, DispatcherPc.booting]
    · split <;> simp [DispatcherPc.inLoop]
  | @create k hdpc hk =>
    simp only [hdpc, reduceCtorEq, if_false, List.foldl_nil]
    apply policed_silent (by simp [readings, hdpc])
    apply policed_goto hp
    · rcases eq_or_ne i k with rfl | hne
      · simp [Sys.setCpu]
      · simp [Sys.setCpu, hne]
    · simp [hdpc, stageOf]
    · simp [stageOf]
    · simp [hdpc, DispatcherPc.booting]
    · simp [DispatcherPc.inLoop]
  | endCreate hdpc hto =>
    simp only [hdpc, reduceCtorEq, if_false, List.foldl_nil]
    apply policed_silent (by simp [readings, hdpc])
    apply policed_goto hp
    · rfl
    · simp [hdpc, stageOf]
    · rcases hto with rfl | rfl <;> exact .inl rfl
    · simp [hdpc, DispatcherPc.booting]
    · rcases hto with rfl | rfl <;> simp [DispatcherPc.inLoop]
  | timestamps hdpc | checks hdpc =>
    simp only [hdpc, reduceCtorEq, if_false, List.foldl_nil]
    apply policed_silent (by simp [readings, hdpc])
    apply policed_reset hp
    · simp [hdpc, DispatcherPc.booting]
    · simp
    · rfl
    · rfl
  | loop hdpc =>
    simp only [hdpc, if_true, List.foldl_nil, List.map_nil, List.append_nil]
    exact policed_loop hp hdpc hok
  | @next k hdpc =>
    simp only [hdpc, reduceCtorEq, if_false, List.foldl_nil]
    apply policed_silent (by simp [readings, hdpc])
    apply policed_goto hp
    · rfl
    · rcases eq_or_ne k i with rfl | hne
      · simp [hdpc, stageOf]
      · simp [hdpc, stageOf, hne]
    · exact (stageOf_sweepFrom n (k + 1) i).symm
    · unfold sweepFrom
      split <;> simp [DispatcherPc.booting]
    · intro _
      exact hp.clock (by simp [hdpc, DispatcherPc.inLoop])
  | @serve k st r hdpc hr =>
    simp only [hdpc, reduceCtorEq, if_false]
    rcases eq_or_ne k i with rfl | hne
    · exact policed_own hp hdpc hr time
    · exact policed_other hp hdpc hne hr time
  | @net k r hdpc hr =>
    simp only [hdpc, reduceCtorEq, if_false]
    exact policed_net hp hdpc hr

theorem policed_worker {k : Nat} {c : Core} (hp : Policed i w s) :
    Policed i w { s with sys := s.sys.anyWorker k c } := by
  have hcpu : ((s.sys.anyWorker k c).cpu i).data.preemptCheck =
        (s.sys.cpu i).data.preemptCheck ∧
      ((s.sys.anyWorker k c).cpu i).data.shinjukuTimestamp =
        (s.sys.cpu i).data.shinjukuTimestamp := by
    rcases eq_or_ne i k with rfl | hne
    · simp [Sys.anyWorker, Sys.setCpu]
    · simp [Sys.anyWorker, Sys.setCpu, hne]
  obtain ⟨hcheck, hstamp⟩ := hcpu
  constructor
  · intro h
    rw [hcheck]
    exact hp.idle h
  · exact hp.clock
  · exact hp.short
  · intro hsteady h
    rw [hcheck] at h
    rw [hstamp]
    exact hp.armed hsteady h
  · intro u hu
    rw [hstamp]
    exact hp.stamped u hu
  · exact hp.saw

theorem policed_step {act : ClockAct} (hp : Policed i w s) (hok : SlicesShort s act)
    (h : clockedStep n s act = some (t, evs)) :
    ∃ w', (policyObserver i).accept w evs = some w' ∧ Policed i w' t := by
  cases act with
  | disp v time => exact policed_disp hp hok h
  | worker k c =>
    obtain ⟨rfl, rfl⟩ := by simpa [clockedStep] using h
    exact ⟨w, rfl, policed_worker hp⟩

end Run

theorem watch_of_accept {i : Nat} {tr : List ClockEvent} {w : Watch}
    (h : (policyObserver i).accept {} tr = some w) : w = watch i tr := by
  apply Observer.accept_foldl _ h
  intro w ev w' hnext
  simp only [policyObserver] at hnext
  split at hnext
  · simp at hnext
  · exact (Option.some.inj hnext).symm

/-- For workers that do what they like and a counter that advances by less than `2 ^ 64`
during a time slice: every IPI to a CPU is the first since the last dispatch to it, is sent
in an iteration that has read `RUNNING` in its response, and is sent more than
`PREEMPTION_DELAY` cycles after that dispatch, which the 64-bit difference counts exactly. -/
theorem preemption_policy {n : Nat} {tr : List ClockEvent} {s : Clocked}
    (h : Runs (clocked n) SlicesShort Clocked.init tr s) {i : Nat} {pre post : List ClockEvent}
    (htr : tr = pre ++ .sched (.ipi i) :: post) : (watch i pre).Justified := by
  obtain ⟨w, hacc, -⟩ := Runs.simulates (O := policyObserver i) (R := Policed i)
    (policed_init i) (fun hp hok hstep => policed_step hp hok hstep) h
  subst htr
  obtain ⟨c, d, hc, hd⟩ := Observer.accept_split hacc
  rw [← watch_of_accept hc]
  by_contra hnot
  simp [policyObserver, hnot] at hd

/-- Five CPUs. The low 64 bits of the counter wrap between the dispatch to CPU 2 and the
next iteration, which sends the IPI. -/
def lateTask : List ClockAct :=
  let wait (t : Nat) k := List.replicate k (ClockAct.disp {} t)
  wait 0 7 ++ [ClockAct.worker 2 { data := { response := { flag := .processed } } }] ++
    wait 10 12 ++ [ClockAct.disp { packet := 0x8000, cont := some 0x1000 } 10] ++
    wait (2 ^ 64 - 16) 24 ++ wait (2 ^ 64 + 9984) 10

theorem preemption_policy_lateTask :
    ∃ tr s pre post, Runs (clocked 5) SlicesShort Clocked.init tr s ∧
      tr = pre ++ .sched (.ipi 2) :: post ∧ (watch 2 pre).Justified := by
  obtain ⟨tr, s, hrun, hend⟩ := Machine.exec_reaches (clocked 5) SlicesShort Clocked.init
    lateTask (fun tr _ => .sched (.ipi 2) ∈ tr) (by decide)
  obtain ⟨pre, post, htr⟩ := List.append_of_mem (of_decide_eq_true hend)
  exact ⟨tr, s, pre, post, hrun, htr, preemption_policy hrun htr⟩

end ThletEvaluation.Shinjuku
