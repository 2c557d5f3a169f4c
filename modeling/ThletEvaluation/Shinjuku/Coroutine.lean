import ThletEvaluation.Shinjuku.Interleaving

/-!
# Tasks as coroutines

The system of `Interleaving` with the body of a task made explicit. A CPU executes the
`do_work` loop of some worker or `generic_work` of some task, and `swapcontext_very_fast`
moves it from one to the other: it saves what the CPU executes in one `kcontext_t` and
goes on with what the other one holds. `generic_work` reads `smp_processor_id` once, at
its entry, and keeps the pointers it derives from it in local variables, which survive
the swaps.

An IPI is a message that its CPU receives at any later moment. The argument that
`generic_work` is entered with is left to the outside.
-/

namespace ThletEvaluation.Shinjuku

open Run

set_option autoImplicit false

/-- The local variables of `generic_work`; `uctxMain` is the CPU whose `ctx_main` the
pointer addresses. -/
structure Frame where
  i : Nat := 0
  data : Nat
  worker : Nat
  cont : Addr
  uctxMain : Nat
  deriving DecidableEq

inductive TaskPc where
  | body
  | test
  deriving DecidableEq

inductive Saved where
  | garbage
  /-- `make_kcontext` has prepared it for `generic_work`. -/
  | entry (data : Nat)
  | yielded (f : Frame)
  /-- Saved by the last swap of `generic_work`, after which there is no code. -/
  | ended
  deriving DecidableEq

inductive Flow where
  | absent
  | thread (w : Nat) (pc : WorkerPc)
  | entry (data : Nat)
  | task (f : Frame) (pc : TaskPc)
  | crashed
  deriving DecidableEq

/-- The program counters of `sys` only record which threads exist; what a thread does
next is in the `flow` of the CPU that executes it. -/
structure CoSys where
  sys : Sys
  flow : Nat → Flow
  /-- The worker whose `do_work` loop was last saved in `ctx_main` of a CPU. -/
  ctxMain : Nat → Option Nat
  ctx : Addr → Saved
  ipi : Nat → Bool

/-- `ctx_worker` starts as `cw`, which is zero in the code. -/
def CoSys.init (cw : Nat → Addr) : CoSys where
  sys := { Sys.init with cpu := fun i => { data := { ctxWorker := cw i } } }
  flow := fun _ => .absent
  ctxMain := fun _ => none
  ctx := fun _ => .garbage
  ipi := fun _ => false

inductive CoAct where
  | disp (v : Env)
  /-- CPU `p` makes one step; `data` is the argument a new task gets. -/
  | exec (p : Nat) (data : Nat)
  | irq (p : Nat)
  deriving DecidableEq

inductive CoEvent where
  | sched (ev : Event)
  /-- CPU `p` reads `worker_preempted` of CPU `w` in `generic_work`. -/
  | check (p w : Nat)
  /-- CPU `p` leaves `generic_work` for `ctx_main` of CPU `m`. -/
  | leave (p m : Nat)
  deriving DecidableEq

def Saved.resume : Saved → Flow
  | .garbage | .ended => .crashed
  | .entry data => .entry data
  | .yielded f => .task f .test

def Saved.isYielded : Saved → Bool
  | .yielded _ => true
  | _ => false

/-- Go on with what `ctx_main` of a CPU holds: the return from the swap in
`handle_new_packet` or `handle_context`. -/
def CoSys.resumeMain (s : CoSys) (m : Nat) : Flow :=
  match s.ctxMain m with
  | none => .crashed
  | some w => .thread w .finish

def CoSys.goto (s : CoSys) (p : Nat) (f : Flow) : CoSys :=
  { s with flow := Function.update s.flow p f }

def CoSys.setData (s : CoSys) (i : Nat) (c : PerCpu) : CoSys :=
  { s with sys := s.sys.setCpu i { s.sys.cpu i with data := c } }

def threadStep (p w data : Nat) (pc : WorkerPc) (s : CoSys) : Option (CoSys × List CoEvent) :=
  match workerStep w false (s.sys.cpu w).data pc with
  | none => none
  | some (c, pc', es) =>
    let s' := s.setData w c
    let s'' :=
      match pc with
      | .newFinished cont =>
        { s'.goto p (.thread w pc') with ctx := Function.update s.ctx cont (.entry data) }
      | .newSwap cont =>
        { s'.goto p (s.ctx cont).resume with ctxMain := Function.update s.ctxMain w (some w) }
      | .ctxSwap =>
        { s'.goto p (s.ctx c.ctxWorker).resume with
          ctxMain := Function.update s.ctxMain w (some w) }
      | _ => s'.goto p (.thread w pc')
    some (s'', es.map .sched)

/-- `swapcontext_very_fast(cont, uctx_main)` in `generic_work`. -/
def leaveTask (p : Nat) (f : Frame) (saved : Saved) (s : CoSys) : CoSys :=
  { s.goto p (s.resumeMain f.uctxMain) with ctx := Function.update s.ctx f.cont saved }

def taskStep (p : Nat) (f : Frame) (pc : TaskPc) (s : CoSys) : CoSys × List CoEvent :=
  match pc with
  | .body =>
    let f' := { f with i := f.i + 1 }
    let c := (s.sys.cpu f.worker).data
    if c.workerPreempted then
      let s' := s.setData f.worker { c with workerPreempted := false }
      (leaveTask p f' (.yielded f') s', [.check p f.worker, .leave p f.uctxMain])
    else (s.goto p (.task f' .test), [.check p f.worker])
  | .test =>
    if f.i < f.data then (s.goto p (.task f .body), [])
    else
      -- smp_processor_id is read again here
      let s' := s.setData p { (s.sys.cpu p).data with finished := true }
      (leaveTask p f .ended s', [.leave p f.uctxMain])

def coStep (n : Nat) (s : CoSys) : CoAct → Option (CoSys × List CoEvent)
  | .disp v =>
    match dispatcherStep n v s.sys with
    | none => none
    | some (t, es) =>
      let flow :=
        match s.sys.dpc with
        | .create k =>
          if k < n ∧ v.created = true then Function.update s.flow k (.thread k .initActive)
          else s.flow
        | _ => s.flow
      some ({ s with
        sys := t
        flow := flow
        ipi := fun i => s.ipi i || decide (.ipi i ∈ es) }, es.map .sched)
  | .exec p data =>
    match s.flow p with
    | .absent | .crashed => none
    | .thread w pc => threadStep p w data pc s
    | .entry data =>
      if 100000 ≤ data then some (s.goto p .crashed, [])
      else
        let cont := (s.sys.cpu p).data.ctxWorker
        let f : Frame := { data := data, worker := p, cont := cont, uctxMain := p }
        some (s.goto p (.task f .body), [])
    | .task f pc => some (taskStep p f pc s)
  | .irq p =>
    -- worker_ipi_handler
    if s.ipi p then
      let s' := s.setData p { (s.sys.cpu p).data with workerPreempted := true }
      some ({ s' with ipi := Function.update s.ipi p false }, [])
    else none

def coMachine (n : Nat) : Machine CoSys CoAct CoEvent := ⟨coStep n⟩

/-- A step of the dispatcher at most creates threads. -/
theorem coStep_disp {n : Nat} {v : Env} {s t : CoSys} {es : List CoEvent}
    (h : coStep n s (.disp v) = some (t, es)) :
    ∃ u evs, dispatcherStep n v s.sys = some (u, evs) ∧ es = evs.map .sched ∧ t.sys = u ∧
      t.ctxMain = s.ctxMain ∧ t.ctx = s.ctx ∧
      t.ipi = (fun i => s.ipi i || decide (.ipi i ∈ evs)) ∧
      ∀ p, t.flow p = s.flow p ∨ t.flow p = .thread p .initActive := by
  simp only [coStep] at h
  split at h
  · simp at h
  next u evs hdisp =>
    obtain ⟨rfl, rfl⟩ := by simpa using h
    refine ⟨u, evs, hdisp, rfl, rfl, rfl, rfl, rfl, ?_⟩
    intro p
    cases hdpc : s.sys.dpc with
    | create k =>
      dsimp only
      split
      · rcases eq_or_ne p k with rfl | hne
        · exact .inr (by simp)
        · exact .inl (by simp [hne])
      · exact .inl rfl
    | _ => exact .inl rfl

/-- A step of a thread stores to the data of its worker and sends no IPI. -/
theorem threadStep_data {p w data : Nat} {pc : WorkerPc} {s t : CoSys} {es : List CoEvent}
    (h : threadStep p w data pc s = some (t, es)) :
    ∃ c pc' evs, workerStep w false (s.sys.cpu w).data pc = some (c, pc', evs) ∧
      es = evs.map .sched ∧ t.sys = (s.setData w c).sys ∧ t.ipi = s.ipi := by
  unfold threadStep at h
  split at h
  · simp at h
  next c pc' evs hwork =>
    obtain ⟨rfl, rfl⟩ := Prod.mk.inj (Option.some.inj h)
    refine ⟨c, pc', evs, hwork, rfl, ?_⟩
    cases pc <;> exact ⟨rfl, rfl⟩

theorem coStep_irq {n p : Nat} {s t : CoSys} {es : List CoEvent}
    (h : coStep n s (.irq p) = some (t, es)) :
    s.ipi p = true ∧ es = [] ∧
      t = { s.setData p { (s.sys.cpu p).data with workerPreempted := true } with
        ipi := Function.update s.ipi p false } := by
  simp only [coStep] at h
  split at h
  next hipi =>
    obtain ⟨rfl, rfl⟩ := by simpa using h
    exact ⟨hipi, rfl, rfl⟩
  · simp at h

end ThletEvaluation.Shinjuku
