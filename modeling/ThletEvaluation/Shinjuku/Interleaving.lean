import ThletEvaluation.Lib.Run
import ThletEvaluation.Shinjuku.Dispatcher

/-!
# The dispatcher and the workers, one load or store at a time

`do_dispatching` and every `do_work` thread run as sequentially consistent processes
over the per-CPU variables. A step is one load or store of a word that the two sides
share; what only one side touches (the queue, `shinjuku_timestamps`, `preempt_check`,
the pools) is handled in the step that uses it. The body of a task is left open: after
the swap into it control comes back, at some later step, to `finish_request` of the
same worker with `finished` set or not.
-/

namespace ThletEvaluation.Shinjuku

open Run

set_option autoImplicit false

inductive Field where
  | rnbl
  | mbuf
  | timestamp
  | type
  | category
  deriving DecidableEq

def Field.copy (f : Field) (src dst : Task) : Task :=
  match f with
  | .rnbl => { dst with rnbl := src.rnbl }
  | .mbuf => { dst with mbuf := src.mbuf }
  | .timestamp => { dst with timestamp := src.timestamp }
  | .type => { dst with type := src.type }
  | .category => { dst with category := src.category }

/-- Where `handle_worker` of one worker stands: the next access it makes. -/
inductive Stage where
  | poll
  | isFinished
  | isPreempted
  | finFree
  | finConsume
  | finCheck
  | finFlag
  /-- `kfifo_in` reads the response; the last of these steps stores the record. -/
  | copy (todo : List Field) (t : Task)
  | preCheck
  | preFlag
  | out
  | bugOn (t : Task)
  | setRunning (t : Task)
  | fill (todo : List Field) (t : Task)
  | setStamp (t : Task)
  | setCheck (t : Task)
  | setActive (t : Task)
  | preempt
  | done
  /-- The `BUG_ON` of `dispatch_request` was hit. -/
  | bug
  deriving DecidableEq

def responseFields : List Field := [.rnbl, .mbuf, .timestamp, .type, .category]

/-- The order of the stores of `dispatch_request`. -/
def requestFields : List Field := [.rnbl, .mbuf, .type, .category, .timestamp]

def serveStep (i : Nat) (curTime : UInt64) (c : PerCpu) (q : List Task) :
    Stage → PerCpu × List Task × Stage × List Event
  | .poll => (c, q, if c.response.flag ≠ .running then .isFinished else .preempt, [])
  | .isFinished => (c, q, if c.response.flag = .finished then .finFree else .isPreempted, [])
  | .isPreempted =>
    (c, q, if c.response.flag = .preempted then .copy responseFields {} else .out, [])
  -- handle_finished
  | .finFree => (c, q, .finConsume, [.contextFree i c.response.rnbl])
  | .finConsume => (c, q, .finCheck, [.consumeSkb i c.response.mbuf])
  | .finCheck => ({ c with preemptCheck := false }, q, .finFlag, [])
  | .finFlag => (c.setResponseFlag .processed, q, .out, [])
  -- handle_preempted, which ignores the result of kfifo_in
  | .copy (f :: todo) t => (c, q, .copy todo (f.copy c.response.toTask t), [])
  | .copy [] t => (c, (kfifoIn q t).1, .preCheck, [.requeue i t (kfifoIn q t).2])
  | .preCheck => ({ c with preemptCheck := false }, q, .preFlag, [])
  | .preFlag => (c.setResponseFlag .processed, q, .out, [])
  -- dispatch_request
  | .out =>
    match q with
    | [] => (c, [], .done, [])
    | t :: q => (c, q, .bugOn t, [.pop i t])
  | .bugOn t => (c, q, if c.request.flag ≠ .waiting then .bug else .setRunning t, [])
  | .setRunning t =>
    (c.setResponseFlag .running, q, .fill requestFields { t with timestamp := curTime }, [])
  | .fill (f :: todo) t =>
    ({ c with request := { c.request with toTask := f.copy t c.request.toTask } }, q,
      .fill todo t, [])
  | .fill [] t => (c, q, .setStamp t, [])
  | .setStamp t => ({ c with shinjukuTimestamp := curTime }, q, .setCheck t, [])
  | .setCheck t => ({ c with preemptCheck := true }, q, .setActive t, [])
  | .setActive t => (c.setRequestFlag .active, q, .done, [.dispatch i t])
  | .preempt => ((preemptWorker i curTime c).1, q, .done, (preemptWorker i curTime c).2)
  | .done => (c, q, .done, [])
  | .bug => (c, q, .bug, [])

inductive WorkerPc where
  | unborn
  | initActive
  | initPreempted
  | initFlag
  | spin
  | reset
  | category
  | newParse
  | newRnbl
  | newFinished (cont : Addr)
  | newSwap (cont : Addr)
  | ctxFinished
  | ctxRnbl
  | ctxStore (rnbl : Addr)
  | ctxSwap
  | body
  | finish
  | load (todo : List Field) (cont : Addr)
  | store (f : Field) (reg : Task) (todo : List Field) (cont : Addr)
  | publish (fin : Bool)
  deriving DecidableEq

/-- The order of the stores of `finish_request`. -/
def finishFields : List Field := [.timestamp, .type, .mbuf, .rnbl, .category]

/-- One step of worker `i`. `fin` is how the task's slice ends, read in `body` only.
A thread that was not created has no step. -/
def workerStep (i : Nat) (fin : Bool) (c : PerCpu) :
    WorkerPc → Option (PerCpu × WorkerPc × List Event)
  | .unborn => none
  -- init_worker
  | .initActive => some ({ c with workerActive := true }, .initPreempted, [])
  | .initPreempted => some ({ c with workerPreempted := false }, .initFlag, [])
  | .initFlag => some (c.setResponseFlag .processed, .spin, [])
  -- handle_request
  | .spin => some (c, if c.request.flag = .waiting then .spin else .reset, [])
  | .reset =>
    some (c.setRequestFlag .waiting, .category, [.take i c.request.toTask c.ctxWorker])
  | .category =>
    if c.request.category = .packet then some (c, .newParse, [.handle i true])
    else some (c, .ctxFinished, [.handle i false])
  -- handle_new_packet keeps the context in a local variable
  | .newParse => some (c, .newRnbl, [])
  | .newRnbl => some (c, .newFinished c.request.rnbl, [])
  | .newFinished cont => some ({ c with finished := false }, .newSwap cont, [])
  | .newSwap cont => some (c, .body, [.swapIn i cont])
  -- handle_context keeps it in ctx_worker
  | .ctxFinished => some ({ c with finished := false }, .ctxRnbl, [])
  | .ctxRnbl => some (c, .ctxStore c.request.rnbl, [])
  | .ctxStore rnbl => some ({ c with ctxWorker := rnbl }, .ctxSwap, [])
  | .ctxSwap => some (c, .body, [.swapIn i c.ctxWorker])
  | .body => some ({ c with finished := fin }, .finish, [])
  -- finish_request
  | .finish => some (c, .load finishFields c.ctxWorker, [])
  | .load (f :: todo) cont =>
    -- only field `f` of the register is stored
    let reg := { c.request.toTask with rnbl := cont, category := .context }
    some (c, .store f reg todo cont, [])
  | .store f reg todo cont =>
    some ({ c with response := { c.response with toTask := f.copy reg c.response.toTask } },
      .load todo cont, [])
  | .load [] _ => some (c, .publish c.finished, [])
  | .publish fin =>
    let c' := c.setResponseFlag (if fin then .finished else .preempted)
    some (c', .spin, [.publish i c'.response])

inductive DispatcherPc where
  | start
  | create (i : Nat)
  | timestamps
  | checks
  | loop
  | serve (i : Nat) (st : Stage)
  | net (maxBatch : Nat)
  | halted
  deriving DecidableEq

def DispatcherPc.isNet : DispatcherPc → Bool
  | .net _ => true
  | _ => false

structure Core where
  data : PerCpu := {}
  pc : WorkerPc := .unborn

structure Sys where
  cpu : Nat → Core
  tskq : List Task
  curTime : UInt64
  dpc : DispatcherPc

/-- Static data starts zeroed and `do_dispatching` at its first line. -/
def Sys.init : Sys where
  cpu := fun _ => {}
  tskq := []
  curTime := 0
  dpc := .start

/-- What the outside decides when the dispatcher asks: the success of `kthread_create`,
the cycle counter, the packet of `shinjuku_rpc_get` and the result of `context_alloc`. -/
structure Env where
  created : Bool := true
  tsc : UInt64 := 0
  packet : Addr := NULL
  cont : Option Addr := none
  deriving DecidableEq

inductive Act where
  | disp (v : Env)
  | work (i : Nat) (fin : Bool)
  deriving DecidableEq

/-- The head of the worker sweep, `for (i = 0; i < num_cpus - 2; i++)`. -/
def sweepFrom (n i : Nat) : DispatcherPc :=
  if i < n - 2 then .serve i .poll else .net MAX_BATCH

def Sys.setCpu (s : Sys) (i : Nat) (c : Core) : Sys :=
  { s with cpu := Function.update s.cpu i c }

def Sys.mapData (s : Sys) (f : PerCpu → PerCpu) : Sys :=
  { s with cpu := fun j => { s.cpu j with data := f (s.cpu j).data } }

def dispatcherStep (n : Nat) (v : Env) (s : Sys) : Option (Sys × List Event) :=
  match s.dpc with
  | .start => some ({ s with dpc := if n < 3 then .halted else .create 2 }, [])
  | .create i =>
    if i < n then
      if v.created then
        let s' := s.setCpu i { s.cpu i with pc := .initActive }
        some ({ s' with dpc := .create (i + 1) }, [])
      else some ({ s with dpc := .halted }, [])
    else some ({ s with dpc := .timestamps }, [])
  | .timestamps =>
    let s' := s.mapData fun c => { c with shinjukuTimestamp := MAX_UINT64 }
    some ({ s' with dpc := .checks }, [])
  | .checks =>
    let s' := s.mapData fun c => { c with preemptCheck := false }
    some ({ s' with dpc := .loop }, [])
  | .loop => some ({ s with curTime := v.tsc, dpc := sweepFrom n 0 }, [])
  | .serve _ .bug => none
  | .serve i .done => some ({ s with dpc := sweepFrom n (i + 1) }, [])
  | .serve i st =>
    let (c, q, st', es) := serveStep i s.curTime (s.cpu i).data s.tskq st
    let s' := s.setCpu i { s.cpu i with data := c }
    some ({ s' with tskq := q, dpc := .serve i st' }, es)
  | .net k =>
    let (q, more, es) := networkerRound s.curTime v.packet v.cont k s.tskq
    some ({ s with tskq := q, dpc := if more then .net (k - 1) else .loop }, es)
  | .halted => none

def sysStep (n : Nat) (s : Sys) : Act → Option (Sys × List Event)
  | .disp v => dispatcherStep n v s
  | .work i fin =>
    match workerStep i fin (s.cpu i).data (s.cpu i).pc with
    | none => none
    | some (c, pc, es) => some (s.setCpu i ⟨c, pc⟩, es)

def machine (n : Nat) : Machine Sys Act Event := ⟨sysStep n⟩

/-- The stage of `handle_worker` of CPU `i`; it is between two calls when the dispatcher
is somewhere else. -/
def stageOf (dpc : DispatcherPc) (i : Nat) : Stage :=
  match dpc with
  | .serve j st => if j = i then st else .done
  | _ => .done

/-- Everything a step of the dispatcher can be. -/
inductive DispatcherMove (n : Nat) (v : Env) (s : Sys) : Sys → List Event → Prop where
  | start (h : s.dpc = .start) :
      DispatcherMove n v s { s with dpc := if n < 3 then .halted else .create 2 } []
  | create {k : Nat} (h : s.dpc = .create k) (hk : k < n) :
      DispatcherMove n v s
        { s.setCpu k { s.cpu k with pc := .initActive } with dpc := .create (k + 1) } []
  | endCreate {k : Nat} {dpc : DispatcherPc} (h : s.dpc = .create k)
      (hdpc : dpc = .halted ∨ dpc = .timestamps) : DispatcherMove n v s { s with dpc := dpc } []
  | timestamps (h : s.dpc = .timestamps) :
      DispatcherMove n v s { s.mapData (fun c => { c with shinjukuTimestamp := MAX_UINT64 }) with
        dpc := .checks } []
  | checks (h : s.dpc = .checks) :
      DispatcherMove n v s { s.mapData (fun c => { c with preemptCheck := false }) with
        dpc := .loop } []
  | loop (h : s.dpc = .loop) :
      DispatcherMove n v s { s with curTime := v.tsc, dpc := sweepFrom n 0 } []
  | next {k : Nat} (h : s.dpc = .serve k .done) :
      DispatcherMove n v s { s with dpc := sweepFrom n (k + 1) } []
  | serve {k : Nat} {st : Stage} {r : PerCpu × List Task × Stage × List Event}
      (h : s.dpc = .serve k st)
      (hr : serveStep k s.curTime (s.cpu k).data s.tskq st = r) :
      DispatcherMove n v s { s.setCpu k { s.cpu k with data := r.1 } with
        tskq := r.2.1
        dpc := .serve k r.2.2.1 } r.2.2.2
  | net {k : Nat} {r : List Task × Bool × List Event} (h : s.dpc = .net k)
      (hr : networkerRound s.curTime v.packet v.cont k s.tskq = r) :
      DispatcherMove n v s
        { s with tskq := r.1, dpc := if r.2.1 then .net (k - 1) else .loop } r.2.2

section Inversion
variable {n : Nat} {s t : Sys} {es : List Event}

theorem dispatcherStep_serve {v : Env} {k : Nat} {st : Stage} (hdpc : s.dpc = .serve k st)
    (hbug : st ≠ .bug) (hdone : st ≠ .done) :
    let r := serveStep k s.curTime (s.cpu k).data s.tskq st
    dispatcherStep n v s = some ({ s.setCpu k { s.cpu k with data := r.1 } with
      tskq := r.2.1
      dpc := .serve k r.2.2.1 }, r.2.2.2) := by
  cases st <;> first | contradiction | simp only [dispatcherStep, hdpc]

theorem dispatcherStep_cases {v : Env} (h : dispatcherStep n v s = some (t, es)) :
    DispatcherMove n v s t es := by
  cases hdpc : s.dpc with
  | start =>
    obtain ⟨rfl, rfl⟩ := by simpa [dispatcherStep, hdpc] using h
    exact .start hdpc
  | create k =>
    simp only [dispatcherStep, hdpc] at h
    split at h
    next hk =>
      split at h
      · obtain ⟨rfl, rfl⟩ := by simpa using h
        exact .create hdpc hk
      · obtain ⟨rfl, rfl⟩ := by simpa using h
        exact .endCreate hdpc (.inl rfl)
    · obtain ⟨rfl, rfl⟩ := by simpa using h
      exact .endCreate hdpc (.inr rfl)
  | timestamps =>
    obtain ⟨rfl, rfl⟩ := by simpa [dispatcherStep, hdpc] using h
    exact .timestamps hdpc
  | checks =>
    obtain ⟨rfl, rfl⟩ := by simpa [dispatcherStep, hdpc] using h
    exact .checks hdpc
  | loop =>
    obtain ⟨rfl, rfl⟩ := by simpa [dispatcherStep, hdpc] using h
    exact .loop hdpc
  | serve k st =>
    by_cases hbug : st = .bug
    · simp [dispatcherStep, hdpc, hbug] at h
    by_cases hdone : st = .done
    · subst hdone
      obtain ⟨rfl, rfl⟩ := by simpa [dispatcherStep, hdpc] using h
      exact .next hdpc
    · rw [dispatcherStep_serve hdpc hbug hdone] at h
      obtain ⟨rfl, rfl⟩ := by simpa using h
      exact .serve hdpc rfl
  | net k =>
    simp only [dispatcherStep, hdpc] at h
    obtain ⟨rfl, rfl⟩ := by simpa using h
    exact .net hdpc rfl
  | halted => simp [dispatcherStep, hdpc] at h

theorem sysStep_work {i : Nat} {fin : Bool} (h : sysStep n s (.work i fin) = some (t, es)) :
    ∃ c pc, workerStep i fin (s.cpu i).data (s.cpu i).pc = some (c, pc, es) ∧
      t = s.setCpu i ⟨c, pc⟩ := by
  simp only [sysStep] at h
  split at h
  · simp at h
  next c pc es' hstep =>
    obtain ⟨rfl, rfl⟩ := by simpa using h
    exact ⟨c, pc, hstep, rfl⟩

end Inversion

end ThletEvaluation.Shinjuku
