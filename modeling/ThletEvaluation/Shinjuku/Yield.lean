import Mathlib.Data.List.Count
import Mathlib.Tactic.Linarith
import ThletEvaluation.Shinjuku.Coroutine

/-!
# One task, from its entry to its last response

CPU `p` as it is in `Coroutine`, in an environment that may do anything except touch what
belongs to the task: other CPUs, the dispatcher and the queue, and the interrupt handler, which
sets `worker_preempted` whenever it likes. The request that CPU `p` takes after a yield is the
one that resumes the task.
-/

namespace ThletEvaluation.Shinjuku

open Run

set_option autoImplicit false

/-- What the environment leaves alone: the code that CPU `p` executes, what it has saved for the
task and for its own loop, and the per-CPU variables that only CPU `p` writes. -/
def Agrees (p : Nat) (c : Addr) (s t : CoSys) : Prop :=
  t.flow p = s.flow p ∧ t.ctx c = s.ctx c ∧ t.ctxMain p = s.ctxMain p ∧
    (t.sys.cpu p).data.finished = (s.sys.cpu p).data.finished ∧
    (t.sys.cpu p).data.ctxWorker = (s.sys.cpu p).data.ctxWorker

instance (p : Nat) (c : Addr) (s t : CoSys) : Decidable (Agrees p c s t) :=
  inferInstanceAs (Decidable (_ ∧ _ ∧ _ ∧ _ ∧ _))

inductive SliceAct where
  /-- CPU `p` makes one step. -/
  | exec
  /-- The environment leaves the state `t`. -/
  | env (t : CoSys)

inductive SliceEvent where
  /-- The loop body, and whether the check behind it finds `worker_preempted` set. -/
  | body (observed : Bool)
  | response (flag : ResponseFlag)
  deriving DecidableEq

def sliceEvents (s : CoSys) (es : List CoEvent) : List SliceEvent :=
  es.filterMap fun
    | .check _ w => some (.body (s.sys.cpu w).data.workerPreempted)
    | .sched (.publish _ r) => some (.response r.flag)
    | _ => none

def sliceStep (n p : Nat) (c : Addr) (s : CoSys) : SliceAct → Option (CoSys × List SliceEvent)
  | .exec =>
    match coStep n s (.exec p 0) with
    | none => none
    | some (t, es) => some (t, sliceEvents s es)
  | .env t => if Agrees p c s t then some (t, []) else none

def sliceMachine (n p : Nat) (c : Addr) : Machine CoSys SliceAct SliceEvent := ⟨sliceStep n p c⟩

/-- CPU `p` gets a request only while the task waits to go on, and that request resumes it by
`handle_context`. -/
def ResumesTask (p : Nat) (c : Addr) (s : CoSys) : SliceAct → Prop
  | .exec =>
    match s.flow p with
    | .thread w .spin => (s.sys.cpu w).data.request.flag = .waiting ∨ (s.ctx c).isYielded = true
    | .thread w .category => (s.sys.cpu w).data.request.category ≠ .packet
    | .thread w .ctxRnbl => (s.sys.cpu w).data.request.rnbl = c
    | _ => True
  | .env _ => True

/-- `generic_work` is about to be entered with `data`, and `ctx_worker` holds its context. -/
structure TaskStart (p : Nat) (c : Addr) (data : Nat) (s : CoSys) : Prop where
  flow : s.flow p = .entry data
  ctxMain : s.ctxMain p = some p
  ctxWorker : (s.sys.cpu p).data.ctxWorker = c
  finished : (s.sys.cpu p).data.finished = false

/-- What each check of a trace has found. -/
def observations (tr : List SliceEvent) : List Bool :=
  tr.filterMap fun
    | .body observed => some observed
    | .response _ => none

def responses (flag : ResponseFlag) (tr : List SliceEvent) : Nat := tr.count (.response flag)

/-- The loop body ran `n` times, every observed preemption has its `PREEMPTED` response, and the
only `FINISHED` response is the last thing of all. -/
structure WorkDone (n : Nat) (tr : List SliceEvent) : Prop where
  bodies : (observations tr).length = n
  preempted : responses .preempted tr = (observations tr).count true
  finished : responses .finished tr = 1
  last : tr.getLast? = some (.response .finished)

/-- No `FINISHED` response yet, at most `n` executions of the body, and a `PREEMPTED` response
for every observed preemption but perhaps the last one. -/
structure WorkLeft (n : Nat) (tr : List SliceEvent) : Prop where
  bodies : (observations tr).length ≤ n
  preempted : responses .preempted tr ≤ (observations tr).count true
  pending : (observations tr).count true ≤ responses .preempted tr + 1
  finished : responses .finished tr = 0

section Trace
variable {tr : List SliceEvent}

@[simp] theorem observations_nil : observations [] = [] := rfl

@[simp] theorem observations_append (tr tr' : List SliceEvent) :
    observations (tr ++ tr') = observations tr ++ observations tr' := List.filterMap_append

@[simp] theorem observations_body (b : Bool) : observations [.body b] = [b] := rfl

@[simp] theorem observations_response (flag : ResponseFlag) :
    observations [.response flag] = [] := rfl

@[simp] theorem responses_nil (flag : ResponseFlag) : responses flag [] = 0 := rfl

@[simp] theorem responses_append (flag : ResponseFlag) (tr tr' : List SliceEvent) :
    responses flag (tr ++ tr') = responses flag tr + responses flag tr' := List.count_append

@[simp] theorem responses_body (flag : ResponseFlag) (b : Bool) :
    responses flag [.body b] = 0 := by
  simp [responses]

@[simp] theorem responses_response (flag flag' : ResponseFlag) :
    responses flag [.response flag'] = if flag' = flag then 1 else 0 := by
  simp [responses, List.count_singleton]

end Trace

/-! ## Where the task stands -/

/-- The local variables of the task after `i` executions of the body. -/
def frameAt (p : Nat) (c : Addr) (data i : Nat) : Frame :=
  { i := i, data := data, worker := p, cont := c, uctxMain := p }

/-- `finish_request`, for a task that has left with `finished` as in `fin`. -/
def WorkerPc.Reports (fin : Bool) : WorkerPc → Prop
  | .finish | .load _ _ | .store _ _ _ _ => True
  | .publish b => b = fin
  | .unborn | .initActive | .initPreempted | .initFlag | .spin | .reset | .category | .newParse
  | .newRnbl | .newFinished _ | .newSwap _ | .ctxFinished | .ctxRnbl | .ctxStore _ | .ctxSwap
  | .body => False

/-- `handle_request` and `handle_context`, for the task at `c`. -/
def WorkerPc.Resumes (c : Addr) : WorkerPc → Prop
  | .spin | .reset | .category | .ctxFinished | .ctxRnbl | .ctxSwap => True
  | .ctxStore rnbl => rnbl = c
  | .unborn | .initActive | .initPreempted | .initFlag | .newParse | .newRnbl | .newFinished _
  | .newSwap _ | .body | .finish | .load _ _ | .store _ _ _ _ | .publish _ => False

/-- The steps from here to the swap into the task, by `finish_request` and `handle_context`. -/
def WorkerPc.rank : WorkerPc → Nat
  | .finish => 20
  | .store _ _ todo _ => 2 * todo.length + 10
  | .load todo _ => 2 * todo.length + 9
  | .publish _ => 8
  | .spin => 7
  | .reset => 6
  | .category => 5
  | .ctxFinished => 4
  | .ctxRnbl => 3
  | .ctxStore _ => 2
  | .ctxSwap => 1
  | .unborn | .initActive | .initPreempted | .initFlag | .newParse | .newRnbl | .newFinished _
  | .newSwap _ | .body => 0

/-- The executions of the body that are still to come. -/
def Frame.left (f : Frame) : Nat := max 1 f.data - f.i

/-- A bound on the steps that CPU `p` still makes for the task at `c`, waiting apart. An
execution of the body costs at most one yield, which is at most twenty steps. -/
def CoSys.remaining (p : Nat) (c : Addr) (s : CoSys) : Nat :=
  match s.flow p with
  | .entry data => 30 * max 1 data + 22
  | .task f .body => 30 * f.left + 21
  | .task f .test => 30 * f.left + 22
  | .thread _ pc =>
    match s.ctx c with
    | .yielded f => 30 * f.left + 22 + pc.rank
    | _ => pc.rank
  | _ => 0

/-- The CPU is between two requests. -/
def CoSys.waits (p : Nat) (s : CoSys) : Prop :=
  s.flow p = .thread p .spin ∧ (s.sys.cpu p).data.request.flag = .waiting

/-- The data of CPU `p` while it works for the task at `c`. -/
structure Engaged (p : Nat) (c : Addr) (fin : Bool) (s : CoSys) : Prop where
  ctxMain : s.ctxMain p = some p
  ctxWorker : (s.sys.cpu p).data.ctxWorker = c
  finished : (s.sys.cpu p).data.finished = fin

/-- The trace has `i` executions of the body and owes `pending` responses. -/
structure Tally (i pending : Nat) (tr : List SliceEvent) : Prop where
  bodies : (observations tr).length = i
  preempted : responses .preempted tr + pending = (observations tr).count true
  finished : responses .finished tr = 0

inductive TaskPhase (p : Nat) (c : Addr) (data : Nat) (tr : List SliceEvent) (s : CoSys) :
    Prop where
  | entered (hflow : s.flow p = .entry data) (hcpu : Engaged p c false s) (htally : Tally 0 0 tr)
  | body {i : Nat} (hflow : s.flow p = .task (frameAt p c data i) .body)
      (hcpu : Engaged p c false s) (hi : i < max 1 data) (htally : Tally i 0 tr)
  | test {i : Nat} (hflow : s.flow p = .task (frameAt p c data i) .test)
      (hcpu : Engaged p c false s) (hpos : 0 < i) (hi : i ≤ max 1 data) (htally : Tally i 0 tr)
  | reports {i : Nat} {pc : WorkerPc} (hflow : s.flow p = .thread p pc) (hpc : pc.Reports false)
      (hctx : s.ctx c = .yielded (frameAt p c data i)) (hcpu : Engaged p c false s) (hpos : 0 < i)
      (hi : i ≤ max 1 data) (htally : Tally i 1 tr)
  | resumes {i : Nat} {pc : WorkerPc} (hflow : s.flow p = .thread p pc) (hpc : pc.Resumes c)
      (hctx : s.ctx c = .yielded (frameAt p c data i)) (hcpu : Engaged p c false s) (hpos : 0 < i)
      (hi : i ≤ max 1 data) (htally : Tally i 0 tr)
  | reportsEnd {pc : WorkerPc} (hflow : s.flow p = .thread p pc) (hpc : pc.Reports true)
      (hctx : s.ctx c = .ended) (hcpu : Engaged p c true s) (htally : Tally (max 1 data) 0 tr)
  | done (hflow : s.flow p = .thread p .spin) (hctx : s.ctx c = .ended)
      (hcpu : Engaged p c true s) (hdone : WorkDone (max 1 data) tr)

section Phases
variable {n p data i : Nat} {c : Addr} {tr : List SliceEvent} {s t : CoSys} {fin : Bool}

theorem TaskStart.phase (h : TaskStart p c data s) : TaskPhase p c data [] s :=
  .entered h.flow ⟨h.ctxMain, h.ctxWorker, h.finished⟩ ⟨rfl, rfl, rfl⟩

theorem Tally.workLeft {pending : Nat} (h : Tally i pending tr) (hi : i ≤ n) (hp : pending ≤ 1) :
    WorkLeft n tr := by
  have hpre := h.preempted
  refine ⟨h.bodies.trans_le hi, ?_, ?_, h.finished⟩
  · omega
  · omega

theorem TaskPhase.work (h : TaskPhase p c data tr s) :
    WorkLeft (max 1 data) tr ∨ WorkDone (max 1 data) tr := by
  cases h with
  | entered _ _ htally => exact .inl (htally.workLeft (Nat.zero_le _) (Nat.zero_le _))
  | body _ _ hi htally => exact .inl (htally.workLeft hi.le (Nat.zero_le _))
  | test _ _ _ hi htally => exact .inl (htally.workLeft hi (Nat.zero_le _))
  | reports _ _ _ _ _ hi htally => exact .inl (htally.workLeft hi le_rfl)
  | resumes _ _ _ _ _ hi htally => exact .inl (htally.workLeft hi (Nat.zero_le _))
  | reportsEnd _ _ _ _ htally => exact .inl (htally.workLeft le_rfl (Nat.zero_le _))
  | done _ _ _ hdone => exact .inr hdone

theorem Engaged.env (h : Engaged p c fin s) (hagree : Agrees p c s t) : Engaged p c fin t := by
  obtain ⟨-, -, hmain, hfin, hworker⟩ := hagree
  exact ⟨hmain.trans h.ctxMain, hworker.trans h.ctxWorker, hfin.trans h.finished⟩

theorem TaskPhase.env (h : TaskPhase p c data tr s) (hagree : Agrees p c s t) :
    TaskPhase p c data tr t := by
  obtain ⟨hf, hc, -, -, -⟩ := id hagree
  cases h with
  | entered hflow hcpu htally => exact .entered (hf.trans hflow) (hcpu.env hagree) htally
  | body hflow hcpu hi htally => exact .body (hf.trans hflow) (hcpu.env hagree) hi htally
  | test hflow hcpu hpos hi htally =>
    exact .test (hf.trans hflow) (hcpu.env hagree) hpos hi htally
  | reports hflow hpc hctx hcpu hpos hi htally =>
    exact .reports (hf.trans hflow) hpc (hc.trans hctx) (hcpu.env hagree) hpos hi htally
  | resumes hflow hpc hctx hcpu hpos hi htally =>
    exact .resumes (hf.trans hflow) hpc (hc.trans hctx) (hcpu.env hagree) hpos hi htally
  | reportsEnd hflow hpc hctx hcpu htally =>
    exact .reportsEnd (hf.trans hflow) hpc (hc.trans hctx) (hcpu.env hagree) htally
  | done hflow hctx hcpu hdone =>
    exact .done (hf.trans hflow) (hc.trans hctx) (hcpu.env hagree) hdone

theorem Agrees.remaining (h : Agrees p c s t) : t.remaining p c = s.remaining p c := by
  unfold CoSys.remaining
  rw [h.1, h.2.1]

/-! ## One step -/

/-- What one step of CPU `p` comes to. -/
def StepOk (p : Nat) (c : Addr) (data : Nat) (tr : List SliceEvent) (s u : CoSys)
    (es : List SliceEvent) : Prop :=
  TaskPhase p c data (tr ++ es) u ∧
    (observations es = [] ∨ observations es = [(s.sys.cpu p).data.workerPreempted]) ∧
    (u.remaining p c < s.remaining p c ∨ s.waits p ∧ u.remaining p c = s.remaining p c)

@[simp] theorem setData_data (s : CoSys) (p : Nat) (d : PerCpu) :
    ((s.setData p d).sys.cpu p).data = d := by
  simp [CoSys.setData, Sys.setCpu]

@[simp] theorem goto_flow (s : CoSys) (p : Nat) (f : Flow) : (s.goto p f).flow p = f := by
  simp [CoSys.goto]

/-- The program counters at which nothing is saved or resumed. -/
def WorkerPc.plain : WorkerPc → Bool
  | .newFinished _ | .newSwap _ | .ctxSwap => false
  | .unborn | .initActive | .initPreempted | .initFlag | .spin | .reset | .category | .newParse
  | .newRnbl | .ctxFinished | .ctxRnbl | .ctxStore _ | .body | .finish | .load _ _
  | .store _ _ _ _ | .publish _ => true

theorem sliceStep_plain {pc pc' : WorkerPc} {d : PerCpu} {evs : List Event}
    (hflow : s.flow p = .thread p pc) (hpc : pc.plain = true)
    (hwork : workerStep p false (s.sys.cpu p).data pc = some (d, pc', evs)) :
    sliceStep n p c s .exec =
      some ((s.setData p d).goto p (.thread p pc'), sliceEvents s (evs.map .sched)) := by
  have hthread : threadStep p p 0 pc s =
      some ((s.setData p d).goto p (.thread p pc'), evs.map .sched) := by
    unfold threadStep
    rw [hwork]
    cases pc <;> first | rfl | simp [WorkerPc.plain] at hpc
  simp only [sliceStep, coStep, hflow, hthread]

/-- A step of `finish_request`. -/
theorem workerStep_reports {pc : WorkerPc} {d : PerCpu} (hpc : pc.Reports fin)
    (hfin : d.finished = fin) :
    ∃ d' pc' evs, workerStep p false d pc = some (d', pc', evs) ∧ pc.plain = true ∧
      d'.finished = d.finished ∧ d'.ctxWorker = d.ctxWorker ∧ pc'.rank < pc.rank ∧
      (∀ s, observations (sliceEvents s (evs.map .sched)) = []) ∧
      (pc'.Reports fin ∧ evs = [] ∨
        pc' = .spin ∧ ∃ r : WorkerResponse, evs = [.publish p r] ∧
          r.flag = if fin then .finished else .preempted) := by
  cases pc with
  | finish =>
    refine ⟨d, .load finishFields d.ctxWorker, [], rfl, rfl, rfl, rfl, ?_, fun _ => rfl,
      .inl ⟨trivial, rfl⟩⟩
    simp [WorkerPc.rank, finishFields]
  | load todo cont =>
    cases todo with
    | nil =>
      refine ⟨d, .publish d.finished, [], rfl, rfl, rfl, rfl, ?_, fun _ => rfl, .inl ⟨hfin, rfl⟩⟩
      simp [WorkerPc.rank]
    | cons f todo =>
      refine ⟨d, _, [], rfl, rfl, rfl, rfl, ?_, fun _ => rfl, .inl ⟨trivial, rfl⟩⟩
      simp only [WorkerPc.rank, List.length_cons]
      omega
  | store f reg todo cont =>
    refine ⟨_, .load todo cont, [], rfl, rfl, rfl, rfl, ?_, fun _ => rfl, .inl ⟨trivial, rfl⟩⟩
    simp only [WorkerPc.rank]
    omega
  | publish b =>
    obtain rfl : b = fin := hpc
    refine ⟨_, .spin, _, rfl, rfl, rfl, rfl, ?_, fun _ => rfl, .inr ⟨rfl, _, rfl, rfl⟩⟩
    simp [WorkerPc.rank]
  | _ => exact absurd hpc (by simp [WorkerPc.Reports])

/-- What the request must be where `handle_request` and `handle_context` read it. -/
def WorkerPc.Admits (c : Addr) (d : PerCpu) : WorkerPc → Prop
  | .category => d.request.category ≠ .packet
  | .ctxRnbl => d.request.rnbl = c
  | _ => True

/-- A step of `handle_request` or `handle_context` before the swap. -/
theorem workerStep_resumes {pc : WorkerPc} {d : PerCpu} (hpc : pc.Resumes c)
    (hne : pc ≠ .ctxSwap) (hok : pc.Admits c d) (hworker : d.ctxWorker = c)
    (hfin : d.finished = false) :
    ∃ d' pc' evs, workerStep p false d pc = some (d', pc', evs) ∧ pc.plain = true ∧
      d'.finished = false ∧ d'.ctxWorker = c ∧ pc'.Resumes c ∧
      (∀ s, sliceEvents s (evs.map .sched) = []) ∧
      (pc'.rank < pc.rank ∨ pc = .spin ∧ d.request.flag = .waiting ∧ pc' = .spin) := by
  cases pc with
  | spin =>
    by_cases hflag : d.request.flag = .waiting
    · refine ⟨d, .spin, [], ?_, rfl, hfin, hworker, trivial, fun _ => rfl, .inr ⟨rfl, hflag, rfl⟩⟩
      simp [workerStep, hflag]
    · refine ⟨d, .reset, [], ?_, rfl, hfin, hworker, trivial, fun _ => rfl, .inl ?_⟩
      · simp [workerStep, hflag]
      · simp [WorkerPc.rank]
  | reset =>
    refine ⟨_, .category, _, rfl, rfl, hfin, hworker, trivial, fun _ => rfl, .inl ?_⟩
    simp [WorkerPc.rank]
  | category =>
    have hcat : d.request.category ≠ .packet := hok
    refine ⟨d, .ctxFinished, [.handle p false], ?_, rfl, hfin, hworker, trivial, fun _ => rfl,
      .inl ?_⟩
    · simp [workerStep, hcat]
    · simp [WorkerPc.rank]
  | ctxFinished =>
    refine ⟨_, .ctxRnbl, _, rfl, rfl, rfl, hworker, trivial, fun _ => rfl, .inl ?_⟩
    simp [WorkerPc.rank]
  | ctxRnbl =>
    refine ⟨d, .ctxStore d.request.rnbl, _, rfl, rfl, hfin, hworker, hok, fun _ => rfl, .inl ?_⟩
    simp [WorkerPc.rank]
  | ctxStore rnbl =>
    refine ⟨_, .ctxSwap, _, rfl, rfl, hfin, hpc, trivial, fun _ => rfl, .inl ?_⟩
    simp [WorkerPc.rank]
  | ctxSwap => exact absurd rfl hne
  | _ => exact absurd hpc (by simp [WorkerPc.Resumes])

theorem Tally.body (h : Tally i 0 tr) (b : Bool) :
    Tally (i + 1) (if b then 1 else 0) (tr ++ [.body b]) := by
  have hpre := h.preempted
  refine ⟨?_, ?_, ?_⟩
  · simp [h.bodies]
  · cases b <;> simp [← hpre]
  · simpa using h.finished

theorem Tally.preempt (h : Tally i 1 tr) : Tally i 0 (tr ++ [.response .preempted]) := by
  refine ⟨?_, ?_, ?_⟩
  · simpa using h.bodies
  · simpa using h.preempted
  · simpa using h.finished

theorem Tally.finish (h : Tally i 0 tr) : WorkDone i (tr ++ [.response .finished]) := by
  refine ⟨?_, ?_, ?_, ?_⟩
  · simpa using h.bodies
  · simpa using h.preempted
  · simpa using h.finished
  · simp

/-- A store of CPU `p` to its own data. -/
theorem Engaged.setData {fin' : Bool} {d : PerCpu} (h : Engaged p c fin s)
    (hworker : d.ctxWorker = c) (hfin : d.finished = fin') : Engaged p c fin' (s.setData p d) := by
  refine ⟨h.ctxMain, ?_, ?_⟩
  · rw [setData_data, hworker]
  · rw [setData_data, hfin]

theorem exec_entered (hdata : data < 100000) (hflow : s.flow p = .entry data)
    (hcpu : Engaged p c false s) (htally : Tally 0 0 tr) :
    ∃ u es, sliceStep n p c s .exec = some (u, es) ∧ StepOk p c data tr s u es := by
  have hstep : sliceStep n p c s .exec =
      some (s.goto p (.task (frameAt p c data 0) .body), []) := by
    simp only [sliceStep, coStep, hflow, if_neg (Nat.not_le.mpr hdata), hcpu.ctxWorker]
    rfl
  have hpos : 0 < max 1 data := by omega
  refine ⟨_, _, hstep, ?_, .inl rfl, .inl ?_⟩
  · rw [List.append_nil]
    exact .body (goto_flow s p _) ⟨hcpu.ctxMain, hcpu.ctxWorker, hcpu.finished⟩ hpos htally
  · simp only [CoSys.remaining, goto_flow, hflow, Frame.left, frameAt]
    omega

theorem leaveTask_flow {f : Frame} {saved : Saved} (hmain : s.ctxMain p = some p)
    (hf : f.uctxMain = p) : (leaveTask p f saved s).flow p = .thread p .finish := by
  simp [leaveTask, CoSys.resumeMain, hf, hmain]

theorem leaveTask_ctx (f : Frame) (saved : Saved) : (leaveTask p f saved s).ctx f.cont = saved := by
  simp [leaveTask]

theorem exec_body (hflow : s.flow p = .task (frameAt p c data i) .body)
    (hcpu : Engaged p c false s) (hi : i < max 1 data) (htally : Tally i 0 tr) :
    ∃ u es, sliceStep n p c s .exec = some (u, es) ∧ StepOk p c data tr s u es := by
  have hleft : (frameAt p c data i).left = (frameAt p c data (i + 1)).left + 1 := by
    simp only [Frame.left, frameAt]
    omega
  by_cases hflag : (s.sys.cpu p).data.workerPreempted = true
  · let s' := s.setData p { (s.sys.cpu p).data with workerPreempted := false }
    let f' := frameAt p c data (i + 1)
    have hstep : sliceStep n p c s .exec =
        some (leaveTask p f' (.yielded f') s', [.body true]) := by
      have hset : (s.sys.cpu (frameAt p c data i).worker).data.workerPreempted = true := hflag
      simp only [sliceStep, coStep, hflow, taskStep]
      rw [if_pos hset]
      simp [sliceEvents, frameAt, hflag, s', f']
    have hfl : (leaveTask p f' (.yielded f') s').flow p = .thread p .finish :=
      leaveTask_flow hcpu.ctxMain rfl
    have hctx : (leaveTask p f' (.yielded f') s').ctx c = .yielded f' := leaveTask_ctx f' _
    have hcpu' : Engaged p c false s' := hcpu.setData hcpu.ctxWorker hcpu.finished
    refine ⟨_, _, hstep, ?_, .inr ?_, .inl ?_⟩
    · exact .reports hfl trivial hctx ⟨hcpu'.ctxMain, hcpu'.ctxWorker, hcpu'.finished⟩
        (Nat.succ_pos i) hi (htally.body true)
    · rw [hflag]
      rfl
    · simp only [CoSys.remaining, hfl, hctx, hflow, hleft, WorkerPc.rank, f']
      omega
  · have hstep : sliceStep n p c s .exec =
        some (s.goto p (.task (frameAt p c data (i + 1)) .test), [.body false]) := by
      have hclear : ¬ (s.sys.cpu (frameAt p c data i).worker).data.workerPreempted = true := hflag
      simp only [sliceStep, coStep, hflow, taskStep]
      rw [if_neg hclear]
      simp [sliceEvents, frameAt, hflag]
    refine ⟨_, _, hstep, ?_, .inr ?_, .inl ?_⟩
    · exact .test (goto_flow s p _) ⟨hcpu.ctxMain, hcpu.ctxWorker, hcpu.finished⟩
        (Nat.succ_pos i) hi (htally.body false)
    · simp [hflag]
    · simp only [CoSys.remaining, goto_flow, hflow, hleft]
      omega

theorem exec_test (hflow : s.flow p = .task (frameAt p c data i) .test)
    (hcpu : Engaged p c false s) (hpos : 0 < i) (hi : i ≤ max 1 data) (htally : Tally i 0 tr) :
    ∃ u es, sliceStep n p c s .exec = some (u, es) ∧ StepOk p c data tr s u es := by
  by_cases hmore : i < data
  · have hstep : sliceStep n p c s .exec =
        some (s.goto p (.task (frameAt p c data i) .body), []) := by
      simp only [sliceStep, coStep, hflow, taskStep]
      rw [if_pos (show (frameAt p c data i).i < (frameAt p c data i).data from hmore)]
      rfl
    refine ⟨_, _, hstep, ?_, .inl rfl, .inl ?_⟩
    · rw [List.append_nil]
      exact .body (goto_flow s p _) ⟨hcpu.ctxMain, hcpu.ctxWorker, hcpu.finished⟩ (by omega) htally
    · simp only [CoSys.remaining, goto_flow, hflow]
      omega
  · let s' := s.setData p { (s.sys.cpu p).data with finished := true }
    let f := frameAt p c data i
    have hstep : sliceStep n p c s .exec = some (leaveTask p f .ended s', []) := by
      simp only [sliceStep, coStep, hflow, taskStep]
      rw [if_neg (show ¬ (frameAt p c data i).i < (frameAt p c data i).data from hmore)]
      rfl
    have hfl : (leaveTask p f .ended s').flow p = .thread p .finish :=
      leaveTask_flow hcpu.ctxMain rfl
    have hctx : (leaveTask p f .ended s').ctx c = .ended := leaveTask_ctx f _
    have hall : i = max 1 data := by omega
    have hcpu' : Engaged p c true s' := hcpu.setData hcpu.ctxWorker rfl
    refine ⟨_, _, hstep, ?_, .inl rfl, .inl ?_⟩
    · rw [List.append_nil]
      exact .reportsEnd hfl trivial hctx ⟨hcpu'.ctxMain, hcpu'.ctxWorker, hcpu'.finished⟩
        (hall ▸ htally)
    · simp only [CoSys.remaining, hfl, hctx, hflow, WorkerPc.rank]
      omega

/-- A step of the loop that saves nothing leaves the context of the task as it is. -/
theorem Engaged.plain (pc : WorkerPc) {d : PerCpu} (h : Engaged p c fin s)
    (hworker : d.ctxWorker = c) (hfin : d.finished = fin) :
    Engaged p c fin ((s.setData p d).goto p (.thread p pc)) := by
  obtain ⟨hmain, hworker', hfin'⟩ := h.setData hworker hfin
  exact ⟨hmain, hworker', hfin'⟩

theorem remaining_plain {pc pc' : WorkerPc} {d : PerCpu} (hflow : s.flow p = .thread p pc)
    (hrank : pc'.rank < pc.rank) :
    ((s.setData p d).goto p (.thread p pc')).remaining p c < s.remaining p c := by
  have hctx : ((s.setData p d).goto p (.thread p pc')).ctx c = s.ctx c := rfl
  simp only [CoSys.remaining, goto_flow, hflow, hctx]
  split <;> omega

theorem exec_reports {pc : WorkerPc} (hflow : s.flow p = .thread p pc) (hpc : pc.Reports false)
    (hctx : s.ctx c = .yielded (frameAt p c data i)) (hcpu : Engaged p c false s) (hpos : 0 < i)
    (hi : i ≤ max 1 data) (htally : Tally i 1 tr) :
    ∃ u es, sliceStep n p c s .exec = some (u, es) ∧ StepOk p c data tr s u es := by
  obtain ⟨d, pc', evs, hwork, hplain, hfin, hworker, hrank, hobs, hnext⟩ :=
    workerStep_reports (p := p) hpc hcpu.finished
  have hcpu' := hcpu.plain pc' (hworker.trans hcpu.ctxWorker) (hfin.trans hcpu.finished)
  refine ⟨_, _, sliceStep_plain hflow hplain hwork, ?_, .inl (hobs s),
    .inl (remaining_plain hflow hrank)⟩
  rcases hnext with ⟨hpc', rfl⟩ | ⟨rfl, r, rfl, hflag⟩
  · exact .reports (goto_flow _ p _) hpc' hctx hcpu' hpos hi (by simpa [sliceEvents] using htally)
  · refine .resumes (goto_flow _ p _) trivial hctx hcpu' hpos hi ?_
    simpa [sliceEvents, hflag] using htally.preempt

theorem exec_reportsEnd {pc : WorkerPc} (hflow : s.flow p = .thread p pc) (hpc : pc.Reports true)
    (hctx : s.ctx c = .ended) (hcpu : Engaged p c true s) (htally : Tally (max 1 data) 0 tr) :
    ∃ u es, sliceStep n p c s .exec = some (u, es) ∧ StepOk p c data tr s u es := by
  obtain ⟨d, pc', evs, hwork, hplain, hfin, hworker, hrank, hobs, hnext⟩ :=
    workerStep_reports (p := p) hpc hcpu.finished
  have hcpu' := hcpu.plain pc' (hworker.trans hcpu.ctxWorker) (hfin.trans hcpu.finished)
  refine ⟨_, _, sliceStep_plain hflow hplain hwork, ?_, .inl (hobs s),
    .inl (remaining_plain hflow hrank)⟩
  rcases hnext with ⟨hpc', rfl⟩ | ⟨rfl, r, rfl, hflag⟩
  · exact .reportsEnd (goto_flow _ p _) hpc' hctx hcpu' (by simpa [sliceEvents] using htally)
  · refine .done (goto_flow _ p _) hctx hcpu' ?_
    simpa [sliceEvents, hflag] using htally.finish

theorem sliceStep_ctxSwap (hflow : s.flow p = .thread p .ctxSwap) :
    sliceStep n p c s .exec =
      some ({ (s.setData p (s.sys.cpu p).data).goto p
        (s.ctx (s.sys.cpu p).data.ctxWorker).resume with
          ctxMain := Function.update s.ctxMain p (some p) }, []) := by
  simp only [sliceStep, coStep, hflow]
  rfl

theorem ResumesTask.admits {pc : WorkerPc} (h : ResumesTask p c s .exec)
    (hflow : s.flow p = .thread p pc) : pc.Admits c (s.sys.cpu p).data := by
  unfold ResumesTask at h
  rw [hflow] at h
  cases pc <;> trivial

theorem exec_resumes {pc : WorkerPc} (hflow : s.flow p = .thread p pc) (hpc : pc.Resumes c)
    (hok : pc.Admits c (s.sys.cpu p).data)
    (hctx : s.ctx c = .yielded (frameAt p c data i)) (hcpu : Engaged p c false s) (hpos : 0 < i)
    (hi : i ≤ max 1 data) (htally : Tally i 0 tr) :
    ∃ u es, sliceStep n p c s .exec = some (u, es) ∧ StepOk p c data tr s u es := by
  by_cases hswap : pc = .ctxSwap
  · subst hswap
    have hresume : (s.ctx (s.sys.cpu p).data.ctxWorker).resume =
        .task (frameAt p c data i) .test := by
      rw [hcpu.ctxWorker, hctx]
      rfl
    refine ⟨_, _, sliceStep_ctxSwap hflow, ?_, .inl rfl, .inl ?_⟩
    · rw [List.append_nil, hresume]
      obtain ⟨-, hworker, hfin⟩ := hcpu.setData hcpu.ctxWorker hcpu.finished
      exact .test (goto_flow _ p _) ⟨by simp, hworker, hfin⟩ hpos hi htally
    · rw [hresume]
      simp only [CoSys.remaining, goto_flow, hflow, hctx, WorkerPc.rank]
      omega
  · obtain ⟨d, pc', evs, hwork, hplain, hfin, hworker, hpc', hevs, hrank⟩ :=
      workerStep_resumes (p := p) hpc hswap hok hcpu.ctxWorker hcpu.finished
    refine ⟨_, _, sliceStep_plain hflow hplain hwork, ?_, ?_, ?_⟩
    · rw [hevs, List.append_nil]
      exact .resumes (goto_flow _ p _) hpc' hctx (hcpu.plain pc' hworker hfin) hpos hi htally
    · rw [hevs]
      exact .inl rfl
    · rcases hrank with hrank | ⟨rfl, hwait, rfl⟩
      · exact .inl (remaining_plain hflow hrank)
      · refine .inr ⟨⟨hflow, hwait⟩, ?_⟩
        have hctx' : ((s.setData p d).goto p (.thread p .spin)).ctx c = s.ctx c := rfl
        simp only [CoSys.remaining, goto_flow, hflow, hctx']

theorem exec_done (hflow : s.flow p = .thread p .spin) (hctx : s.ctx c = .ended)
    (hcpu : Engaged p c true s) (hok : ResumesTask p c s .exec)
    (hdone : WorkDone (max 1 data) tr) :
    ∃ u es, sliceStep n p c s .exec = some (u, es) ∧ StepOk p c data tr s u es := by
  have hwait : (s.sys.cpu p).data.request.flag = .waiting := by
    unfold ResumesTask at hok
    rw [hflow] at hok
    rcases hok with hwait | hyield
    · exact hwait
    · rw [hctx] at hyield
      cases hyield
  have hwork : workerStep p false (s.sys.cpu p).data .spin =
      some ((s.sys.cpu p).data, .spin, []) := by
    simp [workerStep, hwait]
  refine ⟨_, _, sliceStep_plain hflow rfl hwork, ?_, .inl rfl, .inr ⟨⟨hflow, hwait⟩, ?_⟩⟩
  · refine .done (goto_flow _ p _) hctx (hcpu.plain .spin hcpu.ctxWorker hcpu.finished) ?_
    simpa [sliceEvents] using hdone
  · have hctx' : ((s.setData p (s.sys.cpu p).data).goto p (.thread p .spin)).ctx c = s.ctx c := rfl
    simp only [CoSys.remaining, goto_flow, hflow, hctx']

/-- CPU `p` is never stuck, and each of its steps keeps the books. -/
theorem TaskPhase.exec (h : TaskPhase p c data tr s) (hdata : data < 100000)
    (hok : ResumesTask p c s .exec) :
    ∃ u es, sliceStep n p c s .exec = some (u, es) ∧ StepOk p c data tr s u es := by
  cases h with
  | entered hflow hcpu htally => exact exec_entered hdata hflow hcpu htally
  | body hflow hcpu hi htally => exact exec_body hflow hcpu hi htally
  | test hflow hcpu hpos hi htally => exact exec_test hflow hcpu hpos hi htally
  | reports hflow hpc hctx hcpu hpos hi htally =>
    exact exec_reports hflow hpc hctx hcpu hpos hi htally
  | resumes hflow hpc hctx hcpu hpos hi htally =>
    exact exec_resumes hflow hpc (hok.admits hflow) hctx hcpu hpos hi htally
  | reportsEnd hflow hpc hctx hcpu htally => exact exec_reportsEnd hflow hpc hctx hcpu htally
  | done hflow hctx hcpu hdone => exact exec_done hflow hctx hcpu hok hdone

/-! ## Whole runs -/

theorem TaskPhase.step {act : SliceAct} {es : List SliceEvent} (h : TaskPhase p c data tr s)
    (hdata : data < 100000) (hok : ResumesTask p c s act)
    (hstep : sliceStep n p c s act = some (t, es)) :
    TaskPhase p c data (tr ++ es) t ∧ (t.remaining p c < s.remaining p c ∨
      t.remaining p c = s.remaining p c ∧ (act = .exec → s.waits p)) := by
  cases act with
  | exec =>
    obtain ⟨u, es', hstep', hphase, -, hless⟩ := h.exec (n := n) hdata hok
    obtain ⟨rfl, rfl⟩ := Prod.mk.inj (Option.some.inj (hstep'.symm.trans hstep))
    refine ⟨hphase, ?_⟩
    rcases hless with hless | ⟨hwait, heq⟩
    · exact .inl hless
    · exact .inr ⟨heq, fun _ => hwait⟩
  | env u =>
    simp only [sliceStep] at hstep
    split at hstep
    · rename_i hagree
      obtain ⟨rfl, rfl⟩ := Prod.mk.inj (Option.some.inj hstep)
      rw [List.append_nil]
      exact ⟨h.env hagree, .inr ⟨hagree.remaining, nofun⟩⟩
    · cases hstep

theorem TaskPhase.runs {s₀ : CoSys} (hstart : TaskStart p c data s₀) (hdata : data < 100000)
    (h : Runs (sliceMachine n p c) (ResumesTask p c) s₀ tr s) : TaskPhase p c data tr s := by
  refine Runs.invariant (I := fun tr s => TaskPhase p c data tr s) hstart.phase ?_ h
  intro tr es s t act hphase hok hstep
  exact (hphase.step hdata hok hstep).1

/-- The environment sets or clears the flag and gives CPU `p` the request that resumes the
task. -/
def CoSys.prompt (p : Nat) (c : Addr) (b : Bool) (s : CoSys) : CoSys :=
  s.setData p { (s.sys.cpu p).data with
    workerPreempted := b
    request := { rnbl := c, category := .context, flag := .active } }

theorem setData_agrees_own (s : CoSys) {d : PerCpu}
    (hfin : d.finished = (s.sys.cpu p).data.finished)
    (hworker : d.ctxWorker = (s.sys.cpu p).data.ctxWorker) : Agrees p c s (s.setData p d) := by
  refine ⟨rfl, rfl, rfl, ?_, ?_⟩
  · rw [setData_data, hfin]
  · rw [setData_data, hworker]

theorem prompt_data (p : Nat) (c : Addr) (b : Bool) (s : CoSys) :
    ((s.prompt p c b).sys.cpu p).data = { (s.sys.cpu p).data with
      workerPreempted := b
      request := { rnbl := c, category := .context, flag := .active } } :=
  setData_data s p _

theorem agrees_prompt (p : Nat) (c : Addr) (b : Bool) (s : CoSys) :
    Agrees p c s (s.prompt p c b) := setData_agrees_own s rfl rfl

theorem TaskPhase.thread {w : Nat} {pc : WorkerPc} (h : TaskPhase p c data tr s)
    (hflow : s.flow p = .thread w pc) : w = p := by
  cases h with
  | entered h | body h | test h | reports h | resumes h | reportsEnd h | done h =>
    rw [h] at hflow
    cases hflow
    try rfl

theorem TaskPhase.spin (h : TaskPhase p c data tr s) (hflow : s.flow p = .thread p .spin) :
    (s.ctx c).isYielded = true ∨ WorkDone (max 1 data) tr := by
  cases h with
  | entered h | body h | test h =>
    rw [h] at hflow
    cases hflow
  | reports h hpc | reportsEnd h hpc =>
    rw [h] at hflow
    cases hflow
    cases hpc
  | resumes _ _ hctx =>
    left
    rw [hctx]
    rfl
  | done _ _ _ hdone => exact .inr hdone

theorem TaskPhase.resumesTask (h : TaskPhase p c data tr s) (hdone : ¬ WorkDone (max 1 data) tr)
    (hcat : (s.sys.cpu p).data.request.category = .context)
    (hrnbl : (s.sys.cpu p).data.request.rnbl = c) : ResumesTask p c s .exec := by
  unfold ResumesTask
  dsimp only
  split
  · rename_i w hflow
    obtain rfl := h.thread hflow
    exact .inr ((h.spin hflow).resolve_right hdone)
  · rename_i w hflow
    obtain rfl := h.thread hflow
    rw [hcat]
    nofun
  · rename_i w hflow
    obtain rfl := h.thread hflow
    exact hrnbl
  · trivial

/-- Prompted, the CPU goes on with the task, whatever its next check is to find. -/
theorem TaskPhase.prompted (h : TaskPhase p c data tr s) (hdata : data < 100000)
    (hdone : ¬ WorkDone (max 1 data) tr) (b : Bool) :
    ∃ u es, Runs (sliceMachine n p c) (ResumesTask p c) s es u ∧
      TaskPhase p c data (tr ++ es) u ∧ (observations es = [] ∨ observations es = [b]) ∧
      u.remaining p c < s.remaining p c := by
  have hagree := agrees_prompt p c b s
  have hprompt := prompt_data p c b s
  have h' := h.env hagree
  have hok : ResumesTask p c (s.prompt p c b) .exec :=
    h'.resumesTask hdone (by rw [hprompt]) (by rw [hprompt])
  obtain ⟨u, es, hstep, hphase, hobs, hless⟩ := h'.exec (n := n) hdata hok
  have henv : sliceStep n p c s (.env (s.prompt p c b)) = some (s.prompt p c b, []) := if_pos hagree
  rw [hprompt] at hobs
  refine ⟨u, es, ?_, hphase, hobs, ?_⟩
  · have hfirst : Runs (sliceMachine n p c) (ResumesTask p c) s [] (s.prompt p c b) :=
      Runs.next .start (show ResumesTask p c s (.env _) from trivial) henv
    exact hfirst.next hok hstep
  · rw [hagree.remaining] at hless
    rcases hless with hless | ⟨⟨-, hwait⟩, -⟩
    · exact hless
    · rw [hprompt] at hwait
      cases hwait

/-- From wherever the task stands it can be brought to its end, and the checks on the way may
find what they like. -/
theorem TaskPhase.completes (h : TaskPhase p c data tr s) (hdata : data < 100000) (bs : List Bool)
    (hbs : (observations tr).length + bs.length = max 1 data) :
    ∃ rest t, Runs (sliceMachine n p c) (ResumesTask p c) s rest t ∧
      WorkDone (max 1 data) (tr ++ rest) ∧ observations rest = bs := by
  -- the induction is on the steps that remain
  induction hm : s.remaining p c using Nat.strong_induction_on generalizing tr s bs with
  | _ m ih =>
    by_cases hdone : WorkDone (max 1 data) tr
    · refine ⟨[], s, .start, by simpa using hdone, ?_⟩
      have hlen := hdone.bodies
      exact (List.eq_nil_of_length_eq_zero (by omega)).symm
    · obtain ⟨u, es, hrun, hphase, hobs, hless⟩ := h.prompted (n := n) hdata hdone (bs.headD false)
      have hbound : (observations (tr ++ es)).length ≤ max 1 data := by
        rcases hphase.work with hw | hw
        · exact hw.bodies
        · exact hw.bodies.le
      rw [observations_append, List.length_append] at hbound
      rcases hobs with hobs | hobs
      · obtain ⟨rest, t, hrest, hwork, hbs'⟩ := ih _ (hm ▸ hless) hphase bs
          (by simpa [hobs] using hbs) rfl
        refine ⟨es ++ rest, t, hrun.trans hrest, ?_, ?_⟩
        · rwa [← List.append_assoc]
        · rw [observations_append, hobs, hbs', List.nil_append]
      · cases bs with
        | nil =>
          rw [hobs, List.length_singleton] at hbound
          rw [List.length_nil] at hbs
          omega
        | cons b bs =>
          obtain ⟨rest, t, hrest, hwork, hbs'⟩ := ih _ (hm ▸ hless) hphase bs
            (by rw [← hbs, observations_append, hobs]; simp; omega) rfl
          refine ⟨es ++ rest, t, hrun.trans hrest, ?_, ?_⟩
          · rwa [← List.append_assoc]
          · rw [observations_append, hobs, hbs']
            rfl

end Phases

/-- In every run, whatever the checks find: until the `FINISHED` response the body has run at most
`max 1 data` times and each observed preemption has at most one response, after it everything
has happened exactly once. The run is never stuck: it can go on to the `FINISHED` response,
with any choice of what the checks still to come find, and every step that is neither one of the
environment nor a wait for the next request brings it closer. -/
theorem preempted_task_does_its_work {n p data : Nat} {c : Addr} {tr : List SliceEvent}
    {s₀ s : CoSys} (hdata : data < 100000) (hstart : TaskStart p c data s₀)
    (h : Runs (sliceMachine n p c) (ResumesTask p c) s₀ tr s) :
    (WorkLeft (max 1 data) tr ∨ WorkDone (max 1 data) tr) ∧
      (∀ bs : List Bool, (observations tr).length + bs.length = max 1 data →
        ∃ rest t, Runs (sliceMachine n p c) (ResumesTask p c) s₀ (tr ++ rest) t ∧
          WorkDone (max 1 data) (tr ++ rest) ∧ observations rest = bs) ∧
      ∀ act t es, ResumesTask p c s act → sliceStep n p c s act = some (t, es) →
        t.remaining p c < s.remaining p c ∨
          t.remaining p c = s.remaining p c ∧ (act = .exec → s.waits p) := by
  have hphase := TaskPhase.runs hstart hdata h
  refine ⟨hphase.work, ?_, ?_⟩
  · intro bs hbs
    obtain ⟨rest, t, hrest, hwork, hobs⟩ := hphase.completes (n := n) hdata bs hbs
    exact ⟨rest, t, h.trans hrest, hwork, hobs⟩
  · intro act t es hok hstep
    exact (hphase.step hdata hok hstep).2

/-- CPU 2 has just swapped into a new task whose context its `ctx_worker` holds. -/
def enteredTask (data : Nat) : CoSys where
  sys := { Sys.init with cpu := fun _ => { data := { ctxWorker := 0x1000 } } }
  flow := fun i => if i = 2 then .entry data else .absent
  ctxMain := fun i => if i = 2 then some 2 else none
  ctx := fun _ => .garbage
  ipi := fun _ => false

/-- Three executions of the body, preempted at the second check and at the last. -/
theorem preempted_task_does_its_work_thrice :
    ∃ tr s, Runs (sliceMachine 6 2 0x1000) (ResumesTask 2 0x1000) (enteredTask 3) tr s ∧
      WorkDone 3 tr ∧ observations tr = [false, true, true] := by
  have hstart : TaskStart 2 0x1000 3 (enteredTask 3) := ⟨rfl, rfl, rfl, rfl⟩
  obtain ⟨-, hcomplete, -⟩ := preempted_task_does_its_work (n := 6) (by decide) hstart .start
  exact hcomplete [false, true, true] rfl

end ThletEvaluation.Shinjuku
