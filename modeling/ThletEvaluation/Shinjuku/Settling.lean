import ThletEvaluation.Lib.Threads
import ThletEvaluation.Shinjuku.Ownership
import ThletEvaluation.Shinjuku.Sweep

/-!
# The workers and the dispatcher come to rest

From every reachable state of the loop, the dispatcher comes to the end of its round when there
are no more packets, and the workers finish what they have been given and spin.
-/

namespace ThletEvaluation.Shinjuku

open Run

set_option autoImplicit false

/-- The dispatcher has come to its loop. -/
def DispatcherPc.started : DispatcherPc → Bool
  | .loop | .serve .. | .net _ => true
  | _ => false

/-- Every worker spins on a request that is not there. -/
def Core.Rests (c : Core) : Prop :=
  c.pc = .unborn ∨ (c.pc = .spin ∧ c.data.request.flag = .waiting)

def Stage.resting : Stage → Bool
  | .poll | .preempt | .done => true
  | _ => false

/-- A worker that spins has written its response flag, and it stays written until the next
request. -/
def Ready (s : Sys) : Prop :=
  ∀ i, (s.cpu i).pc = .spin → (s.cpu i).data.request.flag = .waiting →
    (stageOf s.dpc i).resting = true → s.flag i ≠ .running

/-- The threads on the CPUs below this one exist. -/
def DispatcherPc.made (n : Nat) : DispatcherPc → Nat
  | .start | .halted => 0
  | .create k => k
  | _ => n

def Crew (n : Nat) (s : Sys) : Prop :=
  ∀ i, 2 ≤ i → i < s.dpc.made n → (s.cpu i).pc ≠ .unborn

section Steps
variable {n : Nat} {s t : Sys} {es : List Event} {a : Sched}

end Steps

def WorkerPc.left (flag : RequestFlag) : WorkerPc → Nat
  | .unborn => 0
  | .initActive => 3
  | .initPreempted => 2
  | .initFlag => 1
  | .spin => if flag = .waiting then 0 else 40
  | .reset => 39
  | .category => 38
  | .newParse | .ctxFinished => 37
  | .newRnbl | .ctxRnbl => 36
  | .newFinished _ | .ctxStore _ => 35
  | .newSwap _ | .ctxSwap => 34
  | .body => 33
  | .finish => 32
  | .load todo _ => 2 * todo.length + 2
  | .store _ _ todo _ => 2 * todo.length + 3
  | .publish _ => 1

def Core.left (c : Core) : Nat := c.pc.left c.data.request.flag

/-- The worker is not about to report a preemption. -/
def Core.Ends (c : Core) : Prop :=
  c.data.response.flag ≠ .preempted ∧
    match c.pc with
    | .finish | .load .. | .store .. => c.data.finished = true
    | .publish fin => fin = true
    | _ => True

def Stage.left : Stage → Nat
  | .poll => 45
  | .isFinished => 44
  | .isPreempted => 43
  | .finFree => 42
  | .finConsume => 41
  | .finCheck => 40
  | .finFlag => 39
  | .copy todo _ => 33 + todo.length
  | .preCheck => 32
  | .preFlag => 31
  | .out => 30
  | .bugOn _ => 29
  | .setRunning _ => 28
  | .fill todo _ => 15 + todo.length
  | .setStamp _ => 14
  | .setCheck _ => 13
  | .setActive _ => 12
  | .preempt => 1
  | .done | .bug => 0

def DispatcherPc.left (n : Nat) : DispatcherPc → Nat
  | .serve k st => 2 + (n - k) * 50 + st.left
  | .net _ => 1
  | _ => 0

end ThletEvaluation.Shinjuku
