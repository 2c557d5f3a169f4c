import ThletEvaluation.Shinjuku.Common

/-!
# The dispatcher

The functions of `dispatcher.c`, each as one uninterrupted call on the per-CPU
variables of the worker it serves and on the task queue. What the allocator and the
network stack do is left to the caller: `context_free` and `dev_consume_skb_any` are
events, and the results of `shinjuku_rpc_get` and `context_alloc` are arguments.
-/

namespace ThletEvaluation.Shinjuku

set_option autoImplicit false

/-- The per-CPU variables of `dispatcher.c` and `worker.c`. The zeroed struct is `{}`. -/
structure PerCpu where
  workerActive : Bool := false
  shinjukuTimestamp : UInt64 := 0
  preemptCheck : Bool := false
  response : WorkerResponse := {}
  request : DispatcherRequest := {}
  ctxWorker : Addr := NULL
  finished : Bool := false
  workerPreempted : Bool := false
  deriving DecidableEq

def TSKQ_SIZE : Nat := 128

/-- `kfifo_in` of one record: a full queue takes nothing and the caller is told so. -/
def kfifoIn (q : List Task) (t : Task) : List Task × Bool :=
  if q.length < TSKQ_SIZE then (q ++ [t], true) else (q, false)

theorem kfifoIn_of_room {q : List Task} (t : Task) (h : q.length < TSKQ_SIZE) :
    kfifoIn q t = (q ++ [t], true) := if_pos h

theorem kfifoIn_of_full {q : List Task} (t : Task) (h : ¬ q.length < TSKQ_SIZE) :
    kfifoIn q t = (q, false) := if_neg h

inductive Event where
  /-- `shinjuku_rpc_get` returned a packet that is not stored anywhere. -/
  | drop (m : Addr)
  | enqueue (t : Task)
  | pop (i : Nat) (t : Task)
  /-- The request of worker `i` became `ACTIVE`. -/
  | dispatch (i : Nat) (t : Task)
  /-- Worker `i` reset its request to `WAITING`; its `ctx_worker` was `ctx` then. -/
  | take (i : Nat) (t : Task) (ctx : Addr)
  /-- Worker `i` entered `handle_new_packet` or, otherwise, `handle_context`. -/
  | handle (i : Nat) (newPacket : Bool)
  | swapIn (i : Nat) (cont : Addr)
  | publish (i : Nat) (r : WorkerResponse)
  | contextFree (i : Nat) (c : Addr)
  | consumeSkb (i : Nat) (m : Addr)
  | requeue (i : Nat) (t : Task) (stored : Bool)
  | ipi (i : Nat)
  deriving DecidableEq

def PerCpu.setResponseFlag (c : PerCpu) (f : ResponseFlag) : PerCpu :=
  { c with response := { c.response with flag := f } }

def PerCpu.setRequestFlag (c : PerCpu) (f : RequestFlag) : PerCpu :=
  { c with request := { c.request with flag := f } }

def handleFinished (i : Nat) (c : PerCpu) : PerCpu × List Event :=
  (PerCpu.setResponseFlag { c with preemptCheck := false } .processed,
    [.contextFree i c.response.rnbl, .consumeSkb i c.response.mbuf])

/-- The return value of `kfifo_in` is ignored. -/
def handlePreempted (i : Nat) (c : PerCpu) (q : List Task) : PerCpu × List Task × List Event :=
  let r := kfifoIn q c.response.toTask
  (PerCpu.setResponseFlag { c with preemptCheck := false } .processed, r.1,
    [.requeue i c.response.toTask r.2])

/-- `none` is the failing `BUG_ON(request->flag != WAITING)`. -/
def dispatchRequest (i : Nat) (curTime : UInt64) (c : PerCpu) :
    List Task → Option (PerCpu × List Task × List Event)
  | [] => some (c, [], [])
  | t :: q =>
    if c.request.flag ≠ .waiting then none
    else
      let req := { t with timestamp := curTime }
      some ({ c with
        response := { c.response with flag := .running }
        request := { toTask := req, flag := .active }
        shinjukuTimestamp := curTime
        preemptCheck := true }, q, [.pop i t, .dispatch i req])

def preemptWorker (i : Nat) (curTime : UInt64) (c : PerCpu) : PerCpu × List Event :=
  if c.preemptCheck ∧ curTime - c.shinjukuTimestamp > PREEMPTION_DELAY then
    ({ c with preemptCheck := false }, [.ipi i])
  else (c, [])

def handleWorker (i : Nat) (curTime : UInt64) (c : PerCpu) (q : List Task) :
    Option (PerCpu × List Task × List Event) :=
  if c.response.flag ≠ .running then
    let r :=
      if c.response.flag = .finished then
        let f := handleFinished i c
        (f.1, q, f.2)
      else if c.response.flag = .preempted then handlePreempted i c q
      else (c, q, [])
    (dispatchRequest i curTime r.1 r.2.1).map fun d => (d.1, d.2.1, r.2.2 ++ d.2.2)
  else
    let p := preemptWorker i curTime c
    some (p.1, q, p.2)

/-- One round of the loop of `handle_networker`, with the packet that was fetched, the
remaining batch and the result of `context_alloc`. The second component tells whether
the loop goes on. -/
def networkerRound (curTime : UInt64) (data : Addr) (cont : Option Addr) (maxBatch : Nat)
    (q : List Task) : List Task × Bool × List Event :=
  if data = NULL then (q, false, [])
  else if maxBatch = 0 then (q, false, [.drop data])
  else
    match cont with
    | none => (q, true, [.drop data])
    | some c =>
      let t : Task :=
        { rnbl := c, mbuf := data, timestamp := curTime, type := 0, category := .packet }
      let r := kfifoIn q t
      (r.1, true, if r.2 then [.enqueue t] else [.drop data])

def MAX_BATCH : Nat := 16

end ThletEvaluation.Shinjuku
