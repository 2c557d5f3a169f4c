import ThletEvaluation.Lib.Observer
import ThletEvaluation.Shinjuku.Dispatcher

/-!
# The scheduler as its events show it

What the scheduler is for: a queue of tasks and one mailbox per worker. Each mailbox
goes through the same cycle (a task is popped for it, posted, taken, run, reported and
settled by the dispatcher), and the queue takes part when a task is popped or queued
again. `schedObserver` refuses every other order of events.
-/

namespace ThletEvaluation.Shinjuku

open Run

set_option autoImplicit false

inductive Progress where
  | taken
  | handled
  | entered
  deriving DecidableEq

inductive Slot where
  | empty
  /-- Popped for this worker, not yet visible to it. -/
  | handed (t : Task)
  | posted (e : Task)
  /-- Taken; `ctx` is the worker's `ctx_worker` at that moment. -/
  | running (e : Task) (ctx : Addr) (k : Progress)
  | reported (e : Task) (ctx : Addr) (fin : Bool)
  /-- Reported as finished, and its context is already freed. -/
  | freed (e : Task) (ctx : Addr)
  deriving DecidableEq

/-- What `finish_request` leaves in the response for the request `e`: the context is
that of `ctx_worker`, which only `handle_context` has set to the one of `e`. -/
def answer (e : Task) (ctx : Addr) : Task :=
  { e with rnbl := if e.category = .packet then ctx else e.rnbl, category := .context }

def report (e : Task) (ctx : Addr) (fin : Bool) : WorkerResponse :=
  { answer e ctx with flag := if fin then .finished else .preempted }

def Slot.next : Slot → Event → Option Slot
  | .empty, .pop _ t => some (.handed t)
  | .handed t, .dispatch _ e =>
    if e = { t with timestamp := e.timestamp } then some (.posted e) else none
  | .posted e, .take _ e' ctx => if e' = e then some (.running e ctx .taken) else none
  | .running e ctx .taken, .handle _ new =>
    if new = decide (e.category = .packet) then some (.running e ctx .handled) else none
  | .running e ctx .handled, .swapIn _ cont =>
    if cont = e.rnbl then some (.running e ctx .entered) else none
  | .running e ctx .entered, .publish _ r =>
    if r = report e ctx true then some (.reported e ctx true)
    else if r = report e ctx false then some (.reported e ctx false)
    else none
  | .reported e ctx true, .contextFree _ c =>
    if c = (answer e ctx).rnbl then some (.freed e ctx) else none
  | .freed e _, .consumeSkb _ m => if m = e.mbuf then some .empty else none
  | .reported e ctx false, .requeue _ t _ => if t = answer e ctx then some .empty else none
  | α, .ipi _ => some α
  | _, _ => none

def queueNext (q : List Task) : Event → Option (List Task)
  | .enqueue t => if t.category = .packet ∧ q.length < TSKQ_SIZE then some (q ++ [t]) else none
  | .pop _ t => if q.head? = some t then some q.tail else none
  | .requeue _ t stored => if stored = (kfifoIn q t).2 then some (kfifoIn q t).1 else none
  | _ => some q

def Event.worker : Event → Option Nat
  | .drop _ | .enqueue _ => none
  | .pop i _ | .dispatch i _ | .take i _ _ | .handle i _ | .swapIn i _ | .publish i _
  | .contextFree i _ | .consumeSkb i _ | .requeue i _ _ | .ipi i => some i

structure Sched where
  queue : List Task
  slot : Nat → Slot

def Sched.init : Sched := ⟨[], fun _ => .empty⟩

def Sched.next (a : Sched) (ev : Event) : Option Sched :=
  match queueNext a.queue ev, ev.worker with
  | none, _ => none
  | some q, none => some { a with queue := q }
  | some q, some i =>
    match (a.slot i).next ev with
    | none => none
    | some α => some ⟨q, Function.update a.slot i α⟩

def slotObserver : Observer Slot Event := ⟨Slot.next⟩

def queueObserver : Observer (List Task) Event := ⟨queueNext⟩

def schedObserver : Observer Sched Event := ⟨Sched.next⟩

inductive SlotStep (i : Nat) : Slot → Event → Slot → Prop where
  | pop (t : Task) : SlotStep i .empty (.pop i t) (.handed t)
  | dispatch (t : Task) (time : UInt64) :
      SlotStep i (.handed t) (.dispatch i { t with timestamp := time })
        (.posted { t with timestamp := time })
  | take (e : Task) (ctx : Addr) :
      SlotStep i (.posted e) (.take i e ctx) (.running e ctx .taken)
  | handle (e : Task) (ctx : Addr) :
      SlotStep i (.running e ctx .taken) (.handle i (decide (e.category = .packet)))
        (.running e ctx .handled)
  | swapIn (e : Task) (ctx : Addr) :
      SlotStep i (.running e ctx .handled) (.swapIn i e.rnbl) (.running e ctx .entered)
  | publish (e : Task) (ctx : Addr) (fin : Bool) :
      SlotStep i (.running e ctx .entered) (.publish i (report e ctx fin))
        (.reported e ctx fin)
  | contextFree (e : Task) (ctx : Addr) :
      SlotStep i (.reported e ctx true) (.contextFree i (answer e ctx).rnbl) (.freed e ctx)
  | consumeSkb (e : Task) (ctx : Addr) : SlotStep i (.freed e ctx) (.consumeSkb i e.mbuf) .empty
  | requeue (e : Task) (ctx : Addr) (stored : Bool) :
      SlotStep i (.reported e ctx false) (.requeue i (answer e ctx) stored) .empty
  | ipi (α : Slot) : SlotStep i α (.ipi i) α

theorem slotStep_of_next {i : Nat} {α β : Slot} {ev : Event} (hw : ev.worker = some i)
    (h : α.next ev = some β) : SlotStep i α ev β := by
  unfold Slot.next at h
  split at h
  case h_1 =>
    obtain rfl := by simpa [Event.worker] using hw
    obtain rfl := by simpa using h
    exact .pop _
  case h_2 =>
    obtain rfl := by simpa [Event.worker] using hw
    obtain ⟨heq, rfl⟩ := by simpa using h
    rw [heq]
    exact .dispatch _ _
  case h_6 =>
    obtain rfl := by simpa [Event.worker] using hw
    split at h
    · obtain rfl := by simpa using h
      subst_vars
      exact .publish _ _ _
    · obtain ⟨rfl, rfl⟩ := by simpa using h
      exact .publish _ _ _
  case h_10 =>
    obtain rfl := by simpa [Event.worker] using hw
    obtain rfl := by simpa using h
    exact .ipi _
  case h_11 => simp at h
  all_goals
    obtain rfl := by simpa [Event.worker] using hw
    obtain ⟨rfl, rfl⟩ := by simpa using h
    constructor

/-- Everything an accepted event can be. -/
theorem Sched.next_cases {a b : Sched} {ev : Event} (h : a.next ev = some b) :
    ∃ q, queueNext a.queue ev = some q ∧
      ((ev.worker = none ∧ b = { a with queue := q }) ∨
        ∃ i β, ev.worker = some i ∧ SlotStep i (a.slot i) ev β ∧
          b = ⟨q, Function.update a.slot i β⟩) := by
  unfold Sched.next at h
  cases hq : queueNext a.queue ev with
  | none => simp [hq] at h
  | some q =>
    cases hw : ev.worker with
    | none =>
      rw [hq, hw] at h
      exact ⟨q, rfl, .inl ⟨rfl, by simpa using h.symm⟩⟩
    | some i =>
      cases hs : (a.slot i).next ev with
      | none => simp [hq, hw, hs] at h
      | some β =>
        simp only [hq, hw, hs, Option.some.injEq] at h
        exact ⟨q, rfl, .inr ⟨i, β, rfl, slotStep_of_next hw hs, h.symm⟩⟩

theorem Sched.next_of_slot {a : Sched} {ev : Event} {i : Nat} {q : List Task} {α : Slot}
    (hw : ev.worker = some i) (hq : queueNext a.queue ev = some q)
    (hs : (a.slot i).next ev = some α) :
    a.next ev = some ⟨q, Function.update a.slot i α⟩ := by
  simp [Sched.next, hw, hq, hs]

theorem schedObserver_accept {a : Sched} {es : List Event} {i : Nat} {q : List Task} {α : Slot}
    (hw : ∀ e ∈ es, e.worker = some i) (hq : queueObserver.accept a.queue es = some q)
    (hs : slotObserver.accept (a.slot i) es = some α) :
    schedObserver.accept a es = some ⟨q, Function.update a.slot i α⟩ := by
  induction es generalizing a with
  | nil =>
    obtain rfl : a.queue = q := by simpa using hq
    obtain rfl : a.slot i = α := by simpa using hs
    simp
  | cons e es ih =>
    obtain ⟨q₁, hq₁, hq⟩ := Observer.accept_cons_iff.mp hq
    obtain ⟨α₁, hs₁, hs⟩ := Observer.accept_cons_iff.mp hs
    apply Observer.accept_cons_iff.mpr
    refine ⟨_, Sched.next_of_slot (hw e (by simp)) hq₁ hs₁, ?_⟩
    have hrest := ih (a := ⟨q₁, Function.update a.slot i α₁⟩)
      (fun e he => hw e (by simp [he])) hq (by simpa using hs)
    simpa using hrest

end ThletEvaluation.Shinjuku
