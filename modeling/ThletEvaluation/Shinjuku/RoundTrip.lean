import ThletEvaluation.Shinjuku.Handshake

/-!
# The context pointer on its way through a worker

`handle_context` stores the context of its request in `ctx_worker`, and `finish_request`
reports what `ctx_worker` holds. `handle_new_packet` keeps the context in a local
variable only, so for a new packet the report names whatever `ctx_worker` held before.
The buffer pointer always comes back as it was dispatched.
-/

namespace ThletEvaluation.Shinjuku

open Run

set_option autoImplicit false

def Event.dispatched (i : Nat) : Event → Option Task
  | .dispatch j e => if j = i then some e else none
  | _ => none

def Event.takenCtx (i : Nat) : Event → Option Addr
  | .take j _ ctx => if j = i then some ctx else none
  | _ => none

/-- The task that `dispatch_request` last handed to worker `i`. -/
def handedTo (i : Nat) (tr : List Event) : Option Task :=
  (tr.filterMap (Event.dispatched i)).getLast?

/-- `ctx_worker` of worker `i` when it last took a request. -/
def ctxAtTake (i : Nat) (tr : List Event) : Option Addr :=
  (tr.filterMap (Event.takenCtx i)).getLast?

/-- The context that worker `i` publishes, or that the dispatcher frees or queues again
on its behalf. -/
def Event.returnedCtx : Event → Option (Nat × Addr)
  | .publish i r => some (i, r.rnbl)
  | .contextFree i c => some (i, c)
  | .requeue i t _ => some (i, t.rnbl)
  | _ => none

def Event.returnedMbuf : Event → Option (Nat × Addr)
  | .publish i r => some (i, r.mbuf)
  | .consumeSkb i m => some (i, m)
  | .requeue i t _ => some (i, t.mbuf)
  | _ => none

theorem answer_rnbl_eq_iff (e : Task) (ctx : Addr) :
    (answer e ctx).rnbl = e.rnbl ↔ e.category ≠ .packet ∨ ctx = e.rnbl := by
  by_cases h : e.category = .packet <;> simp [answer, h]

def Remembers (i : Nat) (tr : List Event) : Slot → Prop
  | .empty | .handed _ => True
  | .posted e => handedTo i tr = some e
  | .running e ctx _ | .reported e ctx _ | .freed e ctx =>
    handedTo i tr = some e ∧ ctxAtTake i tr = some ctx

theorem remembers_silent {i : Nat} {tr : List Event} {ev : Event} {α : Slot}
    (h : Remembers i tr α) (hd : ev.dispatched i = none) (ht : ev.takenCtx i = none) :
    Remembers i (tr ++ [ev]) α := by
  have hh : handedTo i (tr ++ [ev]) = handedTo i tr := by simp [handedTo, hd]
  have hc : ctxAtTake i (tr ++ [ev]) = ctxAtTake i tr := by simp [ctxAtTake, ht]
  cases α <;> simp only [Remembers, hh, hc] at h ⊢ <;> exact h

theorem remembers_slotStep {i : Nat} {tr : List Event} {ev : Event} {α β : Slot}
    (h : Remembers i tr α) (hstep : SlotStep i α ev β) : Remembers i (tr ++ [ev]) β := by
  cases hstep with
  | ipi => exact remembers_silent h rfl rfl
  | _ => simp_all [Remembers, handedTo, ctxAtTake, Event.dispatched, Event.takenCtx]

theorem remembers_other {i : Nat} {tr : List Event} {ev : Event} {α : Slot}
    (h : Remembers i tr α) (hw : ev.worker ≠ some i) : Remembers i (tr ++ [ev]) α := by
  apply remembers_silent h
  · cases ev <;> simp_all [Event.worker, Event.dispatched]
  · cases ev <;> simp_all [Event.worker, Event.takenCtx]

theorem accept_remembers {tr : List Event} {a : Sched}
    (h : schedObserver.accept Sched.init tr = some a) (i : Nat) : Remembers i tr (a.slot i) := by
  apply Observer.accept_invariant (I := fun tr (a : Sched) => Remembers i tr (a.slot i)) _ _ h
  · trivial
  intro tr c ev d hc hnext
  obtain ⟨q, -, ⟨hw, rfl⟩ | ⟨j, β, hw, hstep, rfl⟩⟩ := Sched.next_cases hnext
  · exact remembers_other hc (by simp [hw])
  · rcases eq_or_ne j i with rfl | hne
    · simpa using remembers_slotStep hc hstep
    · simpa [hne.symm] using remembers_other hc (by simp [hw, hne])

theorem returned_of_slotStep {i j : Nat} {tr : List Event} {ev : Event} {α β : Slot}
    (h : Remembers i tr α) (hstep : SlotStep i α ev β) :
    (∀ c, ev.returnedCtx = some (j, c) →
        ∃ e ctx, handedTo j tr = some e ∧ ctxAtTake j tr = some ctx ∧ c = (answer e ctx).rnbl) ∧
      ∀ m, ev.returnedMbuf = some (j, m) → ∃ e, handedTo j tr = some e ∧ m = e.mbuf := by
  cases hstep <;>
    simp_all [Event.returnedCtx, Event.returnedMbuf, Remembers, report] <;>
    grind [answer]

/-- For every publication, and for every context that is then freed or queued again: the
buffer is the one that was dispatched, and the context is the one that was dispatched
exactly when the task was resumed or `ctx_worker` happened to hold its context already. -/
theorem context_round_trip_iff {n : Nat} {tr : List Event} {s : Sys}
    (h : Runs (machine n) (fun _ _ => True) Sys.init tr s) {before after : List Event}
    {ev : Event} (hev : tr = before ++ ev :: after) (i : Nat) :
    (∀ c, ev.returnedCtx = some (i, c) →
        ∃ e ctx, handedTo i before = some e ∧ ctxAtTake i before = some ctx ∧
          (c = e.rnbl ↔ e.category ≠ .packet ∨ ctx = e.rnbl)) ∧
      ∀ m, ev.returnedMbuf = some (i, m) → ∃ e, handedTo i before = some e ∧ m = e.mbuf := by
  obtain ⟨a, hacc, -⟩ := machine_simulates h
  subst hev
  obtain ⟨c, d, hc, hnext⟩ := Observer.accept_split hacc
  obtain ⟨q, -, ⟨hw, rfl⟩ | ⟨j, β, hw, hstep, rfl⟩⟩ := Sched.next_cases hnext
  · cases ev <;> simp_all [Event.worker, Event.returnedCtx, Event.returnedMbuf]
  · obtain ⟨hctx, hmbuf⟩ := returned_of_slotStep (j := i) (accept_remembers hc j) hstep
    refine ⟨?_, hmbuf⟩
    intro x hx
    obtain ⟨e, ctx, he, ht, rfl⟩ := hctx x hx
    exact ⟨e, ctx, he, ht, answer_rnbl_eq_iff e ctx⟩

/-- The first packet a worker runs is published with the context `NULL`. -/
theorem published_context_of_first_packet :
    ¬ ∀ (n : Nat) (tr : List Event) (s : Sys),
      Runs (machine n) (fun _ _ => True) Sys.init tr s →
      ∀ (before after : List Event) (i : Nat) (r : WorkerResponse) (e : Task),
        tr = before ++ .publish i r :: after → handedTo i before = some e →
          r.rnbl = e.rnbl ∧ r.mbuf = e.mbuf := by
  intro hclaim
  obtain ⟨s, hrun⟩ := firstSlice_runs
  have heq := hclaim 5 _ s hrun (firstSliceTrace.take 6) [] 2 (report firstTask NULL false)
    firstTask (by decide) (by decide)
  exact absurd heq.1 (by decide)

theorem context_round_trip_iff_firstSlice :
    ∃ s, Runs (machine 5) (fun _ _ => True) Sys.init firstSliceTrace s ∧
      ∃ e ctx, handedTo 2 (firstSliceTrace.take 6) = some e ∧
        ctxAtTake 2 (firstSliceTrace.take 6) = some ctx ∧
        ((report firstTask NULL false).rnbl = e.rnbl ↔ e.category ≠ .packet ∨ ctx = e.rnbl) := by
  obtain ⟨s, hrun⟩ := firstSlice_runs
  have hsplit : firstSliceTrace =
      firstSliceTrace.take 6 ++ .publish 2 (report firstTask NULL false) :: [] := by decide
  exact ⟨s, hrun, (context_round_trip_iff hrun hsplit 2).1 _ rfl⟩

end ThletEvaluation.Shinjuku
