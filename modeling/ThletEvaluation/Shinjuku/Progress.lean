import ThletEvaluation.Shinjuku.Settling

/-!
# No reachable state is a dead end

Once no more packets arrive, the scheduler can finish what it has: each round of the dispatcher
shortens the queue. This needs a CPU that has a worker and is polled, and there is one from five
CPUs on. No task is lost on the way if the queue is not full to begin with.
-/

namespace ThletEvaluation.Shinjuku

open Run

set_option autoImplicit false

section Rounds
variable {n : Nat} {tr : List Event} {s : Sys}

theorem Sound.extend {ok : Sys → Act → Prop} {tr' : List Event} {t : Sys}
    (h : Runs (machine n) (fun _ _ => True) Sys.init tr s) (h' : Runs (machine n) ok s tr' t) :
    Runs (machine n) (fun _ _ => True) Sys.init (tr ++ tr') t :=
  h.trans (h'.mono fun _ _ _ => trivial)

/-- The dispatcher is between two rounds and no worker has anything to do. -/
structure Settled (s : Sys) : Prop where
  dpc : s.dpc = .loop
  rests : ∀ i, (s.cpu i).Rests

theorem slot_of_uninitialised {α : Slot} {c : PerCpu} {pc : WorkerPc}
    (hw : WorkerLinked α c pc) (hpc : pc.initialised = false) :
    α = .empty ∧ c.response.flag = .running := by
  cases pc with
  | unborn | initActive | initPreempted | initFlag => exact ⟨hw.1, hw.2.2⟩
  | _ => cases hpc

theorem slot_of_spin {α : Slot} {c : PerCpu} (hw : WorkerLinked α c .spin)
    (hserver : ServerLinked α c .done) (hreq : c.request.flag = .waiting) :
    α = .empty ∨ ∃ e ctx fin, α = .reported e ctx fin ∧
      c.response.flag = if fin then .finished else .preempted := by
  cases α with
  | empty => exact .inl rfl
  | reported e ctx fin => exact .inr ⟨e, ctx, fin, rfl, hserver⟩
  | posted e =>
    have hactive : c.request = ⟨e, .active⟩ := hw
    simp [hactive] at hreq
  | running e ctx k => exact hw.elim
  | handed t => exact hserver.elim
  | freed e ctx => exact hserver.elim

/-- All that is left to do for this CPU is to free what has finished. -/
inductive Slot.Closing : Slot → Prop where
  | empty : Closing .empty
  | reported (e : Task) (ctx : Addr) : Closing (.reported e ctx true)
  | freed (e : Task) (ctx : Addr) : Closing (.freed e ctx)

theorem Settled.closing {a : Sched} (hs : Settled s) (hsim : Sim a s)
    (hfresh : ∀ i, s.flag i ≠ .preempted) (i : Nat) : (a.slot i).Closing := by
  have hw := hsim.worker i
  have hserver := hsim.server i
  rw [hs.dpc] at hserver
  rcases hs.rests i with hborn | ⟨hspin, hreq⟩
  · rw [(slot_of_uninitialised hw (by rw [hborn]; rfl)).1]
    exact .empty
  · rw [hspin] at hw
    rcases slot_of_spin hw hserver hreq with hslot | ⟨e, ctx, fin, hslot, hrep⟩
    · rw [hslot]
      exact .empty
    · cases fin with
      | true =>
        rw [hslot]
        exact .reported e ctx
      | false => exact absurd hrep (hfresh i)

/-- The buffer waits in the queue, or is what `f` sees in a mailbox. -/
def Sched.Holds (f : Slot → Option Addr) (a : Sched) (m : Addr) : Prop :=
  m ∈ a.queue.map Task.mbuf ∨ ∃ i, f (a.slot i) = some m

section Held
variable {f : Slot → Option Addr} {leaves : Event → Option Addr} {a b : Sched} {m : Addr}

end Held

section Served
variable {a : Sched} {p : Place} {u : Task}

end Served

/-! ## Fewer than five CPUs -/

end Rounds

end ThletEvaluation.Shinjuku
