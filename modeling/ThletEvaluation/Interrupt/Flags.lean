import ThletEvaluation.Lib.Run

/-!
# The flags of the interrupt test

`receiver` and `sender_listener` of `test.c` as two sequentially consistent threads over the
three flags `start`, `received` and `finished`. A step is one access to a flag, one `ioctl`,
or one round of readings of the cycle counter, whose values are left to the outside: a gap
between two readings may or may not come from the IPI that the sender asked for.
-/

namespace ThletEvaluation.Interrupt

open Run

set_option autoImplicit false

structure Readings where
  t1 : UInt64
  t2 : UInt64
  t3 : UInt64
  t4 : UInt64
  t5 : UInt64
  t6 : UInt64
  deriving DecidableEq

/-- `t7` and `t8`, where `check` is set. -/
def gap (r : Readings) : Option (UInt64 × UInt64) :=
  if r.t2 - r.t1 > 1000 then some (r.t1, r.t2)
  else if r.t3 - r.t2 > 1000 then some (r.t2, r.t3)
  else if r.t4 - r.t3 > 1000 then some (r.t3, r.t4)
  else if r.t5 - r.t4 > 1000 then some (r.t4, r.t5)
  else if r.t6 - r.t5 > 1000 then some (r.t5, r.t6)
  else none

inductive ReceiverPc where
  | setStart
  | statStart
  | test
  | measure
  | getStats
  | statRestart
  | raise
  | wait
  | returned
  deriving DecidableEq

inductive SenderPc where
  | waitStart
  | send (i : Nat)
  | wait (i : Nat)
  | lower (i : Nat)
  | finish
  | returned
  /-- The `ioctl` has failed: `finished = 1`, then `exit`. -/
  | fail
  | exit
  deriving DecidableEq

structure FlagSys where
  start : Bool
  received : Bool
  finished : Bool
  receiver : ReceiverPc
  sender : SenderPc
  /-- One of the threads has called `exit`. -/
  exited : Bool
  deriving DecidableEq

def FlagSys.init : FlagSys := ⟨false, false, false, .setStart, .waitStart, false⟩

inductive FlagAct where
  | receiver (r : Readings) (ioctlFails : Bool)
  | sender (ioctlFails : Bool)

inductive FlagEvent where
  | sendIpi
  | gap (t7 t8 : UInt64)
  | ioctlFailed
  deriving DecidableEq

/-- An `ioctl` of the receiver, which goes on at `next`. -/
def receiverIoctl (ioctlFails : Bool) (s : FlagSys) (next : ReceiverPc) :
    FlagSys × List FlagEvent :=
  if ioctlFails then ({ s with exited := true }, [.ioctlFailed])
  else ({ s with receiver := next }, [])

def receiverStep (r : Readings) (ioctlFails : Bool) (s : FlagSys) :
    Option (FlagSys × List FlagEvent) :=
  match s.receiver with
  | .setStart => some ({ s with start := true, receiver := .statStart }, [])
  | .statStart => some (receiverIoctl ioctlFails s .test)
  | .test => some ({ s with receiver := if s.finished then .returned else .measure }, [])
  | .measure =>
    match gap r with
    | none => some ({ s with receiver := .test }, [])
    | some (t7, t8) => some ({ s with receiver := .getStats }, [.gap t7 t8])
  | .getStats => some (receiverIoctl ioctlFails s .statRestart)
  | .statRestart => some (receiverIoctl ioctlFails s .raise)
  | .raise => some ({ s with received := true, receiver := .wait }, [])
  | .wait => some ({ s with receiver := if s.received then .wait else .test }, [])
  | .returned => none

/-- The head of the loop over `i`. -/
def SenderPc.iterate (numIters i : Nat) : SenderPc := if i < numIters then .send i else .finish

def senderStep (numIters : Nat) (ioctlFails : Bool) (s : FlagSys) :
    Option (FlagSys × List FlagEvent) :=
  match s.sender with
  | .waitStart =>
    some ({ s with sender := if s.start then .iterate numIters 0 else .waitStart }, [])
  | .send i =>
    if ioctlFails then some ({ s with sender := .fail }, [.ioctlFailed])
    else some ({ s with sender := .wait i }, [.sendIpi])
  | .wait i => some ({ s with sender := if s.received then .lower i else .wait i }, [])
  | .lower i => some ({ s with received := false, sender := .iterate numIters (i + 1) }, [])
  | .finish => some ({ s with finished := true, sender := .returned }, [])
  | .returned => none
  | .fail => some ({ s with finished := true, sender := .exit }, [])
  | .exit => some ({ s with exited := true }, [])

def flagStep (numIters : Nat) (s : FlagSys) : FlagAct → Option (FlagSys × List FlagEvent)
  | .receiver r ioctlFails => if s.exited then none else receiverStep r ioctlFails s
  | .sender ioctlFails => if s.exited then none else senderStep numIters ioctlFails s

def flagMachine (numIters : Nat) : Machine FlagSys FlagAct FlagEvent := ⟨flagStep numIters⟩

/-- The receiver waits for an acknowledgement, and the sender has returned. -/
def FlagSys.Stuck (s : FlagSys) : Prop :=
  s.receiver = .wait ∧ s.received = true ∧ s.sender = .returned

instance (s : FlagSys) : Decidable s.Stuck :=
  inferInstanceAs (Decidable (s.receiver = .wait ∧ s.received = true ∧ s.sender = .returned))

/-- An iteration, with its acknowledgement, is still to come, or the sender ends the process. -/
def SenderPc.answers (numIters : Nat) : SenderPc → Bool
  | .waitStart => decide (0 < numIters)
  | .send _ | .wait _ | .fail | .exit => true
  | .lower i => decide (i + 1 < numIters)
  | .finish | .returned => false

/-- The receiver sees a gap only while the sender still waits for one. -/
def GapAnswered (numIters : Nat) (s : FlagSys) : FlagAct → Prop
  | .receiver r _ =>
    s.receiver = .measure → (gap r).isSome = true → s.sender.answers numIters = true
  | .sender _ => True

instance (numIters : Nat) (s : FlagSys) (act : FlagAct) : Decidable (GapAnswered numIters s act) :=
  match act with
  | .receiver r _ => inferInstanceAs (Decidable
      (s.receiver = .measure → (gap r).isSome = true → s.sender.answers numIters = true))
  | .sender _ => .isTrue trivial

def ReceiverPc.reporting : ReceiverPc → Bool
  | .getStats | .statRestart | .raise => true
  | _ => false

/-- Whoever waits for an acknowledgement, or is about to, gets one. -/
structure Answered (numIters : Nat) (s : FlagSys) : Prop where
  raised : s.received = true → s.receiver = .wait
  seen : ∀ i, s.sender = .lower i → s.received = true
  reporting : s.receiver.reporting = true → s.sender.answers numIters = true
  waiting : s.received = true → s.sender.answers numIters = true ∨ ∃ i, s.sender = .lower i

section Steps
variable {numIters : Nat} {s t : FlagSys} {es : List FlagEvent}

theorem answered_init : Answered numIters FlagSys.init where
  raised := by simp [FlagSys.init]
  seen := by simp [FlagSys.init]
  reporting := by simp [FlagSys.init, ReceiverPc.reporting]
  waiting := by simp [FlagSys.init]

theorem answers_iterate {i : Nat} (h : i < numIters) :
    (SenderPc.iterate numIters i).answers numIters = true := by
  simp [SenderPc.iterate, h, SenderPc.answers]

theorem iterate_ne_lower (i j : Nat) : SenderPc.iterate numIters i ≠ .lower j := by
  unfold SenderPc.iterate
  split <;> simp

/-- A move of the receiver that begins outside of its wait and leaves `received` alone. -/
theorem Answered.receiver (h : Answered numIters s) {pc : ReceiverPc} {start : Bool}
    (hpc : s.receiver ≠ .wait)
    (hreport : pc.reporting = true → s.sender.answers numIters = true) :
    Answered numIters { s with start := start, receiver := pc } := by
  refine ⟨?_, h.seen, hreport, h.waiting⟩
  intro hup
  exact absurd (h.raised hup) hpc

theorem Answered.exit (h : Answered numIters s) : Answered numIters { s with exited := true } :=
  ⟨h.raised, h.seen, h.reporting, h.waiting⟩

theorem Answered.ioctl (h : Answered numIters s) {ioctlFails : Bool} {pc : ReceiverPc}
    (hpc : s.receiver ≠ .wait)
    (hreport : pc.reporting = true → s.sender.answers numIters = true)
    (hstep : receiverIoctl ioctlFails s pc = (t, es)) : Answered numIters t := by
  unfold receiverIoctl at hstep
  split at hstep
  · obtain ⟨rfl, -⟩ := Prod.mk.inj hstep
    exact h.exit
  · obtain ⟨rfl, -⟩ := Prod.mk.inj hstep
    exact h.receiver hpc hreport

theorem answered_receiver {r : Readings} {ioctlFails : Bool} (h : Answered numIters s)
    (hok : GapAnswered numIters s (.receiver r ioctlFails))
    (hstep : receiverStep r ioctlFails s = some (t, es)) : Answered numIters t := by
  unfold receiverStep at hstep
  split at hstep
  next hpc =>
    obtain ⟨rfl, -⟩ := Prod.mk.inj (Option.some.inj hstep)
    exact h.receiver (by simp [hpc]) (by simp [ReceiverPc.reporting])
  next hpc =>
    exact h.ioctl (by simp [hpc]) (by simp [ReceiverPc.reporting]) (Option.some.inj hstep)
  next hpc =>
    obtain ⟨rfl, -⟩ := Prod.mk.inj (Option.some.inj hstep)
    apply h.receiver (by simp [hpc])
    split <;> simp [ReceiverPc.reporting]
  next hpc =>
    split at hstep
    · obtain ⟨rfl, -⟩ := Prod.mk.inj (Option.some.inj hstep)
      exact h.receiver (by simp [hpc]) (by simp [ReceiverPc.reporting])
    next hgap =>
      obtain ⟨rfl, -⟩ := Prod.mk.inj (Option.some.inj hstep)
      exact h.receiver (by simp [hpc]) (fun _ => hok hpc (by simp [hgap]))
  next hpc =>
    have hans := h.reporting (by rw [hpc]; rfl)
    exact h.ioctl (by simp [hpc]) (fun _ => hans) (Option.some.inj hstep)
  next hpc =>
    have hans := h.reporting (by rw [hpc]; rfl)
    exact h.ioctl (by simp [hpc]) (fun _ => hans) (Option.some.inj hstep)
  next hpc =>
    have hans := h.reporting (by rw [hpc]; rfl)
    obtain ⟨rfl, -⟩ := Prod.mk.inj (Option.some.inj hstep)
    exact ⟨fun _ => rfl, fun _ _ => rfl, by simp [ReceiverPc.reporting], fun _ => .inl hans⟩
  next hpc =>
    obtain ⟨rfl, -⟩ := Prod.mk.inj (Option.some.inj hstep)
    refine ⟨fun hup => if_pos hup, h.seen, ?_, h.waiting⟩
    split <;> simp [ReceiverPc.reporting]
  next => simp at hstep

/-- A move of the sender that leaves `received` alone and keeps its promise. -/
theorem Answered.sender (h : Answered numIters s) {pc : SenderPc} {finished : Bool}
    (hlower : ∀ i, pc ≠ .lower i) (hprev : ∀ i, s.sender ≠ .lower i)
    (hans : s.sender.answers numIters = true → pc.answers numIters = true) :
    Answered numIters { s with finished := finished, sender := pc } := by
  refine ⟨h.raised, fun i hi => absurd hi (hlower i), fun hr => hans (h.reporting hr), ?_⟩
  intro hup
  rcases h.waiting hup with hold | ⟨i, hi⟩
  · exact .inl (hans hold)
  · exact absurd hi (hprev i)

theorem answered_sender {ioctlFails : Bool} (h : Answered numIters s)
    (hstep : senderStep numIters ioctlFails s = some (t, es)) : Answered numIters t := by
  unfold senderStep at hstep
  split at hstep
  next hpc =>
    obtain ⟨rfl, -⟩ := Prod.mk.inj (Option.some.inj hstep)
    apply h.sender
    · intro i
      split
      · exact iterate_ne_lower 0 i
      · simp
    · simp [hpc]
    · intro hans
      rw [hpc] at hans
      split
      · exact answers_iterate (by simpa [SenderPc.answers] using hans)
      · exact hans
  next i hpc =>
    split at hstep
    · obtain ⟨rfl, -⟩ := Prod.mk.inj (Option.some.inj hstep)
      exact h.sender (by simp) (by simp [hpc]) (fun _ => rfl)
    · obtain ⟨rfl, -⟩ := Prod.mk.inj (Option.some.inj hstep)
      exact h.sender (by simp) (by simp [hpc]) (fun _ => rfl)
  next i hpc =>
    obtain ⟨rfl, -⟩ := Prod.mk.inj (Option.some.inj hstep)
    split
    next hup =>
      -- the receiver is in its wait, so it is not about to raise the flag again
      have hrecv := h.raised hup
      exact ⟨h.raised, fun _ _ => hup, by simp [hrecv, ReceiverPc.reporting],
        fun _ => .inr ⟨i, rfl⟩⟩
    · exact h.sender (by simp) (by simp [hpc]) (fun _ => rfl)
  next i hpc =>
    have hrecv := h.raised (h.seen i hpc)
    obtain ⟨rfl, -⟩ := Prod.mk.inj (Option.some.inj hstep)
    exact ⟨by simp, fun j hj => absurd hj (iterate_ne_lower (i + 1) j),
      by simp [hrecv, ReceiverPc.reporting], by simp⟩
  next hpc =>
    obtain ⟨rfl, -⟩ := Prod.mk.inj (Option.some.inj hstep)
    exact h.sender (by simp) (by simp [hpc]) (by simp [hpc, SenderPc.answers])
  next => simp at hstep
  next hpc =>
    obtain ⟨rfl, -⟩ := Prod.mk.inj (Option.some.inj hstep)
    exact h.sender (by simp) (by simp [hpc]) (fun _ => rfl)
  next =>
    obtain ⟨rfl, -⟩ := Prod.mk.inj (Option.some.inj hstep)
    exact h.exit

theorem answered_step {act : FlagAct} (h : Answered numIters s)
    (hok : GapAnswered numIters s act) (hstep : flagStep numIters s act = some (t, es)) :
    Answered numIters t := by
  cases act with
  | receiver r ioctlFails =>
    simp only [flagStep] at hstep
    split at hstep
    · simp at hstep
    · exact answered_receiver h hok hstep
  | sender ioctlFails =>
    simp only [flagStep] at hstep
    split at hstep
    · simp at hstep
    · exact answered_sender h hstep

end Steps

/-- For every number of iterations: in every run in which a gap is seen only while an
acknowledgement is still to come, the receiver is never left waiting for one. -/
theorem receiver_not_stuck {numIters : Nat} {tr : List FlagEvent} {s : FlagSys}
    (h : Runs (flagMachine numIters) (GapAnswered numIters) FlagSys.init tr s) : ¬ s.Stuck := by
  have hinv : Answered numIters s := by
    apply Runs.invariant (I := fun _ s => Answered numIters s) answered_init _ h
    intro tr es s t act hs hok hstep
    exact answered_step hs hok hstep
  rintro ⟨-, hup, hreturned⟩
  rcases hinv.waiting hup with hans | ⟨i, hi⟩
  · simp [hreturned, SenderPc.answers] at hans
  · simp [hreturned] at hi

/-- A round without a gap, and one with a gap between the first two readings. -/
def steadyRound : Readings := ⟨0, 30, 60, 90, 120, 150⟩

def gapRound : Readings := ⟨0, 4000, 4030, 4060, 4090, 4120⟩

/-- One iteration: the IPI causes the gap, and the sender returns after its answer. -/
def oneIteration : List FlagAct :=
  List.replicate 3 (FlagAct.receiver steadyRound false) ++
    List.replicate 2 (FlagAct.sender false) ++
    List.replicate 4 (FlagAct.receiver gapRound false) ++ List.replicate 3 (FlagAct.sender false)

theorem receiver_not_stuck_oneIteration :
    ∃ tr s, Runs (flagMachine 1) (GapAnswered 1) FlagSys.init tr s ∧ s.sender = .returned ∧
      s.receiver = .wait ∧ ¬ s.Stuck := by
  obtain ⟨tr, s, hrun, hend⟩ := Machine.exec_reaches (flagMachine 1) (GapAnswered 1)
    FlagSys.init oneIteration (fun _ s => s.sender = .returned ∧ s.receiver = .wait) (by decide)
  obtain ⟨hsender, hreceiver⟩ := of_decide_eq_true hend
  exact ⟨tr, s, hrun, hsender, hreceiver, receiver_not_stuck hrun⟩

/-- A second gap between the last acknowledgement and `finished = 1`. -/
theorem late_gap_leaves_receiver_stuck :
    ¬ ∀ (numIters : Nat) (tr : List FlagEvent) (s : FlagSys),
      Runs (flagMachine numIters) (fun _ _ => True) FlagSys.init tr s → ¬ s.Stuck := by
  intro hclaim
  obtain ⟨tr, s, hrun, hend⟩ := Machine.exec_reaches (flagMachine 1) (fun _ _ => True)
    FlagSys.init
    (oneIteration.dropLast ++ List.replicate 6 (FlagAct.receiver gapRound false) ++
      [FlagAct.sender false])
    (fun _ s => s.Stuck) (by decide)
  exact hclaim 1 tr s hrun (of_decide_eq_true hend)

end ThletEvaluation.Interrupt
