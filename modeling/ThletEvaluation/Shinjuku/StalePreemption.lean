import ThletEvaluation.Lib.Observer
import ThletEvaluation.Shinjuku.Interrupts

/-!
# Preemptions meant for an earlier task

An IPI that is sent to a CPU is not tied to the task that runs there. It may still be
pending, or already be in `worker_preempted`, when the task ends, and then the next task of
the CPU yields for it. `slice` follows, for one CPU, whether an IPI was sent to it since the
dispatch of the task that it executes.
-/

namespace ThletEvaluation.Shinjuku

open Run

set_option autoImplicit false

/-- `posted`: an IPI was sent since the last dispatch. `inSlice`: one was sent since the
dispatch of the request that was taken last. -/
structure Slice where
  posted : Bool := false
  inSlice : Bool := false
  deriving DecidableEq

def Slice.next (p : Nat) (w : Slice) : IrqEvent → Slice
  | .co (.sched (.dispatch i _)) => if i = p then { w with posted := false } else w
  | .co (.sched (.take i _ _)) => if i = p then { w with inSlice := w.posted } else w
  | .co (.sched (.ipi i)) => if i = p then { posted := true, inSlice := true } else w
  | _ => w

def slice (p : Nat) (tr : List IrqEvent) : Slice := tr.foldl (Slice.next p) {}

/-- Refuses a yield of CPU `p` for which no IPI was sent in the time slice. -/
def sliceObserver (p : Nat) : Observer Slice IrqEvent where
  next w ev := if ev = .yield p ∧ w.inSlice = false then none else some (w.next p ev)

def IrqSys.quiet (s : IrqSys) (i : Nat) : Bool :=
  !s.co.ipi i && !(s.co.sys.cpu i).data.workerPreempted

def DispatcherPc.activates : DispatcherPc → Option Nat
  | .serve i (.setActive _) => some i
  | _ => none

/-- When a request becomes `ACTIVE`, no IPI to its CPU is pending and no preemption of it
is noted. -/
def DispatchedQuiet (s : IrqSys) : CoAct → Prop
  | .disp _ => s.co.sys.dpc.activates.all s.quiet = true
  | _ => True

instance (s : IrqSys) (act : CoAct) : Decidable (DispatchedQuiet s act) :=
  match act with
  | .disp _ => inferInstanceAs (Decidable (s.co.sys.dpc.activates.all s.quiet = true))
  | .exec _ _ | .irq _ => .isTrue trivial

def Event.marksSlice : Event → Bool
  | .dispatch _ _ | .take _ _ _ | .ipi _ => true
  | _ => false

/-- Before a yield for the flag there is the IPI, and after it was sent it is in the
current slice. -/
structure SliceArmed (p : Nat) (w : Slice) (s : IrqSys) : Prop where
  home : AtHome s.co
  pending : s.co.ipi p = true → w.posted = true
  flag : (s.co.sys.cpu p).data.workerPreempted = true → w.posted = true
  within : w.posted = true → w.inSlice = true

section Marks

theorem serveStep_marks (i : Nat) (curTime : UInt64) (c : PerCpu) (q : List Task) (st : Stage) :
    let r := serveStep i curTime c q st
    r.1.workerPreempted = c.workerPreempted ∧
      (r.2.2.2 = [.ipi i] ∨ (∃ t, st = .setActive t ∧ r.2.2.2 = [.dispatch i t]) ∨
        ∀ ev ∈ r.2.2.2, ev.marksSlice = false) := by
  cases st with
  | copy todo t =>
    cases todo <;> simp [serveStep, Event.marksSlice]
  | fill todo t =>
    cases todo <;> simp [serveStep]
  | out =>
    cases q <;> simp [serveStep, Event.marksSlice]
  | preempt =>
    simp only [serveStep, preemptWorker]
    split <;> simp
  | _ => simp [serveStep, PerCpu.setResponseFlag, PerCpu.setRequestFlag, Event.marksSlice]

theorem networkerRound_marks (curTime : UInt64) (data : Addr) (cont : Option Addr) (k : Nat)
    (q : List Task) : ∀ ev ∈ (networkerRound curTime data cont k q).2.2, ev.marksSlice = false := by
  unfold networkerRound
  split
  · simp
  · split
    · simp [Event.marksSlice]
    · cases cont with
      | none => simp [Event.marksSlice]
      | some c =>
        dsimp only
        split <;> simp [Event.marksSlice]

theorem dispatcherStep_marks {n : Nat} {v : Env} {s t : Sys} {es : List Event}
    (h : dispatcherStep n v s = some (t, es)) :
    (∀ p, (t.cpu p).data.workerPreempted = (s.cpu p).data.workerPreempted) ∧
      ((∃ i, es = [.ipi i]) ∨ (∃ i u, s.dpc = .serve i (.setActive u) ∧ es = [.dispatch i u]) ∨
        ∀ ev ∈ es, ev.marksSlice = false) := by
  cases dispatcherStep_cases h with
  | start | endCreate | loop | next => exact ⟨fun _ => rfl, .inr (.inr (by simp))⟩
  | timestamps | checks => exact ⟨fun _ => rfl, .inr (.inr (by simp))⟩
  | @create k =>
    refine ⟨?_, .inr (.inr (by simp))⟩
    intro p
    rcases eq_or_ne p k with rfl | hne
    · simp [Sys.setCpu]
    · simp [Sys.setCpu, hne]
  | @serve k st r hdpc hr =>
    subst hr
    obtain ⟨hflag, hes⟩ := serveStep_marks k s.curTime (s.cpu k).data s.tskq st
    refine ⟨?_, ?_⟩
    · intro p
      rcases eq_or_ne p k with rfl | hne
      · simpa [Sys.setCpu] using hflag
      · simp [Sys.setCpu, hne]
    · rcases hes with hipi | ⟨u, rfl, hdis⟩ | hnone
      · exact .inl ⟨k, hipi⟩
      · exact .inr (.inl ⟨k, u, hdpc, hdis⟩)
      · exact .inr (.inr hnone)
  | net hdpc hr =>
    subst hr
    exact ⟨fun _ => rfl, .inr (.inr (networkerRound_marks _ _ _ _ _))⟩

theorem workerStep_marks {i : Nat} {fin : Bool} {c c' : PerCpu} {pc pc' : WorkerPc}
    {es : List Event} (h : workerStep i fin c pc = some (c', pc', es)) :
    (c'.workerPreempted = true → c.workerPreempted = true) ∧
      ((∃ e ctx, es = [.take i e ctx]) ∨ ∀ ev ∈ es, ev.marksSlice = false) := by
  cases pc with
  | unborn => simp [workerStep] at h
  | category =>
    simp only [workerStep] at h
    split at h
    · obtain ⟨rfl, rfl, rfl⟩ := by simpa using h
      simp [Event.marksSlice]
    · obtain ⟨rfl, rfl, rfl⟩ := by simpa using h
      simp [Event.marksSlice]
  | load todo cont =>
    cases todo with
    | nil =>
      obtain ⟨rfl, rfl, rfl⟩ := by simpa [workerStep] using h
      simp
    | cons f todo =>
      obtain ⟨rfl, rfl, rfl⟩ := by simpa [workerStep] using h
      simp
  | _ =>
    obtain ⟨rfl, rfl, rfl⟩ := by simpa [workerStep] using h
    simp [PerCpu.setResponseFlag, PerCpu.setRequestFlag, Event.marksSlice]

end Marks

section Home
variable {n p : Nat} {s t : IrqSys} {es : List IrqEvent}

theorem atHome_irqTask {f : Frame} {pc : TaskPc} (h : AtHome s.co)
    (hflow : s.co.flow p = .task f pc) : AtHome (irqTaskStep p f pc s).1.co := by
  obtain ⟨hw, hm⟩ := h.task hflow
  unfold irqTaskStep
  split
  · exact h.setData _ _
  · exact h
  · exact atHome_leave h hm (hm.trans hw.symm)
  · exact h
  · exact h.setData _ _
  · exact atHome_leave h hm trivial
  all_goals
    cases pc with
    | body =>
      dsimp only
      split <;> exact h.goto ⟨hw, hm⟩
    | test =>
      dsimp only
      split
      · exact h.goto ⟨hw, hm⟩
      · exact h

theorem atHome_irqStep {act : CoAct} (h : AtHome s.co) (hok : ResumedAtHome s.co act)
    (hstep : irqStep n s act = some (t, es)) : AtHome t.co := by
  cases irqStep_cases hstep with
  | disp hco | bug _ hco | enter _ hco | irq _ hco => exact (atHome_step h hok hco).1
  | thread hflow hthread =>
    rcases irqThreadStep_co hthread with ⟨hco, -⟩ | ⟨evs, rest, hthread, -, -⟩
    · rwa [hco]
    · exact (atHome_thread h hflow hok hthread).1
  | task hflow => exact atHome_irqTask h hflow

end Home

section SliceArmed
variable {n p q : Nat} {w : Slice} {s t : IrqSys} {es : List IrqEvent}

theorem slice_next_unmarked {ev : Event} (h : ev.marksSlice = false) :
    (sliceObserver p).next w (.co (.sched ev)) = some w := by
  cases ev <;> simp_all [sliceObserver, Slice.next, Event.marksSlice]

theorem accept_sched_unmarked {evs : List Event} (h : ∀ ev ∈ evs, ev.marksSlice = false) :
    (sliceObserver p).accept w ((evs.map CoEvent.sched).map .co) = some w := by
  apply Observer.accept_const
  intro e he
  simp only [List.map_map, List.mem_map, Function.comp_apply] at he
  obtain ⟨ev, hev, rfl⟩ := he
  exact slice_next_unmarked (h ev hev)

theorem accept_resumes {rest : List IrqEvent} (h : ∀ ev ∈ rest, ev = .resume q) :
    (sliceObserver p).accept w rest = some w := by
  apply Observer.accept_const
  intro e he
  rw [h e he]
  rfl

theorem SliceArmed.congr (h : SliceArmed p w s) (hhome : AtHome t.co)
    (hipi : t.co.ipi p = true → s.co.ipi p = true)
    (hflag : (t.co.sys.cpu p).data.workerPreempted = true →
      (s.co.sys.cpu p).data.workerPreempted = true) : SliceArmed p w t :=
  ⟨hhome, fun ht => h.pending (hipi ht), fun ht => h.flag (hflag ht), h.within⟩

theorem sliceArmed_disp {v : Env} {co : CoSys} {evs : List CoEvent} (h : SliceArmed p w s)
    (hhome : AtHome co) (hok : DispatchedQuiet s (.disp v))
    (hco : coStep n s.co (.disp v) = some (co, evs)) :
    ∃ w', (sliceObserver p).accept w (evs.map .co) = some w' ∧
      SliceArmed p w' { s with co := co } := by
  obtain ⟨u, evs, hdisp, rfl, hsys, -, -, hipi, -⟩ := coStep_disp hco
  obtain ⟨hflag, hes⟩ := dispatcherStep_marks hdisp
  have hkeep : (co.sys.cpu p).data.workerPreempted = (s.co.sys.cpu p).data.workerPreempted := by
    rw [hsys]
    exact hflag p
  rcases hes with ⟨i, rfl⟩ | ⟨i, u', hdpc, rfl⟩ | hnone
  · rcases eq_or_ne i p with rfl | hne
    · refine ⟨⟨true, true⟩, by simp [sliceObserver, Slice.next], ?_⟩
      exact ⟨hhome, fun _ => rfl, fun _ => rfl, fun _ => rfl⟩
    · refine ⟨w, by simp [sliceObserver, Slice.next, hne], h.congr hhome ?_ ?_⟩
      · simp [hipi, hne.symm]
      · simp [hkeep]
  · rcases eq_or_ne i p with rfl | hne
    · have hquiet : s.quiet i = true := by
        simpa [DispatchedQuiet, hdpc, DispatcherPc.activates] using hok
      obtain ⟨hpend, hpre⟩ : s.co.ipi i = false ∧
          (s.co.sys.cpu i).data.workerPreempted = false := by
        simpa [IrqSys.quiet] using hquiet
      refine ⟨{ w with posted := false }, by simp [sliceObserver, Slice.next], ?_⟩
      exact ⟨hhome, by simp [hipi, hpend], by simp [hkeep, hpre], by simp⟩
    · refine ⟨w, by simp [sliceObserver, Slice.next, hne], h.congr hhome ?_ ?_⟩
      · simp [hipi]
      · simp [hkeep]
  · refine ⟨w, ?_, h.congr hhome ?_ ?_⟩
    · exact accept_sched_unmarked hnone
    · have hmem : Event.ipi p ∉ evs := by
        intro hmem
        simpa [Event.marksSlice] using hnone _ hmem
      simp [hipi, hmem]
    · simp [hkeep]

theorem sliceArmed_thread {data i : Nat} {pc : WorkerPc} (h : SliceArmed p w s)
    (hhome : AtHome t.co) (hstep : irqThreadStep q i data pc s = some (t, es)) :
    ∃ w', (sliceObserver p).accept w es = some w' ∧ SliceArmed p w' t := by
  rcases irqThreadStep_co hstep with ⟨hco, rfl⟩ | ⟨evs, rest, hthread, rfl, hrest⟩
  · exact ⟨w, rfl, h.congr hhome (by simp [hco]) (by simp [hco])⟩
  · obtain ⟨c, pc', evs, hwork, rfl, hsys, hipi⟩ := threadStep_data hthread
    obtain ⟨hflag, hes⟩ := workerStep_marks hwork
    have hkeep : (t.co.sys.cpu p).data.workerPreempted = true →
        (s.co.sys.cpu p).data.workerPreempted = true := by
      rw [hsys]
      rcases eq_or_ne p i with rfl | hne
      · simpa [CoSys.setData, Sys.setCpu] using hflag
      · simp [CoSys.setData, Sys.setCpu, hne]
    rcases hes with ⟨e, ctx, rfl⟩ | hnone
    · refine ⟨w.next p (.co (.sched (.take i e ctx))), ?_, ?_⟩
      · apply Observer.accept_append_iff.mpr
        exact ⟨_, by simp [sliceObserver], accept_resumes hrest⟩
      · rcases eq_or_ne i p with rfl | hne
        · simp only [Slice.next, if_true]
          refine ⟨hhome, ?_, ?_, fun hposted => hposted⟩
          · intro hp
            exact h.pending (by simpa [hipi] using hp)
          · intro hp
            exact h.flag (hkeep hp)
        · simp only [Slice.next, hne, if_false]
          exact h.congr hhome (by simp [hipi]) hkeep
    · refine ⟨w, ?_, h.congr hhome (by simp [hipi]) hkeep⟩
      exact Observer.accept_append_iff.mpr ⟨w, accept_sched_unmarked hnone, accept_resumes hrest⟩

/-- A step of `generic_work` sends no IPI, sets no flag, and goes into the yield branch only
for the flag of the CPU it was entered on. -/
theorem irqTaskStep_data (q : Nat) (f : Frame) (pc : TaskPc) (s : IrqSys) :
    let r := irqTaskStep q f pc s
    r.1.co.ipi = s.co.ipi ∧
      (∀ p, (r.1.co.sys.cpu p).data.workerPreempted = true →
        (s.co.sys.cpu p).data.workerPreempted = true) ∧
      ∀ ev ∈ r.2, ev = .co (.check q f.worker) ∨ ev = .co (.leave q f.uctxMain) ∨
        ev = .yield q ∧ (s.co.sys.cpu f.worker).data.workerPreempted = true := by
  unfold irqTaskStep
  split
  · refine ⟨rfl, ?_, by simp⟩
    intro p
    rcases eq_or_ne p f.worker with rfl | hne
    · simp [CoSys.setData, Sys.setCpu]
    · simp [CoSys.setData, Sys.setCpu, hne]
  · exact ⟨rfl, fun _ hp => hp, by simp⟩
  · exact ⟨rfl, fun _ hp => hp, by simp⟩
  · exact ⟨rfl, fun _ hp => hp, by simp⟩
  · refine ⟨rfl, ?_, by simp⟩
    intro p
    rcases eq_or_ne p q with rfl | hne
    · simp [CoSys.setData, Sys.setCpu]
    · simp [CoSys.setData, Sys.setCpu, hne]
  · exact ⟨rfl, fun _ hp => hp, by simp⟩
  all_goals
    cases pc with
    | body =>
      dsimp only
      split
      next hflag => exact ⟨rfl, fun _ hp => hp, by simp [hflag]⟩
      · exact ⟨rfl, fun _ hp => hp, by simp⟩
    | test =>
      dsimp only
      split
      · exact ⟨rfl, fun _ hp => hp, by simp⟩
      · exact ⟨rfl, fun _ hp => hp, by simp⟩

theorem sliceArmed_task {f : Frame} {pc : TaskPc} (h : SliceArmed p w s)
    (hflow : s.co.flow q = .task f pc) :
    (sliceObserver p).accept w (irqTaskStep q f pc s).2 = some w ∧
      SliceArmed p w (irqTaskStep q f pc s).1 := by
  obtain ⟨hw, -⟩ := h.home.task hflow
  obtain ⟨hipi, hflag, hes⟩ := irqTaskStep_data q f pc s
  refine ⟨?_, h.congr (atHome_irqTask h.home hflow) (by simp [hipi]) (hflag p)⟩
  apply Observer.accept_const
  intro ev hev
  rcases hes ev hev with rfl | rfl | ⟨rfl, hyield⟩
  · simp [sliceObserver, Slice.next]
  · simp [sliceObserver, Slice.next]
  · rcases eq_or_ne q p with rfl | hne
    · have hslice : w.inSlice = true := h.within (h.flag (by rwa [hw] at hyield))
      simp [sliceObserver, Slice.next, hslice]
    · simp [sliceObserver, Slice.next, hne]

theorem sliceArmed_irq {co : CoSys} {evs : List CoEvent} (h : SliceArmed p w s) (hhome : AtHome co)
    (hco : coStep n s.co (.irq q) = some (co, evs)) :
    (sliceObserver p).accept w (evs.map .co) = some w ∧ SliceArmed p w { s with co := co } := by
  obtain ⟨hpend, rfl, rfl⟩ := coStep_irq hco
  refine ⟨rfl, ?_⟩
  rcases eq_or_ne p q with rfl | hne
  · exact ⟨hhome, fun _ => h.pending hpend, fun _ => h.pending hpend, h.within⟩
  · exact h.congr hhome (by simp [hne]) (by simp [CoSys.setData, Sys.setCpu, hne])

theorem sliceArmed_step {act : CoAct} (h : SliceArmed p w s)
    (hok : ResumedAtHome s.co act ∧ DispatchedQuiet s act)
    (hstep : irqStep n s act = some (t, es)) :
    ∃ w', (sliceObserver p).accept w es = some w' ∧ SliceArmed p w' t := by
  have hhome := atHome_irqStep h.home hok.1 hstep
  cases irqStep_cases hstep with
  | disp hco => exact sliceArmed_disp h hhome hok.2 hco
  | thread _ hthread => exact sliceArmed_thread h hhome hthread
  | bug => exact ⟨w, rfl, h.congr hhome (fun hp => hp) (fun hp => hp)⟩
  | enter =>
    refine ⟨w, ?_, h.congr hhome (fun hp => hp) (fun hp => hp)⟩
    simp [sliceObserver, Slice.next]
  | task hflow => exact ⟨w, sliceArmed_task h hflow⟩
  | irq _ hco => exact ⟨w, sliceArmed_irq h hhome hco⟩

end SliceArmed

theorem sliceArmed_init (p : Nat) (cw : Nat → Addr) : SliceArmed p {} (IrqSys.init cw) where
  home := atHome_init cw
  pending := by simp [IrqSys.init, CoSys.init]
  flag := by simp [IrqSys.init, CoSys.init]
  within := by simp

theorem slice_of_accept {p : Nat} {tr : List IrqEvent} {w : Slice}
    (h : (sliceObserver p).accept {} tr = some w) : w = slice p tr := by
  apply Observer.accept_foldl _ h
  intro w ev w' hnext
  simp only [sliceObserver] at hnext
  split at hnext
  · simp at hnext
  · exact (Option.some.inj hnext).symm

/-- In every run that resumes each task on the CPU on which it was entered and makes a
request active only when no IPI to its CPU is pending or noted: whenever a task goes into
the yield branch, an IPI was sent to its CPU after the dispatch of its time slice. -/
theorem yield_after_ipi_of_slice {n : Nat} {cw : Nat → Addr} {tr : List IrqEvent} {s : IrqSys}
    (h : Runs (irqMachine n) (fun s act => ResumedAtHome s.co act ∧ DispatchedQuiet s act)
      (IrqSys.init cw) tr s)
    {p : Nat} {pre post : List IrqEvent} (htr : tr = pre ++ .yield p :: post) :
    (slice p pre).inSlice = true := by
  obtain ⟨w, hacc, -⟩ := Runs.simulates (O := sliceObserver p) (R := SliceArmed p)
    (sliceArmed_init p cw) (fun harmed hok hstep => sliceArmed_step harmed hok hstep) h
  subst htr
  obtain ⟨c, d, hc, hd⟩ := Observer.accept_split hacc
  rw [← slice_of_accept hc]
  by_contra hnot
  simp [sliceObserver, hnot] at hd

theorem yield_after_ipi_of_slice_interruption :
    ∃ tr s pre post, Runs (irqMachine 5)
      (fun s act => ResumedAtHome s.co act ∧ DispatchedQuiet s act)
      (IrqSys.init contextOnTwo) tr s ∧ tr = pre ++ .yield 2 :: post ∧
      (slice 2 pre).inSlice = true := by
  obtain ⟨tr, s, hrun, hend⟩ := Machine.exec_reaches (irqMachine 5)
    (fun s act => ResumedAtHome s.co act ∧ DispatchedQuiet s act) (IrqSys.init contextOnTwo)
    (interruption 9 ++ [.irq 2, .exec 2 9, .exec 2 9]) (fun tr _ => .yield 2 ∈ tr)
    (by decide +kernel)
  obtain ⟨pre, post, htr⟩ := List.append_of_mem (of_decide_eq_true hend)
  exact ⟨tr, s, pre, post, hrun, htr, yield_after_ipi_of_slice hrun htr⟩

/-- The task of worker 2 ends with the IPI still pending. The next packet gets its context
and is dispatched to worker 2, which receives the IPI as soon as the new task has enabled
interrupts. -/
def latePreemption : List CoAct :=
  interruption 1 ++ List.replicate 17 (CoAct.exec 2 1) ++
    List.replicate 17 (CoAct.disp { tsc := 10010 }) ++
    [CoAct.disp { packet := 0x8100, cont := some 0x1000 }] ++
    List.replicate 25 (CoAct.disp { tsc := 10020 }) ++ List.replicate 8 (CoAct.exec 2 1) ++
    [CoAct.irq 2, .exec 2 1]

theorem later_task_yields_for_earlier_ipi :
    ¬ ∀ (n : Nat) (cw : Nat → Addr) (tr : List IrqEvent) (s : IrqSys),
      Runs (irqMachine n) (fun s act => CtxWorkerHeld s.co act ∧ ResumedAtHome s.co act)
        (IrqSys.init cw) tr s →
        ∀ p pre post, tr = pre ++ .yield p :: post → (slice p pre).inSlice = true := by
  intro hclaim
  obtain ⟨tr, s, hrun, hend⟩ := Machine.exec_reaches (irqMachine 5)
    (fun s act => CtxWorkerHeld s.co act ∧ ResumedAtHome s.co act) (IrqSys.init contextOnTwo)
    latePreemption
    (fun tr _ => tr = tr.dropLast ++ [.yield 2] ∧ (slice 2 tr.dropLast).inSlice = false)
    (by decide +kernel)
  obtain ⟨htr, hstale⟩ := of_decide_eq_true hend
  have hslice : (slice 2 tr.dropLast).inSlice = true :=
    hclaim 5 contextOnTwo tr s hrun 2 tr.dropLast [] htr
  simp [hstale] at hslice

end ThletEvaluation.Shinjuku
