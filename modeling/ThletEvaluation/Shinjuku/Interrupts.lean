import ThletEvaluation.Shinjuku.Migration

/-!
# The interrupt-enable bit

The tasks of `Coroutine` with the supervisor interrupt-enable bit of `sstatus` of every CPU.
`local_irq_disable` and `local_irq_enable` clear and set it, and `swapcontext_very_fast`
saves it with one context and loads it with the other. The yield branch and the end of
`generic_work` are taken one access at a time here, because an IPI can arrive between any
two of them. `worker_ipi_handler` runs inside a trap, whose return restores the bit.
-/

namespace ThletEvaluation.Shinjuku

open Run

set_option autoImplicit false

/-- The next access of a CPU inside a piece of code that is one step of `Coroutine`. -/
inductive Substep where
  | none
  | initDisable
  | clear
  | disable
  | swap
  | endDisable
  | endFinished
  | endSwap
  deriving DecidableEq

/-- A new thread starts with interrupts enabled. -/
structure Mode where
  sie : Bool := true
  sub : Substep := .none
  deriving DecidableEq

structure IrqSys where
  co : CoSys
  mode : Nat → Mode
  /-- The bit in the saved `sstatus` of a context. -/
  ctxSie : Addr → Bool
  mainSie : Nat → Bool

def IrqSys.init (cw : Nat → Addr) : IrqSys where
  co := CoSys.init cw
  mode := fun _ => {}
  ctxSie := fun _ => false
  mainSie := fun _ => false

inductive IrqEvent where
  | co (ev : CoEvent)
  /-- CPU `p` enters `generic_work` at its beginning. -/
  | enter (p : Nat)
  /-- CPU `p` swaps into a task that had yielded. -/
  | resume (p : Nat)
  /-- CPU `p` finds `worker_preempted` set and goes into the yield branch. -/
  | yield (p : Nat)
  deriving DecidableEq

def IrqSys.setMode (s : IrqSys) (p : Nat) (m : Mode) : IrqSys :=
  { s with mode := Function.update s.mode p m }

def IrqSys.setSub (s : IrqSys) (p : Nat) (u : Substep) : IrqSys :=
  s.setMode p { s.mode p with sub := u }

/-- The part of `swapcontext_very_fast(uctx_main, cont)` that concerns the bit. -/
def IrqSys.swapIn (s : IrqSys) (p w : Nat) (cont : Addr) : IrqSys :=
  { s.setMode p { sie := s.ctxSie cont } with
    mainSie := Function.update s.mainSie w (s.mode p).sie }

def irqThreadStep (p w data : Nat) (pc : WorkerPc) (s : IrqSys) :
    Option (IrqSys × List IrqEvent) :=
  if (s.mode p).sub = .initDisable then some (s.setMode p { sie := false }, [])
  else
    match threadStep p w data pc s.co with
    | none => none
    | some (co, es) =>
      let s' := { s with co := co }
      let into (cont : Addr) : IrqSys × List IrqEvent :=
        (s'.swapIn p w cont, if (s.co.ctx cont).isYielded then [.resume p] else [])
      let r :=
        match pc with
        | .initFlag => (s'.setSub p .initDisable, [])
        -- getcontext_fast and make_kcontext store the sstatus of the worker
        | .newFinished cont =>
          ({ s' with ctxSie := Function.update s.ctxSie cont (s.mode p).sie }, [])
        | .newSwap cont => into cont
        | .ctxSwap => into (s.co.sys.cpu w).data.ctxWorker
        | _ => (s', [])
      some (r.1, es.map .co ++ r.2)

/-- `swapcontext_very_fast(cont, uctx_main)` in `generic_work`. -/
def IrqSys.leave (s : IrqSys) (p : Nat) (f : Frame) (saved : Saved) : IrqSys :=
  { s.setMode p { sie := s.mainSie f.uctxMain } with
    co := leaveTask p f saved s.co
    ctxSie := Function.update s.ctxSie f.cont (s.mode p).sie }

def irqTaskStep (p : Nat) (f : Frame) (pc : TaskPc) (s : IrqSys) : IrqSys × List IrqEvent :=
  match (s.mode p).sub with
  | .clear =>
    let c := (s.co.sys.cpu f.worker).data
    ({ s.setSub p .disable with
      co := s.co.setData f.worker { c with workerPreempted := false } }, [])
  | .disable => (s.setMode p { sie := false, sub := .swap }, [])
  | .swap => (s.leave p f (.yielded f), [.co (.leave p f.uctxMain)])
  | .endDisable => (s.setMode p { sie := false, sub := .endFinished }, [])
  | .endFinished =>
    ({ s.setSub p .endSwap with
      co := s.co.setData p { (s.co.sys.cpu p).data with finished := true } }, [])
  | .endSwap => (s.leave p f .ended, [.co (.leave p f.uctxMain)])
  | .none | .initDisable =>
    match pc with
    | .body =>
      let f' := { f with i := f.i + 1 }
      if (s.co.sys.cpu f.worker).data.workerPreempted then
        ({ s.setSub p .clear with co := s.co.goto p (.task f' .body) },
          [.co (.check p f.worker), .yield p])
      else ({ s with co := s.co.goto p (.task f' .test) }, [.co (.check p f.worker)])
    | .test =>
      if f.i < f.data then ({ s with co := s.co.goto p (.task f .body) }, [])
      else (s.setSub p .endDisable, [])

def irqStep (n : Nat) (s : IrqSys) : CoAct → Option (IrqSys × List IrqEvent)
  | .disp v =>
    match coStep n s.co (.disp v) with
    | none => none
    | some (co, es) => some ({ s with co := co }, es.map .co)
  | .exec p data =>
    match s.co.flow p with
    | .absent | .crashed => none
    | .thread w pc => irqThreadStep p w data pc s
    | .entry arg =>
      match coStep n s.co (.exec p data) with
      | none => none
      | some (co, es) =>
        if 100000 ≤ arg then some ({ s with co := co }, es.map .co)
        else some ({ s.setMode p { sie := true } with co := co }, es.map .co ++ [.enter p])
    | .task f pc => some (irqTaskStep p f pc s)
  | .irq p =>
    if (s.mode p).sie then
      match coStep n s.co (.irq p) with
      | none => none
      | some (co, es) => some ({ s with co := co }, es.map .co)
    else none

def irqMachine (n : Nat) : Machine IrqSys CoAct IrqEvent := ⟨irqStep n⟩

/-- The CPU is in the do-while loop of `generic_work`, not in its yield branch. -/
def IrqSys.InLoop (s : IrqSys) (p : Nat) : Prop :=
  (∃ f pc, s.co.flow p = .task f pc) ∧ (s.mode p).sub = .none

def WorkerPc.initializing : WorkerPc → Bool
  | .unborn | .initActive | .initPreempted | .initFlag => true
  | _ => false

/-- The CPU is in `handle_request` or `finish_request`. -/
def IrqSys.InHandler (s : IrqSys) (p : Nat) : Prop :=
  (∃ w pc, s.co.flow p = .thread w pc ∧ pc.initializing = false) ∧
    (s.mode p).sub ≠ .initDisable

def sliceNext (p : Nat) (first : Bool) : IrqEvent → Bool
  | .enter q => if q = p then true else first
  | .resume q => if q = p then false else first
  | _ => first

/-- The last time CPU `p` came into `generic_work` it entered it at its beginning. -/
def inFirstSlice (p : Nat) (tr : List IrqEvent) : Bool := tr.foldl (sliceNext p) false

def Substep.masked : Substep → Bool
  | .swap | .endFinished | .endSwap => true
  | _ => false

/-- The bit of a CPU, given what it executes and how it came into `generic_work`. -/
def Flow.Enables (first : Bool) (m : Mode) : Flow → Prop
  | .thread _ pc => m.sub ≠ .initDisable → pc.initializing = false → m.sie = false
  | .task _ _ => m.sie = (first && !m.sub.masked)
  | .absent | .entry _ | .crashed => True

structure Enabled (first : Nat → Bool) (s : IrqSys) : Prop where
  cpu : ∀ p, (s.co.flow p).Enables (first p) (s.mode p)
  ctx : ∀ c, s.ctxSie c = false
  main : ∀ m, s.mainSie m = false

/-- Behind the bits a thread makes the steps of `Coroutine`. -/
theorem irqThreadStep_co {p w data : Nat} {pc : WorkerPc} {s t : IrqSys} {es : List IrqEvent}
    (h : irqThreadStep p w data pc s = some (t, es)) :
    (t.co = s.co ∧ es = []) ∨
      ∃ evs rest, threadStep p w data pc s.co = some (t.co, evs) ∧ es = evs.map .co ++ rest ∧
        ∀ ev ∈ rest, ev = .resume p := by
  unfold irqThreadStep at h
  split at h
  · obtain ⟨rfl, rfl⟩ := by simpa using h
    exact .inl ⟨rfl, rfl⟩
  · split at h
    · simp at h
    next co evs hthread =>
      obtain ⟨rfl, rfl⟩ := Prod.mk.inj (Option.some.inj h)
      right
      refine ⟨evs, _, ?_, rfl, ?_⟩
      · rw [hthread]
        cases pc <;> rfl
      · cases pc with
        | newSwap cont =>
          dsimp only
          split <;> simp
        | ctxSwap =>
          dsimp only
          split <;> simp
        | _ => simp

/-- What a step can do; behind the bits it is a step of `Coroutine` except in
`generic_work`, whose steps are finer here. -/
inductive IrqMove (n : Nat) (s : IrqSys) : CoAct → IrqSys → List IrqEvent → Prop where
  | disp {v : Env} {co : CoSys} {evs : List CoEvent}
      (hco : coStep n s.co (.disp v) = some (co, evs)) :
      IrqMove n s (.disp v) { s with co := co } (evs.map .co)
  | thread {p w data : Nat} {pc : WorkerPc} {t : IrqSys} {es : List IrqEvent}
      (hflow : s.co.flow p = .thread w pc) (hthread : irqThreadStep p w data pc s = some (t, es)) :
      IrqMove n s (.exec p data) t es
  | bug {p data arg : Nat} (hflow : s.co.flow p = .entry arg)
      (hco : coStep n s.co (.exec p data) = some (s.co.goto p .crashed, [])) :
      IrqMove n s (.exec p data) { s with co := s.co.goto p .crashed } []
  | enter {p data arg : Nat} {f : Frame} (hflow : s.co.flow p = .entry arg)
      (hco : coStep n s.co (.exec p data) = some (s.co.goto p (.task f .body), [])) :
      IrqMove n s (.exec p data)
        { s.setMode p { sie := true } with co := s.co.goto p (.task f .body) } [.enter p]
  | task {p data : Nat} {f : Frame} {pc : TaskPc} (hflow : s.co.flow p = .task f pc) :
      IrqMove n s (.exec p data) (irqTaskStep p f pc s).1 (irqTaskStep p f pc s).2
  | irq {p : Nat} {co : CoSys} {evs : List CoEvent} (hsie : (s.mode p).sie = true)
      (hco : coStep n s.co (.irq p) = some (co, evs)) :
      IrqMove n s (.irq p) { s with co := co } (evs.map .co)

theorem irqStep_cases {n : Nat} {s t : IrqSys} {act : CoAct} {es : List IrqEvent}
    (h : irqStep n s act = some (t, es)) : IrqMove n s act t es := by
  cases act with
  | disp v =>
    simp only [irqStep] at h
    split at h
    · simp at h
    next co evs hco =>
      obtain ⟨rfl, rfl⟩ := by simpa using h
      exact .disp hco
  | exec p data =>
    cases hflow : s.co.flow p with
    | absent | crashed => simp [irqStep, hflow] at h
    | thread w pc =>
      simp only [irqStep, hflow] at h
      exact .thread hflow h
    | entry arg =>
      by_cases hbug : 100000 ≤ arg
      · obtain ⟨rfl, rfl⟩ := by simpa [irqStep, coStep, hflow, hbug] using h
        exact .bug hflow (by simp [coStep, hflow, hbug])
      · obtain ⟨rfl, rfl⟩ := by simpa [irqStep, coStep, hflow, hbug] using h
        exact .enter hflow (by simp [coStep, hflow, hbug])
    | task f pc =>
      simp only [irqStep, hflow] at h
      obtain ⟨rfl, rfl⟩ := Prod.mk.inj (Option.some.inj h)
      exact .task hflow
  | irq p =>
    simp only [irqStep] at h
    split at h
    next hsie =>
      split at h
      · simp at h
      next co evs hco =>
        obtain ⟨rfl, rfl⟩ := by simpa using h
        exact .irq hsie hco
    · simp at h

section Steps
variable {n p q : Nat} {first first' : Nat → Bool} {s t : IrqSys} {es : List IrqEvent}

@[simp] theorem foldl_sliceNext_co (evs : List CoEvent) (b : Bool) :
    (evs.map IrqEvent.co).foldl (sliceNext p) b = b := by
  induction evs with
  | nil => rfl
  | cons ev evs ih => exact ih

/-- A step of CPU `p`, seen from the bits. -/
theorem Enabled.local (h : Enabled first s) (hother : ∀ q, q ≠ p → first' q = first q ∧
      t.co.flow q = s.co.flow q ∧ t.mode q = s.mode q)
    (hcpu : (t.co.flow p).Enables (first' p) (t.mode p)) (hctx : ∀ c, t.ctxSie c = false)
    (hmain : ∀ m, t.mainSie m = false) : Enabled first' t := by
  refine ⟨?_, hctx, hmain⟩
  intro q
  rcases eq_or_ne q p with rfl | hne
  · exact hcpu
  · obtain ⟨hfirst, hflow, hmode⟩ := hother q hne
    rw [hfirst, hflow, hmode]
    exact h.cpu q

theorem update_false {κ : Type} [DecidableEq κ] {g : κ → Bool} {k : κ} {b : Bool}
    (h : ∀ c, g c = false) (hb : b = false) (c : κ) : Function.update g k b c = false := by
  rcases eq_or_ne c k with rfl | hne
  · simpa using hb
  · simpa [hne] using h c

theorem Enabled.masked {w : Nat} {pc : WorkerPc} (h : Enabled first s)
    (hflow : s.co.flow p = .thread w pc) (hsub : (s.mode p).sub ≠ .initDisable)
    (hpc : pc.initializing = false) : (s.mode p).sie = false := by
  have hp := h.cpu p
  rw [hflow] at hp
  exact hp hsub hpc

theorem Enabled.task {f : Frame} {pc : TaskPc} (h : Enabled first s)
    (hflow : s.co.flow p = .task f pc) :
    (s.mode p).sie = (first p && !(s.mode p).sub.masked) := by
  have hp := h.cpu p
  rwa [hflow] at hp

theorem enables_resume (first : Bool) (v : Saved) (sie : Bool) (hsie : sie = false) :
    v.resume.Enables (if v.isYielded then false else first) { sie := sie } := by
  subst hsie
  cases v <;> simp [Saved.resume, Saved.isYielded, Flow.Enables]

theorem enables_resumeMain (first : Bool) (co : CoSys) (m : Nat) :
    (co.resumeMain m).Enables first { sie := false } := by
  unfold CoSys.resumeMain
  cases co.ctxMain m with
  | none => trivial
  | some w => exact fun _ _ => rfl

theorem initializing_of_workerStep {i : Nat} {fin : Bool} {c c' : PerCpu} {pc pc' : WorkerPc}
    {evs : List Event} (hstep : workerStep i fin c pc = some (c', pc', evs))
    (hpc' : pc'.initializing = false) (hinit : pc ≠ .initFlag) : pc.initializing = false := by
  cases pc with
  | unborn => simp [workerStep] at hstep
  | initActive | initPreempted =>
    obtain ⟨-, rfl, -⟩ := by simpa [workerStep] using hstep
    exact hpc'
  | initFlag => contradiction
  | _ => rfl

def sliceAfter (first : Nat → Bool) (es : List IrqEvent) (q : Nat) : Bool :=
  es.foldl (sliceNext q) (first q)

theorem sliceAfter_co (evs : List CoEvent) (q : Nat) :
    sliceAfter first (evs.map .co ++ []) q = first q := by
  simp only [sliceAfter, List.append_nil, foldl_sliceNext_co]

theorem sliceAfter_resume (hne : p ≠ q) (evs : List CoEvent) (yielded : Bool) :
    sliceAfter first (evs.map .co ++ if yielded then [.resume p] else []) q = first q := by
  cases yielded <;> simp [sliceAfter, sliceNext, hne]

theorem enabled_swapIn {w : Nat} {co : CoSys} {cont : Addr} {evs : List CoEvent}
    (h : Enabled first s) (hsie : (s.mode p).sie = false)
    (hco : co.flow = Function.update s.co.flow p (s.co.ctx cont).resume) :
    Enabled (sliceAfter first
      (evs.map .co ++ if (s.co.ctx cont).isYielded then [.resume p] else []))
      (IrqSys.swapIn { s with co := co } p w cont) := by
  refine h.local (p := p) ?_ ?_ h.ctx (update_false h.main hsie)
  · intro q hne
    exact ⟨sliceAfter_resume hne.symm evs _, by simp [IrqSys.swapIn, IrqSys.setMode, hco, hne],
      by simp [IrqSys.swapIn, IrqSys.setMode, hne]⟩
  · have hresume := enables_resume (first p) (s.co.ctx cont) (s.ctxSie cont) (h.ctx cont)
    cases hy : (s.co.ctx cont).isYielded <;>
      simpa [IrqSys.swapIn, IrqSys.setMode, hco, sliceAfter, sliceNext, hy] using hresume

theorem enabled_stay {w : Nat} {pc' : WorkerPc} (h : Enabled first s) (evs : List CoEvent)
    (hflow : t.co.flow = Function.update s.co.flow p (.thread w pc'))
    (hmode : ∀ q, q ≠ p → t.mode q = s.mode q)
    (hcpu : (t.mode p).sub ≠ .initDisable → pc'.initializing = false → (t.mode p).sie = false)
    (hctx : ∀ c, t.ctxSie c = false) (hmain : t.mainSie = s.mainSie) :
    Enabled (sliceAfter first (evs.map .co ++ [])) t := by
  refine h.local (p := p) ?_ ?_ hctx (hmain ▸ h.main)
  · intro q hne
    exact ⟨sliceAfter_co evs q, by simp [hflow, hne], hmode q hne⟩
  · simpa [hflow, Flow.Enables] using hcpu

theorem enabled_thread {w data : Nat} {pc : WorkerPc} (h : Enabled first s)
    (hflow : s.co.flow p = .thread w pc)
    (hstep : irqThreadStep p w data pc s = some (t, es)) : Enabled (sliceAfter first es) t := by
  unfold irqThreadStep at hstep
  split at hstep
  · obtain ⟨rfl, rfl⟩ := by simpa using hstep
    refine h.local (p := p) ?_ ?_ h.ctx h.main
    · intro q hne
      exact ⟨rfl, rfl, by simp [IrqSys.setMode, hne]⟩
    · simp [IrqSys.setMode, hflow, Flow.Enables]
  next hsub =>
    unfold threadStep at hstep
    cases hwork : workerStep w false (s.co.sys.cpu w).data pc with
    | none => simp [hwork] at hstep
    | some r =>
      obtain ⟨c, pc', evs⟩ := r
      rw [hwork] at hstep
      obtain ⟨rfl, rfl⟩ := Prod.mk.inj (Option.some.inj hstep)
      clear hstep
      have hkeep : pc ≠ .initFlag → pc'.initializing = false → (s.mode p).sie = false := by
        intro hinit hpc'
        exact h.masked hflow hsub (initializing_of_workerStep hwork hpc' hinit)
      cases pc with
      | initFlag =>
        refine enabled_stay h _ rfl ?_ ?_ h.ctx rfl
        · intro q hne
          simp [IrqSys.setSub, IrqSys.setMode, hne]
        · simp [IrqSys.setSub, IrqSys.setMode]
      | newFinished cont =>
        have hsie : (s.mode p).sie = false := h.masked hflow hsub rfl
        exact enabled_stay h _ rfl (fun _ _ => rfl) (fun _ _ => hsie) (update_false h.ctx hsie) rfl
      | newSwap cont => exact enabled_swapIn h (h.masked hflow hsub rfl) rfl
      | ctxSwap =>
        obtain ⟨rfl, -, -⟩ := by simpa [workerStep] using hwork
        exact enabled_swapIn h (h.masked hflow hsub rfl) rfl
      | _ =>
        exact enabled_stay h _ rfl (fun _ _ => rfl) (fun _ => hkeep (by simp)) h.ctx rfl

theorem enabled_move {m : Mode} {f : Frame} {pc : TaskPc} (h : Enabled first s)
    (hflow : t.co.flow = Function.update s.co.flow p (.task f pc))
    (hmode : t.mode = Function.update s.mode p m) (hctx : t.ctxSie = s.ctxSie)
    (hmain : t.mainSie = s.mainSie) (hm : m.sie = (first p && !m.sub.masked)) :
    Enabled first t := by
  refine h.local (p := p) ?_ ?_ (hctx ▸ h.ctx) (hmain ▸ h.main)
  · intro q hne
    exact ⟨rfl, by simp [hflow, hne], by simp [hmode, hne]⟩
  · simpa [hflow, hmode, Flow.Enables] using hm

theorem enabled_leave {f : Frame} (h : Enabled first s) (v : Saved)
    (hoff : (s.mode p).sie = false) : Enabled first (s.leave p f v) := by
  refine h.local (p := p) ?_ ?_ (update_false h.ctx hoff) h.main
  · intro q hne
    exact ⟨rfl, by simp [IrqSys.leave, leaveTask, CoSys.goto, hne],
      by simp [IrqSys.leave, IrqSys.setMode, hne]⟩
  · have hmain := enables_resumeMain (first p) s.co f.uctxMain
    simpa [IrqSys.leave, IrqSys.setMode, leaveTask, CoSys.goto, h.main] using hmain

/-- No step inside `generic_work` enters or resumes a task. -/
theorem sliceAfter_task (first : Nat → Bool) (p : Nat) (f : Frame) (pc : TaskPc) (s : IrqSys) :
    sliceAfter first (irqTaskStep p f pc s).2 = first := by
  unfold irqTaskStep
  split <;> try rfl
  all_goals
    cases pc with
    | body =>
      dsimp only
      split <;> rfl
    | test =>
      dsimp only
      split <;> rfl

theorem enabled_task {f : Frame} {pc : TaskPc} (h : Enabled first s)
    (hflow : s.co.flow p = .task f pc) : Enabled first (irqTaskStep p f pc s).1 := by
  have hsie := h.task hflow
  have hstay : s.co.flow = Function.update s.co.flow p (.task f pc) := by
    rw [← hflow, Function.update_eq_self]
  have hkeep : s.mode = Function.update s.mode p (s.mode p) := by simp
  unfold irqTaskStep
  cases hsub : (s.mode p).sub with
  | clear | endFinished =>
    exact enabled_move h hstay rfl rfl rfl (by simp [hsie, hsub, Substep.masked])
  | disable | endDisable => exact enabled_move h hstay rfl rfl rfl (by simp [Substep.masked])
  | swap | endSwap => exact enabled_leave h _ (by simp [hsie, hsub, Substep.masked])
  | none | initDisable =>
    cases pc with
    | body =>
      dsimp only
      split
      · exact enabled_move h rfl rfl rfl rfl (by simp [hsie, hsub, Substep.masked])
      · exact enabled_move h rfl hkeep rfl rfl hsie
    | test =>
      dsimp only
      split
      · exact enabled_move h rfl hkeep rfl rfl hsie
      · exact enabled_move h hstay rfl rfl rfl (by simp [hsie, hsub, Substep.masked])

theorem enabled_step {act : CoAct} (h : Enabled first s) (hstep : irqStep n s act = some (t, es)) :
    Enabled (sliceAfter first es) t := by
  cases irqStep_cases hstep with
  | disp hco =>
    obtain ⟨u, evs, -, rfl, -, -, -, -, hflow⟩ := coStep_disp hco
    refine ⟨?_, h.ctx, h.main⟩
    intro p
    rw [sliceAfter, foldl_sliceNext_co]
    rcases hflow p with hp | hp
    · simpa [hp] using h.cpu p
    · simp [hp, Flow.Enables, WorkerPc.initializing]
  | thread hflow hthread => exact enabled_thread h hflow hthread
  | @bug p =>
    refine h.local (p := p) ?_ ?_ h.ctx h.main
    · intro q hne
      exact ⟨rfl, by simp [CoSys.goto, hne], rfl⟩
    · simp [CoSys.goto, Flow.Enables]
  | @enter p =>
    refine h.local (p := p) ?_ ?_ h.ctx h.main
    · intro q hne
      exact ⟨by simp [sliceAfter, sliceNext, hne.symm], by simp [CoSys.goto, hne],
        by simp [IrqSys.setMode, hne]⟩
    · simp [CoSys.goto, IrqSys.setMode, Flow.Enables, sliceAfter, sliceNext, Substep.masked]
  | @task p _ f pc hflow =>
    rw [sliceAfter_task first p f pc s]
    exact enabled_task h hflow
  | irq _ hco =>
    obtain ⟨-, rfl, rfl⟩ := coStep_irq hco
    exact ⟨h.cpu, h.ctx, h.main⟩

end Steps

theorem enabled_init (cw : Nat → Addr) : Enabled (fun _ => false) (IrqSys.init cw) :=
  ⟨fun _ => trivial, fun _ => rfl, fun _ => rfl⟩

theorem enabled_of_runs {n : Nat} {ok : IrqSys → CoAct → Prop} {cw : Nat → Addr}
    {tr : List IrqEvent} {s : IrqSys} (h : Runs (irqMachine n) ok (IrqSys.init cw) tr s) :
    Enabled (fun p => inFirstSlice p tr) s := by
  refine Runs.invariant (I := fun tr s => Enabled (fun p => inFirstSlice p tr) s)
    (enabled_init cw) ?_ h
  intro tr es s t act hs _ hstep
  have ht := enabled_step hs hstep
  have hslice :
      sliceAfter (fun p => inFirstSlice p tr) es = fun p => inFirstSlice p (tr ++ es) := by
    funext p
    simp [sliceAfter, inFirstSlice]
  rwa [hslice] at ht

/-- In every state of every run interrupts are disabled in `handle_request` and
`finish_request`, and in the loop of `generic_work` they are enabled exactly in the first
time slice of a task, since the yield branch disables them before it saves `sstatus`. -/
theorem slice_preemptible_iff_first {n : Nat} {cw : Nat → Addr} {tr : List IrqEvent}
    {s : IrqSys} (h : Runs (irqMachine n) (fun _ _ => True) (IrqSys.init cw) tr s) (p : Nat) :
    (s.InHandler p → (s.mode p).sie = false) ∧
      (s.InLoop p → ((s.mode p).sie = true ↔ inFirstSlice p tr = true)) := by
  have hs := enabled_of_runs h
  constructor
  · rintro ⟨⟨w, pc, hflow, hpc⟩, hsub⟩
    exact hs.masked hflow hsub hpc
  · rintro ⟨⟨f, pc, hflow⟩, hsub⟩
    have htask := hs.task hflow
    simp [htask, hsub, Substep.masked]

/-- Five CPUs. A packet is dispatched to worker 2, whose task has read the flag once when
the dispatcher sends it an IPI. -/
def interruption (data : Nat) : List CoAct :=
  let wait (now : UInt64) k := List.replicate k (CoAct.disp { tsc := now })
  let run k := List.replicate k (CoAct.exec 2 data)
  wait 0 7 ++ run 4 ++ wait 10 12 ++ [.disp { packet := 0x8000, cont := some 0x1000 }] ++
    wait 20 25 ++ run 9 ++ wait 10000 9

/-- The task receives the IPI and yields, and the next sweep gives it to worker 2 again. -/
def resumption : List CoAct :=
  interruption 9 ++ CoAct.irq 2 :: List.replicate 18 (CoAct.exec 2 9) ++
    List.replicate 36 (CoAct.disp { tsc := 10010 }) ++ List.replicate 8 (CoAct.exec 2 9)

instance (s : IrqSys) (p : Nat) : Decidable (s.InLoop p) :=
  match h : s.co.flow p with
  | .task f pc => decidable_of_iff ((s.mode p).sub = .none) (by simp [IrqSys.InLoop, h])
  | .absent | .thread _ _ | .entry _ | .crashed => .isFalse (by simp [IrqSys.InLoop, h])

theorem slice_preemptible_iff_first_interruption :
    ∃ tr s, Runs (irqMachine 5) (fun _ _ => True) (IrqSys.init contextOnTwo) tr s ∧
      s.InLoop 2 ∧ inFirstSlice 2 tr = true ∧ (s.InHandler 2 → (s.mode 2).sie = false) ∧
      (s.InLoop 2 → ((s.mode 2).sie = true ↔ inFirstSlice 2 tr = true)) := by
  obtain ⟨tr, s, hrun, hend⟩ := Machine.exec_reaches (irqMachine 5) (fun _ _ => True)
    (IrqSys.init contextOnTwo) (interruption 9) (fun tr s => s.InLoop 2 ∧ inFirstSlice 2 tr = true)
    (by decide +kernel)
  obtain ⟨hloop, hfirst⟩ := of_decide_eq_true hend
  exact ⟨tr, s, hrun, hloop, hfirst, slice_preemptible_iff_first hrun 2⟩

/-- Resumed on its own CPU, a task goes on in its loop with interrupts disabled. -/
theorem resumed_slice_not_preemptible :
    ¬ ∀ (n : Nat) (cw : Nat → Addr) (tr : List IrqEvent) (s : IrqSys),
      Runs (irqMachine n) (fun s act => CtxWorkerHeld s.co act) (IrqSys.init cw) tr s →
        ∀ p, (s.InLoop p → (s.mode p).sie = true) ∧ (s.InHandler p → (s.mode p).sie = false) := by
  intro hclaim
  obtain ⟨tr, s, hrun, hend⟩ := Machine.exec_reaches (irqMachine 5)
    (fun s act => CtxWorkerHeld s.co act) (IrqSys.init contextOnTwo) resumption
    (fun _ s => s.InLoop 2 ∧ (s.mode 2).sie = false) (by decide +kernel)
  obtain ⟨hloop, hsie⟩ := of_decide_eq_true hend
  have htrue : (s.mode 2).sie = true := (hclaim 5 contextOnTwo tr s hrun 2).1 hloop
  simp [hsie] at htrue

end ThletEvaluation.Shinjuku
