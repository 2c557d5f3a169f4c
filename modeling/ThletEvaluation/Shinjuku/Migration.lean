import ThletEvaluation.Shinjuku.Coroutine

/-!
# Tasks that change their CPU

`generic_work` polls the flag and leaves for the `ctx_main` of the CPU on which it was
entered. That is the CPU it runs on as long as nobody resumes a task elsewhere. A task
that is preempted on one worker and resumed on another does leave for the `ctx_main` of
the first one, and then two CPUs execute the same `do_work` loop.
-/

namespace ThletEvaluation.Shinjuku

open Run

set_option autoImplicit false

/-- What CPU `p` executes belongs to CPU `p`. -/
def Flow.HomeAt (p : Nat) : Flow → Prop
  | .thread w _ => w = p
  | .task f _ => f.worker = p ∧ f.uctxMain = p
  | _ => True

def Saved.enteredOn (p : Nat) : Saved → Bool
  | .yielded f => f.worker = p
  | _ => true

def Saved.Consistent : Saved → Prop
  | .yielded f => f.uctxMain = f.worker
  | _ => True

def CoSys.target (s : CoSys) (p : Nat) : Option Addr :=
  match s.flow p with
  | .thread _ (.newSwap cont) => some cont
  | .thread w .ctxSwap => some (s.sys.cpu w).data.ctxWorker
  | _ => none

/-- A task that yielded is resumed only on the CPU on which it was entered. -/
def ResumedAtHome (s : CoSys) : CoAct → Prop
  | .exec p _ => (s.target p).all (fun c => (s.ctx c).enteredOn p) = true
  | _ => True

instance (s : CoSys) (act : CoAct) : Decidable (ResumedAtHome s act) :=
  match act with
  | .exec p _ => inferInstanceAs (Decidable ((s.target p).all _ = true))
  | .disp _ | .irq _ => .isTrue trivial

/-- A check reads the flag of the CPU that makes it, and a task leaves for the `ctx_main`
of the CPU that executes it. -/
def CoEvent.Own : CoEvent → Prop
  | .check p w => w = p
  | .leave p m => m = p
  | .sched _ => True

structure AtHome (s : CoSys) : Prop where
  flow : ∀ p, (s.flow p).HomeAt p
  main : ∀ m w, s.ctxMain m = some w → w = m
  ctx : ∀ c, (s.ctx c).Consistent

section Steps
variable {n p w data : Nat} {s t : CoSys} {f : Frame} {es : List CoEvent}

theorem AtHome.thread {pc : WorkerPc} (h : AtHome s) (hflow : s.flow p = .thread w pc) :
    w = p := by
  simpa [hflow, Flow.HomeAt] using h.flow p

theorem AtHome.task {pc : TaskPc} (h : AtHome s) (hflow : s.flow p = .task f pc) :
    f.worker = p ∧ f.uctxMain = p := by
  simpa [hflow, Flow.HomeAt] using h.flow p

theorem AtHome.goto {g : Flow} (h : AtHome s) (hg : g.HomeAt p) : AtHome (s.goto p g) := by
  refine ⟨?_, h.main, h.ctx⟩
  intro q
  rcases eq_or_ne q p with rfl | hne
  · simpa [CoSys.goto] using hg
  · simpa [CoSys.goto, hne] using h.flow q

theorem AtHome.setData (h : AtHome s) (i : Nat) (c : PerCpu) : AtHome (s.setData i c) :=
  ⟨h.flow, h.main, h.ctx⟩

theorem AtHome.save (h : AtHome s) {c : Addr} {v : Saved} (hv : v.Consistent) :
    AtHome { s with ctx := Function.update s.ctx c v } := by
  refine ⟨h.flow, h.main, ?_⟩
  intro c'
  rcases eq_or_ne c' c with rfl | hne
  · simpa using hv
  · simpa [hne] using h.ctx c'

theorem AtHome.saveMain (h : AtHome s) (w : Nat) :
    AtHome { s with ctxMain := Function.update s.ctxMain w (some w) } := by
  refine ⟨h.flow, ?_, h.ctx⟩
  intro m v hv
  rcases eq_or_ne m w with rfl | hne
  · simpa using hv.symm
  · exact h.main m v (by simpa [hne] using hv)

theorem homeAt_resume (h : AtHome s) {c : Addr} (hc : (s.ctx c).enteredOn p = true) :
    (s.ctx c).resume.HomeAt p := by
  have hcons := h.ctx c
  cases hs : s.ctx c with
  | yielded f =>
    have hw : f.worker = p := by simpa [hs, Saved.enteredOn] using hc
    have hm : f.uctxMain = f.worker := by simpa [hs, Saved.Consistent] using hcons
    exact ⟨hw, hm.trans hw⟩
  | _ => trivial

theorem homeAt_resumeMain (h : AtHome s) (p : Nat) : (s.resumeMain p).HomeAt p := by
  unfold CoSys.resumeMain
  cases hs : s.ctxMain p with
  | none => trivial
  | some w => exact h.main p w hs

theorem atHome_leave (h : AtHome s) {v : Saved} (hf : f.uctxMain = p) (hv : v.Consistent) :
    AtHome (leaveTask p f v s) := by
  subst hf
  exact (h.goto (homeAt_resumeMain h _)).save hv

theorem atHome_task {pc : TaskPc} (h : AtHome s) (hf : f.worker = p ∧ f.uctxMain = p) :
    AtHome (taskStep p f pc s).1 ∧ ∀ ev ∈ (taskStep p f pc s).2, ev.Own := by
  obtain ⟨hw, hm⟩ := hf
  unfold taskStep
  cases pc with
  | body =>
    dsimp only
    split
    · refine ⟨atHome_leave (h.setData _ _) hm (hm.trans hw.symm), ?_⟩
      simp [CoEvent.Own, hw, hm]
    · exact ⟨h.goto ⟨hw, hm⟩, by simp [CoEvent.Own, hw]⟩
  | test =>
    dsimp only
    split
    · exact ⟨h.goto ⟨hw, hm⟩, by simp⟩
    · exact ⟨atHome_leave (h.setData _ _) hm trivial, by simp [CoEvent.Own, hm]⟩

theorem own_sched (evs : List Event) : ∀ ev ∈ evs.map CoEvent.sched, ev.Own := by
  intro ev hev
  obtain ⟨e, -, rfl⟩ := List.mem_map.mp hev
  trivial

theorem atHome_thread {pc : WorkerPc} (h : AtHome s) (hflow : s.flow p = .thread w pc)
    (hok : ResumedAtHome s (.exec p data)) (hstep : threadStep p w data pc s = some (t, es)) :
    AtHome t ∧ ∀ ev ∈ es, ev.Own := by
  obtain rfl := h.thread hflow
  unfold threadStep at hstep
  split at hstep
  · simp at hstep
  next c pc' evs hwork =>
    obtain ⟨rfl, rfl⟩ := Prod.mk.inj (Option.some.inj hstep)
    refine ⟨?_, own_sched evs⟩
    have hdata := h.setData w c
    cases pc with
    | newFinished cont =>
      have hgo : AtHome ((s.setData w c).goto w (.thread w pc')) := hdata.goto rfl
      exact hgo.save trivial
    | newSwap cont =>
      have hc : (s.ctx cont).enteredOn w = true := by
        simpa [ResumedAtHome, CoSys.target, hflow] using hok
      exact (hdata.goto (homeAt_resume h hc)).saveMain w
    | ctxSwap =>
      obtain ⟨rfl, -, -⟩ := by simpa [workerStep] using hwork
      have hc : (s.ctx (s.sys.cpu w).data.ctxWorker).enteredOn w = true := by
        simpa [ResumedAtHome, CoSys.target, hflow] using hok
      exact (hdata.goto (homeAt_resume h hc)).saveMain w
    | _ => exact hdata.goto rfl

theorem atHome_step {act : CoAct} (h : AtHome s) (hok : ResumedAtHome s act)
    (hstep : coStep n s act = some (t, es)) : AtHome t ∧ ∀ ev ∈ es, ev.Own := by
  cases act with
  | disp v =>
    obtain ⟨u, evs, -, rfl, -, hmain, hctx, -, hflow⟩ := coStep_disp hstep
    refine ⟨⟨?_, hmain ▸ h.main, hctx ▸ h.ctx⟩, own_sched evs⟩
    intro p
    rcases hflow p with hp | hp
    · rw [hp]
      exact h.flow p
    · rw [hp]
      exact rfl
  | exec p data =>
    simp only [coStep] at hstep
    cases hflow : s.flow p with
    | absent | crashed => simp [hflow] at hstep
    | thread w pc =>
      rw [hflow] at hstep
      exact atHome_thread h hflow hok hstep
    | entry d =>
      rw [hflow] at hstep
      dsimp only at hstep
      split at hstep
      · obtain ⟨rfl, rfl⟩ := by simpa using hstep
        exact ⟨h.goto trivial, by simp⟩
      · obtain ⟨rfl, rfl⟩ := by simpa using hstep
        exact ⟨h.goto ⟨rfl, rfl⟩, by simp⟩
    | task f pc =>
      rw [hflow] at hstep
      have hinv : AtHome (taskStep p f pc s).1 ∧ ∀ ev ∈ (taskStep p f pc s).2, ev.Own :=
        atHome_task h (h.task hflow)
      rwa [Option.some.inj hstep] at hinv
  | irq p =>
    obtain ⟨-, rfl, rfl⟩ := coStep_irq hstep
    exact ⟨⟨h.flow, h.main, h.ctx⟩, by simp⟩

end Steps

theorem atHome_init (cw : Nat → Addr) : AtHome (CoSys.init cw) :=
  ⟨fun _ => trivial, by simp [CoSys.init], fun _ => trivial⟩

/-- In every run that resumes each task on the CPU on which it was entered: every check
and every swap out of `generic_work` is with the CPU that executes the task, and no two
CPUs execute the loop of one `ctx_main`. -/
theorem task_yields_to_its_cpu {n : Nat} {cw : Nat → Addr} {tr : List CoEvent} {s : CoSys}
    (h : Runs (coMachine n) ResumedAtHome (CoSys.init cw) tr s) :
    (∀ ev ∈ tr, ev.Own) ∧
      (∀ p f pc, s.flow p = .task f pc → f.worker = p ∧ f.uctxMain = p) ∧
      ∀ p q w pc pc', s.flow p = .thread w pc → s.flow q = .thread w pc' → p = q := by
  have hinv : AtHome s ∧ ∀ ev ∈ tr, ev.Own := by
    refine Runs.invariant (I := fun tr s => AtHome s ∧ ∀ ev ∈ tr, ev.Own)
      ⟨atHome_init cw, by simp⟩ ?_ h
    rintro tr es s t act ⟨hs, htr⟩ hok hstep
    obtain ⟨ht, hes⟩ := atHome_step hs hok hstep
    refine ⟨ht, ?_⟩
    intro ev hev
    rcases List.mem_append.mp hev with hev | hev
    · exact htr ev hev
    · exact hes ev hev
  obtain ⟨hs, htr⟩ := hinv
  refine ⟨htr, fun p f pc hp => hs.task hp, ?_⟩
  intro p q w pc pc' hp hq
  exact (hs.thread hp).symm.trans (hs.thread hq)

def CoSys.starting (s : CoSys) (p : Nat) : Option Addr :=
  match s.flow p with
  | .thread _ (.newSwap cont) => some cont
  | _ => none

/-- A CPU that starts a task has the context of the task in its `ctx_worker`. -/
def CtxWorkerHeld (s : CoSys) : CoAct → Prop
  | .exec p _ => (s.starting p).all (fun c => (s.sys.cpu p).data.ctxWorker = c) = true
  | _ => True

instance (s : CoSys) (act : CoAct) : Decidable (CtxWorkerHeld s act) :=
  match act with
  | .exec p _ => inferInstanceAs (Decidable ((s.starting p).all _ = true))
  | .disp _ | .irq _ => .isTrue trivial

/-- Six CPUs. A task starts on worker 2 and is preempted there by an IPI. -/
def preemption : List CoAct :=
  let wait (now : UInt64) k := List.replicate k (CoAct.disp { tsc := now })
  let run p k := List.replicate k (CoAct.exec p 0)
  wait 0 8 ++ run 2 3 ++ run 3 3 ++ wait 10 17 ++
    [.disp { packet := 0x8000, cont := some 0x1000 }] ++ wait 20 30 ++ run 2 8 ++
    wait 10000 15 ++ [.disp { packet := 0x8100, cont := some 0x2000 }, .irq 2] ++ run 2 14

/-- The next sweep gives worker 2 the packet that arrived meanwhile and the preempted task
to worker 3, which resumes it to its end. -/
def migration : List CoAct :=
  preemption ++ List.replicate 47 (.disp { tsc := 10010 }) ++ List.replicate 8 (.exec 3 0)

def contextOnTwo (i : Nat) : Addr := if i = 2 then 0x1000 else NULL

/-- The task is alone in the queue: worker 2 resumes it and leaves it again at the next IPI. -/
def homecoming : List CoAct :=
  let wait (now : UInt64) k := List.replicate k (CoAct.disp { tsc := now })
  let run p k := List.replicate k (CoAct.exec p 5)
  wait 0 8 ++ run 2 3 ++ run 3 3 ++ wait 10 17 ++
    [.disp { packet := 0x8000, cont := some 0x1000 }] ++ wait 20 30 ++ run 2 8 ++
    wait 10000 15 ++ [.irq 2] ++ run 2 14 ++ wait 10010 36 ++ run 2 7 ++ wait 20020 20 ++
    [.irq 2] ++ run 2 2

theorem task_yields_to_its_cpu_homecoming :
    ∃ tr s, Runs (coMachine 6) ResumedAtHome (CoSys.init contextOnTwo) tr s ∧
      tr.count (.sched (.handle 2 false)) = 1 ∧ tr.count (.sched (.swapIn 2 0x1000)) = 2 ∧
      tr.count (.leave 2 2) = 2 ∧ (∀ ev ∈ tr, ev.Own) ∧
      (∀ p f pc, s.flow p = .task f pc → f.worker = p ∧ f.uctxMain = p) ∧
      ∀ p q w pc pc', s.flow p = .thread w pc → s.flow q = .thread w pc' → p = q := by
  obtain ⟨tr, s, hrun, hend⟩ := Machine.exec_reaches (coMachine 6) ResumedAtHome
    (CoSys.init contextOnTwo) homecoming
    (fun tr _ => tr.count (.sched (.handle 2 false)) = 1 ∧
      tr.count (.sched (.swapIn 2 0x1000)) = 2 ∧ tr.count (.leave 2 2) = 2) (by decide +kernel)
  obtain ⟨hhandle, hswap, hleave⟩ := of_decide_eq_true hend
  exact ⟨tr, s, hrun, hhandle, hswap, hleave, task_yields_to_its_cpu hrun⟩

theorem migration_runs :
    ∃ tr s, Runs (coMachine 6) CtxWorkerHeld (CoSys.init contextOnTwo) tr s ∧
      .leave 3 2 ∈ tr ∧ s.flow 2 = .thread 2 .spin ∧ s.flow 3 = .thread 2 .finish := by
  obtain ⟨tr, s, hrun, hend⟩ := Machine.exec_reaches (coMachine 6) CtxWorkerHeld
    (CoSys.init contextOnTwo) migration
    (fun tr s => .leave 3 2 ∈ tr ∧ s.flow 2 = .thread 2 .spin ∧ s.flow 3 = .thread 2 .finish)
    (by decide +kernel)
  exact ⟨tr, s, hrun, by simpa using hend⟩

/-- A task that was preempted on CPU 2 and resumed on CPU 3 leaves for `ctx_main` of CPU 2,
and both CPUs then execute the loop of worker 2. -/
theorem migrated_task_leaves_for_its_first_cpu :
    ¬ ∀ (n : Nat) (cw : Nat → Addr) (tr : List CoEvent) (s : CoSys),
      Runs (coMachine n) CtxWorkerHeld (CoSys.init cw) tr s →
        (∀ ev ∈ tr, ev.Own) ∧
          ∀ p q w pc pc', s.flow p = .thread w pc → s.flow q = .thread w pc' → p = q := by
  intro hclaim
  obtain ⟨tr, s, hrun, hleave, -, -⟩ := migration_runs
  have hown : (CoEvent.leave 3 2).Own := (hclaim 6 contextOnTwo tr s hrun).1 _ hleave
  simp [CoEvent.Own] at hown

end ThletEvaluation.Shinjuku
