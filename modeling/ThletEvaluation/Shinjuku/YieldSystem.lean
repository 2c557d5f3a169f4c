import ThletEvaluation.Shinjuku.Migration
import ThletEvaluation.Shinjuku.Ownership
import ThletEvaluation.Shinjuku.Yield

/-!
# A task among the others

The dispatcher, the interrupt handler and the CPUs that work for other tasks are an
environment in the sense of `Yield`. So what is shown there of one task holds of it in every run
of the whole system in which the others keep off its context.
-/

namespace ThletEvaluation.Shinjuku

open Run

set_option autoImplicit false

/-- The context that CPU `q` stores to in its next step, if there is one. -/
def CoSys.stores (s : CoSys) (q : Nat) : Option Addr :=
  match s.flow q with
  | .thread _ (.newFinished cont) => some cont
  | .task f _ => some f.cont
  | _ => none

/-- CPU `p` is resumed for the task at `c` only, its thread is not created once more, and no other
CPU stores to `c`. -/
def LeavesTask (p : Nat) (c : Addr) (s : CoSys) : CoAct → Prop
  | .exec q _ => if q = p then ResumesTask p c s .exec else s.stores q ≠ some c
  | .disp _ => s.sys.dpc ≠ .create p
  | .irq _ => True

def CoEvent.isCheck (p : Nat) : CoEvent → Bool
  | .check q _ => q = p
  | _ => false

def CoEvent.isResponse (p : Nat) (flag : ResponseFlag) : CoEvent → Bool
  | .sched (.publish q r) => q = p ∧ r.flag = flag
  | _ => false

section Environment
variable {n p q data : Nat} {c : Addr} {s t : CoSys} {es : List CoEvent}

theorem serveStep_keeps (i : Nat) (curTime : UInt64) (d : PerCpu) (tskq : List Task) (st : Stage) :
    (serveStep i curTime d tskq st).1.finished = d.finished ∧
      (serveStep i curTime d tskq st).1.ctxWorker = d.ctxWorker := by
  cases st with
  | copy todo t => cases todo <;> exact ⟨rfl, rfl⟩
  | fill todo t => cases todo <;> exact ⟨rfl, rfl⟩
  | out => cases tskq <;> exact ⟨rfl, rfl⟩
  | preempt =>
    simp only [serveStep, preemptWorker]
    split <;> exact ⟨rfl, rfl⟩
  | _ => exact ⟨rfl, rfl⟩

/-- The dispatcher writes neither `finished` nor `ctx_worker`. -/
theorem dispatcherStep_keeps {v : Env} {u u' : Sys} {evs : List Event}
    (h : dispatcherStep n v u = some (u', evs)) (p : Nat) :
    (u'.cpu p).data.finished = (u.cpu p).data.finished ∧
      (u'.cpu p).data.ctxWorker = (u.cpu p).data.ctxWorker := by
  cases dispatcherStep_cases h with
  | create hdpc hk =>
    rename_i k
    rcases eq_or_ne p k with rfl | hne
    · simp [Sys.setCpu]
    · simp [Sys.setCpu, hne]
  | serve hdpc hr =>
    rename_i k st r
    rcases eq_or_ne p k with rfl | hne
    · subst hr
      simpa [Sys.setCpu] using serveStep_keeps p u.curTime (u.cpu p).data u.tskq st
    · simp [Sys.setCpu, hne]
  | _ => exact ⟨rfl, rfl⟩

theorem disp_agrees {v : Env} (h : coStep n s (.disp v) = some (t, es))
    (hdpc : s.sys.dpc ≠ .create p) : Agrees p c s t := by
  simp only [coStep] at h
  split at h
  · cases h
  · rename_i u evs hdisp
    obtain ⟨hfin, hworker⟩ := dispatcherStep_keeps hdisp p
    obtain ⟨rfl, -⟩ := Prod.mk.inj (Option.some.inj h)
    refine ⟨?_, rfl, rfl, hfin, hworker⟩
    cases hk : s.sys.dpc with
    | create k =>
      have hne : p ≠ k := by
        rintro rfl
        exact hdpc hk
      dsimp only
      split
      · simp [hne]
      · rfl
    | _ => rfl

theorem setData_agrees {d : PerCpu} (hne : q ≠ p) : Agrees p c s (s.setData q d) := by
  have hcpu : (s.setData q d).sys.cpu p = s.sys.cpu p := by
    simp [CoSys.setData, Sys.setCpu, hne.symm]
  refine ⟨rfl, rfl, rfl, ?_, ?_⟩
  · rw [hcpu]
  · rw [hcpu]

theorem Agrees.trans {u : CoSys} (h : Agrees p c s t) (h' : Agrees p c t u) : Agrees p c s u := by
  obtain ⟨h₁, h₂, h₃, h₄, h₅⟩ := h
  obtain ⟨h₁', h₂', h₃', h₄', h₅'⟩ := h'
  exact ⟨h₁'.trans h₁, h₂'.trans h₂, h₃'.trans h₃, h₄'.trans h₄, h₅'.trans h₅⟩

theorem goto_agrees (s : CoSys) (f : Flow) (hne : q ≠ p) : Agrees p c s (s.goto q f) :=
  ⟨by simp [CoSys.goto, hne.symm], rfl, rfl, rfl, rfl⟩

theorem save_agrees (s : CoSys) {a : Addr} (v : Saved) (hne : a ≠ c) :
    Agrees p c s { s with ctx := Function.update s.ctx a v } :=
  ⟨rfl, by simp [hne.symm], rfl, rfl, rfl⟩

theorem saveMain_agrees (s : CoSys) (v : Option Nat) (hne : q ≠ p) :
    Agrees p c s { s with ctxMain := Function.update s.ctxMain q v } :=
  ⟨rfl, rfl, by simp [hne.symm], rfl, rfl⟩

theorem irq_agrees (h : coStep n s (.irq q) = some (t, es)) : Agrees p c s t := by
  obtain ⟨-, -, rfl⟩ := coStep_irq h
  have hdata : Agrees p c s
      (s.setData q { (s.sys.cpu q).data with workerPreempted := true }) := by
    rcases eq_or_ne q p with rfl | hne
    · exact setData_agrees_own s rfl rfl
    · exact setData_agrees hne
  exact hdata.trans ⟨rfl, rfl, rfl, rfl, rfl⟩

theorem thread_agrees {pc : WorkerPc} (hflow : s.flow q = .thread q pc) (hne : q ≠ p)
    (hoff : s.stores q ≠ some c) (h : threadStep q q data pc s = some (t, es)) :
    Agrees p c s t := by
  unfold threadStep at h
  split at h
  · cases h
  · rename_i d pc' evs hwork
    obtain ⟨rfl, -⟩ := Prod.mk.inj (Option.some.inj h)
    have hdata : Agrees p c s (s.setData q d) := setData_agrees hne
    have hgoto : ∀ f, Agrees p c s ((s.setData q d).goto q f) := fun f =>
      hdata.trans (goto_agrees _ f hne)
    cases pc with
    | newFinished cont =>
      have hcont : cont ≠ c := by
        rintro rfl
        exact hoff (by simp [CoSys.stores, hflow])
      exact (hgoto _).trans (save_agrees _ _ hcont)
    | newSwap cont => exact (hgoto _).trans (saveMain_agrees _ _ hne)
    | ctxSwap => exact (hgoto _).trans (saveMain_agrees _ _ hne)
    | _ => exact hgoto _

theorem task_agrees {f : Frame} (pc : TaskPc) (hf : f.worker = q ∧ f.uctxMain = q)
    (hne : q ≠ p) (hoff : f.cont ≠ c) : Agrees p c s (taskStep q f pc s).1 := by
  obtain ⟨hw, -⟩ := hf
  subst hw
  have hleave : ∀ d f' v, f'.cont = f.cont →
      Agrees p c s (leaveTask f.worker f' v (s.setData f.worker d)) := by
    intro d f' v hcont
    refine (setData_agrees (d := d) hne).trans ((goto_agrees _ _ hne).trans (save_agrees _ v ?_))
    rwa [hcont]
  unfold taskStep
  cases pc with
  | body =>
    dsimp only
    split
    · exact hleave _ _ _ rfl
    · exact goto_agrees s _ hne
  | test =>
    dsimp only
    split
    · exact goto_agrees s _ hne
    · exact hleave _ _ _ rfl

theorem exec_agrees (hhome : AtHome s) (hne : q ≠ p) (hoff : s.stores q ≠ some c)
    (h : coStep n s (.exec q data) = some (t, es)) : Agrees p c s t := by
  simp only [coStep] at h
  cases hflow : s.flow q with
  | absent | crashed => simp [hflow] at h
  | thread w pc =>
    obtain rfl := hhome.thread hflow
    rw [hflow] at h
    exact thread_agrees hflow hne hoff h
  | entry d =>
    rw [hflow] at h
    dsimp only at h
    split at h
    · obtain ⟨rfl, -⟩ := Prod.mk.inj (Option.some.inj h)
      exact goto_agrees s _ hne
    · obtain ⟨rfl, -⟩ := Prod.mk.inj (Option.some.inj h)
      exact goto_agrees s _ hne
  | task f pc =>
    rw [hflow] at h
    have hcont : f.cont ≠ c := by
      intro heq
      exact hoff (by simp [CoSys.stores, hflow, heq])
    have hagree := task_agrees (s := s) pc (hhome.task hflow) hne hcont
    rwa [congrArg Prod.fst (Option.some.inj h)] at hagree

/-! ## Whose events they are -/

/-- A check or a response comes from CPU `q`. -/
def CoEvent.By (q : Nat) : CoEvent → Prop
  | .check r _ => r = q
  | .sched (.publish r _) => r = q
  | _ => True

theorem exec_by (hhome : AtHome s) (h : coStep n s (.exec q data) = some (t, es)) :
    ∀ ev ∈ es, ev.By q := by
  simp only [coStep] at h
  cases hflow : s.flow q with
  | absent | crashed => simp [hflow] at h
  | thread w pc =>
    obtain rfl := hhome.thread hflow
    rw [hflow] at h
    obtain ⟨d, pc', evs, hwork, rfl, -, -⟩ := threadStep_data h
    intro ev hev
    obtain ⟨e, he, rfl⟩ := List.mem_map.mp hev
    rcases workerStep_event hwork with rfl | ⟨e', rfl, hworker, -⟩
    · cases he
    · obtain rfl := List.mem_singleton.mp he
      cases e with
      | publish i r => exact Option.some.inj hworker
      | _ => trivial
  | entry d =>
    rw [hflow] at h
    dsimp only at h
    split at h
    · obtain ⟨-, rfl⟩ := Prod.mk.inj (Option.some.inj h)
      simp
    · obtain ⟨-, rfl⟩ := Prod.mk.inj (Option.some.inj h)
      simp
  | task f pc =>
    rw [hflow] at h
    have hes := congrArg Prod.snd (Option.some.inj h)
    subst hes
    unfold taskStep
    cases pc with
    | body =>
      dsimp only
      split <;> simp [CoEvent.By]
    | test =>
      dsimp only
      split <;> simp [CoEvent.By]

theorem serveStep_silent (i j : Nat) (curTime : UInt64) (d : PerCpu) (tskq : List Task) (st : Stage)
    (r : WorkerResponse) : .publish j r ∉ (serveStep i curTime d tskq st).2.2.2 := by
  cases st with
  | copy todo t => cases todo <;> simp [serveStep]
  | fill todo t => cases todo <;> simp [serveStep]
  | out => cases tskq <;> simp [serveStep]
  | preempt =>
    simp only [serveStep, preemptWorker]
    split <;> simp
  | _ => simp [serveStep]

/-- The responses are the workers' alone. -/
theorem dispatcherStep_silent {v : Env} {u u' : Sys} {evs : List Event}
    (h : dispatcherStep n v u = some (u', evs)) (j : Nat) (r : WorkerResponse) :
    .publish j r ∉ evs := by
  cases dispatcherStep_cases h with
  | serve hdpc hr =>
    subst hr
    exact serveStep_silent _ j _ _ _ _ r
  | net hdpc hr =>
    subst hr
    intro hmem
    rcases networkerRound_event u.curTime v.packet v.cont _ u.tskq with hev | ⟨ev, hev, -, hw, -⟩
    · rw [hev] at hmem
      cases hmem
    · rw [hev] at hmem
      rw [← List.mem_singleton.mp hmem] at hw
      cases hw
  | _ => simp

theorem countP_of_by (hes : ∀ ev ∈ es, ev.By q) (hne : q ≠ p) (flag : ResponseFlag) :
    es.countP (CoEvent.isCheck p) = 0 ∧ es.countP (CoEvent.isResponse p flag) = 0 := by
  constructor
  · refine List.countP_eq_zero.mpr fun ev hev => ?_
    have hby := hes ev hev
    unfold CoEvent.isCheck
    split
    · simp only [CoEvent.By] at hby
      simpa [hby] using hne
    · simp
  · refine List.countP_eq_zero.mpr fun ev hev => ?_
    have hby := hes ev hev
    unfold CoEvent.isResponse
    split
    · simp only [CoEvent.By] at hby
      simp [hby, hne]
    · simp

/-- For CPU `p` itself the two ways of counting agree. -/
theorem sliceEvents_counts (s : CoSys) (hes : ∀ ev ∈ es, ev.By p) (flag : ResponseFlag) :
    (observations (sliceEvents s es)).length = es.countP (CoEvent.isCheck p) ∧
      responses flag (sliceEvents s es) = es.countP (CoEvent.isResponse p flag) := by
  induction es with
  | nil => exact ⟨rfl, rfl⟩
  | cons ev es ih =>
    obtain ⟨ih₁, ih₂⟩ := ih fun e he => hes e (List.mem_cons_of_mem ev he)
    have hby := hes ev List.mem_cons_self
    have hcons : sliceEvents s (ev :: es) = sliceEvents s [ev] ++ sliceEvents s es :=
      List.filterMap_append (l := [ev])
    have hone : (observations (sliceEvents s [ev])).length = if ev.isCheck p then 1 else 0 := by
      cases ev with
      | check r w =>
        obtain rfl : r = p := hby
        simp [sliceEvents, CoEvent.isCheck]
      | sched e => cases e <;> rfl
      | leave r m => rfl
    have hone' : responses flag (sliceEvents s [ev]) = if ev.isResponse p flag then 1 else 0 := by
      cases ev with
      | check r w => simp [sliceEvents, CoEvent.isResponse]
      | sched e =>
        cases e with
        | publish r resp =>
          obtain rfl : r = p := hby
          simp [sliceEvents, CoEvent.isResponse]
        | _ => rfl
      | leave r m => rfl
    rw [hcons, observations_append, responses_append, List.length_append, List.countP_cons,
      List.countP_cons, ih₁, ih₂, hone, hone']
    exact ⟨Nat.add_comm _ _, Nat.add_comm _ _⟩

end Environment

/-! ## Runs of the system -/

section System
variable {n p data : Nat} {c : Addr} {s₀ s : CoSys} {tr : List CoEvent}

/-- The task itself never starts another one, so the argument for a new task does not matter. -/
theorem TaskPhase.exec_data {tr' : List SliceEvent} (h : TaskPhase p c data tr' s) (d : Nat) :
    coStep n s (.exec p d) = coStep n s (.exec p 0) := by
  have hthread : ∀ {pc : WorkerPc}, s.flow p = .thread p pc → (∀ a, pc ≠ .newFinished a) →
      coStep n s (.exec p d) = coStep n s (.exec p 0) := by
    intro pc hflow hpc
    simp only [coStep, hflow]
    unfold threadStep
    cases pc with
    | newFinished a => exact absurd rfl (hpc a)
    | _ => rfl
  cases h with
  | entered hflow | body hflow | test hflow => simp only [coStep, hflow]
  | reports hflow hpc | reportsEnd hflow hpc | resumes hflow hpc =>
    refine hthread hflow ?_
    rintro a rfl
    exact hpc
  | done hflow => exact hthread hflow (by simp)

/-- `handle_new_packet` ends by entering the task, if `ctx_worker` holds its context. -/
theorem newPacket_enters (hflow : s.flow p = .thread p (.newFinished c))
    (hworker : (s.sys.cpu p).data.ctxWorker = c) (d : Nat) :
    ∃ t u es, coStep n s (.exec p data) = some (t, []) ∧ coStep n t (.exec p d) = some (u, es) ∧
      TaskStart p c data u := by
  have hfirst : coStep n s (.exec p data) = some ({ (s.setData p { (s.sys.cpu p).data with
      finished := false }).goto p (.thread p (.newSwap c)) with
        ctx := Function.update s.ctx c (.entry data) }, []) := by
    simp only [coStep, hflow]
    rfl
  refine ⟨_, _, _, hfirst, by simp only [coStep, goto_flow]; rfl, ?_, ?_, ?_, ?_⟩
  · simp [CoSys.goto, Saved.resume]
  · simp
  · simp [CoSys.goto, CoSys.setData, Sys.setCpu, hworker]
  · simp [CoSys.goto, CoSys.setData, Sys.setCpu]

/-- A run of the system, seen from the task: what the others do are steps of its environment. -/
structure SeenAs (p : Nat) (c : Addr) (n : Nat) (s₀ : CoSys) (tr : List CoEvent) (s : CoSys)
    (tr' : List SliceEvent) : Prop where
  run : Runs (sliceMachine n p c) (ResumesTask p c) s₀ tr' s
  checks : (observations tr').length = tr.countP (CoEvent.isCheck p)
  responses : ∀ flag, responses flag tr' = tr.countP (CoEvent.isResponse p flag)

theorem SeenAs.env {t : CoSys} {tr' : List SliceEvent} {es : List CoEvent}
    (h : SeenAs p c n s₀ tr s tr') (hagree : Agrees p c s t)
    (hchecks : es.countP (CoEvent.isCheck p) = 0)
    (hresponses : ∀ flag, es.countP (CoEvent.isResponse p flag) = 0) :
    SeenAs p c n s₀ (tr ++ es) t tr' := by
  have hstep : (sliceMachine n p c).step s (.env t) = some (t, []) := if_pos hagree
  refine ⟨?_, ?_, ?_⟩
  · have hrun := h.run.next (show ResumesTask p c s (.env t) from trivial) hstep
    rwa [List.append_nil] at hrun
  · rw [List.countP_append, hchecks, Nat.add_zero, h.checks]
  · intro flag
    rw [List.countP_append, hresponses flag, Nat.add_zero, h.responses flag]

theorem SeenAs.exec {t : CoSys} {tr' : List SliceEvent} {es : List CoEvent}
    (h : SeenAs p c n s₀ tr s tr') (hok : ResumesTask p c s .exec)
    (hstep : coStep n s (.exec p 0) = some (t, es)) (hes : ∀ ev ∈ es, ev.By p) :
    SeenAs p c n s₀ (tr ++ es) t (tr' ++ sliceEvents s es) := by
  have hslice : (sliceMachine n p c).step s .exec = some (t, sliceEvents s es) := by
    simp only [sliceMachine, sliceStep, hstep]
  refine ⟨h.run.next hok hslice, ?_, ?_⟩
  · rw [observations_append, List.length_append, List.countP_append, h.checks,
      (sliceEvents_counts s hes .finished).1]
  · intro flag
    rw [responses_append, List.countP_append, h.responses flag, (sliceEvents_counts s hes flag).2]

theorem seenAs_of_run (hdata : data < 100000) (hstart : TaskStart p c data s₀) (hhome : AtHome s₀)
    (h : Runs (coMachine n) (fun s act => ResumedAtHome s act ∧ LeavesTask p c s act) s₀ tr s) :
    AtHome s ∧ ∃ tr', SeenAs p c n s₀ tr s tr' := by
  refine Runs.invariant (I := fun tr s => AtHome s ∧ ∃ tr', SeenAs p c n s₀ tr s tr') ?_ ?_ h
  · exact ⟨hhome, [], .start, rfl, fun _ => rfl⟩
  rintro tr es s t act ⟨hs, tr', hseen⟩ ⟨hat, hleaves⟩ hstep
  have hstep : coStep n s act = some (t, es) := hstep
  refine ⟨(atHome_step hs hat hstep).1, ?_⟩
  cases act with
  | disp v =>
    obtain ⟨u, evs, hdisp, rfl, -⟩ := coStep_disp hstep
    refine ⟨tr', hseen.env (disp_agrees hstep hleaves) ?_ fun flag => ?_⟩
    · simp [List.countP_eq_zero, CoEvent.isCheck]
    · refine List.countP_eq_zero.mpr fun ev hev => ?_
      obtain ⟨e, he, rfl⟩ := List.mem_map.mp hev
      cases e with
      | publish j r => exact absurd he (dispatcherStep_silent hdisp j r)
      | _ => simp [CoEvent.isResponse]
  | irq q =>
    obtain ⟨-, rfl, -⟩ := coStep_irq hstep
    exact ⟨tr', hseen.env (irq_agrees hstep) rfl fun _ => rfl⟩
  | exec q d =>
    have hby := exec_by hs hstep
    simp only [LeavesTask] at hleaves
    split at hleaves
    · rename_i heq
      subst heq
      have hphase := TaskPhase.runs hstart hdata hseen.run
      rw [hphase.exec_data d] at hstep
      exact ⟨_, hseen.exec hleaves hstep hby⟩
    · rename_i hne
      refine ⟨tr', hseen.env (exec_agrees hs hne hleaves hstep) ?_ fun flag => ?_⟩
      · exact (countP_of_by hby hne .finished).1
      · exact (countP_of_by hby hne flag).2

/-- In the whole system: as long as the others keep off its context, a task that is resumed
where it was entered runs its body at most `max 1 data` times, and exactly so often once it has
reported `FINISHED`, which it does at most once. -/
theorem system_task_does_its_work (hdata : data < 100000) (hstart : TaskStart p c data s₀)
    (hhome : AtHome s₀)
    (h : Runs (coMachine n) (fun s act => ResumedAtHome s act ∧ LeavesTask p c s act) s₀ tr s) :
    tr.countP (CoEvent.isCheck p) ≤ max 1 data ∧
      tr.countP (CoEvent.isResponse p .finished) ≤ 1 ∧
      (tr.countP (CoEvent.isResponse p .finished) = 1 →
        tr.countP (CoEvent.isCheck p) = max 1 data) := by
  obtain ⟨-, tr', hseen⟩ := seenAs_of_run hdata hstart hhome h
  rw [← hseen.checks, ← hseen.responses .finished]
  rcases (TaskPhase.runs hstart hdata hseen.run).work with hwork | hwork
  · have hzero := hwork.finished
    exact ⟨hwork.bodies, by omega, by omega⟩
  · exact ⟨hwork.bodies.le, hwork.finished.le, fun _ => hwork.bodies⟩

end System

end ThletEvaluation.Shinjuku
