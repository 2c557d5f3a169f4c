import ThletEvaluation.Shinjuku.Handshake

/-!
# One sweep over the workers

`do_dispatching` creates its workers on the CPUs `2 .. num_cpus - 1` and polls the CPUs
`0 .. num_cpus - 3`. A sweep in which no worker moves runs `handle_worker` on each polled
CPU in turn, so it can be followed call by call: each call changes one worker's records
and shortens the queue by what its response flag says. The last two worker CPUs are never
served.
-/

namespace ThletEvaluation.Shinjuku

open Run

set_option autoImplicit false

/-- `k` accesses of `handle_worker` with nothing in between. -/
def serveFor (i : Nat) (curTime : UInt64) :
    Nat → PerCpu → List Task → Stage → PerCpu × List Task × Stage × List Event
  | 0, c, q, st => (c, q, st, [])
  | k + 1, c, q, st =>
    let r := serveStep i curTime c q st
    let r' := serveFor i curTime k r.1 r.2.1 r.2.2.1
    (r'.1, r'.2.1, r'.2.2.1, r.2.2.2 ++ r'.2.2.2)

section Calls
variable {i : Nat} {now : UInt64} {c c' : PerCpu} {q q' : List Task} {es : List Event}

@[simp] theorem serveFor_done (k : Nat) : serveFor i now k c q .done = (c, q, .done, []) := by
  induction k with
  | zero => rfl
  | succ k ih => simp [serveFor, serveStep, ih]

@[simp] theorem serveFor_bug (k : Nat) : serveFor i now k c q .bug = (c, q, .bug, []) := by
  induction k with
  | zero => rfl
  | succ k ih => simp [serveFor, serveStep, ih]

theorem serveFor_add (j k : Nat) (st : Stage) :
    serveFor i now (j + k) c q st =
      let r := serveFor i now j c q st
      let r' := serveFor i now k r.1 r.2.1 r.2.2.1
      (r'.1, r'.2.1, r'.2.2.1, r.2.2.2 ++ r'.2.2.2) := by
  induction j generalizing c q st with
  | zero => simp [serveFor]
  | succ j ih =>
    rw [Nat.succ_add]
    simp [serveFor, ih]

theorem serveFor_out (h : dispatchRequest i now c q = some (c', q', es)) :
    serveFor i now 12 c q .out = (c', q', .done, es) := by
  cases q with
  | nil =>
    obtain ⟨rfl, rfl, rfl⟩ := by simpa [dispatchRequest] using h
    simp [serveFor, serveStep]
  | cons t q =>
    simp only [dispatchRequest] at h
    split at h
    · simp at h
    next hflag =>
      obtain ⟨rfl, rfl, rfl⟩ := by simpa using h
      simp [serveFor, serveStep, hflag, requestFields, Field.copy, PerCpu.setResponseFlag,
        PerCpu.setRequestFlag]

theorem serveFor_settled (i : Nat) (now : UInt64) (q : List Task)
    (hflag : c.response.flag ≠ .running) :
    ∃ k, serveFor i now k c q .poll =
      if c.response.flag = .finished then ((handleFinished i c).1, q, .out, (handleFinished i c).2)
      else if c.response.flag = .preempted then
        ((handlePreempted i c q).1, (handlePreempted i c q).2.1, .out, (handlePreempted i c q).2.2)
      else (c, q, .out, []) := by
  cases hcase : c.response.flag with
  | running => contradiction
  | finished =>
    refine ⟨6, ?_⟩
    simp [serveFor, serveStep, hcase, handleFinished]
  | preempted =>
    refine ⟨11, ?_⟩
    simp [serveFor, serveStep, hcase, handlePreempted, responseFields, Field.copy]
  | processed =>
    refine ⟨3, ?_⟩
    simp [serveFor, serveStep, hcase]

/-- A call of `handle_worker` that nothing interrupts computes `handleWorker`. -/
theorem serveFor_handleWorker (h : handleWorker i now c q = some (c', q', es)) :
    ∃ k, serveFor i now k c q .poll = (c', q', .done, es) := by
  unfold handleWorker at h
  split at h
  next hflag =>
    obtain ⟨⟨d, q₁, es₁⟩, hd, heq⟩ := Option.map_eq_some_iff.mp h
    obtain ⟨rfl, rfl, rfl⟩ := by simpa using heq
    obtain ⟨k, hk⟩ := serveFor_settled i now q hflag
    refine ⟨k + 12, ?_⟩
    rw [serveFor_add, hk]
    by_cases hfin : c.response.flag = .finished
    · simp only [hfin, if_true] at hd ⊢
      simp [serveFor_out hd]
    by_cases hpre : c.response.flag = .preempted
    · simp only [hpre, if_true, if_false, reduceCtorEq] at hd ⊢
      simp [serveFor_out hd]
    · simp only [hfin, hpre, if_false] at hd ⊢
      simp [serveFor_out hd]
  next hflag =>
    obtain ⟨rfl, rfl, rfl⟩ := by simpa using h
    exact ⟨2, by simp_all [serveFor, serveStep]⟩

end Calls

def DispatcherPc.isServe : DispatcherPc → Bool
  | .serve .. => true
  | _ => false

/-- Only the dispatcher moves, and only inside its sweep over the workers. -/
def Quiet (s : Sys) : Act → Prop
  | .disp _ => s.dpc.isServe = true
  | .work .. => False

def Sys.served (s : Sys) (i : Nat) (c : PerCpu) (q : List Task) (st : Stage) : Sys :=
  { s.setCpu i { s.cpu i with data := c } with
    tskq := q
    dpc := .serve i st }

section Quiet
variable {n i k : Nat} {s : Sys} {st : Stage} {c : PerCpu} {q : List Task} {es : List Event}

theorem served_self (hdpc : s.dpc = .serve i st) :
    s.served i (s.cpu i).data s.tskq st = s := by
  cases s
  simp_all [Sys.served, Sys.setCpu]

@[simp] theorem served_served (c' : PerCpu) (q' : List Task) (st' : Stage) :
    (s.served i c q st).served i c' q' st' = s.served i c' q' st' := by
  simp [Sys.served, Sys.setCpu]

theorem quiet_serve (hdpc : s.dpc = .serve i st) (hbug : st ≠ .bug) (hdone : st ≠ .done) :
    let r := serveStep i s.curTime (s.cpu i).data s.tskq st
    Runs (machine n) Quiet s r.2.2.2 (s.served i r.1 r.2.1 r.2.2.1) := by
  have hok : Quiet s (.disp {}) := by simp [Quiet, hdpc, DispatcherPc.isServe]
  have hstep := dispatcherStep_serve (n := n) (v := {}) hdpc hbug hdone
  simpa using Runs.next .start hok hstep

theorem quiet_serveFor (hdpc : s.dpc = .serve i st)
    (h : serveFor i s.curTime k (s.cpu i).data s.tskq st = (c, q, .done, es)) :
    Runs (machine n) Quiet s es (s.served i c q .done) := by
  induction k generalizing s st es with
  | zero =>
    obtain ⟨rfl, rfl, rfl, rfl⟩ := by simpa [serveFor] using h
    rw [served_self hdpc]
    exact .start
  | succ k ih =>
    by_cases hdone : st = .done
    · subst hdone
      obtain ⟨rfl, rfl, rfl⟩ := by simpa using h
      rw [served_self hdpc]
      exact .start
    by_cases hbug : st = .bug
    · subst hbug
      simp at h
    · simp only [serveFor, Prod.mk.injEq] at h
      obtain ⟨hc, hq, hst, rfl⟩ := h
      have hfirst := quiet_serve (n := n) hdpc hbug hdone
      refine hfirst.trans ?_
      generalize serveStep i s.curTime (s.cpu i).data s.tskq st = r at *
      have hrest : Runs (machine n) Quiet (s.served i r.1 r.2.1 r.2.2.1)
          (serveFor i s.curTime k r.1 r.2.1 r.2.2.1).2.2.2
          ((s.served i r.1 r.2.1 r.2.2.1).served i c q .done) :=
        ih rfl (by simp [Sys.served, Sys.setCpu, ← hc, ← hq, ← hst])
      simpa using hrest

theorem quiet_handleWorker (hdpc : s.dpc = .serve i .poll)
    (h : handleWorker i s.curTime (s.cpu i).data s.tskq = some (c, q, es)) :
    Runs (machine n) Quiet s es
      { s.served i c q .done with dpc := sweepFrom n (i + 1) } := by
  obtain ⟨k, hk⟩ := serveFor_handleWorker h
  have hcall := quiet_serveFor (n := n) hdpc hk
  have hok : Quiet (s.served i c q .done) (.disp {}) := rfl
  have hadvance : (machine n).step (s.served i c q .done) (.disp {}) =
      some ({ s.served i c q .done with dpc := sweepFrom n (i + 1) }, []) := rfl
  simpa using hcall.next hok hadvance

end Quiet

def lengthAfter (l : Nat) : ResponseFlag → Nat
  | .running => l
  | .finished | .processed => l - 1
  | .preempted => if l < TSKQ_SIZE then l else l - 1

section Effects
variable {i : Nat} {now : UInt64} {c c' : PerCpu} {q q' : List Task} {es : List Event}

theorem dispatchRequest_effect (h : dispatchRequest i now c q = some (c', q', es)) :
    q'.length = q.length - 1 ∧
      (c'.response.flag = .running ∨ c'.response.flag = c.response.flag) := by
  cases q with
  | nil =>
    obtain ⟨rfl, rfl, rfl⟩ := by simpa [dispatchRequest] using h
    exact ⟨rfl, .inr rfl⟩
  | cons t q =>
    simp only [dispatchRequest] at h
    split at h
    · simp at h
    · obtain ⟨rfl, rfl, rfl⟩ := by simpa using h
      exact ⟨by simp, .inl rfl⟩

theorem handlePreempted_length (i : Nat) (c : PerCpu) (q : List Task) :
    (handlePreempted i c q).2.1.length - 1 = lengthAfter q.length .preempted := by
  by_cases hroom : q.length < TSKQ_SIZE
  · simp [handlePreempted, kfifoIn_of_room _ hroom, lengthAfter, hroom]
  · simp [handlePreempted, kfifoIn_of_full _ hroom, lengthAfter, hroom]

theorem handleWorker_effect (h : handleWorker i now c q = some (c', q', es)) :
    q'.length = lengthAfter q.length c.response.flag ∧
      (c'.response.flag = .running ∨ c'.response.flag = .processed) := by
  unfold handleWorker at h
  split at h
  next hrun =>
    obtain ⟨⟨d, q₁, es₁⟩, hd, heq⟩ := Option.map_eq_some_iff.mp h
    obtain ⟨rfl, rfl, rfl⟩ := by simpa using heq
    obtain ⟨hlen, hflag⟩ := dispatchRequest_effect hd
    cases hcase : c.response.flag with
    | running => contradiction
    | finished =>
      simp only [hcase, if_true] at hlen hflag
      exact ⟨hlen, hflag⟩
    | preempted =>
      simp only [hcase, if_true, if_false, reduceCtorEq] at hlen hflag
      exact ⟨hlen.trans (handlePreempted_length i c q), hflag⟩
    | processed =>
      simp only [hcase, if_false, reduceCtorEq] at hlen hflag
      exact ⟨hlen, hflag⟩
  next hrun =>
    have hrunning : c.response.flag = .running := by simpa using hrun
    obtain ⟨rfl, rfl, rfl⟩ := by simpa using h
    refine ⟨by rw [hrunning]; rfl, .inl ?_⟩
    unfold preemptWorker
    split <;> exact hrunning

theorem dispatchRequest_total (i : Nat) (now : UInt64) (q : List Task)
    (hreq : c.request.flag = .waiting) : ∃ r, dispatchRequest i now c q = some r := by
  cases q with
  | nil => exact ⟨_, rfl⟩
  | cons t q => simp [dispatchRequest, hreq]

theorem handleWorker_total (i : Nat) (now : UInt64) (q : List Task)
    (hw : c.response.flag ≠ .running → c.request.flag = .waiting) :
    ∃ r, handleWorker i now c q = some r := by
  cases hcase : c.response.flag with
  | running => simp [handleWorker, hcase]
  | finished =>
    have hreq : (handleFinished i c).1.request.flag = .waiting := hw (by simp [hcase])
    obtain ⟨r, hr⟩ := dispatchRequest_total i now q hreq
    simp [handleWorker, hcase, hr]
  | preempted =>
    have hreq : (handlePreempted i c q).1.request.flag = .waiting := hw (by simp [hcase])
    obtain ⟨r, hr⟩ := dispatchRequest_total i now (handlePreempted i c q).2.1 hreq
    simp [handleWorker, hcase, hr]
  | processed =>
    obtain ⟨r, hr⟩ := dispatchRequest_total i now q (hw (by simp [hcase]))
    simp [handleWorker, hcase, hr]

end Effects

def Sys.flag (s : Sys) (i : Nat) : ResponseFlag := (s.cpu i).data.response.flag

structure Swept (n i : Nat) (s t : Sys) : Prop where
  dpc : t.dpc = .net MAX_BATCH
  length : t.tskq.length =
    ((List.range' i (n - 2 - i)).map s.flag).foldl lengthAfter s.tskq.length
  polled : ∀ j, i ≤ j → j < n - 2 → t.flag j = .running ∨ t.flag j = .processed
  others : ∀ j, j < i ∨ n - 2 ≤ j → t.flag j = s.flag j

theorem sweep_run {n : Nat} {s : Sys} (k i : Nat) (hk : n - 2 - i = k)
    (hdpc : s.dpc = sweepFrom n i)
    (hw : ∀ j, i ≤ j → s.flag j ≠ .running → (s.cpu j).data.request.flag = .waiting) :
    ∃ es t, Runs (machine n) Quiet s es t ∧ Swept n i s t := by
  induction k generalizing s i with
  | zero =>
    have hdpc' : s.dpc = .net MAX_BATCH := by
      rw [hdpc, sweepFrom, if_neg (by omega)]
    refine ⟨[], s, .start, hdpc', ?_, ?_, fun _ _ => rfl⟩
    · simp [hk]
    · intro j hij hj
      omega
  | succ k ih =>
    have hserve : s.dpc = .serve i .poll := by
      rw [hdpc, sweepFrom, if_pos (by omega)]
    obtain ⟨⟨c, q, es⟩, hcall⟩ := handleWorker_total i s.curTime s.tskq (hw i (Nat.le_refl i))
    obtain ⟨hlen, hflag⟩ := handleWorker_effect hcall
    have hrun := quiet_handleWorker (n := n) hserve hcall
    set u : Sys := { s.served i c q .done with dpc := sweepFrom n (i + 1) } with hu
    have hother : ∀ j, j ≠ i → u.cpu j = s.cpu j := by
      intro j hj
      simp [hu, Sys.served, Sys.setCpu, hj]
    have hself : (u.cpu i).data = c := by simp [hu, Sys.served, Sys.setCpu]
    obtain ⟨es', t, hrest, hswept⟩ := ih (s := u) (i + 1) (by omega) rfl (by
      intro j hj hne
      rw [hother j (by omega)]
      exact hw j (by omega) (by simpa [Sys.flag, hother j (by omega)] using hne))
    refine ⟨es ++ es', t, hrun.trans hrest, hswept.dpc, ?_, ?_, ?_⟩
    · rw [hswept.length, show n - 2 - i = (n - 2 - (i + 1)) + 1 by omega, List.range'_succ]
      have hflags : (List.range' (i + 1) (n - 2 - (i + 1))).map u.flag =
          (List.range' (i + 1) (n - 2 - (i + 1))).map s.flag := by
        apply List.map_congr_left
        intro j hj
        have := List.left_le_of_mem_range' hj
        simp [Sys.flag, hother j (by omega)]
      rw [hflags, List.map_cons, List.foldl_cons]
      have hul : u.tskq.length = lengthAfter s.tskq.length (s.flag i) := hlen
      rw [hul]
    · intro j hij hj
      rcases Nat.eq_or_lt_of_le hij with rfl | hlt
      · rw [hswept.others i (.inl (by omega))]
        simpa [Sys.flag, hself] using hflag
      · exact hswept.polled j hlt hj
    · intro j hj
      rw [hswept.others j (by omega)]
      have hne : j ≠ i := by omega
      simp [Sys.flag, hother j hne]

theorem quiet_deterministic {n : Nat} {s : Sys} {act act' : Act} {r r' : Sys × List Event}
    (hok : Quiet s act) (hok' : Quiet s act') (h : (machine n).step s act = some r)
    (h' : (machine n).step s act' = some r') : r = r' := by
  cases act with
  | work => exact hok.elim
  | disp v =>
    cases act' with
    | work => exact hok'.elim
    | disp v' =>
      have hsame : dispatcherStep n v s = dispatcherStep n v' s := by
        cases hdpc : s.dpc with
        | serve k st => cases st <;> simp [dispatcherStep, hdpc]
        | _ => simp [Quiet, hdpc, DispatcherPc.isServe] at hok
      exact Option.some.inj (h.symm.trans (hsame.trans h'))

/-- CPUs that a call of `handle_worker` takes a task for, whatever it does before. -/
def idleCount (flags : List ResponseFlag) : Nat :=
  flags.countP fun f => f = .finished ∨ f = .processed

/-- The first call that does something finds a preempted task. -/
def PreemptedFirst (flags : List ResponseFlag) : Prop :=
  flags.find? (fun f => f ≠ .running) = some .preempted

instance (flags : List ResponseFlag) : Decidable (PreemptedFirst flags) :=
  inferInstanceAs (Decidable (_ = _))

theorem foldl_lengthAfter_of_room {l : Nat} (flags : List ResponseFlag) (hl : l < TSKQ_SIZE) :
    flags.foldl lengthAfter l = l - idleCount flags := by
  induction flags generalizing l with
  | nil => simp [idleCount]
  | cons f flags ih =>
    cases f with
    | running => simpa [lengthAfter, idleCount] using ih hl
    | preempted => simpa [lengthAfter, idleCount, hl] using ih hl
    | finished | processed =>
      have hl' : l - 1 < TSKQ_SIZE := by omega
      simp only [List.foldl_cons, lengthAfter, ih hl', idleCount, List.countP_cons]
      simp
      omega

theorem foldl_lengthAfter (flags : List ResponseFlag) {l : Nat} (hl : l ≤ TSKQ_SIZE) :
    flags.foldl lengthAfter l =
      l - (idleCount flags + if l = TSKQ_SIZE ∧ PreemptedFirst flags then 1 else 0) := by
  by_cases hroom : l < TSKQ_SIZE
  · have hne : l ≠ TSKQ_SIZE := by omega
    simpa [hne] using foldl_lengthAfter_of_room flags hroom
  obtain rfl : l = TSKQ_SIZE := by omega
  have hpred : TSKQ_SIZE - 1 < TSKQ_SIZE := by decide
  induction flags with
  | nil => simp [idleCount, PreemptedFirst]
  | cons f flags ih =>
    cases f with
    | running => simpa [lengthAfter, idleCount, PreemptedFirst] using ih
    | preempted =>
      simp only [List.foldl_cons, lengthAfter, Nat.lt_irrefl, if_false,
        foldl_lengthAfter_of_room flags hpred]
      simp [idleCount, PreemptedFirst]
      omega
    | finished | processed =>
      simp only [List.foldl_cons, lengthAfter, foldl_lengthAfter_of_room flags hpred]
      simp [idleCount, PreemptedFirst]
      omega

theorem queue_bounded {tr : List Event} {a : Sched}
    (h : schedObserver.accept Sched.init tr = some a) : a.queue.length ≤ TSKQ_SIZE := by
  apply Observer.accept_invariant (I := fun _ (a : Sched) => a.queue.length ≤ TSKQ_SIZE) _ _ h
  · simp [Sched.init]
  intro tr c ev d hc hnext
  obtain ⟨q, hq, hcase⟩ := Sched.next_cases hnext
  have hlen : q.length ≤ TSKQ_SIZE := by
    cases ev with
    | enqueue t =>
      obtain ⟨⟨-, hroom⟩, rfl⟩ := by simpa [queueNext] using hq
      simpa using Nat.succ_le_of_lt hroom
    | pop i t =>
      obtain ⟨-, rfl⟩ := by simpa [queueNext] using hq
      simp only [List.length_tail]
      omega
    | requeue i t stored =>
      obtain ⟨-, rfl⟩ := by simpa [queueNext] using hq
      by_cases hroom : c.queue.length < TSKQ_SIZE
      · simpa [kfifoIn_of_room t hroom] using Nat.succ_le_of_lt hroom
      · simpa [kfifoIn_of_full t hroom] using hc
    | _ =>
      obtain rfl := by simpa [queueNext] using hq
      exact hc
  rcases hcase with ⟨-, rfl⟩ | ⟨i, β, -, -, rfl⟩ <;> exact hlen

theorem waiting_of_sim {a : Sched} {s : Sys} {j : Nat} (hsim : Sim a s)
    (hstage : stageOf s.dpc j = .poll ∨ stageOf s.dpc j = .done) (hflag : s.flag j ≠ .running) :
    (s.cpu j).data.request.flag = .waiting := by
  have hshows : Shows (s.cpu j).data (a.slot j) := by
    have hs := hsim.server j
    rcases hstage with h | h <;> rw [h] at hs <;> exact hs
  have hw := hsim.worker j
  cases hslot : a.slot j with
  | empty =>
    rw [hslot] at hw
    exact (spin_of_empty hw hflag).2
  | reported e ctx fin =>
    rw [hslot] at hw
    exact (atRest_of_reported hw).2.1
  | posted e | running e ctx k =>
    exact absurd (by simpa [hslot, Shows, Sys.flag] using hshows) hflag
  | handed e | freed e ctx => simp [hslot, Shows] at hshows

def WorkerPc.initialised : WorkerPc → Bool
  | .unborn | .initActive | .initPreempted | .initFlag => false
  | _ => true

def NeverServed (c : Core) : Prop :=
  c.data.request.flag = .waiting ∧
    (c.pc.initialised = true → c.pc = .spin ∧ c.data.response.flag = .processed)

structure Unserved (n : Nat) (s : Sys) : Prop where
  serve : ∀ k st, s.dpc = .serve k st → k < n - 2
  idle : ∀ i, n - 2 ≤ i → NeverServed (s.cpu i)

section Unserved
variable {n : Nat} {s t : Sys} {es : List Event}

theorem neverServed_work {i : Nat} {fin : Bool} {c c' : PerCpu} {pc pc' : WorkerPc}
    (hc : NeverServed ⟨c, pc⟩) (h : workerStep i fin c pc = some (c', pc', es)) :
    NeverServed ⟨c', pc'⟩ := by
  obtain ⟨hreq, hinit⟩ := hc
  cases pc with
  | unborn => simp [workerStep] at h
  | initActive | initPreempted | initFlag =>
    obtain ⟨rfl, rfl, -⟩ := by simpa [workerStep] using h
    exact ⟨hreq, by simp [WorkerPc.initialised, PerCpu.setResponseFlag]⟩
  | spin =>
    obtain ⟨rfl, rfl, -⟩ := by simpa [workerStep] using h
    exact ⟨hreq, by simpa [show c.request.flag = .waiting from hreq] using hinit⟩
  | _ => simp [WorkerPc.initialised] at hinit

theorem sweepFrom_serve {n i k : Nat} {st : Stage} (h : sweepFrom n i = .serve k st) :
    k < n - 2 := by
  unfold sweepFrom at h
  split at h
  · obtain ⟨rfl, -⟩ := by simpa using h
    assumption
  · simp at h

theorem unserved_disp {v : Env} (hu : Unserved n s)
    (h : dispatcherStep n v s = some (t, es)) : Unserved n t := by
  cases dispatcherStep_cases h with
  | start =>
    refine ⟨?_, hu.idle⟩
    intro k st hk
    by_cases hn : n < 3 <;> simp [hn] at hk
  | @create k =>
    refine ⟨by simp, ?_⟩
    intro i hi
    rcases eq_or_ne i k with rfl | hne
    · exact ⟨by simpa [Sys.setCpu] using (hu.idle i hi).1,
        by simp [Sys.setCpu, WorkerPc.initialised]⟩
    · simpa [Sys.setCpu, hne] using hu.idle i hi
  | endCreate hdpc hto =>
    refine ⟨?_, hu.idle⟩
    intro k st hk
    rcases hto with rfl | rfl <;> simp at hk
  | timestamps | checks => exact ⟨by simp, hu.idle⟩
  | loop | next => exact ⟨fun _ _ => sweepFrom_serve, hu.idle⟩
  | @serve k st r hdpc hr =>
    have hk := hu.serve k st hdpc
    constructor
    · intro j st' hj
      obtain ⟨rfl, -⟩ := by simpa using hj
      exact hk
    · intro i hi
      have hne : i ≠ k := by omega
      simpa [Sys.setCpu, hne] using hu.idle i hi
  | @net k r hdpc hr =>
    refine ⟨?_, hu.idle⟩
    intro j st hj
    by_cases hmore : r.2.1 = true <;> simp [hmore] at hj

theorem unserved_work {i : Nat} {fin : Bool} (hu : Unserved n s)
    (h : sysStep n s (.work i fin) = some (t, es)) : Unserved n t := by
  obtain ⟨c, pc, hstep, rfl⟩ := sysStep_work h
  refine ⟨hu.serve, ?_⟩
  intro j hj
  rcases eq_or_ne j i with rfl | hne
  · simpa [Sys.setCpu] using neverServed_work (hu.idle j hj) hstep
  · simpa [Sys.setCpu, hne] using hu.idle j hj

end Unserved

/-- No run hands a task to the CPUs that the sweep leaves out. -/
theorem unserved_run {n : Nat} {ok : Sys → Act → Prop} {tr : List Event} {s : Sys}
    (h : Runs (machine n) ok Sys.init tr s) : Unserved n s := by
  apply Runs.invariant (I := fun _ s => Unserved n s) _ _ h
  · exact ⟨by simp [Sys.init], fun _ _ => ⟨rfl, by simp [Sys.init, WorkerPc.initialised]⟩⟩
  · intro tr es s t act hu _ hstep
    cases act with
    | disp v => exact unserved_disp hu hstep
    | work i fin => exact unserved_work hu hstep

/-- After a sweep, the queue is empty or every worker runs, and none is left with a
finished or preempted response. -/
def WorkConserved (n : Nat) (s : Sys) : Prop :=
  (s.tskq = [] ∨ ∀ i, 2 ≤ i → i < n → s.flag i = .running) ∧
    ∀ i, 2 ≤ i → i < n → s.flag i ≠ .finished ∧ s.flag i ≠ .preempted

/-- The polled CPUs can take the whole queue: one entry for each that is idle, and one
more when the queue is full and the first stopped CPU brings a preempted task, which is
then lost. -/
def Drains (n : Nat) (s : Sys) : Prop :=
  let flags := (List.range (n - 2)).map s.flag
  s.tskq.length ≤
    idleCount flags + if s.tskq.length = TSKQ_SIZE ∧ PreemptedFirst flags then 1 else 0

theorem sweep_outcome {n : Nat} (hn : 3 ≤ n) {tr : List Event} {s : Sys}
    (h : Runs (machine n) (fun _ _ => True) Sys.init tr s) (hdpc : s.dpc = .serve 0 .poll)
    (hinit : ∀ i, 2 ≤ i → i < n → (s.cpu i).pc.initialised = true) :
    ∃ es t, Runs (machine n) Quiet s es t ∧ t.dpc = .net MAX_BATCH ∧
      (WorkConserved n t ↔ Drains n s) := by
  obtain ⟨a, hacc, hsim⟩ := machine_simulates h
  have hstart : s.dpc = sweepFrom n 0 := by
    rw [hdpc, sweepFrom, if_pos (by omega)]
  have hwait : ∀ j, 0 ≤ j → s.flag j ≠ .running → (s.cpu j).data.request.flag = .waiting := by
    intro j _ hj
    exact waiting_of_sim hsim (hstart ▸ stageOf_sweepFrom n 0 j) hj
  obtain ⟨es, t, hrun, hswept⟩ := sweep_run (n - 2) 0 (by omega) hstart hwait
  refine ⟨es, t, hrun, hswept.dpc, ?_⟩
  have hidle : ∀ i, n - 2 ≤ i → 2 ≤ i → i < n → t.flag i = .processed := by
    intro i hi h2 hin
    rw [hswept.others i (.inr hi)]
    exact (((unserved_run h).idle i hi).2 (hinit i h2 hin)).2
  have hsettled : ∀ i, 2 ≤ i → i < n → t.flag i ≠ .finished ∧ t.flag i ≠ .preempted := by
    intro i h2 hin
    by_cases hi : i < n - 2
    · rcases hswept.polled i (by omega) hi with hf | hf <;> simp [hf]
    · simp [hidle i (by omega) h2 hin]
  -- the last CPU has a worker and is not polled
  have hlast : t.flag (n - 1) = .processed := hidle (n - 1) (by omega) (by omega) (by omega)
  have hbound : s.tskq.length ≤ TSKQ_SIZE := hsim.queue ▸ queue_bounded hacc
  have hlen := hswept.length
  rw [foldl_lengthAfter _ hbound, Nat.sub_zero, ← List.range_eq_range'] at hlen
  calc WorkConserved n t ↔ t.tskq = [] := by
        constructor
        · rintro ⟨hempty | hall, -⟩
          · exact hempty
          · have := hall (n - 1) (by omega) (by omega)
            simp [hlast] at this
        · exact fun hempty => ⟨.inl hempty, hsettled⟩
    _ ↔ t.tskq.length = 0 := List.length_eq_zero_iff.symm
    _ ↔ Drains n s := by
        rw [hlen, Nat.sub_eq_zero_iff_le]
        rfl

/-- From every reachable start of a sweep with all workers initialised, the sweep comes
to its end, and work is conserved there exactly when the polled CPUs drain the queue. -/
theorem work_conserved_iff {n : Nat} (hn : 3 ≤ n) {tr : List Event} {s : Sys}
    (h : Runs (machine n) (fun _ _ => True) Sys.init tr s) (hdpc : s.dpc = .serve 0 .poll)
    (hinit : ∀ i, 2 ≤ i → i < n → (s.cpu i).pc.initialised = true) :
    (∃ es t, Runs (machine n) Quiet s es t ∧ t.dpc = .net MAX_BATCH) ∧
      ∀ es t, Runs (machine n) Quiet s es t → t.dpc = .net MAX_BATCH →
        (WorkConserved n t ↔ Drains n s) := by
  obtain ⟨es, t, hrun, hend, hiff⟩ := sweep_outcome hn h hdpc hinit
  refine ⟨⟨es, t, hrun, hend⟩, ?_⟩
  intro es' t' hrun' hend'
  have hstop : ∀ u : Sys, u.dpc = .net MAX_BATCH → ∀ act, Quiet u act →
      (machine n).step u act = none := by
    intro u hu act hok
    cases act <;> simp [Quiet, hu, DispatcherPc.isServe] at hok
  obtain rfl : t' = t :=
    Runs.stop_unique quiet_deterministic hrun (hstop t hend) hrun' (hstop t' hend')
  exact hiff

/-- Three CPUs: the only worker is on CPU 2, and one packet waits when the sweep, which
polls CPU 0 alone, begins. -/
def threeCpus : List Act :=
  List.replicate 5 (Act.disp {}) ++ List.replicate 3 (Act.work 2 false) ++
    List.replicate 4 (Act.disp {}) ++ [Act.disp { packet := 0x8000, cont := some 0x1000 }] ++
    List.replicate 2 (Act.disp {})

theorem threeCpus_runs :
    ∃ tr s, Runs (machine 3) (fun _ _ => True) Sys.init tr s ∧ s.dpc = .serve 0 .poll ∧
      (∀ i, 2 ≤ i → i < 3 → (s.cpu i).pc.initialised = true) ∧ ¬ Drains 3 s := by
  obtain ⟨tr, s, hrun, hend⟩ := Machine.exec_reaches (machine 3) (fun _ _ => True) Sys.init
    threeCpus (fun _ s => s.dpc = .serve 0 .poll ∧ (s.cpu 2).pc.initialised = true ∧
      s.tskq.length = 1 ∧ s.flag 0 = .running) (by decide)
  obtain ⟨hdpc, hinit, hlen, hflag⟩ := by simpa using hend
  refine ⟨tr, s, hrun, hdpc, ?_, ?_⟩
  · intro i h2 h3
    obtain rfl : i = 2 := by omega
    exact hinit
  · simp [Drains, hlen, hflag, idleCount, TSKQ_SIZE]

/-- With three CPUs the waiting packet is not given to the only worker. -/
theorem work_not_conserved_on_three_cpus :
    ¬ ∀ (n : Nat) (tr : List Event) (s : Sys), 3 ≤ n →
      Runs (machine n) (fun _ _ => True) Sys.init tr s → s.dpc = .serve 0 .poll →
      (∀ i, 2 ≤ i → i < n → (s.cpu i).pc.initialised = true) →
      ∀ es t, Runs (machine n) Quiet s es t → t.dpc = .net MAX_BATCH → WorkConserved n t := by
  intro hclaim
  obtain ⟨tr, s, hrun, hdpc, hinit, hnot⟩ := threeCpus_runs
  obtain ⟨es, t, hsweep, hend, hiff⟩ := sweep_outcome (Nat.le_refl 3) hrun hdpc hinit
  exact hnot (hiff.mp (hclaim 3 tr s (Nat.le_refl 3) hrun hdpc hinit es t hsweep hend))

theorem work_conserved_iff_threeCpus :
    ∃ tr s, Runs (machine 3) (fun _ _ => True) Sys.init tr s ∧ s.dpc = .serve 0 .poll ∧
      (∃ es t, Runs (machine 3) Quiet s es t ∧ t.dpc = .net MAX_BATCH) ∧
      ∀ es t, Runs (machine 3) Quiet s es t → t.dpc = .net MAX_BATCH →
        (WorkConserved 3 t ↔ Drains 3 s) := by
  obtain ⟨tr, s, hrun, hdpc, hinit, -⟩ := threeCpus_runs
  exact ⟨tr, s, hrun, hdpc, work_conserved_iff (Nat.le_refl 3) hrun hdpc hinit⟩

end ThletEvaluation.Shinjuku
