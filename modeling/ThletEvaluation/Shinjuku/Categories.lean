import ThletEvaluation.Shinjuku.Ownership

/-!
# Starting and resuming a packet

The category of a task travels with its buffer: `handle_networker` stores `PACKET`,
`finish_request` answers with `CONTEXT`, and nobody else writes it. So a buffer that has
not been dispatched since it came in stands everywhere with `PACKET`, and one that has
been stands with `CONTEXT` in the queue and in the hands of the dispatcher.
-/

namespace ThletEvaluation.Shinjuku

open Run

set_option autoImplicit false

def dispatchesNext (m : Addr) (cs : List Category) : Event → List Category
  | .enqueue t => if t.mbuf = m then [] else cs
  | .dispatch _ e => if e.mbuf = m then cs ++ [e.category] else cs
  | _ => cs

/-- The categories with which buffer `m` was dispatched since it last came in. -/
def dispatchesOf (m : Addr) (tr : List Event) : List Category :=
  tr.foldl (dispatchesNext m) []

@[simp] theorem dispatchesOf_append (m : Addr) (tr : List Event) (ev : Event) :
    dispatchesOf m (tr ++ [ev]) = dispatchesNext m (dispatchesOf m tr) ev := by
  simp [dispatchesOf]

/-- A first dispatch as a packet, and then resumptions only. -/
def StartedOnce (cs : List Category) : Prop :=
  cs = [] ∨ ∃ k, cs = .packet :: List.replicate k .context

def nextCategory (cs : List Category) : Category := if cs = [] then .packet else .context

theorem StartedOnce.snoc {cs : List Category} (h : StartedOnce cs) :
    StartedOnce (cs ++ [nextCategory cs]) := by
  rcases h with rfl | ⟨k, rfl⟩
  · exact .inr ⟨0, rfl⟩
  · refine .inr ⟨k + 1, ?_⟩
    simp [nextCategory, List.replicate_succ']

def Slot.Stamped (m : Addr) (cs : List Category) : Slot → Prop
  | .empty => True
  | .handed e => e.mbuf = m → e.category = nextCategory cs
  | .posted e | .running e _ _ | .reported e _ _ | .freed e _ => e.mbuf = m → cs ≠ []

structure Stamped (a : Sched) (tr : List Event) (m : Addr) : Prop where
  located : Located a m (life m tr)
  order : StartedOnce (dispatchesOf m tr)
  queue : ∀ t ∈ a.queue, t.mbuf = m → t.category = nextCategory (dispatchesOf m tr)
  slot : ∀ i, (a.slot i).Stamped m (dispatchesOf m tr)

section Steps
variable {i : Nat} {m : Addr} {l : Life} {cs : List Category} {α β : Slot} {ev : Event}
  {a b : Sched} {tr : List Event}

theorem stamped_init (m : Addr) : Stamped Sched.init [] m where
  located := (tracked_init m).located
  order := .inl rfl
  queue := by simp [Sched.init]
  slot := fun _ => trivial

theorem stamped_of_ne (hα : α.buffer ≠ some m) : α.Stamped m cs := by
  cases α <;> simp_all [Slot.buffer, Slot.Stamped]

/-- Any event but the dispatch of `m` itself leaves the slot stamped. -/
theorem stamped_slotStep (hstep : SlotStep i α ev β) (hα : α.Stamped m cs)
    (hpop : ∀ t, ev = .pop i t → t.mbuf = m → t.category = nextCategory cs)
    (hdispatch : ∀ e, ev = .dispatch i e → e.mbuf ≠ m) : β.Stamped m cs := by
  cases hstep with
  | pop t => exact hpop t rfl
  | dispatch t time => exact fun hm => absurd hm (hdispatch _ rfl)
  | _ => simp_all [Slot.Stamped]

theorem stamped_enqueue {t : Task} (hl : Located a t.mbuf l) (hgone : l.gone = true)
    (h : a.next (.enqueue t) = some b) :
    (∀ u ∈ b.queue, u.mbuf = t.mbuf → u.category = .packet) ∧
      ∀ i, (b.slot i).Stamped t.mbuf [] := by
  obtain ⟨q, hq, ⟨-, rfl⟩ | ⟨i, β, hw, -, -⟩⟩ := Sched.next_cases h
  · constructor
    · intro u hu hm
      rcases mem_of_queueNext hq hu with h | h | ⟨j, stored, h⟩
      · exact absurd hm (hl.not_queued (Life.ne_queued_of_gone hgone) u h)
      · obtain ⟨⟨hpacket, -⟩, -⟩ := by simpa [queueNext] using hq
        simp_all
      · simp at h
    · intro i
      exact stamped_of_ne (hl.not_in_slot (Life.at_of_gone hgone i))
  · simp [Event.worker] at hw

/-- The dispatch of `m` finds it in the hands of the dispatcher and nowhere else. -/
theorem stamped_dispatch {e : Task} (hs : Stamped a tr e.mbuf)
    (h : a.next (.dispatch i e) = some b) :
    e.category = nextCategory (dispatchesOf e.mbuf tr) ∧
      (∀ u ∈ b.queue, u.mbuf ≠ e.mbuf) ∧
      ∀ j cs, cs ≠ [] → (b.slot j).Stamped e.mbuf cs := by
  obtain ⟨q, hq, ⟨hw, -⟩ | ⟨k, β, hw, hstep, rfl⟩⟩ := Sched.next_cases h
  · simp [Event.worker] at hw
  · obtain rfl : i = k := by simpa [Event.worker] using hw
    obtain rfl : a.queue = q := by simpa [queueNext] using hq
    cases hα : a.slot i with
    | handed t =>
      rw [hα] at hstep
      cases hstep with
      | dispatch t time =>
        have hlife : life t.mbuf tr = .handed i := by
          have hloc := hs.located.slot i
          rw [hα] at hloc
          exact eq_stageAt hloc rfl
        refine ⟨?_, ?_, ?_⟩
        · have hstamp := hs.slot i
          rw [hα] at hstamp
          exact hstamp rfl
        · exact hs.located.not_queued (by simp [hlife])
        · intro j cs hcs
          rcases eq_or_ne j i with rfl | hne
          · simpa [Slot.Stamped] using hcs
          · have hat : (life t.mbuf tr).at j = none := by simp [hlife, Life.at, hne.symm]
            simpa [hne] using stamped_of_ne (hs.located.not_in_slot hat)
    | _ =>
      rw [hα] at hstep
      cases hstep

theorem stamped_other (hs : Stamped a tr m) (h : a.next ev = some b)
    (henqueue : ∀ t, ev = .enqueue t → t.mbuf ≠ m)
    (hdispatch : ∀ i e, ev = .dispatch i e → e.mbuf ≠ m) :
    (∀ t ∈ b.queue, t.mbuf = m → t.category = nextCategory (dispatchesOf m tr)) ∧
      ∀ i, (b.slot i).Stamped m (dispatchesOf m tr) := by
  obtain ⟨q, hq, ⟨hw, rfl⟩ | ⟨i, β, hw, hstep, rfl⟩⟩ := Sched.next_cases h
  · refine ⟨?_, hs.slot⟩
    intro t ht hm
    rcases mem_of_queueNext hq ht with h | rfl | ⟨j, stored, rfl⟩
    · exact hs.queue t h hm
    · exact absurd hm (henqueue t rfl)
    · simp [Event.worker] at hw
  · have hslot := hs.slot i
    constructor
    · intro t ht hm
      rcases mem_of_queueNext hq ht with h | rfl | ⟨j, stored, rfl⟩
      · exact hs.queue t h hm
      · exact absurd hm (henqueue t rfl)
      · -- a task comes back with the category of an answer, and it was dispatched
        generalize a.slot i = α at hstep hslot
        cases hstep with
        | requeue e ctx stored => simpa [answer, nextCategory] using hslot hm
    · intro j
      rcases eq_or_ne j i with rfl | hne
      · have hstamp := stamped_slotStep hstep hslot
          (fun t hev => hs.queue t (by subst hev; simp [eq_cons_of_pop hq])) (hdispatch j)
        simpa using hstamp
      · simpa [hne] using hs.slot j

theorem Stamped.next (hs : Stamped a tr m) (h : a.next ev = some b)
    (hfresh : Fresh m (life m tr) ev) : Stamped b (tr ++ [ev]) m := by
  have hloc : Located b m (life m (tr ++ [ev])) := by
    rw [life_append]
    exact hs.located.next h hfresh
  by_cases henqueue : ∃ t, ev = .enqueue t ∧ t.mbuf = m
  · obtain ⟨t, rfl, rfl⟩ := henqueue
    obtain ⟨hqueue, hslot⟩ := stamped_enqueue hs.located (hfresh rfl rfl) h
    exact ⟨hloc, .inl (by simp [dispatchesNext]), by simpa [dispatchesNext, nextCategory],
      by simpa [dispatchesNext]⟩
  by_cases hdispatch : ∃ i e, ev = .dispatch i e ∧ e.mbuf = m
  · obtain ⟨i, e, rfl, rfl⟩ := hdispatch
    obtain ⟨hcat, hqueue, hslot⟩ := stamped_dispatch hs h
    have hds : dispatchesOf e.mbuf (tr ++ [.dispatch i e]) =
        dispatchesOf e.mbuf tr ++ [nextCategory (dispatchesOf e.mbuf tr)] := by
      simp [dispatchesNext, hcat]
    refine ⟨hloc, ?_, fun u hu hm => absurd hm (hqueue u hu), ?_⟩
    · rw [hds]
      exact hs.order.snoc
    · intro j
      exact hslot j _ (by simp [hds])
  · have henq : ∀ t, ev = .enqueue t → t.mbuf ≠ m := fun t h hm => henqueue ⟨t, h, hm⟩
    have hdis : ∀ i e, ev = .dispatch i e → e.mbuf ≠ m :=
      fun i e h hm => hdispatch ⟨i, e, h, hm⟩
    have hsame : dispatchesOf m (tr ++ [ev]) = dispatchesOf m tr := by
      cases ev <;> simp_all [dispatchesNext]
    obtain ⟨hqueue, hslot⟩ := stamped_other hs h henq hdis
    refine ⟨hloc, ?_, ?_, ?_⟩ <;> rw [hsame]
    · exact hs.order
    · exact hqueue
    · exact hslot

end Steps

theorem stamped_run {n : Nat} {tr : List Event} {s : Sys}
    (h : Runs (machine n) (FreshPacket n) Sys.init tr s) :
    ∃ a, Sim a s ∧ ∀ m, Stamped a tr m :=
  buffer_invariant (Q := fun _ => True) stamped_init Stamped.located
    (fun hs hnext hfresh _ => hs.next hnext hfresh) id (fun _ _ _ _ => trivial) h

/-- Nothing moves but worker `i`. -/
def OnlyWorker (i : Nat) (_ : Sys) : Act → Prop
  | .work j _ => j = i
  | .disp _ => False

/-- Worker `i`, left to itself, goes through `handle_request` to the handler of `e`. -/
def WillHandle (n i : Nat) (e : Task) (s : Sys) : Prop :=
  ∃ es t, Runs (machine n) (OnlyWorker i) s es t ∧
    .handle i (decide (e.category = .packet)) ∈ es

section Handle
variable {n i : Nat} {s : Sys} {e : Task}

theorem work_run {c : PerCpu} {pc : WorkerPc} {es : List Event}
    (h : workerStep i false (s.cpu i).data (s.cpu i).pc = some (c, pc, es)) :
    Runs (machine n) (OnlyWorker i) s es (s.setCpu i ⟨c, pc⟩) := by
  have hstep : (machine n).step s (.work i false) = some (s.setCpu i ⟨c, pc⟩, es) := by
    simp [machine, sysStep, h]
  have hok : OnlyWorker i s (.work i false) := rfl
  simpa using Runs.next .start hok hstep

theorem WillHandle.after {c : PerCpu} {pc : WorkerPc} {es : List Event}
    (h : workerStep i false (s.cpu i).data (s.cpu i).pc = some (c, pc, es))
    (hrest : WillHandle n i e (s.setCpu i ⟨c, pc⟩)) : WillHandle n i e s := by
  obtain ⟨es', t, hrun, hmem⟩ := hrest
  exact ⟨es ++ es', t, (work_run h).trans hrun, List.mem_append_right _ hmem⟩

theorem willHandle_category (hpc : (s.cpu i).pc = .category)
    (hreq : (s.cpu i).data.request.toTask = e) : WillHandle n i e s := by
  by_cases hp : e.category = .packet
  · have hstep : workerStep i false (s.cpu i).data (s.cpu i).pc =
        some ((s.cpu i).data, .newParse, [.handle i true]) := by
      simp [hpc, workerStep, hreq, hp]
    exact ⟨_, _, work_run hstep, by simp [hp]⟩
  · have hstep : workerStep i false (s.cpu i).data (s.cpu i).pc =
        some ((s.cpu i).data, .ctxFinished, [.handle i false]) := by
      simp [hpc, workerStep, hreq, hp]
    exact ⟨_, _, work_run hstep, by simp [hp]⟩

theorem willHandle_reset (hpc : (s.cpu i).pc = .reset)
    (hreq : (s.cpu i).data.request.toTask = e) : WillHandle n i e s := by
  have hstep : workerStep i false (s.cpu i).data (s.cpu i).pc =
      some ((s.cpu i).data.setRequestFlag .waiting, .category,
        [.take i (s.cpu i).data.request.toTask (s.cpu i).data.ctxWorker]) := by
    rw [hpc]
    rfl
  apply WillHandle.after hstep
  apply willHandle_category
  · simp [Sys.setCpu]
  · simpa [Sys.setCpu, PerCpu.setRequestFlag] using hreq

theorem willHandle_spin (hpc : (s.cpu i).pc = .spin)
    (hreq : (s.cpu i).data.request = ⟨e, .active⟩) : WillHandle n i e s := by
  have hstep : workerStep i false (s.cpu i).data (s.cpu i).pc =
      some ((s.cpu i).data, .reset, []) := by
    simp [hpc, workerStep, hreq]
  apply WillHandle.after hstep
  apply willHandle_reset
  · simp [Sys.setCpu]
  · simp [Sys.setCpu, hreq]

theorem willHandle_of_posted (h : WorkerLinked (.posted e) (s.cpu i).data (s.cpu i).pc) :
    WillHandle n i e s := by
  have hreq := request_of_posted h
  cases hpc : (s.cpu i).pc with
  | spin => exact willHandle_spin hpc hreq
  | reset => exact willHandle_reset hpc (by simp [hreq])
  | _ => simp [hpc, WorkerLinked, InRun] at h

theorem willHandle_of_taken {ctx : Addr}
    (h : WorkerLinked (.running e ctx .taken) (s.cpu i).data (s.cpu i).pc) :
    WillHandle n i e s := by
  have hreq := request_of_running h
  cases hpc : (s.cpu i).pc with
  | category => exact willHandle_category hpc (by simp [hreq])
  | _ => simp [hpc, WorkerLinked, InRun, AtRest] at h

end Handle

/-- The dispatches to worker `i` and its calls of `handle_new_packet` or, otherwise,
`handle_context`. -/
def Event.isStart (i : Nat) : Event → Bool
  | .dispatch j _ | .handle j _ => j = i
  | _ => false

def startCycle (i : Nat) (e : Task) : List Event :=
  [.dispatch i e, .handle i (decide (e.category = .packet))]

/-- While packets come in fresh: every buffer is dispatched first as a packet and then as
a context only, since it last came in; and the dispatches to a worker and its calls of the
two handlers alternate, each dispatch with the one call of the handler of its category,
which the worker is on its way to when it has not made it yet. -/
theorem packet_started_once {n : Nat} {tr : List Event} {s : Sys}
    (h : Runs (machine n) (FreshPacket n) Sys.init tr s) :
    (∀ m, StartedOnce (dispatchesOf m tr)) ∧
      ∀ i, ∃ es : List Task,
        tr.filter (Event.isStart i) = es.flatMap (startCycle i) ∨
          ∃ e, tr.filter (Event.isStart i) = es.flatMap (startCycle i) ++ [.dispatch i e] ∧
            WillHandle n i e s := by
  obtain ⟨_, -, hstamped⟩ := stamped_run h
  refine ⟨fun m => (hstamped m).order, ?_⟩
  intro i
  obtain ⟨a, hacc, hsim⟩ := machine_simulates h
  have hp : ∀ ev, Event.isStart i ev = true → ev.isUse i = true := by
    intro ev hev
    cases ev <;> simp_all [Event.isStart, Event.isUse]
  obtain ⟨cs, hcs⟩ := filter_of_uses hp (accept_uses hacc i)
  have hfull : cs.flatMap (fun c => (mailboxUse i c).filter (Event.isStart i)) =
      (cs.map Prod.fst).flatMap (startCycle i) := by
    rw [List.flatMap_map]
    apply List.flatMap_congr
    rintro ⟨e, ctx, fin⟩ -
    simp [mailboxUse, startCycle, Event.isStart]
  rw [hfull] at hcs
  have hw := hsim.worker i
  cases hslot : a.slot i with
  | posted e =>
    rw [hslot] at hcs hw
    refine ⟨cs.map Prod.fst, .inr ⟨e, ?_, willHandle_of_posted hw⟩⟩
    simpa [currentUse, Event.isStart] using hcs
  | running e ctx k =>
    rw [hslot] at hcs hw
    cases k with
    | taken =>
      refine ⟨cs.map Prod.fst, .inr ⟨e, ?_, willHandle_of_taken hw⟩⟩
      simpa [currentUse, Event.isStart] using hcs
    | handled | entered =>
      refine ⟨cs.map Prod.fst ++ [e], .inl ?_⟩
      simpa [currentUse, Event.isStart, startCycle] using hcs
  | _ =>
    rw [hslot] at hcs
    refine ⟨cs.map Prod.fst, .inl ?_⟩
    simpa [currentUse] using hcs

theorem packet_started_once_twoSlices :
    ∃ s, Runs (machine 5) (FreshPacket 5) Sys.init twoSlicesTrace s ∧
      dispatchesOf 0x8000 twoSlicesTrace = [.packet, .context] ∧
      (∀ m, StartedOnce (dispatchesOf m twoSlicesTrace)) ∧
      ∀ i, ∃ es : List Task,
        twoSlicesTrace.filter (Event.isStart i) = es.flatMap (startCycle i) ∨
          ∃ e, twoSlicesTrace.filter (Event.isStart i) =
              es.flatMap (startCycle i) ++ [.dispatch i e] ∧ WillHandle 5 i e s := by
  obtain ⟨s, hrun⟩ := twoSlices_runs_fresh
  exact ⟨s, hrun, by decide, packet_started_once hrun⟩

end ThletEvaluation.Shinjuku
