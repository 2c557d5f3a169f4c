import ThletEvaluation.Shinjuku.Mailbox

/-!
# The handshake between the dispatcher and the workers

Every run of the system is followed by the observer of the mailboxes (`Sim`). The
dispatches to a worker, its takes and its publications therefore come in full cycles,
and the request record keeps what the dispatcher wrote until the worker has published.
-/

namespace ThletEvaluation.Shinjuku

open Run

set_option autoImplicit false

def Unborn (cpu : Nat → Core) : DispatcherPc → Prop
  | .start => ∀ j, (cpu j).pc = .unborn
  | .create k => ∀ j, k ≤ j → (cpu j).pc = .unborn
  | _ => True

/-- The system is in the state that the observer has reached. -/
structure Sim (a : Sched) (s : Sys) : Prop where
  queue : a.queue = s.tskq
  worker : ∀ i, WorkerLinked (a.slot i) (s.cpu i).data (s.cpu i).pc
  server : ∀ i, ServerLinked (a.slot i) (s.cpu i).data (stageOf s.dpc i)
  unborn : Unborn s.cpu s.dpc

theorem sim_init : Sim Sched.init Sys.init where
  queue := rfl
  worker := fun _ => ⟨rfl, rfl, rfl⟩
  server := fun _ => .inl rfl
  unborn := fun _ => rfl

section Steps
variable {a : Sched} {s t : Sys} {es : List Event} {n : Nat}

theorem not_unborn_of_workerStep {i : Nat} {fin : Bool} {c : PerCpu} {pc : WorkerPc}
    {r : PerCpu × WorkerPc × List Event} (h : workerStep i fin c pc = some r) :
    pc ≠ .unborn := by
  rintro rfl
  simp [workerStep] at h

theorem unborn_setCpu {cpu : Nat → Core} {dpc : DispatcherPc} {i : Nat} {c : Core}
    (h : Unborn cpu dpc) (hi : (cpu i).pc ≠ .unborn) :
    Unborn (Function.update cpu i c) dpc := by
  cases dpc with
  | start => exact absurd (h i) hi
  | create k =>
    intro j hj
    rcases eq_or_ne j i with rfl | hne
    · exact absurd (h j hj) hi
    · simpa [hne] using h j hj
  | _ => trivial

theorem sim_work {i : Nat} {fin : Bool} (hsim : Sim a s)
    (h : sysStep n s (.work i fin) = some (t, es)) :
    ∃ b, schedObserver.accept a es = some b ∧ Sim b t := by
  obtain ⟨c, pc, hstep, rfl⟩ := sysStep_work h
  obtain ⟨β, hacc, hw, hs, hev⟩ := workerStep_moves (hsim.worker i) (hsim.server i) hstep
  have hqueue : queueObserver.accept a.queue es = some a.queue :=
    Observer.accept_const fun ev h => (hev ev h).2 _
  refine ⟨_, schedObserver_accept (fun ev h => (hev ev h).1) hqueue hacc, ?_⟩
  constructor
  · exact hsim.queue
  · intro j
    rcases eq_or_ne j i with rfl | hne
    · simpa [Sys.setCpu] using hw
    · simpa [Sys.setCpu, hne] using hsim.worker j
  · intro j
    rcases eq_or_ne j i with rfl | hne
    · simpa [Sys.setCpu] using hs
    · simpa [Sys.setCpu, hne] using hsim.server j
  · exact unborn_setCpu hsim.unborn (not_unborn_of_workerStep hstep)

theorem stageOf_sweepFrom (n k i : Nat) :
    stageOf (sweepFrom n k) i = .poll ∨ stageOf (sweepFrom n k) i = .done := by
  unfold sweepFrom
  split
  · rcases eq_or_ne k i with rfl | hne
    · exact .inl (by simp [stageOf])
    · exact .inr (by simp [stageOf, hne])
  · exact .inr rfl

theorem unborn_sweepFrom (cpu : Nat → Core) (n k : Nat) : Unborn cpu (sweepFrom n k) := by
  unfold sweepFrom
  split <;> trivial

theorem sim_goto (hsim : Sim a s) (hfrom : ∀ i, stageOf s.dpc i = .done)
    (hto : ∀ i, stageOf t.dpc i = .poll ∨ stageOf t.dpc i = .done)
    (hqueue : t.tskq = s.tskq) (hcpu : t.cpu = s.cpu) (hunborn : Unborn s.cpu t.dpc) :
    Sim a t := by
  constructor
  · rw [hqueue]
    exact hsim.queue
  · rw [hcpu]
    exact hsim.worker
  · intro i
    have hdone : ServerLinked (a.slot i) (s.cpu i).data .done := by
      simpa [hfrom i] using hsim.server i
    rw [hcpu]
    rcases hto i with h | h <;> rw [h] <;> exact hdone
  · rw [hcpu]
    exact hunborn

theorem sim_create {k : Nat} (hsim : Sim a s) (hdpc : s.dpc = .create k) :
    Sim a { s.setCpu k { s.cpu k with pc := .initActive } with dpc := .create (k + 1) } := by
  have hunborn : ∀ j, k ≤ j → (s.cpu j).pc = .unborn := by
    simpa [Unborn, hdpc] using hsim.unborn
  constructor
  · exact hsim.queue
  · intro j
    rcases eq_or_ne j k with rfl | hne
    · have hw : WorkerLinked (a.slot j) (s.cpu j).data .initActive := by
        have hw := hsim.worker j
        rwa [hunborn j (Nat.le_refl j)] at hw
      simpa [Sys.setCpu] using hw
    · simpa [Sys.setCpu, hne] using hsim.worker j
  · intro j
    have hs := hsim.server j
    rw [hdpc] at hs
    rcases eq_or_ne j k with rfl | hne
    · simpa [Sys.setCpu, stageOf] using hs
    · simpa [Sys.setCpu, stageOf, hne] using hs
  · intro j hj
    have hne : j ≠ k := by omega
    simpa [Sys.setCpu, hne] using hunborn j (by omega)

theorem sim_clocks {f : PerCpu → PerCpu} {dpc : DispatcherPc} (hsim : Sim a s)
    (hfrom : ∀ i, stageOf s.dpc i = .done) (hto : ∀ i, stageOf dpc i = .done)
    (hreq : ∀ c, (f c).request = c.request) (hresp : ∀ c, (f c).response = c.response)
    (hctx : ∀ c, (f c).ctxWorker = c.ctxWorker)
    (hunborn : Unborn (s.mapData f).cpu dpc) :
    Sim a { s.mapData f with dpc := dpc } := by
  constructor
  · exact hsim.queue
  · intro i
    exact workerLinked_congr (hsim.worker i) (hreq _) (hresp _) (hctx _)
  · intro i
    have hdone := hsim.server i
    rw [hfrom i] at hdone
    show ServerLinked _ _ (stageOf dpc i)
    rw [hto i]
    exact serverLinked_congr hdone (congrArg WorkerResponse.flag (hresp _))
      (congrArg DispatcherRequest.toTask (hreq _))
  · exact hunborn

theorem sim_serve {k : Nat} {st : Stage} {r : PerCpu × List Task × Stage × List Event}
    (hsim : Sim a s) (hdpc : s.dpc = .serve k st)
    (hr : serveStep k s.curTime (s.cpu k).data s.tskq st = r) :
    ∃ b, schedObserver.accept a r.2.2.2 = some b ∧
      Sim b { s.setCpu k { s.cpu k with data := r.1 } with
        tskq := r.2.1
        dpc := .serve k r.2.2.1 } := by
  have hserver : ServerLinked (a.slot k) (s.cpu k).data st := by
    simpa [hdpc, stageOf] using hsim.server k
  have hmove : ServerMove k (a.slot k) (s.cpu k).pc s.tskq r :=
    hr ▸ serveStep_moves (hsim.worker k) hserver
  obtain ⟨β, hacc, hqueue, hw, hs, hev⟩ := hmove
  rw [← hsim.queue] at hqueue
  refine ⟨_, schedObserver_accept hev hqueue hacc, ?_⟩
  constructor
  · rfl
  · intro j
    rcases eq_or_ne j k with rfl | hne
    · simpa [Sys.setCpu] using hw
    · simpa [Sys.setCpu, hne] using hsim.worker j
  · intro j
    rcases eq_or_ne j k with rfl | hne
    · simpa [Sys.setCpu, stageOf] using hs
    · simpa [Sys.setCpu, stageOf, hdpc, hne, hne.symm] using hsim.server j
  · trivial

theorem sim_net {k : Nat} {data : Addr} {cont : Option Addr}
    {r : List Task × Bool × List Event} (hsim : Sim a s) (hdpc : s.dpc = .net k)
    (hr : networkerRound s.curTime data cont k s.tskq = r) :
    ∃ b, schedObserver.accept a r.2.2 = some b ∧
      Sim b { s with tskq := r.1, dpc := if r.2.1 then .net (k - 1) else .loop } := by
  have hstage : ∀ i, stageOf s.dpc i = .done := by
    intro i
    rw [hdpc]
    rfl
  have hgoto : ∀ q : List Task, Sim { a with queue := q }
      { s with tskq := q, dpc := if r.2.1 then .net (k - 1) else .loop } := by
    intro q
    constructor
    · rfl
    · exact hsim.worker
    · intro i
      have hdone := hsim.server i
      rw [hstage i] at hdone
      cases r.2.1 <;> exact hdone
    · cases r.2.1 <;> trivial
  have hdrop : ∀ m, schedObserver.accept a [.drop m] = some { a with queue := s.tskq } := by
    intro m
    simp [schedObserver, Sched.next, queueNext, Event.worker, hsim.queue]
  unfold networkerRound at hr
  split at hr
  · subst hr
    exact ⟨a, rfl, by simpa [← hsim.queue] using hgoto s.tskq⟩
  · split at hr
    · subst hr
      exact ⟨_, hdrop _, hgoto _⟩
    · split at hr
      · subst hr
        exact ⟨_, hdrop _, hgoto _⟩
      · unfold kfifoIn at hr
        split at hr
        next hroom =>
          subst hr
          refine ⟨_, ?_, hgoto _⟩
          simp [schedObserver, Sched.next, queueNext, Event.worker, hsim.queue, hroom]
        · subst hr
          exact ⟨_, hdrop _, hgoto _⟩

theorem sim_disp {v : Env} (hsim : Sim a s) (h : dispatcherStep n v s = some (t, es)) :
    ∃ b, schedObserver.accept a es = some b ∧ Sim b t := by
  cases dispatcherStep_cases h with
  | start hdpc =>
    have hunborn : ∀ j, (s.cpu j).pc = .unborn := by simpa [Unborn, hdpc] using hsim.unborn
    refine ⟨a, rfl, sim_goto hsim (by simp [hdpc, stageOf]) ?_ rfl rfl ?_⟩
    · intro i
      split <;> exact .inr rfl
    · split
      · trivial
      · exact fun j _ => hunborn j
  | create hdpc hk => exact ⟨a, rfl, sim_create hsim hdpc⟩
  | endCreate hdpc hto =>
    refine ⟨a, rfl, sim_goto hsim (by simp [hdpc, stageOf]) ?_ rfl rfl ?_⟩
    · rcases hto with rfl | rfl <;> exact fun _ => .inr rfl
    · rcases hto with rfl | rfl <;> trivial
  | timestamps hdpc | checks hdpc =>
    exact ⟨a, rfl, sim_clocks hsim (by simp [hdpc, stageOf]) (fun _ => rfl) (fun _ => rfl)
      (fun _ => rfl) (fun _ => rfl) trivial⟩
  | loop hdpc =>
    refine ⟨a, rfl, sim_goto hsim (by simp [hdpc, stageOf]) (stageOf_sweepFrom n 0) rfl rfl ?_⟩
    exact unborn_sweepFrom s.cpu n 0
  | @next k hdpc =>
    refine ⟨a, rfl, sim_goto hsim (by simp [hdpc, stageOf]) (stageOf_sweepFrom n (k + 1))
      rfl rfl ?_⟩
    exact unborn_sweepFrom s.cpu n (k + 1)
  | serve hdpc hr => exact sim_serve hsim hdpc hr
  | net hdpc hr => exact sim_net hsim hdpc hr

end Steps

theorem sim_step {n : Nat} {a : Sched} {s t : Sys} {act : Act} {es : List Event}
    (hsim : Sim a s) (h : sysStep n s act = some (t, es)) :
    ∃ b, schedObserver.accept a es = some b ∧ Sim b t := by
  cases act with
  | disp v => exact sim_disp hsim h
  | work i fin => exact sim_work (n := n) hsim h

/-- Every run's events are accepted, and the records agree with the mailboxes. -/
theorem machine_simulates {n : Nat} {ok : Sys → Act → Prop} {tr : List Event} {s : Sys}
    (h : Runs (machine n) ok Sys.init tr s) :
    ∃ a, schedObserver.accept Sched.init tr = some a ∧ Sim a s :=
  Runs.simulates sim_init (fun hsim _ hstep => sim_step hsim hstep) h

/-- Threads exist on the CPUs `2 .. n - 1` only. -/
structure WorkersIn (n : Nat) (s : Sys) : Prop where
  create : ∀ k, s.dpc = .create k → 2 ≤ k
  born : ∀ i, (s.cpu i).pc ≠ .unborn → 2 ≤ i ∧ i < n

section Steps
variable {n : Nat} {s t : Sys} {es : List Event}

theorem sweepFrom_ne_create (n i k : Nat) : sweepFrom n i ≠ .create k := by
  unfold sweepFrom
  split <;> simp

theorem workersIn_disp {v : Env} (hin : WorkersIn n s)
    (h : dispatcherStep n v s = some (t, es)) : WorkersIn n t := by
  cases dispatcherStep_cases h with
  | start hdpc =>
    refine ⟨?_, hin.born⟩
    intro k hk
    by_cases hn : n < 3 <;> simp_all
  | @create k hdpc hlt =>
    have hk := hin.create k hdpc
    refine ⟨fun j hj => by simp at hj; omega, ?_⟩
    intro j hj
    rcases eq_or_ne j k with rfl | hne
    · exact ⟨hk, hlt⟩
    · exact hin.born j (by simpa [Sys.setCpu, hne] using hj)
  | endCreate hdpc hto =>
    refine ⟨?_, hin.born⟩
    intro k hk
    rcases hto with rfl | rfl <;> simp at hk
  | timestamps | checks => exact ⟨by simp, hin.born⟩
  | loop | next => exact ⟨fun j hj => absurd hj (sweepFrom_ne_create _ _ _), hin.born⟩
  | @serve k st r hdpc hr =>
    refine ⟨by simp, fun j hj => hin.born j ?_⟩
    rcases eq_or_ne j k with rfl | hne
    · simpa [Sys.setCpu] using hj
    · simpa [Sys.setCpu, hne] using hj
  | @net k r hdpc hr =>
    refine ⟨?_, hin.born⟩
    intro j hj
    by_cases hmore : r.2.1 = true <;> simp [hmore] at hj

theorem workersIn_work {i : Nat} {fin : Bool} (hin : WorkersIn n s)
    (h : sysStep n s (.work i fin) = some (t, es)) : WorkersIn n t := by
  obtain ⟨c, pc, hstep, rfl⟩ := sysStep_work h
  refine ⟨hin.create, fun j hj => hin.born j ?_⟩
  rcases eq_or_ne j i with rfl | hne
  · exact not_unborn_of_workerStep hstep
  · simpa [Sys.setCpu, hne] using hj

end Steps

theorem workersIn_init (n : Nat) : WorkersIn n Sys.init :=
  ⟨by simp [Sys.init], by simp [Sys.init]⟩

theorem workersIn_step {n : Nat} {s t : Sys} {act : Act} {es : List Event} (hin : WorkersIn n s)
    (h : sysStep n s act = some (t, es)) : WorkersIn n t := by
  cases act with
  | disp v => exact workersIn_disp hin h
  | work i fin => exact workersIn_work hin h

def Event.isMail (i : Nat) : Event → Bool
  | .dispatch j _ | .take j _ _ | .publish j _ => j = i
  | _ => false

/-- One use of the mailbox: the request `e` is posted, taken as it was posted, and
answered. -/
def cycle (i : Nat) : Task × Addr × Bool → List Event
  | (e, ctx, fin) => [.dispatch i e, .take i e ctx, .publish i (report e ctx fin)]

def currentCycle (i : Nat) : Slot → List Event
  | .posted e => [.dispatch i e]
  | .running e ctx _ => [.dispatch i e, .take i e ctx]
  | _ => []

def Cycles (i : Nat) (tr : List Event) (a : Sched) : Prop :=
  ∃ cs : List (Task × Addr × Bool),
    tr.filter (Event.isMail i) = cs.flatMap (cycle i) ++ currentCycle i (a.slot i)

/-- The events of a use of the mailbox of worker `i`, from the dispatch to the answer. -/
def Event.isUse (i : Nat) : Event → Bool
  | .dispatch j _ | .take j _ _ | .handle j _ | .swapIn j _ | .publish j _ => j = i
  | _ => false

def mailboxUse (i : Nat) : Task × Addr × Bool → List Event
  | (e, ctx, fin) => [.dispatch i e, .take i e ctx, .handle i (decide (e.category = .packet)),
      .swapIn i e.rnbl, .publish i (report e ctx fin)]

def currentUse (i : Nat) : Slot → List Event
  | .posted e => [.dispatch i e]
  | .running e ctx .taken => [.dispatch i e, .take i e ctx]
  | .running e ctx .handled =>
    [.dispatch i e, .take i e ctx, .handle i (decide (e.category = .packet))]
  | .running e ctx .entered => [.dispatch i e, .take i e ctx,
      .handle i (decide (e.category = .packet)), .swapIn i e.rnbl]
  | _ => []

def Uses (i : Nat) (tr : List Event) (a : Sched) : Prop :=
  ∃ cs : List (Task × Addr × Bool),
    tr.filter (Event.isUse i) = cs.flatMap (mailboxUse i) ++ currentUse i (a.slot i)

theorem not_isUse (i : Nat) (ev : Event) (h : ev.worker ≠ some i) : ev.isUse i = false := by
  cases ev <;> simp_all [Event.worker, Event.isUse]

theorem uses_of_slotStep {i : Nat} {tr : List Event} {ev : Event} {a b : Sched} {β : Slot}
    (h : Uses i tr a) (hstep : SlotStep i (a.slot i) ev β) (hb : b.slot i = β) :
    Uses i (tr ++ [ev]) b := by
  obtain ⟨cs, hcs⟩ := h
  unfold Uses
  rw [hb, List.filter_append, hcs]
  generalize a.slot i = α at hstep
  cases hstep with
  | publish e ctx fin =>
    exact ⟨cs ++ [(e, ctx, fin)], by simp [Event.isUse, currentUse, mailboxUse]⟩
  | _ => exact ⟨cs, by simp [Event.isUse, currentUse]⟩

theorem accept_uses {tr : List Event} {a : Sched}
    (h : schedObserver.accept Sched.init tr = some a) (i : Nat) : Uses i tr a := by
  apply Observer.accept_invariant (I := Uses i) ⟨[], rfl⟩ _ h
  intro tr c ev d hc hnext
  obtain ⟨q, -, ⟨hw, rfl⟩ | ⟨j, β, hw, hstep, rfl⟩⟩ := Sched.next_cases hnext
  · obtain ⟨cs, hcs⟩ := hc
    exact ⟨cs, by simpa [not_isUse i ev (by simp [hw])] using hcs⟩
  · rcases eq_or_ne j i with rfl | hne
    · exact uses_of_slotStep hc hstep (by simp)
    · obtain ⟨cs, hcs⟩ := hc
      refine ⟨cs, ?_⟩
      have huse := not_isUse i ev (by simp [hw, hne])
      simpa [huse, hne.symm] using hcs

/-- What a filter shows of the uses of a mailbox. -/
theorem filter_of_uses {p : Event → Bool} {i : Nat} {tr : List Event} {a : Sched}
    (hp : ∀ ev, p ev = true → ev.isUse i = true) (h : Uses i tr a) :
    ∃ cs : List (Task × Addr × Bool),
      tr.filter p = cs.flatMap (fun c => (mailboxUse i c).filter p) ++
        (currentUse i (a.slot i)).filter p := by
  obtain ⟨cs, hcs⟩ := h
  refine ⟨cs, ?_⟩
  have hsub : tr.filter p = (tr.filter (Event.isUse i)).filter p := by
    rw [List.filter_filter]
    apply List.filter_congr
    intro ev _
    cases hev : p ev with
    | false => rfl
    | true => simp [hp ev hev]
  rw [hsub, hcs, List.filter_append, List.filter_flatMap]

theorem accept_cycles {tr : List Event} {a : Sched}
    (h : schedObserver.accept Sched.init tr = some a) (i : Nat) : Cycles i tr a := by
  have hp : ∀ ev, Event.isMail i ev = true → ev.isUse i = true := by
    intro ev hev
    cases ev <;> simp_all [Event.isMail, Event.isUse]
  obtain ⟨cs, hcs⟩ := filter_of_uses hp (accept_uses h i)
  refine ⟨cs, ?_⟩
  rw [hcs]
  congr 1
  · apply List.flatMap_congr
    rintro ⟨e, ctx, fin⟩ -
    simp [mailboxUse, cycle, Event.isMail]
  · cases hslot : a.slot i with
    | running e ctx k => cases k <;> simp [currentUse, currentCycle, Event.isMail]
    | _ => simp [currentUse, currentCycle, Event.isMail]

/-- The request record while a use of the mailbox is open: it holds what was dispatched,
and from the take on the dispatcher is in none of its stores. -/
def OpenCycle (i : Nat) (s : Sys) (tail : List Event) : Prop :=
  tail = [] ∨
    (∃ e, tail = [.dispatch i e] ∧ (s.cpu i).data.request = ⟨e, .active⟩) ∨
    ∃ e ctx, tail = [.dispatch i e, .take i e ctx] ∧ (s.cpu i).data.request = ⟨e, .waiting⟩ ∧
      (stageOf s.dpc i = .poll ∨ stageOf s.dpc i = .preempt ∨ stageOf s.dpc i = .done)

theorem openCycle_of_sim {a : Sched} {s : Sys} (hsim : Sim a s) (i : Nat) :
    OpenCycle i s (currentCycle i (a.slot i)) := by
  have hw := hsim.worker i
  have hs := hsim.server i
  cases hslot : a.slot i with
  | posted e =>
    rw [hslot] at hw
    exact .inr (.inl ⟨e, rfl, request_of_posted hw⟩)
  | running e ctx k =>
    rw [hslot] at hw hs
    exact .inr (.inr ⟨e, ctx, rfl, request_of_running hw, (shows_of_running hs).2⟩)
  | _ => exact .inl rfl

/-- The mailbox handshake, in every run and for every worker: the `BUG_ON` is never hit;
the dispatches, takes and publications come in full cycles, each take with the fields of
the one dispatch before it; and the request keeps them until the publication. -/
theorem mailbox_handshake {n : Nat} {tr : List Event} {s : Sys}
    (h : Runs (machine n) (fun _ _ => True) Sys.init tr s) (i : Nat) :
    s.dpc ≠ .serve i .bug ∧
      ∃ (cs : List (Task × Addr × Bool)) (tail : List Event),
        tr.filter (Event.isMail i) = cs.flatMap (cycle i) ++ tail ∧ OpenCycle i s tail := by
  obtain ⟨a, hacc, hsim⟩ := machine_simulates h
  constructor
  · intro hbug
    have hs := hsim.server i
    simp [hbug, stageOf, ServerLinked] at hs
  · obtain ⟨cs, hcs⟩ := accept_cycles hacc i
    exact ⟨cs, currentCycle i (a.slot i), hcs, openCycle_of_sim hsim i⟩

/-- Boot with five CPUs, one packet, and its first slice on worker 2. -/
def firstSlice : List Act :=
  List.replicate 7 (Act.disp {}) ++ List.replicate 3 (Act.work 2 false) ++
    List.replicate 12 (Act.disp { tsc := 10 }) ++
    [Act.disp { packet := 0x8000, cont := some 0x1000 }] ++
    List.replicate 23 (Act.disp { tsc := 20 }) ++ List.replicate 21 (Act.work 2 false)

def firstTask : Task :=
  { rnbl := 0x1000, mbuf := 0x8000, timestamp := 20, type := 0, category := .packet }

def firstSliceTrace : List Event :=
  [.enqueue { firstTask with timestamp := 10 }, .pop 2 { firstTask with timestamp := 10 },
    .dispatch 2 firstTask, .take 2 firstTask NULL, .handle 2 true, .swapIn 2 0x1000,
    .publish 2 (report firstTask NULL false)]

theorem firstSlice_runs :
    ∃ s, Runs (machine 5) (fun _ _ => True) Sys.init firstSliceTrace s := by
  obtain ⟨tr, s, hrun, htr⟩ := Machine.exec_reaches (machine 5) (fun _ _ => True) Sys.init
    firstSlice (fun tr _ => tr = firstSliceTrace) (by decide)
  obtain rfl : tr = firstSliceTrace := by simpa using htr
  exact ⟨s, hrun⟩

/-- The task comes back preempted, is stored in the queue again and resumed by worker 2. -/
def resumed : List Act :=
  firstSlice ++ List.replicate 32 (Act.disp { tsc := 30 }) ++ List.replicate 8 (Act.work 2 true)

/-- The second slice ends the task, and `handle_finished` frees it. -/
def twoSlices : List Act :=
  resumed ++ List.replicate 13 (Act.work 2 true) ++ List.replicate 20 (Act.disp { tsc := 40 })

/-- The first slice was published with the context `NULL`. -/
def resumedTask : Task := { firstTask with rnbl := NULL, timestamp := 30, category := .context }

def resumedTrace : List Event :=
  firstSliceTrace ++
    [.requeue 2 { resumedTask with timestamp := 20 } true,
      .pop 2 { resumedTask with timestamp := 20 }, .dispatch 2 resumedTask,
      .take 2 resumedTask NULL, .handle 2 false, .swapIn 2 NULL]

def twoSlicesTrace : List Event :=
  resumedTrace ++
    [.publish 2 (report resumedTask NULL true), .contextFree 2 NULL, .consumeSkb 2 0x8000]

theorem mailbox_handshake_twoSlices :
    ∃ s, Runs (machine 5) (fun _ _ => True) Sys.init twoSlicesTrace s ∧
      twoSlicesTrace.countP (Event.isMail 2) = 6 ∧ s.dpc ≠ .serve 2 .bug ∧
      ∃ (cs : List (Task × Addr × Bool)) (tail : List Event),
        twoSlicesTrace.filter (Event.isMail 2) = cs.flatMap (cycle 2) ++ tail ∧
          OpenCycle 2 s tail := by
  obtain ⟨tr, s, hrun, htr⟩ := Machine.exec_reaches (machine 5) (fun _ _ => True) Sys.init
    twoSlices (fun tr _ => tr = twoSlicesTrace) (by decide +kernel)
  obtain rfl : tr = twoSlicesTrace := by simpa using htr
  exact ⟨s, hrun, by decide, mailbox_handshake hrun 2⟩

end ThletEvaluation.Shinjuku
