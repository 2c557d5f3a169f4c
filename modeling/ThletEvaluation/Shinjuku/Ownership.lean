import Mathlib.Data.List.Duplicate
import Mathlib.Data.List.NodupEquivFin
import ThletEvaluation.Shinjuku.Custody
import ThletEvaluation.Shinjuku.Handshake

/-!
# Where the packet buffers are

Old copies of a buffer pointer stay behind in the request and the response of a worker.
`held` says which of the copies counts: the one the dispatcher is handing over, the active
or running request, or the response that is not processed yet. With that reading every
buffer is in at most one place, and the only way to lose an admitted task is a full queue
when a preempted task comes back.
-/

namespace ThletEvaluation.Shinjuku

open Run

set_option autoImplicit false

def WorkerPc.inRun : WorkerPc → Bool
  | .unborn | .initActive | .initPreempted | .initFlag | .spin | .reset => false
  | _ => true

/-- The task in the request, running or unprocessed-response slot of a worker. -/
def held (st : Stage) (c : Core) : Option Task :=
  match st with
  | .bugOn t | .setRunning t | .fill _ t | .setStamp t | .setCheck t | .setActive t => some t
  | .finCheck | .finFlag | .preCheck | .preFlag => none
  | _ =>
    if c.data.request.flag = .active ∨ c.pc.inRun = true then some c.data.request.toTask
    else if c.data.response.flag = .finished ∨ c.data.response.flag = .preempted then
      some c.data.response.toTask
    else none

def Task.key (t : Task) : Addr × Addr := (t.rnbl, t.mbuf)

def Slot.key : Slot → Option (Addr × Addr)
  | .empty => none
  | .handed e | .posted e | .running e _ _ => some e.key
  | .reported e ctx _ | .freed e ctx => some (answer e ctx).key

section Links
variable {α : Slot} {c : PerCpu} {pc : WorkerPc} {st : Stage}

theorem inRun_of_linked (h : WorkerLinked α c pc) :
    (pc.inRun = true ↔ ∃ e ctx k, α = .running e ctx k) ∧
      (c.request.flag = .active ↔ ∃ e, α = .posted e) := by
  cases pc <;> simp only [WorkerLinked, InRun] at h
  case spin => cases α <;> simp_all [WorkerPc.inRun, AtRest]
  case unborn | initActive | initPreempted | initFlag =>
    obtain ⟨rfl, hreq, -⟩ := h
    simp [WorkerPc.inRun, hreq]
  case reset =>
    obtain ⟨e, rfl, hreq⟩ := h
    simp [WorkerPc.inRun, hreq]
  all_goals
    obtain ⟨e, ctx, rfl, hreq, -⟩ := h
    simp [WorkerPc.inRun, hreq]

theorem held_key (hw : WorkerLinked α c pc) (hs : ServerLinked α c st) :
    (held st ⟨c, pc⟩).map Task.key = α.key := by
  obtain ⟨hrun, hactive⟩ := inRun_of_linked hw
  cases α with
  | empty =>
    cases st <;> simp_all [ServerLinked, Shows, InFill, held, Slot.key] <;>
      rcases hs with h | h <;> simp [h]
  | handed t =>
    cases st with
    | bugOn u | setRunning u =>
      obtain ⟨h, -⟩ := hs
      cases h
      rfl
    | fill todo e | setStamp e | setCheck e | setActive e =>
      obtain ⟨⟨u, h, he, -⟩, -⟩ := hs
      cases h
      show some e.key = some t.key
      rw [he]
      rfl
    | _ => simp [ServerLinked, Shows] at hs
  | posted e =>
    have hreq := request_of_posted hw
    obtain ⟨-, rfl | rfl | rfl⟩ := shows_of_posted hs <;> simp_all [held, Slot.key]
  | running e ctx k =>
    have hreq := request_of_running hw
    obtain ⟨-, rfl | rfl | rfl⟩ := shows_of_running hs <;> simp_all [held, Slot.key]
  | reported e ctx fin =>
    obtain ⟨rfl, hreq, hresp⟩ := atRest_of_reported hw
    cases fin <;> cases st <;> simp_all [ServerLinked, Shows, InFill, held, Slot.key, report]
  | freed e ctx =>
    obtain ⟨rfl, hreq, hresp⟩ := atRest_of_freed hw
    cases st <;> simp_all [ServerLinked, Shows, InFill, held, Slot.key, report]

end Links

/-- Where the events that the outside has a say in come from. -/
structure Origin (s : Sys) (act : Act) (ev : Event) : Prop where
  arrival : ev.worker = none →
    ∃ v, act = .disp v ∧ s.dpc.isNet = true ∧ v.packet ≠ NULL ∧ ev.buffer = some v.packet
  requeue : ∀ i t stored, ev = .requeue i t stored →
    (∃ v, act = .disp v) ∧ s.dpc = .serve i (.copy [] t)

section Events
variable {n : Nat} {s t : Sys} {es : List Event}

theorem workerStep_event {i : Nat} {fin : Bool} {c c' : PerCpu} {pc pc' : WorkerPc}
    (h : workerStep i fin c pc = some (c', pc', es)) :
    es = [] ∨ ∃ ev, es = [ev] ∧ ev.worker = some i ∧ ∀ t b, ev ≠ .requeue i t b := by
  unfold workerStep at h
  split at h
  case h_1 => simp at h
  case h_7 =>
    split at h
    · obtain ⟨-, -, rfl⟩ := by simpa using h
      exact .inr ⟨_, rfl, rfl, by simp⟩
    · obtain ⟨-, -, rfl⟩ := by simpa using h
      exact .inr ⟨_, rfl, rfl, by simp⟩
  all_goals
    obtain ⟨-, -, rfl⟩ := by simpa using h
    first
    | exact .inl rfl
    | exact .inr ⟨_, rfl, rfl, by simp⟩

theorem serveStep_event (i : Nat) (curTime : UInt64) (c : PerCpu) (q : List Task) (st : Stage) :
    (serveStep i curTime c q st).2.2.2 = [] ∨
      ∃ ev, (serveStep i curTime c q st).2.2.2 = [ev] ∧ ev.worker = some i ∧
        ∀ j t b, ev = .requeue j t b → j = i ∧ st = .copy [] t := by
  cases st with
  | copy todo t =>
    cases todo with
    | nil => exact .inr ⟨_, rfl, rfl, by simp +contextual [eq_comm]⟩
    | cons f todo => exact .inl rfl
  | fill todo t => cases todo <;> exact .inl rfl
  | out =>
    cases q with
    | nil => exact .inl rfl
    | cons t q => exact .inr ⟨_, rfl, rfl, by simp⟩
  | preempt =>
    simp only [serveStep, preemptWorker]
    split
    · exact .inr ⟨_, rfl, rfl, by simp⟩
    · exact .inl rfl
  | finFree | finConsume | setActive t => exact .inr ⟨_, rfl, rfl, by simp⟩
  | _ => exact .inl rfl

theorem networkerRound_event (curTime : UInt64) (data : Addr) (cont : Option Addr) (k : Nat)
    (q : List Task) :
    (networkerRound curTime data cont k q).2.2 = [] ∨
      ∃ ev, (networkerRound curTime data cont k q).2.2 = [ev] ∧ data ≠ NULL ∧
        ev.worker = none ∧ ev.buffer = some data := by
  unfold networkerRound
  split
  · exact .inl rfl
  next hdata =>
    right
    split
    · exact ⟨_, rfl, hdata, rfl, rfl⟩
    · split
      · exact ⟨_, rfl, hdata, rfl, rfl⟩
      · dsimp only
        split
        · exact ⟨_, rfl, hdata, rfl, rfl⟩
        · exact ⟨_, rfl, hdata, rfl, rfl⟩

theorem step_event {act : Act} (h : sysStep n s act = some (t, es)) :
    es = [] ∨ ∃ ev, es = [ev] ∧ Origin s act ev := by
  cases act with
  | work i fin =>
    obtain ⟨c, pc, hstep, -⟩ := sysStep_work h
    rcases workerStep_event hstep with rfl | ⟨ev, rfl, hw, hreq⟩
    · exact .inl rfl
    · refine .inr ⟨ev, rfl, by simp [hw], ?_⟩
      rintro j u stored rfl
      obtain rfl : j = i := by simpa [Event.worker] using hw
      exact absurd rfl (hreq u stored)
  | disp v =>
    cases dispatcherStep_cases h with
    | @serve k st r hdpc hr =>
      subst hr
      rcases serveStep_event k s.curTime (s.cpu k).data s.tskq st with he | ⟨ev, he, hw, hreq⟩
      · exact .inl he
      · refine .inr ⟨ev, he, by simp [hw], ?_⟩
        intro j u stored hev
        obtain ⟨rfl, rfl⟩ := hreq j u stored hev
        exact ⟨⟨v, rfl⟩, hdpc⟩
    | @net k r hdpc hr =>
      subst hr
      have hnet : s.dpc.isNet = true := by simp [hdpc, DispatcherPc.isNet]
      rcases networkerRound_event s.curTime v.packet v.cont k s.tskq with
        he | ⟨ev, he, hdata, hw, hbuf⟩
      · exact .inl he
      · refine .inr ⟨ev, he, fun _ => ⟨v, rfl, hnet, hdata, hbuf⟩, ?_⟩
        rintro j u stored rfl
        simp [Event.worker] at hw
    | _ => exact .inl rfl

end Events

/-- `shinjuku_rpc_get` returns only buffers that the scheduler does not hold. -/
def FreshPacket (n : Nat) (s : Sys) : Act → Prop
  | .disp v => s.dpc.isNet = true → v.packet ≠ NULL →
      (∀ t ∈ s.tskq, t.mbuf ≠ v.packet) ∧
        ∀ i < n, (held (stageOf s.dpc i) (s.cpu i)).map Task.mbuf ≠ some v.packet
  | .work .. => True

instance (n : Nat) (s : Sys) (act : Act) : Decidable (FreshPacket n s act) :=
  match act with
  | .disp v => inferInstanceAs (Decidable (s.dpc.isNet = true → v.packet ≠ NULL → _ ∧ _))
  | .work .. => .isTrue trivial

def DispatcherPc.isRequeue : DispatcherPc → Bool
  | .serve _ (.copy [] _) => true
  | _ => false

/-- `handle_preempted` finds a free entry in the queue. -/
def RoomForPreempted (s : Sys) : Act → Prop
  | .disp _ => s.dpc.isRequeue = true → s.tskq.length < TSKQ_SIZE
  | .work .. => True

instance (s : Sys) (act : Act) : Decidable (RoomForPreempted s act) :=
  match act with
  | .disp _ => inferInstanceAs (Decidable (s.dpc.isRequeue = true → _))
  | .work .. => .isTrue trivial

theorem Slot.buffer_eq (α : Slot) : α.buffer = α.key.map Prod.snd := by
  cases α <;> rfl

section Runs
variable {n : Nat} {s t : Sys} {tr es : List Event} {a b : Sched} {m : Addr} {act : Act}

theorem held_buffer (hsim : Sim a s) (i : Nat) :
    (held (stageOf s.dpc i) (s.cpu i)).map Task.mbuf = (a.slot i).buffer := by
  have hkey := held_key (hsim.worker i) (hsim.server i)
  rw [Slot.buffer_eq, ← hkey, Option.map_map]
  rfl

theorem slot_empty_of_unborn {i : Nat} (hsim : Sim a s) (h : (s.cpu i).pc = .unborn) :
    a.slot i = .empty := by
  have hw := hsim.worker i
  rw [h] at hw
  exact hw.1

theorem gone_of_not_held {l : Life} (hsim : Sim a s) (hin : WorkersIn n s) (hl : Located a m l)
    (hqueue : ∀ t ∈ s.tskq, t.mbuf ≠ m)
    (hslot : ∀ i < n, (held (stageOf s.dpc i) (s.cpu i)).map Task.mbuf ≠ some m) :
    l.gone = true := by
  have hat : ∀ i, l.at i = none := by
    intro i
    rw [← hl.slot i]
    have hne : (a.slot i).buffer ≠ some m := by
      by_cases hi : (s.cpu i).pc = .unborn
      · simp [slot_empty_of_unborn hsim hi, Slot.buffer]
      · rw [← held_buffer hsim]
        exact hslot i (hin.born i hi).2
    simp [Slot.life, hne]
  cases l with
  | queued =>
    have hcount := hl.queue
    have hmem : m ∈ a.queue.map Task.mbuf := by
      apply List.one_le_count_iff.mp
      simp [hcount, Life.inQueue]
    obtain ⟨t, ht, hm⟩ := List.mem_map.mp hmem
    rw [hsim.queue] at ht
    exact absurd hm (hqueue t ht)
  | handed i => simpa [Life.at] using hat i
  | reported i fin => simpa [Life.at] using hat i
  | broken => exact absurd rfl hl.unbroken
  | _ => rfl

theorem fresh_of_packet {l : Life} {ev : Event} (hsim : Sim a s) (hin : WorkersIn n s)
    (hl : Located a m l) (hfresh : FreshPacket n s act) (horigin : Origin s act ev) :
    Fresh m l ev := by
  intro hw hbuf
  obtain ⟨v, rfl, hnet, hnull, hpacket⟩ := horigin.arrival hw
  obtain rfl : v.packet = m := by simpa [hpacket] using hbuf
  obtain ⟨hqueue, hslot⟩ := hfresh hnet hnull
  exact gone_of_not_held hsim hin hl hqueue hslot

/-- The invariant rule for facts about one buffer: `Q` is what the run promises about
each event besides the freshness of packets. -/
theorem buffer_invariant {ok : Sys → Act → Prop} {P : Sched → List Event → Addr → Prop}
    {Q : Event → Prop} (hinit : ∀ m, P Sched.init [] m)
    (hloc : ∀ {a tr m}, P a tr m → Located a m (life m tr))
    (hnext : ∀ {a b tr m ev}, P a tr m → a.next ev = some b → Fresh m (life m tr) ev → Q ev →
      P b (tr ++ [ev]) m)
    (hfresh : ∀ {s act}, ok s act → FreshPacket n s act)
    (hQ : ∀ {a b s act ev}, ok s act → Sim a s → Origin s act ev → a.next ev = some b → Q ev)
    (h : Runs (machine n) ok Sys.init tr s) :
    ∃ a, Sim a s ∧ ∀ m, P a tr m := by
  have hall : (∃ a, Sim a s ∧ ∀ m, P a tr m) ∧ WorkersIn n s := by
    refine Runs.invariant (I := fun tr s => (∃ a, Sim a s ∧ ∀ m, P a tr m) ∧ WorkersIn n s)
      ⟨⟨Sched.init, sim_init, hinit⟩, workersIn_init n⟩ ?_ h
    rintro tr es s t act ⟨⟨a, hsim, hP⟩, hin⟩ hok hstep
    refine ⟨?_, workersIn_step hin hstep⟩
    obtain ⟨b, hacc, hsim'⟩ := sim_step hsim hstep
    refine ⟨b, hsim', ?_⟩
    intro m
    rcases step_event hstep with rfl | ⟨ev, rfl, horigin⟩
    · obtain rfl : a = b := by simpa using hacc
      simpa using hP m
    · have hev : a.next ev = some b := Observer.accept_singleton.symm.trans hacc
      have hf := fresh_of_packet hsim hin (hloc (hP m)) (hfresh hok) horigin
      exact hnext (hP m) hev hf (hQ hok hsim horigin hev)
  exact hall.1

theorem located_run (h : Runs (machine n) (FreshPacket n) Sys.init tr s) :
    ∃ a, Sim a s ∧ ∀ m, Located a m (life m tr) := by
  refine buffer_invariant (P := fun a tr m => Located a m (life m tr)) (Q := fun _ => True)
    (fun m => (tracked_init m).located) id ?_ id (fun _ _ _ _ => trivial) h
  intro a b tr m ev hl hnext hfresh _
  rw [life_append]
  exact hl.next hnext hfresh

theorem tracked_run
    (h : Runs (machine n) (fun s act => FreshPacket n s act ∧ RoomForPreempted s act)
      Sys.init tr s) : ∃ a, Sim a s ∧ ∀ m, Tracked a tr m := by
  refine buffer_invariant (P := Tracked)
    (Q := fun ev => ∀ i t stored, ev = .requeue i t stored → stored = true)
    tracked_init Tracked.located (fun ht hnext hf hq => ht.next hnext hf hq) And.left ?_ h
  rintro a b s act _ ⟨-, hroom⟩ hsim horigin hnext i t stored rfl
  obtain ⟨⟨v, rfl⟩, hdpc⟩ := horigin.requeue i t stored rfl
  have hlen : a.queue.length < TSKQ_SIZE := by
    rw [hsim.queue]
    exact hroom (by rw [hdpc]; rfl)
  obtain ⟨q, hq, -⟩ := Sched.next_cases hnext
  obtain ⟨rfl, -⟩ := by simpa [queueNext] using hq
  rw [kfifoIn_of_room t hlen]

end Runs

inductive Place where
  | queue (k : Nat)
  | slot (i : Nat)
  deriving DecidableEq

def Sys.at (s : Sys) : Place → Option Task
  | .queue k => s.tskq[k]?
  | .slot i => held (stageOf s.dpc i) (s.cpu i)

section Places
variable {n : Nat} {s : Sys} {tr : List Event} {a : Sched} {m : Addr} {l : Life}

theorem mem_queue_of_at {k : Nat} {t : Task} (hsim : Sim a s)
    (h : s.at (.queue k) = some t) : t.mbuf ∈ a.queue.map Task.mbuf := by
  rw [hsim.queue]
  exact List.mem_map_of_mem (List.mem_of_getElem? h)

theorem buffer_of_at {i : Nat} {t : Task} (hsim : Sim a s) (h : s.at (.slot i) = some t) :
    (a.slot i).buffer = some t.mbuf := by
  have hheld : held (stageOf s.dpc i) (s.cpu i) = some t := h
  rw [← held_buffer hsim, hheld]
  rfl

theorem life_of_queue {k : Nat} {t : Task} (hsim : Sim a s) (hl : Located a m l)
    (h : s.at (.queue k) = some t) (hm : t.mbuf = m) : l = .queued := by
  have hmem : m ∈ a.queue.map Task.mbuf := hm ▸ mem_queue_of_at hsim h
  have hpos : 1 ≤ l.inQueue := hl.queue ▸ List.one_le_count_iff.mpr hmem
  by_contra hne
  simp [Life.inQueue, hne] at hpos

theorem life_of_slot {i : Nat} {t : Task} (hsim : Sim a s) (hl : Located a m l)
    (h : s.at (.slot i) = some t) (hm : t.mbuf = m) : l.at i = some ((a.slot i).stageAt i) := by
  have hbuf : (a.slot i).buffer = some m := hm ▸ buffer_of_at hsim h
  rw [← hl.slot i, Slot.life, if_pos hbuf]

theorem eq_of_count_le_one {q : List Task} {k k' : Nat} {t t' : Task}
    (hq : (q.map Task.mbuf).count m ≤ 1) (h : q[k]? = some t) (h' : q[k']? = some t')
    (hm : t.mbuf = m) (hm' : t'.mbuf = m) : k = k' := by
  by_contra hne
  have hdup : List.Duplicate m (q.map Task.mbuf) := by
    obtain ⟨hk, rfl⟩ := List.getElem?_eq_some_iff.mp h
    obtain ⟨hk', rfl⟩ := List.getElem?_eq_some_iff.mp h'
    apply List.duplicate_iff_exists_distinct_get.mpr
    rcases Nat.lt_or_gt_of_ne hne with hlt | hlt
    · exact ⟨⟨k, by simpa⟩, ⟨k', by simpa⟩, hlt, by simp [hm], by simp [hm']⟩
    · exact ⟨⟨k', by simpa⟩, ⟨k, by simpa⟩, hlt, by simp [hm'], by simp [hm]⟩
  have := List.duplicate_iff_two_le_count.mp hdup
  omega

theorem place_unique {p p' : Place} {t t' : Task} (hsim : Sim a s) (hl : Located a m l)
    (h : s.at p = some t) (hm : t.mbuf = m) (h' : s.at p' = some t') (hm' : t'.mbuf = m) :
    p = p' := by
  cases p with
  | queue k =>
    obtain rfl := life_of_queue hsim hl h hm
    cases p' with
    | queue k' =>
      have hq : (s.tskq.map Task.mbuf).count m ≤ 1 := by
        rw [← hsim.queue, hl.queue]
        simp [Life.inQueue]
      rw [eq_of_count_le_one hq h h' hm hm']
    | slot i' => simpa [Life.at] using life_of_slot hsim hl h' hm'
  | slot i =>
    have hi := life_of_slot hsim hl h hm
    cases p' with
    | queue k' =>
      obtain rfl := life_of_queue hsim hl h' hm'
      simp [Life.at] at hi
    | slot i' =>
      have hi' := life_of_slot hsim hl h' hm'
      cases l <;> simp_all [Life.at]

theorem context_of_carries {α : Slot} {x c : Addr} (hkey : α.key = some (x, m))
    (hc : α.Carries m c) : x = c := by
  cases α with
  | empty => simp [Slot.key] at hkey
  | handed e | posted e =>
    obtain ⟨rfl, rfl⟩ := by simpa [Slot.key, Task.key] using hkey
    exact hc rfl
  | running e ctx k =>
    obtain ⟨rfl, rfl⟩ := by simpa [Slot.key, Task.key] using hkey
    exact (hc rfl).1
  | reported e ctx fin | freed e ctx =>
    obtain ⟨rfl, rfl⟩ := by simpa [Slot.key, Task.key] using hkey
    exact hc rfl

theorem slot_of_life {i : Nat} {k : Life} (hsim : Sim a s) (hl : Located a m l)
    (h : l.at i = some k) :
    ∃ t, s.at (.slot i) = some t ∧ t.mbuf = m ∧ ∀ c, (a.slot i).Carries m c → t.rnbl = c := by
  have hbuf : (a.slot i).buffer = some m := by
    have hlife := (hl.slot i).trans h
    by_contra hne
    simp [Slot.life, hne] at hlife
  have hkey := held_key (hsim.worker i) (hsim.server i)
  rw [Slot.buffer_eq] at hbuf
  obtain ⟨⟨x, m'⟩, hx, rfl⟩ := Option.map_eq_some_iff.mp hbuf
  obtain ⟨t, ht, hxt⟩ := Option.map_eq_some_iff.mp (hkey.trans hx)
  obtain ⟨rfl, rfl⟩ : t.rnbl = x ∧ t.mbuf = m' := by simpa [Task.key] using hxt
  exact ⟨t, ht, rfl, fun c hc => context_of_carries hx hc⟩

theorem not_held_of_gone (hsim : Sim a s) (hl : Located a m l) (hgone : l.gone = true)
    (p : Place) (t : Task) (h : s.at p = some t) : t.mbuf ≠ m := by
  intro hm
  cases p with
  | queue k =>
    obtain rfl := life_of_queue hsim hl h hm
    simp [Life.gone] at hgone
  | slot i =>
    have hat := life_of_slot hsim hl h hm
    cases l <;> simp_all [Life.gone, Life.at]

end Places

/-- While packets come in fresh: a buffer is in at most one entry of the queue or slot of
a worker, in none once it is consumed, and its life is unbroken, that is, it is consumed
at most once for each time it came in and only after the worker that ran it published
`FINISHED`. -/
theorem buffer_in_one_place {n : Nat} {tr : List Event} {s : Sys}
    (h : Runs (machine n) (FreshPacket n) Sys.init tr s) (m : Addr) :
    (∀ p p' t t', s.at p = some t → t.mbuf = m → s.at p' = some t' → t'.mbuf = m → p = p') ∧
      (life m tr = .consumed → ∀ p t, s.at p = some t → t.mbuf ≠ m) ∧
      life m tr ≠ .broken := by
  obtain ⟨a, hsim, hloc⟩ := located_run h
  refine ⟨fun p p' t t' hp hm hp' hm' => place_unique hsim (hloc m) hp hm hp' hm', ?_,
    (hloc m).unbroken⟩
  intro hlife
  exact not_held_of_gone hsim (hloc m) (by simp [hlife, Life.gone])

theorem twoSlices_runs_fresh :
    ∃ s, Runs (machine 5) (FreshPacket 5) Sys.init twoSlicesTrace s := by
  obtain ⟨tr, s, hrun, htr⟩ := Machine.exec_reaches (machine 5) (FreshPacket 5) Sys.init
    twoSlices (fun tr _ => tr = twoSlicesTrace) (by decide +kernel)
  obtain rfl : tr = twoSlicesTrace := by simpa using htr
  exact ⟨s, hrun⟩

theorem buffer_in_one_place_twoSlices :
    ∃ s, Runs (machine 5) (FreshPacket 5) Sys.init twoSlicesTrace s ∧
      life 0x8000 twoSlicesTrace = .consumed ∧
      (∀ p p' t t', s.at p = some t → t.mbuf = 0x8000 → s.at p' = some t' → t'.mbuf = 0x8000 →
        p = p') ∧
      (life 0x8000 twoSlicesTrace = .consumed → ∀ p t, s.at p = some t → t.mbuf ≠ 0x8000) ∧
      life 0x8000 twoSlicesTrace ≠ .broken := by
  obtain ⟨s, hrun⟩ := twoSlices_runs_fresh
  exact ⟨s, hrun, by decide, buffer_in_one_place hrun 0x8000⟩

/-- While packets come in fresh and preempted tasks find room: a task that was admitted
and is not reported finished is in exactly one place, and it still has the context it was
admitted with unless a worker took it as a new packet with another `ctx_worker`. -/
theorem admitted_task_in_one_place {n : Nat} {tr : List Event} {s : Sys}
    (h : Runs (machine n) (fun s act => FreshPacket n s act ∧ RoomForPreempted s act)
      Sys.init tr s) {m c : Addr} (hpend : pending m tr = some c) :
    ∃ p t, s.at p = some t ∧ t.mbuf = m ∧ (Faithful m tr → t.rnbl = c) ∧
      ∀ p' t', s.at p' = some t' → t'.mbuf = m → p' = p := by
  obtain ⟨a, hsim, htrack⟩ := tracked_run h
  obtain ⟨hl, -, hp, hkept⟩ := htrack m
  have hlife : (life m tr).isPending = true := by simpa [hpend] using hp.symm
  obtain ⟨p, t, hat, hm, hctx⟩ : ∃ p t, s.at p = some t ∧ t.mbuf = m ∧
      ((Faithful m tr → t.rnbl = c)) := by
    cases hcase : life m tr with
    | queued =>
      have hmem : m ∈ a.queue.map Task.mbuf := by
        apply List.one_le_count_iff.mp
        rw [hl.queue]
        simp [hcase, Life.inQueue]
      obtain ⟨t, ht, hm⟩ := List.mem_map.mp hmem
      obtain ⟨k, hk⟩ := List.mem_iff_getElem?.mp ht
      exact ⟨.queue k, t, by rw [← hk, hsim.queue]; rfl, hm,
        fun hf => (hkept c hpend hf).queue t ht hm⟩
    | handed i =>
      obtain ⟨t, ht, hm, hc⟩ := slot_of_life (i := i) (k := .handed i) hsim hl
        (by simp [hcase, Life.at])
      exact ⟨.slot i, t, ht, hm, fun hf => hc c ((hkept c hpend hf).slot i)⟩
    | reported i fin =>
      obtain ⟨t, ht, hm, hc⟩ := slot_of_life (i := i) (k := .reported i fin) hsim hl
        (by simp [hcase, Life.at])
      exact ⟨.slot i, t, ht, hm, fun hf => hc c ((hkept c hpend hf).slot i)⟩
    | _ => simp [hcase, Life.isPending] at hlife
  exact ⟨p, t, hat, hm, hctx, fun p' t' hat' hm' => place_unique hsim hl hat' hm' hat hm⟩

theorem admitted_task_in_one_place_resumed :
    ∃ s, Runs (machine 5) (fun s act => FreshPacket 5 s act ∧ RoomForPreempted s act)
        Sys.init resumedTrace s ∧
      .requeue 2 { resumedTask with timestamp := 20 } true ∈ resumedTrace ∧
      pending 0x8000 resumedTrace = some 0x1000 ∧
      ∃ p t, s.at p = some t ∧ t.mbuf = 0x8000 ∧
        (Faithful 0x8000 resumedTrace → t.rnbl = 0x1000) ∧
        ∀ p' t', s.at p' = some t' → t'.mbuf = 0x8000 → p' = p := by
  obtain ⟨tr, s, hrun, htr⟩ := Machine.exec_reaches (machine 5)
    (fun s act => FreshPacket 5 s act ∧ RoomForPreempted s act) Sys.init resumed
    (fun tr _ => tr = resumedTrace) (by decide +kernel)
  obtain rfl : tr = resumedTrace := by simpa using htr
  have hpend : pending 0x8000 resumedTrace = some 0x1000 := by decide
  exact ⟨s, hrun, by decide, hpend, admitted_task_in_one_place hrun hpend⟩

def arrivals (first count : Nat) : List Act :=
  (List.range count).map fun k =>
    .disp { packet := .ofNat (0x8000 + first + k), cont := some (.ofNat (0x1000 + first + k)) }

/-- Five CPUs; worker 2 runs the first of 129 packets while the others fill the queue,
and comes back preempted. -/
def fullQueue : List Act :=
  let wait k := List.replicate k (Act.disp {})
  wait 7 ++ List.replicate 3 (.work 2 false) ++
    wait 12 ++ arrivals 0 16 ++ wait 24 ++ arrivals 16 16 ++
    (List.range 6).flatMap (fun r => wait 11 ++ arrivals (32 + 16 * r) 16) ++
    wait 11 ++ arrivals 128 1 ++ List.replicate 21 (.work 2 false) ++ wait 17

/-- With 128 entries in the queue the preempted task is in no place any more. -/
theorem preempted_task_lost_on_full_queue :
    ¬ ∀ (n : Nat) (tr : List Event) (s : Sys) (m c : Addr),
      Runs (machine n) (FreshPacket n) Sys.init tr s → pending m tr = some c →
        ∃ p t, s.at p = some t ∧ t.mbuf = m := by
  intro hclaim
  obtain ⟨tr, s, hrun, hend⟩ := Machine.exec_reaches (machine 5) (FreshPacket 5) Sys.init
    fullQueue (fun tr _ => pending 0x8000 tr = some 0x1000 ∧ life 0x8000 tr = .lost)
    (by decide +kernel)
  obtain ⟨hpend, hlost⟩ := by simpa using hend
  obtain ⟨p, t, hp, hm⟩ := hclaim 5 tr s 0x8000 0x1000 hrun hpend
  obtain ⟨a, hsim, hloc⟩ := located_run hrun
  exact not_held_of_gone hsim (hloc 0x8000) (by simp [hlost, Life.gone]) p t hp hm

end ThletEvaluation.Shinjuku
