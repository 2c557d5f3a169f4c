import ThletEvaluation.Shinjuku.Scheduler

/-!
# The life of a packet buffer

`life` follows one buffer through the events of a trace: stored in the queue, popped for
a worker, published by that worker, and then either consumed or queued again. Any other
order of the events on a buffer breaks it. As long as `shinjuku_rpc_get` returns no buffer
that is held, the mailboxes and the queue together hold a buffer exactly where its life
says, once.
-/

namespace ThletEvaluation.Shinjuku

open Run

set_option autoImplicit false

inductive Life where
  | away
  | queued
  /-- Popped for worker `i`, which has not published it yet. -/
  | handed (i : Nat)
  | reported (i : Nat) (fin : Bool)
  | consumed
  /-- Published as preempted and not stored again. -/
  | lost
  | broken
  deriving DecidableEq

def Event.buffer : Event → Option Addr
  | .drop m | .consumeSkb _ m => some m
  | .enqueue t | .pop _ t | .requeue _ t _ => some t.mbuf
  | .publish _ r => some r.mbuf
  | _ => none

def Life.gone : Life → Bool
  | .away | .consumed | .lost => true
  | _ => false

def Life.move (l : Life) : Event → Life
  | .drop _ => if l.gone then .away else .broken
  | .enqueue _ => if l.gone then .queued else .broken
  | .pop i _ => if l = .queued then .handed i else .broken
  | .publish i r =>
    if l = .handed i then .reported i (decide (r.flag = .finished)) else .broken
  | .consumeSkb i _ => if l = .reported i true then .consumed else .broken
  | .requeue i _ stored =>
    if l = .reported i false then (if stored then .queued else .lost) else .broken
  | _ => l

def Life.next (m : Addr) (l : Life) (ev : Event) : Life :=
  if ev.buffer = some m then l.move ev else l

def life (m : Addr) (tr : List Event) : Life := tr.foldl (Life.next m) .away

@[simp] theorem life_append (m : Addr) (tr : List Event) (ev : Event) :
    life m (tr ++ [ev]) = (life m tr).next m ev := by
  simp [life]

def Life.inQueue (l : Life) : Nat := if l = .queued then 1 else 0

def Life.at (j : Nat) : Life → Option Life
  | .handed i => if i = j then some (.handed i) else none
  | .reported i fin => if i = j then some (.reported i fin) else none
  | _ => none

def Slot.buffer : Slot → Option Addr
  | .empty => none
  | .handed e | .posted e | .running e _ _ | .reported e _ _ | .freed e _ => some e.mbuf

def Slot.stageAt (i : Nat) : Slot → Life
  | .reported _ _ fin => .reported i fin
  | .freed .. => .reported i true
  | _ => .handed i

def Slot.life (i : Nat) (m : Addr) (α : Slot) : Option Life :=
  if α.buffer = some m then some (α.stageAt i) else none

/-- The scheduler holds buffer `m` where its life says, and nowhere else. -/
structure Located (a : Sched) (m : Addr) (l : Life) : Prop where
  unbroken : l ≠ .broken
  queue : (a.queue.map Task.mbuf).count m = l.inQueue
  slot : ∀ i, (a.slot i).life i m = l.at i

theorem Life.eq_of_at {l k : Life} {i : Nat} (h : l.at i = some k) : l = k := by
  cases l <;> simp_all [Life.at]

theorem Life.next_of_ne {m : Addr} {l : Life} {ev : Event} (h : ev.buffer ≠ some m) :
    l.next m ev = l := by
  simp [Life.next, h]

section Steps
variable {i : Nat} {m : Addr} {l : Life} {α β : Slot} {ev : Event} {a b : Sched}

theorem slot_life_of_ne (hstep : SlotStep i α ev β) (hne : ev.buffer ≠ some m) :
    β.life i m = α.life i m := by
  cases hstep <;> simp_all [Event.buffer, Slot.life, Slot.buffer, Slot.stageAt, report, answer]

theorem eq_stageAt (hα : α.life i m = l.at i) (hbuf : α.buffer = some m) : l = α.stageAt i := by
  apply Life.eq_of_at
  rw [← hα, Slot.life, if_pos hbuf]

theorem slot_life_of_eq (hstep : SlotStep i α ev β) (heq : ev.buffer = some m)
    (hα : α.life i m = l.at i) (hpop : ∀ t, ev = .pop i t → l = .queued) :
    l.move ev ≠ .broken ∧ β.life i m = (l.move ev).at i ∧
      ∀ j, j ≠ i → (l.move ev).at j = l.at j := by
  cases hstep with
  | pop t =>
    obtain rfl := hpop t rfl
    obtain rfl : t.mbuf = m := by simpa [Event.buffer] using heq
    simp +contextual [Life.move, Slot.life, Slot.buffer, Slot.stageAt, Life.at, eq_comm]
  | publish e ctx fin =>
    obtain rfl : e.mbuf = m := by simpa [Event.buffer, report, answer] using heq
    obtain rfl : l = .handed i := eq_stageAt hα rfl
    cases fin <;>
      simp +contextual [Life.move, Slot.life, Slot.buffer, Slot.stageAt, Life.at, report, eq_comm]
  | consumeSkb e ctx =>
    obtain rfl : e.mbuf = m := by simpa [Event.buffer] using heq
    obtain rfl : l = .reported i true := eq_stageAt hα rfl
    simp +contextual [Life.move, Slot.life, Slot.buffer, Life.at, eq_comm]
  | requeue e ctx stored =>
    obtain rfl : e.mbuf = m := by simpa [Event.buffer, answer] using heq
    obtain rfl : l = .reported i false := eq_stageAt hα rfl
    cases stored <;> simp +contextual [Life.move, Slot.life, Slot.buffer, Life.at, eq_comm]
  | _ => simp [Event.buffer] at heq

theorem eq_cons_of_pop {q q' : List Task} {t : Task} (h : queueNext q (.pop i t) = some q') :
    q = t :: q' := by
  cases q <;> simp_all [queueNext]

theorem queue_count_of_ne {q q' : List Task} (h : queueNext q ev = some q')
    (hne : ev.buffer ≠ some m) :
    (q'.map Task.mbuf).count m = (q.map Task.mbuf).count m := by
  cases ev with
  | enqueue t =>
    obtain ⟨-, rfl⟩ := by simpa [queueNext] using h
    have hm : t.mbuf ≠ m := by simpa [Event.buffer] using hne
    simp [hm]
  | pop j t =>
    obtain rfl := eq_cons_of_pop h
    have hm : t.mbuf ≠ m := by simpa [Event.buffer] using hne
    simp [hm]
  | requeue j t stored =>
    obtain ⟨-, rfl⟩ := by simpa [queueNext] using h
    have hm : t.mbuf ≠ m := by simpa [Event.buffer] using hne
    by_cases hroom : q.length < TSKQ_SIZE
    · simp [kfifoIn_of_room t hroom, hm]
    · simp [kfifoIn_of_full t hroom]
  | _ =>
    obtain rfl := by simpa [queueNext] using h
    rfl

theorem queue_count_of_eq {q q' : List Task} (h : queueNext q ev = some q')
    (heq : ev.buffer = some m) (hq : (q.map Task.mbuf).count m = l.inQueue)
    (hmove : l.move ev ≠ .broken) :
    (q'.map Task.mbuf).count m = (l.move ev).inQueue := by
  cases ev with
  | drop m' =>
    obtain rfl := by simpa [queueNext] using h
    cases l <;> simp_all [Life.move, Life.inQueue, Life.gone]
  | enqueue t =>
    obtain ⟨-, rfl⟩ := by simpa [queueNext] using h
    have hm : t.mbuf = m := by simpa [Event.buffer] using heq
    cases l <;> simp_all [Life.move, Life.inQueue, Life.gone]
  | pop j t =>
    obtain rfl := eq_cons_of_pop h
    have hm : t.mbuf = m := by simpa [Event.buffer] using heq
    cases l <;> simp_all [Life.move, Life.inQueue]
  | publish j r =>
    obtain rfl := by simpa [queueNext] using h
    cases l <;> simp_all [Life.move, Life.inQueue]
  | consumeSkb j m' =>
    obtain rfl := by simpa [queueNext] using h
    cases l <;> simp_all [Life.move, Life.inQueue]
  | requeue j t stored =>
    obtain ⟨rfl, rfl⟩ := by simpa [queueNext] using h
    have hm : t.mbuf = m := by simpa [Event.buffer] using heq
    by_cases hroom : q.length < TSKQ_SIZE
    · rw [kfifoIn_of_room t hroom] at hmove ⊢
      cases l <;> simp_all [Life.move, Life.inQueue]
    · rw [kfifoIn_of_full t hroom] at hmove ⊢
      cases l <;> simp_all [Life.move, Life.inQueue]
  | _ => simp [Event.buffer] at heq

/-- A buffer may come in only while it is not held. -/
def Fresh (m : Addr) (l : Life) (ev : Event) : Prop :=
  ev.worker = none → ev.buffer = some m → l.gone = true

theorem move_arrival (hw : ev.worker = none) (hgone : l.gone = true) :
    l.move ev ≠ .broken ∧ ∀ j, (l.move ev).at j = l.at j := by
  cases ev <;> cases l <;> simp_all [Event.worker, Life.gone, Life.move, Life.at]

theorem Located.next (hl : Located a m l) (h : a.next ev = some b) (hfresh : Fresh m l ev) :
    Located b m (l.next m ev) := by
  obtain ⟨q, hq, hcase⟩ := Sched.next_cases h
  by_cases heq : ev.buffer = some m
  · -- the event moves this buffer
    have hnext : l.next m ev = l.move ev := by simp [Life.next, heq]
    rw [hnext]
    rcases hcase with ⟨hw, rfl⟩ | ⟨i, β, hw, hstep, rfl⟩
    · obtain ⟨hmove, hat⟩ := move_arrival hw (hfresh hw heq)
      refine ⟨hmove, queue_count_of_eq hq heq hl.queue hmove, ?_⟩
      intro j
      rw [hat j]
      exact hl.slot j
    · have hpop : ∀ t, ev = .pop i t → l = .queued := by
        rintro t rfl
        have hcount := hl.queue
        have hm : t.mbuf = m := by simpa [Event.buffer] using heq
        rw [eq_cons_of_pop hq] at hcount
        by_contra hne
        simp [Life.inQueue, hne, hm] at hcount
      obtain ⟨hmove, hslot, hother⟩ := slot_life_of_eq hstep heq (hl.slot i) hpop
      refine ⟨hmove, queue_count_of_eq hq heq hl.queue hmove, ?_⟩
      intro j
      rcases eq_or_ne j i with rfl | hne
      · simpa using hslot
      · simpa [hne, hother j hne] using hl.slot j
  · rw [Life.next_of_ne heq]
    refine ⟨hl.unbroken, ?_, ?_⟩
    · rcases hcase with ⟨-, rfl⟩ | ⟨i, β, -, -, rfl⟩ <;>
        exact (queue_count_of_ne hq heq).trans hl.queue
    · intro j
      rcases hcase with ⟨-, rfl⟩ | ⟨i, β, -, hstep, rfl⟩
      · exact hl.slot j
      · rcases eq_or_ne j i with rfl | hne
        · simpa using (slot_life_of_ne hstep heq).trans (hl.slot j)
        · simpa [hne] using hl.slot j

theorem Located.not_queued (hl : Located a m l) (hne : l ≠ .queued) :
    ∀ t ∈ a.queue, t.mbuf ≠ m := by
  intro t ht hm
  have hzero : (a.queue.map Task.mbuf).count m = 0 := by simp [hl.queue, Life.inQueue, hne]
  have hmem : m ∈ a.queue.map Task.mbuf := by
    rw [← hm]
    exact List.mem_map_of_mem ht
  exact absurd hmem (List.count_eq_zero.mp hzero)

theorem Located.not_in_slot (hl : Located a m l) (hat : l.at i = none) :
    (a.slot i).buffer ≠ some m := by
  intro hbuf
  have hlife := hl.slot i
  rw [hat, Slot.life, if_pos hbuf] at hlife
  simp at hlife

theorem Life.at_of_gone (hgone : l.gone = true) (i : Nat) : l.at i = none := by
  cases l <;> simp_all [Life.gone, Life.at]

theorem Life.ne_queued_of_gone (hgone : l.gone = true) : l ≠ .queued := by
  rintro rfl
  simp [Life.gone] at hgone

end Steps

/-- The context that buffer `m` was admitted with, until a worker reports it finished. -/
def pendingNext (m : Addr) (o : Option Addr) : Event → Option Addr
  | .enqueue t => if t.mbuf = m then some t.rnbl else o
  | .publish _ r => if r.mbuf = m ∧ r.flag = .finished then none else o
  | _ => o

def pending (m : Addr) (tr : List Event) : Option Addr := tr.foldl (pendingNext m) none

@[simp] theorem pending_append (m : Addr) (tr : List Event) (ev : Event) :
    pending m (tr ++ [ev]) = pendingNext m (pending m tr) ev := by
  simp [pending]

def Life.isPending : Life → Bool
  | .queued | .handed _ | .reported _ false => true
  | _ => false

/-- No worker took `m` as a new packet while `ctx_worker` pointed elsewhere. -/
def Faithful (m : Addr) (tr : List Event) : Prop :=
  ∀ i e ctx, .take i e ctx ∈ tr → e.mbuf = m → e.category = .packet → ctx = e.rnbl

theorem Faithful.of_append {m : Addr} {tr tr' : List Event} (h : Faithful m (tr ++ tr')) :
    Faithful m tr :=
  fun i e ctx hmem => h i e ctx (List.mem_append_left _ hmem)

/-- Whatever this slot holds or will report of `m` goes with the context `c`. -/
def Slot.Carries (m c : Addr) : Slot → Prop
  | .empty => True
  | .handed e | .posted e => e.mbuf = m → e.rnbl = c
  | .running e ctx _ => e.mbuf = m → e.rnbl = c ∧ (answer e ctx).rnbl = c
  | .reported e ctx _ | .freed e ctx => e.mbuf = m → (answer e ctx).rnbl = c

structure Kept (a : Sched) (m c : Addr) : Prop where
  queue : ∀ t ∈ a.queue, t.mbuf = m → t.rnbl = c
  slot : ∀ i, (a.slot i).Carries m c

section Kept
variable {i : Nat} {m c : Addr} {l : Life} {α β : Slot} {ev : Event} {a b : Sched}
  {tr : List Event}

theorem isPending_next (hl : l.next m ev ≠ .broken) (hlost : l.next m ev ≠ .lost)
    {o : Option Addr} (ho : o.isSome = l.isPending) :
    (pendingNext m o ev).isSome = (l.next m ev).isPending := by
  by_cases heq : ev.buffer = some m
  · simp only [Life.next, heq, if_true] at hl hlost ⊢
    cases ev <;> cases l <;>
      simp_all [Life.move, Event.buffer, pendingNext, Life.isPending, Life.gone]
    grind
  · rw [Life.next_of_ne heq]
    cases ev <;> simp_all [Event.buffer, pendingNext]

theorem carries_slotStep (hstep : SlotStep i α ev β) (hα : α.Carries m c)
    (hpop : ∀ t, ev = .pop i t → t.mbuf = m → t.rnbl = c)
    (htake : ∀ e ctx, ev = .take i e ctx → e.mbuf = m → e.category = .packet → ctx = e.rnbl) :
    β.Carries m c := by
  cases hstep with
  | pop t => exact hpop t rfl
  | take e ctx =>
    intro hm
    refine ⟨hα hm, ?_⟩
    by_cases hp : e.category = .packet
    · simp [answer, hp, htake e ctx rfl hm hp, hα hm]
    · simp [answer, hp, hα hm]
  | publish e ctx fin => exact fun hm => (hα hm).2
  | _ => simp_all [Slot.Carries]

theorem mem_of_queueNext {q q' : List Task} (h : queueNext q ev = some q') {t : Task}
    (ht : t ∈ q') : t ∈ q ∨ ev = .enqueue t ∨ ∃ j stored, ev = .requeue j t stored := by
  cases ev with
  | enqueue u =>
    obtain ⟨-, rfl⟩ := by simpa [queueNext] using h
    rcases List.mem_append.mp ht with h | h
    · exact .inl h
    · exact .inr (.inl (by simp_all))
  | pop j u =>
    rw [eq_cons_of_pop h]
    exact .inl (List.mem_cons_of_mem _ ht)
  | requeue j u stored =>
    obtain ⟨-, rfl⟩ := by simpa [queueNext] using h
    by_cases hroom : q.length < TSKQ_SIZE
    · rw [kfifoIn_of_room u hroom] at ht
      rcases List.mem_append.mp ht with h | h
      · exact .inl h
      · exact .inr (.inr ⟨j, stored, by simp_all⟩)
    · rw [kfifoIn_of_full u hroom] at ht
      exact .inl ht
  | _ =>
    obtain rfl := by simpa [queueNext] using h
    exact .inl ht

theorem Kept.next (hk : Kept a m c) (h : a.next ev = some b)
    (henqueue : ∀ t, ev = .enqueue t → t.mbuf ≠ m)
    (htake : ∀ i e ctx, ev = .take i e ctx → e.mbuf = m → e.category = .packet → ctx = e.rnbl) :
    Kept b m c := by
  obtain ⟨q, hq, ⟨hw, rfl⟩ | ⟨i, β, hw, hstep, rfl⟩⟩ := Sched.next_cases h
  · refine ⟨?_, hk.slot⟩
    intro t ht hm
    rcases mem_of_queueNext hq ht with h | rfl | ⟨j, stored, rfl⟩
    · exact hk.queue t h hm
    · exact absurd hm (henqueue t rfl)
    · simp [Event.worker] at hw
  · have hslot := hk.slot i
    constructor
    · intro t ht hm
      rcases mem_of_queueNext hq ht with h | rfl | ⟨j, stored, rfl⟩
      · exact hk.queue t h hm
      · exact absurd hm (henqueue t rfl)
      · -- a task that is queued again is the answer its slot carried
        generalize a.slot i = α at hstep hslot
        cases hstep with
        | requeue e ctx stored => exact hslot hm
    · intro j
      rcases eq_or_ne j i with rfl | hne
      · have hcarry := carries_slotStep hstep hslot
          (fun t hev => hk.queue t (by subst hev; simp [eq_cons_of_pop hq])) (htake j)
        simpa using hcarry
      · simpa [hne] using hk.slot j

theorem carries_of_ne (hα : α.buffer ≠ some m) : α.Carries m c := by
  cases α <;> simp_all [Slot.buffer, Slot.Carries]

theorem kept_enqueue {t : Task} (hl : Located a t.mbuf l) (hgone : l.gone = true)
    (h : a.next (.enqueue t) = some b) : Kept b t.mbuf t.rnbl := by
  obtain ⟨q, hq, ⟨-, rfl⟩ | ⟨i, β, hw, -, -⟩⟩ := Sched.next_cases h
  · constructor
    · intro u hu hm
      rcases mem_of_queueNext hq hu with h | h | ⟨j, stored, h⟩
      · exact absurd hm (hl.not_queued (Life.ne_queued_of_gone hgone) u h)
      · simp_all
      · simp at h
    · intro i
      exact carries_of_ne (hl.not_in_slot (Life.at_of_gone hgone i))
  · simp [Event.worker] at hw

/-- What the scheduler knows of a buffer when no preempted task meets a full queue. -/
structure Tracked (a : Sched) (tr : List Event) (m : Addr) : Prop where
  located : Located a m (life m tr)
  unlost : life m tr ≠ .lost
  pend : (pending m tr).isSome = (life m tr).isPending
  kept : ∀ c, pending m tr = some c → Faithful m tr → Kept a m c

theorem tracked_init (m : Addr) : Tracked Sched.init [] m where
  located := ⟨by simp [life], rfl, fun _ => rfl⟩
  unlost := by simp [life]
  pend := rfl
  kept := by simp [pending]

theorem not_lost_next (hl : l ≠ .lost)
    (hroom : ∀ i t stored, ev = .requeue i t stored → stored = true) :
    l.next m ev ≠ .lost := by
  unfold Life.next
  split
  · cases ev with
    | requeue i t stored =>
      obtain rfl := hroom i t stored rfl
      simp only [Life.move]
      split <;> simp
    | drop _ | enqueue _ | pop _ _ | publish _ _ | consumeSkb _ _ =>
      simp only [Life.move]
      split <;> simp
    | _ => exact hl
  · exact hl

theorem pending_eq_of_ne_enqueue {o : Option Addr} (henqueue : ∀ t, ev = .enqueue t → t.mbuf ≠ m)
    (h : pendingNext m o ev = some c) : o = some c := by
  cases ev with
  | enqueue t => simpa [pendingNext, henqueue t rfl] using h
  | publish i r =>
    simp only [pendingNext] at h
    split at h
    · simp at h
    · exact h
  | _ => exact h

theorem Tracked.next (ht : Tracked a tr m) (h : a.next ev = some b)
    (hfresh : Fresh m (life m tr) ev)
    (hroom : ∀ i t stored, ev = .requeue i t stored → stored = true) :
    Tracked b (tr ++ [ev]) m := by
  have hloc : Located b m (life m (tr ++ [ev])) := by
    rw [life_append]
    exact ht.located.next h hfresh
  have hlost : life m (tr ++ [ev]) ≠ .lost := by
    rw [life_append]
    exact not_lost_next ht.unlost hroom
  refine ⟨hloc, hlost, ?_, ?_⟩
  · rw [life_append] at hloc hlost
    rw [life_append, pending_append]
    exact isPending_next hloc.unbroken hlost ht.pend
  · intro c hc hfaith
    rw [pending_append] at hc
    by_cases henqueue : ∃ t, ev = .enqueue t ∧ t.mbuf = m
    · obtain ⟨t, rfl, rfl⟩ := henqueue
      obtain rfl : t.rnbl = c := by simpa [pendingNext] using hc
      exact kept_enqueue ht.located (hfresh rfl rfl) h
    · have hne : ∀ t, ev = .enqueue t → t.mbuf ≠ m := fun t h hm => henqueue ⟨t, h, hm⟩
      have hk := ht.kept c (pending_eq_of_ne_enqueue hne hc) hfaith.of_append
      refine hk.next h hne ?_
      intro i e ctx hev
      exact hfaith i e ctx (by simp [hev])

end Kept

end ThletEvaluation.Shinjuku
