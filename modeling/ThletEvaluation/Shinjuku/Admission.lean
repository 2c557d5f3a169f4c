import ThletEvaluation.Shinjuku.ContextPairs
import ThletEvaluation.Shinjuku.Networker

/-!
# Who owns a packet and its context

The body of `handle_networker`'s loop on the pools of `context.c` and the task queue, together
with the dispatcher's other calls, which empty the queue and give contexts back. Packets count
as live from `shinjuku_rpc_get` to `dev_consume_skb_any`.
-/

namespace ThletEvaluation.Shinjuku

set_option autoImplicit false

structure AdmissionSys where
  ctx : ContextSys
  tskq : List Task
  /-- The tasks that the workers have. -/
  running : List Task
  packets : List Addr

def AdmissionSys.tasks (s : AdmissionSys) : List Task := s.tskq ++ s.running

inductive AdmissionAct where
  /-- One iteration of the loop, with the packet that was fetched. -/
  | packet (curTime : UInt64) (data : Addr)
  | dispatch
  | preempted (t : Task)
  | finished (t : Task)
  | write (a : Addr) (h : MempoolHdr)

/-- The body of the loop; what is left of the batch is looked at before it. -/
def AdmissionSys.packet (s : AdmissionSys) (curTime : UInt64) (data : Addr) :
    Option (AdmissionSys × List Event) :=
  match contextAlloc s.ctx.pools with
  | .error _ => none
  | .ok (res, p) =>
    let r := networkerRound curTime data res 1 s.tskq
    some (⟨⟨p, res.toList ++ s.ctx.live⟩, r.1, s.running, data :: s.packets⟩, r.2.2)

def AdmissionSys.step (s : AdmissionSys) : AdmissionAct → Option (AdmissionSys × List Event)
  | .packet curTime data => s.packet curTime data
  | .dispatch =>
    match s.tskq with
    | [] => none
    | t :: q => some ({ s with tskq := q, running := t :: s.running }, [])
  | .preempted t =>
    some ({ s with tskq := (kfifoIn s.tskq t).1, running := s.running.erase t }, [])
  | .finished t =>
    match contextFree s.ctx.pools t.rnbl with
    | .error _ => none
    | .ok p => some (⟨⟨p, s.ctx.live.erase t.rnbl⟩, s.tskq, s.running.erase t,
        s.packets.erase t.mbuf⟩, [])
  | .write a h => some ({ s with
      ctx := ⟨{ s.ctx.pools with mem := Function.update s.ctx.pools.mem a h }, s.ctx.live⟩ }, [])

def admissionMachine : Run.Machine AdmissionSys AdmissionAct Event := ⟨AdmissionSys.step⟩

/-- A fetched packet is none of the live ones, and workers report what they have. -/
def AdmissionAct.Legal (s : AdmissionSys) : AdmissionAct → Prop
  | .packet _ data => data ≠ NULL ∧ data ∉ s.packets
  | .dispatch => True
  | .preempted t | .finished t => t ∈ s.running
  | .write a _ => a ∈ s.ctx.live ∨ a ∈ s.ctx.stackBases

instance (s : AdmissionSys) (act : AdmissionAct) : Decidable (act.Legal s) :=
  match act with
  | .packet _ data => inferInstanceAs (Decidable (data ≠ NULL ∧ data ∉ s.packets))
  | .dispatch => .isTrue trivial
  | .preempted t => inferInstanceAs (Decidable (t ∈ s.running))
  | .finished t => inferInstanceAs (Decidable (t ∈ s.running))
  | .write a _ => inferInstanceAs (Decidable (a ∈ s.ctx.live ∨ a ∈ s.ctx.stackBases))

def AdmissionSys.init (p : ContextPools) : AdmissionSys := ⟨⟨p, []⟩, [], [], []⟩

/-- The pool or its datastore has an element. -/
def Arena.HasElement (s : Arena) : Prop :=
  s.m.head ≠ NULL ∨ s.m.privateChunk ≠ NULL ∨ s.mds.chunkHead ≠ NULL

instance (s : Arena) : Decidable s.HasElement :=
  inferInstanceAs (Decidable (s.m.head ≠ NULL ∨ s.m.privateChunk ≠ NULL ∨ s.mds.chunkHead ≠ NULL))

/-- There is a context, a stack and a place in the queue. -/
def AdmissionSys.CanAdmit (s : AdmissionSys) : Prop :=
  s.ctx.pools.contextArena.HasElement ∧ s.ctx.pools.stackArena.HasElement ∧
    s.tskq.length < TSKQ_SIZE

def Arena.Holds (s : Arena) (a : Addr) : Prop := ∃ xs, s.Offers xs ∧ a ∈ xs

/-- After the iteration that leads from `s` to `t`, the packet is in the queue with its context
or released, and what left the pools is in the queue with it. -/
structure LeaksNothing (data : Addr) (s t : AdmissionSys) : Prop where
  packet : (∃ τ ∈ t.tskq, τ.mbuf = data ∧ τ.rnbl ∈ t.ctx.live) ∨ data ∉ t.packets
  context : ∀ c, s.ctx.pools.contextArena.Holds c → t.ctx.pools.contextArena.Holds c ∨
    ∃ τ ∈ t.tskq, τ.mbuf = data ∧ τ.rnbl = c
  stack : ∀ k, s.ctx.pools.stackArena.Holds k → t.ctx.pools.stackArena.Holds k ∨
    ∃ τ ∈ t.tskq, τ.mbuf = data ∧ t.ctx.pools.stackBase τ.rnbl = k
  numbers : ¬ s.CanAdmit → t.packets.length = s.packets.length ∧
    t.ctx.live.length = s.ctx.live.length

/-- What the tasks name is owned, by one of them each. -/
structure Held (key : Task → Addr) (owned : List Addr) (tasks : List Task) : Prop where
  nodup : (tasks.map key).Nodup
  mem : ∀ t ∈ tasks, key t ∈ owned

section Held
variable {key : Task → Addr} {owned owned' : List Addr} {tasks tasks' : List Task} {t : Task}

theorem Held.mono (h : Held key owned tasks) (hsub : owned ⊆ owned') : Held key owned' tasks :=
  ⟨h.nodup, fun t ht => hsub (h.mem t ht)⟩

theorem Held.perm (h : Held key owned tasks) (hperm : tasks.Perm tasks') :
    Held key owned tasks' :=
  ⟨(hperm.map key).nodup_iff.mp h.nodup, fun t ht => h.mem t (hperm.symm.subset ht)⟩

theorem Held.tail (h : Held key owned (t :: tasks)) : Held key owned tasks :=
  ⟨(List.nodup_cons.mp h.nodup).2, fun u hu => h.mem u (List.mem_cons_of_mem _ hu)⟩

theorem Held.push (h : Held key owned tasks) (hfresh : key t ∉ owned) :
    Held key (key t :: owned) (t :: tasks) := by
  constructor
  · rw [List.map_cons, List.nodup_cons]
    refine ⟨?_, h.nodup⟩
    intro hmem
    obtain ⟨u, hu, heq⟩ := List.mem_map.mp hmem
    exact hfresh (heq ▸ h.mem u hu)
  · intro u hu
    rcases List.mem_cons.mp hu with rfl | hu
    · exact List.mem_cons_self
    · exact List.mem_cons_of_mem _ (h.mem u hu)

theorem Held.release (h : Held key owned (t :: tasks)) : Held key (owned.erase (key t)) tasks := by
  obtain ⟨hnot, hnodup⟩ := List.nodup_cons.mp h.nodup
  refine ⟨hnodup, ?_⟩
  intro u hu
  have hne : key u ≠ key t := fun heq => hnot (heq ▸ List.mem_map_of_mem hu)
  exact (List.mem_erase_of_ne hne).mpr (h.mem u (List.mem_cons_of_mem _ hu))

end Held

/-- The pools are as their calls leave them, and every task has a context and a packet of its
own. -/
structure Accounted (ctxs stks : List Addr) (s : AdmissionSys) (L K : Layout) : Prop where
  paired : Paired ctxs stks s.ctx L K
  contexts : Held Task.rnbl s.ctx.live s.tasks
  packets : Held Task.mbuf s.packets s.tasks

section Steps
variable {ctxs stks : List Addr} {s t : AdmissionSys} {L K : Layout} {es : List Event}
variable {curTime : UInt64} {data : Addr}

theorem PoolState.hasElement_iff {elems held : List Addr} {s : Arena}
    (h : PoolState elems held s L) : s.HasElement ↔ L.available ≠ [] := by
  -- an allocation tells both
  obtain ⟨a, r, hcall⟩ := h.alloc_returns
  have hnull : s.HasElement ↔ a ≠ NULL := by
    rcases mempoolAlloc_cases hcall with ⟨hne, rfl, -⟩ | ⟨-, hne, rfl, -⟩ | ⟨-, -, hne, rfl, -⟩ |
      ⟨hhead, hpriv, hchunk, rfl, -⟩
    · exact ⟨fun _ => hne, fun _ => .inl hne⟩
    · exact ⟨fun _ => hne, fun _ => .inr (.inl hne)⟩
    · exact ⟨fun _ => hne, fun _ => .inr (.inr hne)⟩
    · simp [Arena.HasElement, hhead, hpriv, hchunk]
  rw [hnull]
  rcases h.alloc hcall with ⟨rfl, hempty, -⟩ | ⟨hne, -, L', -, hperm⟩
  · simp [hempty]
  · refine ⟨fun _ hempty => ?_, fun _ => hne⟩
    rw [hempty] at hperm
    exact absurd hperm.length_eq (by simp)

theorem Arena.Offers.unique {s : Arena} {xs ys : List Addr} (h : s.Offers xs) (h' : s.Offers ys) :
    xs = ys := by
  obtain ⟨L, hL, rfl⟩ := h
  obtain ⟨M, hM, rfl⟩ := h'
  obtain ⟨hpool, hchunks⟩ := hL.unique hM
  obtain ⟨hhead, hpriv⟩ := hpool 0 Nat.one_pos
  simp [Layout.available, Layout.free, Layout.cached, hhead, hpriv, hchunks]

theorem PoolState.holds_iff {elems held : List Addr} {s : Arena} (h : PoolState elems held s L)
    (a : Addr) : s.Holds a ↔ a ∈ L.available := by
  have hoffers := Arena.offers_of_poolState h
  constructor
  · rintro ⟨xs, hxs, ha⟩
    rwa [hoffers.unique hxs]
  · intro ha
    exact ⟨_, hoffers, ha⟩

/-- The iteration as it ends: without a context, with a context that finds no place, or with
both in the queue. -/
theorem packet_cases (h : Accounted ctxs stks s L K) (hdata : data ≠ NULL)
    (hstep : s.packet curTime data = some (t, es)) :
    (¬ s.CanAdmit ∧ t.tskq = s.tskq ∧ t.packets = data :: s.packets ∧ t.running = s.running ∧
      ∃ L' K' res, t.ctx.live = res ++ s.ctx.live ∧ Paired ctxs stks t.ctx L' K') ∨
    (s.CanAdmit ∧ t.packets = data :: s.packets ∧ t.running = s.running ∧ ∃ c L' K',
      t.tskq = s.tskq ++ [packetTask curTime c data] ∧ t.ctx.live = c :: s.ctx.live ∧
      Paired ctxs stks t.ctx L' K' ∧ L.available.Perm (c :: L'.available) ∧
      K.available.Perm (t.ctx.pools.stackBase c :: K'.available)) := by
  unfold AdmissionSys.packet at hstep
  split at hstep
  · simp at hstep
  next res p hcall =>
    obtain ⟨rfl, -⟩ := Prod.mk.inj (Option.some.inj hstep)
    have hctx := h.paired.contexts.hasElement_iff
    have hstk := h.paired.stackElems.hasElement_iff
    rcases h.paired.alloc hcall with ⟨rfl, hempty, L', K', h', -⟩ |
      ⟨c, L', K', rfl, h', hperm, hpermK⟩
    · left
      refine ⟨?_, ?_, rfl, rfl, L', K', [], rfl, h'⟩
      · rintro ⟨hhas, hhas', -⟩
        rcases hempty with hempty | hempty
        · exact hctx.mp hhas hempty
        · exact hstk.mp hhas' hempty
      · simp [networkerRound, hdata]
    · have hhas : s.ctx.pools.contextArena.HasElement := hctx.mpr fun hempty => by
        simp [hempty] at hperm
      have hhas' : s.ctx.pools.stackArena.HasElement := hstk.mpr fun hempty => by
        simp [hempty] at hpermK
      by_cases hroom : s.tskq.length < TSKQ_SIZE
      · right
        refine ⟨⟨hhas, hhas', hroom⟩, rfl, rfl, c, L', K', ?_, rfl, h', hperm, hpermK⟩
        rw [networkerRound_batch c hdata hroom]
      · left
        refine ⟨fun hcan => hroom hcan.2.2, ?_, rfl, rfl, L', K', [c], rfl, h'⟩
        simp [networkerRound, hdata, kfifoIn_of_full _ hroom]

theorem Accounted.packet (h : Accounted ctxs stks s L K) (hdata : data ≠ NULL)
    (hfresh : data ∉ s.packets) (hstep : s.packet curTime data = some (t, es)) :
    ∃ L' K', Accounted ctxs stks t L' K' := by
  rcases packet_cases h hdata hstep with ⟨-, htskq, hpackets, hrun, L', K', res, hlive, h'⟩ |
    ⟨-, hpackets, hrun, c, L', K', htskq, hlive, h', -⟩
  · have htasks : t.tasks = s.tasks := by simp [AdmissionSys.tasks, htskq, hrun]
    refine ⟨L', K', h', ?_, ?_⟩
    · rw [htasks, hlive]
      exact h.contexts.mono (List.subset_append_right _ _)
    · rw [htasks, hpackets]
      exact h.packets.mono (List.subset_cons_self _ _)
  · have htasks : (packetTask curTime c data :: s.tasks).Perm t.tasks := by
      simpa [AdmissionSys.tasks, htskq, hrun] using List.perm_middle.symm
    have hnew : c ∉ s.ctx.live := by
      have hnodup := h'.contexts.held_nodup
      rw [hlive] at hnodup
      exact (List.nodup_cons.mp hnodup).1
    refine ⟨L', K', h', ?_, ?_⟩
    · rw [hlive]
      exact (h.contexts.push (t := packetTask curTime c data) hnew).perm htasks
    · rw [hpackets]
      exact (h.packets.push (t := packetTask curTime c data) hfresh).perm htasks

theorem Accounted.step (h : Accounted ctxs stks s L K) {act : AdmissionAct}
    (hlegal : act.Legal s) (hstep : s.step act = some (t, es)) :
    ∃ L' K', Accounted ctxs stks t L' K' := by
  obtain ⟨⟨p, live⟩, tskq, running, packets⟩ := s
  cases act with
  | packet curTime data => exact h.packet hlegal.1 hlegal.2 hstep
  | dispatch =>
    simp only [AdmissionSys.step] at hstep
    split at hstep
    · simp at hstep
    next u q =>
      obtain ⟨rfl, -⟩ := Prod.mk.inj (Option.some.inj hstep)
      have htasks : (u :: (q ++ running)).Perm (q ++ u :: running) := List.perm_middle.symm
      exact ⟨L, K, h.paired, h.contexts.perm htasks, h.packets.perm htasks⟩
  | preempted u =>
    obtain ⟨rfl, -⟩ := Prod.mk.inj (Option.some.inj hstep)
    have htasks : (tskq ++ running).Perm (u :: (tskq ++ running.erase u)) :=
      ((List.perm_cons_erase hlegal).append_left tskq).trans List.perm_middle
    by_cases hroom : tskq.length < TSKQ_SIZE
    · have hback : (u :: (tskq ++ running.erase u)).Perm (tskq ++ [u] ++ running.erase u) := by
        simpa using List.perm_middle.symm
      simp only [kfifoIn_of_room _ hroom]
      exact ⟨L, K, h.paired, (h.contexts.perm htasks).perm hback,
        (h.packets.perm htasks).perm hback⟩
    · simp only [kfifoIn_of_full _ hroom]
      exact ⟨L, K, h.paired, (h.contexts.perm htasks).tail, (h.packets.perm htasks).tail⟩
  | finished u =>
    simp only [AdmissionSys.step] at hstep
    split at hstep
    · simp at hstep
    next p' hcall =>
      obtain ⟨rfl, -⟩ := Prod.mk.inj (Option.some.inj hstep)
      have htasks : (tskq ++ running).Perm (u :: (tskq ++ running.erase u)) :=
        ((List.perm_cons_erase hlegal).append_left tskq).trans List.perm_middle
      have hlive : u.rnbl ∈ live := h.contexts.mem u (List.mem_append_right _ hlegal)
      obtain ⟨L', K', h', -⟩ := h.paired.free hlive hcall
      exact ⟨L', K', h', (h.contexts.perm htasks).release, (h.packets.perm htasks).release⟩
  | write a hdr =>
    obtain ⟨rfl, -⟩ := Prod.mk.inj (Option.some.inj hstep)
    exact ⟨L, K, h.paired.write hdr hlegal, h.contexts, h.packets⟩

end Steps

section Histories
variable {ctxs stks : List (List Addr)} {p : ContextPools} {s t : AdmissionSys}
variable {tr es : List Event} {curTime : UInt64} {data : Addr}

theorem accounted_reachable (h : p.Created ctxs stks)
    (hrun : Run.Runs admissionMachine (fun s act => act.Legal s) (AdmissionSys.init p) tr s) :
    ∃ L K, Accounted ctxs.flatten stks.flatten s L K := by
  apply hrun.invariant (I := fun _ s => ∃ L K, Accounted ctxs.flatten stks.flatten s L K)
  · exact ⟨_, _, paired_created h,
      ⟨List.nodup_nil, by simp [AdmissionSys.init, AdmissionSys.tasks]⟩,
      ⟨List.nodup_nil, by simp [AdmissionSys.init, AdmissionSys.tasks]⟩⟩
  · rintro tr es s t act ⟨L, K, hs⟩ hlegal hstep
    exact hs.step hlegal hstep

/-- In every history and at every iteration in it: the iteration leaks nothing exactly when it
begins with a context, a stack and a place in the queue. -/
theorem admission_leaks_nothing_iff (h : p.Created ctxs stks)
    (hrun : Run.Runs admissionMachine (fun s act => act.Legal s) (AdmissionSys.init p) tr s)
    (hlegal : (AdmissionAct.packet curTime data).Legal s)
    (hstep : s.step (.packet curTime data) = some (t, es)) :
    LeaksNothing data s t ↔ s.CanAdmit := by
  obtain ⟨L, K, hs⟩ := accounted_reachable h hrun
  obtain ⟨hdata, hfresh⟩ := hlegal
  rcases packet_cases hs hdata hstep with ⟨hnot, htskq, hpackets, -⟩ |
    ⟨hcan, hpackets, -, c, L', K', htskq, hlive, h', hperm, hpermK⟩
  · refine ⟨fun hleak => ?_, fun hcan => absurd hcan hnot⟩
    -- the packet is live, and no task of the queue has it
    rcases hleak.packet with ⟨τ, hτ, hmbuf, -⟩ | hreleased
    · rw [htskq] at hτ
      exact absurd (hmbuf ▸ hs.packets.mem τ (List.mem_append_left _ hτ)) hfresh
    · exact absurd (by simp [hpackets]) hreleased
  · have hstored : packetTask curTime c data ∈ t.tskq := by simp [htskq]
    refine ⟨fun _ => hcan, fun _ => ⟨?_, ?_, ?_, fun hnot => absurd hcan hnot⟩⟩
    · exact .inl ⟨_, hstored, rfl, by simp [hlive, packetTask]⟩
    · intro c' hc'
      rcases List.mem_cons.mp (hperm.subset ((hs.paired.contexts.holds_iff c').mp hc')) with
        rfl | hrest
      · exact .inr ⟨_, hstored, rfl, rfl⟩
      · exact .inl ((h'.contexts.holds_iff c').mpr hrest)
    · intro k hk
      rcases List.mem_cons.mp (hpermK.subset ((hs.paired.stackElems.holds_iff k).mp hk)) with
        rfl | hrest
      · exact .inr ⟨_, hstored, rfl, rfl⟩
      · exact .inl ((h'.stackElems.holds_iff k).mpr hrest)

end Histories

/-- The first packet gets the only stack. -/
theorem admission_leaks_nothing_iff_first :
    (AdmissionSys.init pairPools).CanAdmit ∧ ∃ t es,
      (AdmissionSys.init pairPools).step (.packet 7 0x500) = some (t, es) ∧
      LeaksNothing 0x500 (AdmissionSys.init pairPools) t := by
  have hcan : (AdmissionSys.init pairPools).CanAdmit := by
    refine ⟨?_, ?_, ?_⟩ <;> decide
  obtain ⟨t, es, hstep⟩ : ∃ t es,
      (AdmissionSys.init pairPools).step (.packet 7 0x500) = some (t, es) := ⟨_, _, rfl⟩
  exact ⟨hcan, t, es, hstep,
    (admission_leaks_nothing_iff pairPools_created .start (by decide) hstep).mpr hcan⟩

/-- The second packet finds no stack: its context goes back, and the packet is forgotten. -/
theorem admission_without_stack_leaks_packet :
    ¬ ∀ (p : ContextPools) (ctxs stks : List (List Addr)) (tr : List Event)
        (s t : AdmissionSys) (curTime : UInt64) (data : Addr) (es : List Event),
      p.Created ctxs stks →
      Run.Runs admissionMachine (fun s act => act.Legal s) (AdmissionSys.init p) tr s →
      (AdmissionAct.packet curTime data).Legal s →
      s.step (.packet curTime data) = some (t, es) → LeaksNothing data s t := by
  intro hclaim
  have hfirst : Run.Runs admissionMachine (fun s act => act.Legal s) (AdmissionSys.init pairPools)
      _ _ := .next (a := .packet 7 0x500) .start (by decide) rfl
  have hleak := hclaim _ _ _ _ _ _ 8 0x600 _ pairPools_created hfirst (by decide) rfl
  rcases hleak.packet with ⟨τ, hτ, hmbuf, -⟩ | hreleased
  · revert hmbuf
    revert τ
    decide
  · exact absurd hreleased (by decide)

end ThletEvaluation.Shinjuku
