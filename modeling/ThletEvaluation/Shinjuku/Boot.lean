import ThletEvaluation.Shinjuku.Context
import ThletEvaluation.Shinjuku.Ownership

/-!
# The module from its load on

The scheduler with the pools of `context.c` in place of a free choice of contexts. The
module starts with zeroed static data in `shinjuku_init`, which only creates the
dispatcher thread. A failing `BUG_ON` in a pool kills the dispatcher and leaves the
workers running.
-/

namespace ThletEvaluation.Shinjuku

open Run

set_option autoImplicit false

structure Booted where
  awake : Bool
  sys : Sys
  pools : ContextPools
  bug : Option Bug

/-- The static data of the module when it is loaded; `mem` and `stackBase` are what the
memory outside of it holds. -/
def Booted.load (mem : Addr → MempoolHdr) (stackBase : Addr → Addr) : Booted where
  awake := false
  sys := Sys.init
  pools := ⟨mem, stackBase, {}, {}, {}, {}⟩
  bug := none

inductive BootAct where
  /-- `shinjuku_init`; `created` is the success of `kthread_create`. -/
  | init (created : Bool)
  | disp (v : Env)
  | work (i : Nat) (fin : Bool)

inductive BootEvent where
  /-- `shinjuku_rpc_get` returned a packet. -/
  | fetched (m : Addr)
  | sched (ev : Event)
  deriving DecidableEq

/-- The call of `context_alloc` or `context_free` that the dispatcher makes at this point.
The result of `context_alloc` replaces the choice that `v` has for it. -/
def poolCall (s : Sys) (v : Env) (p : ContextPools) : Except Bug (Env × ContextPools) :=
  match s.dpc with
  | .net k =>
    if v.packet = NULL ∨ k = 0 then .ok (v, p)
    else (contextAlloc p).map fun r => ({ v with cont := r.1 }, r.2)
  | .serve i .finFree => (contextFree p (s.cpu i).data.response.rnbl).map fun p => (v, p)
  | _ => .ok (v, p)

def fetches (s : Sys) (v : Env) : List BootEvent :=
  if s.dpc.isNet = true ∧ v.packet ≠ NULL then [.fetched v.packet] else []

def bootStep (n : Nat) (s : Booted) : BootAct → Option (Booted × List BootEvent)
  | .init created => if s.awake then none else some ({ s with awake := created }, [])
  | .disp v =>
    if s.awake = true ∧ s.bug = none then
      match poolCall s.sys v s.pools with
      | .error b => some ({ s with bug := some b }, fetches s.sys v)
      | .ok (v', p) =>
        (dispatcherStep n v' s.sys).map fun r =>
          ({ s with sys := r.1, pools := p }, fetches s.sys v ++ r.2.map .sched)
    else none
  | .work i fin =>
    (sysStep n s.sys (.work i fin)).map fun r => ({ s with sys := r.1 }, r.2.map .sched)

def bootMachine (n : Nat) : Machine Booted BootAct BootEvent := ⟨bootStep n⟩

/-- No packet has come in: the scheduler is empty, and the pools are as they were loaded. -/
structure Untouched (s : Booted) : Prop where
  sim : Sim Sched.init s.sys
  batch : ∀ k, s.sys.dpc = .net k → k = MAX_BATCH
  pool : s.pools.contextPool = {}

section Steps
variable {n : Nat} {s t : Booted} {u : Sys} {es : List Event}

theorem untouched_load (mem : Addr → MempoolHdr) (stackBase : Addr → Addr) :
    Untouched (Booted.load mem stackBase) :=
  ⟨sim_init, by simp [Booted.load, Sys.init], rfl⟩

/-- An empty scheduler into which nothing comes stays empty. -/
theorem sim_empty_step {s : Sys} {act : Act} (hsim : Sim Sched.init s)
    (hpacket : ∀ v, act = .disp v → s.dpc.isNet = true → v.packet = NULL)
    (h : sysStep n s act = some (u, es)) : Sim Sched.init u := by
  obtain ⟨b, hacc, hsim'⟩ := sim_step hsim h
  rcases step_event h with rfl | ⟨ev, rfl, horigin⟩
  · obtain rfl : Sched.init = b := by simpa using hacc
    exact hsim'
  · have hnext : Sched.init.next ev = some b := Observer.accept_singleton.symm.trans hacc
    obtain ⟨q, hq, ⟨hw, -⟩ | ⟨i, β, hw, hstep, rfl⟩⟩ := Sched.next_cases hnext
    · obtain ⟨v, hact, hnet, hne, -⟩ := horigin.arrival hw
      exact absurd (hpacket v hact hnet) hne
    · have hempty : Sched.init.slot i = .empty := rfl
      rw [hempty] at hstep
      cases hstep with
      | pop t => simp [queueNext, Sched.init] at hq
      | ipi =>
        obtain rfl : Sched.init.queue = q := by simpa [queueNext] using hq
        have hsame : Function.update Sched.init.slot i .empty = Sched.init.slot :=
          Function.update_eq_self i Sched.init.slot
        rw [hsame] at hsim'
        exact hsim'

theorem batch_of_sweepFrom {m i k : Nat} (h : sweepFrom m i = .net k) : k = MAX_BATCH := by
  unfold sweepFrom at h
  split at h
  · simp at h
  · simpa using h.symm

theorem batch_disp {s : Sys} {v : Env} (hpacket : s.dpc.isNet = true → v.packet = NULL)
    (h : dispatcherStep n v s = some (u, es)) : ∀ k, u.dpc = .net k → k = MAX_BATCH := by
  intro k hk
  cases dispatcherStep_cases h with
  | start =>
    dsimp only at hk
    split at hk <;> simp at hk
  | endCreate hdpc hto => rcases hto with rfl | rfl <;> simp at hk
  | loop | next => exact batch_of_sweepFrom hk
  | net hdpc hr =>
    have hnull : v.packet = NULL := hpacket (by simp [hdpc, DispatcherPc.isNet])
    subst hr
    simp [networkerRound, hnull] at hk
  | _ => simp at hk

theorem Untouched.work {i : Nat} {fin : Bool} (hs : Untouched s)
    (h : sysStep n s.sys (.work i fin) = some (u, es)) : Untouched { s with sys := u } := by
  refine ⟨sim_empty_step hs.sim (by simp) h, ?_, hs.pool⟩
  obtain ⟨c, pc, -, rfl⟩ := sysStep_work h
  exact hs.batch

theorem Untouched.disp {v : Env} (hs : Untouched s)
    (hpacket : s.sys.dpc.isNet = true → v.packet = NULL)
    (h : dispatcherStep n v s.sys = some (u, es)) : Untouched { s with sys := u } := by
  have hsim : Sim Sched.init u := by
    apply sim_empty_step hs.sim _ (show sysStep n s.sys (.disp v) = some (u, es) from h)
    intro v' hv hnet
    cases hv
    exact hpacket hnet
  exact ⟨hsim, batch_disp hpacket h, hs.pool⟩

/-- The dispatcher calls the pools only for a packet. -/
theorem poolCall_of_untouched {v : Env} (hs : Untouched s)
    (hpacket : s.sys.dpc.isNet = true → v.packet = NULL) :
    poolCall s.sys v s.pools = .ok (v, s.pools) := by
  cases hdpc : s.sys.dpc with
  | net k =>
    have hnull : v.packet = NULL := hpacket (by simp [hdpc, DispatcherPc.isNet])
    simp [poolCall, hdpc, hnull]
  | serve i st =>
    cases st with
    | finFree =>
      have hserver := hs.sim.server i
      simp [hdpc, stageOf, ServerLinked, Sched.init] at hserver
    | _ => simp [poolCall, hdpc]
  | _ => simp [poolCall, hdpc]

theorem poolCall_of_packet {v : Env} (hs : Untouched s) (hnet : s.sys.dpc.isNet = true)
    (hpacket : v.packet ≠ NULL) : poolCall s.sys v s.pools = .error .allocMagic := by
  cases hdpc : s.sys.dpc with
  | net k =>
    obtain rfl := hs.batch k hdpc
    simp [poolCall, hdpc, hpacket, MAX_BATCH, contextAlloc_of_zeroed hs.pool, Except.map]
  | _ => simp [hdpc, DispatcherPc.isNet] at hnet

end Steps

/-- What a run from the load shows: no packet yet and untouched pools, or a packet and a
dead dispatcher. -/
def Fated (tr : List BootEvent) (s : Booted) : Prop :=
  (s.bug = none ∧ Untouched s ∧ ∀ m, .fetched m ∉ tr) ∨
    (s.bug ≠ none ∧ ∃ m, .fetched m ∈ tr)

theorem fated_step {n : Nat} {tr evs : List BootEvent} {s t : Booted} {act : BootAct}
    (h : Fated tr s) (hstep : bootStep n s act = some (t, evs)) : Fated (tr ++ evs) t := by
  cases act with
  | init created =>
    simp only [bootStep] at hstep
    split at hstep
    · simp at hstep
    · obtain ⟨rfl, rfl⟩ := by simpa using hstep
      simp only [List.append_nil]
      exact h.imp (fun ⟨hb, hs, hm⟩ => ⟨hb, ⟨hs.sim, hs.batch, hs.pool⟩, hm⟩) id
  | work i fin =>
    simp only [bootStep, Option.map_eq_some_iff] at hstep
    obtain ⟨⟨u, es⟩, hu, heq⟩ := hstep
    obtain ⟨rfl, rfl⟩ := Prod.mk.inj heq
    rcases h with ⟨hb, hs, hm⟩ | ⟨hb, m, hm⟩
    · exact .inl ⟨hb, hs.work hu, by simpa using hm⟩
    · exact .inr ⟨hb, m, List.mem_append_left _ hm⟩
  | disp v =>
    simp only [bootStep] at hstep
    split at hstep
    next hlive =>
      rcases h with ⟨-, hs, hm⟩ | ⟨hb, -⟩
      · by_cases hfetch : s.sys.dpc.isNet = true ∧ v.packet ≠ NULL
        · rw [poolCall_of_packet hs hfetch.1 hfetch.2] at hstep
          obtain ⟨rfl, rfl⟩ := by simpa using hstep
          exact .inr ⟨by simp, v.packet, by simp [fetches, hfetch]⟩
        · have hpacket : s.sys.dpc.isNet = true → v.packet = NULL := by
            intro hnet
            by_contra hne
            exact hfetch ⟨hnet, hne⟩
          have hnone : fetches s.sys v = [] := by simp only [fetches, hfetch, if_false]
          rw [poolCall_of_untouched hs hpacket] at hstep
          simp only [Option.map_eq_some_iff] at hstep
          obtain ⟨⟨u, es⟩, hu, heq⟩ := hstep
          obtain ⟨rfl, rfl⟩ := Prod.mk.inj heq
          exact .inl ⟨hlive.2, hs.disp hpacket hu, by simpa [hnone] using hm⟩
      · exact absurd hlive.2 hb
    · simp at hstep

/-- From the load of the module on, the assertions of the pools hold exactly as long as
`shinjuku_rpc_get` returns no packet. -/
theorem assertions_hold_iff_no_packet {n : Nat} {mem : Addr → MempoolHdr}
    {stackBase : Addr → Addr} {tr : List BootEvent} {s : Booted}
    (h : Runs (bootMachine n) (fun _ _ => True) (Booted.load mem stackBase) tr s) :
    s.bug = none ↔ ∀ m, .fetched m ∉ tr := by
  have hfated : Fated tr s := by
    apply Runs.invariant (I := Fated) _ _ h
    · exact .inl ⟨rfl, untouched_load mem stackBase, by simp⟩
    · intro tr es s t act hf _ hstep
      exact fated_step hf hstep
  rcases hfated with ⟨hb, -, hm⟩ | ⟨hb, m, hm⟩
  · exact ⟨fun _ => hm, fun _ => hb⟩
  · exact ⟨fun h => absurd h hb, fun h => absurd hm (h m)⟩

/-- Three CPUs, and a packet in the first iteration. -/
def firstPacket : List BootAct :=
  [BootAct.init true] ++ List.replicate 9 (BootAct.disp {}) ++
    [BootAct.disp { packet := 0x8000 }]

def emptyMemory (_ : Addr) : MempoolHdr := {}

theorem firstPacket_runs :
    ∃ tr s, Runs (bootMachine 3) (fun _ _ => True) (Booted.load emptyMemory fun _ => NULL) tr s ∧
      s.bug = some .allocMagic := by
  obtain ⟨tr, s, hrun, hend⟩ := Machine.exec_reaches (bootMachine 3) (fun _ _ => True)
    (Booted.load emptyMemory fun _ => NULL) firstPacket
    (fun _ s => s.bug = some .allocMagic) (by decide)
  exact ⟨tr, s, hrun, by simpa using hend⟩

theorem assertions_hold_iff_no_packet_firstPacket :
    ∃ tr s, Runs (bootMachine 3) (fun _ _ => True) (Booted.load emptyMemory fun _ => NULL) tr s ∧
      s.bug = some .allocMagic ∧ (s.bug = none ↔ ∀ m, .fetched m ∉ tr) := by
  obtain ⟨tr, s, hrun, hbug⟩ := firstPacket_runs
  exact ⟨tr, s, hrun, hbug, assertions_hold_iff_no_packet hrun⟩

/-- The first packet makes `context_alloc` fail the check of `magic`. -/
theorem first_packet_fails_magic :
    ¬ ∀ (n : Nat) (mem : Addr → MempoolHdr) (stackBase : Addr → Addr) (tr : List BootEvent)
      (s : Booted), Runs (bootMachine n) (fun _ _ => True) (Booted.load mem stackBase) tr s →
        s.bug = none := by
  intro hclaim
  obtain ⟨tr, s, hrun, hbug⟩ := firstPacket_runs
  have hnone := hclaim 3 emptyMemory (fun _ => NULL) tr s hrun
  simp [hbug] at hnone

end ThletEvaluation.Shinjuku
