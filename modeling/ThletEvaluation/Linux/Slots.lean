import ThletEvaluation.Linux.Rpc
import ThletEvaluation.Linux.ThreadPool

/-!
# The receive slots of `udpserver`

`main` receives each datagram into the next slot of `global_buffer` and passes a pointer to
the slot to the pool. A pointer is the index of its slot. An index from `MAX_RPC` on is one
behind the array. Between two steps of `main` the workers take theirs.
-/

namespace ThletEvaluation.Linux.ThreadPool

open Run

set_option autoImplicit false

def MAX_RPC : Nat := 100000

/-- `max_rpc`, where `arg` is what `atoi` returns for the argument. -/
def maxRpc (arg : Int32) : Nat := if arg ≤ 0 then MAX_RPC else arg.toInt.toNat

structure SlotSys where
  pool : Pool Nat
  pheader : Nat
  slots : Nat → List UInt8
  /-- The slot that has been filled and whose magic is looked at next. -/
  received : Option Nat

def zeroSlot : List UInt8 := List.replicate RPC_SIZE 0

def SlotSys.init : SlotSys := ⟨Pool.init Nat, 0, fun _ => zeroSlot, none⟩

inductive SlotAct where
  /-- `recvfrom` returns a datagram, or an error. -/
  | recv (datagram : Option (List UInt8))
  | test
  | endLoop
  | pool (act : PoolAct Nat)

inductive SlotEvent where
  | recv (k : Nat) (datagram : List UInt8)
  | pool (e : PoolEvent Nat)
  deriving DecidableEq

/-- The actions of the pool that the receive loop decides on. -/
def receives : PoolAct Nat → Bool
  | .enqueue _ => true
  | .endLoop => true
  | .notify _ => false
  | .main => false
  | .work _ => false
  | .wakeUp _ => false

variable (n max : Nat)

def SlotSys.poolStep (s : SlotSys) (act : PoolAct Nat) : Option (SlotSys × List SlotEvent) :=
  (ThreadPool.poolStep n s.pool act).map fun r =>
    ({ s with pool := r.1 }, r.2.map SlotEvent.pool)

/-- What `recvfrom` leaves of a slot. -/
def fillSlot (slot datagram : List UInt8) : List UInt8 :=
  recvInto slot (datagram.take RPC_SIZE)

def recvStep (s : SlotSys) (datagram : Option (List UInt8)) :
    Option (SlotSys × List SlotEvent) :=
  if s.pool.main = .recv ∧ s.received = none ∧ s.pheader < max then
    match datagram with
    | none => some (s, [])
    | some d => some
      ({ s with
          slots := Function.update s.slots s.pheader (fillSlot (s.slots s.pheader) d)
          pheader := s.pheader + 1
          received := some s.pheader }, [.recv s.pheader d])
  else none

def testStep (s : SlotSys) : Option (SlotSys × List SlotEvent) :=
  match s.received with
  | none => none
  | some k =>
    if htobe64 (rpcMagic (s.slots k)) = RPC_MAGIC then
      SlotSys.poolStep n { s with received := none } (.enqueue k)
    else some ({ s with received := none }, [])

def slotStep (s : SlotSys) : SlotAct → Option (SlotSys × List SlotEvent)
  | .recv datagram => recvStep max s datagram
  | .test => testStep n s
  | .endLoop =>
    if s.received = none ∧ max ≤ s.pheader then s.poolStep n .endLoop else none
  | .pool act => if receives act = true then none else s.poolStep n act

def slotMachine : Machine SlotSys SlotAct SlotEvent := ⟨slotStep n max⟩

/-- The pool has the slot in its queue or a worker has it. -/
def Pool.Holds (s : Pool Nat) (k : Nat) : Prop :=
  k ∈ s.tasks ∨ ∃ w, s.worker w = .popped k ∨ s.worker w = .inHandle k

/-- Everything a step can be. -/
inductive SlotMove (s : SlotSys) : SlotSys → List SlotEvent → Prop where
  | error : SlotMove s s []
  | recv (d : List UInt8) (hfree : s.received = none) (hlt : s.pheader < max) :
      SlotMove s
        { s with
          slots := Function.update s.slots s.pheader (fillSlot (s.slots s.pheader) d)
          pheader := s.pheader + 1
          received := some s.pheader } [.recv s.pheader d]
  | skip {k : Nat} (h : s.received = some k) : SlotMove s { s with received := none } []
  | enqueue {k : Nat} (h : s.received = some k) :
      SlotMove s
        { s with
          received := none
          pool := { s.pool with tasks := s.pool.tasks ++ [k], main := .notifyOne } }
        [.pool (.enqueue k)]
  | pool {p : Pool Nat} {es : List (PoolEvent Nat)} (hquiet : ∀ k, .enqueue k ∉ es)
      (hholds : ∀ k, p.Holds k → s.pool.Holds k) :
      SlotMove s { s with pool := p } (es.map SlotEvent.pool)

section Inversion
variable {n max} {s t : SlotSys} {p q : Pool Nat} {es : List (PoolEvent Nat)}

theorem setWorker_has {w v k : Nat} {pc : WorkerPc Nat}
    (h : (p.setWorker w pc).worker v = .popped k ∨ (p.setWorker w pc).worker v = .inHandle k) :
    (∃ v, p.worker v = .popped k ∨ p.worker v = .inHandle k) ∨
      pc = .popped k ∨ pc = .inHandle k := by
  by_cases hv : v = w
  · subst hv
    simp only [Pool.setWorker, Function.update_self] at h
    exact .inr h
  · simp only [Pool.setWorker, Function.update_of_ne hv] at h
    exact .inl ⟨v, h⟩

theorem workerMove_has {w k : Nat} {pc : WorkerPc Nat} (h : WorkerMove p w pc es)
    (hpc : pc = .popped k ∨ pc = .inHandle k) : p.worker w = .popped k := by
  cases h with
  | wait | exit | wake | leave | again => simp at hpc
  | enter hw =>
    obtain rfl : _ = k := by simpa using hpc
    exact hw

/-- The pool comes to a slot by `enqueue` only. -/
theorem poolMove_holds {act : PoolAct Nat} (h : PoolMove n p act q es) {k : Nat}
    (hk : q.Holds k) : p.Holds k ∨ .enqueue k ∈ es := by
  cases h with
  | enqueue rpc hmain =>
    rcases hk with hk | hk
    · rcases List.mem_append.mp hk with hk | hk
      · exact .inl (.inl hk)
      · right
        simpa using hk
    · exact .inl (.inr hk)
  | main hm => exact .inl hk
  | destroy hm => exact .inl hk
  | setStop hm => exact .inl hk
  | notifyAll hm =>
    left
    rcases hk with hk | ⟨w, hk⟩
    · exact .inl hk
    · refine .inr ⟨w, ?_⟩
      cases hw : p.worker w <;> simp_all [WorkerPc.woken]
  | pop hw hr htasks =>
    left
    rcases hk with hk | ⟨v, hk⟩
    · exact .inl (by rw [htasks]; exact List.mem_cons_of_mem _ hk)
    · rcases setWorker_has hk with hk | hk
      · exact .inr hk
      · obtain rfl : _ = k := by simpa using hk
        exact .inl (by rw [htasks]; exact List.mem_cons_self)
  | worker hw hm =>
    left
    rcases hk with hk | ⟨v, hk⟩
    · exact .inl hk
    · rcases setWorker_has hk with hk | hk
      · exact .inr hk
      · exact .inr ⟨_, .inl (workerMove_has hm hk)⟩
  | wakeOne hw hm hmain =>
    left
    rcases hk with hk | ⟨v, hk⟩
    · exact .inl hk
    · rcases setWorker_has hk with hk | hk
      · exact .inr hk
      · simp at hk

/-- Apart from the receive loop, nothing puts a slot into the queue. -/
theorem poolStep_quiet {act : PoolAct Nat} (hact : receives act = false)
    (h : ThreadPool.poolStep n p act = some (q, es)) (k : Nat) : .enqueue k ∉ es := by
  cases act with
  | enqueue rpc | endLoop => simp [receives] at hact
  | notify w =>
    simp only [ThreadPool.poolStep] at h
    split at h <;> grind
  | main =>
    simp only [ThreadPool.poolStep, mainStep] at h
    split at h <;> grind
  | work w =>
    simp only [ThreadPool.poolStep, workStep] at h
    split at h <;> grind
  | wakeUp w =>
    simp only [ThreadPool.poolStep] at h
    split at h <;> grind

theorem slotPoolStep_cases {act : PoolAct Nat} {evs : List SlotEvent}
    (h : s.poolStep n act = some (t, evs)) :
    ∃ q es, ThreadPool.poolStep n s.pool act = some (q, es) ∧ t = { s with pool := q } ∧
      evs = es.map SlotEvent.pool := by
  obtain ⟨⟨q, es⟩, hstep, heq⟩ := Option.map_eq_some_iff.mp h
  obtain ⟨rfl, rfl⟩ := Prod.mk.inj heq
  exact ⟨q, es, hstep, rfl, rfl⟩

theorem slotStep_cases {act : SlotAct} {evs : List SlotEvent}
    (h : slotStep n max s act = some (t, evs)) : SlotMove max s t evs := by
  cases act with
  | recv datagram =>
    simp only [slotStep, recvStep] at h
    split at h
    next hready =>
      cases datagram with
      | none =>
        obtain ⟨rfl, rfl⟩ := by simpa using h
        exact .error
      | some d =>
        obtain ⟨rfl, rfl⟩ := by simpa using h
        exact .recv d hready.2.1 hready.2.2
    · simp at h
  | test =>
    simp only [slotStep, testStep] at h
    cases hk : s.received with
    | none => simp [hk] at h
    | some k =>
      simp only [hk] at h
      split at h
      · obtain ⟨q, es, hstep, rfl, rfl⟩ := slotPoolStep_cases h
        simp only [ThreadPool.poolStep] at hstep
        split at hstep
        · obtain ⟨rfl, rfl⟩ := by simpa using hstep
          exact .enqueue hk
        · simp at hstep
      · obtain ⟨rfl, rfl⟩ := by simpa using h
        exact .skip hk
  | endLoop =>
    simp only [slotStep] at h
    split at h
    · obtain ⟨q, es, hstep, rfl, rfl⟩ := slotPoolStep_cases h
      simp only [ThreadPool.poolStep] at hstep
      split at hstep
      · obtain ⟨rfl, rfl⟩ := by simpa using hstep
        exact .pool (by simp) fun _ hk => hk
      · simp at hstep
    · simp at h
  | pool act =>
    simp only [slotStep] at h
    split at h
    · simp at h
    next hact =>
      obtain ⟨q, es, hstep, rfl, rfl⟩ := slotPoolStep_cases h
      have hquiet := poolStep_quiet (by simpa using hact) hstep
      refine .pool hquiet fun k hk => ?_
      rcases poolMove_holds (poolStep_cases hstep) hk with hk | hk
      · exact hk
      · exact absurd hk (hquiet k)

end Inversion

/-- After a slot has been enqueued, it is neither enqueued nor written again. -/
def Later (e e' : SlotEvent) : Prop :=
  ∀ k, e = .pool (.enqueue k) → e' ≠ .pool (.enqueue k) ∧ ∀ d, e' ≠ .recv k d

structure SlotInv (tr : List SlotEvent) (s : SlotSys) : Prop where
  bound : s.pheader ≤ max
  filled : ∀ k, k < s.pheader → ∃ d, .recv k d ∈ tr
  written : ∀ k d, .recv k d ∈ tr → k < s.pheader ∧ s.slots k = fillSlot zeroSlot d
  fresh : ∀ k, s.pheader ≤ k → s.slots k = zeroSlot
  pending : ∀ k, s.received = some k → k < s.pheader
  handed : ∀ k, .pool (.enqueue k) ∈ tr → k < s.pheader ∧ s.received ≠ some k
  holds : ∀ k, s.pool.Holds k → .pool (.enqueue k) ∈ tr
  order : tr.Pairwise Later

section Invariant
variable {n max} {s t : SlotSys} {tr evs : List SlotEvent}

theorem slotInv_init : SlotInv max [] SlotSys.init where
  bound := Nat.zero_le _
  filled := by simp [SlotSys.init]
  written := by simp
  fresh := by simp [SlotSys.init]
  pending := by simp [SlotSys.init]
  handed := by simp
  holds := by simp [SlotSys.init, Pool.init, Pool.Holds]
  order := .nil

theorem order_append_singleton (h : tr.Pairwise Later) {e' : SlotEvent}
    (he : ∀ k, .pool (.enqueue k) ∈ tr → e' ≠ .pool (.enqueue k) ∧ ∀ d, e' ≠ .recv k d) :
    (tr ++ [e']).Pairwise Later := by
  apply List.pairwise_append.mpr
  refine ⟨h, List.pairwise_singleton _ _, ?_⟩
  intro e hmem e'' he'' k hk
  obtain rfl := List.mem_singleton.mp he''
  exact he k (hk ▸ hmem)

theorem SlotInv.recv (h : SlotInv max tr s) (d : List UInt8) (hlt : s.pheader < max) :
    SlotInv max (tr ++ [SlotEvent.recv s.pheader d])
      { s with
        slots := Function.update s.slots s.pheader (fillSlot (s.slots s.pheader) d)
        pheader := s.pheader + 1
        received := some s.pheader } := by
  have hslot : ∀ k, k ≠ s.pheader →
      Function.update s.slots s.pheader (fillSlot (s.slots s.pheader) d) k = s.slots k :=
    fun k hk => Function.update_of_ne hk _ _
  constructor
  · exact hlt
  · intro k hk
    by_cases hkp : k = s.pheader
    · exact ⟨d, by simp [hkp]⟩
    · obtain ⟨d', hd'⟩ := h.filled k (by simp only at hk; omega)
      exact ⟨d', List.mem_append_left _ hd'⟩
  · intro k d' hmem
    rcases List.mem_append.mp hmem with hmem | hmem
    · obtain ⟨hk, hs⟩ := h.written k d' hmem
      exact ⟨by simp only; omega, (hslot k (by omega)).trans hs⟩
    · obtain ⟨rfl, rfl⟩ := by simpa using hmem
      refine ⟨Nat.lt_succ_self _, ?_⟩
      simp only [Function.update_self]
      rw [h.fresh s.pheader (Nat.le_refl _)]
  · intro k hk
    simp only at hk ⊢
    rw [hslot k (by omega)]
    exact h.fresh k (by omega)
  · intro k hk
    obtain rfl := Option.some.inj hk
    exact Nat.lt_succ_self _
  · intro k hmem
    have hk := (h.handed k (by simpa using hmem)).1
    refine ⟨by simp only; omega, ?_⟩
    simp only [ne_eq, Option.some.injEq]
    omega
  · intro k hk
    exact List.mem_append_left _ (h.holds k hk)
  · apply order_append_singleton h.order
    intro k hmem
    have hk := (h.handed k hmem).1
    refine ⟨by simp, fun d' heq => ?_⟩
    have hkp : s.pheader = k := (SlotEvent.recv.inj heq).1
    omega

theorem SlotInv.skip (h : SlotInv max tr s) : SlotInv max tr { s with received := none } where
  bound := h.bound
  filled := h.filled
  written := h.written
  fresh := h.fresh
  pending := by simp
  handed := fun k hk => ⟨(h.handed k hk).1, by simp⟩
  holds := h.holds
  order := h.order

theorem SlotInv.enqueue (h : SlotInv max tr s) {k : Nat} (hk : s.received = some k) :
    SlotInv max (tr ++ [SlotEvent.pool (.enqueue k)])
      { s with
        received := none
        pool := { s.pool with tasks := s.pool.tasks ++ [k], main := .notifyOne } } := by
  constructor
  · exact h.bound
  · intro j hj
    obtain ⟨d, hd⟩ := h.filled j hj
    exact ⟨d, List.mem_append_left _ hd⟩
  · intro j d hmem
    exact h.written j d (by simpa using hmem)
  · exact h.fresh
  · intro j hj
    simp at hj
  · intro j hmem
    rcases List.mem_append.mp hmem with hmem | hmem
    · exact ⟨(h.handed j hmem).1, by simp⟩
    · obtain rfl : j = k := by simpa using hmem
      exact ⟨h.pending j hk, by simp⟩
  · intro j hj
    rcases hj with hj | hj
    · rcases List.mem_append.mp hj with hj | hj
      · exact List.mem_append_left _ (h.holds j (.inl hj))
      · obtain rfl := List.mem_singleton.mp hj
        simp
    · exact List.mem_append_left _ (h.holds j (.inr hj))
  · apply order_append_singleton h.order
    intro j hmem
    refine ⟨fun heq => ?_, by simp⟩
    obtain rfl : k = j := by simpa using heq
    exact (h.handed k hmem).2 hk

theorem SlotInv.pool (h : SlotInv max tr s) {p : Pool Nat} {es : List (PoolEvent Nat)}
    (hquiet : ∀ k, .enqueue k ∉ es) (hholds : ∀ k, p.Holds k → s.pool.Holds k) :
    SlotInv max (tr ++ es.map SlotEvent.pool) { s with pool := p } := by
  have henqueue : ∀ k, SlotEvent.pool (.enqueue k) ∉ es.map SlotEvent.pool := by
    intro k hmem
    obtain ⟨e, he, heq⟩ := List.mem_map.mp hmem
    obtain rfl := SlotEvent.pool.inj heq
    exact hquiet k he
  have hrecv : ∀ k d, SlotEvent.recv k d ∉ es.map SlotEvent.pool := by simp
  constructor
  · exact h.bound
  · intro k hk
    obtain ⟨d, hd⟩ := h.filled k hk
    exact ⟨d, List.mem_append_left _ hd⟩
  · intro k d hmem
    rcases List.mem_append.mp hmem with hmem | hmem
    · exact h.written k d hmem
    · exact absurd hmem (hrecv k d)
  · exact h.fresh
  · exact h.pending
  · intro k hmem
    rcases List.mem_append.mp hmem with hmem | hmem
    · exact h.handed k hmem
    · exact absurd hmem (henqueue k)
  · intro k hk
    exact List.mem_append_left _ (h.holds k (hholds k hk))
  · apply List.pairwise_append.mpr
    have hlater : ∀ e, ∀ e' ∈ es.map SlotEvent.pool, Later e e' := by
      intro e e' he' k _
      refine ⟨fun heq => henqueue k (heq ▸ he'), fun d heq => hrecv k d (heq ▸ he')⟩
    exact ⟨h.order, List.pairwise_of_forall_mem_list fun e _ e' he' => hlater e e' he',
      fun e _ e' he' => hlater e e' he'⟩

theorem SlotInv.step (h : SlotInv max tr s) {act : SlotAct}
    (hstep : slotStep n max s act = some (t, evs)) : SlotInv max (tr ++ evs) t := by
  cases slotStep_cases hstep with
  | error => simpa using h
  | recv d hfree hlt => exact h.recv d hlt
  | skip hk => simpa using h.skip
  | enqueue hk => exact h.enqueue hk
  | pool hquiet hholds => exact h.pool hquiet hholds

theorem slotInv_of_runs (h : Runs (slotMachine n max) (fun _ _ => True) SlotSys.init tr s) :
    SlotInv max tr s :=
  Runs.invariant slotInv_init (fun hinv _ hstep => hinv.step hstep) h

end Invariant

/-- What the pool gets are slots of the array that are nobody else's, and a worker that
handles an RPC finds the datagram in its slot. -/
structure SlotsPrivate (tr : List SlotEvent) (s : SlotSys) : Prop where
  inArray : ∀ k, .pool (.enqueue k) ∈ tr → k < MAX_RPC
  order : tr.Pairwise Later
  handled : ∀ w k, s.pool.worker w = .inHandle k →
    ∃ d, .recv k d ∈ tr ∧ s.slots k = fillSlot zeroSlot d

section Private
variable {n max} {s : SlotSys} {tr : List SlotEvent}

theorem SlotInv.slotsPrivate (h : SlotInv max tr s) (hmax : max ≤ MAX_RPC) :
    SlotsPrivate tr s where
  inArray := by
    intro k hk
    have hlt := (h.handed k hk).1
    have hbound := h.bound
    omega
  order := h.order
  handled := by
    intro w k hw
    have hk := (h.handed k (h.holds k (.inr ⟨w, .inr hw⟩))).1
    obtain ⟨d, hd⟩ := h.filled k hk
    exact ⟨d, hd, (h.written k d hd).2⟩

/-- After `j` empty datagrams. -/
def SlotSys.passed (j : Nat) : SlotSys := { SlotSys.init with pheader := j }

theorem runs_passed {j : Nat} (hj : j ≤ max) :
    ∃ tr, Runs (slotMachine n max) (fun _ _ => True) SlotSys.init tr (SlotSys.passed j) := by
  induction j with
  | zero => exact ⟨[], .start⟩
  | succ j ih =>
    obtain ⟨tr, hrun⟩ := ih (by omega)
    have hzero : fillSlot zeroSlot [] = zeroSlot := rfl
    have hrecv : (slotMachine n max).step (SlotSys.passed j) (.recv (some [])) =
        some ({ SlotSys.passed (j + 1) with received := some j }, [.recv j []]) := by
      have hlt : j < max := by omega
      simp [slotMachine, slotStep, recvStep, SlotSys.passed, SlotSys.init, Pool.init, hlt, hzero]
    have hmagic : htobe64 (rpcMagic zeroSlot) ≠ RPC_MAGIC := by decide
    have htest : (slotMachine n max).step { SlotSys.passed (j + 1) with received := some j }
        .test = some (SlotSys.passed (j + 1), []) := by
      simp [slotMachine, slotStep, testStep, SlotSys.passed, SlotSys.init, hmagic]
    exact ⟨_, (hrun.next trivial hrecv).next trivial htest⟩

/-- A datagram that is the magic alone. -/
def magicDatagram : List UInt8 := Bytes.leBytes 8 (htobe64 RPC_MAGIC).toNat

/-- With a larger count, the slot behind the array is enqueued sooner or later. -/
theorem runs_overrun (hmax : MAX_RPC < max) :
    ∃ tr s, Runs (slotMachine n max) (fun _ _ => True) SlotSys.init tr s ∧
      .pool (.enqueue MAX_RPC) ∈ tr := by
  obtain ⟨tr, hrun⟩ := runs_passed (n := n) (Nat.le_of_lt hmax)
  have hmagic : htobe64 (rpcMagic (fillSlot zeroSlot magicDatagram)) = RPC_MAGIC := by
    decide +kernel
  have hrecv : (slotMachine n max).step (SlotSys.passed MAX_RPC) (.recv (some magicDatagram)) =
      some ({ SlotSys.passed (MAX_RPC + 1) with
        slots := Function.update (fun _ => zeroSlot) MAX_RPC (fillSlot zeroSlot magicDatagram)
        received := some MAX_RPC }, [.recv MAX_RPC magicDatagram]) := by
    simp [slotMachine, slotStep, recvStep, SlotSys.passed, SlotSys.init, Pool.init, hmax]
  obtain ⟨t, htest⟩ : ∃ t, (slotMachine n max).step
      { SlotSys.passed (MAX_RPC + 1) with
        slots := Function.update (fun _ => zeroSlot) MAX_RPC (fillSlot zeroSlot magicDatagram)
        received := some MAX_RPC } .test = some (t, [.pool (.enqueue MAX_RPC)]) := by
    simp [slotMachine, slotStep, testStep, SlotSys.poolStep, poolStep, SlotSys.passed,
      SlotSys.init, Pool.init, hmagic]
  exact ⟨_, t, (hrun.next trivial hrecv).next trivial htest, by simp⟩

end Private

theorem maxRpc_le_iff (arg : Int32) : maxRpc arg ≤ MAX_RPC ↔ arg.toInt ≤ MAX_RPC := by
  unfold maxRpc
  split
  next h =>
    have hneg : arg.toInt ≤ 0 := Int32.le_iff_toInt_le.mp h
    constructor
    · intro _
      omega
    · intro _
      exact Nat.le_refl _
  · omega

/-- In every run the slots are private, exactly if the argument is at most `MAX_RPC`. -/
theorem slotsPrivate_iff (n : Nat) (arg : Int32) :
    (∀ tr s, Runs (slotMachine n (maxRpc arg)) (fun _ _ => True) SlotSys.init tr s →
      SlotsPrivate tr s) ↔ arg.toInt ≤ MAX_RPC := by
  rw [← maxRpc_le_iff]
  constructor
  · intro h
    by_contra hmax
    obtain ⟨tr, s, hrun, hmem⟩ := runs_overrun (n := n) (Nat.lt_of_not_le hmax)
    exact Nat.lt_irrefl _ ((h tr s hrun).inArray _ hmem)
  · intro hmax tr s hrun
    exact (slotInv_of_runs hrun).slotsPrivate hmax

/-- `./server 100001`. -/
theorem slots_overrun : ∃ tr s,
    Runs (slotMachine 8 (maxRpc 100001)) (fun _ _ => True) SlotSys.init tr s ∧
      ¬ SlotsPrivate tr s := by
  have hmax : MAX_RPC < maxRpc 100001 := by decide
  obtain ⟨tr, s, hrun, hmem⟩ := runs_overrun (n := 8) hmax
  exact ⟨tr, s, hrun, fun h => Nat.lt_irrefl _ (h.inArray _ hmem)⟩

end ThletEvaluation.Linux.ThreadPool
