import ThletEvaluation.Lib.Ring
import ThletEvaluation.Lib.Run
import ThletEvaluation.Linux.Rpc

/-!
# Two queues of RPCs

`rpc.rs`: a server threadlet checks the datagrams it receives and puts them, in turn, into
one of two ring buffers, each of which a worker threadlet empties. What is done under the lock
of a queue is one step. The record of this file has a `timestamp` where `const.h` has an `id`.
-/

namespace ThletEvaluation.Linux

open Bytes Run

set_option autoImplicit false

/-- The packed `Rpc` of `rpc.rs`. -/
structure KvRpc where
  magic : UInt64
  timestamp : UInt64
  rpcType : UInt32
  key : List UInt8
  value : List UInt8
  deriving DecidableEq

def KV_RPC_SIZE : Nat := 8 + 8 + 4 + KEY_SIZE + VALUE_SIZE

def KvRpc.ofBytes (buf : List UInt8) : KvRpc where
  magic := UInt64.ofNat (leNat (buf.take 8))
  timestamp := UInt64.ofNat (leNat ((buf.drop 8).take 8))
  rpcType := UInt32.ofNat (leNat ((buf.drop 16).take 4))
  key := (buf.drop 20).take KEY_SIZE
  value := (buf.drop (20 + KEY_SIZE)).take VALUE_SIZE

def RING_BUFFER_SIZE : Nat := 1024

/-- The size of `buf`, behind which `recvmsg` cuts a datagram off. -/
def BUF_SIZE : Nat := 2048

/-- The RPC of a datagram that is long enough and has the magic number. The record lies in
front of `n`, so nothing of an earlier datagram is read. -/
def validRpc (datagram : List UInt8) : Option KvRpc :=
  let buf := datagram.take BUF_SIZE
  if buf.length < KV_RPC_SIZE then none
  else
    let rpc := KvRpc.ofBytes buf
    if htobe64 rpc.magic ≠ RPC_MAGIC then none else some rpc

structure RpcSys where
  queue : Fin 2 → Ring KvRpc
  rc : Int32
  /-- The server has not met an error of `recvmsg`. -/
  listening : Bool

def RpcSys.init : RpcSys := ⟨fun _ => Ring.new, 0, true⟩

inductive RpcAct where
  | server (datagram : List UInt8)
  | recvError
  | worker (k : Fin 2)

inductive RpcEvent where
  /-- A datagram arrives when the queues hold `held`. -/
  | datagram (d : List UInt8) (held : Fin 2 → Nat)
  | process (k : Fin 2) (rpc : KvRpc)

/-- The queue that `rc` selects. -/
def targetQueue (rc : Int32) : Fin 2 := if rc % 2 = 0 then 0 else 1

def RpcSys.contents (s : RpcSys) (k : Fin 2) : List KvRpc := (s.queue k).contents RING_BUFFER_SIZE

/-- `rc` advances also when the queue is full. -/
def RpcSys.insert (s : RpcSys) (rpc : KvRpc) : RpcSys :=
  let k := targetQueue s.rc
  { s with
    queue := Function.update s.queue k ((s.queue k).push RING_BUFFER_SIZE rpc).1
    rc := s.rc + 1 }

def rpcStep (s : RpcSys) : RpcAct → Option (RpcSys × List RpcEvent)
  | .server d =>
    if s.listening then
      let ev := RpcEvent.datagram d fun k => (s.contents k).length
      match validRpc d with
      | none => some (s, [ev])
      | some rpc => some (s.insert rpc, [ev])
    else none
  | .recvError => if s.listening then some ({ s with listening := false }, []) else none
  | .worker k =>
    let r := (s.queue k).pop RING_BUFFER_SIZE
    some ({ s with queue := Function.update s.queue k r.1 }, r.2.toList.map (.process k))

def rpcMachine : Machine RpcSys RpcAct RpcEvent := ⟨rpcStep⟩

/-- What worker `k` has processed. -/
def processed (k : Fin 2) (tr : List RpcEvent) : List KvRpc :=
  tr.filterMap fun
    | .process j rpc => if j = k then some rpc else none
    | .datagram _ _ => none

/-- The valid datagrams, with the fill of the queues at the arrival of each. -/
def arrivals (tr : List RpcEvent) : List (KvRpc × (Fin 2 → Nat)) :=
  tr.filterMap fun
    | .datagram d held => (validRpc d).map fun rpc => (rpc, held)
    | .process _ _ => none

/-- Every second valid datagram, without those that found their queue full. -/
def delivered (k : Fin 2) (tr : List RpcEvent) : List KvRpc :=
  ((arrivals tr).zipIdx.filter fun a =>
    a.2 % 2 = k.val ∧ a.1.2 k ≠ RING_BUFFER_SIZE - 1).map fun a => a.1.1

structure Delivering (tr : List RpcEvent) (s : RpcSys) : Prop where
  rc : s.rc = Int32.ofNat (arrivals tr).length
  queue : ∀ k, ∃ xs, (s.queue k).Holds RING_BUFFER_SIZE xs ∧
    processed k tr ++ xs = delivered k tr

theorem rc_even_iff (n : Nat) : Int32.ofNat n % 2 = 0 ↔ n % 2 = 0 := by
  have htwo : (2 : Int32).toInt = 2 := rfl
  have hzero : (0 : Int32).toInt = 0 := rfl
  have hrc : (Int32.ofNat n).toInt = (n : Int).bmod Int32.size := Int32.toInt_ofNat
  rw [← Int32.toInt_inj, Int32.toInt_mod, hrc, htwo, hzero, ← Int.dvd_iff_tmod_eq_zero,
    Int.bmod_def, show Int32.size = 4294967296 from rfl]
  split <;> omega

/-- The counter wraps at an even number, so it keeps selecting the queues in turn. -/
theorem targetQueue_ofNat (n : Nat) (k : Fin 2) :
    targetQueue (Int32.ofNat n) = k ↔ n % 2 = k.val := by
  by_cases heven : n % 2 = 0
  · rw [targetQueue, if_pos ((rc_even_iff n).mpr heven), heven]
    exact ⟨fun h => congrArg Fin.val h, fun h => Fin.ext h⟩
  · rw [targetQueue, if_neg (fun h => heven ((rc_even_iff n).mp h)),
      show n % 2 = 1 by omega]
    exact ⟨fun h => congrArg Fin.val h, fun h => Fin.ext h⟩

section Events
variable {tr : List RpcEvent} {d : List UInt8} {held : Fin 2 → Nat} {k : Fin 2}

theorem arrivals_process (es : List KvRpc) (j : Fin 2) :
    arrivals (tr ++ es.map (.process j)) = arrivals tr := by
  simp [arrivals, List.filterMap_map]

theorem delivered_congr {tr' : List RpcEvent} (h : arrivals tr' = arrivals tr) :
    delivered k tr' = delivered k tr := by
  rw [delivered, delivered, h]

theorem arrivals_invalid (h : validRpc d = none) :
    arrivals (tr ++ [.datagram d held]) = arrivals tr := by
  simp [arrivals, h]

theorem arrivals_valid {rpc : KvRpc} (h : validRpc d = some rpc) :
    arrivals (tr ++ [.datagram d held]) = arrivals tr ++ [(rpc, held)] := by
  simp [arrivals, h]

theorem processed_datagram : processed k (tr ++ [.datagram d held]) = processed k tr := by
  simp [processed]

theorem delivered_valid {rpc : KvRpc} (h : validRpc d = some rpc) :
    delivered k (tr ++ [.datagram d held]) = delivered k tr ++
      if (arrivals tr).length % 2 = k.val ∧ held k ≠ RING_BUFFER_SIZE - 1 then [rpc] else [] := by
  rw [delivered, arrivals_valid h, List.zipIdx_append, List.filter_append, List.map_append]
  congr 1
  by_cases hkeep : (arrivals tr).length % 2 = k.val ∧ held k ≠ RING_BUFFER_SIZE - 1
  · simp [hkeep]
  · rw [if_neg hkeep]
    simp only [List.zipIdx_cons, List.zipIdx_nil, Nat.zero_add]
    rw [List.filter_cons_of_neg (by simpa using hkeep), List.filter_nil, List.map_nil]

end Events

section Steps
variable {tr es : List RpcEvent} {s t : RpcSys}

/-- A valid datagram goes to the end of its queue, or nowhere when that is full. -/
theorem delivering_insert {d : List UInt8} {rpc : KvRpc} (h : Delivering tr s)
    (hvalid : validRpc d = some rpc) :
    Delivering (tr ++ [.datagram d fun k => (s.contents k).length]) (s.insert rpc) := by
  have htarget : ∀ k, targetQueue s.rc = k ↔ (arrivals tr).length % 2 = k.val := by
    intro k
    rw [h.rc]
    exact targetQueue_ofNat _ k
  refine ⟨?_, ?_⟩
  · rw [arrivals_valid hvalid, List.length_append, Int32.ofNat_add, ← h.rc]
    rfl
  · intro k
    obtain ⟨xs, hholds, hxs⟩ := h.queue k
    have hheld : (s.contents k).length = xs.length := congrArg List.length hholds.contents_eq
    rw [processed_datagram, delivered_valid hvalid, hheld]
    by_cases hk : targetQueue s.rc = k
    · have hindex := (htarget k).mp hk
      have hqueue : (s.insert rpc).queue k = ((s.queue k).push RING_BUFFER_SIZE rpc).1 := by
        simp [RpcSys.insert, hk]
      rw [hqueue]
      by_cases hfull : xs.length = RING_BUFFER_SIZE - 1
      · rw [hholds.push_full hfull, if_neg (fun hkeep => hkeep.2 hfull), List.append_nil]
        exact ⟨xs, hholds, hxs⟩
      · have hroom := hholds.room
        obtain ⟨r', hpush, hholds'⟩ := hholds.push_room (by omega) rpc
        rw [hpush, if_pos ⟨hindex, hfull⟩, ← hxs, List.append_assoc]
        exact ⟨xs ++ [rpc], hholds', rfl⟩
    · have hqueue : (s.insert rpc).queue k = s.queue k := by
        simp [RpcSys.insert, Ne.symm hk]
      rw [hqueue, if_neg (fun hkeep => hk ((htarget k).mpr hkeep.1)), List.append_nil]
      exact ⟨xs, hholds, hxs⟩

theorem delivering_worker (h : Delivering tr s) (j : Fin 2) :
    let r := (s.queue j).pop RING_BUFFER_SIZE
    Delivering (tr ++ r.2.toList.map (.process j))
      { s with queue := Function.update s.queue j r.1 } := by
  refine ⟨by rw [arrivals_process]; exact h.rc, ?_⟩
  intro k
  obtain ⟨xs, hholds, hxs⟩ := h.queue k
  rw [delivered_congr (arrivals_process _ j)]
  rcases eq_or_ne k j with rfl | hne
  · cases xs with
    | nil =>
      rw [hholds.pop_empty]
      exact ⟨[], by simpa using hholds, by simpa using hxs⟩
    | cons x xs =>
      obtain ⟨r', hpop, hholds'⟩ := hholds.pop_cons
      rw [hpop]
      refine ⟨xs, by simpa using hholds', ?_⟩
      rw [← hxs]
      simp [processed]
  · refine ⟨xs, by simpa [hne] using hholds, ?_⟩
    rw [← hxs]
    simp [processed, List.filterMap_map, hne.symm]

theorem delivering_step {act : RpcAct} (h : Delivering tr s)
    (hstep : rpcStep s act = some (t, es)) : Delivering (tr ++ es) t := by
  cases act with
  | server d =>
    simp only [rpcStep] at hstep
    split at hstep
    · cases hvalid : validRpc d with
      | none =>
        obtain ⟨rfl, rfl⟩ := by simpa [hvalid] using hstep
        refine ⟨by rw [arrivals_invalid hvalid]; exact h.rc, ?_⟩
        intro k
        rw [processed_datagram, delivered_congr (arrivals_invalid hvalid)]
        exact h.queue k
      | some rpc =>
        obtain ⟨rfl, rfl⟩ := by simpa [hvalid] using hstep
        exact delivering_insert h hvalid
    · simp at hstep
  | recvError =>
    simp only [rpcStep] at hstep
    split at hstep
    · obtain ⟨rfl, rfl⟩ := by simpa using hstep
      rw [List.append_nil]
      exact ⟨h.rc, h.queue⟩
    · simp at hstep
  | worker j =>
    obtain ⟨rfl, rfl⟩ := Prod.mk.inj (Option.some.inj hstep)
    exact delivering_worker h j

end Steps

theorem delivering_init : Delivering [] RpcSys.init where
  rc := rfl
  queue := fun _ => ⟨[], Ring.holds_new (by decide), rfl⟩

/-- For every stream of datagrams and every interleaving, what worker `k` has processed
followed by what queue `k` holds is every second valid datagram from number `k` on, without
those that arrived when the queue held `RING_BUFFER_SIZE - 1` entries. -/
theorem rpc_delivery {tr : List RpcEvent} {s : RpcSys}
    (h : Runs rpcMachine (fun _ _ => True) RpcSys.init tr s) (k : Fin 2) :
    processed k tr ++ s.contents k = delivered k tr := by
  have hinv : Delivering tr s := by
    apply Runs.invariant (I := Delivering) delivering_init _ h
    intro tr es s t act hs _ hstep
    exact delivering_step hs hstep
  obtain ⟨xs, hholds, hxs⟩ := hinv.queue k
  rw [RpcSys.contents, hholds.contents_eq, hxs]

/-- A datagram with the magic number whose other bytes are all `b`. -/
def magicDatagram (b : UInt8) : List UInt8 :=
  [0, 0, 0, 0, 0, 0, 0x77, 0x77] ++ List.replicate (KV_RPC_SIZE - 8) b

theorem rpc_delivery_threeDatagrams :
    ∃ tr s, Runs rpcMachine (fun _ _ => True) RpcSys.init tr s ∧
      (processed 0 tr).length = 1 ∧ (s.contents 0).length = 1 ∧ (s.contents 1).length = 1 ∧
      processed 0 tr ++ s.contents 0 = delivered 0 tr := by
  obtain ⟨tr, s, hrun, hend⟩ := Machine.exec_reaches rpcMachine (fun _ _ => True) RpcSys.init
    [.server (magicDatagram 1), .server [0x77], .server (magicDatagram 2), .worker 0, .worker 0,
      .server (magicDatagram 3)]
    (fun tr s => (processed 0 tr).length = 1 ∧ (s.contents 0).length = 1 ∧
      (s.contents 1).length = 1) (by decide +kernel)
  obtain ⟨hprocessed, hzero, hone⟩ := of_decide_eq_true hend
  exact ⟨tr, s, hrun, hprocessed, hzero, hone, rpc_delivery hrun 0⟩

end ThletEvaluation.Linux
