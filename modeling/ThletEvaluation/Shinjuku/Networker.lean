import ThletEvaluation.Shinjuku.Dispatcher

/-!
# The network batch

`handle_networker` as a whole, on the packets that wait in the network queue. A packet is
fetched before the batch counter is tested, so a batch that is used up costs one more.
-/

namespace ThletEvaluation.Shinjuku

set_option autoImplicit false

structure NetworkerResult where
  tskq : List Task
  /-- What is left in the network queue. -/
  pending : List Addr
  events : List Event

/-- The loop; `k` counts the calls of `context_alloc`, whose results are `alloc`. An empty
network queue is the NULL of `shinjuku_rpc_get`. -/
def networkerLoop (curTime : UInt64) (alloc : Nat → Option Addr) :
    Nat → Nat → List Addr → List Task → NetworkerResult
  | _, _, [], q => ⟨q, [], []⟩
  | maxBatch, k, data :: pending, q =>
    let r := networkerRound curTime data (alloc k) maxBatch q
    if r.2.1 then
      let rest := networkerLoop curTime alloc (maxBatch - 1) (k + 1) pending r.1
      { rest with events := r.2.2 ++ rest.events }
    else ⟨r.1, pending, r.2.2⟩

def handleNetworker (curTime : UInt64) (alloc : Nat → Option Addr) (pending : List Addr)
    (q : List Task) : NetworkerResult := networkerLoop curTime alloc MAX_BATCH 0 pending q

/-- The record of a packet in the task queue. -/
def packetTask (curTime : UInt64) (cont data : Addr) : Task :=
  { rnbl := cont, mbuf := data, timestamp := curTime, type := 0, category := .packet }

/-- The records of packets in the order of their arrival, each with the next context. -/
def packetTasks (curTime : UInt64) (cont : Nat → Addr) (packets : List Addr) : List Task :=
  packets.mapIdx fun k data => packetTask curTime (cont k) data

/-- The call has appended exactly the packets that it took from the network queue. -/
def NoPacketLost (curTime : UInt64) (cont : Nat → Addr) (pending : List Addr) (q : List Task)
    (r : NetworkerResult) : Prop :=
  ∃ removed, pending = removed ++ r.pending ∧ r.tskq = q ++ packetTasks curTime cont removed

section Loop
variable {curTime : UInt64} {cont : Nat → Addr} {data : Addr} {maxBatch : Nat}
variable {pending : List Addr} {q : List Task}

theorem networkerRound_batch (c : Addr) (hdata : data ≠ NULL) (hroom : q.length < TSKQ_SIZE) :
    networkerRound curTime data (some c) (maxBatch + 1) q =
      (q ++ [packetTask curTime c data], true, [.enqueue (packetTask curTime c data)]) := by
  simp [networkerRound, hdata, kfifoIn_of_room _ hroom, packetTask]

theorem packetTasks_cons (cont : Nat → Addr) :
    packetTasks curTime cont (data :: pending) =
      packetTask curTime (cont 0) data ::
        packetTasks curTime (fun k => cont (k + 1)) pending := by
  simp [packetTasks, List.mapIdx_cons]

/-- What the loop does when every packet gets a context and a place in the queue. -/
theorem networkerLoop_spec (curTime : UInt64) (cont : Nat → Addr) (k : Nat)
    (hnull : NULL ∉ pending) (hroom : q.length + maxBatch ≤ TSKQ_SIZE) :
    (networkerLoop curTime (fun k => some (cont k)) maxBatch k pending q).tskq =
        q ++ packetTasks curTime (fun j => cont (k + j)) (pending.take maxBatch) ∧
      (networkerLoop curTime (fun k => some (cont k)) maxBatch k pending q).pending =
        pending.drop (maxBatch + 1) := by
  induction pending generalizing maxBatch k q with
  | nil => simp [networkerLoop, packetTasks]
  | cons data pending ih =>
    have hdata : data ≠ NULL := fun heq => hnull (by simp [heq])
    have hrest : NULL ∉ pending := fun hmem => hnull (List.mem_cons_of_mem _ hmem)
    cases maxBatch with
    | zero =>
      -- the packet has left the network queue, and the counter ends the loop
      simp [networkerLoop, networkerRound, hdata, packetTasks]
    | succ maxBatch =>
      have hfirst : q.length < TSKQ_SIZE := by omega
      have hplace : (q ++ [packetTask curTime (cont k) data]).length + maxBatch ≤ TSKQ_SIZE := by
        rw [List.length_append, List.length_singleton]
        omega
      obtain ⟨htskq, hpending⟩ := ih (k + 1) hrest hplace
      simp only [networkerLoop, networkerRound_batch (cont k) hdata hfirst, if_true,
        Nat.add_sub_cancel, htskq, hpending, List.take_succ_cons, List.drop_succ_cons,
        packetTasks_cons, List.append_assoc, List.singleton_append, Nat.add_zero, and_true]
      simp only [Nat.add_assoc, Nat.add_comm 1]

theorem length_packetTasks (packets : List Addr) :
    (packetTasks curTime cont packets).length = packets.length := by
  simp [packetTasks]

end Loop

/-- For every list of pending packets: with a context for each and room for a batch, the call
loses none exactly when they are no more than a batch. -/
theorem networker_loses_none_iff (curTime : UInt64) (cont : Nat → Addr) {pending : List Addr}
    {q : List Task} (hnull : NULL ∉ pending) (hroom : q.length + MAX_BATCH ≤ TSKQ_SIZE) :
    NoPacketLost curTime cont pending q
        (handleNetworker curTime (fun k => some (cont k)) pending q) ↔
      pending.length ≤ MAX_BATCH := by
  obtain ⟨htskq, hpending⟩ := networkerLoop_spec curTime cont 0 hnull hroom
  simp only [NoPacketLost, handleNetworker, htskq, hpending, Nat.zero_add]
  constructor
  · rintro ⟨removed, hsplit, htasks⟩
    have hlen := congrArg List.length htasks
    have hcount := congrArg List.length hsplit
    simp only [List.length_append, length_packetTasks, List.length_take, List.length_drop]
      at hlen hcount
    omega
  · intro hle
    refine ⟨pending, ?_, ?_⟩
    · rw [List.drop_eq_nil_of_le (by omega), List.append_nil]
    · rw [List.take_of_length_le hle]

theorem networker_loses_none_iff_sixteen :
    NULL ∉ List.replicate 16 (0x1000 : Addr) ∧
      ([] : List Task).length + MAX_BATCH ≤ TSKQ_SIZE ∧
      NoPacketLost 7 (fun k => UInt64.ofNat (8 * k + 8)) (List.replicate 16 0x1000) []
        (handleNetworker 7 (fun k => some (UInt64.ofNat (8 * k + 8)))
          (List.replicate 16 0x1000) []) := by
  have hnull : NULL ∉ List.replicate 16 (0x1000 : Addr) := by decide
  have hroom : ([] : List Task).length + MAX_BATCH ≤ TSKQ_SIZE := by decide
  exact ⟨hnull, hroom, (networker_loses_none_iff 7 _ hnull hroom).mpr (by decide)⟩

/-- The seventeenth packet is fetched and forgotten. -/
theorem seventeenth_packet_lost :
    ¬ ∀ (curTime : UInt64) (cont : Nat → Addr) (pending : List Addr) (q : List Task),
      NULL ∉ pending → q.length + MAX_BATCH ≤ TSKQ_SIZE →
        NoPacketLost curTime cont pending q
          (handleNetworker curTime (fun k => some (cont k)) pending q) := by
  intro hclaim
  obtain ⟨removed, hsplit, htasks⟩ := hclaim 7 (fun k => UInt64.ofNat (8 * k + 8))
    (List.replicate 17 0x1000) [] (by decide) (by decide)
  have hstored := congrArg List.length htasks
  have hfetched := congrArg List.length hsplit
  rw [List.nil_append, length_packetTasks] at hstored
  rw [List.length_append, ← hstored] at hfetched
  exact absurd hfetched (by decide)

end ThletEvaluation.Shinjuku
