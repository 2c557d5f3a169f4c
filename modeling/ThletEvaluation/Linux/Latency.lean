import Mathlib.Algebra.Order.Field.Rat
import Mathlib.Tactic.NormNum
import Mathlib.Tactic.Positivity
import Mathlib.Tactic.Ring
import ThletEvaluation.Lib.Sort

/-!
# The latencies of the UDP client

`test_send.c` keeps one record for each request, in an array that `calloc` has zeroed. The
receive thread fills in the latency of a response. The statistics sort the whole array by
latency and read it at ranks that are computed from the number of responses.
-/

namespace ThletEvaluation.Linux

open Sorting

set_option autoImplicit false

structure Timespec where
  tvSec : Int
  tvNsec : Int
  deriving DecidableEq

structure LatencyRecord where
  sendTime : Timespec
  recvTime : Timespec
  latencyMs : ℚ
  received : Bool
  deriving DecidableEq

def getElapsedMs (start stop : Timespec) : ℚ :=
  ((stop.tvSec - start.tvSec : Int) : ℚ) * 1000 +
    ((stop.tvNsec - start.tvNsec : Int) : ℚ) / 1000000

/-- The record of a response that comes in at `now`. -/
def LatencyRecord.receive (r : LatencyRecord) (now : Timespec) : LatencyRecord :=
  { r with recvTime := now, latencyMs := getElapsedMs r.sendTime now, received := true }

def LatencyRecord.send (r : LatencyRecord) (now : Timespec) : LatencyRecord :=
  { r with sendTime := now }

def calloc (maxRpc : Nat) : List LatencyRecord :=
  List.replicate maxRpc ⟨⟨0, 0⟩, ⟨0, 0⟩, 0, false⟩

/-- One request sent by `main` or one response taken by `receive_thread`, with the reading of
the clock that goes with it. -/
inductive ClientEvent where
  | send (i : Nat) (now : Timespec)
  | response (id : UInt32) (now : Timespec)

def ClientEvent.now : ClientEvent → Timespec
  | .send _ now => now
  | .response _ now => now

/-- The array has `g_max_rpc` records. -/
def clientStep (records : List LatencyRecord) : ClientEvent → List LatencyRecord
  | .send i now => records.modify i (·.send now)
  | .response id now =>
    if id.toNat < records.length then records.modify id.toNat (·.receive now) else records

def compareLatency (a b : LatencyRecord) : Int :=
  let diff := a.latencyMs - b.latencyMs
  (if diff > 0 then 1 else 0) - (if diff < 0 then 1 else 0)

def receivedCount (records : List LatencyRecord) : Nat := records.countP (·.received)

/-- `(int)(received_count * q)` for `q` percent. -/
def rank (count q : Nat) : Nat := count * q / 100

/-- The value printed for `q` percent from the sorted array. -/
def percentile (count : Nat) (sorted : List LatencyRecord) (q : Nat) : Option ℚ :=
  sorted[rank count q]?.map (·.latencyMs)

/-- The percentages of the three lines that are printed. -/
def percentages : List Nat := [50, 90, 99]

section Records

def Timespec.toNs (t : Timespec) : Int := t.tvSec * 1000000000 + t.tvNsec

theorem getElapsedMs_eq (start stop : Timespec) :
    getElapsedMs start stop = ((stop.toNs - start.toNs : Int) : ℚ) / 1000000 := by
  unfold getElapsedMs Timespec.toNs
  push_cast
  ring

/-- What a record can look like: a latency is never negative, and it is 0 without a
response. -/
structure LatencyRecord.Valid (r : LatencyRecord) : Prop where
  nonneg : 0 ≤ r.latencyMs
  lost : r.received = false → r.latencyMs = 0

/-- The records at the reading `t` of the clock. -/
def RecordsAt (t : Int) (records : List LatencyRecord) : Prop :=
  ∀ r ∈ records, r.Valid ∧ r.sendTime.toNs ≤ t

variable {records : List LatencyRecord} {t : Int}

theorem recordsAt_calloc (maxRpc : Nat) : RecordsAt 0 (calloc maxRpc) := by
  intro r hr
  obtain rfl := List.eq_of_mem_replicate hr
  exact ⟨⟨le_refl _, fun _ => rfl⟩, by simp [Timespec.toNs]⟩

theorem RecordsAt.modify (h : RecordsAt t records) {now : Timespec} (hnow : t ≤ now.toNs)
    (f : LatencyRecord → LatencyRecord) (i : Nat)
    (hf : ∀ r, r.Valid → r.sendTime.toNs ≤ now.toNs →
      (f r).Valid ∧ (f r).sendTime.toNs ≤ now.toNs) :
    RecordsAt now.toNs (records.modify i f) := by
  intro r hr
  obtain ⟨j, hj⟩ := List.mem_iff_getElem?.mp hr
  rw [List.getElem?_modify] at hj
  obtain ⟨r', hr', rfl⟩ := Option.map_eq_some_iff.mp hj
  obtain ⟨hvalid, hsent⟩ := h r' (List.mem_of_getElem? hr')
  have hsent' : r'.sendTime.toNs ≤ now.toNs := hsent.trans hnow
  split
  · exact hf r' hvalid hsent'
  · exact ⟨hvalid, hsent'⟩

theorem RecordsAt.step (h : RecordsAt t records) (e : ClientEvent) (hnow : t ≤ e.now.toNs) :
    RecordsAt e.now.toNs (clientStep records e) := by
  cases e with
  | send i now =>
    apply h.modify hnow
    intro r hr _
    exact ⟨⟨hr.nonneg, hr.lost⟩, le_refl _⟩
  | response id now =>
    simp only [clientStep]
    split
    · apply h.modify hnow
      intro r _ hsent
      refine ⟨⟨?_, by simp [LatencyRecord.receive]⟩, hsent⟩
      have hdiff : 0 ≤ now.toNs - r.sendTime.toNs := by
        simp only [ClientEvent.now] at hsent
        omega
      simp only [LatencyRecord.receive, getElapsedMs_eq]
      positivity
    · intro r hr
      exact ⟨(h r hr).1, (h r hr).2.trans hnow⟩

/-- Whatever is sent and received, in any order, under a clock that does not go back. -/
theorem recordsAt_run (maxRpc : Nat) (events : List ClientEvent)
    (hclock : (0 :: events.map (·.now.toNs)).IsChain (· ≤ ·)) :
    ∀ r ∈ events.foldl clientStep (calloc maxRpc), r.Valid := by
  suffices h : ∀ (t : Int) (records : List LatencyRecord), RecordsAt t records →
      (t :: events.map (·.now.toNs)).IsChain (· ≤ ·) →
      ∀ r ∈ events.foldl clientStep records, r.Valid from
    h 0 _ (recordsAt_calloc maxRpc) hclock
  clear hclock
  induction events with
  | nil =>
    intro t records h _ r hr
    exact (h r hr).1
  | cons e es ih =>
    intro t records h hclock
    rw [List.map_cons, List.isChain_cons_cons] at hclock
    exact ih e.now.toNs _ (h.step e hclock.1) hclock.2

end Records

section Percentiles
variable {records sorted : List LatencyRecord}

def lostCount (records : List LatencyRecord) : Nat := records.length - receivedCount records

/-- The latencies of the responses alone, in order. -/
def receivedLatencies (records : List LatencyRecord) : List ℚ :=
  ((records.filter (·.received)).map (·.latencyMs)).mergeSort (· ≤ ·)

theorem compareLatency_nonpos_iff (a b : LatencyRecord) :
    compareLatency a b ≤ 0 ↔ a.latencyMs ≤ b.latencyMs := by
  simp only [compareLatency, gt_iff_lt, sub_pos, sub_neg]
  rcases lt_trichotomy a.latencyMs b.latencyMs with h | h | h
  · simp [h, h.le, h.not_gt]
  · simp [h]
  · simp [h, h.not_gt]

theorem receivedLatencies_sorted : (receivedLatencies records).Pairwise (· ≤ ·) :=
  List.pairwise_mergeSort' _ _

theorem receivedLatencies_length : (receivedLatencies records).length = receivedCount records := by
  simp [receivedLatencies, receivedCount, List.countP_eq_length_filter]

theorem lost_latencies (hvalid : ∀ r ∈ records, r.Valid) :
    (records.filter (!·.received)).map (·.latencyMs) =
      List.replicate (lostCount records) 0 := by
  apply List.eq_replicate_iff.mpr
  constructor
  · have h := List.length_eq_countP_add_countP (l := records) fun r => r.received
    simp only [List.length_map, lostCount, receivedCount, ← List.countP_eq_length_filter]
    simp only [Bool.not_eq_true, Bool.decide_eq_false] at h
    omega
  · intro x hx
    obtain ⟨r, hr, rfl⟩ := List.mem_map.mp hx
    obtain ⟨hmem, hlost⟩ := List.mem_filter.mp hr
    exact (hvalid r hmem).lost (by simpa using hlost)

/-- The records without a response come first, since their latency is 0. -/
theorem sorted_latencies (hvalid : ∀ r ∈ records, r.Valid)
    (h : Sorts compareLatency records sorted) :
    sorted.map (·.latencyMs) =
      List.replicate (lostCount records) 0 ++ receivedLatencies records := by
  apply h.map_key_eq (fun a b => (compareLatency_nonpos_iff a b).mp)
  · rw [← lost_latencies hvalid]
    have hrecv : (receivedLatencies records).Perm
        ((records.filter (·.received)).map (·.latencyMs)) := List.mergeSort_perm _ _
    have hsplit := (List.filter_append_perm (·.received) records).map (·.latencyMs)
    rw [List.map_append] at hsplit
    exact (List.perm_append_comm.trans (hrecv.append_right _)).trans hsplit
  · rw [List.pairwise_append]
    refine ⟨List.pairwise_replicate.mpr (.inr (le_refl _)), receivedLatencies_sorted, ?_⟩
    intro x hx y hy
    obtain rfl := List.eq_of_mem_replicate hx
    obtain ⟨r, hr, rfl⟩ := List.mem_map.mp (List.mem_mergeSort.mp hy)
    exact (hvalid r (List.mem_of_mem_filter hr)).nonneg

theorem percentile_eq (hvalid : ∀ r ∈ records, r.Valid)
    (h : Sorts compareLatency records sorted) (count q : Nat) :
    percentile count sorted q =
      if rank count q < lostCount records then some 0
      else (receivedLatencies records)[rank count q - lostCount records]? := by
  unfold percentile
  rw [← List.getElem?_map, sorted_latencies hvalid h, List.getElem?_append]
  simp only [List.length_replicate, List.getElem?_replicate]
  split
  · rfl
  · rfl

theorem rank_lt {count q : Nat} (hcount : 0 < count) (hq : q ∈ percentages) :
    rank count q < count := by
  have hq' : q ≤ 99 := by
    simp only [percentages, List.mem_cons, List.not_mem_nil, or_false] at hq
    omega
  unfold rank
  have hmul : count * q ≤ count * 99 := Nat.mul_le_mul_left count hq'
  omega

/-- The response of rank `k` has the latency of the record at position `k` when `lost`
zeros stand in front. -/
def TiesAt (lost : Nat) (latencies : List ℚ) (k : Nat) : Prop :=
  latencies[k]? = if k < lost then some 0 else latencies[k - lost]?

/-- Each printed value is the percentile of the responses exactly when no response is lost, or
when at each of the three ranks the lost ones make no difference. -/
theorem percentiles_of_received_iff (hvalid : ∀ r ∈ records, r.Valid)
    (h : Sorts compareLatency records sorted) (hcount : 0 < receivedCount records) :
    (∀ q ∈ percentages, ∃ v, percentile (receivedCount records) sorted q = some v ∧
      (receivedLatencies records)[rank (receivedCount records) q]? = some v) ↔
    lostCount records = 0 ∨ ∀ q ∈ percentages,
      TiesAt (lostCount records) (receivedLatencies records) (rank (receivedCount records) q) := by
  constructor
  · intro hp
    right
    intro q hq
    obtain ⟨v, hv, hr⟩ := hp q hq
    rw [percentile_eq hvalid h] at hv
    rw [TiesAt, hr, hv]
  · intro hcond q hq
    have hrank : rank (receivedCount records) q < (receivedLatencies records).length := by
      rw [receivedLatencies_length]
      exact rank_lt hcount hq
    refine ⟨_, ?_, List.getElem?_eq_getElem hrank⟩
    rw [percentile_eq hvalid h, ← List.getElem?_eq_getElem hrank]
    rcases hcond with hlost | hties
    · simp [hlost]
    · exact (hties q hq).symm

/-- A record as the statistics see it. -/
def recordOf (latencyMs : ℚ) (received : Bool) : LatencyRecord :=
  ⟨⟨0, 0⟩, ⟨0, 0⟩, latencyMs, received⟩

/-- One of five requests has no response, and the three ranks fall on responses with the same
latency as the one before. -/
def lossyRecords : List LatencyRecord :=
  [recordOf 5 true, recordOf 0 false, recordOf 3 true, recordOf 5 true, recordOf 5 true]

def lossySorted : List LatencyRecord :=
  [recordOf 0 false, recordOf 3 true, recordOf 5 true, recordOf 5 true, recordOf 5 true]

theorem lossy_valid : ∀ r ∈ lossyRecords, r.Valid := by
  intro r hr
  have hcases : r = recordOf 5 true ∨ r = recordOf 0 false ∨ r = recordOf 3 true := by
    simp only [lossyRecords, List.mem_cons, List.not_mem_nil, or_false] at hr
    tauto
  rcases hcases with rfl | rfl | rfl
  · exact ⟨by norm_num [recordOf], by simp [recordOf]⟩
  · exact ⟨le_refl _, fun _ => rfl⟩
  · exact ⟨by norm_num [recordOf], by simp [recordOf]⟩

theorem lossy_sorts : Sorts compareLatency lossyRecords lossySorted := by
  constructor
  · show ([recordOf 0 false, recordOf 3 true] ++ recordOf 5 true :: _).Perm lossyRecords
    exact List.perm_middle
  · norm_num [lossySorted, compareLatency_nonpos_iff, recordOf]

theorem lossy_latencies : receivedLatencies lossyRecords = [3, 5, 5, 5] := by
  have hsorted := sorted_latencies lossy_valid lossy_sorts
  have hlost : lostCount lossyRecords = 1 := by decide
  rw [hlost] at hsorted
  exact (List.cons.inj hsorted).2.symm

theorem percentiles_of_lossy_records :
    lostCount lossyRecords = 1 ∧ 0 < receivedCount lossyRecords ∧ ∀ q ∈ percentages, ∃ v,
      percentile (receivedCount lossyRecords) lossySorted q = some v ∧
      (receivedLatencies lossyRecords)[rank (receivedCount lossyRecords) q]? = some v := by
  have hlost : lostCount lossyRecords = 1 := by decide
  have hcount : receivedCount lossyRecords = 4 := by decide
  have hpos : 0 < receivedCount lossyRecords := by decide
  refine ⟨hlost, hpos, ?_⟩
  refine (percentiles_of_received_iff lossy_valid lossy_sorts hpos).mpr (.inr ?_)
  rw [hlost, hcount, lossy_latencies]
  simp [percentages, rank, TiesAt]

/-- One response of 5 ms and one request without a response: all three lines print 0. -/
theorem percentiles_count_lost :
    (∀ r ∈ [recordOf 0 false, recordOf 5 true], r.Valid) ∧
    Sorts compareLatency [recordOf 0 false, recordOf 5 true] [recordOf 0 false, recordOf 5 true] ∧
    0 < receivedCount [recordOf 0 false, recordOf 5 true] ∧
    ∀ q ∈ percentages,
      percentile (receivedCount [recordOf 0 false, recordOf 5 true])
        [recordOf 0 false, recordOf 5 true] q = some 0 ∧
      (receivedLatencies [recordOf 0 false, recordOf 5 true])[rank
        (receivedCount [recordOf 0 false, recordOf 5 true]) q]? = some 5 := by
  refine ⟨?_, ⟨List.Perm.refl _, ?_⟩, by decide, ?_⟩
  · simp only [List.mem_cons, List.not_mem_nil, or_false, forall_eq_or_imp, forall_eq]
    exact ⟨⟨le_refl _, fun _ => rfl⟩, ⟨by norm_num [recordOf], by simp [recordOf]⟩⟩
  · simp [compareLatency_nonpos_iff, recordOf]
  · simp [percentages, percentile, receivedCount, receivedLatencies, rank, recordOf]

end Percentiles

end ThletEvaluation.Linux
