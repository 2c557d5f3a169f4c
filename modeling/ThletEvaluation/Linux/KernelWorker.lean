import Mathlib.Data.List.Induction
import ThletEvaluation.Linux.Rpc

/-!
# The worker of the kernel server

`thlet_rpc_worker_fn` serves the requests that `thlet_rpc_get` returns. It counts the ones
that were sampled since the last `FINISH` in `nc` and reports when the count is full. The
functions it calls and the constants it compares with are the patched kernel's.
-/

namespace ThletEvaluation.Linux

set_option autoImplicit false

/-- The constants of `linux/thlet_rpc.h`. -/
structure ThletConsts where
  get : UInt32
  put : UInt32
  scan : UInt32
  finish : UInt32
  maxSamples : Nat
  distinct : [get, put, scan, finish].Nodup
  maxSamples_pos : 0 < maxSamples

/-- A request in network order. -/
structure ThletRpc where
  id : UInt32
  type : UInt32
  key : List UInt8
  value : List UInt8
  deriving DecidableEq

inductive ThletCall where
  | kvGet (key value : List UInt8)
  | kvPut (key value : List UInt8)
  | kvScan (key value : List UInt8)
  | statsAdd (id : UInt32)
  | statsReport
  | statsStart (b : Bool)
  deriving DecidableEq

variable (K : ThletConsts)

/-- The branches over the type: the next `nc` and the calls. -/
def workerBranch (nc : UInt32) (rpc : ThletRpc) : UInt32 × List ThletCall :=
  let id := htobe32 rpc.id
  let type := htobe32 rpc.type
  if type = K.get then (nc + 1, [.kvGet rpc.key rpc.value, .statsAdd id])
  else if type = K.put then (nc + 1, [.kvPut rpc.key rpc.value, .statsAdd id])
  else if type = K.scan then (nc + 1, [.kvScan rpc.key rpc.value, .statsAdd id])
  else if type = K.finish then (0, [.statsReport, .statsStart true])
  else (nc, [])

/-- One round of the loop. -/
def workerRound (nc : UInt32) (rpc : ThletRpc) : UInt32 × List ThletCall :=
  let r := workerBranch K nc rpc
  (r.1, r.2 ++ if r.1.toNat = K.maxSamples then [ThletCall.statsReport] else [])

/-- `nc` after the requests of `stream`. -/
def workerCount (stream : List ThletRpc) : UInt32 :=
  stream.foldl (fun nc rpc => (workerRound K nc rpc).1) 0

/-- The calls for each request of `stream`. -/
def workerFrom (nc : UInt32) : List ThletRpc → List (List ThletCall)
  | [] => []
  | rpc :: stream => (workerRound K nc rpc).2 :: workerFrom (workerRound K nc rpc).1 stream

def thletRpcWorkerFn (stream : List ThletRpc) : List (List ThletCall) := workerFrom K 0 stream

def IsSample (rpc : ThletRpc) : Prop :=
  htobe32 rpc.type = K.get ∨ htobe32 rpc.type = K.put ∨ htobe32 rpc.type = K.scan

def IsFinish (rpc : ThletRpc) : Prop := htobe32 rpc.type = K.finish

instance (rpc : ThletRpc) : Decidable (IsSample K rpc) :=
  inferInstanceAs (Decidable (_ ∨ _ ∨ _))

instance (rpc : ThletRpc) : Decidable (IsFinish K rpc) := inferInstanceAs (Decidable (_ = _))

/-- The number of sampled requests since the last `FINISH`. -/
def samples (stream : List ThletRpc) : Nat :=
  (stream.reverse.takeWhile fun rpc => !decide (IsFinish K rpc)).countP (IsSample K ·)

/-- The reports that `rpc` asks for after `pre`. -/
def reportsDue (pre : List ThletRpc) (rpc : ThletRpc) : Nat :=
  if IsFinish K rpc then 1
  else if IsSample K rpc ∧ samples K (pre ++ [rpc]) = K.maxSamples then 1
  else 0

def addsDue (rpc : ThletRpc) : List UInt32 :=
  if IsSample K rpc then [htobe32 rpc.id] else []

/-- The identifiers of the calls of `thlet_stats_add`. -/
def statsAdds (calls : List ThletCall) : List UInt32 :=
  calls.filterMap fun
    | .statsAdd id => some id
    | .kvGet _ _ | .kvPut _ _ | .kvScan _ _ | .statsReport | .statsStart _ => none

/-- For every request, the reports and the samples are the ones due. -/
def Cadence (stream : List ThletRpc) : Prop :=
  ∀ pre rpc post, stream = pre ++ rpc :: post →
    ∃ calls, (thletRpcWorkerFn K stream)[pre.length]? = some calls ∧
      calls.count .statsReport = reportsDue K pre rpc ∧ statsAdds calls = addsDue K rpc

/-- No request of an unknown type comes while the count stands at its limit, and a count that
has wrapped does not come to it again. -/
def CountStaysClear (stream : List ThletRpc) : Prop :=
  ∀ pre rpc post, stream = pre ++ rpc :: post →
    (¬ IsSample K rpc → ¬ IsFinish K rpc → samples K pre % 2 ^ 32 ≠ K.maxSamples) ∧
    (IsSample K rpc →
      ((samples K pre + 1) % 2 ^ 32 = K.maxSamples ↔ samples K pre + 1 = K.maxSamples))

section Worker
variable {K} {nc : UInt32} {rpc : ThletRpc} {pre post stream : List ThletRpc}

theorem IsFinish.not_isSample (h : IsFinish K rpc) : ¬ IsSample K rpc := by
  have hd := K.distinct
  unfold IsFinish at h
  unfold IsSample
  rw [h]
  simp only [List.nodup_cons, List.mem_cons, List.not_mem_nil, or_false, not_or] at hd
  grind

theorem not_isSample_iff :
    ¬ IsSample K rpc ↔ htobe32 rpc.type ≠ K.get ∧ htobe32 rpc.type ≠ K.put ∧
      htobe32 rpc.type ≠ K.scan := by
  simp [IsSample]

theorem workerBranch_finish (h : IsFinish K rpc) :
    workerBranch K nc rpc = (0, [.statsReport, .statsStart true]) := by
  obtain ⟨hget, hput, hscan⟩ := not_isSample_iff.mp h.not_isSample
  have hfinish : htobe32 rpc.type = K.finish := h
  rw [workerBranch, if_neg hget, if_neg hput, if_neg hscan, if_pos hfinish]

theorem workerBranch_sample (nc : UInt32) (h : IsSample K rpc) :
    ∃ kv, kv ≠ ThletCall.statsReport ∧ (∀ id, kv ≠ .statsAdd id) ∧
      workerBranch K nc rpc = (nc + 1, [kv, .statsAdd (htobe32 rpc.id)]) := by
  by_cases hget : htobe32 rpc.type = K.get
  · refine ⟨.kvGet rpc.key rpc.value, by simp, by simp, ?_⟩
    rw [workerBranch, if_pos hget]
  · by_cases hput : htobe32 rpc.type = K.put
    · refine ⟨.kvPut rpc.key rpc.value, by simp, by simp, ?_⟩
      rw [workerBranch, if_neg hget, if_pos hput]
    · have hscan : htobe32 rpc.type = K.scan := by
        simpa [IsSample, hget, hput] using h
      refine ⟨.kvScan rpc.key rpc.value, by simp, by simp, ?_⟩
      rw [workerBranch, if_neg hget, if_neg hput, if_pos hscan]

theorem workerBranch_unknown (hs : ¬ IsSample K rpc) (hf : ¬ IsFinish K rpc) :
    workerBranch K nc rpc = (nc, []) := by
  obtain ⟨hget, hput, hscan⟩ := not_isSample_iff.mp hs
  have hfinish : htobe32 rpc.type ≠ K.finish := hf
  rw [workerBranch, if_neg hget, if_neg hput, if_neg hscan, if_neg hfinish]

/-- What a branch does to the count, to the reports and to the samples. -/
theorem workerBranch_spec (nc : UInt32) (rpc : ThletRpc) :
    (workerBranch K nc rpc).1 =
      (if IsFinish K rpc then 0 else if IsSample K rpc then nc + 1 else nc) ∧
    (workerBranch K nc rpc).2.count .statsReport = (if IsFinish K rpc then 1 else 0) ∧
    statsAdds (workerBranch K nc rpc).2 = addsDue K rpc := by
  by_cases hf : IsFinish K rpc
  · simp [workerBranch_finish hf, hf, hf.not_isSample, addsDue, statsAdds]
  · by_cases hs : IsSample K rpc
    · obtain ⟨kv, hreport, hadd, hb⟩ := workerBranch_sample nc hs
      cases kv <;> simp_all [addsDue, statsAdds]
    · simp [workerBranch_unknown hs hf, hf, hs, addsDue, statsAdds]

theorem samples_append (pre : List ThletRpc) (rpc : ThletRpc) :
    samples K (pre ++ [rpc]) =
      if IsFinish K rpc then 0
      else if IsSample K rpc then samples K pre + 1 else samples K pre := by
  unfold samples
  rw [List.reverse_append, List.reverse_singleton, List.singleton_append, List.takeWhile_cons]
  by_cases hf : IsFinish K rpc
  · simp [hf]
  · by_cases hs : IsSample K rpc
    · simp [hf, hs]
    · simp [hf, hs]

theorem workerCount_append (pre : List ThletRpc) (rpc : ThletRpc) :
    workerCount K (pre ++ [rpc]) = (workerRound K (workerCount K pre) rpc).1 := by
  simp [workerCount, List.foldl_append]

/-- `nc` is the number of sampled requests since the last `FINISH`, in 32 bits. -/
theorem workerCount_toNat (stream : List ThletRpc) :
    (workerCount K stream).toNat = samples K stream % 2 ^ 32 := by
  induction stream using List.reverseRecOn with
  | nil => simp [workerCount, samples]
  | append_singleton pre rpc ih =>
    rw [workerCount_append, samples_append]
    simp only [workerRound, (workerBranch_spec _ _).1]
    split
    · rw [UInt32.toNat_zero, Nat.zero_mod]
    · split
      · rw [UInt32.toNat_add, ih]
        simp
      · exact ih

theorem workerFrom_getElem? (nc : UInt32) (pre : List ThletRpc) (rpc : ThletRpc)
    (post : List ThletRpc) :
    (workerFrom K nc (pre ++ rpc :: post))[pre.length]? =
      some (workerRound K (pre.foldl (fun nc rpc => (workerRound K nc rpc).1) nc) rpc).2 := by
  induction pre generalizing nc with
  | nil => simp [workerFrom]
  | cons r pre ih => simpa [workerFrom] using ih _

/-- The count that is compared with the limit after `rpc`. -/
theorem workerRound_reports (pre : List ThletRpc) (rpc : ThletRpc) :
    (workerRound K (workerCount K pre) rpc).2.count .statsReport =
      (if IsFinish K rpc then 1 else 0) +
      (if samples K (pre ++ [rpc]) % 2 ^ 32 = K.maxSamples then 1 else 0) := by
  have hnc : (workerBranch K (workerCount K pre) rpc).1.toNat =
      samples K (pre ++ [rpc]) % 2 ^ 32 := by
    rw [← workerCount_toNat, workerCount_append, workerRound]
  simp only [workerRound, hnc, List.count_append, (workerBranch_spec _ _).2.1]
  by_cases hfull : samples K (pre ++ [rpc]) % 2 ^ 32 = K.maxSamples
  · rw [if_pos hfull, if_pos hfull, List.count_singleton_self]
  · rw [if_neg hfull, if_neg hfull, List.count_nil]

theorem workerRound_adds (nc : UInt32) (rpc : ThletRpc) :
    statsAdds (workerRound K nc rpc).2 = addsDue K rpc := by
  have h := (workerBranch_spec nc rpc (K := K)).2.2
  unfold statsAdds at h ⊢
  simp only [workerRound, List.filterMap_append, h]
  split <;> simp

theorem reports_eq_due_iff (pre : List ThletRpc) (rpc : ThletRpc) :
    (workerRound K (workerCount K pre) rpc).2.count .statsReport = reportsDue K pre rpc ↔
      (¬ IsSample K rpc → ¬ IsFinish K rpc → samples K pre % 2 ^ 32 ≠ K.maxSamples) ∧
      (IsSample K rpc →
        ((samples K pre + 1) % 2 ^ 32 = K.maxSamples ↔ samples K pre + 1 = K.maxSamples)) := by
  have hpos := K.maxSamples_pos
  rw [workerRound_reports, reportsDue, samples_append]
  by_cases hf : IsFinish K rpc
  · -- After `FINISH` the count is 0, which is not the limit.
    simp [hf, hf.not_isSample, hpos.ne]
  · by_cases hs : IsSample K rpc
    · simp only [hf, hs, if_false, if_true, true_and, not_true, false_imp_iff, true_imp_iff]
      split <;> split <;> simp_all
    · simp only [hf, hs, if_false, false_and, not_false_eq_true, false_imp_iff, true_imp_iff,
        and_true]
      split <;> simp_all

/-- The worker reports and samples as it should exactly on the streams that never meet the
limit with an unknown request or with a wrapped count. -/
theorem cadence_iff (K : ThletConsts) (stream : List ThletRpc) :
    Cadence K stream ↔ CountStaysClear K stream := by
  have hcalls : ∀ pre rpc post, stream = pre ++ rpc :: post →
      (thletRpcWorkerFn K stream)[pre.length]? =
        some (workerRound K (workerCount K pre) rpc).2 := by
    rintro pre rpc post rfl
    exact workerFrom_getElem? 0 pre rpc post
  constructor
  · intro h pre rpc post hsplit
    obtain ⟨calls, hget, hreports, -⟩ := h pre rpc post hsplit
    rw [hcalls pre rpc post hsplit] at hget
    obtain rfl := Option.some.inj hget
    exact (reports_eq_due_iff pre rpc).mp hreports
  · intro h pre rpc post hsplit
    refine ⟨_, hcalls pre rpc post hsplit, ?_, workerRound_adds _ _⟩
    exact (reports_eq_due_iff pre rpc).mpr (h pre rpc post hsplit)

theorem exampleConsts_distinct : ([0, 1, 2, 3] : List UInt32).Nodup := by decide

def exampleConsts : ThletConsts := ⟨0, 1, 2, 3, 1, exampleConsts_distinct, Nat.one_pos⟩

/-- With room for one sample: after a `GET`, a request of the unknown type `9 * 2 ^ 24` makes
the worker report once more. -/
theorem cadence_fails_on_unknown :
    ¬ Cadence exampleConsts [⟨0, 0, [], []⟩, ⟨0, 9, [], []⟩] := by
  intro h
  obtain ⟨calls, hcalls, hreports, -⟩ := h [⟨0, 0, [], []⟩] ⟨0, 9, [], []⟩ [] rfl
  have hget : (thletRpcWorkerFn exampleConsts
      [⟨0, 0, [], []⟩, ⟨0, 9, [], []⟩])[1]? = some [.statsReport] := by decide
  obtain rfl : [.statsReport] = calls := Option.some.inj (hget.symm.trans hcalls)
  exact absurd hreports (by decide)

end Worker

end ThletEvaluation.Linux
