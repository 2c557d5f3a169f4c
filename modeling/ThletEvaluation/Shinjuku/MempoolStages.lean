import ThletEvaluation.Shinjuku.MempoolConservation

/-!
# The assertions of the second stage

After a refill `num_free` is not the length of the head list any more, so a full
counter does not by itself promise a list to put aside. What survives the refills
is weaker: a pool with an empty list has room in its counter. The links between
the elements do not matter for this.
-/

namespace ThletEvaluation.Shinjuku

set_option autoImplicit false

structure Mempool.Staged (size : Int32) (m : Mempool) : Prop where
  ready : m.Ready
  chunkSize_eq : m.chunkSize = size
  numFree_le : m.numFree.toInt ≤ size.toInt
  room : m.head = NULL → m.numFree.toInt < size.toInt

/-- The one decrement of the counter stays within the range of an `int`. -/
def PoolCall.NoWrap (s : Pools) : PoolCall → Prop
  | .alloc p => (s.pool p).head ≠ NULL → -(2 ^ 31 : Int) < (s.pool p).numFree.toInt
  | .free _ _ => True
  | .write _ _ => True

instance (s : Pools) (call : PoolCall) : Decidable (call.NoWrap s) :=
  match call with
  | .alloc p => inferInstanceAs
      (Decidable ((s.pool p).head ≠ NULL → -(2 ^ 31 : Int) < (s.pool p).numFree.toInt))
  | .free _ _ => inferInstanceAs (Decidable True)
  | .write _ _ => inferInstanceAs (Decidable True)

theorem mempoolFree2_private {s r : Arena} {a : Addr} (h : mempoolFree2 s a = .ok r) :
    r.m.privateChunk = s.m.head := by
  unfold mempoolFree2 at h
  dsimp only at h
  split at h
  · cases h
  split at h <;> cases h <;> rfl

namespace Mempool.Staged
variable {size : Int32} {m : Mempool} {s r : Arena} {a : Addr}

theorem full_iff (h : m.Staged size) : ¬ m.numFree < m.chunkSize ↔ m.numFree = m.chunkSize := by
  have hle := h.numFree_le
  rw [Int32.lt_iff_toInt_lt, ← Int32.toInt_inj, h.chunkSize_eq]
  omega

/-- A full counter promises a list. -/
theorem head_ne (h : m.Staged size) (hfull : ¬ m.numFree < m.chunkSize) : m.head ≠ NULL := by
  intro hhead
  have hroom := h.room hhead
  rw [Int32.lt_iff_toInt_lt, h.chunkSize_eq] at hfull
  exact hfull hroom

theorem alloc (h : s.m.Staged size)
    (hwrap : s.m.head ≠ NULL → -(2 ^ 31 : Int) < s.m.numFree.toInt)
    (hcall : mempoolAlloc s = .ok (a, r)) : r.m.Staged size := by
  obtain ⟨hmagic, hds⟩ := h.ready
  have hle := h.numFree_le
  rcases mempoolAlloc_cases hcall with ⟨hhead, _, rfl⟩ | ⟨hhead, _, _, rfl⟩ |
    ⟨hhead, _, _, _, rfl⟩ | ⟨_, _, _, _, rfl⟩
  · have hpred := toInt_pred (hwrap hhead)
    refine ⟨⟨hmagic, hds⟩, h.chunkSize_eq, ?_, fun _ => ?_⟩
    · dsimp only
      omega
    · dsimp only
      omega
  -- a refill is of an empty list, and the counter it leaves alone has room
  · exact ⟨⟨hmagic, hds⟩, h.chunkSize_eq, hle, fun _ => h.room hhead⟩
  · exact ⟨⟨hmagic, hds⟩, h.chunkSize_eq, hle, fun _ => h.room hhead⟩
  · exact h

theorem free_returns (h : s.m.Staged size) (a : Addr) : ∃ r, mempoolFree s a = .ok r := by
  unfold mempoolFree
  by_cases hlt : s.m.numFree < s.m.chunkSize
  · rw [if_pos hlt]
    exact ⟨_, rfl⟩
  · have hfull := h.full_iff.mp hlt
    rw [if_neg hlt]
    unfold mempoolFree2
    by_cases hpriv : s.m.privateChunk = NULL <;> simp [hfull, hpriv]

theorem free (h : s.m.Staged size) (ha : a ≠ NULL) (hcall : mempoolFree s a = .ok r) :
    r.m.Staged size := by
  obtain ⟨hmagic, hds⟩ := h.ready
  rcases mempoolFree_cases hcall with ⟨hlt, rfl⟩ | ⟨_, _, rfl⟩ | ⟨_, _, rfl⟩
  · rw [Int32.lt_iff_toInt_lt, h.chunkSize_eq] at hlt
    have hsucc := toInt_succ hlt
    refine ⟨⟨hmagic, hds⟩, h.chunkSize_eq, ?_, fun hnull => absurd hnull ha⟩
    dsimp only
    omega
  · exact ⟨⟨hmagic, hds⟩, h.chunkSize_eq, h.numFree_le, fun hnull => absurd hnull ha⟩
  · exact ⟨⟨hmagic, hds⟩, h.chunkSize_eq, h.numFree_le, fun hnull => absurd hnull ha⟩

theorem free_private (h : s.m.Staged size) (hfull : ¬ s.m.numFree < s.m.chunkSize)
    (hcall : mempoolFree s a = .ok r) : r.m.privateChunk ≠ NULL := by
  rw [mempoolFree, if_neg hfull] at hcall
  rw [mempoolFree2_private hcall]
  exact h.head_ne hfull

end Mempool.Staged

/-- The holders have elements, so nothing but an element is ever freed. -/
structure Stages (P : Nat) (size : Int32) (s : Pools) : Prop where
  staged : ∀ p < P, (s.pool p).Staged size
  held : NULL ∉ s.held

section Steps
variable {P p : Nat} {size : Int32} {s t : Pools} {r : Arena}

theorem Stages.put {held : List Addr} (h : Stages P size s) (hr : r.m.Staged size)
    (hheld : NULL ∉ held) : Stages P size (s.put p r held) := by
  refine ⟨?_, hheld⟩
  intro q hq
  rcases eq_or_ne q p with rfl | hne
  · simpa [Pools.put] using hr
  · simpa [Pools.put, hne] using h.staged q hq

theorem Stages.step {call : PoolCall} {es : List Addr} (h : Stages P size s)
    (hlegal : call.Legal P s) (hwrap : call.NoWrap s) (hstep : s.step call = some (t, es)) :
    Stages P size t := by
  cases Pools.step_cases hstep with
  | @alloc p a r hcall =>
    have hm : (s.arena p).m.Staged size := h.staged p hlegal
    refine h.put (hm.alloc hwrap hcall) ?_
    split
    · exact h.held
    next hne => exact List.not_mem_cons_of_ne_of_not_mem (Ne.symm hne) h.held
  | @free p a r hcall =>
    have hm : (s.arena p).m.Staged size := h.staged p hlegal.1
    have ha : a ≠ NULL := fun hnull => h.held (hnull ▸ hlegal.2)
    exact h.put (hm.free ha hcall) fun hmem => h.held (List.mem_of_mem_erase hmem)
  | write a v => exact ⟨h.staged, h.held⟩

end Steps

section Reachable
variable {P : Nat} {ds : Addr} {mem : Addr → MempoolHdr} {mds : MempoolDatastore}
variable {s₀ s : Pools} {tr : List Addr}

theorem stages_start (hds : ds ≠ NULL) (hsize : 1 ≤ mds.chunkSize.toInt)
    (h : s₀.Start P ds mem mds) : Stages P mds.chunkSize s₀ := by
  refine ⟨?_, by simp [h.held_eq]⟩
  intro p hp
  have hzero : (0 : Int32).toInt < mds.chunkSize.toInt := by
    rw [Int32.toInt_zero]
    omega
  rw [(h.pool_eq hp).2]
  exact ⟨⟨rfl, hds⟩, rfl, Int.le_of_lt hzero, fun _ => hzero⟩

theorem stages_reachable (hds : ds ≠ NULL) (hsize : 1 ≤ mds.chunkSize.toInt)
    (h : s₀.Start P ds mem mds)
    (hrun : Run.Runs poolMachine (fun s call => call.Legal P s ∧ call.NoWrap s) s₀ tr s) :
    Stages P mds.chunkSize s := by
  refine hrun.invariant (I := fun _ s => Stages P mds.chunkSize s) ?_ ?_
  · exact stages_start hds hsize h
  · rintro tr es s t call hs ⟨hlegal, hwrap⟩ hstep
    exact hs.step hlegal hwrap hstep

/-- No assertion fires, the counter never passes the chunk size, and the second stage
of `mempool_free` has a list to put aside whenever it is entered. -/
theorem mempool_stages_safe (hds : ds ≠ NULL) (hsize : 1 ≤ mds.chunkSize.toInt)
    (h : s₀.Start P ds mem mds)
    (hrun : Run.Runs poolMachine (fun s call => call.Legal P s ∧ call.NoWrap s) s₀ tr s) :
    ∀ p < P, (∃ a r, mempoolAlloc (s.arena p) = .ok (a, r)) ∧
      (∀ a ∈ s.held, ∃ r, mempoolFree (s.arena p) a = .ok r) ∧
      (s.pool p).numFree ≤ (s.pool p).chunkSize ∧
      (s.pool p).chunkSize = mds.chunkSize ∧
      (¬ (s.pool p).numFree < (s.pool p).chunkSize → (s.pool p).head ≠ NULL ∧
        ∀ a r, mempoolFree (s.arena p) a = .ok r → r.m.privateChunk ≠ NULL) := by
  intro p hp
  have hs : (s.arena p).m.Staged mds.chunkSize := (stages_reachable hds hsize h hrun).staged p hp
  refine ⟨mempoolAlloc_ready hs.ready, fun a _ => hs.free_returns a, ?_, hs.chunkSize_eq, ?_⟩
  · rw [Int32.le_iff_toInt_le, show (s.pool p).chunkSize = mds.chunkSize from hs.chunkSize_eq]
    exact hs.numFree_le
  · exact fun hfull => ⟨hs.head_ne hfull, fun a r hcall => hs.free_private hfull hcall⟩

end Reachable

/-- Three elements go out through one pool and come back through the other, whose
counter the first two fill. -/
def crossCalls : List PoolCall := [.alloc 0, .alloc 0, .alloc 0, .free 1 16, .free 1 32]

theorem mempool_stages_safe_sample :
    ∃ s : Pools, s.held = [48] ∧ (s.pool 1).numFree = 2 ∧ (s.pool 1).head ≠ NULL ∧
      ∃ r, mempoolFree (s.arena 1) 48 = .ok r ∧ r.m.privateChunk ≠ NULL := by
  have hrun : Run.Runs poolMachine (fun s call => call.Legal 2 s ∧ call.NoWrap s) samplePools _ _ :=
    Run.Machine.exec_runs (show poolMachine.exec _ samplePools crossCalls = _ from rfl)
  obtain ⟨_, hfree, _, _, hfull⟩ :=
    mempool_stages_safe (by decide) (by decide) (samplePools_start 2) hrun 1 (by decide)
  obtain ⟨r, hr⟩ := hfree 48 (by decide)
  obtain ⟨hhead, hpriv⟩ := hfull (by decide)
  exact ⟨_, rfl, rfl, hhead, r, hr, hpriv 48 r hr⟩

end ThletEvaluation.Shinjuku
