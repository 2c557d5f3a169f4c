import Mathlib.Algebra.Ring.Nat
import ThletEvaluation.Shinjuku.MempoolConservation

/-!
# One pool over a datastore of its own

The calls of `mempool.c` for a pool that shares its datastore with no other pool, as the two
pools of `context.c` do. The free elements are the links of the pool and of the datastore;
the counter `num_free` stays within its bounds as long as the elements can be counted by it.
-/

namespace ThletEvaluation.Shinjuku

open Chain
set_option autoImplicit false

/-- The arena with the elements that are held, as one of many pools. -/
def Arena.pools (s : Arena) (held : List Addr) : Pools := ⟨s.mem, s.mds, fun _ => s.m, held⟩

/-- The elements that the pool can still hand out, in the order of the links. -/
def Layout.available (L : Layout) : List Addr := L.free 1

/-- `num_free` neither wraps nor passes the chunk size, if there are fewer elements than an
`int` can count. -/
def CounterInBounds (elems held : List Addr) (m : Mempool) : Prop :=
  elems.length < 2 ^ 31 →
    -(held.length : Int) ≤ m.numFree.toInt ∧ m.numFree.toInt ≤ m.chunkSize.toInt

/-- A pool with `elems` of which `held` are out. -/
structure PoolState (elems held : List Addr) (s : Arena) (L : Layout) : Prop where
  conserved : Conserved 1 elems (s.pools held) L
  distinct : elems.Nodup
  nonnull : NULL ∉ elems
  size_pos : 0 < s.m.chunkSize.toInt
  counter : CounterInBounds elems held s.m

section Pool
variable {elems held held' : List Addr} {s r : Arena} {L : Layout} {a : Addr}

theorem PoolState.perm (h : PoolState elems held s L) : (held ++ L.available).Perm elems :=
  h.conserved.perm

theorem PoolState.nodup (h : PoolState elems held s L) : (held ++ L.available).Nodup :=
  h.perm.nodup_iff.mpr h.distinct

theorem PoolState.held_nodup (h : PoolState elems held s L) : held.Nodup :=
  (List.nodup_append.mp h.nodup).1

theorem PoolState.held_subset (h : PoolState elems held s L) : held ⊆ elems := fun _ hx =>
  h.perm.subset (List.mem_append_left _ hx)

theorem PoolState.available_subset (h : PoolState elems held s L) : L.available ⊆ elems :=
  fun _ hx => h.perm.subset (List.mem_append_right _ hx)

/-- Only pool 0 counts, and what is held counts as a set. -/
theorem Conserved.pools_congr {t : Pools} (h : Conserved 1 elems t L) (hmem : s.mem = t.mem)
    (hmds : s.mds = t.mds) (hm : s.m = t.pool 0) (hheld : held.Perm t.held) :
    Conserved 1 elems (s.pools held) L := by
  have only : ∀ p < 1, s.m = t.pool p := by
    intro p hp
    obtain rfl : p = 0 := by omega
    exact hm
  refine ⟨⟨?_, ?_, ?_⟩, ?_, ?_, ?_⟩
  · intro p hp
    simpa [Arena.pools, only p hp, hmem] using h.rep.head p hp
  · intro p hp
    simpa [Arena.pools, only p hp, hmem] using h.rep.priv p hp
  · simpa [Arena.pools, hmem, hmds] using h.rep.chunks
  · exact (hheld.append_right _).trans h.perm
  · simpa [Arena.pools, hmds] using h.counted
  · intro p hp
    simpa [Arena.pools, only p hp] using h.ready p hp

/-- An element that is handed out makes what is held one longer, up to the number of all. -/
theorem PoolState.held_lt (h : PoolState elems held s L) (ha : a ∈ L.available) :
    held.length < elems.length := by
  have hlen := h.perm.length_eq
  have hpos := List.length_pos_of_mem ha
  rw [List.length_append] at hlen
  omega

theorem PoolState.alloc (h : PoolState elems held s L) (hcall : mempoolAlloc s = .ok (a, r)) :
    (a = NULL ∧ L.available = [] ∧ r = s) ∨
    (a ≠ NULL ∧ r.mem = s.mem ∧ ∃ L', PoolState elems (a :: held) r L' ∧
      L.available.Perm (a :: L'.available)) := by
  have hcall' : mempoolAlloc ((s.pools held).arena 0) = .ok (a, r) := hcall
  obtain ⟨-, -, hsize, hmem⟩ := mempoolAlloc_fixed hcall
  rcases mempoolAlloc_spec h.conserved.rep h.conserved.counted Nat.one_pos hcall' with
    ⟨hnull, hcached, hchunks, hr⟩ | ⟨hne, second, L', hmove, hcount, hnum, hrep⟩
  · refine .inl ⟨hnull, ?_, hr⟩
    simp [Layout.available, Layout.free, hcached, hchunks]
  · have hperm : L.available.Perm (a :: L'.available) := hmove.perm Nat.one_pos
    have hconserved := h.conserved.alloc_to Nat.one_pos hcall' hne hmove hcount hrep
    refine .inr ⟨hne, hmem, L', ⟨?_, h.distinct, h.nonnull, ?_, ?_⟩, hperm⟩
    · exact hconserved.pools_congr rfl rfl (by simp [Pools.put])
        (by simp [Pools.put, hne, Arena.pools])
    · rw [hsize]
      exact h.size_pos
    · intro hsmall
      obtain ⟨hlow, hhigh⟩ := h.counter hsmall
      have hlt := h.held_lt (hperm.symm.subset List.mem_cons_self)
      rw [hsize, hnum, List.length_cons]
      cases second with
      | true => exact ⟨by simp [Arena.pools]; omega, by simpa [Arena.pools] using hhigh⟩
      | false =>
        simp only [Bool.false_eq_true, if_false, Arena.pools]
        rw [toInt_pred (by omega)]
        omega

/-- What `mempool_free` writes lies in the elements of its pool. -/
theorem PoolState.free_mem (h : PoolState elems held s L) (ha : a ∈ held)
    (hcall : mempoolFree s a = .ok r) : ∀ x ∉ elems, r.mem x = s.mem x := by
  intro x hx
  have hxa : x ≠ a := fun heq => hx (heq ▸ h.held_subset ha)
  rcases mempoolFree_cases hcall with ⟨-, rfl⟩ | ⟨-, -, rfl⟩ | ⟨-, hne, rfl⟩
  · simp [setNext, hxa]
  · simp [setNext, hxa]
  · obtain ⟨ys, hys, -⟩ := (h.conserved.rep.priv 0 Nat.one_pos).uncons hne
    have hxp : x ≠ s.m.privateChunk := by
      rintro rfl
      apply hx
      apply h.available_subset
      apply Layout.mem_free_of_cached Nat.one_pos
      simp [Layout.cached, hys, Arena.pools]
    simp [setNextChunk, setNext, hxa, hxp]

theorem PoolState.free (h : PoolState elems held s L) (hheld : held.Perm (a :: held'))
    (hcall : mempoolFree s a = .ok r) :
    ∃ L', PoolState elems held' r L' ∧ L'.available.Perm (a :: L.available) := by
  have hcall' : mempoolFree ((s.pools held).arena 0) a = .ok r := hcall
  have ha : a ∈ held := hheld.symm.subset List.mem_cons_self
  obtain ⟨-, -, hsize⟩ := mempoolFree_fixed hcall
  obtain ⟨second, L', hmove, hnum, hconserved⟩ :=
    h.conserved.free_to h.distinct h.nonnull Nat.one_pos ha hcall'
  have hrest : held'.Perm (held.erase a) := by
    simpa using (hheld.erase a).symm
  refine ⟨L', ⟨?_, h.distinct, h.nonnull, ?_, ?_⟩, hmove.perm Nat.one_pos⟩
  · exact hconserved.pools_congr rfl rfl (by simp [Pools.put]) hrest
  · rw [hsize]
    exact h.size_pos
  · intro hsmall
    obtain ⟨hlow, hhigh⟩ := h.counter hsmall
    have hlen := hheld.length_eq
    have hpos := h.size_pos
    rw [List.length_cons] at hlen
    cases second with
    | true =>
      obtain ⟨hfull, hsame⟩ : s.m.numFree = s.m.chunkSize ∧ r.m.numFree = s.m.numFree := hnum
      rw [hsize, hsame, hfull]
      omega
    | false =>
      obtain ⟨hlt, hsucc⟩ : s.m.numFree < s.m.chunkSize ∧ r.m.numFree = s.m.numFree + 1 := hnum
      have hlt' := Int32.lt_iff_toInt_lt.mp hlt
      rw [hsize, hsucc, toInt_succ hlt']
      omega

/-- The assertion of the second stage holds. -/
theorem PoolState.free_returns (h : PoolState elems held s L) (hsmall : elems.length < 2 ^ 31)
    (a : Addr) : ∃ r, mempoolFree s a = .ok r := by
  obtain ⟨-, hhigh⟩ := h.counter hsmall
  unfold mempoolFree mempoolFree2
  by_cases hlt : s.m.numFree < s.m.chunkSize
  · simp [hlt]
  · have hge : ¬ s.m.numFree.toInt < s.m.chunkSize.toInt :=
      fun h => hlt (Int32.lt_iff_toInt_lt.mpr h)
    have hfull : s.m.numFree = s.m.chunkSize := Int32.toInt_inj.mp (by omega)
    by_cases hpriv : s.m.privateChunk = NULL <;> simp [hfull, hpriv]

theorem PoolState.alloc_returns (h : PoolState elems held s L) :
    ∃ a r, mempoolAlloc s = .ok (a, r) := mempoolAlloc_ready (h.conserved.ready 0 Nat.one_pos)

/-- Only the links of available elements matter. -/
theorem PoolState.frame (h : PoolState elems held s L) {mem : Addr → MempoolHdr}
    (hmem : ∀ x ∈ L.available, mem x = s.mem x) : PoolState elems held { s with mem := mem } L :=
  ⟨h.conserved.frame hmem, h.distinct, h.nonnull, h.size_pos, h.counter⟩

end Pool

end ThletEvaluation.Shinjuku
