import ThletEvaluation.Shinjuku.MempoolCalls

/-!
# The pools neither lose nor duplicate an element

The argument never mentions `num_free`: the counter only decides which of the moves
of a layout a call makes, and every move conserves the elements. So the counter may
drift, and may even wrap, without harm to the partition.
-/

namespace ThletEvaluation.Shinjuku

open Chain
set_option autoImplicit false

/-- A datastore as `mempool_create_datastore` leaves it, with its chunks. -/
structure MempoolDatastore.Stocked (mem : Addr → MempoolHdr) (mds : MempoolDatastore)
    (chunks : List (List Addr)) : Prop where
  magic : mds.magic = MEMPOOL_MAGIC
  size_pos : 0 < mds.chunkSize.toInt
  threaded : Chunked (fun a => (mem a).next) (fun a => (mem a).nextChunk) NULL mds.chunkHead chunks
  sized : ∀ c ∈ chunks, (c.length : Int) = mds.chunkSize.toInt
  distinct : chunks.flatten.Nodup
  counted : FreeChunksExact mds chunks

def Mempool.Ready (m : Mempool) : Prop := m.magic = MEMPOOL_MAGIC ∧ m.datastore ≠ NULL

theorem mempoolAlloc_ready {s : Arena} (h : s.m.Ready) : ∃ a r, mempoolAlloc s = .ok (a, r) := by
  obtain ⟨hmagic, hds⟩ := h
  unfold mempoolAlloc mempoolAlloc2
  by_cases hhead : s.m.head = NULL
  · by_cases hpriv : s.m.privateChunk = NULL
    · by_cases hchunk : s.mds.chunkHead = NULL <;> simp [hhead, hpriv, hchunk, hmagic, hds]
    · simp [hhead, hpriv, hmagic]
  · simp [hhead]

theorem mempoolAlloc_fixed {s r : Arena} {a : Addr} (h : mempoolAlloc s = .ok (a, r)) :
    r.m.magic = s.m.magic ∧ r.m.datastore = s.m.datastore ∧ r.m.chunkSize = s.m.chunkSize ∧
      r.mem = s.mem := by
  rcases mempoolAlloc_cases h with ⟨_, _, rfl⟩ | ⟨_, _, _, rfl⟩ | ⟨_, _, _, _, rfl⟩ |
    ⟨_, _, _, _, rfl⟩ <;> exact ⟨rfl, rfl, rfl, rfl⟩

theorem mempoolFree_fixed {s r : Arena} {a : Addr} (h : mempoolFree s a = .ok r) :
    r.m.magic = s.m.magic ∧ r.m.datastore = s.m.datastore ∧ r.m.chunkSize = s.m.chunkSize := by
  rcases mempoolFree_cases h with ⟨_, rfl⟩ | ⟨_, _, rfl⟩ | ⟨_, _, rfl⟩ <;> exact ⟨rfl, rfl, rfl⟩

/-- A layout of `s` in which no element occurs twice and none is missing. -/
structure Conserved (P : Nat) (elems : List Addr) (s : Pools) (L : Layout) : Prop where
  rep : L.Represents P s
  perm : (s.held ++ L.free P).Perm elems
  counted : FreeChunksExact s.mds L.chunks
  ready : ∀ p < P, (s.pool p).Ready

section Steps
variable {P p : Nat} {elems : List Addr} {s : Pools} {L : Layout} {a : Addr} {r : Arena}

theorem ready_put {held : List Addr} (hready : ∀ p < P, (s.pool p).Ready)
    (hm : r.m.magic = (s.pool p).magic) (hd : r.m.datastore = (s.pool p).datastore) :
    ∀ q < P, ((s.put p r held).pool q).Ready := by
  intro q hq
  by_cases heq : q = p
  · subst q
    simpa [Pools.put, Mempool.Ready, hm, hd] using hready p hq
  · simpa [Pools.put, heq] using hready q hq

theorem Conserved.alloc_to {second : Bool} {L' : Layout} (h : Conserved P elems s L) (hp : p < P)
    (hcall : mempoolAlloc (s.arena p) = .ok (a, r)) (ha : a ≠ NULL) (hL' : L.Alloc p a second L')
    (hc : FreeChunksExact r.mds L'.chunks) (hrep : ∀ held, L'.Represents P (s.put p r held)) :
    Conserved P elems (s.put p r (if a = NULL then s.held else a :: s.held)) L' := by
  obtain ⟨hm, hd, _, _⟩ := mempoolAlloc_fixed hcall
  refine ⟨hrep _, ?_, hc, ready_put h.ready hm hd⟩
  rw [if_neg ha]
  calc (a :: s.held ++ L'.free P).Perm (s.held ++ a :: L'.free P) := List.perm_middle.symm
    _ |>.Perm (s.held ++ L.free P) := (hL'.perm hp).symm.append_left s.held
    _ |>.Perm elems := h.perm

theorem Conserved.alloc (h : Conserved P elems s L) (hp : p < P)
    (hcall : mempoolAlloc (s.arena p) = .ok (a, r)) :
    ∃ L', Conserved P elems (s.put p r (if a = NULL then s.held else a :: s.held)) L' := by
  rcases mempoolAlloc_spec h.rep h.counted hp hcall with ⟨rfl, _, _, rfl⟩ |
    ⟨ha, _, L', hL', hc, _, hrep⟩
  · refine ⟨L, ?_⟩
    simpa using h
  · exact ⟨L', h.alloc_to hp hcall ha hL' hc hrep⟩

theorem Conserved.free_to (h : Conserved P elems s L) (hnodup : elems.Nodup)
    (hnull : NULL ∉ elems) (hp : p < P) (ha : a ∈ s.held)
    (hcall : mempoolFree (s.arena p) a = .ok r) :
    ∃ second L', L.Free p a second L' ∧
      (if second then (s.pool p).numFree = (s.pool p).chunkSize ∧ r.m.numFree = (s.pool p).numFree
        else (s.pool p).numFree < (s.pool p).chunkSize ∧ r.m.numFree = (s.pool p).numFree + 1) ∧
      Conserved P elems (s.put p r (s.held.erase a)) L' := by
  obtain ⟨hm, hd, _⟩ := mempoolFree_fixed hcall
  have hall : (s.held ++ L.free P).Nodup := h.perm.nodup_iff.mpr hnodup
  obtain ⟨_, hfree, hapart⟩ := List.nodup_append.mp hall
  have hne : a ≠ NULL := by
    rintro rfl
    exact hnull (h.perm.subset (List.mem_append_left _ ha))
  obtain ⟨second, L', hL', hc, hnum, hrep⟩ := mempoolFree_spec h.rep h.counted hp hne
    (fun hx => hapart a ha a hx rfl) hfree hcall
  refine ⟨second, L', hL', hnum, hrep _, ?_, hc, ready_put h.ready hm hd⟩
  calc (s.held.erase a ++ L'.free P).Perm (s.held.erase a ++ a :: L.free P) :=
        (hL'.perm hp).append_left _
    _ |>.Perm (a :: s.held.erase a ++ L.free P) := List.perm_middle
    _ |>.Perm (s.held ++ L.free P) := (List.perm_cons_erase ha).symm.append_right _
    _ |>.Perm elems := h.perm

/-- The links of the free elements are all that counts of the memory. -/
theorem Conserved.frame {mem : Addr → MempoolHdr} (h : Conserved P elems s L)
    (hmem : ∀ x ∈ L.free P, mem x = s.mem x) : Conserved P elems { s with mem := mem } L := by
  refine ⟨⟨?_, ?_, ?_⟩, h.perm, h.counted, h.ready⟩
  · intro p hp
    exact (h.rep.head p hp).frame fun x hx => congrArg MempoolHdr.next
      (hmem x (Layout.mem_free_of_cached hp (List.mem_append_left _ hx)))
  · intro p hp
    exact (h.rep.priv p hp).frame fun x hx => congrArg MempoolHdr.next
      (hmem x (Layout.mem_free_of_cached hp (List.mem_append_right _ hx)))
  · exact h.rep.chunks.frame
      (fun x hx => congrArg MempoolHdr.next (hmem x (Layout.mem_free_of_chunks hx)))
      (fun x hx => congrArg MempoolHdr.nextChunk (hmem x (Layout.mem_free_of_chunks hx)))

/-- Holders may write what they like: no link of a free element is theirs. -/
theorem Conserved.write {v : MempoolHdr} (h : Conserved P elems s L) (hnodup : elems.Nodup)
    (ha : a ∈ s.held) :
    Conserved P elems { s with mem := Function.update s.mem a v } L := by
  have hall : (s.held ++ L.free P).Nodup := h.perm.nodup_iff.mpr hnodup
  apply h.frame
  intro x hx
  have hne : x ≠ a := fun heq => (List.nodup_append.mp hall).2.2 a ha x hx heq.symm
  exact Function.update_of_ne hne v s.mem

end Steps

theorem Conserved.step {P : Nat} {elems : List Addr} {s t : Pools} {L : Layout}
    {call : PoolCall} {es : List Addr} (h : Conserved P elems s L) (hnodup : elems.Nodup)
    (hnull : NULL ∉ elems) (hlegal : call.Legal P s) (hstep : s.step call = some (t, es)) :
    ∃ L', Conserved P elems t L' := by
  cases Pools.step_cases hstep with
  | alloc hcall => exact h.alloc hlegal hcall
  | free hcall =>
    obtain ⟨_, L', _, _, hL'⟩ := h.free_to hnodup hnull hlegal.1 hlegal.2 hcall
    exact ⟨L', hL'⟩
  | write a v => exact ⟨L, h.write hnodup hlegal⟩

theorem Chunked.null_notMem_flatten {next nextChunk : Addr → Addr} {p : Addr}
    {cs : List (List Addr)} (h : Chunked next nextChunk NULL p cs) : NULL ∉ cs.flatten := by
  induction cs generalizing p with
  | nil => simp
  | cons c cs ih =>
    simp only [List.flatten_cons, List.mem_append, not_or]
    exact ⟨h.2.1.null_notMem, ih h.2.2⟩

def Layout.initial (chunks : List (List Addr)) : Layout := ⟨fun _ => [], fun _ => [], chunks⟩

theorem Layout.initial_free (chunks : List (List Addr)) (P : Nat) :
    (initial chunks).free P = chunks.flatten := by
  have hcached : (List.range P).flatMap (initial chunks).cached = [] :=
    List.flatMap_eq_nil_iff.mpr fun _ _ => rfl
  rw [free, hcached, List.nil_append, initial]

theorem Pools.Start.pool_eq {P p : Nat} {ds : Addr} {mem : Addr → MempoolHdr}
    {mds : MempoolDatastore} {s : Pools} (h : s.Start P ds mem mds) (hp : p < P) :
    mds.magic = MEMPOOL_MAGIC ∧ s.pool p = {
      magic := MEMPOOL_MAGIC, buf := mds.buf, datastore := ds, nrElems := mds.nrElems,
      elemLen := mds.elemLen, nostraddle := mds.nostraddle, chunkSize := mds.chunkSize } := by
  have hc := h.created p hp
  unfold mempoolCreate at hc
  by_cases hmagic : mds.magic = MEMPOOL_MAGIC
  · simp only [hmagic, ne_eq, not_true_eq_false, ite_false, Except.ok.injEq] at hc
    exact ⟨hmagic, hc.symm⟩
  · simp [hmagic] at hc

section Reachable
variable {P : Nat} {ds : Addr} {mem : Addr → MempoolHdr} {mds : MempoolDatastore}
variable {chunks : List (List Addr)} {s₀ s : Pools} {tr : List Addr}

theorem conserved_start (hds : ds ≠ NULL) (hstock : mds.Stocked mem chunks)
    (h : s₀.Start P ds mem mds) : Conserved P chunks.flatten s₀ (Layout.initial chunks) := by
  have hpool := fun p (hp : p < P) => (h.pool_eq hp).2
  refine ⟨⟨?_, ?_, ?_⟩, ?_, ?_, ?_⟩
  · intro p hp
    simp [hpool p hp, Layout.initial]
  · intro p hp
    simp [hpool p hp, Layout.initial]
  · simpa [h.mem_eq, h.mds_eq, Layout.initial] using hstock.threaded
  · simp [h.held_eq, Layout.initial_free]
  · simpa [h.mds_eq, Layout.initial] using hstock.counted
  · intro p hp
    simp [hpool p hp, Mempool.Ready, hds]

theorem conserved_reachable (hds : ds ≠ NULL) (hstock : mds.Stocked mem chunks)
    (h : s₀.Start P ds mem mds)
    (hrun : Run.Runs poolMachine (fun s call => call.Legal P s) s₀ tr s) :
    ∃ L, Conserved P chunks.flatten s L := by
  refine hrun.invariant (I := fun _ s => ∃ L, Conserved P chunks.flatten s L) ?_ ?_
  · exact ⟨_, conserved_start hds hstock h⟩
  · rintro tr es s t call ⟨L, hL⟩ hlegal hstep
    exact hL.step hstock.distinct (Chunked.null_notMem_flatten hstock.threaded) hlegal hstep

/-- Every element is at every moment in exactly one place, so `mempool_alloc` never
hands out an element twice and gives up only when nothing is left in its reach. -/
theorem mempool_conserves_elements (hds : ds ≠ NULL) (hstock : mds.Stocked mem chunks)
    (h : s₀.Start P ds mem mds)
    (hrun : Run.Runs poolMachine (fun s call => call.Legal P s) s₀ tr s) :
    ∃ L : Layout, L.Represents P s ∧
      (s.held ++ L.free P).Perm chunks.flatten ∧ (s.held ++ L.free P).Nodup ∧
      s.mds.freeChunks = Int32.ofNat L.chunks.length ∧
      ∀ p < P, ∃ a r, mempoolAlloc (s.arena p) = .ok (a, r) ∧
        (a = NULL → (s.pool p).head = NULL ∧ (s.pool p).privateChunk = NULL ∧
          s.mds.chunkHead = NULL) ∧
        (a ≠ NULL → a ∈ chunks.flatten ∧ a ∉ s.held) := by
  obtain ⟨L, hL⟩ := conserved_reachable hds hstock h hrun
  have hall : (s.held ++ L.free P).Nodup := hL.perm.nodup_iff.mpr hstock.distinct
  refine ⟨L, hL.rep, hL.perm, hall, hL.counted, ?_⟩
  intro p hp
  obtain ⟨a, r, hcall⟩ := mempoolAlloc_ready (s := s.arena p) (hL.ready p hp)
  refine ⟨a, r, hcall, ?_, ?_⟩
  · rintro rfl
    rcases mempoolAlloc_spec hL.rep hL.counted hp hcall with ⟨_, hcached, hchunks, _⟩ | ⟨hne, _⟩
    · obtain ⟨hhead, hpriv⟩ := List.append_eq_nil_iff.mp hcached
      exact ⟨(hL.rep.head p hp).null_iff.mpr hhead, (hL.rep.priv p hp).null_iff.mpr hpriv,
        hL.rep.chunks.null_iff.mpr hchunks⟩
    · exact absurd rfl hne
  · intro hne
    rcases mempoolAlloc_spec hL.rep hL.counted hp hcall with ⟨hnull, _⟩ | ⟨_, _, L', hL', _⟩
    · exact absurd hnull hne
    · have hfree : a ∈ L.free P := (hL'.perm hp).symm.subset List.mem_cons_self
      refine ⟨hL.perm.subset (List.mem_append_right _ hfree), ?_⟩
      intro hheld
      exact (List.nodup_append.mp hall).2.2 a hheld a hfree rfl

end Reachable

def sampleMem (a : Addr) : MempoolHdr :=
  if a = 16 then ⟨32, 48⟩ else if a = 48 then ⟨64, NULL⟩ else {}

def sampleStore : MempoolDatastore :=
  { magic := MEMPOOL_MAGIC, chunkHead := 16, chunkSize := 2, numChunks := 2, freeChunks := 2 }

def samplePools : Pools where
  mem := sampleMem
  mds := sampleStore
  pool _ := { magic := MEMPOOL_MAGIC, datastore := 8, chunkSize := 2 }
  held := []

theorem sampleStore_stocked : sampleStore.Stocked sampleMem [[16, 32], [48, 64]] where
  magic := rfl
  size_pos := by decide
  threaded := by simp +decide [Chunked, Linked]
  sized := by decide
  distinct := by decide
  counted := rfl

theorem samplePools_start (P : Nat) : samplePools.Start P 8 sampleMem sampleStore :=
  ⟨rfl, rfl, fun _ _ => rfl, rfl⟩

def sampleCalls : List PoolCall :=
  [.alloc 0, .write 16 ⟨7, 7⟩, .alloc 1, .free 1 16, .alloc 0]

theorem mempool_conserves_elements_sample :
    ∃ s, s.held = [32, 48] ∧ ∃ L : Layout, L.Represents 2 s ∧
      (s.held ++ L.free 2).Perm [16, 32, 48, 64] := by
  have hrun : Run.Runs poolMachine (fun s call => call.Legal 2 s) samplePools _ _ :=
    Run.Machine.exec_runs (show poolMachine.exec _ samplePools sampleCalls = _ from rfl)
  obtain ⟨L, hL, hperm, _⟩ :=
    mempool_conserves_elements (by decide) sampleStore_stocked (samplePools_start 2) hrun
  exact ⟨_, rfl, L, hL, hperm⟩

end ThletEvaluation.Shinjuku
