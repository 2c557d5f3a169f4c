import ThletEvaluation.Shinjuku.MempoolConservation

/-!
# The chunk discipline and the counter `num_free`

The two second-stage routines replace the head list and do not assign `num_free`.
With chunks of a single element a replaced list has the length the counter already
shows; with larger chunks the first refill separates the two.
-/

namespace ThletEvaluation.Shinjuku

open Chain
set_option autoImplicit false

/-- `num_free` counts the head list, which has at most one chunk of elements, and
whatever leaves the head list leaves it as a whole chunk. -/
def ChunkDiscipline (P : Nat) (s : Pools) : Prop :=
  ∃ L : Layout, L.Represents P s ∧
    (∀ p < P, (s.pool p).numFree.toInt = (L.head p).length ∧
      0 ≤ (s.pool p).numFree.toInt ∧ (s.pool p).numFree.toInt ≤ s.mds.chunkSize.toInt ∧
      ((s.pool p).privateChunk ≠ NULL → ((L.priv p).length : Int) = s.mds.chunkSize.toInt) ∧
      ((L.cached p).length : Int) ≤ 2 * s.mds.chunkSize.toInt) ∧
    ∀ c ∈ L.chunks, (c.length : Int) = s.mds.chunkSize.toInt

/-- What keeps the discipline: all lists are of length at most one, and the chunks of
the datastore are exactly of the size that was asked for. -/
structure Single (P : Nat) (size : Int32) (s : Pools) (L : Layout) : Prop where
  count : ∀ p < P, (s.pool p).numFree = Int32.ofNat (L.head p).length
  head_le : ∀ p < P, (L.head p).length ≤ 1
  priv_le : ∀ p < P, (L.priv p).length ≤ 1
  priv_len : ∀ p < P, L.priv p ≠ [] → ((L.priv p).length : Int) = size.toInt
  pool_size : ∀ p < P, (s.pool p).chunkSize = size
  store_size : s.mds.chunkSize = size
  chunk_len : ∀ c ∈ L.chunks, (c.length : Int) = size.toInt

section Steps
variable {P p : Nat} {size : Int32} {s : Pools} {L L' : Layout} {a : Addr} {r : Arena}
variable {held : List Addr} {second : Bool}

theorem Single.put (h : Single P size s L)
    (hother : ∀ q, q ≠ p → L'.head q = L.head q ∧ L'.priv q = L.priv q)
    (hcount : r.m.numFree = Int32.ofNat (L'.head p).length)
    (hhead : (L'.head p).length ≤ 1) (hpriv : (L'.priv p).length ≤ 1)
    (hlen : L'.priv p ≠ [] → ((L'.priv p).length : Int) = size.toInt)
    (hsize : r.m.chunkSize = size) (hstore : r.mds.chunkSize = size)
    (hchunk : ∀ c ∈ L'.chunks, (c.length : Int) = size.toInt) :
    Single P size (s.put p r held) L' := by
  constructor
  · intro q hq
    rcases eq_or_ne q p with rfl | hne
    · simpa [Pools.put] using hcount
    · simpa [Pools.put, hne, (hother q hne).1] using h.count q hq
  · intro q hq
    rcases eq_or_ne q p with rfl | hne
    · exact hhead
    · simpa [(hother q hne).1] using h.head_le q hq
  · intro q hq
    rcases eq_or_ne q p with rfl | hne
    · exact hpriv
    · simpa [(hother q hne).2] using h.priv_le q hq
  · intro q hq
    rcases eq_or_ne q p with rfl | hne
    · exact hlen
    · simpa [(hother q hne).2] using h.priv_len q hq
  · intro q hq
    rcases eq_or_ne q p with rfl | hne
    · simpa [Pools.put] using hsize
    · simpa [Pools.put, hne] using h.pool_size q hq
  · exact hstore
  · exact hchunk

theorem mempoolAlloc_storeSize {s r : Arena} (h : mempoolAlloc s = .ok (a, r)) :
    r.mds.chunkSize = s.mds.chunkSize := by
  rcases mempoolAlloc_cases h with ⟨_, _, rfl⟩ | ⟨_, _, _, rfl⟩ | ⟨_, _, _, _, rfl⟩ |
    ⟨_, _, _, _, rfl⟩ <;> rfl

theorem mempoolFree_storeSize {s r : Arena} (h : mempoolFree s a = .ok r) :
    r.mds.chunkSize = s.mds.chunkSize := by
  rcases mempoolFree_cases h with ⟨_, rfl⟩ | ⟨_, _, rfl⟩ | ⟨_, _, rfl⟩ <;> rfl

theorem Single.alloc (h : Single P size s L) (hone : size = 1) (hp : p < P)
    (hcall : mempoolAlloc (s.arena p) = .ok (a, r)) (hL' : L.Alloc p a second L')
    (hnum : r.m.numFree = if second then (s.pool p).numFree else (s.pool p).numFree - 1) :
    Single P size (s.put p r held) L' := by
  obtain ⟨_, _, hcs, _⟩ := mempoolAlloc_fixed hcall
  have hsize : r.m.chunkSize = size := hcs.trans (h.pool_size p hp)
  have hstore : r.mds.chunkSize = size := (mempoolAlloc_storeSize hcall).trans h.store_size
  have hcount := h.count p hp
  have hhead := h.head_le p hp
  have hpriv := h.priv_le p hp
  cases hL' with
  | @hot xs hxs =>
    obtain rfl : xs = [] := by simpa [hxs] using hhead
    refine h.put (fun q hq => by simp [hq]) ?_ (by simp) (by simpa using hpriv)
      (by simpa using h.priv_len p hp) hsize hstore h.chunk_len
    simp [hnum, hcount, hxs]
  | @priv xs hnil hxs =>
    obtain rfl : xs = [] := by simpa [hxs] using hpriv
    exact h.put (fun q hq => by simp [hq]) (by simpa [hnil, hnum] using hcount) (by simp)
      (by simp) (by simp) hsize hstore h.chunk_len
  | @chunk xs cs hnil hnil' hcs =>
    have hlen := h.chunk_len (a :: xs) (by simp [hcs])
    obtain rfl : xs = [] := by
      subst size
      simp only [List.length_cons, Int32.reduceToInt] at hlen
      exact List.length_eq_zero_iff.mp (by omega)
    exact h.put (fun q hq => by simp [hq]) (by simpa [hnil, hnum] using hcount) (by simp)
      (by simp [hnil']) (by simp [hnil']) hsize hstore
      (fun c hc => h.chunk_len c (by simp [hcs, hc]))

theorem Single.free (h : Single P size s L) (hone : size = 1) (hp : p < P)
    (hcall : mempoolFree (s.arena p) a = .ok r) (hL' : L.Free p a second L')
    (hnum : if second then (s.pool p).numFree = (s.pool p).chunkSize ∧
        r.m.numFree = (s.pool p).numFree
      else (s.pool p).numFree < (s.pool p).chunkSize ∧
        r.m.numFree = (s.pool p).numFree + 1) :
    Single P size (s.put p r held) L' := by
  obtain ⟨_, _, hcs⟩ := mempoolFree_fixed hcall
  have hsize : r.m.chunkSize = size := hcs.trans (h.pool_size p hp)
  have hstore : r.mds.chunkSize = size := (mempoolFree_storeSize hcall).trans h.store_size
  have hcount := h.count p hp
  have hhead := h.head_le p hp
  have hpriv := h.priv_le p hp
  have hpool : (s.pool p).chunkSize = 1 := (h.pool_size p hp).trans hone
  have hretired : ∀ {xs : List Addr}, xs.length ≤ 1 → xs ≠ [] → (xs.length : Int) = size.toInt := by
    intro xs hle hne
    have := List.length_pos_iff.mpr hne
    subst size
    simp only [Int32.reduceToInt]
    omega
  cases hL' with
  | hot =>
    simp only [Bool.false_eq_true, if_false, hpool, hcount] at hnum
    have hnil : L.head p = [] := by
      by_contra hne
      have hlen : (L.head p).length = 1 := by
        have := List.length_pos_iff.mpr hne
        omega
      rw [hlen] at hnum
      exact absurd hnum.1 (by decide)
    exact h.put (fun q hq => by simp [hq]) (by simp [hnil, hnum.2]) (by simp [hnil])
      (by simpa using hpriv) (by simpa using h.priv_len p hp) hsize hstore h.chunk_len
  | retire hnil =>
    simp only [if_true, hpool] at hnum
    exact h.put (fun q hq => by simp [hq]) (by simp [hnum.1, hnum.2]) (by simp)
      (by simpa using hhead) (by simpa using hretired hhead) hsize hstore h.chunk_len
  | restock hne =>
    simp only [if_true, hpool] at hnum
    refine h.put (fun q hq => by simp [hq]) (by simp [hnum.1, hnum.2]) (by simp)
      (by simpa using hhead) (by simpa using hretired hhead) hsize hstore ?_
    intro c hc
    rcases List.mem_cons.mp hc with rfl | hc
    · exact hretired hpriv hne
    · exact h.chunk_len c hc

end Steps

/-- Under the condition, every step that could break `Single` is one with
single-element chunks: an element has to exist, and so has a pool. -/
theorem Single.step {P : Nat} {size : Int32} {elems : List Addr} {s t : Pools} {L : Layout}
    {call : PoolCall} {es : List Addr} (hc : Conserved P elems s L) (h : Single P size s L)
    (hcond : size = 1 ∨ elems = [] ∨ P = 0) (hnodup : elems.Nodup) (hnull : NULL ∉ elems)
    (hlegal : call.Legal P s) (hstep : s.step call = some (t, es)) :
    ∃ L', Conserved P elems t L' ∧ Single P size t L' := by
  have hone : ∀ {p x}, p < P → x ∈ elems → size = 1 := by
    intro p x hp hx
    rcases hcond with h1 | h1 | h1
    · exact h1
    · simp [h1] at hx
    · omega
  cases Pools.step_cases hstep with
  | alloc hcall =>
    rcases mempoolAlloc_spec hc.rep hc.counted hlegal hcall with ⟨rfl, _, _, rfl⟩ |
      ⟨ha, _, L', hL', hcnt, hnum, hrep⟩
    · refine ⟨L, ?_⟩
      simpa using ⟨hc, h⟩
    · have hmem : _ ∈ elems := hc.perm.subset
        (List.mem_append_right _ ((hL'.perm hlegal).symm.subset List.mem_cons_self))
      exact ⟨L', hc.alloc_to hlegal hcall ha hL' hcnt hrep,
        h.alloc (hone hlegal hmem) hlegal hcall hL' hnum⟩
  | free hcall =>
    obtain ⟨_, L', hL', hnum, hc'⟩ := hc.free_to hnodup hnull hlegal.1 hlegal.2 hcall
    have hmem : _ ∈ elems := hc.perm.subset (List.mem_append_left _ hlegal.2)
    exact ⟨L', hc', h.free (hone hlegal.1 hmem) hlegal.1 hcall hL' hnum⟩
  | write a v =>
    exact ⟨L, hc.write hnodup hlegal, ⟨h.count, h.head_le, h.priv_le, h.priv_len, h.pool_size,
      h.store_size, h.chunk_len⟩⟩

section Reachable
variable {P : Nat} {ds : Addr} {mem : Addr → MempoolHdr} {mds : MempoolDatastore}
variable {chunks : List (List Addr)} {s₀ s : Pools} {tr : List Addr}

theorem single_start (hstock : mds.Stocked mem chunks) (h : s₀.Start P ds mem mds) :
    Single P mds.chunkSize s₀ (Layout.initial chunks) := by
  have hpool := fun p (hp : p < P) => (h.pool_eq hp).2
  constructor
  · intro p hp
    simp [hpool p hp, Layout.initial]
  · intro p _
    simp [Layout.initial]
  · intro p _
    simp [Layout.initial]
  · intro p _
    simp [Layout.initial]
  · intro p hp
    simp [hpool p hp]
  · rw [h.mds_eq]
  · exact hstock.sized

theorem single_reachable (hds : ds ≠ NULL) (hstock : mds.Stocked mem chunks)
    (h : s₀.Start P ds mem mds) (hcond : mds.chunkSize = 1 ∨ chunks = [] ∨ P = 0)
    (hrun : Run.Runs poolMachine (fun s call => call.Legal P s) s₀ tr s) :
    ∃ L, Conserved P chunks.flatten s L ∧ Single P mds.chunkSize s L := by
  have hcond' : mds.chunkSize = 1 ∨ chunks.flatten = [] ∨ P = 0 := by
    rcases hcond with h1 | rfl | h1
    · exact Or.inl h1
    · exact Or.inr (Or.inl rfl)
    · exact Or.inr (Or.inr h1)
  refine hrun.invariant
    (I := fun _ s => ∃ L, Conserved P chunks.flatten s L ∧ Single P mds.chunkSize s L) ?_ ?_
  · exact ⟨_, conserved_start hds hstock h, single_start hstock h⟩
  · rintro tr es s t call ⟨L, hc, hL⟩ hlegal hstep
    exact hL.step hc hcond' hstock.distinct (Chunked.null_notMem_flatten hstock.threaded)
      hlegal hstep

theorem Single.discipline {size : Int32} {L : Layout} (h : Single P size s L)
    (hrep : L.Represents P s) (hpos : 0 < size.toInt) : ChunkDiscipline P s := by
  refine ⟨L, hrep, ?_, ?_⟩
  · intro p hp
    have hhead := h.head_le p hp
    have hpriv := h.priv_le p hp
    have hnum : (s.pool p).numFree.toInt = (L.head p).length := by
      rw [h.count p hp]
      exact Int32.toInt_ofNat_of_lt (by omega)
    rw [h.store_size, hnum]
    refine ⟨rfl, by omega, by omega, ?_, ?_⟩
    · intro hne
      exact h.priv_len p hp (mt (hrep.priv p hp).null_iff.mpr hne)
    · simp only [Layout.cached, List.length_append]
      omega
  · rw [h.store_size]
    exact h.chunk_len

theorem first_refill (hds : ds ≠ NULL) (hstock : mds.Stocked mem chunks)
    (h : s₀.Start P ds mem mds) (hP : 0 < P) (hchunks : chunks ≠ []) :
    ∃ tr s, Run.Runs poolMachine (fun s call => call.Legal P s) s₀ tr s ∧
      (ChunkDiscipline P s → mds.chunkSize = 1) := by
  have hc := conserved_start hds hstock h
  obtain ⟨a, r, hcall⟩ := mempoolAlloc_ready (s := s₀.arena 0) (hc.ready 0 hP)
  rcases mempoolAlloc_spec hc.rep hc.counted hP hcall with ⟨_, _, hnil, _⟩ |
    ⟨ha, second, L', hL', _, hnum, hrep⟩
  · exact absurd hnil hchunks
  refine ⟨[a], s₀.put 0 r (a :: s₀.held), ?_, ?_⟩
  · have hstep : poolMachine.step s₀ (.alloc 0) = some (s₀.put 0 r (a :: s₀.held), [a]) := by
      simp [poolMachine, Pools.step, hcall, ha]
    simpa using Run.Runs.next .start (a := PoolCall.alloc 0) hP hstep
  · rintro ⟨L, hL, hcount, _⟩
    have hhead := (hL.unique (hrep _)).1 0 hP
    have hzero := (hcount 0 hP).1
    cases hL' with
    | hot hxs => simp [Layout.initial] at hxs
    | priv _ hxs => simp [Layout.initial] at hxs
    | @chunk xs cs _ _ hcs =>
      have hlen := hstock.sized (a :: xs) (by simp [show chunks = (a :: xs) :: cs from hcs])
      have hfree : (s₀.pool 0).numFree = 0 := by rw [(h.pool_eq hP).2]
      simp only [hhead.1, Pools.put, Function.update_self, hnum, if_true, hfree] at hzero
      refine Int32.toInt_inj.mp ?_
      simp only [List.length_cons, Int32.reduceToInt] at hlen hzero ⊢
      omega

/-- The discipline holds along all runs just when chunks have one element, or when
there is nothing to allocate, or nobody to allocate it. -/
theorem chunk_discipline_iff (hds : ds ≠ NULL) (hstock : mds.Stocked mem chunks) :
    (∀ s₀ tr s, s₀.Start P ds mem mds →
        Run.Runs poolMachine (fun s call => call.Legal P s) s₀ tr s → ChunkDiscipline P s) ↔
      mds.chunkSize = 1 ∨ chunks = [] ∨ P = 0 := by
  constructor
  · intro hall
    by_cases hchunks : chunks = []
    · exact Or.inr (Or.inl hchunks)
    by_cases hP : P = 0
    · exact Or.inr (Or.inr hP)
    let m : Mempool := {
      magic := MEMPOOL_MAGIC, buf := mds.buf, datastore := ds, nrElems := mds.nrElems,
      elemLen := mds.elemLen, nostraddle := mds.nostraddle, chunkSize := mds.chunkSize }
    have hstart : Pools.Start P ds mem mds ⟨mem, mds, fun _ => m, []⟩ :=
      ⟨rfl, rfl, fun p _ => by simp [mempoolCreate, hstock.magic, m], rfl⟩
    obtain ⟨tr, s, hrun, hone⟩ := first_refill hds hstock hstart (by omega) hchunks
    exact Or.inl (hone (hall _ tr s hstart hrun))
  · intro hcond s₀ tr s h hrun
    obtain ⟨L, hc, hL⟩ := single_reachable hds hstock h hcond hrun
    exact hL.discipline hc.rep hstock.size_pos

end Reachable

/-- With chunks of two, one `mempool_alloc` leaves one element on the head list and
`num_free` at zero. -/
theorem chunk_discipline_fails_after_refill :
    sampleStore.Stocked sampleMem [[16, 32], [48, 64]] ∧
      samplePools.Start 1 8 sampleMem sampleStore ∧
      ∃ tr s, Run.Runs poolMachine (fun s call => call.Legal 1 s) samplePools tr s ∧
        ¬ ChunkDiscipline 1 s := by
  refine ⟨sampleStore_stocked, samplePools_start 1, ?_⟩
  obtain ⟨tr, s, hrun, hone⟩ :=
    first_refill (by decide) sampleStore_stocked (samplePools_start 1) (by decide) (by decide)
  exact ⟨tr, s, hrun, fun hd => absurd (hone hd) (by decide)⟩

theorem chunk_discipline_iff_sample :
    (8 : Addr) ≠ NULL ∧ sampleStore.Stocked sampleMem [[16, 32], [48, 64]] ∧
    ((∀ s₀ tr s, s₀.Start 1 8 sampleMem sampleStore →
        Run.Runs poolMachine (fun s call => call.Legal 1 s) s₀ tr s → ChunkDiscipline 1 s) ↔
      sampleStore.chunkSize = 1 ∨ [[16, 32], [48, 64]] = ([] : List (List Addr)) ∨ 1 = 0) :=
  ⟨by decide, sampleStore_stocked, chunk_discipline_iff (by decide) sampleStore_stocked⟩

end ThletEvaluation.Shinjuku
