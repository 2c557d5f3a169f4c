import ThletEvaluation.Shinjuku.MempoolLayout

/-!
# The pool calls as moves of a layout

One inversion lemma for each call says everything the call can do when it returns.
The specification of a call then names the move of the layout that it makes.
-/

namespace ThletEvaluation.Shinjuku

open Chain
set_option autoImplicit false

section Links
variable (mem : Addr → MempoolHdr) (a v x : Addr)

@[simp] theorem setNext_next :
    (setNext mem a v x).next = if x = a then v else (mem x).next := by
  by_cases h : x = a <;> simp [setNext, Function.update, h]

@[simp] theorem setNext_nextChunk : (setNext mem a v x).nextChunk = (mem x).nextChunk := by
  by_cases h : x = a <;> simp [setNext, Function.update, h]

@[simp] theorem setNextChunk_next : (setNextChunk mem a v x).next = (mem x).next := by
  by_cases h : x = a <;> simp [setNextChunk, Function.update, h]

@[simp] theorem setNextChunk_nextChunk :
    (setNextChunk mem a v x).nextChunk = if x = a then v else (mem x).nextChunk := by
  by_cases h : x = a <;> simp [setNextChunk, Function.update, h]

end Links

/-- Everything `mempool_alloc` can do when it returns. -/
theorem mempoolAlloc_cases {s r : Arena} {a : Addr} (h : mempoolAlloc s = .ok (a, r)) :
    (s.m.head ≠ NULL ∧ a = s.m.head ∧
      r = { s with m := { s.m with head := (s.mem a).next, numFree := s.m.numFree - 1 } }) ∨
    (s.m.head = NULL ∧ s.m.privateChunk ≠ NULL ∧ a = s.m.privateChunk ∧
      r = { s with m := { s.m with head := (s.mem a).next, privateChunk := NULL } }) ∨
    (s.m.head = NULL ∧ s.m.privateChunk = NULL ∧ s.mds.chunkHead ≠ NULL ∧
      a = s.mds.chunkHead ∧
      r = { s with
        mds := { s.mds with
          chunkHead := (s.mem a).nextChunk
          freeChunks := s.mds.freeChunks - 1
          numLocks := s.mds.numLocks + 1 }
        m := { s.m with head := (s.mem a).next } }) ∨
    (s.m.head = NULL ∧ s.m.privateChunk = NULL ∧ s.mds.chunkHead = NULL ∧ a = NULL ∧ r = s) := by
  unfold mempoolAlloc at h
  dsimp only at h
  split at h
  · rename_i hhead
    cases h
    exact Or.inl ⟨hhead, rfl, rfl⟩
  · rename_i hhead
    have h0 : s.m.head = NULL := not_not.mp hhead
    unfold mempoolAlloc2 at h
    dsimp only at h
    rw [if_neg hhead] at h
    split at h
    · cases h
    split at h
    · rename_i hpriv
      cases h
      exact Or.inr (Or.inl ⟨h0, hpriv, rfl, rfl⟩)
    rename_i hpriv
    have h1 : s.m.privateChunk = NULL := not_not.mp hpriv
    split at h
    · cases h
    split at h
    · rename_i hchunk
      cases h
      exact Or.inr (Or.inr (Or.inl ⟨h0, h1, hchunk, rfl, rfl⟩))
    · rename_i hchunk
      cases h
      have h2 : s.mds.chunkHead = NULL := not_not.mp hchunk
      exact Or.inr (Or.inr (Or.inr ⟨h0, h1, h2, h2, rfl⟩))

theorem mempoolFree_cases {s r : Arena} {a : Addr} (h : mempoolFree s a = .ok r) :
    (s.m.numFree < s.m.chunkSize ∧
      r = { s with
        mem := setNext s.mem a s.m.head
        m := { s.m with numFree := s.m.numFree + 1, head := a } }) ∨
    (s.m.numFree = s.m.chunkSize ∧ s.m.privateChunk = NULL ∧
      r = { s with
        mem := setNext s.mem a NULL
        m := { s.m with privateChunk := s.m.head, head := a } }) ∨
    (s.m.numFree = s.m.chunkSize ∧ s.m.privateChunk ≠ NULL ∧
      r = {
        mem := setNextChunk (setNext s.mem a NULL) s.m.privateChunk s.mds.chunkHead
        mds := { s.mds with
          chunkHead := s.m.privateChunk
          freeChunks := s.mds.freeChunks + 1
          numLocks := s.mds.numLocks + 1 }
        m := { s.m with privateChunk := s.m.head, head := a } }) := by
  unfold mempoolFree at h
  split at h
  · rename_i hlt
    cases h
    exact Or.inl ⟨hlt, rfl⟩
  · unfold mempoolFree2 at h
    dsimp only at h
    split at h
    · cases h
    rename_i hnum
    have hfull : s.m.numFree = s.m.chunkSize := not_not.mp hnum
    split at h
    · rename_i hpriv
      cases h
      exact Or.inr (Or.inr ⟨hfull, hpriv, rfl⟩)
    · rename_i hpriv
      cases h
      exact Or.inr (Or.inl ⟨hfull, not_not.mp hpriv, rfl⟩)

@[simp] theorem Pools.put_arena (s : Pools) (p : Nat) : s.put p (s.arena p) s.held = s := by
  simp [Pools.put, Pools.arena]

/-- Everything a call can do to the pools. -/
inductive PoolMove (s : Pools) : PoolCall → Pools → Prop where
  | alloc {p : Nat} {a : Addr} {r : Arena} (hcall : mempoolAlloc (s.arena p) = .ok (a, r)) :
      PoolMove s (.alloc p) (s.put p r (if a = NULL then s.held else a :: s.held))
  | free {p : Nat} {a : Addr} {r : Arena} (hcall : mempoolFree (s.arena p) a = .ok r) :
      PoolMove s (.free p a) (s.put p r (s.held.erase a))
  | write (a : Addr) (v : MempoolHdr) :
      PoolMove s (.write a v) { s with mem := Function.update s.mem a v }

theorem Pools.step_cases {s t : Pools} {call : PoolCall} {es : List Addr}
    (h : s.step call = some (t, es)) : PoolMove s call t := by
  cases call with
  | alloc p =>
    cases hcall : mempoolAlloc (s.arena p) with
    | error b => simp [Pools.step, hcall] at h
    | ok ar =>
      simp only [Pools.step, hcall, Option.some.injEq, Prod.mk.injEq] at h
      obtain ⟨rfl, _⟩ := h
      exact .alloc hcall
  | free p a =>
    cases hcall : mempoolFree (s.arena p) a with
    | error b => simp [Pools.step, hcall] at h
    | ok r =>
      simp only [Pools.step, hcall, Option.some.injEq, Prod.mk.injEq] at h
      obtain ⟨rfl, _⟩ := h
      exact .free hcall
  | write a v =>
    simp only [Pools.step, Option.some.injEq, Prod.mk.injEq] at h
    obtain ⟨rfl, _⟩ := h
    exact .write a v

/-- The counter `free_chunks`, an `int`, counts the chunks of the datastore. -/
def FreeChunksExact (mds : MempoolDatastore) (chunks : List (List Addr)) : Prop :=
  mds.freeChunks = Int32.ofNat chunks.length

/-- A returned pointer names a move of the layout; `NULL` means that there is no
element left within the reach of the pool. Only the first stage counts. -/
theorem mempoolAlloc_spec {P p : Nat} {s : Pools} {L : Layout} {a : Addr} {r : Arena}
    (hL : L.Represents P s) (hexact : FreeChunksExact s.mds L.chunks) (hp : p < P)
    (h : mempoolAlloc (s.arena p) = .ok (a, r)) :
    (a = NULL ∧ L.cached p = [] ∧ L.chunks = [] ∧ r = s.arena p) ∨
    (a ≠ NULL ∧ ∃ second L', L.Alloc p a second L' ∧ FreeChunksExact r.mds L'.chunks ∧
      r.m.numFree = (if second then (s.pool p).numFree else (s.pool p).numFree - 1) ∧
      ∀ held, L'.Represents P (s.put p r held)) := by
  have hhead := hL.head p hp
  have hpriv := hL.priv p hp
  have hchunks := hL.chunks
  rcases mempoolAlloc_cases h with ⟨hne, rfl, rfl⟩ | ⟨h0, hne, rfl, rfl⟩ |
    ⟨h0, h1, hne, rfl, rfl⟩ | ⟨h0, h1, h2, rfl, rfl⟩
  · obtain ⟨xs, hxs, htail⟩ := hhead.uncons hne
    refine Or.inr ⟨hne, _, _, .hot hxs, hexact, rfl, ?_⟩
    intro held
    refine hL.put (by simpa [Pools.arena] using htail) hpriv hchunks ?_ (fun _ _ _ _ _ => rfl)
    intro q hq
    simp [hq]
  · have hempty := hhead.null_iff.mp h0
    obtain ⟨xs, hxs, htail⟩ := hpriv.uncons hne
    refine Or.inr ⟨hne, _, _, .priv hempty hxs, hexact, rfl, ?_⟩
    intro held
    refine hL.put (by simpa [Pools.arena] using htail) (by simp) hchunks ?_ (fun _ _ _ _ _ => rfl)
    intro q hq
    simp [hq]
  · have hempty := hhead.null_iff.mp h0
    have hempty' := hpriv.null_iff.mp h1
    obtain ⟨c, cs, hcs, hc, hrest⟩ := hchunks.uncons hne
    obtain ⟨xs, rfl, htail⟩ := hc.uncons hne
    refine Or.inr ⟨hne, _, _, .chunk hempty hempty' hcs, ?_, rfl, ?_⟩
    · simp only [FreeChunksExact, hcs, List.length_cons] at hexact ⊢
      simp [Pools.arena, hexact, Int32.ofNat_add]
    · intro held
      refine hL.put (by simpa [Pools.arena] using htail) hpriv hrest ?_ (fun _ _ _ _ _ => rfl)
      intro q hq
      simp [hq]
  · refine Or.inl ⟨rfl, ?_, hchunks.null_iff.mp h2, rfl⟩
    simp [Layout.cached, hhead.null_iff.mp h0, hpriv.null_iff.mp h1]

/-- An element that is not free already is taken back by a move of the layout. The
counter alone decides which stage that is. -/
theorem mempoolFree_spec {P p : Nat} {s : Pools} {L : Layout} {a : Addr} {r : Arena}
    (hL : L.Represents P s) (hexact : FreeChunksExact s.mds L.chunks) (hp : p < P)
    (ha : a ≠ NULL) (hfresh : a ∉ L.free P) (hnodup : (L.free P).Nodup)
    (h : mempoolFree (s.arena p) a = .ok r) :
    ∃ second L', L.Free p a second L' ∧ FreeChunksExact r.mds L'.chunks ∧
      (if second then (s.pool p).numFree = (s.pool p).chunkSize ∧ r.m.numFree = (s.pool p).numFree
        else (s.pool p).numFree < (s.pool p).chunkSize ∧ r.m.numFree = (s.pool p).numFree + 1) ∧
      ∀ held, L'.Represents P (s.put p r held) := by
  have hhead := hL.head p hp
  have hpriv := hL.priv p hp
  have hchunks := hL.chunks
  have hcached : ∀ q < P, ∀ x ∈ L.cached q, x ≠ a := by
    rintro q hq x hx rfl
    exact hfresh (Layout.mem_free_of_cached hq hx)
  have hstored : ∀ x ∈ L.chunks.flatten, x ≠ a := by
    rintro x hx rfl
    exact hfresh (Layout.mem_free_of_chunks hx)
  have hxhead : ∀ x ∈ L.head p, x ≠ a := fun x hx =>
    hcached p hp x (List.mem_append_left _ hx)
  have hxpriv : ∀ x ∈ L.priv p, x ≠ a := fun x hx =>
    hcached p hp x (List.mem_append_right _ hx)
  rcases mempoolFree_cases h with ⟨hnum, rfl⟩ | ⟨hnum, h1, rfl⟩ | ⟨hnum, hne, rfl⟩
  · refine ⟨_, _, .hot, hexact, ⟨hnum, rfl⟩, ?_⟩
    intro held
    refine hL.put ?_ (hpriv.frame fun x hx => by simp [Pools.arena, hxpriv x hx])
      (hchunks.frame (fun x hx => by simp [Pools.arena, hstored x hx]) (by simp [Pools.arena]))
      (fun q hq => by simp [hq]) (fun q hq _ x hx => by simp [Pools.arena, hcached q hq x hx])
    simpa [Pools.arena] using hhead.push ha (by simp) (fun x hx => by simp [hxhead x hx])
  · refine ⟨_, _, .retire (hpriv.null_iff.mp h1), hexact, ⟨hnum, rfl⟩, ?_⟩
    intro held
    refine hL.put ?_ ?_
      (hchunks.frame (fun x hx => by simp [Pools.arena, hstored x hx]) (by simp [Pools.arena]))
      (fun q hq => by simp [hq]) (fun q hq _ x hx => by simp [Pools.arena, hcached q hq x hx])
    · simp [Linked, ha]
    · simpa [Pools.arena] using hhead.frame fun x hx => by simp [hxhead x hx]
  · obtain ⟨xs, hxs, _⟩ := hpriv.uncons hne
    have hpne : L.priv p ≠ [] := by simp [hxs]
    -- the retired chunk is not on the datastore yet, so its link there is free to set
    have hapart : ∀ x ∈ L.chunks.flatten, x ≠ (s.pool p).privateChunk := by
      rintro x hx rfl
      have hmem : (s.pool p).privateChunk ∈ L.cached p := by simp [Layout.cached, hxs]
      have hsplit := (L.free_split hp).nodup_iff.mp hnodup
      exact (List.nodup_append.mp hsplit).2.2 _ hmem _ (List.mem_append_left _ hx) rfl
    refine ⟨_, _, .restock hpne, ?_, ⟨hnum, rfl⟩, ?_⟩
    · simp only [FreeChunksExact, List.length_cons] at hexact ⊢
      simp [Pools.arena, hexact, Int32.ofNat_add]
    · intro held
      refine hL.put ?_ ?_ ⟨hne, ?_, ?_⟩ (fun q hq => by simp [hq])
        (fun q hq _ x hx => by simp [Pools.arena, hcached q hq x hx])
      · simp [Linked, ha]
      · simpa [Pools.arena] using hhead.frame fun x hx => by simp [hxhead x hx]
      · exact hpriv.frame fun x hx => by simp [Pools.arena, hxpriv x hx]
      · have hlink : (setNextChunk (setNext s.mem a NULL) (s.pool p).privateChunk s.mds.chunkHead
            (s.pool p).privateChunk).nextChunk = s.mds.chunkHead := by simp
        simp only [Pools.arena, hlink]
        exact hchunks.frame (fun x hx => by simp [hstored x hx])
          (fun x hx => by simp [hapart x hx])

end ThletEvaluation.Shinjuku
