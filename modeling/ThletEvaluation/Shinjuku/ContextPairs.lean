import ThletEvaluation.Shinjuku.Context
import ThletEvaluation.Shinjuku.SinglePool

/-!
# Contexts and stacks stay paired

The calls of `context.c` over whole histories. A live context and its stack are each out of
their own pool, and they are the only elements that are. The rollback of a failed allocation
goes through `mempool_free` and may leave the links in another order, but not other elements.
-/

namespace ThletEvaluation.Shinjuku

set_option autoImplicit false

structure ContextSys where
  pools : ContextPools
  live : List Addr

def ContextSys.stackBases (s : ContextSys) : List Addr := s.live.map s.pools.stackBase

inductive ContextCall where
  | alloc
  | free (c : Addr)
  /-- The user of a context or of a stack overwrites its first words. -/
  | write (a : Addr) (h : MempoolHdr)

inductive ContextEvent where
  | allocated (c stack : Addr)
  | failed
  | freed (c : Addr)
  deriving DecidableEq

/-- A failing `BUG_ON` ends the run. -/
def ContextSys.step (s : ContextSys) : ContextCall → Option (ContextSys × List ContextEvent)
  | .alloc =>
    match contextAlloc s.pools with
    | .error _ => none
    | .ok (none, p) => some (⟨p, s.live⟩, [.failed])
    | .ok (some c, p) => some (⟨p, c :: s.live⟩, [.allocated c (p.stackBase c)])
  | .free c =>
    match contextFree s.pools c with
    | .error _ => none
    | .ok p => some (⟨p, s.live.erase c⟩, [.freed c])
  | .write a h => some (⟨{ s.pools with mem := Function.update s.pools.mem a h }, s.live⟩, [])

def contextMachine : Run.Machine ContextSys ContextCall ContextEvent := ⟨ContextSys.step⟩

/-- Only live contexts are freed, and only what is out of the pools is written. -/
def ContextCall.Legal (s : ContextSys) : ContextCall → Prop
  | .alloc => True
  | .free c => c ∈ s.live
  | .write a _ => a ∈ s.live ∨ a ∈ s.stackBases

instance (s : ContextSys) (call : ContextCall) : Decidable (call.Legal s) :=
  match call with
  | .alloc => .isTrue trivial
  | .free c => inferInstanceAs (Decidable (c ∈ s.live))
  | .write a _ => inferInstanceAs (Decidable (a ∈ s.live ∨ a ∈ s.stackBases))

/-- The two pools as `mempool_create` leaves them on two datastores with elements of their
own. -/
structure ContextPools.Created (ctxs stks : List (List Addr)) (p : ContextPools) : Prop where
  contexts : p.contextDatastore.Stocked p.mem ctxs
  stackElems : p.stackDatastore.Stocked p.mem stks
  contextPool : ∃ ds, ds ≠ NULL ∧ mempoolCreate {} ds p.contextDatastore = .ok p.contextPool
  stackPool : ∃ ds, ds ≠ NULL ∧ mempoolCreate {} ds p.stackDatastore = .ok p.stackPool
  apart : ∀ x ∈ ctxs.flatten, x ∉ stks.flatten

/-- Following the links of a pool and of its datastore visits exactly these elements. -/
def Arena.Offers (s : Arena) (xs : List Addr) : Prop :=
  ∃ L : Layout, L.Represents 1 (s.pools []) ∧ L.available = xs

/-- Live contexts are out of one pool and their stacks out of the other. -/
structure Paired (ctxs stks : List Addr) (s : ContextSys) (L K : Layout) : Prop where
  contexts : PoolState ctxs s.live s.pools.contextArena L
  stackElems : PoolState stks s.stackBases s.pools.stackArena K
  apart : ∀ x ∈ ctxs, x ∉ stks

section Calls
variable {ctxs stks : List Addr} {p p' : ContextPools} {live : List Addr} {L K : Layout}

/-- Everything `context_alloc` can do when it returns. -/
theorem contextAlloc_cases {res : Option Addr} (h : contextAlloc p = .ok (res, p')) :
    (∃ r, mempoolAlloc p.contextArena = .ok (NULL, r) ∧ res = none ∧ p' = p.setContexts r) ∨
    (∃ c r r' r'', mempoolAlloc p.contextArena = .ok (c, r) ∧ c ≠ NULL ∧
      mempoolAlloc (p.setContexts r).stackArena = .ok (NULL, r') ∧
      mempoolFree ((p.setContexts r).setStacks r').contextArena c = .ok r'' ∧ res = none ∧
      p' = ((p.setContexts r).setStacks r').setContexts r'') ∨
    (∃ c stack r r', mempoolAlloc p.contextArena = .ok (c, r) ∧ c ≠ NULL ∧
      mempoolAlloc (p.setContexts r).stackArena = .ok (stack, r') ∧ stack ≠ NULL ∧
      res = some c ∧ p' = { (p.setContexts r).setStacks r' with
        stackBase := Function.update p.stackBase c stack }) := by
  unfold contextAlloc at h
  simp only [bind, Except.bind, pure, Except.pure] at h
  split at h
  · cases h
  next v hctx =>
    obtain ⟨c, r⟩ := v
    split at h
    next hc =>
      obtain rfl : c = NULL := hc
      obtain ⟨rfl, rfl⟩ := Prod.mk.inj (Except.ok.inj h)
      exact .inl ⟨r, hctx, rfl, rfl⟩
    next hc =>
      split at h
      · cases h
      next v hstk =>
        obtain ⟨stack, r'⟩ := v
        split at h
        next hs =>
          obtain rfl : stack = NULL := hs
          split at h
          · cases h
          next r'' hfree =>
            obtain ⟨rfl, rfl⟩ := Prod.mk.inj (Except.ok.inj h)
            exact .inr (.inl ⟨c, r, r', r'', hctx, hc, hstk, hfree, rfl, rfl⟩)
        next hs =>
          obtain ⟨rfl, rfl⟩ := Prod.mk.inj (Except.ok.inj h)
          exact .inr (.inr ⟨c, stack, r, r', hctx, hc, hstk, hs, rfl, rfl⟩)

theorem contextFree_cases {c : Addr} (h : contextFree p c = .ok p') :
    ∃ r r', mempoolFree p.stackArena (p.stackBase c) = .ok r ∧
      mempoolFree (p.setStacks r).contextArena c = .ok r' ∧
      p' = (p.setStacks r).setContexts r' := by
  unfold contextFree at h
  simp only [bind, Except.bind, pure, Except.pure] at h
  split at h
  · cases h
  next r hstk =>
    split at h
    · cases h
    next r' hctx =>
      obtain rfl := Except.ok.inj h
      exact ⟨r, r', hstk, hctx, rfl⟩

/-- An allocation writes no link, so the stacks are where they were. -/
theorem stackArena_setContexts {r : Arena} (h : r.mem = p.mem) :
    (p.setContexts r).stackArena = p.stackArena := by
  simp [ContextPools.stackArena, ContextPools.setContexts, h]

theorem contextArena_rollback {r : Arena} (h : r.mem = p.mem) :
    ((p.setContexts r).setStacks p.stackArena).contextArena = r := by
  obtain ⟨mem, mds, m⟩ := r
  obtain rfl : mem = p.mem := h
  rfl

/-- A fresh context takes its stack along. -/
theorem stackBases_cons {c stack : Addr} (hc : c ∉ live) :
    (c :: live).map (Function.update p.stackBase c stack) = stack :: live.map p.stackBase := by
  rw [List.map_cons, Function.update_self]
  congr 1
  apply List.map_congr_left
  intro x hx
  have hne : x ≠ c := fun heq => hc (heq ▸ hx)
  exact Function.update_of_ne hne _ _

/-- A call that fails has found one of the pools empty and gives back what it took; one that
succeeds takes one element from each. -/
theorem Paired.alloc (h : Paired ctxs stks ⟨p, live⟩ L K) {res : Option Addr}
    (hcall : contextAlloc p = .ok (res, p')) :
    (res = none ∧ (L.available = [] ∨ K.available = []) ∧ ∃ L' K',
      Paired ctxs stks ⟨p', live⟩ L' K' ∧ L'.available.Perm L.available ∧
        K'.available.Perm K.available) ∨
    (∃ c L' K', res = some c ∧ Paired ctxs stks ⟨p', c :: live⟩ L' K' ∧
      L.available.Perm (c :: L'.available) ∧
      K.available.Perm (p'.stackBase c :: K'.available)) := by
  rcases contextAlloc_cases hcall with ⟨r, hctx, rfl, rfl⟩ |
    ⟨c, r, r', r'', hctx, hc, hstk, hfree, rfl, rfl⟩ |
    ⟨c, stack, r, r', hctx, hc, hstk, hs, rfl, rfl⟩
  · rcases h.contexts.alloc hctx with ⟨-, hempty, rfl⟩ | ⟨hne, -⟩
    · exact .inl ⟨rfl, .inl hempty, L, K, h, .refl _, .refl _⟩
    · exact absurd rfl hne
  · rcases h.contexts.alloc hctx with ⟨hnull, -⟩ | ⟨-, hmem, L₁, hL₁, hperm⟩
    · exact absurd hnull hc
    rw [stackArena_setContexts hmem] at hstk
    rcases h.stackElems.alloc hstk with ⟨-, hempty, rfl⟩ | ⟨hne, -⟩
    · rw [contextArena_rollback hmem] at hfree
      obtain ⟨L₂, hL₂, hperm₂⟩ := hL₁.free (.refl _) hfree
      refine .inl ⟨rfl, .inr hempty, L₂, K, ⟨hL₂, ?_, h.apart⟩, hperm₂.trans hperm.symm, .refl _⟩
      exact h.stackElems.frame (by simp [hempty])
    · exact absurd rfl hne
  · rcases h.contexts.alloc hctx with ⟨hnull, -⟩ | ⟨-, hmem, L₁, hL₁, hperm⟩
    · exact absurd hnull hc
    obtain ⟨_, mds, m⟩ := r
    obtain rfl := hmem
    rcases h.stackElems.alloc hstk with ⟨hnull, -⟩ | ⟨-, hmem', K₁, hK₁, hpermK⟩
    · exact absurd hnull hs
    obtain ⟨_, mds', m'⟩ := r'
    obtain rfl := hmem'
    have hfresh : c ∉ live := (List.nodup_cons.mp hL₁.held_nodup).1
    refine .inr ⟨c, L₁, K₁, rfl, ⟨hL₁, ?_, h.apart⟩, hperm, ?_⟩
    · change PoolState stks ((c :: live).map (Function.update p.stackBase c stack)) _ K₁
      rw [stackBases_cons hfresh]
      exact hK₁
    · simpa using hpermK

theorem Paired.free (h : Paired ctxs stks ⟨p, live⟩ L K) {c : Addr} (hc : c ∈ live)
    (hcall : contextFree p c = .ok p') :
    ∃ L' K', Paired ctxs stks ⟨p', live.erase c⟩ L' K' ∧
      L'.available.Perm (c :: L.available) ∧ K'.available.Perm (p.stackBase c :: K.available) := by
  obtain ⟨r, r', hstk, hctx, rfl⟩ := contextFree_cases hcall
  have hlive : live.Perm (c :: live.erase c) := List.perm_cons_erase hc
  have hbases : (live.map p.stackBase).Perm (p.stackBase c :: (live.erase c).map p.stackBase) :=
    hlive.map p.stackBase
  have hmem := h.stackElems.free_mem (List.mem_map_of_mem hc) hstk
  obtain ⟨K₁, hK₁, hpermK⟩ := h.stackElems.free hbases hstk
  -- the other pool's links are not touched, either way
  have hcontexts : PoolState ctxs live (p.setStacks r).contextArena L := by
    apply h.contexts.frame
    intro x hx
    exact hmem x (h.apart x (h.contexts.available_subset hx))
  have hmem' := hcontexts.free_mem hc hctx
  obtain ⟨L₁, hL₁, hpermL⟩ := hcontexts.free hlive hctx
  refine ⟨L₁, K₁, ⟨hL₁, ?_, h.apart⟩, hpermL, hpermK⟩
  apply hK₁.frame
  intro x hx
  exact hmem' x fun hmem => h.apart x hmem (hK₁.available_subset hx)

theorem Paired.write (h : Paired ctxs stks ⟨p, live⟩ L K) {a : Addr} (hdr : MempoolHdr)
    (ha : a ∈ live ∨ a ∈ live.map p.stackBase) :
    Paired ctxs stks ⟨{ p with mem := Function.update p.mem a hdr }, live⟩ L K := by
  have keep {elems held : List Addr} {s : Arena} {M : Layout} (hM : PoolState elems held s M)
      (hout : a ∈ held ∨ a ∉ elems) :
      ∀ x ∈ M.available, Function.update p.mem a hdr x = p.mem x := by
    intro x hx
    apply Function.update_of_ne
    rintro rfl
    rcases hout with hheld | hother
    · exact (List.nodup_append.mp hM.nodup).2.2 x hheld x hx rfl
    · exact hother (hM.available_subset hx)
  refine ⟨h.contexts.frame (keep h.contexts ?_), h.stackElems.frame (keep h.stackElems ?_), h.apart⟩
  · exact ha.imp_right fun hstk hctx => h.apart a hctx (h.stackElems.held_subset hstk)
  · exact ha.symm.imp_right fun hctx => h.apart a (h.contexts.held_subset hctx)

/-- No assertion fails, the one behind the rollback included. -/
theorem Paired.alloc_returns (h : Paired ctxs stks ⟨p, live⟩ L K) (hsmall : ctxs.length < 2 ^ 31) :
    ∃ r, contextAlloc p = .ok r := by
  obtain ⟨c, r, hctx⟩ := h.contexts.alloc_returns
  rcases h.contexts.alloc hctx with ⟨rfl, -⟩ | ⟨hc, hmem, L₁, hL₁, -⟩
  · simp only [contextAlloc, hctx, bind, Except.bind, if_true, pure, Except.pure]
    exact ⟨_, rfl⟩
  obtain ⟨stack, r', hstk⟩ := h.stackElems.alloc_returns
  have hstk' : mempoolAlloc (p.setContexts r).stackArena = .ok (stack, r') := by
    rw [stackArena_setContexts hmem]
    exact hstk
  rcases h.stackElems.alloc hstk with ⟨rfl, -, rfl⟩ | ⟨hs, -⟩
  · obtain ⟨r'', hfree⟩ := hL₁.free_returns hsmall c
    rw [← contextArena_rollback hmem] at hfree
    simp [contextAlloc, hctx, hc, hstk', hfree, bind, Except.bind, pure, Except.pure]
  · simp [contextAlloc, hctx, hc, hstk', hs, bind, Except.bind, pure, Except.pure]

theorem Paired.free_returns (h : Paired ctxs stks ⟨p, live⟩ L K) (hsmall : ctxs.length < 2 ^ 31)
    (hsmall' : stks.length < 2 ^ 31) {c : Addr} (hc : c ∈ live) :
    ∃ p', contextFree p c = .ok p' := by
  obtain ⟨r, hstk⟩ := h.stackElems.free_returns hsmall' (p.stackBase c)
  have hmem := h.stackElems.free_mem (List.mem_map_of_mem hc) hstk
  have hcontexts : PoolState ctxs live (p.setStacks r).contextArena L := by
    apply h.contexts.frame
    intro x hx
    exact hmem x (h.apart x (h.contexts.available_subset hx))
  obtain ⟨r', hctx⟩ := hcontexts.free_returns hsmall c
  have hstk' : mempoolFree p.stackArena (p.stackBase c) = .ok r := hstk
  exact ⟨(p.setStacks r).setContexts r', by
    simp [contextFree, hstk', hctx, bind, Except.bind, pure, Except.pure]⟩

end Calls

theorem poolState_created {mem : Addr → MempoolHdr} {mds : MempoolDatastore} {m : Mempool}
    {ds : Addr} {chunks : List (List Addr)} (hstock : mds.Stocked mem chunks) (hds : ds ≠ NULL)
    (hcreate : mempoolCreate {} ds mds = .ok m) :
    PoolState chunks.flatten [] ⟨mem, mds, m⟩ (Layout.initial chunks) := by
  have hstart : (Arena.pools ⟨mem, mds, m⟩ []).Start 1 ds mem mds :=
    ⟨rfl, rfl, fun _ _ => hcreate, rfl⟩
  have hm := (hstart.pool_eq Nat.one_pos).2
  simp only [Arena.pools] at hm
  refine ⟨conserved_start hds hstock hstart, hstock.distinct,
    Chunked.null_notMem_flatten hstock.threaded, ?_, ?_⟩
  · simpa [hm] using hstock.size_pos
  · intro _
    have hpos := hstock.size_pos
    simp only [hm, List.length_nil, Int32.toInt_zero]
    omega

theorem Arena.offers_of_poolState {elems held : List Addr} {s : Arena} {L : Layout}
    (h : PoolState elems held s L) : s.Offers L.available :=
  ⟨L, ⟨h.conserved.rep.head, h.conserved.rep.priv, h.conserved.rep.chunks⟩, rfl⟩

section Histories
variable {ctxs stks : List (List Addr)} {p : ContextPools} {s : ContextSys}
variable {tr : List ContextEvent}

theorem Paired.step {ctxs stks : List Addr} {s t : ContextSys} {L K : Layout}
    {call : ContextCall} {es : List ContextEvent} (h : Paired ctxs stks s L K)
    (hlegal : call.Legal s) (hstep : s.step call = some (t, es)) :
    ∃ L' K', Paired ctxs stks t L' K' := by
  obtain ⟨p, live⟩ := s
  cases call with
  | alloc =>
    simp only [ContextSys.step] at hstep
    split at hstep
    · simp at hstep
    next p' hcall =>
      obtain ⟨rfl, -⟩ := Prod.mk.inj (Option.some.inj hstep)
      rcases h.alloc hcall with ⟨-, -, L', K', h', -⟩ | ⟨c, -, -, hsome, -⟩
      · exact ⟨L', K', h'⟩
      · simp at hsome
    next c p' hcall =>
      obtain ⟨rfl, -⟩ := Prod.mk.inj (Option.some.inj hstep)
      rcases h.alloc hcall with ⟨hnone, -⟩ | ⟨c', L', K', hsome, h', -⟩
      · simp at hnone
      · obtain rfl := Option.some.inj hsome
        exact ⟨L', K', h'⟩
  | free c =>
    simp only [ContextSys.step] at hstep
    split at hstep
    · simp at hstep
    next p' hcall =>
      obtain ⟨rfl, -⟩ := Prod.mk.inj (Option.some.inj hstep)
      obtain ⟨L', K', h', -⟩ := h.free hlegal hcall
      exact ⟨L', K', h'⟩
  | write a hdr =>
    obtain ⟨rfl, -⟩ := Prod.mk.inj (Option.some.inj hstep)
    exact ⟨L, K, h.write hdr hlegal⟩

theorem paired_created (h : p.Created ctxs stks) :
    Paired ctxs.flatten stks.flatten ⟨p, []⟩ (Layout.initial ctxs) (Layout.initial stks) := by
  obtain ⟨ds, hds, hctx⟩ := h.contextPool
  obtain ⟨ds', hds', hstk⟩ := h.stackPool
  exact ⟨poolState_created h.contexts hds hctx, poolState_created h.stackElems hds' hstk, h.apart⟩

theorem paired_reachable (h : p.Created ctxs stks)
    (hrun : Run.Runs contextMachine (fun s call => call.Legal s) ⟨p, []⟩ tr s) :
    ∃ L K, Paired ctxs.flatten stks.flatten s L K := by
  apply hrun.invariant (I := fun _ s => ∃ L K, Paired ctxs.flatten stks.flatten s L K)
  · exact ⟨_, _, paired_created h⟩
  · rintro tr es s t call ⟨L, K, hpaired⟩ hlegal hstep
    exact hpaired.step hlegal hstep

/-- In every history of the two calls: live contexts and their stacks are pairwise different and
out of their own pools, as many as are missing there, and a call that fails leaves both pools
with the elements they had. With fewer elements than an `int` counts, every call returns. -/
theorem contexts_paired (h : p.Created ctxs stks)
    (hrun : Run.Runs contextMachine (fun s call => call.Legal s) ⟨p, []⟩ tr s) :
    s.live.Nodup ∧ s.stackBases.Nodup ∧ s.live ⊆ ctxs.flatten ∧ s.stackBases ⊆ stks.flatten ∧
    (∃ xs ys, s.pools.contextArena.Offers xs ∧ s.pools.stackArena.Offers ys ∧
      (s.live ++ xs).Perm ctxs.flatten ∧ (s.stackBases ++ ys).Perm stks.flatten ∧
      ctxs.flatten.length - xs.length = stks.flatten.length - ys.length ∧
      ∀ p', contextAlloc s.pools = .ok (none, p') → (xs = [] ∨ ys = []) ∧
        ∃ xs' ys', p'.contextArena.Offers xs' ∧ p'.stackArena.Offers ys' ∧
          xs'.Perm xs ∧ ys'.Perm ys) ∧
    (ctxs.flatten.length < 2 ^ 31 → stks.flatten.length < 2 ^ 31 →
      (∃ r, contextAlloc s.pools = .ok r) ∧
        ∀ c ∈ s.live, ∃ p', contextFree s.pools c = .ok p') := by
  obtain ⟨L, K, hpaired⟩ := paired_reachable h hrun
  have hperm := hpaired.contexts.perm
  have hperm' := hpaired.stackElems.perm
  refine ⟨hpaired.contexts.held_nodup, hpaired.stackElems.held_nodup,
    hpaired.contexts.held_subset, hpaired.stackElems.held_subset,
    ⟨L.available, K.available, Arena.offers_of_poolState hpaired.contexts,
      Arena.offers_of_poolState hpaired.stackElems, hperm, hperm', ?_, ?_⟩, ?_⟩
  · have hlen := hperm.length_eq
    have hlen' := hperm'.length_eq
    simp only [List.length_append, ContextSys.stackBases, List.length_map] at hlen hlen'
    omega
  · intro p' hcall
    rcases hpaired.alloc hcall with ⟨-, hempty, L', K', h', hsame, hsame'⟩ | ⟨c, -, -, hsome, -⟩
    · exact ⟨hempty, L'.available, K'.available, Arena.offers_of_poolState h'.contexts,
        Arena.offers_of_poolState h'.stackElems, hsame, hsame'⟩
    · simp at hsome
  · intro hsmall hsmall'
    exact ⟨hpaired.alloc_returns hsmall, fun c hc => hpaired.free_returns hsmall hsmall' hc⟩

end Histories

/-- Two contexts in one chunk, and a single stack. -/
def pairMem (a : Addr) : MempoolHdr := if a = 16 then ⟨32, NULL⟩ else {}

def pairPools : ContextPools where
  mem := pairMem
  stackBase _ := NULL
  contextDatastore :=
    { magic := MEMPOOL_MAGIC, chunkHead := 16, chunkSize := 2, numChunks := 1, freeChunks := 1 }
  contextPool := { magic := MEMPOOL_MAGIC, datastore := 8, chunkSize := 2 }
  stackDatastore :=
    { magic := MEMPOOL_MAGIC, chunkHead := 48, chunkSize := 1, numChunks := 1, freeChunks := 1 }
  stackPool := { magic := MEMPOOL_MAGIC, datastore := 9, chunkSize := 1 }

theorem pairPools_created : pairPools.Created [[16, 32]] [[48]] where
  contexts := {
    magic := rfl
    size_pos := by decide
    threaded := by simp +decide [Chain.Chunked, Chain.Linked]
    sized := by decide
    distinct := by decide
    counted := rfl }
  stackElems := {
    magic := rfl
    size_pos := by decide
    threaded := by simp +decide [Chain.Chunked, Chain.Linked]
    sized := by decide
    distinct := by decide
    counted := rfl }
  contextPool := ⟨8, by decide, rfl⟩
  stackPool := ⟨9, by decide, rfl⟩
  apart := by simp

/-- The second allocation finds no stack and gives its context back. -/
theorem contexts_paired_rollback :
    ∃ s, Run.Runs contextMachine (fun s call => call.Legal s) ⟨pairPools, []⟩
        [.allocated 16 48, .failed] s ∧ s.live = [16] ∧ s.stackBases = [48] ∧
      s.live.Nodup ∧ ∃ xs, s.pools.contextArena.Offers xs ∧ (s.live ++ xs).Perm [16, 32] := by
  have hrun : Run.Runs contextMachine (fun s call => call.Legal s) ⟨pairPools, []⟩ _ _ :=
    Run.Machine.exec_runs (show contextMachine.exec _ ⟨pairPools, []⟩ [.alloc, .alloc] = _ from rfl)
  obtain ⟨hnodup, -, -, -, ⟨xs, -, hxs, -, hperm, -⟩, -⟩ := contexts_paired pairPools_created hrun
  exact ⟨_, hrun, rfl, rfl, hnodup, xs, hxs, hperm⟩

end ThletEvaluation.Shinjuku
