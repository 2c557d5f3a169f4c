import ThletEvaluation.Shinjuku.MempoolThreads

/-!
# Interleaved pool calls refine atomic ones

The atomic pools run behind the interleaved ones. Most steps of a core are invisible to them, and
at one step of each call they make the whole call.
-/

namespace ThletEvaluation.Shinjuku

open Chain
set_option autoImplicit false

section Steps
variable {P p : Nat} {s s' : PoolSys} {c : PoolPc} {t t' : Pools} {tr es tr' tr'' : List Addr}

/-- The step is invisible to the atomic pools, or a call takes effect at it. -/
inductive Matched (P : Nat) (s' : PoolSys) (tr : List Addr) (t : Pools) (tr' : List Addr) :
    Prop where
  | silent (hs : Careful P s') (hb : Behind P s' tr t tr')
  | effect {t' : Pools} {es : List Addr} (call : PoolCall) (hlegal : call.Legal P t)
      (hstep : t.step call = some (t', es)) (hs : Careful P s') (hb : Behind P s' tr t' (tr' ++ es))

section Cases
variable {elems : List Addr} {L : Layout}

/-- A step under the lock that the atomic pools do not see. -/
theorem matched_locked (hs : Careful P s) (hb : Behind P s tr t tr')
    (hmove : s.Moves p c s') (hlocked : (s.pc p).locked = true) (hc : c.locked = true)
    (hmem : s'.mem = s.mem) (hpool : s'.pool = s.pool) (hheld : s'.held = s.held)
    (hok : c.Ok s.mem s'.mds (s.pool p))
    (hmds : c.mds (s.pool p) s'.mds = (s.pc p).mds (s.pool p) s.mds)
    (hpool' : c.pool (s.pool p) = (s.pc p).pool (s.pool p)) (howned : c.owned = (s.pc p).owned)
    (hresult : c.result = (s.pc p).result) : Matched P s' (tr ++ []) t tr' := by
  have hp : p < P := hs.lt p fun hidle => by simp [hidle, PoolPc.locked] at hlocked
  refine .silent (hmove.careful_locked hs hlocked hp (by rw [hmem]; exact fun _ => rfl)
    (by rwa [hmem, hpool])) (hmove.behind hb hp (by rw [hmem, hb.mem]) ?_ ?_ ?_ ?_)
  · rw [hb.mds, hs.atomicMds hlocked, hmove.atomicMds_self hc, hpool, hmds]
  · rw [hpool, hpool', ← hb.pool p, Function.update_eq_self]
  · intro x
    rw [hheld, howned]
  · intro x
    simp [hresult]

/-- Taking the lock, giving it back, and what a core does after that are not seen either. -/
theorem matched_quiet (hs : Careful P s) (hb : Behind P s tr t tr') (hmove : s.Moves p c s')
    (hp : p < P) (hmem : s'.mem = s.mem) (hmds : s'.mds = s.mds)
    (hatomic : s'.atomicMds = s.atomicMds) (hok : c.Ok s.mem s.mds (s'.pool p))
    (hpool : c.pool (s'.pool p) = (s.pc p).pool (s.pool p))
    (hheld : ∀ x, s.held.count x + (s.pc p).owned.count x = s'.held.count x + c.owned.count x)
    (hresult : (s.pc p).result = es ++ c.result) : Matched P s' (tr ++ es) t tr' := by
  refine .silent (hmove.careful_quiet hs hp hmem hmds hok)
    (hmove.behind hb hp (by rw [hmem, hb.mem]) (by rw [hb.mds, hatomic]) ?_ ?_ ?_)
  · rw [hpool, ← hb.pool p, Function.update_eq_self]
  · intro x
    have hx := hheld x
    omega
  · intro x
    rw [hresult, List.count_append]
    omega

theorem matched_acquire (hs : Careful P s) (hb : Behind P s tr t tr') (hp : p < P)
    (hlock : s.lock = none) (hc : c.locked = true)
    (hok : c.Ok s.mem s.mds (s.pool p)) (hmds : c.mds (s.pool p) s.mds = s.mds)
    (hpool : c.pool (s.pool p) = (s.pc p).pool (s.pool p)) (howned : (s.pc p).owned = c.owned)
    (hresult : (s.pc p).result = c.result) :
    Matched P { s.setPc p c with lock := some p } (tr ++ []) t tr' := by
  have hmove : s.Moves p c { s.setPc p c with lock := some p } := by
    refine ⟨rfl, fun _ _ => rfl, by simp [hc], fun q hq => ?_⟩
    simp [hlock, Ne.symm hq]
  refine matched_quiet hs hb hmove hp rfl rfl ?_ hok hpool ?_ (by simp [hresult])
  · rw [hmove.atomicMds_self hc, PoolSys.atomicMds, hlock]
    exact hmds
  · intro x
    rw [howned]
    rfl

theorem matched_release (hs : Careful P s) (hb : Behind P s tr t tr')
    (hlocked : (s.pc p).locked = true) (hc : c.locked = false)
    (hpc : s'.pc = Function.update s.pc p c) (hsame : s'.pool = s.pool) (hlock : s'.lock = none)
    (hmem : s'.mem = s.mem) (hmds : s'.mds = s.mds)
    (hatomic : (s.pc p).mds (s.pool p) s.mds = s.mds) (hok : c.Ok s.mem s.mds (s.pool p))
    (hpool : c.pool (s.pool p) = (s.pc p).pool (s.pool p))
    (hheld : ∀ x, s.held.count x + (s.pc p).owned.count x = s'.held.count x + c.owned.count x)
    (hresult : (s.pc p).result = es ++ c.result) : Matched P s' (tr ++ es) t tr' := by
  have hp : p < P := hs.lt p fun hidle => by simp [hidle, PoolPc.locked] at hlocked
  have hown := (hs.lock p).mp hlocked
  have hmove : s.Moves p c s' := by
    refine ⟨hpc, fun _ _ => by rw [hsame], by simp [hc, hlock], fun q hq => ?_⟩
    simp [hlock, hown, Ne.symm hq]
  refine matched_quiet hs hb hmove hp hmem hmds ?_ (by rwa [hsame]) (by rw [hsame, hpool]) hheld
    hresult
  rw [hs.atomicMds hlocked, hatomic, PoolSys.atomicMds, hlock, ← hmds]

/-! ## Where the calls take effect -/

theorem mempoolAlloc_empty {r : Arena} (h : r.m.Empty) :
    mempoolAlloc r = if r.mds.chunkHead = NULL then .ok (NULL, r) else
      .ok (r.mds.chunkHead, { r with
        mds := { r.mds with
          chunkHead := (r.mem r.mds.chunkHead).nextChunk
          freeChunks := r.mds.freeChunks - 1
          numLocks := r.mds.numLocks + 1 }
        m := { r.m with head := (r.mem r.mds.chunkHead).next } }) := by
  obtain ⟨hhead, hpriv, hmagic, hds⟩ := h
  by_cases hne : r.mds.chunkHead = NULL <;>
    simp [mempoolAlloc, mempoolAlloc2, hhead, hpriv, hmagic, hds, hne]

theorem setNext_eq_self {mem : Addr → MempoolHdr} {a v : Addr} (h : (mem a).next = v) :
    setNext mem a v = mem := by
  rw [setNext, ← h, Function.update_eq_self]

theorem count_of_erase {l : List Addr} {a : Addr} (h : a ∈ l) (x : Addr) :
    l.count x = (l.erase a).count x + [a].count x := by
  have hcount := (List.perm_cons_erase h).count_eq x
  rw [hcount, List.count_cons, List.count_singleton]

theorem owned_mem (hs : Careful P s) (hb : Behind P s tr t tr') {a : Addr}
    (ha : a ∈ (s.pc p).owned) : a ∈ t.held := by
  have hp : p < P := hs.lt p fun hidle => by simp [hidle, PoolPc.owned] at ha
  exact hb.held.symm.subset
    (List.mem_append_right _ (List.mem_flatMap.mpr ⟨p, List.mem_range.mpr hp, ha⟩))

theorem Behind.arena (hb : Behind P s tr t tr') (hpool : (s.pc p).pool (s.pool p) = s.pool p) :
    t.arena p = ⟨s.mem, s.atomicMds, s.pool p⟩ := by
  rw [Pools.arena, hb.mem, hb.mds, hb.pool p, hpool]

/-- The second stage of an allocation finds no chunk. -/
theorem matched_allocNull (hs : Careful P s) (hb : Behind P s tr t tr') (hp : p < P)
    (hpc : s.pc p = .allocChunk) (hnull : s.mds.chunkHead = NULL) :
    Matched P (s.setPc p (.allocUnlock NULL)) (tr ++ []) t tr' := by
  have hok := hs.ok p
  rw [hpc] at hok
  have hlocked : (s.pc p).locked = true := by rw [hpc]; rfl
  have hmds : s.atomicMds = s.mds := by rw [hs.atomicMds hlocked, hpc]; rfl
  have harena : t.arena p = ⟨s.mem, s.mds, s.pool p⟩ := by
    rw [hb.arena (by rw [hpc]; rfl), hmds]
  have hmove : s.Moves p (.allocUnlock NULL) (s.setPc p (.allocUnlock NULL)) :=
    hs.moves rfl (fun _ _ => rfl) rfl hlocked.symm
  have hstep : t.step (.alloc p) = some (t, [NULL]) := by
    have hcall : mempoolAlloc (t.arena p) = .ok (NULL, t.arena p) := by
      rw [mempoolAlloc_empty (by rw [harena]; exact hok), harena]
      simp [hnull]
    simp [Pools.step, hcall]
  refine .effect (.alloc p) hp hstep
    (hmove.careful_locked hs hlocked hp (fun _ => rfl) trivial)
    (hmove.behind hb hp hb.mem ?_ ?_ ?_ ?_)
  · rw [hb.mds, hmds, hmove.atomicMds_self rfl]
    rfl
  · have hpool := hb.pool p
    rw [hpc] at hpool
    rw [show (PoolPc.allocUnlock NULL).pool ((s.setPc p (.allocUnlock NULL)).pool p) = t.pool p
      from hpool.symm, Function.update_eq_self]
  · intro x
    simp [hpc, PoolPc.owned, PoolSys.setPc]
  · intro x
    simp [hpc, PoolPc.result]

/-- The second stage of an allocation takes a chunk. -/
theorem matched_allocNext (hs : Careful P s) (hb : Behind P s tr t tr') (hp : p < P) {h : Addr}
    (hpc : s.pc p = .allocNext h) :
    Matched P ((s.setPool p { s.pool p with head := (s.mem h).next }).setPc p (.allocCount h))
      (tr ++ []) t tr' := by
  have hok := hs.ok p
  rw [hpc] at hok
  obtain ⟨hempty, hne, hhead⟩ := hok
  have hlocked : (s.pc p).locked = true := by rw [hpc]; rfl
  have hmds : s.atomicMds = { s.mds with chunkHead := h } := by
    rw [hs.atomicMds hlocked, hpc]
    rfl
  have harena : t.arena p = ⟨s.mem, { s.mds with chunkHead := h }, s.pool p⟩ := by
    rw [hb.arena (by rw [hpc]; rfl), hmds]
  have hmove : s.Moves p (.allocCount h)
      ((s.setPool p { s.pool p with head := (s.mem h).next }).setPc p (.allocCount h)) :=
    hs.moves rfl (fun q hq => Function.update_of_ne hq ..) rfl hlocked.symm
  have hcall := mempoolAlloc_empty (r := t.arena p) (by rw [harena]; exact hempty)
  rw [harena, if_neg hne] at hcall
  have hstep : t.step (.alloc p) = some (t.put p {
      mem := s.mem
      mds := { s.mds with
        chunkHead := (s.mem h).nextChunk
        freeChunks := s.mds.freeChunks - 1
        numLocks := s.mds.numLocks + 1 }
      m := { s.pool p with head := (s.mem h).next } } (h :: t.held), [h]) := by
    simp only [Pools.step, harena, hcall, if_neg hne]
  refine .effect (.alloc p) hp hstep
    (hmove.careful_locked hs hlocked hp (fun _ => rfl) hne)
    (hmove.behind hb hp rfl ?_ ?_ ?_ ?_)
  · rw [hmove.atomicMds_self rfl]
    simp [Pools.put, PoolPc.mds, PoolSys.setPc, PoolSys.setPool, hhead]
  · simp [Pools.put, PoolPc.pool, PoolSys.setPc, PoolSys.setPool]
  · intro x
    simp [hpc, PoolPc.owned, PoolSys.setPc, PoolSys.setPool, Pools.put, hne, List.count_cons]
    omega
  · intro x
    simp [hpc, PoolPc.result]

/-- The second stage of a free links its chunk. -/
theorem matched_freeLink (hs : Careful P s) (hb : Behind P s tr t tr') (hp : p < P) {a v : Addr}
    (hpc : s.pc p = .freeLink a v) :
    Matched P { s.setPc p (.freeStore a) with
      mem := setNextChunk s.mem (s.pool p).privateChunk v } (tr ++ []) t tr' := by
  have hok := hs.ok p
  rw [hpc] at hok
  obtain ⟨⟨hfull, hpriv⟩, hnext, hhead⟩ := hok
  have hlocked : (s.pc p).locked = true := by rw [hpc]; rfl
  have hmds : s.atomicMds = s.mds := by rw [hs.atomicMds hlocked, hpc]; rfl
  have harena : t.arena p = ⟨s.mem, s.mds, s.pool p⟩ := by
    rw [hb.arena (by rw [hpc]; rfl), hmds]
  have hmove : s.Moves p (.freeStore a) { s.setPc p (.freeStore a) with
      mem := setNextChunk s.mem (s.pool p).privateChunk v } :=
    hs.moves rfl (fun _ _ => rfl) rfl hlocked.symm
  have ha : a ∈ t.held := owned_mem hs hb (p := p) (by simp [hpc, PoolPc.owned])
  have hstep : t.step (.free p a) = some (t.put p {
      mem := setNextChunk s.mem (s.pool p).privateChunk v
      mds := { s.mds with
        chunkHead := (s.pool p).privateChunk
        freeChunks := s.mds.freeChunks + 1
        numLocks := s.mds.numLocks + 1 }
      m := { s.pool p with
        privateChunk := (s.pool p).head
        head := a } } (t.held.erase a), []) := by
    simp [Pools.step, harena, mempoolFree, mempoolFree2, hfull, hpriv, setNext_eq_self hnext, hhead]
  refine .effect (.free p a) ⟨hp, ha⟩ hstep
    (hmove.careful_locked hs hlocked hp (fun x => by simp) trivial)
    (hmove.behind hb hp rfl ?_ rfl ?_ ?_)
  · rw [hmove.atomicMds_self rfl]
    rfl
  · intro x
    have hx := count_of_erase ha x
    simp [hpc, PoolPc.owned, PoolSys.setPc, Pools.put] at hx ⊢
    omega
  · intro x
    simp [hpc, PoolPc.result]

/-- An allocation from what the pool has itself. -/
theorem matched_own (hs : Careful P s) (hb : Behind P s tr t tr') (hp : p < P)
    (hpc : s.pc p = .idle) {a : Addr} {m : Mempool} (ha : a ≠ NULL)
    (hcall : mempoolAlloc ⟨s.mem, s.atomicMds, s.pool p⟩ = .ok (a, ⟨s.mem, s.atomicMds, m⟩)) :
    Matched P ((s.setPool p m).give a) (tr ++ [a]) t tr' := by
  have hmove : s.Moves p .idle ((s.setPool p m).give a) := by
    refine hs.moves ?_ (fun q hq => Function.update_of_ne hq ..) rfl (by rw [hpc])
    rw [← hpc, Function.update_eq_self]
    rfl
  have hstep : t.step (.alloc p) = some (t.put p ⟨s.mem, s.atomicMds, m⟩ (a :: t.held), [a]) := by
    simp [Pools.step, hb.arena (p := p) (by rw [hpc]; rfl), hcall, ha]
  refine .effect (.alloc p) hp hstep (hmove.careful_quiet hs hp rfl rfl trivial)
    (hmove.behind hb hp rfl ?_ ?_ ?_ ?_)
  · exact (hmove.atomicMds_other hs (by rw [hpc]; rfl) rfl rfl).symm
  · simp [Pools.put, PoolPc.pool, PoolSys.setPool, PoolSys.give]
  · intro x
    simp [hpc, PoolPc.owned, PoolSys.setPool, PoolSys.give, Pools.put, ha, List.count_cons]
    omega
  · intro x
    simp [hpc, PoolPc.result]

theorem matched_alloc (hs : Careful P s) (hb : Behind P s tr t tr') (hp : p < P)
    (hpc : s.pc p = .idle) (hstep : s.alloc p = some (s', es)) : Matched P s' (tr ++ es) t tr' := by
  simp only [PoolSys.alloc] at hstep
  split at hstep
  next hhead =>
    cases hstep
    exact matched_own hs hb hp hpc hhead (by simp [mempoolAlloc, hhead])
  next hhead =>
    have hhead : (s.pool p).head = NULL := not_not.mp hhead
    split at hstep
    · cases hstep
    next hmagic =>
      have hmagic : (s.pool p).magic = MEMPOOL_MAGIC := not_not.mp hmagic
      split at hstep
      next hpriv =>
        cases hstep
        exact matched_own hs hb hp hpc hpriv
          (by simp [mempoolAlloc, mempoolAlloc2, hhead, hmagic, hpriv])
      next hpriv =>
        split at hstep
        · cases hstep
        next hds =>
          cases hstep
          have hmove : s.Moves p .allocLock (s.setPc p .allocLock) :=
            hs.moves rfl (fun _ _ => rfl) rfl (by rw [hpc]; rfl)
          refine matched_quiet hs hb hmove hp rfl rfl
            (hmove.atomicMds_other hs (by rw [hpc]; rfl) rfl rfl) ?_ (by rw [hpc]; rfl) ?_ ?_
          · exact ⟨hhead, not_not.mp hpriv, hmagic, hds⟩
          · intro x
            simp [hpc, PoolPc.owned, PoolSys.setPc]
          · simp [hpc, PoolPc.result]

/-- A free that takes effect at its first access. -/
theorem matched_back (hs : Careful P s) (hb : Behind P s tr t tr') (hL : Conserved P elems t L)
    (hnodup : elems.Nodup) (hp : p < P) (hpc : s.pc p = .idle) {a v : Addr} {m : Mempool}
    (ha : a ∈ s.held) (hmove : s.Moves p c s') (hc : c.locked = false) (howned : c.owned = [])
    (hresult : c.result = []) (hok : c.Ok s'.mem s'.mds (s'.pool p))
    (hmem : s'.mem = setNext s.mem a v) (hmds : s'.mds = s.mds) (hpool : c.pool (s'.pool p) = m)
    (hheld : s'.held = s.held.erase a)
    (hcall : mempoolFree ⟨s.mem, s.atomicMds, s.pool p⟩ a =
      .ok ⟨setNext s.mem a v, s.atomicMds, m⟩) : Matched P s' (tr ++ []) t tr' := by
  have hstep : t.step (.free p a) =
      some (t.put p ⟨setNext s.mem a v, s.atomicMds, m⟩ (t.held.erase a), []) := by
    simp [Pools.step, hb.arena (p := p) (by rw [hpc]; rfl), hcall]
  have hcareful : Careful P s' := by
    refine hmove.careful hs hp hok fun q _ => ?_
    rw [hmds]
    refine ok_of_held hs hb hL hnodup ha (fun y hy => ?_) q
    rw [hmem, setNext, Function.update_of_ne hy]
  refine .effect (.free p a) ⟨hp, held_subset hb ha⟩ hstep hcareful
    (hmove.behind hb hp (by rw [hmem]; rfl) ?_ (by rw [hpool]; rfl) ?_ ?_)
  · exact (hmove.atomicMds_other hs (by rw [hpc]; rfl) hc hmds).symm
  · intro x
    have h₁ := count_of_erase ha x
    have h₂ := count_of_erase (held_subset hb ha) x
    rw [hheld, howned, hpc]
    simp only [Pools.put, PoolPc.owned, List.count_nil]
    omega
  · intro x
    rw [hpc, hresult]
    simp [PoolPc.result]

theorem matched_free (hs : Careful P s) (hb : Behind P s tr t tr') (hL : Conserved P elems t L)
    (hnodup : elems.Nodup) (hp : p < P) (hpc : s.pc p = .idle) {a : Addr} (ha : a ∈ s.held)
    (hstep : s.free p a = some (s', es)) : Matched P s' (tr ++ es) t tr' := by
  simp only [PoolSys.free] at hstep
  split at hstep
  next hlt =>
    cases hstep
    refine matched_back (c := .idle) hs hb hL hnodup hp hpc ha ?_ rfl rfl rfl trivial rfl rfl
      rfl rfl ?_
    · refine hs.moves ?_ (fun q hq => Function.update_of_ne hq ..) rfl (by rw [hpc])
      rw [← hpc, Function.update_eq_self]
      rfl
    · simp [mempoolFree, hlt, PoolPc.pool, PoolSys.setPool]
  next hlt =>
    split at hstep
    · cases hstep
    next hnum =>
      have hfull : (s.pool p).numFree = (s.pool p).chunkSize := not_not.mp hnum
      cases hstep
      by_cases hpriv : (s.pool p).privateChunk = NULL
      · refine matched_back (c := .freeEnd a) hs hb hL hnodup hp hpc ha ?_ rfl rfl rfl trivial
          rfl rfl rfl rfl ?_
        · refine hs.moves ?_ (fun _ _ => rfl) rfl (by rw [hpc]; rfl)
          simp [PoolSys.setPc, hpriv]
        · simp [mempoolFree, mempoolFree2, hfull, hpriv, PoolPc.pool, PoolSys.setPc]
      · have hmove : s.Moves p (.freeLock a) { s.setPc p (if (s.pool p).privateChunk ≠ NULL
            then .freeLock a else .freeEnd a) with
            held := s.held.erase a, mem := setNext s.mem a NULL } := by
          refine hs.moves ?_ (fun _ _ => rfl) rfl (by rw [hpc]; rfl)
          simp [PoolSys.setPc, hpriv]
        have hcareful := hmove.careful hs hp ⟨⟨hfull, hpriv⟩, by simp⟩ fun q _ =>
          ok_of_held hs hb hL hnodup ha (fun y hy => Function.update_of_ne hy ..) q
        -- the caller still owns the element, so to the atomic pools this is a write of its own
        have hwrite : t.step (.write a { s.mem a with next := NULL }) =
            some ({ t with mem := setNext s.mem a NULL }, []) := by
          rw [Pools.step, hb.mem, setNext]
        refine .effect (.write a _) (held_subset hb ha) hwrite hcareful
          (hmove.behind hb hp ?_ ?_ ?_ ?_ ?_)
        · rfl
        · rw [hmove.atomicMds_other hs (by rw [hpc]; rfl) rfl rfl]
          exact hb.mds
        · have hpool := hb.pool p
          rw [hpc] at hpool
          exact (Function.update_eq_self_iff.mpr hpool.symm).symm
        · intro x
          have hx := count_of_erase ha x
          simp only [hpc, PoolPc.owned, List.count_nil]
          omega
        · intro x
          simp [hpc, PoolPc.result]

theorem matched_next (hs : Careful P s) (hb : Behind P s tr t tr')
    (hstep : s.next p = some (s', es)) : Matched P s' (tr ++ es) t tr' := by
  have hok := hs.ok p
  have hlt := hs.lt p
  unfold PoolSys.next at hstep
  dsimp only at hstep
  cases hpc : s.pc p <;> rw [hpc] at hok hstep hlt <;> simp only at hstep
  case idle => cases hstep
  case allocLock =>
    split at hstep
    next hlock =>
      cases hstep
      exact matched_acquire hs hb (hlt (by simp)) hlock rfl hok rfl (by rw [hpc]; rfl)
        (by rw [hpc]; rfl) (by rw [hpc]; rfl)
    · cases hstep
  case allocChunk =>
    cases hstep
    by_cases hnull : s.mds.chunkHead = NULL
    · rw [if_neg (not_not.mpr hnull)]
      exact matched_allocNull hs hb (hlt (by simp)) hpc hnull
    · rw [if_pos hnull]
      refine matched_locked hs hb (hs.moves rfl (fun _ _ => rfl) rfl (by rw [hpc]; rfl))
        (by rw [hpc]; rfl) rfl rfl rfl rfl ⟨hok, hnull, rfl⟩ (by rw [hpc]; rfl) (by rw [hpc]; rfl)
        (by rw [hpc]; rfl) (by rw [hpc]; rfl)
  case allocNextChunk h =>
    cases hstep
    obtain ⟨hempty, hne, hhead⟩ := hok
    refine matched_locked hs hb (hs.moves rfl (fun _ _ => rfl) rfl (by rw [hpc]; rfl))
      (by rw [hpc]; rfl) rfl rfl rfl rfl ⟨hempty, hne, hhead, rfl⟩ (by rw [hpc]; rfl)
      (by rw [hpc]; rfl) (by rw [hpc]; rfl) (by rw [hpc]; rfl)
  case allocStore h v =>
    cases hstep
    obtain ⟨hempty, hne, hhead, hv⟩ := hok
    refine matched_locked hs hb (hs.moves rfl (fun _ _ => rfl) rfl (by rw [hpc]; rfl))
      (by rw [hpc]; rfl) rfl rfl rfl rfl ⟨hempty, hne, hv.symm⟩ ?_
      (by rw [hpc]; rfl) (by rw [hpc]; rfl) (by rw [hpc]; rfl)
    rw [hpc]
    exact congrArg (fun a => { s.mds with chunkHead := a }) hhead.symm
  case allocNext h =>
    cases hstep
    exact matched_allocNext hs hb (hlt (by simp)) hpc
  case allocCount h =>
    cases hstep
    refine matched_locked hs hb (hs.moves rfl (fun _ _ => rfl) rfl (by rw [hpc]; rfl))
      (by rw [hpc]; rfl) rfl rfl rfl rfl trivial (by rw [hpc]; rfl) (by rw [hpc]; rfl)
      (by rw [hpc]; rfl) (by rw [hpc]; rfl)
  case allocUnlock h =>
    cases hstep
    refine matched_release (c := .idle) hs hb (by rw [hpc]; rfl) rfl rfl rfl rfl rfl rfl
      (by rw [hpc]; rfl) trivial (by rw [hpc]; rfl) ?_ (by rw [hpc]; rfl)
    intro x
    by_cases hne : h = NULL <;>
      simp [hpc, PoolPc.owned, PoolSys.give, PoolSys.setPc, hne, List.count_cons]
  case freeLock a =>
    split at hstep
    next hlock =>
      cases hstep
      exact matched_acquire hs hb (hlt (by simp)) hlock rfl hok rfl (by rw [hpc]; rfl)
        (by rw [hpc]; rfl) (by rw [hpc]; rfl)
    · cases hstep
  case freeChunk a =>
    cases hstep
    refine matched_locked hs hb (hs.moves rfl (fun _ _ => rfl) rfl (by rw [hpc]; rfl))
      (by rw [hpc]; rfl) rfl rfl rfl rfl ⟨hok.1, hok.2, rfl⟩ (by rw [hpc]; rfl) (by rw [hpc]; rfl)
      (by rw [hpc]; rfl) (by rw [hpc]; rfl)
  case freeLink a v =>
    cases hstep
    exact matched_freeLink hs hb (hlt (by simp)) hpc
  case freeStore a =>
    cases hstep
    refine matched_locked hs hb (hs.moves rfl (fun _ _ => rfl) rfl (by rw [hpc]; rfl))
      (by rw [hpc]; rfl) rfl rfl rfl rfl trivial (by rw [hpc]; rfl) (by rw [hpc]; rfl)
      (by rw [hpc]; rfl) (by rw [hpc]; rfl)
  case freeCount a =>
    cases hstep
    refine matched_locked hs hb (hs.moves rfl (fun _ _ => rfl) rfl (by rw [hpc]; rfl))
      (by rw [hpc]; rfl) rfl rfl rfl rfl trivial (by rw [hpc]; rfl) (by rw [hpc]; rfl)
      (by rw [hpc]; rfl) (by rw [hpc]; rfl)
  case freeUnlock a =>
    cases hstep
    refine matched_release (c := .freeEnd a) hs hb (by rw [hpc]; rfl) rfl rfl rfl rfl rfl rfl
      (by rw [hpc]; rfl) trivial (by rw [hpc]; rfl) ?_ (by rw [hpc]; rfl)
    intro x
    simp [hpc, PoolPc.owned, PoolSys.setPc]
  case freeEnd a =>
    cases hstep
    have hmove : s.Moves p .idle ((s.setPool p { s.pool p with
        privateChunk := (s.pool p).head, head := a }).setPc p .idle) :=
      hs.moves rfl (fun q hq => Function.update_of_ne hq ..) rfl (by rw [hpc]; rfl)
    refine matched_quiet hs hb hmove (hlt (by simp)) rfl rfl
      (hmove.atomicMds_other hs (by rw [hpc]; rfl) rfl rfl) trivial ?_ ?_ (by rw [hpc]; rfl)
    · rw [hpc]
      simp [PoolPc.pool, PoolSys.setPool, PoolSys.setPc]
    · intro x
      simp [hpc, PoolPc.owned, PoolSys.setPc, PoolSys.setPool]

theorem matched_write (hs : Careful P s) (hb : Behind P s tr t tr') (hL : Conserved P elems t L)
    (hnodup : elems.Nodup) {a : Addr} (ha : a ∈ s.held) (v : MempoolHdr) :
    Matched P { s with mem := Function.update s.mem a v } (tr ++ []) t tr' := by
  have hstep : t.step (.write a v) = some ({ t with mem := Function.update s.mem a v }, []) := by
    rw [Pools.step, hb.mem]
  have hok := ok_of_held hs hb hL hnodup ha fun y hy => Function.update_of_ne hy v s.mem
  exact .effect (.write a v) (held_subset hb ha) hstep ⟨hs.lock, hs.lt, hok⟩
    ⟨rfl, hb.mds, hb.pool, hb.held, by simpa using hb.returned⟩

theorem matched_run (hs : Careful P s) (hb : Behind P s tr t tr') (hL : Conserved P elems t L)
    (hnodup : elems.Nodup) {act : PoolAct} (hlegal : act.Legal P s)
    (hstep : s.run act = some (s', es)) : Matched P s' (tr ++ es) t tr' := by
  cases act with
  | alloc p =>
    simp only [PoolSys.run] at hstep
    split at hstep
    next hpc => exact matched_alloc hs hb hlegal hpc hstep
    · cases hstep
  | free p a =>
    simp only [PoolSys.run] at hstep
    split at hstep
    next hpc => exact matched_free hs hb hL hnodup hlegal.1 hpc hlegal.2 hstep
    · cases hstep
  | step p => exact matched_next hs hb hstep
  | write a v =>
    cases hstep
    exact matched_write hs hb hL hnodup hlegal v

end Cases

/-! ## No call waits for ever -/

theorem PoolSys.next_of_locked (hlocked : (s.pc p).locked = true) : (s.next p).isSome := by
  unfold next
  cases hpc : s.pc p <;> simp_all [PoolPc.locked]

theorem Careful.exists_step (hs : Careful P s) (hp : s.pc p ≠ .idle) :
    ∃ q < P, s.pc q ≠ .idle ∧ (s.next q).isSome := by
  cases hlock : s.lock with
  | some q =>
    have hlocked := (hs.lock q).mpr hlock
    have hne : s.pc q ≠ .idle := fun hidle => by simp [hidle, PoolPc.locked] at hlocked
    exact ⟨q, hs.lt q hne, hne, PoolSys.next_of_locked hlocked⟩
  | none =>
    refine ⟨p, hs.lt p hp, hp, ?_⟩
    by_cases hlocked : (s.pc p).locked = true
    · exact PoolSys.next_of_locked hlocked
    · unfold PoolSys.next
      cases hpc : s.pc p <;> simp_all [PoolPc.locked]

end Steps

def PoolSys.ofPools (s : Pools) : PoolSys := ⟨s.mem, s.mds, s.pool, s.held, none, fun _ => .idle⟩

theorem gather_idle {P : Nat} {f : PoolPc → List Addr} {pc : Nat → PoolPc} (hf : f .idle = [])
    (hpc : ∀ p < P, pc p = .idle) : gather P f pc = [] := by
  apply List.flatMap_eq_nil_iff.mpr
  intro p hp
  rw [hpc p (List.mem_range.mp hp), hf]

theorem careful_start (P : Nat) (s : Pools) : Careful P (PoolSys.ofPools s) :=
  ⟨fun _ => by simp [PoolSys.ofPools, PoolPc.locked], fun _ h => absurd rfl h, fun _ => trivial⟩

theorem behind_start (P : Nat) (s : Pools) : Behind P (PoolSys.ofPools s) [] s [] := by
  have hidle : ∀ p < P, (PoolSys.ofPools s).pc p = .idle := fun _ _ => rfl
  refine ⟨rfl, rfl, fun _ => rfl, ?_, ?_⟩
  · rw [gather_idle rfl hidle, List.append_nil]
    exact .refl _
  · rw [gather_idle rfl hidle, List.append_nil]

section Reachable
variable {P : Nat} {ds : Addr} {mem : Addr → MempoolHdr} {mds : MempoolDatastore}
variable {chunks : List (List Addr)} {s₀ : Pools} {s : PoolSys} {tr : List Addr}

theorem behind_reachable (hds : ds ≠ NULL) (hstock : mds.Stocked mem chunks)
    (h : s₀.Start P ds mem mds)
    (hrun : Run.Runs poolSysMachine (fun s act => act.Legal P s) (PoolSys.ofPools s₀) tr s) :
    ∃ t tr', Run.Runs poolMachine (fun s call => call.Legal P s) s₀ tr' t ∧ Careful P s ∧
      Behind P s tr t tr' := by
  refine hrun.invariant (I := fun tr s => ∃ t tr', Run.Runs poolMachine
    (fun s call => call.Legal P s) s₀ tr' t ∧ Careful P s ∧ Behind P s tr t tr') ?_ ?_
  · exact ⟨s₀, [], .start, careful_start P s₀, behind_start P s₀⟩
  · rintro tr es s s' act ⟨t, tr', ht, hs, hb⟩ hlegal hstep
    obtain ⟨L, hL⟩ := conserved_reachable hds hstock h ht
    cases matched_run hs hb hL hstock.distinct hlegal hstep with
    | silent hs hb => exact ⟨t, tr', ht, hs, hb⟩
    | effect call hcall hdone hs hb => exact ⟨_, _, ht.next hcall hdone, hs, hb⟩

theorem alloc_isSome {p : Nat} (hready : (s.pool p).Ready) : (s.alloc p).isSome := by
  obtain ⟨hmagic, hds⟩ := hready
  unfold PoolSys.alloc
  by_cases hhead : (s.pool p).head = NULL
  · by_cases hpriv : (s.pool p).privateChunk = NULL <;> simp [hhead, hpriv, hmagic, hds]
  · simp [hhead]

/-- What the cores hold is what atomic calls in some order give them. No element has two owners,
one core is inside the lock, and none of them waits for ever. -/
theorem datastore_thread_safe (hds : ds ≠ NULL) (hstock : mds.Stocked mem chunks)
    (h : s₀.Start P ds mem mds)
    (hrun : Run.Runs poolSysMachine (fun s act => act.Legal P s) (PoolSys.ofPools s₀) tr s) :
    (∃ t tr', Run.Runs poolMachine (fun s call => call.Legal P s) s₀ tr' t ∧ t.mem = s.mem ∧
      (∀ p, s.pc p = .idle → t.pool p = s.pool p) ∧ (s.lock = none → t.mds = s.mds) ∧
      t.held.Perm (s.held ++ gather P PoolPc.owned s.pc) ∧
      tr'.Perm (tr ++ gather P PoolPc.result s.pc)) ∧
    (s.held ++ gather P PoolPc.owned s.pc).Nodup ∧
    (∀ a ∈ s.held ++ gather P PoolPc.owned s.pc, a ∈ chunks.flatten) ∧
    (∀ p q, (s.pc p).locked = true → (s.pc q).locked = true → p = q) ∧
    (∀ p < P, s.pc p = .idle → (s.run (.alloc p)).isSome) ∧
    ((∃ p, s.pc p ≠ .idle) → ∃ q < P, s.pc q ≠ .idle ∧ (s.run (.step q)).isSome) := by
  obtain ⟨t, tr', ht, hs, hb⟩ := behind_reachable hds hstock h hrun
  obtain ⟨L, hL⟩ := conserved_reachable hds hstock h ht
  have hpool : ∀ p, s.pc p = .idle → t.pool p = s.pool p := by
    intro p hidle
    rw [hb.pool p, hidle]
    rfl
  have hall : (t.held ++ L.free P).Nodup := hL.perm.nodup_iff.mpr hstock.distinct
  refine ⟨⟨t, tr', ht, hb.mem, hpool, ?_, hb.held, hb.returned⟩, ?_, ?_, ?_, ?_, ?_⟩
  · intro hlock
    rw [hb.mds, PoolSys.atomicMds, hlock]
  · exact hb.held.nodup_iff.mp (List.nodup_append.mp hall).1
  · intro a ha
    exact hL.perm.subset (List.mem_append_left _ (hb.held.symm.subset ha))
  · intro p q hp hq
    exact Option.some.inj (((hs.lock p).mp hp).symm.trans ((hs.lock q).mp hq))
  · intro p hp hidle
    have hready : (s.pool p).Ready := hpool p hidle ▸ hL.ready p hp
    simpa [PoolSys.run, hidle] using alloc_isSome hready
  · rintro ⟨p, hp⟩
    exact hs.exists_step hp

end Reachable

/-- Core 1 waits while core 0 takes a chunk, then it has read the chunk but not its counters. -/
def sampleInterleaving : List PoolAct :=
  [.alloc 0, .alloc 1, .step 0, .step 0, .step 0, .step 0, .step 0, .step 0, .step 0,
    .write 16 ⟨7, 7⟩, .alloc 0, .step 1, .step 1, .step 1, .step 1, .step 1]

theorem datastore_thread_safe_sample :
    ∃ s : PoolSys, s.held = [32, 16] ∧ s.pc 1 = .allocCount 48 ∧
      (s.held ++ gather 2 PoolPc.owned s.pc).Nodup := by
  have hrun : Run.Runs poolSysMachine (fun s act => act.Legal 2 s) (.ofPools samplePools) _ _ :=
    Run.Machine.exec_runs
      (show poolSysMachine.exec _ (.ofPools samplePools) sampleInterleaving = _ from rfl)
  obtain ⟨_, hnodup, _⟩ :=
    datastore_thread_safe (by decide) sampleStore_stocked (samplePools_start 2) hrun
  exact ⟨_, rfl, rfl, hnodup⟩

end ThletEvaluation.Shinjuku
