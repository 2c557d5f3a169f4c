import ThletEvaluation.Lib.Threads
import ThletEvaluation.Shinjuku.MempoolConservation

/-!
# Pools of several cores over one datastore

"The backing store is thread-safe", says `mempool.c`, and each pool has one user. Here core `p`
uses pool `p`, every access to the memory of the elements or to the datastore is a step of its
own, and the lock of the datastore is taken and given back as in the code. Each call takes effect
at one of its steps: an allocation where it reads the link to the next element of its chunk, a
free where it links its element or its chunk.
-/

namespace ThletEvaluation.Shinjuku

open Chain
set_option autoImplicit false

/-- Where a core is. The names of the second stages end in the access that comes next. -/
inductive PoolPc where
  | idle
  | allocLock
  | allocChunk
  | allocNextChunk (h : Addr)
  | allocStore (h v : Addr)
  | allocNext (h : Addr)
  | allocCount (h : Addr)
  | allocUnlock (h : Addr)
  | freeLock (a : Addr)
  | freeChunk (a : Addr)
  | freeLink (a v : Addr)
  | freeStore (a : Addr)
  | freeCount (a : Addr)
  | freeUnlock (a : Addr)
  | freeEnd (a : Addr)
  deriving DecidableEq

/-- `held` are the elements that callers own: what a call has returned and no call has been
given back. -/
structure PoolSys where
  mem : Addr → MempoolHdr
  mds : MempoolDatastore
  pool : Nat → Mempool
  held : List Addr
  lock : Option Nat
  pc : Nat → PoolPc

inductive PoolAct where
  | alloc (p : Nat)
  | free (p : Nat) (a : Addr)
  | step (p : Nat)
  | write (a : Addr) (v : MempoolHdr)

namespace PoolSys

def setPc (s : PoolSys) (p : Nat) (pc : PoolPc) : PoolSys :=
  { s with pc := Function.update s.pc p pc }

def setPool (s : PoolSys) (p : Nat) (m : Mempool) : PoolSys :=
  { s with pool := Function.update s.pool p m }

/-- The caller gets `h`, if it is an element. -/
def give (s : PoolSys) (h : Addr) : PoolSys :=
  { s with held := if h = NULL then s.held else h :: s.held }

/-- Up to the lock. The first stage of `mempool_alloc` is one access to the list of the pool,
and so is the use of its private chunk. -/
def alloc (s : PoolSys) (p : Nat) : Option (PoolSys × List Addr) :=
  let m := s.pool p
  if m.head ≠ NULL then
    some ((s.setPool p { m with
      head := (s.mem m.head).next
      numFree := m.numFree - 1 }).give m.head, [m.head])
  else if m.magic ≠ MEMPOOL_MAGIC then none
  else if m.privateChunk ≠ NULL then
    some ((s.setPool p { m with head := (s.mem m.privateChunk).next, privateChunk := NULL }).give
      m.privateChunk, [m.privateChunk])
  else if m.datastore = NULL then none
  else some (s.setPc p .allocLock, [])

/-- Up to the lock. -/
def free (s : PoolSys) (p : Nat) (a : Addr) : Option (PoolSys × List Addr) :=
  let m := s.pool p
  let s := { s with held := s.held.erase a }
  if m.numFree < m.chunkSize then
    some ({ s.setPool p { m with numFree := m.numFree + 1, head := a } with
      mem := setNext s.mem a m.head }, [])
  else if m.numFree ≠ m.chunkSize then none
  else
    some ({ s.setPc p (if m.privateChunk ≠ NULL then .freeLock a else .freeEnd a) with
      mem := setNext s.mem a NULL }, [])

/-- The rest of the second stages, one access a step. -/
def next (s : PoolSys) (p : Nat) : Option (PoolSys × List Addr) :=
  let m := s.pool p
  match s.pc p with
  | .idle => none
  | .allocLock =>
    if s.lock = none then some ({ s.setPc p .allocChunk with lock := some p }, []) else none
  | .allocChunk =>
    let h := s.mds.chunkHead
    some (s.setPc p (if h ≠ NULL then .allocNextChunk h else .allocUnlock NULL), [])
  | .allocNextChunk h => some (s.setPc p (.allocStore h (s.mem h).nextChunk), [])
  | .allocStore h v =>
    some ({ s.setPc p (.allocNext h) with mds := { s.mds with chunkHead := v } }, [])
  | .allocNext h =>
    some ((s.setPool p { m with head := (s.mem h).next }).setPc p (.allocCount h), [])
  | .allocCount h =>
    some ({ s.setPc p (.allocUnlock h) with
      mds := { s.mds with
        freeChunks := s.mds.freeChunks - 1
        numLocks := s.mds.numLocks + 1 } }, [])
  | .allocUnlock h => some ({ (s.setPc p .idle).give h with lock := none }, [h])
  | .freeLock a =>
    if s.lock = none then some ({ s.setPc p (.freeChunk a) with lock := some p }, []) else none
  | .freeChunk a => some (s.setPc p (.freeLink a s.mds.chunkHead), [])
  | .freeLink a v =>
    some ({ s.setPc p (.freeStore a) with mem := setNextChunk s.mem m.privateChunk v }, [])
  | .freeStore a =>
    some ({ s.setPc p (.freeCount a) with
      mds := { s.mds with chunkHead := m.privateChunk } }, [])
  | .freeCount a =>
    some ({ s.setPc p (.freeUnlock a) with
      mds := { s.mds with
        freeChunks := s.mds.freeChunks + 1
        numLocks := s.mds.numLocks + 1 } }, [])
  | .freeUnlock a => some ({ s.setPc p (.freeEnd a) with lock := none }, [])
  | .freeEnd a =>
    some ((s.setPool p { m with privateChunk := m.head, head := a }).setPc p .idle, [])

/-- The events are the pointers that `mempool_alloc` returns. -/
def run (s : PoolSys) : PoolAct → Option (PoolSys × List Addr)
  | .alloc p => if s.pc p = .idle then s.alloc p else none
  | .free p a => if s.pc p = .idle then s.free p a else none
  | .step p => s.next p
  | .write a v => some ({ s with mem := Function.update s.mem a v }, [])

end PoolSys

def poolSysMachine : Run.Machine PoolSys PoolAct Addr := ⟨PoolSys.run⟩

/-- Only existing pools are used, and only elements that are held are freed or written. -/
def PoolAct.Legal (P : Nat) (s : PoolSys) : PoolAct → Prop
  | .alloc p => p < P
  | .free p a => p < P ∧ a ∈ s.held
  | .step _ => True
  | .write a _ => a ∈ s.held

instance PoolAct.decidableLegal (P : Nat) (s : PoolSys) (act : PoolAct) :
    Decidable (act.Legal P s) :=
  match act with
  | .alloc p => inferInstanceAs (Decidable (p < P))
  | .free p a => inferInstanceAs (Decidable (p < P ∧ a ∈ s.held))
  | .step _ => inferInstanceAs (Decidable True)
  | .write a _ => inferInstanceAs (Decidable (a ∈ s.held))

/-! ## The atomic pools behind a state -/

namespace PoolPc

def locked : PoolPc → Bool
  | .idle | .allocLock | .freeLock _ | .freeEnd _ => false
  | _ => true

/-- The element that the call owns: an allocation has it already, a free has it still. -/
def owned : PoolPc → List Addr
  | .allocCount h | .allocUnlock h => if h = NULL then [] else [h]
  | .freeLock a | .freeChunk a | .freeLink a _ => [a]
  | _ => []

/-- The pointer that the call is about to return. -/
def result : PoolPc → List Addr
  | .allocCount h | .allocUnlock h => [h]
  | _ => []

/-- The pool as it is when the call has taken effect. -/
def pool (m : Mempool) : PoolPc → Mempool
  | .freeStore a | .freeCount a | .freeUnlock a | .freeEnd a =>
    { m with privateChunk := m.head, head := a }
  | _ => m

/-- The datastore before or after the call that is at work on it. -/
def mds (m : Mempool) (mds : MempoolDatastore) : PoolPc → MempoolDatastore
  | .allocNext h => { mds with chunkHead := h }
  | .allocCount _ => { mds with
      freeChunks := mds.freeChunks - 1
      numLocks := mds.numLocks + 1 }
  | .freeStore _ => { mds with
      chunkHead := m.privateChunk
      freeChunks := mds.freeChunks + 1
      numLocks := mds.numLocks + 1 }
  | .freeCount _ => { mds with
      freeChunks := mds.freeChunks + 1
      numLocks := mds.numLocks + 1 }
  | _ => mds

end PoolPc

def PoolSys.atomicMds (s : PoolSys) : MempoolDatastore :=
  match s.lock with
  | none => s.mds
  | some p => (s.pc p).mds (s.pool p) s.mds

/-- What the cores have in flight. -/
def gather (P : Nat) (f : PoolPc → List Addr) (pc : Nat → PoolPc) : List Addr :=
  (List.range P).flatMap fun p => f (pc p)

theorem gather_update {P p : Nat} (f : PoolPc → List Addr) (pc : Nat → PoolPc) (c : PoolPc)
    (hp : p < P) :
    (gather P f (Function.update pc p c) ++ f (pc p)).Perm (gather P f pc ++ f c) := by
  have hrange : (List.range P).Perm (p :: (List.range P).erase p) :=
    List.perm_cons_erase (List.mem_range.mpr hp)
  have hother : ((List.range P).erase p).flatMap (fun q => f (Function.update pc p c q)) =
      ((List.range P).erase p).flatMap fun q => f (pc q) := by
    apply List.flatMap_congr
    intro q hq
    rw [Function.update_of_ne (List.nodup_range.mem_erase_iff.mp hq).1]
  have hnew := hrange.flatMap_right fun q => f (Function.update pc p c q)
  have hold := hrange.flatMap_right fun q => f (pc q)
  rw [List.flatMap_cons, Function.update_self, hother] at hnew
  rw [List.flatMap_cons] at hold
  calc (gather P f (Function.update pc p c) ++ f (pc p)).Perm
        ((f c ++ ((List.range P).erase p).flatMap fun q => f (pc q)) ++ f (pc p)) :=
        hnew.append_right _
    _ |>.Perm (f c ++ (f (pc p) ++ ((List.range P).erase p).flatMap fun q => f (pc q))) := by
        rw [List.append_assoc]
        exact List.perm_append_comm.append_left _
    _ |>.Perm ((f (pc p) ++ ((List.range P).erase p).flatMap fun q => f (pc q)) ++ f c) :=
        List.perm_append_comm
    _ |>.Perm (gather P f pc ++ f c) := hold.symm.append_right _

/-- `t` is the state of the atomic pools, `tr'` what they have returned. -/
structure Behind (P : Nat) (s : PoolSys) (tr : List Addr) (t : Pools) (tr' : List Addr) : Prop where
  mem : t.mem = s.mem
  mds : t.mds = s.atomicMds
  pool : ∀ p, t.pool p = (s.pc p).pool (s.pool p)
  held : t.held.Perm (s.held ++ gather P PoolPc.owned s.pc)
  returned : tr'.Perm (tr ++ gather P PoolPc.result s.pc)

/-! ## What a core relies on -/

/-- Nothing left in the pool. -/
def Mempool.Empty (m : Mempool) : Prop := m.head = NULL ∧ m.privateChunk = NULL ∧ m.Ready

/-- The counter is full and a chunk has to go. -/
def Mempool.Full (m : Mempool) : Prop := m.numFree = m.chunkSize ∧ m.privateChunk ≠ NULL

def PoolPc.Ok (mem : Addr → MempoolHdr) (mds : MempoolDatastore) (m : Mempool) : PoolPc → Prop
  | .allocLock | .allocChunk => m.Empty
  | .allocNextChunk h => m.Empty ∧ h ≠ NULL ∧ mds.chunkHead = h
  | .allocStore h v => m.Empty ∧ h ≠ NULL ∧ mds.chunkHead = h ∧ (mem h).nextChunk = v
  | .allocNext h => m.Empty ∧ h ≠ NULL ∧ mds.chunkHead = (mem h).nextChunk
  | .allocCount h => h ≠ NULL
  | .freeLock a | .freeChunk a => m.Full ∧ (mem a).next = NULL
  | .freeLink a v => m.Full ∧ (mem a).next = NULL ∧ mds.chunkHead = v
  | _ => True

structure Careful (P : Nat) (s : PoolSys) : Prop where
  lock : ∀ p, (s.pc p).locked = true ↔ s.lock = some p
  lt : ∀ p, s.pc p ≠ .idle → p < P
  ok : ∀ p, (s.pc p).Ok s.mem s.mds (s.pool p)

/-- The element whose links the core reads without holding it. -/
def PoolPc.chunk : PoolPc → List Addr
  | .allocStore h _ | .allocNext h => [h]
  | _ => []

theorem PoolPc.Ok.frame {mem mem' : Addr → MempoolHdr} {mds mds' : MempoolDatastore} {m : Mempool}
    {c : PoolPc} (h : c.Ok mem mds m) (hmds : c.locked = true → mds' = mds)
    (hchunk : ∀ x ∈ c.chunk, mem' x = mem x)
    (howned : ∀ x ∈ c.owned, (mem' x).next = (mem x).next) :
    c.Ok mem' mds' m := by
  cases c with
  | allocNextChunk h' => simpa [Ok, hmds rfl] using h
  | allocStore h' v => simpa [Ok, hmds rfl, hchunk h' (by simp [chunk])] using h
  | allocNext h' => simpa [Ok, hmds rfl, hchunk h' (by simp [chunk])] using h
  | freeLock a => simpa [Ok, howned a (by simp [owned])] using h
  | freeChunk a => simpa [Ok, howned a (by simp [owned])] using h
  | freeLink a v => simpa [Ok, hmds rfl, howned a (by simp [owned])] using h
  | _ => exact h

section Steps
variable {P p : Nat} {s s' : PoolSys} {c : PoolPc} {t t' : Pools} {tr es tr' tr'' : List Addr}

/-- The state after a step of core `p`, which goes to `c`. -/
structure PoolSys.Moves (s : PoolSys) (p : Nat) (c : PoolPc) (s' : PoolSys) : Prop where
  pc : s'.pc = Function.update s.pc p c
  pool : ∀ q, q ≠ p → s'.pool q = s.pool q
  lock : c.locked = true ↔ s'.lock = some p
  locks : ∀ q, q ≠ p → (s'.lock = some q ↔ s.lock = some q)

namespace PoolSys.Moves
variable (h : s.Moves p c s')
include h

theorem pc_self : s'.pc p = c := by rw [h.pc, Function.update_self]

theorem pc_of_ne {q : Nat} (hq : q ≠ p) : s'.pc q = s.pc q := by
  rw [h.pc, Function.update_of_ne hq]

theorem careful (hs : Careful P s) (hp : p < P) (hok : c.Ok s'.mem s'.mds (s'.pool p))
    (hother : ∀ q, q ≠ p → (s.pc q).Ok s'.mem s'.mds (s.pool q)) : Careful P s' where
  lock q := by
    rcases eq_or_ne q p with rfl | hne
    · rw [h.pc_self, h.lock]
    · rw [h.pc_of_ne hne, h.locks q hne, hs.lock q]
  lt q hq := by
    rcases eq_or_ne q p with rfl | hne
    · exact hp
    · exact hs.lt q (by rwa [h.pc_of_ne hne] at hq)
  ok q := by
    rcases eq_or_ne q p with rfl | hne
    · rw [h.pc_self]
      exact hok
    · rw [h.pc_of_ne hne, h.pool q hne]
      exact hother q hne

/-- A step on nothing that others look at. -/
theorem careful_quiet (hs : Careful P s) (hp : p < P) (hmem : s'.mem = s.mem)
    (hmds : s'.mds = s.mds) (hok : c.Ok s.mem s.mds (s'.pool p)) : Careful P s' := by
  refine h.careful hs hp (by rwa [hmem, hmds]) fun q _ => ?_
  rw [hmem, hmds]
  exact hs.ok q

/-- A step under the lock. -/
theorem careful_locked (hs : Careful P s) (hlocked : (s.pc p).locked = true) (hp : p < P)
    (hmem : ∀ x, (s'.mem x).next = (s.mem x).next) (hok : c.Ok s'.mem s'.mds (s'.pool p)) :
    Careful P s' := by
  refine h.careful hs hp hok fun q hq => ?_
  have hfree : (s.pc q).locked = false := by
    by_contra hnot
    have hp' := (hs.lock p).mp hlocked
    have hq' := (hs.lock q).mp (by simpa using hnot)
    exact hq (Option.some.inj (hq'.symm.trans hp'))
  refine (hs.ok q).frame (by simp [hfree]) (fun x hx => ?_) fun x _ => hmem x
  cases hpc : s.pc q <;> simp [hpc, PoolPc.chunk, PoolPc.locked] at hx hfree

theorem gather (f : PoolPc → List Addr) (hp : p < P) (x : Addr) :
    (gather P f s'.pc).count x + (f (s.pc p)).count x =
      (gather P f s.pc).count x + (f c).count x := by
  have hcount := (gather_update f s.pc c hp).count_eq x
  rwa [List.count_append, List.count_append, ← h.pc] at hcount

/-- What is behind the new state, by what the step changes. -/
theorem behind (hb : Behind P s tr t tr') (hp : p < P) (hmem : t'.mem = s'.mem)
    (hmds : t'.mds = s'.atomicMds)
    (hpool : t'.pool = Function.update t.pool p (c.pool (s'.pool p)))
    (hheld : ∀ x, t'.held.count x + s.held.count x + (s.pc p).owned.count x =
      t.held.count x + s'.held.count x + c.owned.count x)
    (hreturned : ∀ x, tr''.count x + (s.pc p).result.count x =
      tr'.count x + es.count x + c.result.count x) : Behind P s' (tr ++ es) t' tr'' where
  mem := hmem
  mds := hmds
  pool q := by
    rw [hpool]
    rcases eq_or_ne q p with rfl | hne
    · rw [Function.update_self, h.pc_self]
    · rw [Function.update_of_ne hne, h.pc_of_ne hne, h.pool q hne, hb.pool q]
  held := by
    refine List.perm_iff_count.mpr fun x => ?_
    have hold := hb.held.count_eq x
    have hgather := h.gather PoolPc.owned hp x
    have hnew := hheld x
    rw [List.count_append] at hold ⊢
    omega
  returned := by
    refine List.perm_iff_count.mpr fun x => ?_
    have hold := hb.returned.count_eq x
    have hgather := h.gather PoolPc.result hp x
    have hnew := hreturned x
    simp only [List.count_append] at hold ⊢
    omega

theorem atomicMds_self (hlock : c.locked = true) : s'.atomicMds = c.mds (s'.pool p) s'.mds := by
  rw [PoolSys.atomicMds, h.lock.mp hlock]
  dsimp only
  rw [h.pc_self]

/-- Without the lock before and after, the datastore is the same as far as others are concerned. -/
theorem atomicMds_other (hs : Careful P s) (hnow : (s.pc p).locked = false)
    (hthen : c.locked = false) (hmds : s'.mds = s.mds) : s'.atomicMds = s.atomicMds := by
  have hp : s.lock ≠ some p := fun hlock => by
    have hlocked := (hs.lock p).mpr hlock
    simp [hnow] at hlocked
  have hp' : s'.lock ≠ some p := fun hlock => by
    have hlocked := h.lock.mpr hlock
    simp [hthen] at hlocked
  have hsame : s'.lock = s.lock := by
    cases hlock : s.lock with
    | none =>
      cases hlock' : s'.lock with
      | none => rfl
      | some q =>
        have hne : q ≠ p := fun heq => hp' (heq ▸ hlock')
        exact absurd ((h.locks q hne).mp hlock') (by simp [hlock])
    | some q =>
      have hne : q ≠ p := fun heq => hp (heq ▸ hlock)
      exact (h.locks q hne).mpr hlock
  unfold PoolSys.atomicMds
  rw [hsame]
  cases hlock : s.lock with
  | none => exact hmds
  | some q =>
    have hne : q ≠ p := fun heq => hp (heq ▸ hlock)
    dsimp only
    rw [h.pc_of_ne hne, h.pool q hne, hmds]

end PoolSys.Moves

theorem Careful.atomicMds (hs : Careful P s) (hlocked : (s.pc p).locked = true) :
    s.atomicMds = (s.pc p).mds (s.pool p) s.mds := by
  rw [PoolSys.atomicMds, (hs.lock p).mp hlocked]

/-- A step that neither takes nor gives back the lock. -/
theorem Careful.moves (hs : Careful P s) (hpc : s'.pc = Function.update s.pc p c)
    (hpool : ∀ q, q ≠ p → s'.pool q = s.pool q) (hlock : s'.lock = s.lock)
    (hc : c.locked = (s.pc p).locked) : s.Moves p c s' :=
  ⟨hpc, hpool, by rw [hc, hlock, hs.lock p], fun q _ => by rw [hlock]⟩

section Apart
variable {elems : List Addr} {L : Layout} {q : Nat} {x : Addr}

theorem held_subset (hb : Behind P s tr t tr') (hx : x ∈ s.held) : x ∈ t.held :=
  hb.held.symm.subset (List.mem_append_left _ hx)

theorem chunk_not_held (hs : Careful P s) (hb : Behind P s tr t tr') (hL : Conserved P elems t L)
    (hnodup : elems.Nodup) (hx : x ∈ (s.pc q).chunk) : x ∉ s.held := by
  have hhead : t.mds.chunkHead = x ∧ x ≠ NULL := by
    rw [hb.mds]
    have hok := hs.ok q
    cases hpc : s.pc q with
    | allocStore h v =>
      obtain rfl : x = h := by simpa [hpc, PoolPc.chunk] using hx
      rw [hpc] at hok
      rw [hs.atomicMds (p := q) (by rw [hpc]; rfl), hpc]
      exact ⟨hok.2.2.1, hok.2.1⟩
    | allocNext h =>
      obtain rfl : x = h := by simpa [hpc, PoolPc.chunk] using hx
      rw [hpc] at hok
      rw [hs.atomicMds (p := q) (by rw [hpc]; rfl), hpc]
      exact ⟨rfl, hok.2.1⟩
    | _ => simp [hpc, PoolPc.chunk] at hx
  obtain ⟨rfl, hne⟩ := hhead
  obtain ⟨c, cs, hcs, hc, -⟩ := hL.rep.chunks.uncons hne
  obtain ⟨xs, rfl, -⟩ := hc.uncons hne
  have hfree : t.mds.chunkHead ∈ L.free P := Layout.mem_free_of_chunks (by simp [hcs])
  have hall : (t.held ++ L.free P).Nodup := hL.perm.nodup_iff.mpr hnodup
  exact fun hheld => (List.nodup_append.mp hall).2.2 _ (held_subset hb hheld) _ hfree rfl

theorem owned_not_held (hs : Careful P s) (hb : Behind P s tr t tr') (hL : Conserved P elems t L)
    (hnodup : elems.Nodup) (hx : x ∈ (s.pc q).owned) : x ∉ s.held := by
  have hq : q < P := by
    apply hs.lt
    intro hidle
    simp [hidle, PoolPc.owned] at hx
  have hall : (t.held ++ L.free P).Nodup := hL.perm.nodup_iff.mpr hnodup
  have hheld : (s.held ++ gather P PoolPc.owned s.pc).Nodup :=
    hb.held.nodup_iff.mp (List.nodup_append.mp hall).1
  have hgather : x ∈ gather P PoolPc.owned s.pc :=
    List.mem_flatMap.mpr ⟨q, List.mem_range.mpr hq, hx⟩
  exact fun hmem => (List.nodup_append.mp hheld).2.2 _ hmem _ hgather rfl

/-- Others do not depend on the links of an element that a caller holds. -/
theorem ok_of_held {mem : Addr → MempoolHdr} (hs : Careful P s) (hb : Behind P s tr t tr')
    (hL : Conserved P elems t L) (hnodup : elems.Nodup) (hx : x ∈ s.held)
    (hmem : ∀ y, y ≠ x → mem y = s.mem y) (q : Nat) : (s.pc q).Ok mem s.mds (s.pool q) := by
  have hchunk : ∀ y ∈ (s.pc q).chunk, y ≠ x := by
    rintro y hy rfl
    exact chunk_not_held hs hb hL hnodup hy hx
  have howned : ∀ y ∈ (s.pc q).owned, y ≠ x := by
    rintro y hy rfl
    exact owned_not_held hs hb hL hnodup hy hx
  exact (hs.ok q).frame (fun _ => rfl) (fun y hy => hmem y (hchunk y hy))
    fun y hy => by rw [hmem y (howned y hy)]

end Apart

end Steps

end ThletEvaluation.Shinjuku
