import Mathlib.Algebra.Ring.Int.Defs
import ThletEvaluation.Lib.Run
import ThletEvaluation.Shinjuku.Common

/-!
# The memory pools

`mempool.c` as it stands. A free element stores its two links in its own first
sixteen bytes, so memory is a map from the address of an element to that header.
One call reads and writes the headers, one pool and the datastore behind it.
Failing `BUG_ON`s end the run and are named after the line that fails.
-/

namespace ThletEvaluation.Shinjuku

set_option autoImplicit false

structure MempoolHdr where
  next : Addr := NULL
  nextChunk : Addr := NULL
  deriving DecidableEq, Repr

structure MempoolDatastore where
  magic : UInt64 := 0
  chunkHead : Addr := NULL
  buf : Addr := NULL
  nrPages : Int32 := 0
  nrElems : UInt32 := 0
  elemLen : UInt64 := 0
  nostraddle : Int32 := 0
  chunkSize : Int32 := 0
  numChunks : Int32 := 0
  freeChunks : Int32 := 0
  numLocks : Int64 := 0
  prettyname : Option String := none
  nextDs : Addr := NULL
  deriving DecidableEq

structure Mempool where
  head : Addr := NULL
  numFree : Int32 := 0
  elemLen : UInt64 := 0
  magic : UInt64 := 0
  buf : Addr := NULL
  datastore : Addr := NULL
  privateChunk : Addr := NULL
  nrElems : UInt32 := 0
  nostraddle : Int32 := 0
  chunkSize : Int32 := 0
  deriving DecidableEq

def MEMPOOL_MAGIC : UInt64 := 0x12911776

/-- What one call can touch; `mds` is the record that `m.datastore` points to. -/
structure Arena where
  mem : Addr → MempoolHdr
  mds : MempoolDatastore
  m : Mempool

inductive Bug where
  | allocMagic
  | allocHead
  | allocDatastore
  | freeNumFree
  deriving DecidableEq, Repr

/-- Second stage allocator. The counter `num_free` is not assigned on this path. -/
def mempoolAlloc2 (s : Arena) : Except Bug (Addr × Arena) :=
  if s.m.magic ≠ MEMPOOL_MAGIC then .error .allocMagic
  else if s.m.head ≠ NULL then .error .allocHead
  else if s.m.privateChunk ≠ NULL then
    let h := s.m.privateChunk
    .ok (h, { s with m := { s.m with head := (s.mem h).next, privateChunk := NULL } })
  else if s.m.datastore = NULL then .error .allocDatastore
  else
    let h := s.mds.chunkHead
    if h ≠ NULL then
      .ok (h, { s with
        mds := { s.mds with
          chunkHead := (s.mem h).nextChunk
          freeChunks := s.mds.freeChunks - 1
          numLocks := s.mds.numLocks + 1 }
        m := { s.m with head := (s.mem h).next } })
    else .ok (h, s)

def mempoolAlloc (s : Arena) : Except Bug (Addr × Arena) :=
  let h := s.m.head
  if h ≠ NULL then
    .ok (h, { s with m := { s.m with head := (s.mem h).next, numFree := s.m.numFree - 1 } })
  else mempoolAlloc2 s

def setNext (mem : Addr → MempoolHdr) (a v : Addr) : Addr → MempoolHdr :=
  Function.update mem a { mem a with next := v }

def setNextChunk (mem : Addr → MempoolHdr) (a v : Addr) : Addr → MempoolHdr :=
  Function.update mem a { mem a with nextChunk := v }

/-- Second stage free. Here too `num_free` keeps its value. -/
def mempoolFree2 (s : Arena) (elem : Addr) : Except Bug Arena :=
  if s.m.numFree ≠ s.m.chunkSize then .error .freeNumFree
  else
    let mem := setNext s.mem elem NULL
    if s.m.privateChunk ≠ NULL then
      .ok {
        mem := setNextChunk mem s.m.privateChunk s.mds.chunkHead
        mds := { s.mds with
          chunkHead := s.m.privateChunk
          freeChunks := s.mds.freeChunks + 1
          numLocks := s.mds.numLocks + 1 }
        m := { s.m with privateChunk := s.m.head, head := elem } }
    else .ok { s with mem := mem, m := { s.m with privateChunk := s.m.head, head := elem } }

def mempoolFree (s : Arena) (elem : Addr) : Except Bug Arena :=
  if s.m.numFree < s.m.chunkSize then
    .ok { s with
      mem := setNext s.mem elem s.m.head
      m := { s.m with numFree := s.m.numFree + 1, head := elem } }
  else mempoolFree2 s elem

inductive CreatePanic where
  | noDatastore
  | calledTwice
  deriving DecidableEq, Repr

/-- `ds` is the address of `mds`. `num_free` and `private_chunk` are left as they were. -/
def mempoolCreate (m : Mempool) (ds : Addr) (mds : MempoolDatastore) :
    Except CreatePanic Mempool :=
  if mds.magic ≠ MEMPOOL_MAGIC then .error .noDatastore
  else if m.magic ≠ 0 then .error .calledTwice
  else .ok { m with
    magic := MEMPOOL_MAGIC
    buf := mds.buf
    datastore := ds
    head := NULL
    nrElems := mds.nrElems
    elemLen := mds.elemLen
    nostraddle := mds.nostraddle
    chunkSize := mds.chunkSize }

theorem toInt_pred {n : Int32} (h : -(2 ^ 31 : Int) < n.toInt) : (n - 1).toInt = n.toInt - 1 := by
  have hlt := n.toInt_lt
  rw [Int32.toInt_sub, show (1 : Int32).toInt = 1 from rfl, Int.bmod_eq_of_le (by omega) (by omega)]

theorem toInt_succ {n m : Int32} (h : n.toInt < m.toInt) : (n + 1).toInt = n.toInt + 1 := by
  have hle := n.le_toInt
  have hlt := m.toInt_lt
  rw [Int32.toInt_add, show (1 : Int32).toInt = 1 from rfl, Int.bmod_eq_of_le (by omega) (by omega)]

/-- Pools over one datastore, with the elements that their callers hold. -/
structure Pools where
  mem : Addr → MempoolHdr
  mds : MempoolDatastore
  pool : Nat → Mempool
  held : List Addr

def Pools.arena (s : Pools) (p : Nat) : Arena := ⟨s.mem, s.mds, s.pool p⟩

def Pools.put (s : Pools) (p : Nat) (r : Arena) (held : List Addr) : Pools :=
  ⟨r.mem, r.mds, Function.update s.pool p r.m, held⟩

inductive PoolCall where
  | alloc (p : Nat)
  | free (p : Nat) (a : Addr)
  /-- A holder overwrites an element, and with it the links inside. -/
  | write (a : Addr) (h : MempoolHdr)

/-- The events are the pointers that `mempool_alloc` returned. -/
def Pools.step (s : Pools) : PoolCall → Option (Pools × List Addr)
  | .alloc p =>
    match mempoolAlloc (s.arena p) with
    | .error _ => none
    | .ok (a, r) => some (s.put p r (if a = NULL then s.held else a :: s.held), [a])
  | .free p a =>
    match mempoolFree (s.arena p) a with
    | .error _ => none
    | .ok r => some (s.put p r (s.held.erase a), [])
  | .write a h => some ({ s with mem := Function.update s.mem a h }, [])

def poolMachine : Run.Machine Pools PoolCall Addr := ⟨Pools.step⟩

/-- Only existing pools are used, and only elements that are held are freed or
written. -/
def PoolCall.Legal (P : Nat) (s : Pools) : PoolCall → Prop
  | .alloc p => p < P
  | .free p a => p < P ∧ a ∈ s.held
  | .write a _ => a ∈ s.held

instance (P : Nat) (s : Pools) (call : PoolCall) : Decidable (call.Legal P s) :=
  match call with
  | .alloc p => inferInstanceAs (Decidable (p < P))
  | .free p a => inferInstanceAs (Decidable (p < P ∧ a ∈ s.held))
  | .write a _ => inferInstanceAs (Decidable (a ∈ s.held))

/-- `P` pools made by `mempool_create` from zeroed structs, nothing allocated yet. -/
structure Pools.Start (P : Nat) (ds : Addr) (mem : Addr → MempoolHdr) (mds : MempoolDatastore)
    (s : Pools) : Prop where
  mem_eq : s.mem = mem
  mds_eq : s.mds = mds
  created : ∀ p < P, mempoolCreate {} ds mds = .ok (s.pool p)
  held_eq : s.held = []

end ThletEvaluation.Shinjuku
