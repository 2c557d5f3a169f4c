import Mathlib.Algebra.Ring.Nat
import ThletEvaluation.Shinjuku.Mempool

/-!
# Creating a datastore

`mempool_create_datastore` and the loop that threads the elements through the pages. The pages
come from `alloc_pages` and hold what they held before. An `int` operation whose result is no
`int`, and a division by zero, have no meaning in C and end the call as a failed assertion does.
-/

namespace ThletEvaluation.Shinjuku

set_option autoImplicit false

def PGSHIFT_2MB : Nat := 21
def PGSIZE_2MB : Nat := 2097152
def PGMASK_2MB : Nat := 2097151
def PGSIZE_4KB : Nat := 4096

def ENOMEM : Int := 12
def EINVAL : Int := 22

inductive CreateFault where
  | magic
  | chunkSize
  | nrElems
  | divideByZero
  | overflow
  deriving DecidableEq

/-- The result of an `int` operation: `x` itself, where an `int` can hold it. -/
def asInt (x : Int) : Except CreateFault Int32 :=
  if (Int32.ofInt x).toInt = x then .ok (Int32.ofInt x) else .error .overflow

/-- `ALIGN(x, sizeof(long))`, on a `size_t`. -/
def alignLong (x : UInt64) : UInt64 := (x + 7) &&& ~~~7

/-- `get_order` of the kernel: the pages of 4 KB that hold `size` bytes, as a power of two. -/
def getOrder (size : UInt64) : Nat :=
  if size = 0 then 64 - 12
  else
    let n := (size.toNat - 1) / PGSIZE_4KB
    if n = 0 then 0 else n.log2 + 1

/-- What the call computes before it asks for the pages. -/
structure Geometry where
  elemLen : UInt64
  nrPages : Int32
  nrElems : Int32
  /-- `nr_pages * PGSIZE_2MB`. -/
  size : Int32
  /-- The arguments of `mempool_init_buf_with_pages`. -/
  elemsPerPage : Int32
  initPages : Int32
  deriving DecidableEq

def sizeToInt (x : UInt64) : Int32 := x.toUInt32.toInt32

/-- `PGSIZE_2MB / elem_len`, as an `int`. -/
def elemsPerPage (elemLen : UInt64) : Int32 := sizeToInt (UInt64.ofNat PGSIZE_2MB / elemLen)

/-- `PGN_2MB(nr_elems * elem_len + PGMASK_2MB)`, as an `int`. -/
def pagesOfElems (nrElems : Int32) (elemLen : UInt64) : Int32 :=
  sizeToInt
    ((nrElems.toInt64.toUInt64 * elemLen + UInt64.ofNat PGMASK_2MB) >>> UInt64.ofNat PGSHIFT_2MB)

/-- The branch of a datastore whose elements do not cross a page. -/
def nostraddleGeometry (nrElems : Int32) (elemLen : UInt64) : Except CreateFault Geometry :=
  asInt (nrElems.toInt + (elemsPerPage elemLen).toInt) >>= fun sum =>
  if elemsPerPage elemLen = 0 then .error .divideByZero
  else asInt (((sum - 1) / elemsPerPage elemLen).toInt * PGSIZE_2MB) >>= fun size =>
    .ok {
      elemLen := elemLen
      nrPages := (sum - 1) / elemsPerPage elemLen
      nrElems := nrElems
      size := size
      elemsPerPage := elemsPerPage elemLen
      initPages := (sum - 1) / elemsPerPage elemLen }

/-- The other branch, where the number of elements is computed anew. -/
def straddleGeometry (nrElems : Int32) (elemLen : UInt64) : Except CreateFault Geometry :=
  asInt ((pagesOfElems nrElems elemLen).toInt * PGSIZE_2MB) >>= fun size =>
  .ok {
    elemLen := elemLen
    nrPages := pagesOfElems nrElems elemLen
    nrElems := sizeToInt (size.toInt64.toUInt64 / elemLen)
    size := size
    elemsPerPage := sizeToInt (size.toInt64.toUInt64 / elemLen)
    initPages := 1 }

def datastoreGeometry (nrElems : Int32) (elemLen : UInt64) (nostraddle : Int32) :
    Except CreateFault Geometry :=
  if alignLong elemLen = 0 then .error .divideByZero
  else if nostraddle ≠ 0 then nostraddleGeometry nrElems (alignLong elemLen)
  else straddleGeometry nrElems (alignLong elemLen)

/-- The local variables of the loop, with the memory and the datastore. -/
structure InitState where
  mem : Addr → MempoolHdr
  mds : MempoolDatastore
  head : Addr
  prev : Addr
  chunkCount : Int32

/-- The body of the inner loop. -/
def initElem (st : InitState) (cur : Addr) : InitState :=
  let head := if st.prev = NULL then cur else st.head
  let mem := if st.prev = NULL then st.mem else setNext st.mem st.prev cur
  let chunkCount := st.chunkCount + 1
  if chunkCount = st.mds.chunkSize then
    { mem := if st.mds.chunkHead = NULL then mem else setNextChunk mem head st.mds.chunkHead
      mds := { st.mds with
        chunkHead := head
        numChunks := st.mds.numChunks + 1
        freeChunks := st.mds.freeChunks + 1 }
      head := NULL
      prev := NULL
      chunkCount := 0 }
  else { st with mem := mem, head := head, prev := cur, chunkCount := chunkCount }

/-- The inner loop, from `cur` on. -/
def initPage (elemLen : UInt64) : Nat → Addr → InitState → InitState
  | 0, _, st => st
  | j + 1, cur, st => initPage elemLen j (cur + elemLen) (initElem st cur)

/-- The outer loop, from page `i` on. -/
def initPages (buf : Addr) (elemsPerPage : Nat) (elemLen : UInt64) :
    Nat → Nat → InitState → InitState
  | 0, _, st => st
  | n + 1, i, st => initPages buf elemsPerPage elemLen n (i + 1)
      (initPage elemLen elemsPerPage (buf + UInt64.ofNat (i * PGSIZE_2MB)) st)

def mempoolInitBufWithPages (mem : Addr → MempoolHdr) (mds : MempoolDatastore)
    (elemsPerPage nrPages : Int32) (elemLen : UInt64) : InitState :=
  initPages mds.buf elemsPerPage.toInt.toNat elemLen nrPages.toInt.toNat 0
    ⟨mem, mds, NULL, NULL, 0⟩

structure CreateResult where
  ret : Int
  mem : Addr → MempoolHdr
  mds : MempoolDatastore
  /-- `mempool_all_datastores`. -/
  allDatastores : Addr

/-- The datastore record when the loop over the pages starts. -/
def MempoolDatastore.describe (mds : MempoolDatastore) (g : Geometry) (buf : Addr)
    (nostraddle chunkSize : Int32) : MempoolDatastore :=
  { mds with
    buf := buf
    nrPages := g.nrPages
    nrElems := g.nrElems.toUInt32
    elemLen := g.elemLen
    chunkSize := chunkSize
    nostraddle := nostraddle }

/-- The call from `alloc_pages` on, for the datastore at `self`. -/
def fillDatastore (allocPages : Nat → Option Addr) (self allDatastores : Addr)
    (mem : Addr → MempoolHdr) (mds : MempoolDatastore) (nostraddle chunkSize : Int32)
    (g : Geometry) : CreateResult :=
  match allocPages (getOrder g.size.toInt64.toUInt64) with
  | none => ⟨-ENOMEM, mem, mds, allDatastores⟩
  | some buf =>
    let st := mempoolInitBufWithPages mem (mds.describe g buf nostraddle chunkSize)
      g.elemsPerPage g.initPages g.elemLen
    ⟨0, st.mem, { st.mds with nextDs := allDatastores }, self⟩

/-- `mempool_create_datastore` of the datastore at `self`; `allocPages` is the address of the
pages that `alloc_pages` gives for an order. -/
def mempoolCreateDatastore (allocPages : Nat → Option Addr) (self allDatastores : Addr)
    (mem : Addr → MempoolHdr) (mds : MempoolDatastore) (nrElems : Int32) (elemLen : UInt64)
    (nostraddle chunkSize : Int32) (name : String) : Except CreateFault CreateResult :=
  if mds.magic ≠ 0 then .error .magic
  else if chunkSize &&& (chunkSize - 1) ≠ 0 then .error .chunkSize
  else if chunkSize = 0 then .error .divideByZero
  else if nrElems / chunkSize * chunkSize ≠ nrElems then .error .nrElems
  else if elemLen = 0 ∨ nrElems = 0 then .ok ⟨-EINVAL, mem, mds, allDatastores⟩
  else
    datastoreGeometry nrElems elemLen nostraddle >>= fun g =>
    .ok (fillDatastore allocPages self allDatastores mem
      { mds with magic := MEMPOOL_MAGIC, prettyname := some name } nostraddle chunkSize g)

end ThletEvaluation.Shinjuku
