import Mathlib.Data.Set.Basic
import Mathlib.Data.List.Basic

/-!
# The key-value table of the user-mode servers

`hash.c` as it stands. A pointer to characters is the list of bytes from that
address on. Whether plain `char` is signed depends on the target, so it is a
parameter. `put` allocates an entry only when its bucket is empty and always sets
`next` to `NULL`, so a bucket is an optional entry; the locks are left out, since
one call at a time is considered here.
-/

namespace ThletEvaluation.Linux

set_option autoImplicit false

def KEY_SIZE : Nat := 10

def VALUE_SIZE : Nat := 100

def NUM_BUCKETS : Nat := 100

structure Entries where
  key : List UInt8
  value : List UInt8
  deriving DecidableEq, Repr

structure Hash where
  buckets : Fin NUM_BUCKETS → Option Entries

def hashInit : Hash := ⟨fun _ => none⟩

def charToInt (signed : Bool) (c : UInt8) : Int32 :=
  if signed then c.toInt8.toInt32 else c.toUInt32.toInt32

/-- The loop of `hash`: the product is an `int`, the sum a `size_t`. Running off the
readable bytes without meeting a NUL gives `none`. -/
def hashLoop (signed : Bool) : List UInt8 → Nat → UInt64 → Option UInt64
  | [], _, _ => none
  | c :: cs, i, res =>
    if c = 0 then some res
    else hashLoop signed cs (i + 1)
      (res + (charToInt signed c * Int32.ofNat i * 10).toInt64.toUInt64)

def hash (signed : Bool) (key : List UInt8) : Option (Fin NUM_BUCKETS) :=
  (hashLoop signed key 0 0).map fun res => ⟨res.toNat % NUM_BUCKETS, Nat.mod_lt _ (by decide)⟩

/-- `strncpy` writes exactly `n` bytes, padding with NULs behind a shorter source. -/
def strncpy (dst src : List UInt8) (n : Nat) : List UInt8 :=
  let s := (src.takeWhile (· ≠ 0)).take n
  s ++ List.replicate (n - s.length) 0 ++ dst.drop n

/-- Both arrays of a fresh entry are overwritten in full, so what `malloc` leaves in
them does not matter. -/
def put (signed : Bool) (key value : List UInt8) (table : Hash) : Option Hash :=
  (hash signed key).map fun b =>
    let e := (table.buckets b).getD ⟨List.replicate KEY_SIZE 0, List.replicate VALUE_SIZE 0⟩
    ⟨Function.update table.buckets b
      (some ⟨strncpy e.key key KEY_SIZE, strncpy e.value value VALUE_SIZE⟩)⟩

/-- The contents of the caller's buffer afterwards. The stored key is not compared. -/
def get (signed : Bool) (key value : List UInt8) (table : Hash) : Option (List UInt8) :=
  (hash signed key).map fun b =>
    match table.buckets b with
    | none => value
    | some e => strncpy value e.value VALUE_SIZE

/-- A string that fits an array of `cap` characters with its NUL. -/
structure CStr (cap : Nat) where
  chars : List UInt8
  nonzero : ∀ c ∈ chars, c ≠ 0
  fits : chars.length < cap
  deriving DecidableEq

def CStr.bytes {cap : Nat} (s : CStr cap) : List UInt8 := s.chars ++ [0]

inductive KvOp where
  | put (k : CStr KEY_SIZE) (v : CStr VALUE_SIZE)
  | get (k : CStr KEY_SIZE) (buf : List UInt8)

def KvOp.key : KvOp → CStr KEY_SIZE
  | .put k _ => k
  | .get k _ => k

def KvOp.apply (signed : Bool) (table : Hash) : KvOp → Option Hash
  | .put k v => Linux.put signed k.bytes v.bytes table
  | .get k buf => (Linux.get signed k.bytes buf table).map fun _ => table

/-- The table after a history of calls that starts with `hash_init`. -/
def tableAfter (signed : Bool) (ops : List KvOp) : Option Hash :=
  ops.foldlM (KvOp.apply signed) hashInit

def getAfter (signed : Bool) (ops : List KvOp) (k : CStr KEY_SIZE) (buf : List UInt8) :
    Option (List UInt8) :=
  (tableAfter signed ops).bind (Linux.get signed k.bytes buf)

/-! ## What a key-value table is for -/

def lastPut (k : CStr KEY_SIZE) (ops : List KvOp) : Option (CStr VALUE_SIZE) :=
  ops.foldl (fun last op =>
    match op with
    | .put k' v => if k' = k then some v else last
    | .get _ _ => last) none

def writeValue (buf : List UInt8) (v : CStr VALUE_SIZE) : List UInt8 :=
  v.chars ++ List.replicate (VALUE_SIZE - v.chars.length) 0 ++ buf.drop VALUE_SIZE

def expected (ops : List KvOp) (k : CStr KEY_SIZE) (buf : List UInt8) : List UInt8 :=
  match lastPut k ops with
  | none => buf
  | some v => writeValue buf v

end ThletEvaluation.Linux
