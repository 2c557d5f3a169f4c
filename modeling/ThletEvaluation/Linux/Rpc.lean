import ThletEvaluation.Lib.Bytes
import ThletEvaluation.Linux.Hash

/-!
# The wire format of the user-mode programs

The packed `Rpc` of `const.h` on a little-endian host, the byte-order conversions, and what
the servers do with a record. A pointer to a record is the list of bytes from its address on,
as in `Hash`, and the servers read every field through such a pointer.
-/

namespace ThletEvaluation.Linux

open Bytes

set_option autoImplicit false

def RPC_SIZE : Nat := 126

/-- `magic`, `id` and `type` are the numbers that the host sees in the record. -/
structure Rpc where
  magic : UInt64
  id : UInt32
  type : UInt32
  key : List UInt8
  value : List UInt8
  key_length : key.length = KEY_SIZE
  value_length : value.length = VALUE_SIZE
  deriving DecidableEq

def Rpc.bytes (r : Rpc) : List UInt8 :=
  leBytes 8 r.magic.toNat ++ (leBytes 4 r.id.toNat ++ (leBytes 4 r.type.toNat ++
    (r.key ++ r.value)))

def rpcMagic (p : List UInt8) : UInt64 := UInt64.ofNat (leNat (p.take 8))

def rpcType (p : List UInt8) : UInt32 := UInt32.ofNat (leNat ((p.drop 12).take 4))

def rpcKey (p : List UInt8) : List UInt8 := p.drop 16

def rpcValue (p : List UInt8) : List UInt8 := p.drop (16 + KEY_SIZE)

/-- `enum Type`. -/
inductive RpcType where
  | get
  | put
  | exit
  deriving DecidableEq, Repr

def RpcType.code : RpcType → UInt32
  | .get => 0
  | .put => 1
  | .exit => 2

/-- Also `be32toh`, `be32_to_cpu`. -/
def htobe32 (x : UInt32) : UInt32 := UInt32.ofNat (bswap 4 x.toNat)

/-- Also `be64toh`. -/
def htobe64 (x : UInt64) : UInt64 := UInt64.ofNat (bswap 8 x.toNat)

def RPC_MAGIC : UInt64 := 0x7777

/-- `recv` and `recvfrom` overwrite the beginning of a buffer. -/
def recvInto (buffer piece : List UInt8) : List UInt8 := piece ++ buffer.drop piece.length

/-- A call on the table, with the pointers it gets. -/
inductive Call where
  | get (key : List UInt8)
  | put (key value : List UInt8)
  deriving DecidableEq

/-- The call that the three `handle_rpc` functions make for a record. -/
def rpcCall (p : List UInt8) : Option Call :=
  if rpcType p = RpcType.get.code then some (.get (rpcKey p))
  else if rpcType p = RpcType.put.code then some (.put (rpcKey p) (rpcValue p))
  else none

/-- The local `value` that `get` fills is not used. -/
def Call.run (signed : Bool) (table : Hash) : Call → Option Hash
  | .get key => (Linux.get signed key (List.replicate VALUE_SIZE 0) table).map fun _ => table
  | .put key value => Linux.put signed key value table

/-- The body of `handle_rpc` and whether the type was none of the two. There is no table any
more once a call has read behind the readable bytes. -/
def kvRpc (signed : Bool) (p : List UInt8) (table : Option Hash) : Option Hash × Bool :=
  match rpcCall p with
  | some call => (table.bind fun t => call.run signed t, false)
  | none => (table, true)

section Layout
variable (r : Rpc) (rest : List UInt8)

@[simp] theorem Rpc.length_bytes : r.bytes.length = RPC_SIZE := by
  simp [Rpc.bytes, r.key_length, r.value_length, RPC_SIZE, KEY_SIZE, VALUE_SIZE]

theorem ofNat_leBytes64 (x : UInt64) : UInt64.ofNat (leNat (leBytes 8 x.toNat)) = x := by
  rw [leNat_leBytes x.toNat_lt, UInt64.ofNat_toNat]

theorem ofNat_leBytes32 (x : UInt32) : UInt32.ofNat (leNat (leBytes 4 x.toNat)) = x := by
  rw [leNat_leBytes x.toNat_lt, UInt32.ofNat_toNat]

@[simp] theorem rpcMagic_bytes : rpcMagic (r.bytes ++ rest) = r.magic := by
  simp [rpcMagic, Rpc.bytes, ofNat_leBytes64]

theorem Rpc.drop_type :
    (r.bytes ++ rest).drop 12 = leBytes 4 r.type.toNat ++ (r.key ++ (r.value ++ rest)) := by
  have hsplit : r.bytes ++ rest = (leBytes 8 r.magic.toNat ++ leBytes 4 r.id.toNat) ++
      (leBytes 4 r.type.toNat ++ (r.key ++ (r.value ++ rest))) := by
    simp [Rpc.bytes]
  rw [hsplit]
  exact List.drop_left' (by simp)

@[simp] theorem rpcType_bytes : rpcType (r.bytes ++ rest) = r.type := by
  rw [rpcType, r.drop_type, List.take_left' (length_leBytes 4 _), ofNat_leBytes32]

@[simp] theorem rpcKey_bytes : rpcKey (r.bytes ++ rest) = r.key ++ (r.value ++ rest) := by
  have hdrop : (r.bytes ++ rest).drop 16 = ((r.bytes ++ rest).drop 12).drop 4 := by
    rw [List.drop_drop]
  rw [rpcKey, hdrop, r.drop_type, List.drop_left' (length_leBytes 4 _)]

theorem recvInto_bytes {buffer : List UInt8} (hlen : buffer.length = RPC_SIZE) :
    recvInto buffer r.bytes = r.bytes := by
  simp [recvInto, ← hlen]

end Layout

theorem toNat_htobe32 (x : UInt32) : (htobe32 x).toNat = bswap 4 x.toNat := by
  rw [htobe32, UInt32.toNat_ofNat_of_lt' (bswap_lt 4 _)]

@[simp] theorem htobe32_htobe32 (x : UInt32) : htobe32 (htobe32 x) = x := by
  rw [htobe32, toNat_htobe32, bswap_bswap x.toNat_lt, UInt32.ofNat_toNat]

theorem toNat_htobe64 (x : UInt64) : (htobe64 x).toNat = bswap 8 x.toNat := by
  rw [htobe64, UInt64.toNat_ofNat_of_lt' (bswap_lt 8 _)]

@[simp] theorem htobe64_htobe64 (x : UInt64) : htobe64 (htobe64 x) = x := by
  rw [htobe64, toNat_htobe64, bswap_bswap x.toNat_lt, UInt64.ofNat_toNat]

end ThletEvaluation.Linux
