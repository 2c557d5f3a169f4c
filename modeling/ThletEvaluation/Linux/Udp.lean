import Mathlib.Data.List.TakeDrop
import ThletEvaluation.Linux.KeyValue
import ThletEvaluation.Linux.Rpc

/-!
# Requests over UDP

The encoder of `send.c` and the two servers that receive its datagrams. The sender stores
`magic`, `id` and `type` in network order; the servers convert `magic` back before they
compare it, and not `type`.
-/

namespace ThletEvaluation.Linux

open Bytes

set_option autoImplicit false

/-- A `Get` or a `Put` with strings of any length. -/
structure Request where
  isPut : Bool
  id : UInt32
  key : List UInt8
  value : List UInt8
  key_nonzero : ∀ c ∈ key, c ≠ 0
  value_nonzero : ∀ c ∈ value, c ≠ 0

def Request.type (r : Request) : RpcType := if r.isPut then .put else .get

/-- The call that the request asks for. -/
def Request.call (r : Request) : Call :=
  if r.isPut then .put (r.key ++ [0]) (r.value ++ [0]) else .get (r.key ++ [0])

theorem length_strncpy {dst : List UInt8} {n : Nat} (h : n ≤ dst.length) (src : List UInt8) :
    (strncpy dst src n).length = dst.length := by
  have hcopied : ((src.takeWhile (· ≠ 0)).take n).length ≤ n := List.length_take_le _ _
  simp only [strncpy, List.length_append, List.length_replicate, List.length_drop]
  omega

/-- The record that `send.c` fills. -/
def Request.encode (r : Request) : Rpc where
  magic := htobe64 RPC_MAGIC
  id := htobe32 r.id
  type := htobe32 r.type.code
  key := strncpy (List.replicate KEY_SIZE 0) (r.key ++ [0]) (KEY_SIZE - 1)
  value := strncpy (List.replicate VALUE_SIZE 0) (r.value ++ [0]) (VALUE_SIZE - 1)
  key_length := (length_strncpy (Nat.le_of_ble_eq_true rfl) _).trans List.length_replicate
  value_length := (length_strncpy (Nat.le_of_ble_eq_true rfl) _).trans List.length_replicate

/-- The strings at the pointers of a call. -/
def Call.strings : Call → Call
  | .get key => .get (key.takeWhile (· ≠ 0))
  | .put key value => .put (key.takeWhile (· ≠ 0)) (value.takeWhile (· ≠ 0))

structure Served where
  calls : List Call
  table : Option Hash

/-- The loop of `udpserver_simple`. A record of another type ends it. -/
def udpServerSimple (signed : Bool) : Option Hash → List UInt8 → List (List UInt8) → Served
  | table, _, [] => ⟨[], table⟩
  | table, old, datagram :: datagrams =>
    let buffer := recvInto old (datagram.take RPC_SIZE)
    if htobe64 (rpcMagic buffer) = RPC_MAGIC then
      let r := kvRpc signed buffer table
      let rest := if r.2 then ⟨[], r.1⟩ else udpServerSimple signed r.1 buffer datagrams
      ⟨(rpcCall buffer).toList ++ rest.calls, rest.table⟩
    else udpServerSimple signed table buffer datagrams

/-- The datagrams of `udpserver` when `ThreadPool::handle_rpc` gets them one by one. Each one
has its own slot of `global_buffer`; a record of another type is ignored. -/
def udpServer (signed : Bool) : Option Hash → List (List UInt8) → Served
  | table, [] => ⟨[], table⟩
  | table, datagram :: datagrams =>
    let slot := recvInto (List.replicate RPC_SIZE 0) (datagram.take RPC_SIZE)
    if htobe64 (rpcMagic slot) = RPC_MAGIC then
      let rest := udpServer signed (kvRpc signed slot table).1 datagrams
      ⟨(rpcCall slot).toList ++ rest.calls, rest.table⟩
    else udpServer signed table datagrams

/-- The calls of the requests and no others were made, in their order. -/
structure Performed (signed : Bool) (table : Option Hash) (requests : List Request)
    (served : Served) : Prop where
  calls : served.calls.map Call.strings = requests.map fun r => r.call.strings
  table : served.table =
    requests.foldl (fun t r => t.bind fun t => r.call.run signed t) table

def datagramsOf (requests : List Request) : List (List UInt8) :=
  requests.map fun r => r.encode.bytes

section Record
variable {signed : Bool} {table : Option Hash} {r : Request}

@[simp] theorem encode_magic : htobe64 (rpcMagic r.encode.bytes) = RPC_MAGIC := by
  have hmagic : rpcMagic r.encode.bytes = htobe64 RPC_MAGIC := by
    simpa [Request.encode] using rpcMagic_bytes r.encode []
  rw [hmagic, htobe64_htobe64]

theorem encode_type : rpcType r.encode.bytes = htobe32 r.type.code := by
  simpa [Request.encode] using rpcType_bytes r.encode []

theorem encode_key : rpcKey r.encode.bytes = r.encode.key ++ r.encode.value := by
  simpa using rpcKey_bytes r.encode []

/-- The key of a record is the string, cut after `KEY_SIZE - 1` characters. -/
theorem encode_key_nul :
    ∃ rest, rpcKey r.encode.bytes = r.key.take (KEY_SIZE - 1) ++ 0 :: rest := by
  have hchars : (r.key ++ [0]).takeWhile (· ≠ 0) = r.key := takeWhile_nul r.key_nonzero []
  obtain ⟨k, hk⟩ : ∃ k, KEY_SIZE - 1 - (r.key.take (KEY_SIZE - 1)).length = k := ⟨_, rfl⟩
  refine ⟨List.replicate k 0 ++ r.encode.value, ?_⟩
  have hcopy : r.encode.key =
      r.key.take (KEY_SIZE - 1) ++ List.replicate k 0 ++ [0] := by
    simp only [Request.encode, strncpy, hchars, hk]
    rfl
  rw [encode_key, hcopy, List.append_assoc (r.key.take _), ← List.replicate_succ',
    List.append_assoc, List.replicate_succ]
  rfl

theorem rpcCall_put (h : r.isPut = true) : rpcCall r.encode.bytes = none := by
  have hget : htobe32 RpcType.put.code ≠ RpcType.get.code := by decide
  have hput : htobe32 RpcType.put.code ≠ RpcType.put.code := by decide
  simp [rpcCall, encode_type, Request.type, h, hget, hput]

theorem rpcCall_get (h : r.isPut = false) :
    rpcCall r.encode.bytes = some (.get (rpcKey r.encode.bytes)) := by
  have hget : htobe32 RpcType.get.code = RpcType.get.code := by decide
  simp [rpcCall, encode_type, Request.type, h, hget]

theorem run_get (cs rest : List UInt8) (hcs : ∀ c ∈ cs, c ≠ 0) (t : Hash) :
    (Call.get (cs ++ 0 :: rest)).run signed t = some t := by
  obtain ⟨res, hres⟩ := @hashLoop_nul signed cs rest hcs 0 0
  simp [Call.run, get, hash, hres]

theorem take_nonzero (k : Nat) : ∀ c ∈ r.key.take k, c ≠ 0 :=
  fun c hc => r.key_nonzero c (List.mem_of_mem_take hc)

theorem kvRpc_get (h : r.isPut = false) : kvRpc signed r.encode.bytes table = (table, false) := by
  obtain ⟨rest, hkey⟩ := @encode_key_nul r
  simp [kvRpc, rpcCall_get h, hkey, run_get _ _ (take_nonzero _)]

theorem strings_get_iff (h : r.isPut = false) :
    (Call.get (rpcKey r.encode.bytes)).strings = r.call.strings ↔ r.key.length < KEY_SIZE := by
  obtain ⟨rest, hkey⟩ := @encode_key_nul r
  have hcut : (rpcKey r.encode.bytes).takeWhile (· ≠ 0) = r.key.take (KEY_SIZE - 1) := by
    rw [hkey, takeWhile_nul (take_nonzero _)]
  have hwhole : (r.key ++ [0]).takeWhile (· ≠ 0) = r.key := takeWhile_nul r.key_nonzero []
  simp only [Call.strings, Request.call, h, Bool.false_eq_true, if_false, hcut, hwhole,
    Call.get.injEq, List.take_eq_self_iff]
  rw [Nat.le_sub_one_iff_lt (by decide)]

end Record

section Servers
variable {signed : Bool} {table : Option Hash} {requests : List Request}

theorem udpServerSimple_cons {buffer : List UInt8} (hlen : buffer.length = RPC_SIZE)
    (r : Request) :
    udpServerSimple signed table buffer (datagramsOf (r :: requests)) =
      if r.isPut then ⟨[], table⟩
      else
        let rest := udpServerSimple signed table r.encode.bytes (datagramsOf requests)
        ⟨.get (rpcKey r.encode.bytes) :: rest.calls, rest.table⟩ := by
  have htake : r.encode.bytes.take RPC_SIZE = r.encode.bytes :=
    List.take_of_length_le (by simp)
  simp only [datagramsOf, List.map_cons, udpServerSimple, htake, recvInto_bytes _ hlen,
    encode_magic, if_true]
  by_cases hput : r.isPut = true
  · simp [hput, kvRpc, rpcCall_put hput]
  · have hget : r.isPut = false := by simpa using hput
    simp [hget, kvRpc_get hget, rpcCall_get hget]

theorem udpServer_cons (r : Request) :
    udpServer signed table (datagramsOf (r :: requests)) =
      let rest := udpServer signed table (datagramsOf requests)
      ⟨if r.isPut then rest.calls else .get (rpcKey r.encode.bytes) :: rest.calls,
        rest.table⟩ := by
  have htake : r.encode.bytes.take RPC_SIZE = r.encode.bytes :=
    List.take_of_length_le (by simp)
  simp only [datagramsOf, List.map_cons, udpServer, htake,
    recvInto_bytes _ (List.length_replicate), encode_magic, if_true]
  by_cases hput : r.isPut = true
  · simp [hput, kvRpc, rpcCall_put hput]
  · have hget : r.isPut = false := by simpa using hput
    simp [hget, kvRpc_get hget, rpcCall_get hget]

/-- A `Get` of a key that fits the record with its NUL. -/
def Request.Understood (r : Request) : Prop := r.isPut = false ∧ r.key.length < KEY_SIZE

theorem performed_nil : Performed signed table [] ⟨[], table⟩ := ⟨rfl, rfl⟩

/-- One more `Get` in front. -/
theorem performed_cons_iff {r : Request} (hget : r.isPut = false) (rest : Served) :
    Performed signed table (r :: requests)
        ⟨.get (rpcKey r.encode.bytes) :: rest.calls, rest.table⟩ ↔
      r.key.length < KEY_SIZE ∧ Performed signed table requests rest := by
  have hrun : (table.bind fun t => r.call.run signed t) = table := by
    cases table with
    | none => rfl
    | some t =>
      have hcall : r.call = .get (r.key ++ [0]) := by simp [Request.call, hget]
      rw [Option.bind_some, hcall, run_get _ _ r.key_nonzero]
  constructor
  · rintro ⟨hcalls, htable⟩
    rw [List.map_cons, List.map_cons, List.cons.injEq, strings_get_iff hget] at hcalls
    exact ⟨hcalls.1, hcalls.2, by simpa [hrun] using htable⟩
  · rintro ⟨hkey, hcalls, htable⟩
    refine ⟨?_, by simpa [hrun] using htable⟩
    rw [List.map_cons, List.map_cons, List.cons.injEq, strings_get_iff hget]
    exact ⟨hkey, hcalls⟩

theorem performed_simple_iff {buffer : List UInt8} (hlen : buffer.length = RPC_SIZE) :
    Performed signed table requests (udpServerSimple signed table buffer (datagramsOf requests)) ↔
      ∀ r ∈ requests, r.Understood := by
  induction requests generalizing buffer with
  | nil => exact ⟨fun _ => by simp, fun _ => performed_nil⟩
  | cons r requests ih =>
    rw [udpServerSimple_cons hlen, List.forall_mem_cons]
    cases hput : r.isPut with
    | true =>
      constructor
      · intro h
        simpa using h.calls
      · rintro ⟨⟨hget, -⟩, -⟩
        simp [hput] at hget
    | false =>
      simp only [Bool.false_eq_true, if_false]
      rw [performed_cons_iff hput, ih r.encode.length_bytes]
      simp [Request.Understood, hput]

theorem udpServer_calls_length :
    (udpServer signed table (datagramsOf requests)).calls.length ≤ requests.length := by
  induction requests with
  | nil => rfl
  | cons r requests ih =>
    rw [udpServer_cons]
    dsimp only
    split
    · simp only [List.length_cons]
      omega
    · simpa using ih

theorem performed_pool_iff :
    Performed signed table requests (udpServer signed table (datagramsOf requests)) ↔
      ∀ r ∈ requests, r.Understood := by
  induction requests with
  | nil => exact ⟨fun _ => by simp, fun _ => performed_nil⟩
  | cons r requests ih =>
    rw [udpServer_cons, List.forall_mem_cons]
    cases hput : r.isPut with
    | true =>
      constructor
      · intro h
        -- a call is missing
        have hcalls := congrArg List.length h.calls
        have hle := @udpServer_calls_length signed table requests
        simp only [if_true, List.length_map, List.length_cons] at hcalls
        omega
      · rintro ⟨⟨hget, -⟩, -⟩
        simp [hput] at hget
    | false =>
      simp only [Bool.false_eq_true, if_false]
      rw [performed_cons_iff hput, ih]
      simp [Request.Understood, hput]

end Servers

/-- For every sequence of requests, encoded as the sender encodes them, each of the two
servers performs exactly their calls when all of them are `Get`s of keys that fit, and in no
other case: no server ever recognises a `Put`. -/
theorem requests_performed_iff (signed : Bool) (table : Option Hash) (requests : List Request)
    (buffer : List UInt8) (hlen : buffer.length = RPC_SIZE) :
    (Performed signed table requests
        (udpServerSimple signed table buffer (datagramsOf requests)) ↔
      ∀ r ∈ requests, r.isPut = false ∧ r.key.length < KEY_SIZE) ∧
    (Performed signed table requests (udpServer signed table (datagramsOf requests)) ↔
      ∀ r ∈ requests, r.isPut = false ∧ r.key.length < KEY_SIZE) :=
  ⟨performed_simple_iff hlen, performed_pool_iff⟩

/-- The request of `send.c` and the one for the same key. -/
def user (isPut : Bool) : Request where
  isPut := isPut
  id := 0
  key := [117, 115, 101, 114]
  value := List.replicate 12 120
  key_nonzero := by simp
  value_nonzero := by simp

theorem requests_performed_iff_user :
    (List.replicate RPC_SIZE (0 : UInt8)).length = RPC_SIZE ∧
    (Performed false (some hashInit) [user false]
        (udpServerSimple false (some hashInit) (List.replicate RPC_SIZE 0)
          (datagramsOf [user false])) ↔
      ∀ r ∈ [user false], r.isPut = false ∧ r.key.length < KEY_SIZE) ∧
    (Performed false (some hashInit) [user false]
        (udpServer false (some hashInit) (datagramsOf [user false])) ↔
      ∀ r ∈ [user false], r.isPut = false ∧ r.key.length < KEY_SIZE) :=
  ⟨by simp, requests_performed_iff false (some hashInit) [user false] _ (by simp)⟩

/-- The first `Put` is not performed by either server. -/
theorem put_not_performed :
    ¬ ∀ (signed : Bool) (table : Option Hash) (requests : List Request) (buffer : List UInt8),
      buffer.length = RPC_SIZE →
        Performed signed table requests
          (udpServerSimple signed table buffer (datagramsOf requests)) ∧
        Performed signed table requests (udpServer signed table (datagramsOf requests)) := by
  intro hclaim
  have hperformed := (hclaim false (some hashInit) [user true] (List.replicate RPC_SIZE 0)
    (by simp)).1
  have hget : (user true).isPut = false :=
    (performed_simple_iff (by simp)).mp hperformed (user true) (by simp) |>.1
  simp [user] at hget

end ThletEvaluation.Linux
