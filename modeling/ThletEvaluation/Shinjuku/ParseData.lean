import ThletEvaluation.Linux.Rpc

/-!
# The spin count of a packet

`parse_data` of the Shinjuku worker on the bytes of a packet, from its IP header on. The
layout of the payload is that of the user-mode programs. The senders store the type in
network order; the plain kernel worker converts it back, `parse_data` does not.
-/

namespace ThletEvaluation.Shinjuku

open Bytes Linux

set_option autoImplicit false

inductive ParseFault where
  /-- A read behind the last byte of the packet. -/
  | outside
  /-- The `BUG_ON` was hit. -/
  | bug
  deriving DecidableEq, Repr

def readAt (skb : List UInt8) (off len : Nat) : Except ParseFault (List UInt8) :=
  if off + len ≤ skb.length then .ok ((skb.drop off).take len) else .error .outside

/-- The low half of the first byte. -/
def ihlOf (iph : List UInt8) : Nat := leNat (iph.take 1) % 16

def ntohs (bs : List UInt8) : Nat := leNat bs.reverse

def UDPHDR_SIZE : Nat := 8

def parseData (skb : List UInt8) : Except ParseFault UInt64 := do
  let iph ← readAt skb 0 1
  let udph := ihlOf iph * 4
  let len ← readAt skb (udph + 4) 2
  let payload := udph + UDPHDR_SIZE
  -- payload_len is a uint32_t, so a length below that of the header wraps
  let payloadLen : UInt32 := UInt32.ofNat (ntohs len) - UInt32.ofNat UDPHDR_SIZE
  if payloadLen < 16 then .error .bug
  else do
    let type ← readAt skb (payload + 12) 4
    return UInt64.ofNat (leNat type)

/-- The type that `thlet_rpc_worker_fn` works with. -/
def thletRpcWorkerType (p : List UInt8) : UInt32 := htobe32 (rpcType p)

/-- A packet whose headers are complete and whose UDP length covers a whole `Rpc`. -/
structure UdpPacket where
  ip : List UInt8
  udp : List UInt8
  rpc : Rpc
  rest : List UInt8
  ihl : 5 ≤ ihlOf ip
  ip_length : ip.length = ihlOf ip * 4
  udp_length : udp.length = UDPHDR_SIZE
  covers : UDPHDR_SIZE + RPC_SIZE ≤ ntohs ((udp.drop 4).take 2)

def UdpPacket.skb (pkt : UdpPacket) : List UInt8 :=
  pkt.ip ++ (pkt.udp ++ (pkt.rpc.bytes ++ pkt.rest))

theorem readAt_append {pre mid post : List UInt8} {off len : Nat} (hoff : pre.length = off)
    (hlen : mid.length = len) : readAt (pre ++ (mid ++ post)) off len = .ok mid := by
  subst hoff hlen
  simp [readAt]

theorem payloadLen_not_lt {len : Nat} (hlen : UDPHDR_SIZE + RPC_SIZE ≤ len) (hlt : len < 65536) :
    ¬ UInt32.ofNat len - UInt32.ofNat UDPHDR_SIZE < 16 := by
  simp only [UDPHDR_SIZE, RPC_SIZE] at hlen
  have hsub : UInt32.ofNat len - UInt32.ofNat UDPHDR_SIZE = UInt32.ofNat (len - 8) := by
    rw [UInt32.ofNat_sub (by omega)]
    rfl
  have hsmall : len - 8 < UInt32.size := by
    rw [show UInt32.size = 4294967296 from rfl]
    omega
  rw [hsub, UInt32.lt_iff_toNat_lt, UInt32.toNat_ofNat_of_lt' hsmall,
    show (16 : UInt32).toNat = 16 from rfl]
  omega

section Packet
variable (pkt : UdpPacket)

theorem UdpPacket.read_ihl : readAt pkt.skb 0 1 = .ok (pkt.ip.take 1) := by
  have hlen := pkt.ip_length
  have hihl := pkt.ihl
  have htake : (pkt.ip.take 1).length = 1 := by
    rw [List.length_take]
    omega
  have hsplit : pkt.skb =
      [] ++ (pkt.ip.take 1 ++ (pkt.ip.drop 1 ++ (pkt.udp ++ (pkt.rpc.bytes ++ pkt.rest)))) := by
    rw [List.nil_append, ← List.append_assoc (pkt.ip.take 1), List.take_append_drop]
    rfl
  rw [hsplit]
  exact readAt_append rfl htake

theorem UdpPacket.read_len :
    readAt pkt.skb (ihlOf pkt.ip * 4 + 4) 2 = .ok ((pkt.udp.drop 4).take 2) := by
  have hudp := pkt.udp_length
  simp only [UDPHDR_SIZE] at hudp
  have hsplit : pkt.skb = (pkt.ip ++ pkt.udp.take 4) ++
      ((pkt.udp.drop 4).take 2 ++ ((pkt.udp.drop 4).drop 2 ++ (pkt.rpc.bytes ++ pkt.rest))) := by
    simp only [UdpPacket.skb, List.append_assoc]
    rw [← List.append_assoc ((pkt.udp.drop 4).take 2), List.take_append_drop,
      ← List.append_assoc (pkt.udp.take 4), List.take_append_drop]
  rw [hsplit]
  apply readAt_append
  · rw [List.length_append, pkt.ip_length, List.length_take]
    omega
  · rw [List.length_take, List.length_drop]
    omega

theorem UdpPacket.read_type :
    readAt pkt.skb (ihlOf pkt.ip * 4 + UDPHDR_SIZE + 12) 4 =
      .ok (leBytes 4 pkt.rpc.type.toNat) := by
  have hsplit : pkt.skb = (pkt.ip ++ (pkt.udp ++ (pkt.rpc.bytes ++ pkt.rest).take 12)) ++
      (leBytes 4 pkt.rpc.type.toNat ++ (pkt.rpc.key ++ (pkt.rpc.value ++ pkt.rest))) := by
    rw [← pkt.rpc.drop_type pkt.rest]
    simp [UdpPacket.skb]
  rw [hsplit]
  apply readAt_append
  · have hlen : 12 ≤ (pkt.rpc.bytes ++ pkt.rest).length := by simp [RPC_SIZE]; omega
    rw [List.length_append, List.length_append, List.length_take, pkt.ip_length,
      pkt.udp_length]
    omega
  · simp

/-- In a well-formed packet `parse_data` yields the type as the host finds it there. -/
theorem parseData_skb : parseData pkt.skb = .ok (UInt64.ofNat pkt.rpc.type.toNat) := by
  have hihl : ihlOf (pkt.ip.take 1) = ihlOf pkt.ip := by
    rw [ihlOf, List.take_take, Nat.min_self, ihlOf]
  have htype : leNat (leBytes 4 pkt.rpc.type.toNat) = pkt.rpc.type.toNat :=
    leNat_leBytes pkt.rpc.type.toNat_lt
  have hlen : ntohs ((pkt.udp.drop 4).take 2) < 65536 := by
    have hlt := leNat_lt ((pkt.udp.drop 4).take 2).reverse
    have htwo : ((pkt.udp.drop 4).take 2).reverse.length = 2 := by
      simp [pkt.udp_length, UDPHDR_SIZE]
    rw [htwo] at hlt
    exact hlt
  simp only [parseData, pkt.read_ihl, hihl, bind, Except.bind, pkt.read_len,
    payloadLen_not_lt pkt.covers hlen, if_false, pkt.read_type, pure, Except.pure,
    htype]

/-- For every well-formed packet whose type is the spin count `n` in network order, the
plain kernel worker finds `n`, and `parse_data` does exactly when the four bytes of `n` are
the same in both directions. -/
theorem parseData_eq_iff_palindrome (n : UInt32) (hsender : pkt.rpc.type = htobe32 n) :
    thletRpcWorkerType (pkt.rpc.bytes ++ pkt.rest) = n ∧
      (parseData pkt.skb = .ok n.toUInt64 ↔
        (leBytes 4 n.toNat).reverse = leBytes 4 n.toNat) := by
  refine ⟨?_, ?_⟩
  · rw [thletRpcWorkerType, rpcType_bytes, hsender, htobe32_htobe32]
  · have hlt : n.toNat < 256 ^ 4 := n.toNat_lt
    rw [parseData_skb, hsender, toNat_htobe32, ← bswap_eq_self_iff hlt, Except.ok.injEq,
      ← UInt64.toNat_inj, UInt32.toNat_toUInt64]
    have hswap : bswap 4 n.toNat < UInt64.size := (bswap_lt 4 _).trans (by decide)
    rw [UInt64.toNat_ofNat_of_lt' hswap]

end Packet

/-- A packet with the smallest header that carries a record with the key "u" and no value. -/
def spinPacket (n : UInt32) : UdpPacket where
  ip := 0x45 :: List.replicate 19 0
  udp := [0, 0, 0, 0, 0, 134, 0, 0]
  rpc := {
    magic := htobe64 RPC_MAGIC
    id := 0
    type := htobe32 n
    key := 117 :: List.replicate (KEY_SIZE - 1) 0
    value := List.replicate VALUE_SIZE 0
    key_length := rfl
    value_length := List.length_replicate }
  rest := []
  ihl := Nat.le_of_ble_eq_true rfl
  ip_length := rfl
  udp_length := rfl
  covers := Nat.le_of_ble_eq_true rfl

theorem parseData_eq_iff_palindrome_spinPacket :
    (spinPacket 0x01000001).rpc.type = htobe32 0x01000001 ∧
      thletRpcWorkerType ((spinPacket 0x01000001).rpc.bytes ++ (spinPacket 0x01000001).rest) =
        0x01000001 ∧
      (parseData (spinPacket 0x01000001).skb = .ok (0x01000001 : UInt32).toUInt64 ↔
        (leBytes 4 (0x01000001 : UInt32).toNat).reverse =
          leBytes 4 (0x01000001 : UInt32).toNat) :=
  ⟨rfl, parseData_eq_iff_palindrome (spinPacket 0x01000001) 0x01000001 rfl⟩

/-- A spin count of 1 is read as 16777216, which `generic_work` refuses. -/
theorem parseData_of_one :
    ¬ ∀ (pkt : UdpPacket) (n : UInt32), pkt.rpc.type = htobe32 n →
      parseData pkt.skb = .ok n.toUInt64 := by
  intro hclaim
  have hone : parseData (spinPacket 1).skb = .ok (1 : UInt32).toUInt64 :=
    hclaim (spinPacket 1) 1 rfl
  rw [parseData_skb] at hone
  exact absurd (Except.ok.inj hone) (by decide)

end ThletEvaluation.Shinjuku
