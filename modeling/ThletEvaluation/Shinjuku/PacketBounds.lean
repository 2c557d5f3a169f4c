import ThletEvaluation.Shinjuku.ParseData

/-!
# What `parse_data` reads

The machine does not stop a read behind the linear part of a packet: it finds the bytes that
lie there. Here `parse_data` runs on a buffer together with the memory behind it, and its reads
are listed. On reads inside of the buffer it is `parseData`.
-/

namespace ThletEvaluation.Shinjuku

open Bytes Linux

set_option autoImplicit false

/-- The linear part of a packet, from `skb->data` on, and the memory behind it. -/
structure Skb where
  data : List UInt8
  behind : Nat → UInt8

namespace Skb
variable (skb : Skb)

def byte (i : Nat) : UInt8 := (skb.data[i]?).getD (skb.behind (i - skb.data.length))

def read (off len : Nat) : List UInt8 := (List.range len).map fun k => skb.byte (off + k)

/-- Where `udph` points, from `skb->data`. -/
def udph : Nat := ihlOf (skb.read 0 1) * 4

def udpLen : Nat := ntohs (skb.read (skb.udph + 4) 2)

def payload : Nat := skb.udph + UDPHDR_SIZE

/-- The payload as `parse_data` computes its length. -/
def payloadLen : UInt32 := UInt32.ofNat skb.udpLen - UInt32.ofNat UDPHDR_SIZE

/-- The read of `rpc->type`. -/
def typeRead : Nat × Nat := (skb.payload + 12, 4)

/-- `parse_data`: the reads, as offset and length, and the result. -/
def parseData : List (Nat × Nat) × Except ParseFault UInt64 :=
  let reads := [(0, 1), (skb.udph + 4, 2)]
  if skb.payloadLen < 16 then (reads, .error .bug)
  else (reads ++ [skb.typeRead], .ok (UInt64.ofNat (leNat (skb.read (skb.payload + 12) 4))))

/-- The UDP header is inside of the buffer, and its length field as well as the buffer leave
room for two words of payload. -/
structure PayloadInside : Prop where
  header : skb.udph + UDPHDR_SIZE ≤ skb.data.length
  field : UDPHDR_SIZE + 16 ≤ skb.udpLen
  buffer : skb.payload + 16 ≤ skb.data.length

variable {skb}

theorem read_of_inside {off len : Nat} (h : off + len ≤ skb.data.length) :
    readAt skb.data off len = .ok (skb.read off len) := by
  rw [readAt, if_pos h]
  congr 1
  apply List.ext_getElem
  · simp only [List.length_take, List.length_drop, read, List.length_map, List.length_range]
    omega
  · intro i hi hi'
    have hlt : off + i < skb.data.length := by
      simp only [List.length_take, List.length_drop] at hi
      omega
    simp [read, byte, List.getElem?_eq_getElem hlt]

theorem read_of_outside {off len : Nat} (h : ¬ off + len ≤ skb.data.length) :
    readAt skb.data off len = .error .outside := if_neg h

theorem parseData_of_lt (h : skb.payloadLen < 16) :
    skb.parseData = ([(0, 1), (skb.udph + 4, 2)], .error .bug) := if_pos h

theorem parseData_of_not_lt (h : ¬ skb.payloadLen < 16) :
    skb.parseData = ([(0, 1), (skb.udph + 4, 2), skb.typeRead],
      .ok (UInt64.ofNat (leNat (skb.read (skb.payload + 12) 4)))) := if_neg h

/-- On a buffer that holds the headers, what is left is the guard and the last read. -/
theorem parseData_of_headers (hihl : 0 + 1 ≤ skb.data.length)
    (hlen : skb.udph + 4 + 2 ≤ skb.data.length) : Shinjuku.parseData skb.data =
      if skb.payloadLen < 16 then .error .bug
      else (readAt skb.data (skb.payload + 12) 4).map fun bs => UInt64.ofNat (leNat bs) := by
  have hudph : ihlOf (skb.read 0 1) * 4 = skb.udph := rfl
  simp only [Shinjuku.parseData, read_of_inside hihl, hudph, read_of_inside hlen, bind,
    Except.bind]
  rfl

/-- Where no read is behind the packet, the model that stops at such a read agrees. -/
theorem parseData_inside (h : ∀ r ∈ skb.parseData.1, r.1 + r.2 ≤ skb.data.length) :
    Shinjuku.parseData skb.data = skb.parseData.2 := by
  by_cases hguard : skb.payloadLen < 16
  · rw [parseData_of_lt hguard] at h ⊢
    rw [parseData_of_headers (h (0, 1) (by simp)) (h (skb.udph + 4, 2) (by simp)),
      if_pos hguard]
  · rw [parseData_of_not_lt hguard] at h ⊢
    have htype : skb.payload + 12 + 4 ≤ skb.data.length := h skb.typeRead (by simp)
    rw [parseData_of_headers (h (0, 1) (by simp)) (h (skb.udph + 4, 2) (by simp)),
      if_neg hguard, read_of_inside htype]
    rfl

/-- It stops exactly where this one goes on with foreign bytes. -/
theorem parseData_outside {r : Nat × Nat} (hr : r ∈ skb.parseData.1)
    (h : ¬ r.1 + r.2 ≤ skb.data.length) : Shinjuku.parseData skb.data = .error .outside := by
  have hudph : ihlOf (skb.read 0 1) * 4 = skb.udph := rfl
  by_cases hihl : 0 + 1 ≤ skb.data.length
  swap
  · simp [Shinjuku.parseData, read_of_outside hihl, bind, Except.bind]
  by_cases hlen : skb.udph + 4 + 2 ≤ skb.data.length
  swap
  · simp only [Shinjuku.parseData, read_of_inside hihl, hudph, read_of_outside hlen, bind,
      Except.bind]
  rw [parseData_of_headers hihl hlen]
  by_cases hguard : skb.payloadLen < 16
  · rw [parseData_of_lt hguard] at hr
    rcases List.mem_pair.mp hr with rfl | rfl
    · exact absurd hihl h
    · exact absurd hlen h
  · rw [parseData_of_not_lt hguard] at hr
    rcases List.mem_cons.mp hr with rfl | hr
    · exact absurd hihl h
    · rcases List.mem_pair.mp hr with rfl | rfl
      · exact absurd hlen h
      · have htype : ¬ skb.payload + 12 + 4 ≤ skb.data.length := h
        rw [if_neg hguard, read_of_outside htype]
        rfl

theorem udpLen_lt (skb : Skb) : skb.udpLen < 65536 := by
  have hlt := leNat_lt (skb.read (skb.udph + 4) 2).reverse
  have htwo : (skb.read (skb.udph + 4) 2).reverse.length = 2 := by simp [read]
  rw [htwo] at hlt
  exact hlt

/-- The guard, with the lengths below that of the header, which wrap. -/
theorem payloadLen_lt_iff (skb : Skb) :
    skb.payloadLen < 16 ↔ UDPHDR_SIZE ≤ skb.udpLen ∧ skb.udpLen < UDPHDR_SIZE + 16 := by
  have hlt := skb.udpLen_lt
  rw [payloadLen, UInt32.lt_iff_toNat_lt, UInt32.toNat_sub, UInt32.toNat_ofNat',
    UInt32.toNat_ofNat', show (16 : UInt32).toNat = 16 from rfl]
  simp only [UDPHDR_SIZE]
  omega

theorem typeRead_mem_iff (skb : Skb) :
    skb.typeRead ∈ skb.parseData.1 ↔ ¬ skb.payloadLen < 16 := by
  by_cases hguard : skb.payloadLen < 16
  · simp [parseData, hguard, typeRead]
  · simp [parseData, hguard]

end Skb

/-- For every buffer and whatever lies behind it: `rpc->type` is read only with the payload in
place exactly when the length field lies between the header and two words of payload, or the
two words are announced and there. -/
theorem type_read_inside_iff (skb : Skb) :
    (skb.typeRead ∈ skb.parseData.1 → skb.PayloadInside) ↔
      (UDPHDR_SIZE ≤ skb.udpLen ∧ skb.udpLen < UDPHDR_SIZE + 16) ∨
      (UDPHDR_SIZE + 16 ≤ skb.udpLen ∧ skb.udph + UDPHDR_SIZE + 16 ≤ skb.data.length) := by
  rw [skb.typeRead_mem_iff, skb.payloadLen_lt_iff]
  constructor
  · intro hinside
    by_cases hguard : UDPHDR_SIZE ≤ skb.udpLen ∧ skb.udpLen < UDPHDR_SIZE + 16
    · exact .inl hguard
    · obtain ⟨-, hfield, hbuffer⟩ := hinside hguard
      exact .inr ⟨hfield, hbuffer⟩
  · rintro (hguard | ⟨hfield, hbuffer⟩) hreach
    · exact absurd hguard hreach
    · exact ⟨by omega, hfield, hbuffer⟩

/-- Headers alone, with a length field of 0. -/
theorem empty_udp_read_past_payload :
    ¬ ∀ skb : Skb, skb.typeRead ∈ skb.parseData.1 → skb.PayloadInside := by
  intro hclaim
  have hinside := hclaim ⟨0x45 :: List.replicate 27 0, fun _ => 0⟩ (by decide)
  exact absurd hinside.field (by decide)

end ThletEvaluation.Shinjuku
