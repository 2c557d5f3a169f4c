import ThletEvaluation.Linux.Rpc

/-!
# Hashing the key field of a record

`handle_rpc` passes `rpc->key` to `hash`, which reads up to the next NUL. The field holds
`KEY_SIZE` bytes from the network, and the value field of the same record follows it.
-/

namespace ThletEvaluation.Linux

set_option autoImplicit false

/-- The number of bytes that the loop of `hash` asks for, the terminating NUL included. -/
def hashReads : List UInt8 → Nat
  | [] => 1
  | c :: cs => if c = 0 then 1 else hashReads cs + 1

section Loop
variable (signed : Bool) {cs : List UInt8}

theorem hashLoop_append (hcs : 0 ∉ cs) (i : Nat) (res : UInt64) :
    ∃ r, ∀ tail, hashLoop signed (cs ++ tail) i res = hashLoop signed tail (i + cs.length) r := by
  induction cs generalizing i res with
  | nil => exact ⟨res, fun _ => rfl⟩
  | cons c cs ih =>
    obtain ⟨hc, hcs⟩ := List.ne_and_not_mem_of_not_mem_cons hcs
    obtain ⟨r, hr⟩ := ih hcs (i + 1)
      (res + (charToInt signed c * Int32.ofNat i * 10).toInt64.toUInt64)
    refine ⟨r, fun tail => ?_⟩
    rw [List.cons_append, hashLoop, if_neg hc.symm, hr, List.length_cons]
    congr 1
    omega

theorem hashReads_append (hcs : 0 ∉ cs) (tail : List UInt8) :
    hashReads (cs ++ tail) = cs.length + hashReads tail := by
  induction cs with
  | nil => simp
  | cons c cs ih =>
    obtain ⟨hc, hcs⟩ := List.ne_and_not_mem_of_not_mem_cons hcs
    rw [List.cons_append, hashReads, if_neg hc.symm, ih hcs, List.length_cons]
    omega

theorem hashReads_pos (cs : List UInt8) : 0 < hashReads cs := by
  cases cs with
  | nil => simp [hashReads]
  | cons c cs =>
    simp only [hashReads]
    split <;> omega

/-- The loop stays within `cs` exactly if it meets a NUL there. -/
theorem hashReads_append_le_iff (cs tail : List UInt8) :
    hashReads (cs ++ tail) ≤ cs.length ↔ 0 ∈ cs := by
  constructor
  · intro h
    by_contra hcs
    rw [hashReads_append hcs] at h
    have hpos := hashReads_pos tail
    omega
  · intro h
    obtain ⟨as, bs, rfl, has⟩ := List.eq_append_cons_of_mem h
    rw [List.append_assoc, hashReads_append has, List.cons_append, hashReads, if_pos rfl]
    simp

theorem hash_append_of_nul (h : 0 ∈ cs) : ∃ b, ∀ tail, hash signed (cs ++ tail) = some b := by
  obtain ⟨as, bs, rfl, has⟩ := List.eq_append_cons_of_mem h
  obtain ⟨r, hr⟩ := hashLoop_append signed has 0 0
  refine ⟨⟨r.toNat % NUM_BUCKETS, Nat.mod_lt _ (by decide)⟩, fun tail => ?_⟩
  have hloop : hashLoop signed (as ++ 0 :: bs ++ tail) 0 0 = some r := by
    rw [List.append_assoc, hr, List.cons_append, hashLoop, if_pos rfl]
  rw [hash, hloop]
  rfl

end Loop

section Records
variable (signed : Bool) (r : Rpc)

/-- The bucket is that of the key alone, and no byte outside the key is read, exactly for the
keys that hold a NUL. -/
theorem bucket_of_key_iff :
    (∀ (r' : Rpc) (rest rest' : List UInt8), r'.key = r.key →
      (∃ b, hash signed (rpcKey (r.bytes ++ rest)) = some b ∧
        hash signed (rpcKey (r'.bytes ++ rest')) = some b) ∧
      hashReads (rpcKey (r.bytes ++ rest)) ≤ KEY_SIZE) ↔
    0 ∈ r.key := by
  have hreads : ∀ rest, hashReads (rpcKey (r.bytes ++ rest)) ≤ KEY_SIZE ↔ 0 ∈ r.key := by
    intro rest
    rw [rpcKey_bytes, ← r.key_length]
    exact hashReads_append_le_iff r.key _
  constructor
  · intro h
    exact (hreads []).mp (h r [] [] rfl).2
  · intro hnul r' rest rest' hkey
    obtain ⟨b, hb⟩ := hash_append_of_nul signed hnul
    refine ⟨⟨b, ?_, ?_⟩, (hreads rest).mpr hnul⟩
    · rw [rpcKey_bytes]
      exact hb _
    · rw [rpcKey_bytes, hkey]
      exact hb _

end Records

/-- A record whose key is ten times `a`. -/
def fullKey (value : List UInt8) (h : value.length = VALUE_SIZE) : Rpc :=
  ⟨0, 0, 0, List.replicate 10 97, value, rfl, h⟩

/-- The value of the record decides on the bucket of its key, 50 or 60. -/
theorem bucket_of_full_key :
    hash true (rpcKey ((fullKey (List.replicate 100 0) rfl).bytes ++ [])) ≠
      hash true (rpcKey ((fullKey (1 :: 1 :: List.replicate 98 0) rfl).bytes ++ [])) ∧
    KEY_SIZE < hashReads (rpcKey ((fullKey (List.replicate 100 0) rfl).bytes ++ [])) := by
  rw [rpcKey_bytes, rpcKey_bytes]
  constructor
  · decide +kernel
  · decide

end ThletEvaluation.Linux
