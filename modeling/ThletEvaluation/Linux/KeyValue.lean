import Mathlib.Data.List.Induction
import ThletEvaluation.Linux.Hash

/-!
# What the table stores and when that is the right value

A bucket remembers the last `put` that fell into it, whatever its key. So a `get`
returns the last value put into the bucket of its key, which is the value of its key
as long as no two keys in use share a bucket.
-/

namespace ThletEvaluation.Linux

set_option autoImplicit false

variable {signed : Bool} {cap : Nat}

theorem hashLoop_nul (cs rest : List UInt8) (hcs : ∀ c ∈ cs, c ≠ 0) (i : Nat) (res : UInt64) :
    ∃ r, hashLoop signed (cs ++ 0 :: rest) i res = some r := by
  induction cs generalizing i res with
  | nil => exact ⟨res, by simp [hashLoop]⟩
  | cons c cs ih =>
    have hc : c ≠ 0 := hcs c List.mem_cons_self
    obtain ⟨r, hr⟩ := ih (fun d hd => hcs d (List.mem_cons_of_mem c hd)) (i + 1)
      (res + (charToInt signed c * Int32.ofNat i * 10).toInt64.toUInt64)
    exact ⟨r, by simpa [hashLoop, hc] using hr⟩

def bucketOf (signed : Bool) (k : CStr cap) : Fin NUM_BUCKETS :=
  (hash signed k.bytes).getD ⟨0, by decide⟩

theorem hash_bytes (k : CStr cap) : hash signed k.bytes = some (bucketOf signed k) := by
  obtain ⟨r, hr⟩ := @hashLoop_nul signed k.chars [] k.nonzero 0 0
  simp [bucketOf, hash, CStr.bytes, hr]

def CStr.padded (s : CStr cap) : List UInt8 :=
  s.chars ++ List.replicate (cap - s.chars.length) 0

theorem CStr.padded_length (s : CStr cap) : s.padded.length = cap := by
  have := s.fits
  simp only [padded, List.length_append, List.length_replicate]
  omega

theorem takeWhile_nul {cs : List UInt8} (hcs : ∀ c ∈ cs, c ≠ 0) (rest : List UInt8) :
    (cs ++ 0 :: rest).takeWhile (· ≠ 0) = cs := by
  rw [List.takeWhile_append_of_pos]
  · simp
  · intro c hc
    simpa using hcs c hc

theorem strncpy_nul (dst : List UInt8) (s : CStr cap) (rest : List UInt8) :
    strncpy dst (s.chars ++ 0 :: rest) cap = s.padded ++ dst.drop cap := by
  have hfits := s.fits
  have htake : s.chars.take cap = s.chars := List.take_of_length_le (by omega)
  simp only [strncpy, takeWhile_nul s.nonzero rest, htake, CStr.padded]

theorem CStr.padded_eq_nul (s : CStr cap) :
    s.padded = s.chars ++ 0 :: List.replicate (cap - s.chars.length - 1) 0 := by
  have hfits := s.fits
  have hsucc : cap - s.chars.length = cap - s.chars.length - 1 + 1 := by omega
  rw [padded, hsucc, List.replicate_succ, Nat.add_sub_cancel]

def entryOf (k : CStr KEY_SIZE) (v : CStr VALUE_SIZE) : Entries := ⟨k.padded, v.padded⟩

/-- The last `put` that fell into bucket `b`. -/
def lastInBucket (signed : Bool) (b : Fin NUM_BUCKETS) (ops : List KvOp) :
    Option (CStr KEY_SIZE × CStr VALUE_SIZE) :=
  ops.foldl (fun last op =>
    match op with
    | .put k v => if bucketOf signed k = b then some (k, v) else last
    | .get _ _ => last) none

def Remembers (table : Hash)
    (last : Fin NUM_BUCKETS → Option (CStr KEY_SIZE × CStr VALUE_SIZE)) : Prop :=
  ∀ b, table.buckets b = (last b).map fun kv => entryOf kv.1 kv.2

theorem put_remembers {table : Hash}
    {last : Fin NUM_BUCKETS → Option (CStr KEY_SIZE × CStr VALUE_SIZE)}
    (h : Remembers table last) (k : CStr KEY_SIZE) (v : CStr VALUE_SIZE) :
    ∃ table', put signed k.bytes v.bytes table = some table' ∧
      Remembers table' fun b => if bucketOf signed k = b then some (k, v) else last b := by
  simp only [put, hash_bytes, Option.map_some, Option.some.injEq, exists_eq_left']
  intro b
  by_cases hb : bucketOf signed k = b
  · subst b
    -- both arrays of the entry are overwritten from end to end
    have hkey : ∀ dst : List UInt8, dst.length = KEY_SIZE →
        strncpy dst k.bytes KEY_SIZE = k.padded := by
      intro dst hdst
      rw [CStr.bytes, strncpy_nul, List.drop_of_length_le (by omega), List.append_nil]
    have hvalue : ∀ dst : List UInt8, dst.length = VALUE_SIZE →
        strncpy dst v.bytes VALUE_SIZE = v.padded := by
      intro dst hdst
      rw [CStr.bytes, strncpy_nul, List.drop_of_length_le (by omega), List.append_nil]
    simp only [Function.update_self, if_true, Option.map_some, entryOf]
    rw [h (bucketOf signed k)]
    cases last (bucketOf signed k) with
    | none =>
      rw [Option.map_none, Option.getD_none, hkey _ (by simp), hvalue _ (by simp)]
    | some kv =>
      rw [Option.map_some, Option.getD_some, entryOf, hkey _ kv.1.padded_length,
        hvalue _ kv.2.padded_length]
  · simpa [hb, Ne.symm hb] using h b

theorem tableAfter_remembers (ops : List KvOp) :
    ∃ table, tableAfter signed ops = some table ∧
      Remembers table fun b => lastInBucket signed b ops := by
  induction ops using List.reverseRecOn with
  | nil => exact ⟨hashInit, rfl, fun b => rfl⟩
  | append_singleton ops op ih =>
    obtain ⟨table, htable, hlast⟩ := ih
    have happend : tableAfter signed (ops ++ [op]) = op.apply signed table := by
      simp only [tableAfter] at htable
      simp [tableAfter, List.foldlM_append, htable]
    rw [happend]
    cases op with
    | put k v =>
      obtain ⟨table', htable', hlast'⟩ := @put_remembers signed table _ hlast k v
      exact ⟨table', htable', by simpa [lastInBucket, List.foldl_append] using hlast'⟩
    | get k buf =>
      refine ⟨table, by simp [KvOp.apply, get, hash_bytes], ?_⟩
      simpa [lastInBucket, List.foldl_append] using hlast

/-- What the code does: the buffer receives the last value put into the bucket. -/
theorem getAfter_eq (ops : List KvOp) (k : CStr KEY_SIZE) (buf : List UInt8) :
    getAfter signed ops k buf = some
      (match lastInBucket signed (bucketOf signed k) ops with
      | none => buf
      | some kv => writeValue buf kv.2) := by
  obtain ⟨table, htable, hlast⟩ := @tableAfter_remembers signed ops
  have hb := hlast (bucketOf signed k)
  cases hkv : lastInBucket signed (bucketOf signed k) ops with
  | none =>
    simp only [hkv, Option.map_none] at hb
    simp [getAfter, htable, get, hash_bytes, hb]
  | some kv =>
    simp only [hkv, Option.map_some] at hb
    have hcopy : strncpy buf kv.2.padded VALUE_SIZE = writeValue buf kv.2 := by
      rw [CStr.padded_eq_nul, strncpy_nul]
      rfl
    simp [getAfter, htable, get, hash_bytes, hb, entryOf, hcopy]

theorem lastInBucket_eq_lastPut {ops : List KvOp} {k : CStr KEY_SIZE}
    (h : ∀ op ∈ ops, bucketOf signed op.key = bucketOf signed k → op.key = k) :
    lastInBucket signed (bucketOf signed k) ops = (lastPut k ops).map fun v => (k, v) := by
  induction ops using List.reverseRecOn with
  | nil => rfl
  | append_singleton ops op ih =>
    have ih := ih fun op hop => h op (List.mem_append_left _ hop)
    have hop := h op (by simp)
    simp only [lastInBucket, lastPut] at ih
    simp only [lastInBucket, lastPut, List.foldl_append, List.foldl_cons, List.foldl_nil]
    cases op with
    | put k' v =>
      by_cases hk : k' = k
      · subst k'
        simp
      · have hb : bucketOf signed k' ≠ bucketOf signed k := fun hb => hk (hop hb)
        simpa [hk, hb] using ih
    | get k' buf => exact ih

/-- `put` and `get` behave as a key-value table on all histories over a set of keys, and
for all buffers with room for a value, exactly when no two different keys of the set
share a bucket. -/
theorem get_expected_iff_no_collision (signed : Bool) (K : Set (CStr KEY_SIZE)) :
    (∀ ops : List KvOp, (∀ op ∈ ops, op.key ∈ K) → ∀ k ∈ K,
        ∀ buf : List UInt8, VALUE_SIZE ≤ buf.length →
          getAfter signed ops k buf = some (expected ops k buf)) ↔
      ∀ k ∈ K, ∀ k' ∈ K, hash signed k.bytes = hash signed k'.bytes → k = k' := by
  constructor
  · intro h k hk k' hk' hhash
    by_contra hne
    have hb : bucketOf signed k' = bucketOf signed k := by simp [bucketOf, hhash]
    let v : CStr VALUE_SIZE := ⟨[1], by simp, by decide⟩
    -- the key `k` has never been put, yet the put of `k'` shows up in its buffer
    have hget := h [.put k' v] (by simpa [KvOp.key] using hk') k hk
      (List.replicate VALUE_SIZE 0) (by simp)
    simp [getAfter_eq, expected, lastPut, lastInBucket, hb, Ne.symm hne, writeValue, v] at hget
    exact absurd (congrArg List.head? hget) (by decide)
  · intro h ops hops k hk buf _
    rw [getAfter_eq, lastInBucket_eq_lastPut]
    · cases hlast : lastPut k ops <;> simp [expected, hlast]
    · intro op hop hb
      exact h op.key (hops op hop) k hk (by rw [hash_bytes, hash_bytes, hb])

def letter (c : UInt8) (hc : c ≠ 0) : CStr cap.succ.succ :=
  ⟨[c], by simpa using hc, by simp⟩

/-- The first character does not enter the hash, so `put("b", "2")` overwrites the value
that was put for `"a"`. -/
theorem get_a_after_put_b :
    let a : CStr KEY_SIZE := letter 97 (by decide)
    let b : CStr KEY_SIZE := letter 98 (by decide)
    let one : CStr VALUE_SIZE := letter 49 (by decide)
    let two : CStr VALUE_SIZE := letter 50 (by decide)
    let buf := List.replicate VALUE_SIZE 0
    getAfter false [.put a one, .put b two] a buf = some (writeValue buf two) ∧
      expected [.put a one, .put b two] a buf = writeValue buf one ∧
      writeValue buf two ≠ writeValue buf one := by
  decide +kernel

end ThletEvaluation.Linux
