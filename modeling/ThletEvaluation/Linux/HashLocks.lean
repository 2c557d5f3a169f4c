import ThletEvaluation.Lib.Locked
import ThletEvaluation.Linux.KeyField
import ThletEvaluation.Linux.KeyValue

/-!
# The table under its bucket locks

`put` and `get` of `hash.c` as the threads of a server run them: the lock of the bucket, then
one access to the bucket at a time, each byte of `strncpy` being one, then the unlock. The
threads may be switched between any two accesses.
-/

namespace ThletEvaluation.Linux

open Locked Run

set_option autoImplicit false

/-- A call with the pointers it gets. -/
inductive HashCall where
  | put (key value : List UInt8)
  | get (key value : List UInt8)
  deriving DecidableEq

def HashCall.key : HashCall → List UInt8
  | .put key _ => key
  | .get key _ => key

/-- A call by itself; the result of `get` is the contents of the caller's buffer. -/
def HashCall.perform (signed : Bool) (table : Hash) : HashCall → Option (Hash × Option (List UInt8))
  | .put key value => (Linux.put signed key value table).map fun table' => (table', none)
  | .get key value => (Linux.get signed key value table).map fun value' => (table, some value')

/-- Between lock and unlock. `i` bytes have been copied, and `padding` says that `strncpy` has
met the NUL of its source. -/
inductive HashPlace where
  | putTest (key value : List UInt8)
  | putNew (key value : List UInt8)
  | putKey (key value : List UInt8) (i : Nat) (padding : Bool)
  | putValue (value : List UInt8) (i : Nat) (padding : Bool)
  | getTest (value : List UInt8)
  | getValue (value : List UInt8) (i : Nat) (padding : Bool)
  | finished (result : Option (List UInt8))

/-- The byte that `strncpy` writes next; there is none behind the readable bytes. -/
def strncpyByte (src : List UInt8) (i : Nat) (padding : Bool) : Option UInt8 :=
  if padding then some 0 else src[i]?

def Entries.WellFormed (e : Entries) : Prop :=
  e.key.length = KEY_SIZE ∧ e.value.length = VALUE_SIZE

instance (e : Entries) : Decidable e.WellFormed := inferInstanceAs (Decidable (_ ∧ _))

/-- `fresh` is what `malloc` finds in the memory of a new entry; it does not fail. -/
def HashPlace.access : HashPlace → Option Entries → Entries → Option (HashPlace × Option Entries)
  | .putTest key value, none, _ => some (.putNew key value, none)
  | .putTest key value, some e, _ => some (.putKey key value 0 false, some e)
  | .putNew key value, _, fresh =>
    if fresh.WellFormed then some (.putKey key value 0 false, some fresh) else none
  | .putKey key value i padding, some e, _ =>
    (strncpyByte key i padding).map fun c =>
      (if i + 1 < KEY_SIZE then .putKey key value (i + 1) (padding || c == 0)
        else .putValue value 0 false, some { e with key := e.key.set i c })
  | .putValue value i padding, some e, _ =>
    (strncpyByte value i padding).map fun c =>
      (if i + 1 < VALUE_SIZE then .putValue value (i + 1) (padding || c == 0) else .finished none,
        some { e with value := e.value.set i c })
  | .getTest value, none, _ => some (.finished (some value), none)
  | .getTest value, some e, _ => some (.getValue value 0 false, some e)
  | .getValue value i padding, some e, _ =>
    if i < value.length then
      (strncpyByte e.value i padding).map fun c =>
        (if i + 1 < VALUE_SIZE then .getValue (value.set i c) (i + 1) (padding || c == 0)
          else .finished (some (value.set i c)), some e)
    else none
  | _, _, _ => none

def hashBody (signed : Bool) :
    Body (Fin NUM_BUCKETS) (Option Entries) HashCall HashPlace Entries (Option (List UInt8)) where
  lock call := hash signed call.key
  enter
    | .put key value => .putTest key value
    | .get _ value => .getTest value
  access := HashPlace.access
  result
    | .finished result => some result
    | _ => none

/-! ## One copy -/

/-- What `strncpy` leaves in the first `n` bytes. -/
def strncpyBytes (src : List UInt8) (n : Nat) : List UInt8 :=
  let s := (src.takeWhile (· ≠ 0)).take n
  s ++ List.replicate (n - s.length) 0

section Copy
variable {src dst : List UInt8} {n i : Nat} {padding : Bool} {c : UInt8}

theorem strncpy_eq (dst src : List UInt8) (n : Nat) :
    strncpy dst src n = strncpyBytes src n ++ dst.drop n := by
  simp [strncpy, strncpyBytes]

theorem strncpy_eq_of_length (h : dst.length = n) : strncpy dst src n = strncpyBytes src n := by
  rw [strncpy_eq, List.drop_of_length_le (by omega), List.append_nil]

@[simp] theorem length_strncpyBytes (src : List UInt8) (n : Nat) :
    (strncpyBytes src n).length = n := by
  simp only [strncpyBytes, List.length_append, List.length_replicate, List.length_take]
  omega

theorem strncpyBytes_cons (d : UInt8) (src : List UInt8) (n : Nat) :
    strncpyBytes (d :: src) (n + 1) =
      if d = 0 then List.replicate (n + 1) 0 else d :: strncpyBytes src n := by
  by_cases hd : d = 0
  · simp [strncpyBytes, hd]
  · simp [strncpyBytes, hd]

/-- The bytes written one by one are those of the whole copy. -/
theorem strncpyByte_eq (hi : i < n) (hpad : padding = true ↔ 0 ∈ src.take i)
    (h : strncpyByte src i padding = some c) : (strncpyBytes src n)[i]? = some c := by
  induction src generalizing i n with
  | nil =>
    have hpad : padding = false := by simpa using hpad
    simp [strncpyByte, hpad] at h
  | cons d src ih =>
    obtain ⟨n, rfl⟩ : ∃ m, n = m + 1 := ⟨n - 1, by omega⟩
    rw [strncpyBytes_cons]
    cases i with
    | zero =>
      have hpad : padding = false := by simpa using hpad
      obtain rfl : d = c := by simpa [strncpyByte, hpad] using h
      split
      next hd => simp [hd]
      next => simp
    | succ i =>
      by_cases hd : d = 0
      · have hpad : padding = true := by simpa [hd] using hpad
        obtain rfl : 0 = c := by simpa [strncpyByte, hpad] using h
        rw [if_pos hd, List.getElem?_replicate, if_pos hi]
      · rw [if_neg hd, List.getElem?_cons_succ]
        apply ih (by omega)
        · simpa [hd, Ne.symm hd] using hpad
        · simpa [strncpyByte] using h

theorem padding_succ (hpad : padding = true ↔ 0 ∈ src.take i)
    (h : strncpyByte src i padding = some c) :
    (padding || c == 0) = true ↔ 0 ∈ src.take (i + 1) := by
  cases padding with
  | true =>
    have hmem : 0 ∈ src.take i := hpad.mp rfl
    simpa using List.take_subset_take_left src (Nat.le_succ i) hmem
  | false =>
    have hget : src[i]? = some c := by simpa [strncpyByte] using h
    have hmem : 0 ∉ src.take i := by simpa using hpad
    rw [List.take_add_one, hget, List.mem_append]
    simp only [hmem, false_or, Option.toList_some, List.mem_singleton, Bool.false_or, beq_iff_eq]
    exact eq_comm

/-- `i` bytes of a copy have been written to `dst`. -/
structure Copied (src : List UInt8) (n i : Nat) (padding : Bool) (dst : List UInt8) : Prop where
  lt : i < n
  padding_iff : padding = true ↔ 0 ∈ src.take i
  take : dst.take i = (strncpyBytes src n).take i

theorem Copied.start (hn : 0 < n) : Copied src n 0 false dst := ⟨hn, by simp, by simp⟩

theorem Copied.take_set (h : Copied src n i padding dst) (hc : strncpyByte src i padding = some c)
    (hlen : i < dst.length) : (dst.set i c).take (i + 1) = (strncpyBytes src n).take (i + 1) := by
  rw [List.take_add_one, List.take_add_one, strncpyByte_eq h.lt h.padding_iff hc,
    List.take_set_of_le (Nat.le_refl i), h.take, List.getElem?_set_self hlen]

theorem Copied.next (h : Copied src n i padding dst) (hc : strncpyByte src i padding = some c)
    (hlen : i < dst.length) (hnext : i + 1 < n) :
    Copied src n (i + 1) (padding || c == 0) (dst.set i c) :=
  ⟨hnext, padding_succ h.padding_iff hc, h.take_set hc hlen⟩

/-- The last byte. -/
theorem Copied.finish (h : Copied src n i padding dst) (hc : strncpyByte src i padding = some c)
    (hlen : i < dst.length) (hlast : ¬ i + 1 < n) :
    dst.set i c = strncpyBytes src n ++ dst.drop n := by
  have hlt := h.lt
  obtain rfl : n = i + 1 := by omega
  have htake := h.take_set hc hlen
  rw [List.take_of_length_le (by simp : (strncpyBytes src (i + 1)).length ≤ i + 1)] at htake
  rw [← htake, ← List.drop_set_of_lt (Nat.lt_succ_self i), List.take_append_drop]

end Copy

/-! ## One section -/

def GoodBucket (v : Option Entries) : Prop := ∀ e, v = some e → e.WellFormed

/-- How far a section has come that found `v₀` in its bucket, and what it has made of it. -/
inductive HashStage (v₀ : Option Entries) : HashCall → HashPlace → Option Entries → Prop where
  | putTest {key value : List UInt8} (h : GoodBucket v₀) :
      HashStage v₀ (.put key value) (.putTest key value) v₀
  | putNew {key value : List UInt8} : HashStage v₀ (.put key value) (.putNew key value) none
  | putKey {key value : List UInt8} {i : Nat} {padding : Bool} {e : Entries} (he : e.WellFormed)
      (hkey : Copied key KEY_SIZE i padding e.key) :
      HashStage v₀ (.put key value) (.putKey key value i padding) (some e)
  | putValue {key value : List UInt8} {i : Nat} {padding : Bool} {e : Entries} (he : e.WellFormed)
      (hkey : e.key = strncpyBytes key KEY_SIZE)
      (hvalue : Copied value VALUE_SIZE i padding e.value) :
      HashStage v₀ (.put key value) (.putValue value i padding) (some e)
  | putEnd {key value : List UInt8} : HashStage v₀ (.put key value) (.finished none)
      (some ⟨strncpyBytes key KEY_SIZE, strncpyBytes value VALUE_SIZE⟩)
  | getTest {key value : List UInt8} (h : GoodBucket v₀) :
      HashStage v₀ (.get key value) (.getTest value) v₀
  | getValue {key value value' : List UInt8} {i : Nat} {padding : Bool} {e : Entries}
      (he : v₀ = some e) (hgood : e.WellFormed)
      (hvalue : Copied e.value VALUE_SIZE i padding value')
      (hlen : value'.length = value.length)
      (hrest : value'.drop VALUE_SIZE = value.drop VALUE_SIZE) :
      HashStage v₀ (.get key value) (.getValue value' i padding) (some e)
  | getNone {key value : List UInt8} (he : v₀ = none) :
      HashStage v₀ (.get key value) (.finished (some value)) none
  | getSome {key value : List UInt8} {e : Entries} (he : v₀ = some e) :
      HashStage v₀ (.get key value) (.finished (some (strncpy value e.value VALUE_SIZE))) (some e)

section Section
variable {v₀ v v' : Option Entries} {call : HashCall} {m m' : HashPlace} {fresh : Entries}

theorem HashStage.access (h : HashStage v₀ call m v) (hm : m.access v fresh = some (m', v')) :
    HashStage v₀ call m' v' := by
  cases h with
  | putTest hgood =>
    cases v₀ with
    | none =>
      cases hm
      exact .putNew
    | some e =>
      cases hm
      exact .putKey (hgood e rfl) (.start (by decide))
  | putNew =>
    simp only [HashPlace.access, Option.ite_none_right_eq_some, Option.some.injEq] at hm
    obtain ⟨hfresh, hm⟩ := hm
    cases hm
    exact .putKey hfresh (.start (by decide))
  | @putKey key value i padding e he hkey =>
    obtain ⟨c, hc, hm⟩ := Option.map_eq_some_iff.mp hm
    have hlen : i < e.key.length := by
      rw [he.1]
      exact hkey.lt
    have he' : ({ e with key := e.key.set i c } : Entries).WellFormed :=
      ⟨by simpa using he.1, he.2⟩
    by_cases hnext : i + 1 < KEY_SIZE
    · rw [if_pos hnext] at hm
      cases hm
      exact .putKey he' (hkey.next hc hlen hnext)
    · rw [if_neg hnext] at hm
      cases hm
      refine .putValue he' ?_ (.start (by decide))
      simpa [List.drop_of_length_le (Nat.le_of_eq he.1)] using hkey.finish hc hlen hnext
  | @putValue key value i padding e he hkey hvalue =>
    obtain ⟨c, hc, hm⟩ := Option.map_eq_some_iff.mp hm
    have hlen : i < e.value.length := by
      rw [he.2]
      exact hvalue.lt
    by_cases hnext : i + 1 < VALUE_SIZE
    · rw [if_pos hnext] at hm
      cases hm
      exact .putValue ⟨he.1, by simpa using he.2⟩ hkey (hvalue.next hc hlen hnext)
    · rw [if_neg hnext] at hm
      cases hm
      have hlast := hvalue.finish hc hlen hnext
      rw [List.drop_of_length_le (Nat.le_of_eq he.2), List.append_nil] at hlast
      rw [hkey, hlast]
      exact .putEnd
  | putEnd => cases hm
  | getTest hgood =>
    cases v₀ with
    | none =>
      cases hm
      exact .getNone rfl
    | some e =>
      cases hm
      exact .getValue rfl (hgood e rfl) (.start (by decide)) rfl rfl
  | @getValue key value value' i padding e he hgood hvalue hlen hrest =>
    simp only [HashPlace.access, Option.ite_none_right_eq_some] at hm
    obtain ⟨hlt, hm⟩ := hm
    obtain ⟨c, hc, hm⟩ := Option.map_eq_some_iff.mp hm
    by_cases hnext : i + 1 < VALUE_SIZE
    · rw [if_pos hnext] at hm
      cases hm
      refine .getValue he hgood (hvalue.next hc hlt hnext) (by simpa using hlen) ?_
      rw [List.drop_set_of_lt hvalue.lt, hrest]
    · rw [if_neg hnext] at hm
      cases hm
      have hlast := hvalue.finish hc hlt hnext
      rw [hlast, hrest, ← strncpy_eq]
      exact .getSome he
  | getNone he => cases hm
  | getSome he => cases hm

theorem goodBucket_copied (key value : List UInt8) :
    GoodBucket (some ⟨strncpyBytes key KEY_SIZE, strncpyBytes value VALUE_SIZE⟩) := by
  rintro e ⟨⟩
  exact ⟨length_strncpyBytes key KEY_SIZE, length_strncpyBytes value VALUE_SIZE⟩

theorem put_eq {signed : Bool} {table : Hash} {b : Fin NUM_BUCKETS} (key value : List UInt8)
    (hhash : hash signed key = some b) (hgood : GoodBucket (table.buckets b)) :
    put signed key value table = some ⟨Function.update table.buckets b
      (some ⟨strncpyBytes key KEY_SIZE, strncpyBytes value VALUE_SIZE⟩)⟩ := by
  have he : ((table.buckets b).getD
      ⟨List.replicate KEY_SIZE 0, List.replicate VALUE_SIZE 0⟩).WellFormed := by
    cases hb : table.buckets b with
    | none => simp [Entries.WellFormed]
    | some e => exact hgood e hb
  rw [put, hhash, Option.map_some]
  dsimp only
  rw [strncpy_eq_of_length he.1, strncpy_eq_of_length he.2]

theorem get_eq {signed : Bool} {table : Hash} {b : Fin NUM_BUCKETS} (key value : List UInt8)
    (hhash : hash signed key = some b) :
    get signed key value table = some (match table.buckets b with
      | none => value
      | some e => strncpy value e.value VALUE_SIZE) := by
  cases hb : table.buckets b <;> simp [get, hhash, hb]

theorem hashBody_meets (signed : Bool) :
    Meets (hashBody signed) (HashCall.perform signed) Hash.buckets GoodBucket
      (fun call v₀ m v => HashStage v₀ call m v) where
  enter := by
    intro call v hgood
    cases call with
    | put key value => exact .putTest hgood
    | get key value => exact .getTest hgood
  access := fun h hm => h.access hm
  finish := by
    intro call k table m v res hlock hgood h hres
    have hhash : hash signed call.key = some k := hlock
    generalize hv₀ : table.buckets k = v₀ at h
    cases h with
    | @putEnd key value =>
      cases hres
      exact ⟨goodBucket_copied key value, _,
        by rw [HashCall.perform, put_eq key value hhash hgood]; rfl, rfl⟩
    | @getNone key value he =>
      cases hres
      refine ⟨by simp [GoodBucket], table, ?_, by rw [← he, ← hv₀, Function.update_eq_self]⟩
      rw [HashCall.perform, get_eq key value hhash, hv₀, he]
      rfl
    | @getSome key value e he =>
      cases hres
      refine ⟨by rwa [← he, ← hv₀], table, ?_, by rw [← he, ← hv₀, Function.update_eq_self]⟩
      rw [HashCall.perform, get_eq key value hhash, hv₀, he]
      rfl
    | _ => cases hres

end Section

/-! ## The threads -/

/-- Both pointers of the call are good for all that `put` and `get` read and write. -/
def HashCall.Readable : HashCall → Prop
  | .put key value => 0 ∈ key ∧ (0 ∈ value ∨ VALUE_SIZE ≤ value.length)
  | .get key value => 0 ∈ key ∧ VALUE_SIZE ≤ value.length

instance (call : HashCall) : Decidable call.Readable :=
  match call with
  | .put key value => inferInstanceAs
      (Decidable (0 ∈ key ∧ (0 ∈ value ∨ VALUE_SIZE ≤ value.length)))
  | .get key value => inferInstanceAs (Decidable (0 ∈ key ∧ VALUE_SIZE ≤ value.length))

/-- An upper bound on the accesses that a section still has to make. -/
def HashPlace.cost : HashPlace → Nat
  | .putTest _ _ => 114
  | .putNew _ _ => 113
  | .putKey _ _ i _ => 102 + (KEY_SIZE - i)
  | .putValue _ i _ => 1 + (VALUE_SIZE - i)
  | .getTest _ => 102
  | .getValue _ i _ => 1 + (VALUE_SIZE - i)
  | .finished _ => 0

section Ends
variable {src : List UInt8} {n i : Nat} {padding : Bool}

theorem exists_strncpyByte (hsrc : 0 ∈ src ∨ n ≤ src.length) (hi : i < n)
    (hpad : padding = true ↔ 0 ∈ src.take i) : ∃ c, strncpyByte src i padding = some c := by
  cases padding with
  | true => exact ⟨0, rfl⟩
  | false =>
    have hlt : i < src.length := by
      rcases hsrc with hmem | hlen
      · by_contra hge
        rw [List.take_of_length_le (by omega)] at hpad
        exact absurd (hpad.mpr hmem) (by simp)
      · omega
    exact ⟨src[i], by simp [strncpyByte, hlt]⟩

theorem HashPlace.cost_lt {m m' : HashPlace} {v v' : Option Entries} {fresh : Entries}
    (h : m.access v fresh = some (m', v')) : m'.cost < m.cost := by
  cases m with
  | putTest key value =>
    cases v <;> cases h <;> simp [cost, KEY_SIZE]
  | putNew key value =>
    simp only [access, Option.ite_none_right_eq_some, Option.some.injEq] at h
    obtain ⟨-, h⟩ := h
    cases h
    simp [cost, KEY_SIZE]
  | putKey key value i padding =>
    cases v with
    | none => cases h
    | some e =>
      obtain ⟨c, -, h⟩ := Option.map_eq_some_iff.mp h
      split at h <;> cases h <;> simp only [cost, KEY_SIZE, VALUE_SIZE] at * <;> omega
  | putValue value i padding =>
    cases v with
    | none => cases h
    | some e =>
      obtain ⟨c, -, h⟩ := Option.map_eq_some_iff.mp h
      split at h <;> cases h <;> simp only [cost, VALUE_SIZE] at * <;> omega
  | getTest value =>
    cases v <;> cases h <;> simp [cost, VALUE_SIZE]
  | getValue value i padding =>
    cases v with
    | none => cases h
    | some e =>
      simp only [access, Option.ite_none_right_eq_some] at h
      obtain ⟨c, -, h⟩ := Option.map_eq_some_iff.mp h.2
      split at h <;> cases h <;> simp only [cost, VALUE_SIZE] at * <;> omega
  | finished result => cases h

theorem hashBody_ends (signed : Bool) :
    Ends (hashBody signed) HashCall.Readable (fun call v₀ m v => HashStage v₀ call m v)
      HashPlace.cost where
  locks := by
    intro call hcall
    have hmem : 0 ∈ call.key := by
      cases call <;> exact hcall.1
    obtain ⟨b, hb⟩ := hash_append_of_nul signed hmem
    exact ⟨b, by simpa [hashBody] using hb []⟩
  goes := by
    intro call v₀ m v hcall h hres
    have hblank : Entries.WellFormed ⟨List.replicate KEY_SIZE 0, List.replicate VALUE_SIZE 0⟩ := by
      simp [Entries.WellFormed]
    cases h with
    | putTest hgood => cases v₀ <;> exact ⟨⟨[], []⟩, _, rfl⟩
    | putNew => exact ⟨_, _, if_pos hblank⟩
    | putKey he hkey =>
      obtain ⟨c, hc⟩ := exists_strncpyByte (.inl hcall.1) hkey.lt hkey.padding_iff
      exact ⟨⟨[], []⟩, _, Option.map_eq_some_iff.mpr ⟨c, hc, rfl⟩⟩
    | putValue he hkey hvalue =>
      obtain ⟨c, hc⟩ := exists_strncpyByte hcall.2 hvalue.lt hvalue.padding_iff
      exact ⟨⟨[], []⟩, _, Option.map_eq_some_iff.mpr ⟨c, hc, rfl⟩⟩
    | getTest hgood => cases v₀ <;> exact ⟨⟨[], []⟩, _, rfl⟩
    | @getValue key value value' i padding e he hgood hvalue hlen hrest =>
      obtain ⟨c, hc⟩ := exists_strncpyByte (.inr (Nat.le_of_eq hgood.2.symm)) hvalue.lt
        hvalue.padding_iff
      have hlt : i < value'.length := by
        rw [hlen]
        exact Nat.lt_of_lt_of_le hvalue.lt hcall.2
      exact ⟨⟨[], []⟩, _, (if_pos hlt).trans (Option.map_eq_some_iff.mpr ⟨c, hc, rfl⟩)⟩
    | putEnd => cases hres
    | getNone he => cases hres
    | getSome he => cases hres
  nearer := HashPlace.cost_lt

end Ends

/-! ## Whole runs -/

abbrev HashState :=
  State (Fin NUM_BUCKETS) (Option Entries) HashCall HashPlace (Option (List UInt8))

abbrev HashEvent := Event HashCall (Option (List UInt8))

def hashMachine (signed : Bool) : Machine HashState (Action HashCall Entries) HashEvent :=
  (hashBody signed).machine

theorem hash_step_move {signed : Bool} {s s' : HashState} {a : Action HashCall Entries}
    {es : List HashEvent} (h : (hashMachine signed).step s a = some (s', es)) :
    (hashBody signed).Move s a s' es :=
  Body.step_iff.mp h

/-- After `hash_init`, before the first call. -/
def hashStart : HashState := State.start hashInit.buckets

section Runs
variable {signed : Bool}
variable {ok : HashState → Action HashCall Entries → Prop} {s : HashState} {tr : List HashEvent}

theorem hash_simulates (hrun : Runs (hashMachine signed) ok hashStart tr s) :
    ∃ table st,
      (sequential (HashCall.perform signed)).accept (hashInit, fun _ => .idle) tr =
        some (table, st) ∧
      Simulates (hashBody signed) Hash.buckets GoodBucket (fun call v₀ m v => HashStage v₀ call m v)
        table st s :=
  linearizable (hashBody_meets signed) (by simp [hashInit, GoodBucket]) rfl hrun

def accesses (t n : Nat) : List (Action HashCall Entries) :=
  List.replicate n (.access t ⟨List.replicate KEY_SIZE 7, List.replicate VALUE_SIZE 7⟩)

/-- While thread 0 is in the middle of `put("a", "1")`, thread 1 calls `get("b", ...)`, whose key
is in the same bucket. -/
def overlap : List (Action HashCall Entries) :=
  [.call 0 (.put [97, 0] [49, 0]), .acquire 0] ++ accesses 0 60 ++
    [.call 1 (.get [98, 0] (List.replicate VALUE_SIZE 5))]

/-- The `put` and then the `get` come to their ends. -/
def overlapEnd : List (Action HashCall Entries) :=
  accesses 0 52 ++ [.release 0, .acquire 1] ++ accesses 1 101 ++ [.release 1, .ret 1]

/-- Whatever the interleaving, the calls of all threads have their results as if each was
performed at once at some moment between its beginning and its return, and a bucket whose lock
is free holds what the table has then. -/
theorem concurrent_calls_linearizable (hrun : Runs (hashMachine signed) ok hashStart tr s) :
    ∃ table st,
      (sequential (HashCall.perform signed)).accept (hashInit, fun _ => .idle) tr =
        some (table, st) ∧
      ∀ b, s.holder b = none → s.cell b = table.buckets b := by
  obtain ⟨table, st, haccept, hsim⟩ := hash_simulates hrun
  exact ⟨table, st, haccept, hsim.free⟩

theorem concurrent_calls_linearizable_overlap :
    ∃ (tr : List HashEvent) (s : HashState), tr.length = 5 ∧ ∃ table st,
      (sequential (HashCall.perform false)).accept (hashInit, fun _ => .idle) tr =
        some (table, st) ∧
      ∀ b, s.holder b = none → s.cell b = table.buckets b := by
  obtain ⟨tr, s, hrun, hlen⟩ := (hashMachine false).exec_reaches (fun _ _ => True) hashStart
    (overlap ++ overlapEnd) (fun tr _ => tr.length == 5) (by decide +kernel)
  exact ⟨tr, s, by simpa using hlen, concurrent_calls_linearizable hrun⟩

/-- The locks cannot block the threads for good: if no new calls are made, every schedule comes
to an end, and all calls have returned at the end. -/
theorem concurrent_calls_return {n : Nat} (hok : ∀ s a, ok s a → a.Within n HashCall.Readable)
    (hrun : Runs (hashMachine signed) ok hashStart tr s) :
    (∀ as r, (hashMachine signed).exec (fun _ a => a.isCall = false) s as = some r →
      as.length ≤ s.remaining (hashBody signed) HashPlace.cost n) ∧
    ((∃ t, s.phase t ≠ .idle) →
      ∃ a r, a.isCall = false ∧ (hashMachine signed).step s a = some r) := by
  obtain ⟨table, st, -, hsim⟩ := hash_simulates hrun
  have hw : s.Within n HashCall.Readable := within_of_runs hok hrun
  constructor
  · intro as r hexec
    exact exec_length_le (hashBody_ends signed) hw hexec
  · rintro ⟨t, hbusy⟩
    exact exists_step (hashBody_ends signed) hsim hw hbusy

theorem concurrent_calls_return_overlap :
    ∃ tr s, Runs (hashMachine false) (fun _ a => a.Within 2 HashCall.Readable) hashStart tr s ∧
      s.phase 1 ≠ .idle ∧ ∃ a r, a.isCall = false ∧ (hashMachine false).step s a = some r := by
  obtain ⟨tr, s, hrun, hbusy⟩ := (hashMachine false).exec_reaches
    (fun _ a => a.Within 2 HashCall.Readable) hashStart overlap
    (fun _ s => ((hashMachine false).step s (.call 1 (.put [] []))).isNone) (by decide +kernel)
  have hbusy : s.phase 1 ≠ .idle := by
    intro hidle
    simp [hashMachine, Body.machine, Body.step, hidle] at hbusy
  exact ⟨tr, s, hrun, hbusy, (concurrent_calls_return (fun _ _ h => h) hrun).2 ⟨1, hbusy⟩⟩

end Runs

/-! ## What a `get` finds -/

/-- The last value that a `put` in `calls` has stored in bucket `b`. -/
def lastStored (signed : Bool) (b : Fin NUM_BUCKETS) (calls : List HashCall) :
    Option (List UInt8) :=
  calls.foldl (fun last call =>
    match call with
    | .put key value =>
      if hash signed key = some b then some (strncpyBytes value VALUE_SIZE) else last
    | .get _ _ => last) none

section Values
variable {signed : Bool} {calls : List HashCall} {table : Hash}

theorem strncpyBytes_idem (src : List UInt8) (n : Nat) :
    strncpyBytes (strncpyBytes src n) n = strncpyBytes src n := by
  induction src generalizing n with
  | nil => cases n <;> simp [strncpyBytes, List.replicate_succ]
  | cons d src ih =>
    cases n with
    | zero => simp [strncpyBytes]
    | succ n =>
      rw [strncpyBytes_cons]
      by_cases hd : d = 0
      · rw [if_pos hd, List.replicate_succ, strncpyBytes_cons, if_pos rfl, List.replicate_succ]
      · rw [if_neg hd, strncpyBytes_cons, if_neg hd, ih]

theorem perform_value {table' : Hash} {call : HashCall} {res : Option (List UInt8)}
    (hgood : ∀ b, GoodBucket (table.buckets b))
    (hvalue : ∀ b, (table.buckets b).map Entries.value = lastStored signed b calls)
    (h : call.perform signed table = some (table', res)) :
    (∀ b, GoodBucket (table'.buckets b)) ∧
      ∀ b, (table'.buckets b).map Entries.value = lastStored signed b (calls ++ [call]) := by
  cases call with
  | get key value =>
    obtain ⟨_, _, h⟩ := Option.map_eq_some_iff.mp h
    cases h
    refine ⟨hgood, fun b => ?_⟩
    simpa [lastStored, List.foldl_append] using hvalue b
  | put key value =>
    cases hhash : hash signed key with
    | none => simp [HashCall.perform, put, hhash] at h
    | some b₀ =>
      rw [HashCall.perform, put_eq key value hhash (hgood b₀)] at h
      cases h
      constructor
      · intro b
        rcases eq_or_ne b b₀ with rfl | hne
        · simpa using goodBucket_copied key value
        · simpa [hne] using hgood b
      · intro b
        rcases eq_or_ne b b₀ with rfl | hne
        · simp [lastStored, List.foldl_append, hhash]
        · simpa [lastStored, List.foldl_append, hhash, hne, Ne.symm hne] using hvalue b

theorem performAll_value (h : performAll (HashCall.perform signed) hashInit calls = some table) :
    (∀ b, GoodBucket (table.buckets b)) ∧
      ∀ b, (table.buckets b).map Entries.value = lastStored signed b calls := by
  induction calls using List.reverseRecOn generalizing table with
  | nil =>
    obtain rfl : hashInit = table := Option.some.inj h
    exact ⟨by simp [hashInit, GoodBucket], fun b => rfl⟩
  | append_singleton calls call ih =>
    rw [performAll, List.foldlM_append] at h
    obtain ⟨table₁, h₁, h⟩ := Option.bind_eq_some_iff.mp h
    obtain ⟨⟨table₂, res⟩, hcall, rfl⟩ :
        ∃ r, call.perform signed table₁ = some r ∧ r.1 = table := by
      simpa using h
    obtain ⟨hgood, hvalue⟩ := ih h₁
    exact perform_value hgood hvalue hcall

theorem lastStored_copied {b : Fin NUM_BUCKETS} {v : List UInt8}
    (h : lastStored signed b calls = some v) : ∃ src, v = strncpyBytes src VALUE_SIZE := by
  induction calls using List.reverseRecOn with
  | nil => cases h
  | append_singleton calls call ih =>
    rw [lastStored, List.foldl_append] at h
    cases call with
    | get key value => exact ih h
    | put key value =>
      by_cases hhash : hash signed key = some b
      · simp only [List.foldl_cons, List.foldl_nil, hhash, if_true, Option.some.injEq] at h
        exact ⟨value, h.symm⟩
      · simp only [List.foldl_cons, List.foldl_nil, hhash, if_false] at h
        exact ih h

/-- No `get` sees a value half written: its buffer holds, whole, the last value that a `put`
into its bucket had stored when the `get` took effect, or is as it was. -/
theorem concurrent_get_untorn
    {ok : HashState → Action HashCall Entries → Prop} {s : HashState}
    {before after : List HashEvent} {t : Nat}
    {key value : List UInt8} {res : Option (List UInt8)}
    (hrun : Runs (hashMachine signed) ok hashStart (before ++ .done t (.get key value) res :: after)
      s) :
    ∃ b, hash signed key = some b ∧
      res = some (match lastStored signed b (doneCalls before) with
        | none => value
        | some v => v ++ value.drop VALUE_SIZE) := by
  obtain ⟨table, st, haccept, -⟩ := hash_simulates hrun
  obtain ⟨T₁, T₂, hall, hperform⟩ := result_of_accept haccept
  obtain ⟨-, hstored⟩ := performAll_value hall
  cases hhash : hash signed key with
  | none => simp [HashCall.perform, get, hhash] at hperform
  | some b =>
    refine ⟨b, rfl, ?_⟩
    rw [HashCall.perform, get_eq key value hhash] at hperform
    rw [← hstored b]
    obtain rfl := (Prod.mk.inj (Option.some.inj hperform)).2
    cases hb : T₁.buckets b with
    | none => rfl
    | some e =>
      have hlast : lastStored signed b (doneCalls before) = some e.value := by
        rw [← hstored b, hb, Option.map_some]
      obtain ⟨src, hsrc⟩ := lastStored_copied hlast
      simp only [Option.map_some]
      rw [hsrc, strncpy_eq, strncpyBytes_idem]

end Values

theorem concurrent_get_untorn_overlap :
    ∃ b, hash false [98, 0] = some b ∧
      some (49 :: List.replicate 99 0) = some (match lastStored false b [.put [97, 0] [49, 0]] with
        | none => List.replicate VALUE_SIZE 5
        | some v => v ++ (List.replicate VALUE_SIZE 5).drop VALUE_SIZE) := by
  obtain ⟨tr, s, hrun, htr⟩ := (hashMachine false).exec_reaches (fun _ _ => True) hashStart
    (overlap ++ overlapEnd) (fun tr _ => tr ==
      [.call 0 (.put [97, 0] [49, 0]), .call 1 (.get [98, 0] (List.replicate VALUE_SIZE 5)),
        .done 0 (.put [97, 0] [49, 0]) none] ++
      .done 1 (.get [98, 0] (List.replicate VALUE_SIZE 5)) (some (49 :: List.replicate 99 0)) ::
      [.ret 1 (some (49 :: List.replicate 99 0))]) (by decide +kernel)
  rw [beq_iff_eq.mp htr] at hrun
  exact concurrent_get_untorn hrun

end ThletEvaluation.Linux
