import Mathlib.Algebra.Ring.Nat
import Mathlib.Data.List.Flatten
import Mathlib.Data.List.GetD
import Mathlib.Data.List.Nodup
import Mathlib.Data.List.Perm.Subperm
import Mathlib.Tactic.Ring
import ThletEvaluation.Lib.Checks
import ThletEvaluation.Shinjuku.DatastoreLists

/-!
# The ends of the lists of a fresh datastore

Where the elements lie in the pages, and for which contents of the pages the lists of the
finished datastore end in NULL.
-/

namespace ThletEvaluation.Shinjuku

open Chain Checks
set_option autoImplicit false

/-! ## The order of the loop -/

def elemOffsets (elemsPerPage pages len : Nat) : List Nat :=
  (List.range pages).flatMap fun i =>
    (List.range elemsPerPage).map fun j => i * PGSIZE_2MB + j * len

def elemAddrs (buf : Addr) (elemsPerPage pages : Nat) (elemLen : UInt64) : List Addr :=
  (elemOffsets elemsPerPage pages elemLen.toNat).map fun o => buf + UInt64.ofNat o

theorem initPage_eq_foldl (elemLen : UInt64) (n : Nat) (cur : Addr) (st : InitState) :
    initPage elemLen n cur st =
      ((List.range n).map fun j => cur + UInt64.ofNat (j * elemLen.toNat)).foldl initElem st := by
  induction n generalizing cur st with
  | zero => rfl
  | succ n ih =>
    have hnext : ∀ j : Nat, cur + elemLen + UInt64.ofNat (j * elemLen.toNat) =
        cur + UInt64.ofNat ((j + 1) * elemLen.toNat) := by
      intro j
      rw [Nat.succ_mul, UInt64.ofNat_add, UInt64.ofNat_toNat]
      ac_rfl
    have hfirst : cur + UInt64.ofNat (0 * elemLen.toNat) = cur := by simp
    rw [initPage, ih, List.range_succ_eq_map, List.map_cons, List.foldl_cons, List.map_map, hfirst]
    simp only [hnext, Function.comp_def, Nat.succ_eq_add_one]

theorem initPages_eq_foldl (buf : Addr) (elemsPerPage : Nat) (elemLen : UInt64) (n i : Nat)
    (st : InitState) :
    initPages buf elemsPerPage elemLen n i st =
      ((List.range' i n).flatMap fun i => (List.range elemsPerPage).map fun j =>
        buf + UInt64.ofNat (i * PGSIZE_2MB + j * elemLen.toNat)).foldl initElem st := by
  induction n generalizing i st with
  | zero => rfl
  | succ n ih =>
    rw [initPages, ih, initPage_eq_foldl, List.range'_succ, List.flatMap_cons, List.foldl_append]
    simp only [UInt64.ofNat_add, UInt64.add_assoc]

theorem mempoolInitBufWithPages_eq_foldl (mem : Addr → MempoolHdr) (mds : MempoolDatastore)
    (elemsPerPage nrPages : Int32) (elemLen : UInt64) :
    mempoolInitBufWithPages mem mds elemsPerPage nrPages elemLen =
      (elemAddrs mds.buf elemsPerPage.toInt.toNat nrPages.toInt.toNat elemLen).foldl initElem
        ⟨mem, mds, NULL, NULL, 0⟩ := by
  rw [mempoolInitBufWithPages, initPages_eq_foldl, ← List.range_eq_range', elemAddrs, elemOffsets,
    List.map_flatMap]
  simp only [List.map_map, Function.comp_def]

/-! ## The elements do not meet -/

section Offsets
variable {elemsPerPage pages len bound : Nat}

theorem elemOffsets_nodup (hlen : 0 < len) (hpage : pages ≤ 1 ∨ elemsPerPage * len ≤ PGSIZE_2MB) :
    (elemOffsets elemsPerPage pages len).Nodup := by
  rw [elemOffsets, List.nodup_flatMap]
  constructor
  · intro i _
    refine List.Nodup.map_on (fun j _ j' _ heq => ?_) List.nodup_range
    exact Nat.eq_of_mul_eq_mul_right hlen (Nat.add_left_cancel heq)
  · refine List.Pairwise.imp_of_mem ?_ List.nodup_range
    intro i i' hi hi' hne x hx hx'
    have hi := List.mem_range.mp hi
    have hi' := List.mem_range.mp hi'
    rcases hpage with hone | hpage
    · omega
    · obtain ⟨j, hj, rfl⟩ := List.mem_map.mp hx
      obtain ⟨j', hj', heq⟩ := List.mem_map.mp hx'
      -- Both offsets are inside their own page, so the pages are the same.
      have hin : ∀ t ∈ List.range elemsPerPage, t * len < PGSIZE_2MB := by
        intro t ht
        have ht := List.mem_range.mp ht
        have := Nat.mul_lt_mul_of_pos_right ht hlen
        omega
      have h₁ := hin j hj
      have h₂ := hin j' hj'
      simp only [PGSIZE_2MB] at h₁ h₂ heq
      omega

theorem elemOffsets_lt (hlen : 0 < len)
    (hbound : ∀ i < pages, i * PGSIZE_2MB + elemsPerPage * len ≤ bound) :
    ∀ o ∈ elemOffsets elemsPerPage pages len, o < bound := by
  intro o ho
  rw [elemOffsets, List.mem_flatMap] at ho
  obtain ⟨i, hi, ho⟩ := ho
  obtain ⟨j, hj, rfl⟩ := List.mem_map.mp ho
  have hi := hbound i (List.mem_range.mp hi)
  have hj := Nat.mul_lt_mul_of_pos_right (List.mem_range.mp hj) hlen
  omega

theorem elemAddrs_nodup {buf : Addr} {elemLen : UInt64}
    (hnodup : (elemOffsets elemsPerPage pages elemLen.toNat).Nodup)
    (hfit : ∀ o ∈ elemOffsets elemsPerPage pages elemLen.toNat, buf.toNat + o < 2 ^ 64) :
    (elemAddrs buf elemsPerPage pages elemLen).Nodup := by
  refine List.Nodup.map_on (fun o ho o' ho' heq => ?_) hnodup
  have h₁ := hfit o ho
  have h₂ := hfit o' ho'
  have heq := congrArg UInt64.toNat heq
  simp only [UInt64.toNat_add, UInt64.toNat_ofNat'] at heq
  omega

theorem null_notMem_elemAddrs {buf : Addr} {elemLen : UInt64} (hbuf : buf ≠ NULL)
    (hfit : ∀ o ∈ elemOffsets elemsPerPage pages elemLen.toNat, buf.toNat + o < 2 ^ 64) :
    NULL ∉ elemAddrs buf elemsPerPage pages elemLen := by
  intro hmem
  obtain ⟨o, ho, heq⟩ := List.mem_map.mp hmem
  have h := hfit o ho
  have hpos : buf.toNat ≠ 0 := fun hz => hbuf (UInt64.toNat_inj.mp hz)
  have heq := congrArg UInt64.toNat heq
  simp only [UInt64.toNat_add, UInt64.toNat_ofNat', NULL, UInt64.toNat_zero] at heq
  omega

end Offsets

/-! ## The sizes of a call -/

theorem and_not_seven (x : UInt64) : (x &&& ~~~(7 : UInt64)).toNat = x.toNat / 8 * 8 := by
  have hmask : ∀ i : Fin 64, (~~~(7#64)).getLsbD i = decide (3 ≤ i.val) := by decide
  have hshift : x &&& ~~~(7 : UInt64) = (x >>> 3) <<< 3 := by
    apply UInt64.eq_of_toBitVec_eq
    apply BitVec.eq_of_getLsbD_eq
    intro i hi
    have hbit := hmask ⟨i, hi⟩
    simp at hbit ⊢
    grind
  have hlt := x.toNat_lt
  rw [hshift]
  simp only [UInt64.toNat_shiftLeft, UInt64.toNat_shiftRight, UInt64.reduceToNat,
    Nat.shiftRight_eq_div_pow, Nat.shiftLeft_eq, Nat.reduceMod, Nat.reducePow]
  omega

theorem alignLong_len {x : UInt64} (h : 16 ≤ x.toNat) (hne : alignLong x ≠ 0) :
    16 ≤ (alignLong x).toNat := by
  have hval : (alignLong x).toNat = (x.toNat + 7) % 2 ^ 64 / 8 * 8 := by
    rw [alignLong, and_not_seven, UInt64.toNat_add]
    rfl
  have hpos : (alignLong x).toNat ≠ 0 := fun hz => hne (UInt64.toNat_inj.mp hz)
  have := x.toNat_lt
  omega

theorem sizeToInt_toInt {x : UInt64} (h : x.toNat < 2 ^ 31) : (sizeToInt x).toInt = x.toNat := by
  rw [sizeToInt, ← Int32.toInt_toBitVec]
  simp [BitVec.toInt_eq_toNat_cond]
  omega

theorem asInt_bind {β : Type} {x : Int} {f : Int32 → Except CreateFault β} {r : β}
    (h : asInt x >>= f = .ok r) : ∃ n : Int32, n.toInt = x ∧ f n = .ok r := by
  by_cases hx : (Int32.ofInt x).toInt = x
  · rw [asInt, if_pos hx] at h
    exact ⟨_, hx, h⟩
  · rw [asInt, if_neg hx] at h
    cases h

/-- The `unsigned long` that an `int` is passed as. -/
theorem toInt_eq_unsigned (n : Int32) :
    n.toInt = if 2 * n.toInt64.toUInt64.toNat < 2 ^ 64 then (n.toInt64.toUInt64.toNat : Int)
      else (n.toInt64.toUInt64.toNat : Int) - 2 ^ 64 := by
  rw [← Int32.toInt_toInt64, ← Int64.toInt_toBitVec, BitVec.toInt_eq_toNat_cond]
  rfl

theorem toUInt64_toNat {n : Int32} (h : 0 ≤ n.toInt) :
    n.toInt64.toUInt64.toNat = n.toInt.toNat := by
  have hval := toInt_eq_unsigned n
  have hlt := n.toInt64.toUInt64.toNat_lt
  split at hval <;> omega

theorem getOrder_le {size : UInt64} (h : size ≠ 0) :
    size.toNat ≤ PGSIZE_4KB * 2 ^ getOrder size := by
  have hpos : size.toNat ≠ 0 := fun hz => h (UInt64.toNat_inj.mp hz)
  unfold getOrder
  rw [if_neg h]
  dsimp only
  split
  · simp only [PGSIZE_4KB] at *
    omega
  · have hlog := Nat.lt_log2_self (n := (size.toNat - 1) / PGSIZE_4KB)
    simp only [PGSIZE_4KB] at *
    omega

/-- The elements stay inside the pages of the call, and one page after the other. -/
structure Geometry.Fits (g : Geometry) : Prop where
  len : 16 ≤ g.elemLen.toNat
  page : g.initPages.toInt.toNat ≤ 1 ∨
    g.elemsPerPage.toInt.toNat * g.elemLen.toNat ≤ PGSIZE_2MB
  inside : ∀ i < g.initPages.toInt.toNat,
    i * PGSIZE_2MB + g.elemsPerPage.toInt.toNat * g.elemLen.toNat ≤ g.size.toInt.toNat

/-- A quotient that fits in an `int` keeps its value. -/
theorem sizeToInt_div {x y : UInt64} (hx : x.toNat < 2 ^ 31) :
    (sizeToInt (x / y)).toInt.toNat * y.toNat ≤ x.toNat := by
  have hdiv : (x / y).toNat = x.toNat / y.toNat := UInt64.toNat_div x y
  have hle : x.toNat / y.toNat ≤ x.toNat := Nat.div_le_self _ _
  have hval : (sizeToInt (x / y)).toInt.toNat = x.toNat / y.toNat := by
    rw [sizeToInt_toInt (by omega), hdiv, Int.toNat_natCast]
  rw [hval]
  exact Nat.div_mul_le_self _ _

theorem twoMB_toNat : (UInt64.ofNat PGSIZE_2MB).toNat = PGSIZE_2MB := by
  rw [UInt64.toNat_ofNat', PGSIZE_2MB]

theorem elemsPerPage_mul_le (elemLen : UInt64) :
    (elemsPerPage elemLen).toInt.toNat * elemLen.toNat ≤ PGSIZE_2MB := by
  have hfit := sizeToInt_div (x := UInt64.ofNat PGSIZE_2MB) (y := elemLen)
    (by rw [twoMB_toNat, PGSIZE_2MB]; omega)
  rwa [twoMB_toNat] at hfit

theorem nostraddleGeometry_fits {nrElems : Int32} {elemLen : UInt64} {g : Geometry}
    (hlen : 16 ≤ elemLen.toNat) (hg : nostraddleGeometry nrElems elemLen = .ok g) : g.Fits := by
  obtain ⟨sum, -, hg⟩ := asInt_bind hg
  split at hg
  · cases hg
  · obtain ⟨size, hsize, hg⟩ := asInt_bind hg
    obtain rfl := Except.ok.inj hg
    have hfit := elemsPerPage_mul_le elemLen
    refine ⟨hlen, Or.inr hfit, fun i hi => ?_⟩
    dsimp only at hi ⊢
    simp only [PGSIZE_2MB] at hsize hfit ⊢
    omega

theorem straddleGeometry_fits {nrElems : Int32} {elemLen : UInt64} {g : Geometry}
    (hlen : 16 ≤ elemLen.toNat) (hg : straddleGeometry nrElems elemLen = .ok g)
    (hpos : 0 ≤ g.size.toInt) : g.Fits := by
  obtain ⟨size, -, hg⟩ := asInt_bind hg
  obtain rfl := Except.ok.inj hg
  dsimp only at hpos
  have hbytes := toUInt64_toNat hpos
  have hlt : size.toInt < 2 ^ 31 := size.toInt_lt
  have hfit := sizeToInt_div (x := size.toInt64.toUInt64) (y := elemLen) (by omega)
  have hone : (1 : Int32).toInt.toNat = 1 := rfl
  refine ⟨hlen, Or.inl hone.le, fun i hi => ?_⟩
  dsimp only at hi ⊢
  rw [hone] at hi
  rw [hbytes] at hfit
  simp only [PGSIZE_2MB]
  omega

theorem datastoreGeometry_fits {nrElems nostraddle : Int32} {elemLen : UInt64} {g : Geometry}
    (hlen : 16 ≤ elemLen.toNat) (hg : datastoreGeometry nrElems elemLen nostraddle = .ok g)
    (hpos : 0 ≤ g.size.toInt) : g.Fits := by
  unfold datastoreGeometry at hg
  split at hg
  · cases hg
  · rename_i hne
    have hlen := alignLong_len hlen hne
    split at hg
    · exact nostraddleGeometry_fits hlen hg
    · exact straddleGeometry_fits hlen hg hpos

/-! ## Which pages give lists that end -/

/-- What `alloc_pages` gives: pages away from NULL that do not run over the end of memory. -/
def PagesOk (allocPages : Nat → Option Addr) : Prop :=
  ∀ order buf, allocPages order = some buf →
    buf ≠ NULL ∧ buf.toNat + PGSIZE_4KB * 2 ^ order ≤ 2 ^ 64

/-- The links that the loop leaves alone: the last element of each chunk of `k` elements holds
NULL in `next`, and the first element of all holds NULL in `next_chunk`. -/
def EndsClear (mem : Addr → MempoolHdr) (k : Nat) (elems : List Addr) : Prop :=
  (∀ m, (m + 1) * k ≤ elems.length → (mem (elems.getD ((m + 1) * k - 1) NULL)).next = NULL) ∧
    (k ≤ elems.length → (mem (elems.getD 0 NULL)).nextChunk = NULL)

section Ends
variable {k : Nat} {cs : List (List Addr)} {part : List Addr}

theorem lastOf_eq_getD {c : List Addr} (hc : c ≠ []) (rest : List Addr) :
    lastOf c = (c ++ rest).getD (c.length - 1) NULL := by
  rcases List.eq_nil_or_concat c with rfl | ⟨xs, l, rfl⟩
  · exact absurd rfl hc
  · rw [List.concat_eq_append, lastOf_snoc]
    simp

theorem lastOf_chunk (part : List Addr) (hk : 0 < k) (hfull : ∀ c ∈ cs, c.length = k) {m : Nat}
    (hm : m < cs.length) : lastOf cs[m] = (cs.flatten ++ part).getD ((m + 1) * k - 1) NULL := by
  induction cs generalizing m with
  | nil => simp at hm
  | cons c cs ih =>
    have hc : c.length = k := hfull c List.mem_cons_self
    have hne : c ≠ [] := List.ne_nil_of_length_pos (hc ▸ hk)
    rw [List.flatten_cons, List.append_assoc]
    cases m with
    | zero =>
      have hlast := lastOf_eq_getD hne (cs.flatten ++ part)
      rw [hc] at hlast
      simpa using hlast
    | succ m =>
      have hidx : (m + 1 + 1) * k - 1 = c.length + ((m + 1) * k - 1) := by
        have : 1 ≤ (m + 1) * k := Nat.mul_pos (Nat.succ_pos m) hk
        rw [Nat.succ_mul (m + 1), hc]
        omega
      have ih := ih (fun d hd => hfull d (List.mem_cons_of_mem c hd))
        (Nat.lt_of_succ_lt_succ hm)
      rw [List.getElem_cons_succ, ih, hidx, List.getD_append_right c _ _ _ (Nat.le_add_right _ _),
        Nat.add_sub_cancel_left]

theorem flatten_length (hfull : ∀ c ∈ cs, c.length = k) : cs.flatten.length = cs.length * k := by
  rw [List.length_flatten, List.map_congr_left hfull, List.map_const',
    List.sum_replicate_nat]

/-- As many chunks are full as fit into the elements. -/
theorem chunk_count_iff (hk : part.length < k) (hfull : ∀ c ∈ cs, c.length = k) (m : Nat) :
    (m + 1) * k ≤ (cs.flatten ++ part).length ↔ m < cs.length := by
  rw [List.length_append, flatten_length hfull]
  constructor
  · intro h
    by_contra hge
    have hmul := Nat.mul_le_mul_right k (Nat.not_lt.mp hge)
    rw [Nat.succ_mul] at h
    omega
  · intro h
    have hmul := Nat.mul_le_mul_right k h
    rw [Nat.succ_eq_add_one] at hmul
    omega

/-- Read off the elements in the order of the loop, the chunks are its groups of `k`. -/
theorem endsClear_iff {mem : Addr → MempoolHdr} (hk : part.length < k)
    (hfull : ∀ c ∈ cs, c.length = k) :
    EndsClear mem k (cs.flatten ++ part) ↔
      (∀ c ∈ cs, (mem (lastOf c)).next = NULL) ∧ listEnd mem cs = NULL := by
  have hpos : 0 < k := by omega
  have hcount := chunk_count_iff hk hfull
  refine and_congr ?_ ?_
  · constructor
    · intro h c hc
      obtain ⟨m, hm, rfl⟩ := List.getElem_of_mem hc
      rw [lastOf_chunk part hpos hfull hm]
      exact h m ((hcount m).mpr hm)
    · intro h m hm
      rw [← lastOf_chunk part hpos hfull ((hcount m).mp hm)]
      exact h _ (List.getElem_mem _)
  · have hfirst := hcount 0
    rw [Nat.zero_add, Nat.one_mul] at hfirst
    cases cs with
    | nil =>
      simp only [hfirst, listEnd]
      simp
    | cons c cs =>
      have hc : c ≠ [] := List.ne_nil_of_length_pos (hfull c List.mem_cons_self ▸ hpos)
      have hget : ((c :: cs).flatten ++ part).getD 0 NULL = firstOf c := by
        cases c with
        | nil => exact absurd rfl hc
        | cons x xs => rfl
      rw [hget, hfirst]
      simp [listEnd]

end Ends

section Create
variable {allocPages : Nat → Option Addr} {mem : Addr → MempoolHdr} {mds : MempoolDatastore}
variable {nrElems nostraddle chunkSize : Int32} {elemLen : UInt64} {g : Geometry}
variable {buf self allDatastores : Addr}

/-- A negative `int` is a huge `unsigned long`. -/
theorem toUInt64_toNat_neg {n : Int32} (h : n.toInt < 0) :
    2 ^ 63 < n.toInt64.toUInt64.toNat := by
  have hval := toInt_eq_unsigned n
  have hmin : -2 ^ 31 ≤ n.toInt := n.le_toInt
  split at hval <;> omega

/-- No pages answer a size that is zero or negative, so the pages hold the whole size. -/
theorem PagesOk.hold (h : PagesOk allocPages) {size : Int32}
    (halloc : allocPages (getOrder size.toInt64.toUInt64) = some buf) :
    buf ≠ NULL ∧ 0 ≤ size.toInt ∧ buf.toNat + size.toInt.toNat ≤ 2 ^ 64 := by
  obtain ⟨hbuf, hroom⟩ := h _ _ halloc
  have hpos : buf.toNat ≠ 0 := fun hz => hbuf (UInt64.toNat_inj.mp hz)
  have horder : getOrder size.toInt64.toUInt64 < 52 := by
    by_contra hge
    have hpow := Nat.pow_le_pow_right (n := 2) (by omega) (Nat.not_lt.mp hge)
    simp only [PGSIZE_4KB] at hroom
    omega
  have hne : size.toInt64.toUInt64 ≠ 0 := by
    intro hzero
    rw [hzero, getOrder, if_pos rfl] at horder
    omega
  have hle := getOrder_le hne
  have hnonneg : 0 ≤ size.toInt := by
    by_contra hneg
    have hhuge := toUInt64_toNat_neg (Int.not_le.mp hneg)
    have hpow := Nat.pow_le_pow_right (n := 2) (by omega) (Nat.le_of_lt_succ horder)
    simp only [PGSIZE_4KB] at hle
    omega
  refine ⟨hbuf, hnonneg, ?_⟩
  rw [toUInt64_toNat hnonneg] at hle
  omega

/-- `g` and `buf` give the elements in the order in which the loop reaches them. -/
def Geometry.elems (g : Geometry) (buf : Addr) : List Addr :=
  elemAddrs buf g.elemsPerPage.toInt.toNat g.initPages.toInt.toNat g.elemLen

theorem Geometry.Fits.elems_ok (h : g.Fits) (hbuf : buf ≠ NULL)
    (hroom : buf.toNat + g.size.toInt.toNat ≤ 2 ^ 64) :
    (g.elems buf).Nodup ∧ NULL ∉ g.elems buf ∧ (g.elems buf).length < 2 ^ 31 := by
  have hpos : 0 < g.elemLen.toNat := Nat.lt_of_lt_of_le (by omega) h.len
  have hnodup := elemOffsets_nodup hpos h.page
  have hlt := elemOffsets_lt hpos h.inside
  have hfit : ∀ o ∈ elemOffsets g.elemsPerPage.toInt.toNat g.initPages.toInt.toNat
      g.elemLen.toNat, buf.toNat + o < 2 ^ 64 := by
    intro o ho
    have := hlt o ho
    omega
  refine ⟨elemAddrs_nodup hnodup hfit, null_notMem_elemAddrs hbuf hfit, ?_⟩
  have hsub : elemOffsets g.elemsPerPage.toInt.toNat g.initPages.toInt.toNat g.elemLen.toNat ⊆
      List.range g.size.toInt.toNat := fun o ho => List.mem_range.mpr (hlt o ho)
  have hle := (List.subperm_of_subset hnodup hsub).length_le
  have hsize : g.size.toInt < 2 ^ 31 := g.size.toInt_lt
  rw [List.length_range] at hle
  rw [Geometry.elems, elemAddrs, List.length_map]
  omega

/-- The loop over pages that hold `mem`, for a record with no chunks yet. -/
theorem initBuf_built (mem : Addr → MempoolHdr) (mds : MempoolDatastore) (h : g.Fits)
    (hbuf : buf ≠ NULL) (hroom : buf.toNat + g.size.toInt.toNat ≤ 2 ^ 64) (hmds : mds.buf = buf)
    (hchunk : 0 < mds.chunkSize.toInt) (hhead : mds.chunkHead = NULL) (hnum : mds.numChunks = 0)
    (hfree : mds.freeChunks = 0) :
    ∃ cs part, Built mem mds.chunkSize
        (mempoolInitBufWithPages mem mds g.elemsPerPage g.initPages g.elemLen) cs part ∧
      cs.flatten ++ part = g.elems buf ∧
      (cs.length : Int) = (mempoolInitBufWithPages mem mds g.elemsPerPage g.initPages
        g.elemLen).mds.numChunks.toInt ∧
      (∀ c ∈ cs, c.length = mds.chunkSize.toInt.toNat) ∧
      part.length < mds.chunkSize.toInt.toNat := by
  obtain ⟨hnodup, hnull, hlen⟩ := h.elems_ok hbuf hroom
  have hst : mempoolInitBufWithPages mem mds g.elemsPerPage g.initPages g.elemLen =
      (g.elems buf).foldl initElem ⟨mem, mds, NULL, NULL, 0⟩ := by
    rw [Geometry.elems, ← hmds]
    exact mempoolInitBufWithPages_eq_foldl mem mds g.elemsPerPage g.initPages g.elemLen
  obtain ⟨cs, part, hbuilt, hlist⟩ :=
    (Built.start mem mds hchunk hhead hnum hfree).foldl (g.elems buf) (by simpa using hnull)
      (by simpa using hnodup)
  simp only [List.flatten_nil, List.nil_append] at hlist
  have hk : (mds.chunkSize.toInt.toNat : Int) = mds.chunkSize.toInt := Int.toNat_of_nonneg hchunk.le
  have hfull : ∀ c ∈ cs, c.length = mds.chunkSize.toInt.toNat := by
    intro c hc
    have := hbuilt.full c hc
    omega
  have hshort : part.length < mds.chunkSize.toInt.toNat := by
    have := hbuilt.short
    omega
  rw [hst]
  refine ⟨cs, part, hbuilt, hlist, ?_, hfull, hshort⟩
  have hflat := flatten_length hfull
  have hmul : cs.length ≤ cs.length * mds.chunkSize.toInt.toNat :=
    Nat.le_mul_of_pos_right _ (by omega)
  have happ := congrArg List.length hlist
  rw [List.length_append] at happ
  rw [hbuilt.numChunks, Int32.toInt_ofNat_of_lt (by omega)]

theorem initBuf_wellFormed_iff (mds : MempoolDatastore) (h : g.Fits) (hbuf : buf ≠ NULL)
    (hroom : buf.toNat + g.size.toInt.toNat ≤ 2 ^ 64) (hmds : mds.buf = buf)
    (hchunk : 0 < mds.chunkSize.toInt) (hhead : mds.chunkHead = NULL) (hnum : mds.numChunks = 0)
    (hfree : mds.freeChunks = 0) :
    let st := mempoolInitBufWithPages mem mds g.elemsPerPage g.initPages g.elemLen
    ListsWellFormed st.mem st.mds mds.chunkSize ↔
      EndsClear mem mds.chunkSize.toInt.toNat (g.elems buf) := by
  intro st
  obtain ⟨cs, part, hbuilt, hlist, hcount, hfull, hshort⟩ :=
    initBuf_built mem mds h hbuf hroom hmds hchunk hhead hnum hfree
  have hnull' : NULL ∉ cs.flatten := fun hmem =>
    (h.elems_ok hbuf hroom).2.1 (hlist ▸ List.mem_append_left part hmem)
  rw [← hlist, endsClear_iff hshort hfull]
  constructor
  · exact hbuilt.ends_null hcount
  · rintro ⟨hends, hend⟩
    exact hbuilt.wellFormed hnull' hcount hends hend

theorem fillDatastore_wellFormed_iff (self allDatastores : Addr) (mem : Addr → MempoolHdr)
    (mds : MempoolDatastore) (hpages : PagesOk allocPages) (hlen : 16 ≤ elemLen.toNat)
    (hchunk : 1 ≤ chunkSize.toInt) (hg : datastoreGeometry nrElems elemLen nostraddle = .ok g)
    (hhead : mds.chunkHead = NULL) (hnum : mds.numChunks = 0) (hfree : mds.freeChunks = 0)
    (halloc : allocPages (getOrder g.size.toInt64.toUInt64) = some buf) :
    let r := fillDatastore allocPages self allDatastores mem mds nostraddle chunkSize g
    r.ret = 0 ∧ (ListsWellFormed r.mem r.mds chunkSize ↔
      EndsClear mem chunkSize.toInt.toNat (g.elems buf)) := by
  intro r
  obtain ⟨hbuf, hpos, hroom⟩ := hpages.hold halloc
  have hfits := datastoreGeometry_fits hlen hg hpos
  have hr : r = fillDatastore allocPages self allDatastores mem mds nostraddle chunkSize g := rfl
  rw [fillDatastore, halloc] at hr
  rw [hr]
  refine ⟨rfl, ?_⟩
  -- The record goes into `mempool_all_datastores`, which changes none of its lists.
  exact initBuf_wellFormed_iff (mds.describe g buf nostraddle chunkSize) hfits hbuf hroom rfl
    hchunk hhead hnum hfree

/-- A record without chunks has its lists, which are empty. -/
theorem listsWellFormed_empty (hhead : mds.chunkHead = NULL) (hnum : mds.numChunks = 0) :
    ListsWellFormed mem mds chunkSize := by
  refine ⟨[], hhead, ?_, by simp⟩
  rw [hnum]
  rfl

/-- Whatever pages `alloc_pages` gives to the call, their open ends hold NULL. -/
def PagesClear (allocPages : Nat → Option Addr) (mem : Addr → MempoolHdr) (nrElems : Int32)
    (elemLen : UInt64) (nostraddle chunkSize : Int32) : Prop :=
  ∀ g buf, datastoreGeometry nrElems elemLen nostraddle = .ok g →
    allocPages (getOrder g.size.toInt64.toUInt64) = some buf →
    EndsClear mem chunkSize.toInt.toNat (g.elems buf)

theorem mempoolCreateDatastore_cases {name : String} {r : CreateResult}
    (h : mempoolCreateDatastore allocPages self allDatastores mem mds nrElems elemLen nostraddle
      chunkSize name = .ok r) :
    (elemLen = 0 ∨ nrElems = 0) ∧ r = ⟨-EINVAL, mem, mds, allDatastores⟩ ∨
      nrElems ≠ 0 ∧ ∃ g, datastoreGeometry nrElems elemLen nostraddle = .ok g ∧
        r = fillDatastore allocPages self allDatastores mem
          { mds with magic := MEMPOOL_MAGIC, prettyname := some name } nostraddle chunkSize g := by
  simp only [mempoolCreateDatastore, guard_eq_ok] at h
  obtain ⟨-, -, -, -, h⟩ := h
  by_cases hempty : elemLen = 0 ∨ nrElems = 0
  · rw [if_pos hempty] at h
    exact .inl ⟨hempty, (Except.ok.inj h).symm⟩
  · rw [if_neg hempty, bind_eq_ok] at h
    obtain ⟨g, hg, h⟩ := h
    exact .inr ⟨fun hz => hempty (.inr hz), g, hg, (Except.ok.inj h).symm⟩

theorem created_lists_wellFormed_iff {name : String} {r : CreateResult}
    (hpages : PagesOk allocPages) (hlen : 16 ≤ elemLen.toNat) (hchunk : 1 ≤ chunkSize.toInt)
    (hcreate : mempoolCreateDatastore allocPages self allDatastores mem {} nrElems elemLen
      nostraddle chunkSize name = .ok r) :
    ListsWellFormed r.mem r.mds chunkSize ↔
      (nrElems ≠ 0 → PagesClear allocPages mem nrElems elemLen nostraddle chunkSize) := by
  have hlen0 : elemLen ≠ 0 := by
    rintro rfl
    simp at hlen
  rcases mempoolCreateDatastore_cases hcreate with ⟨hempty, rfl⟩ | ⟨hne, g, hg, rfl⟩
  · have hzero : nrElems = 0 := hempty.resolve_left hlen0
    constructor
    · exact fun _ hne => absurd hzero hne
    · exact fun _ => listsWellFormed_empty rfl rfl
  · cases halloc : allocPages (getOrder g.size.toInt64.toUInt64) with
    | none =>
      rw [fillDatastore, halloc]
      constructor
      · intro _ _ g' buf hg' halloc'
        obtain rfl := Except.ok.inj (hg.symm.trans hg')
        rw [halloc] at halloc'
        cases halloc'
      · exact fun _ => listsWellFormed_empty rfl rfl
    | some buf =>
      have hiff := (fillDatastore_wellFormed_iff self allDatastores mem
        { magic := MEMPOOL_MAGIC, prettyname := some name } hpages hlen hchunk hg rfl rfl rfl
        halloc).2
      refine hiff.trans ?_
      constructor
      · intro hends _ g' buf' hg' halloc'
        obtain rfl := Except.ok.inj (hg.symm.trans hg')
        obtain rfl := Option.some.inj (halloc.symm.trans halloc')
        exact hends
      · exact fun hclear => hclear hne g buf hg halloc

end Create

/-- One page of 2 MB, at 2 MB. -/
def onePage (order : Nat) : Option Addr := if order = 9 then some 0x200000 else none

def twoElems : Geometry :=
  { elemLen := 0x100000, nrPages := 1, nrElems := 2, size := 0x200000, elemsPerPage := 2,
    initPages := 1 }

theorem onePage_ok : PagesOk onePage := by
  intro order buf h
  unfold onePage at h
  split at h
  · rename_i horder
    obtain rfl := Option.some.inj h
    rw [horder]
    decide
  · cases h

theorem twoElems_geometry : datastoreGeometry 2 0x100000 1 = .ok twoElems := by
  decide +kernel

/-- A datastore of one chunk of two elements. -/
def createTwo (mem : Addr → MempoolHdr) : Except CreateFault CreateResult :=
  mempoolCreateDatastore onePage 8 NULL mem {} 2 0x100000 1 2 "mbuf"

theorem createTwo_eq (mem : Addr → MempoolHdr) :
    createTwo mem = .ok (fillDatastore onePage 8 NULL mem
      { magic := MEMPOOL_MAGIC, prettyname := some "mbuf" } 1 2 twoElems) := by
  rw [createTwo, mempoolCreateDatastore, if_neg (by decide), if_neg (by decide),
    if_neg (by decide), if_neg (by decide), if_neg (by decide), twoElems_geometry]
  rfl

theorem twoElems_elems : twoElems.elems 0x200000 = [0x200000, 0x300000] := by
  decide +kernel

theorem twoElems_order : onePage (getOrder twoElems.size.toInt64.toUInt64) = some 0x200000 := by
  decide +kernel

theorem created_lists_wellFormed_zeroed :
    ∃ r, createTwo (fun _ => {}) = .ok r ∧ ListsWellFormed r.mem r.mds 2 := by
  refine ⟨_, createTwo_eq _, ?_⟩
  refine (created_lists_wellFormed_iff onePage_ok (by decide) (by decide)
    (createTwo_eq fun _ => {})).mpr ?_
  intro _ g buf hg halloc
  exact ⟨fun _ _ => rfl, fun _ => rfl⟩

/-- The pages as another use has left them: something stands where the second element begins. -/
def usedPages (a : Addr) : MempoolHdr := if a = 0x300000 then { next := 7 } else {}

theorem created_lists_run_into_garbage :
    ∃ r, createTwo usedPages = .ok r ∧ r.ret = 0 ∧ ¬ ListsWellFormed r.mem r.mds 2 := by
  have hchunk : 1 ≤ (2 : Int32).toInt := by decide
  obtain ⟨hret, hiff⟩ := fillDatastore_wellFormed_iff 8 NULL usedPages
    { magic := MEMPOOL_MAGIC, prettyname := some "mbuf" } onePage_ok (by decide) hchunk
    twoElems_geometry rfl rfl rfl twoElems_order
  refine ⟨_, createTwo_eq _, hret, fun hwf => ?_⟩
  have hends := (hiff.mp hwf).1 0
  rw [twoElems_elems] at hends
  exact absurd (hends (by decide)) (by decide)

end ThletEvaluation.Shinjuku
