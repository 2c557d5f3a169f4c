import ThletEvaluation.Shinjuku.DatastoreHazards

/-!
# The elements of a fresh datastore

What a caller gets from `mempool_create_datastore` on zeroed pages: elements that do not
overlap, each in one chunk, within the pages, and as many as were asked for.
-/

namespace ThletEvaluation.Shinjuku

open Chain
set_option autoImplicit false

/-! ## The sizes of a call that can be met -/

/-- The length of an element after alignment, as a number. -/
def exactLen (elemLen : UInt64) : Nat := (elemLen.toNat + 7) / 8 * 8

/-- The number of 2 MB pages, as a number. -/
def exactPages (n len : Nat) (nostraddle : Int32) : Nat :=
  if nostraddle ≠ 0 then nostraddlePages n len else (n * len + PGMASK_2MB) / PGSIZE_2MB

structure ArgsOk (nrElems : Int32) (elemLen : UInt64) (nostraddle chunkSize : Int32) : Prop where
  nrElems_pos : 0 < nrElems.toInt
  elemLen_ge : 16 ≤ elemLen.toNat
  chunkSize_pos : 0 < chunkSize.toInt
  power : chunkSize &&& (chunkSize - 1) = 0
  whole : nrElems / chunkSize * chunkSize = nrElems
  page : nostraddle ≠ 0 → exactLen elemLen ≤ PGSIZE_2MB
  pages : exactPages nrElems.toInt.toNat (exactLen elemLen) nostraddle < 1024

section Sizes
variable {nrElems nostraddle chunkSize : Int32} {elemLen : UInt64} {n len e : Nat}

theorem le_exactLen (x : UInt64) : x.toNat ≤ exactLen x := by
  unfold exactLen
  omega

theorem alignLong_exact {x : UInt64} (h : exactLen x < 2 ^ 64) :
    (alignLong x).toNat = exactLen x := by
  have hx := x.toNat_lt
  rw [alignLong_toNat]
  unfold exactLen at h ⊢
  omega

theorem le_ceil_mul (he : 0 < e) : n ≤ (n + e - 1) / e * e := by
  have hdiv := Nat.div_add_mod (n + e - 1) e
  have hmod := Nat.mod_lt (n + e - 1) he
  rw [Nat.mul_comm] at hdiv
  omega

theorem le_pages_mul (n len : Nat) :
    n * len ≤ (n * len + PGMASK_2MB) / PGSIZE_2MB * PGSIZE_2MB := by
  simp only [PGMASK_2MB, PGSIZE_2MB]
  omega

theorem ArgsOk.exactLen_lt (h : ArgsOk nrElems elemLen nostraddle chunkSize) :
    exactLen elemLen < 2 ^ 31 := by
  by_cases hno : nostraddle = 0
  · have hpages := h.pages
    have hn := h.nrElems_pos
    rw [exactPages, if_neg (not_not.mpr hno)] at hpages
    have hle := le_pages_mul nrElems.toInt.toNat (exactLen elemLen)
    have hone : exactLen elemLen ≤ nrElems.toInt.toNat * exactLen elemLen :=
      Nat.le_mul_of_pos_left _ (by omega)
    simp only [PGSIZE_2MB] at hle hpages
    omega
  · have hpage := h.page hno
    simp only [PGSIZE_2MB] at hpage
    omega

theorem ArgsOk.alignLong_eq (h : ArgsOk nrElems elemLen nostraddle chunkSize) :
    (alignLong elemLen).toNat = exactLen elemLen :=
  alignLong_exact (Nat.lt_trans h.exactLen_lt (by omega))

theorem straddlePages_exact (h : (n * len + PGMASK_2MB) / PGSIZE_2MB < 1024) :
    straddlePages n len = (n * len + PGMASK_2MB) / PGSIZE_2MB := by
  have hlt : n * len + PGMASK_2MB < 2 ^ 64 := by
    simp only [PGSIZE_2MB] at h
    omega
  rw [straddlePages, Nat.mod_eq_of_lt hlt]

theorem ArgsOk.sizesHold (h : ArgsOk nrElems elemLen nostraddle chunkSize) :
    SizesHold nrElems elemLen nostraddle := by
  have hlen := h.elemLen_ge
  have hle := le_exactLen elemLen
  have hpages := h.pages
  refine ⟨?_, ?_, ?_⟩
  · intro hzero
    have heq := h.alignLong_eq
    rw [hzero, UInt64.toNat_zero] at heq
    omega
  · intro hno
    rw [exactPages, if_pos hno] at hpages
    rw [h.alignLong_eq]
    exact ⟨h.page hno, hpages⟩
  · intro hno
    rw [exactPages, if_neg (not_not.mpr hno)] at hpages
    rw [h.alignLong_eq, straddlePages_exact hpages]
    exact hpages

/-- The pages are those that the elements need, and the loop goes over enough elements. -/
structure Geometry.Suits (g : Geometry) (nrElems : Int32) (elemLen : UInt64)
    (nostraddle : Int32) : Prop where
  len : g.elemLen.toNat = exactLen elemLen
  nrPages : g.nrPages.toInt = exactPages nrElems.toInt.toNat (exactLen elemLen) nostraddle
  size : g.size.toInt.toNat = g.nrPages.toInt.toNat * PGSIZE_2MB
  enough : nrElems.toInt.toNat ≤ g.initPages.toInt.toNat * g.elemsPerPage.toInt.toNat
  onePage : nostraddle ≠ 0 → g.elemsPerPage.toInt.toNat * exactLen elemLen ≤ PGSIZE_2MB

theorem ArgsOk.geometry (h : ArgsOk nrElems elemLen nostraddle chunkSize) :
    ∃ g, datastoreGeometry nrElems elemLen nostraddle = .ok g ∧
      g.Suits nrElems elemLen nostraddle := by
  obtain ⟨g, hg⟩ := (checkedGeometry_ok_iff h.nrElems_pos).mpr h.sizesHold
  refine ⟨g, checkedGeometry_geometry hg, ?_⟩
  have hzero : alignLong elemLen ≠ 0 := h.sizesHold.1
  have hlen := h.alignLong_eq
  have hpages := h.pages
  by_cases hno : nostraddle = 0
  · rw [checkedGeometry, if_neg hzero, if_neg (not_not.mpr hno)] at hg
    obtain ⟨-, his⟩ := checkedStraddle_ok h.nrElems_pos hg
    rw [exactPages, if_neg (not_not.mpr hno)] at hpages
    rw [hlen, straddlePages_exact hpages] at his
    have hpos : 0 < exactLen elemLen := by
      have := h.elemLen_ge
      have := le_exactLen elemLen
      omega
    refine ⟨his.elemLen, ?_, ?_, ?_, fun hne => absurd hno hne⟩
    · rw [exactPages, if_neg (not_not.mpr hno)]
      exact his.nrPages
    · rw [his.size, his.nrPages]
      simp only [PGSIZE_2MB]
      omega
    · rw [his.initPages, his.elemsPerPage, Int.toNat_natCast, Int.toNat_natCast, Nat.one_mul]
      exact (Nat.le_div_iff_mul_le hpos).mpr (le_pages_mul _ _)
  · rw [checkedGeometry, if_neg hzero, if_pos hno] at hg
    obtain ⟨hpos, -, his⟩ := checkedNostraddle_ok h.nrElems_pos hg
    rw [hlen] at his hpos
    refine ⟨his.elemLen, ?_, ?_, ?_, fun _ => ?_⟩
    · rw [exactPages, if_pos hno]
      exact his.nrPages
    · rw [his.size, his.nrPages]
      simp only [PGSIZE_2MB]
      omega
    · rw [his.initPages, his.elemsPerPage, Int.toNat_natCast, Int.toNat_natCast]
      exact le_ceil_mul hpos
    · rw [his.elemsPerPage, Int.toNat_natCast]
      exact Nat.div_mul_le_self _ _

end Sizes

/-! ## Where the elements lie -/

/-- Two ranges of `len` bytes that do not meet. -/
def Apart (len : Nat) (a b : Addr) : Prop := a.toNat + len ≤ b.toNat ∨ b.toNat + len ≤ a.toNat

section Offsets
variable {perPage pages len bound o : Nat}

theorem mem_elemOffsets (h : o ∈ elemOffsets perPage pages len) :
    ∃ i j, i < pages ∧ j < perPage ∧ o = i * PGSIZE_2MB + j * len ∧
      j * len + len ≤ perPage * len := by
  obtain ⟨i, hi, ho⟩ := List.mem_flatMap.mp h
  obtain ⟨j, hj, rfl⟩ := List.mem_map.mp ho
  have hj := List.mem_range.mp hj
  have hmul := Nat.mul_le_mul_right len (Nat.succ_le_of_lt hj)
  rw [Nat.succ_mul] at hmul
  exact ⟨i, j, List.mem_range.mp hi, hj, rfl, hmul⟩

/-- In the order of the loop every element lies behind the one before it. -/
theorem elemOffsets_pairwise (hpage : pages ≤ 1 ∨ perPage * len ≤ PGSIZE_2MB) :
    (elemOffsets perPage pages len).Pairwise fun o o' => o + len ≤ o' := by
  rw [elemOffsets, List.pairwise_flatMap]
  constructor
  · intro i _
    rw [List.pairwise_map]
    refine List.pairwise_lt_range.imp fun {j j'} hlt => ?_
    have hmul := Nat.mul_le_mul_right len (Nat.succ_le_of_lt hlt)
    rw [Nat.succ_mul] at hmul
    omega
  · refine List.Pairwise.imp_of_mem ?_ List.pairwise_lt_range
    intro i i' hi hi' hlt x hx y hy
    obtain ⟨j, hj, rfl⟩ := List.mem_map.mp hx
    obtain ⟨j', -, rfl⟩ := List.mem_map.mp hy
    have hj := List.mem_range.mp hj
    have hi' := List.mem_range.mp hi'
    have hmul := Nat.mul_le_mul_right len (Nat.succ_le_of_lt hj)
    rw [Nat.succ_mul] at hmul
    rcases hpage with hone | hpage
    · omega
    · simp only [PGSIZE_2MB] at hpage ⊢
      omega

theorem elemOffsets_inside (hbound : ∀ i < pages, i * PGSIZE_2MB + perPage * len ≤ bound)
    (h : o ∈ elemOffsets perPage pages len) : o + len ≤ bound := by
  obtain ⟨i, j, hi, -, rfl, hj⟩ := mem_elemOffsets h
  have hbound := hbound i hi
  omega

theorem elemOffsets_length (perPage pages len : Nat) :
    (elemOffsets perPage pages len).length = pages * perPage := by
  simp [elemOffsets, List.length_flatMap]

end Offsets

section Elements
variable {g : Geometry} {buf a : Addr} {len : Nat}

theorem mem_elems (hin : ∀ o ∈ elemOffsets g.elemsPerPage.toInt.toNat g.initPages.toInt.toNat
      g.elemLen.toNat, buf.toNat + o < 2 ^ 64) (h : a ∈ g.elems buf) :
    ∃ o ∈ elemOffsets g.elemsPerPage.toInt.toNat g.initPages.toInt.toNat g.elemLen.toNat,
      a.toNat = buf.toNat + o := by
  obtain ⟨o, ho, rfl⟩ := List.mem_map.mp h
  refine ⟨o, ho, ?_⟩
  have hlt := hin o ho
  rw [UInt64.toNat_add, UInt64.toNat_ofNat']
  omega

theorem Geometry.Fits.offsets_lt (h : g.Fits) (hroom : buf.toNat + g.size.toInt.toNat ≤ 2 ^ 64) :
    ∀ o ∈ elemOffsets g.elemsPerPage.toInt.toNat g.initPages.toInt.toNat g.elemLen.toNat,
      buf.toNat + o < 2 ^ 64 := by
  intro o ho
  have hin := elemOffsets_inside h.inside ho
  have hlen := h.len
  omega

theorem Geometry.Fits.elems_inside (h : g.Fits)
    (hroom : buf.toNat + g.size.toInt.toNat ≤ 2 ^ 64) (ha : a ∈ g.elems buf) :
    buf.toNat ≤ a.toNat ∧
      a.toNat + g.elemLen.toNat ≤ buf.toNat + g.size.toInt.toNat := by
  obtain ⟨o, ho, heq⟩ := mem_elems (h.offsets_lt hroom) ha
  have hin := elemOffsets_inside h.inside ho
  omega

theorem Geometry.Fits.elems_apart (h : g.Fits)
    (hroom : buf.toNat + g.size.toInt.toNat ≤ 2 ^ 64) :
    (g.elems buf).Pairwise (Apart g.elemLen.toNat) := by
  rw [Geometry.elems, elemAddrs, List.pairwise_map]
  refine (elemOffsets_pairwise h.page).imp_of_mem fun {o o'} ho ho' hlt => .inl ?_
  have hlo := h.offsets_lt hroom o ho
  have hlo' := h.offsets_lt hroom o' ho'
  rw [UInt64.toNat_add, UInt64.toNat_ofNat', UInt64.toNat_add, UInt64.toNat_ofNat']
  omega

/-- In pages that begin on a boundary, an element that fits its page ends before the next one. -/
theorem Geometry.Fits.elems_onePage (h : g.Fits)
    (hroom : buf.toNat + g.size.toInt.toNat ≤ 2 ^ 64)
    (hpage : g.elemsPerPage.toInt.toNat * g.elemLen.toNat ≤ PGSIZE_2MB)
    (halign : PGSIZE_2MB ∣ buf.toNat) (ha : a ∈ g.elems buf) :
    a.toNat / PGSIZE_2MB = (a.toNat + g.elemLen.toNat - 1) / PGSIZE_2MB := by
  obtain ⟨o, ho, heq⟩ := mem_elems (h.offsets_lt hroom) ha
  obtain ⟨i, j, -, -, rfl, hj⟩ := mem_elemOffsets ho
  obtain ⟨b, hb⟩ := halign
  have hlen := h.len
  simp only [PGSIZE_2MB] at hpage hb heq ⊢
  omega

end Elements

/-! ## The finished datastore -/

/-- `alloc_pages` gives blocks that begin on a multiple of their size. -/
def PagesAligned (allocPages : Nat → Option Addr) : Prop :=
  ∀ order buf, allocPages order = some buf → PGSIZE_4KB * 2 ^ order ∣ buf.toNat

def PagesZero (allocPages : Nat → Option Addr) (mem : Addr → MempoolHdr) : Prop :=
  ∀ order buf, allocPages order = some buf →
    ∀ a : Addr, buf.toNat ≤ a.toNat → a.toNat < buf.toNat + PGSIZE_4KB * 2 ^ order → mem a = {}

/-- The elements of the chunks, as ranges of `len` bytes. -/
structure LaidOut (mds : MempoolDatastore) (len : Nat) (nrElems nostraddle chunkSize : Int32)
    (chunks : List (List Addr)) : Prop where
  numChunks : (chunks.length : Int) = mds.numChunks.toInt
  sizes : ∀ c ∈ chunks, (c.length : Int) = chunkSize.toInt
  inside : ∀ a ∈ chunks.flatten, mds.buf.toNat ≤ a.toNat ∧
    a.toNat + len ≤ mds.buf.toNat + mds.nrPages.toInt.toNat * PGSIZE_2MB
  apart : chunks.flatten.Pairwise (Apart len)
  onePage : nostraddle ≠ 0 → ∀ a ∈ chunks.flatten,
    a.toNat / PGSIZE_2MB = (a.toNat + len - 1) / PGSIZE_2MB
  oneChunk : chunks.Pairwise List.Disjoint
  capacity : nrElems.toInt ≤ mds.numChunks.toInt * chunkSize.toInt

section Create
variable {allocPages : Nat → Option Addr} {mem : Addr → MempoolHdr} {mds : MempoolDatastore}
variable {nrElems nostraddle chunkSize : Int32} {elemLen : UInt64} {g : Geometry}
variable {buf self allDatastores : Addr} {cs : List (List Addr)} {part : List Addr} {k : Nat}

theorem initElem_record (st : InitState) (cur : Addr) :
    (initElem st cur).mds.buf = st.mds.buf ∧ (initElem st cur).mds.nrPages = st.mds.nrPages := by
  by_cases h : st.chunkCount + 1 = st.mds.chunkSize
  · simp only [initElem, h, if_true, and_self]
  · simp only [initElem, h, if_false, and_self]

theorem foldl_initElem_record (elems : List Addr) (st : InitState) :
    (elems.foldl initElem st).mds.buf = st.mds.buf ∧
      (elems.foldl initElem st).mds.nrPages = st.mds.nrPages := by
  induction elems generalizing st with
  | nil => exact ⟨rfl, rfl⟩
  | cons cur elems ih =>
    obtain ⟨hbuf, hpages⟩ := ih (initElem st cur)
    obtain ⟨hbuf', hpages'⟩ := initElem_record st cur
    exact ⟨hbuf.trans hbuf', hpages.trans hpages'⟩

/-- Rounding down to whole chunks keeps the number of elements that was asked for, since that
number is one of whole chunks itself. -/
theorem capacity_of_chunks (hshort : part.length < k) (hfull : ∀ c ∈ cs, c.length = k) {n : Nat}
    (hk : k ∣ n) (hn : n ≤ (cs.flatten ++ part).length) : n ≤ cs.length * k := by
  obtain ⟨m, rfl⟩ := hk
  rw [List.length_append, flatten_length hfull] at hn
  have hlt : k * m < k * (cs.length + 1) := by
    rw [Nat.mul_succ, Nat.mul_comm k cs.length]
    omega
  have hle : m ≤ cs.length := Nat.le_of_lt_succ (Nat.lt_of_mul_lt_mul_left hlt)
  rw [Nat.mul_comm]
  exact Nat.mul_le_mul_right k hle

theorem lastOf_mem {c : List Addr} (h : c ≠ []) : lastOf c ∈ c := by
  rcases List.eq_nil_or_concat c with rfl | ⟨xs, l, rfl⟩
  · exact absurd rfl h
  · rw [List.concat_eq_append, lastOf_snoc]
    simp

theorem Apart.symm {len : Nat} {a b : Addr} (h : Apart len a b) : Apart len b a := Or.symm h

theorem pairwise_apart_chunks {len : Nat} (h : (cs.flatten ++ part).Pairwise (Apart len)) :
    cs.reverse.flatten.Pairwise (Apart len) := by
  have hcs := (List.pairwise_append.mp h).1
  exact ((List.reverse_perm cs).flatten.pairwise_iff fun h => Apart.symm h).mpr hcs

theorem disjoint_chunks {len : Nat} (hlen : 0 < len)
    (h : cs.flatten.Pairwise (Apart len)) : cs.Pairwise List.Disjoint := by
  rw [List.pairwise_flatten] at h
  refine h.2.imp fun {c d} hcd a hc hd => ?_
  have happ := hcd a hc a hd
  unfold Apart at happ
  omega

theorem ArgsOk.dvd (h : ArgsOk nrElems elemLen nostraddle chunkSize) :
    chunkSize.toInt.toNat ∣ nrElems.toInt.toNat := by
  have hn := h.nrElems_pos
  have hc := h.chunkSize_pos
  have hlt : nrElems.toInt < 2 ^ 31 := nrElems.toInt_lt
  have hquot := toInt_div_of_nonneg hn.le hc
  have hmul := Int.ediv_mul_le nrElems.toInt (b := chunkSize.toInt) (by omega)
  have hnonneg : 0 ≤ nrElems.toInt / chunkSize.toInt * chunkSize.toInt :=
    Int.mul_nonneg (Int.ediv_nonneg hn.le hc.le) hc.le
  have hwhole := congrArg Int32.toInt h.whole
  rw [Int32.toInt_mul, hquot, Int.bmod_eq_of_le (by omega) (by omega)] at hwhole
  have hdvd : chunkSize.toInt ∣ nrElems.toInt := ⟨_, by rw [Int.mul_comm, hwhole]⟩
  exact Int.natCast_dvd_natCast.mp (by
    rwa [Int.toNat_of_nonneg hc.le, Int.toNat_of_nonneg hn.le])

theorem ArgsOk.create_eq (h : ArgsOk nrElems elemLen nostraddle chunkSize) (name : String)
    (hg : datastoreGeometry nrElems elemLen nostraddle = .ok g) :
    mempoolCreateDatastore allocPages self allDatastores mem {} nrElems elemLen nostraddle
      chunkSize name = .ok (fillDatastore allocPages self allDatastores mem
        { magic := MEMPOOL_MAGIC, prettyname := some name } nostraddle chunkSize g) := by
  have hmagic : ¬ ({} : MempoolDatastore).magic ≠ 0 := not_not.mpr rfl
  have hchunk : chunkSize ≠ 0 := by
    rintro rfl
    exact absurd h.chunkSize_pos (by decide)
  have hempty : ¬ (elemLen = 0 ∨ nrElems = 0) := by
    rintro (rfl | rfl)
    · exact absurd h.elemLen_ge (by decide)
    · exact absurd h.nrElems_pos (by decide)
  rw [mempoolCreateDatastore, if_neg hmagic, if_neg (not_not.mpr h.power), if_neg hchunk,
    if_neg (not_not.mpr h.whole), if_neg hempty, hg]
  rfl

/-- Two megabytes or more are answered by a block that begins on a 2 MB boundary. -/
theorem PagesAligned.dvd (h : PagesAligned allocPages) {size : Int32} (hsize : 0 ≤ size.toInt)
    (hlarge : PGSIZE_2MB ≤ size.toInt.toNat)
    (halloc : allocPages (getOrder size.toInt64.toUInt64) = some buf) :
    PGSIZE_2MB ∣ buf.toNat ∧
      size.toInt.toNat ≤ PGSIZE_4KB * 2 ^ getOrder size.toInt64.toUInt64 := by
  have hval := toUInt64_toNat hsize
  have hne : size.toInt64.toUInt64 ≠ 0 := by
    intro hzero
    rw [hzero, UInt64.toNat_zero] at hval
    simp only [PGSIZE_2MB] at hlarge
    omega
  have hle := getOrder_le hne
  rw [hval] at hle
  refine ⟨Nat.dvd_trans ?_ (h _ _ halloc), hle⟩
  generalize getOrder size.toInt64.toUInt64 = order at hle
  have horder : 9 ≤ order := by
    by_contra hlt
    have hpow : 2 ^ order ≤ 2 ^ 8 := Nat.pow_le_pow_right (by omega) (by omega)
    simp only [PGSIZE_4KB, PGSIZE_2MB] at hle hlarge
    omega
  obtain ⟨d, rfl⟩ := Nat.exists_eq_add_of_le horder
  exact ⟨2 ^ d, by rw [Nat.pow_add, ← Nat.mul_assoc]; rfl⟩

theorem ArgsOk.pages_pos (h : ArgsOk nrElems elemLen nostraddle chunkSize)
    (hg : g.Suits nrElems elemLen nostraddle) : 1 ≤ g.nrPages.toInt.toNat := by
  have hn := h.nrElems_pos
  have hlen := Nat.le_trans h.elemLen_ge (le_exactLen elemLen)
  have hmul : exactLen elemLen ≤ nrElems.toInt.toNat * exactLen elemLen :=
    Nat.le_mul_of_pos_left _ (by omega)
  rw [hg.nrPages, Int.toNat_natCast, exactPages]
  split
  · have hpos : 0 < elemsIn (exactLen elemLen) :=
      elemsIn_pos_iff.mpr ⟨by omega, h.page ‹_›⟩
    exact (Nat.one_le_div_iff hpos).mpr (by omega)
  · simp only [PGMASK_2MB, PGSIZE_2MB]
    omega

theorem fillDatastore_none (halloc : allocPages (getOrder g.size.toInt64.toUInt64) = none) :
    fillDatastore allocPages self allDatastores mem mds nostraddle chunkSize g =
      ⟨-ENOMEM, mem, mds, allDatastores⟩ := by
  rw [fillDatastore, halloc]

theorem fillDatastore_some (halloc : allocPages (getOrder g.size.toInt64.toUInt64) = some buf)
    {st : InitState} (hst : st = mempoolInitBufWithPages mem
      (mds.describe g buf nostraddle chunkSize) g.elemsPerPage g.initPages g.elemLen) :
    fillDatastore allocPages self allDatastores mem mds nostraddle chunkSize g =
      ⟨0, st.mem, { st.mds with nextDs := allDatastores }, self⟩ := by
  rw [fillDatastore, halloc, hst]

/-- The loop writes neither the address nor the number of the pages. -/
theorem initBuf_record (mem : Addr → MempoolHdr) (mds : MempoolDatastore)
    (elemsPerPage pages : Int32) (elemLen : UInt64) {st : InitState}
    (hst : st = mempoolInitBufWithPages mem mds elemsPerPage pages elemLen) :
    st.mds.buf = mds.buf ∧ st.mds.nrPages = mds.nrPages := by
  rw [hst, mempoolInitBufWithPages_eq_foldl]
  exact foldl_initElem_record _ _

/-- In zeroed elements the links that the loop does not write are NULL. -/
theorem ends_of_clear (hclear : ∀ a ∈ cs.flatten, mem a = {}) (hne : ∀ c ∈ cs, c ≠ []) :
    (∀ c ∈ cs, (mem (lastOf c)).next = NULL) ∧ listEnd mem cs = NULL := by
  constructor
  · intro c hc
    rw [hclear _ (List.mem_flatten.mpr ⟨c, hc, lastOf_mem (hne c hc)⟩)]
  · cases cs with
    | nil => rfl
    | cons c cs =>
      have hfirst : firstOf c ∈ (c :: cs).flatten :=
        List.mem_flatten.mpr ⟨c, List.mem_cons_self, firstOf_mem (hne c List.mem_cons_self)⟩
      rw [listEnd, hclear _ hfirst]

/-- Where the chunks lie that the loop has cut from the elements of the pages. -/
theorem ArgsOk.laidOut (hargs : ArgsOk nrElems elemLen nostraddle chunkSize)
    (hsuits : g.Suits nrElems elemLen nostraddle) (hfits : g.Fits)
    (hroom : buf.toNat + g.size.toInt.toNat ≤ 2 ^ 64) (hboundary : PGSIZE_2MB ∣ buf.toNat)
    (hbuf : mds.buf = buf) (hpages : mds.nrPages = g.nrPages)
    (hlist : cs.flatten ++ part = g.elems buf)
    (hcount : (cs.length : Int) = mds.numChunks.toInt)
    (hfull : ∀ c ∈ cs, c.length = chunkSize.toInt.toNat)
    (hshort : part.length < chunkSize.toInt.toNat) :
    LaidOut mds (exactLen elemLen) nrElems nostraddle chunkSize cs.reverse := by
  have hchunk := hargs.chunkSize_pos
  have hmem : ∀ a ∈ cs.reverse.flatten, a ∈ g.elems buf := by
    intro a ha
    obtain ⟨c, hc, hac⟩ := List.mem_flatten.mp ha
    rw [← hlist]
    exact List.mem_append_left _ (List.mem_flatten.mpr ⟨c, List.mem_reverse.mp hc, hac⟩)
  have happart := hfits.elems_apart hroom
  rw [← hlist, hsuits.len] at happart
  have hreverse := pairwise_apart_chunks happart
  have hlen : 0 < exactLen elemLen := by
    have := Nat.le_trans hargs.elemLen_ge (le_exactLen elemLen)
    omega
  constructor
  · rw [List.length_reverse]
    exact hcount
  · intro c hc
    rw [hfull c (List.mem_reverse.mp hc), Int.toNat_of_nonneg hchunk.le]
  · intro a ha
    have hin := hfits.elems_inside hroom (hmem a ha)
    rwa [hsuits.len, hsuits.size, ← hpages, ← hbuf] at hin
  · exact hreverse
  · intro hno a ha
    have hpage := hsuits.onePage hno
    rw [← hsuits.len] at hpage ⊢
    exact hfits.elems_onePage hroom hpage hboundary (hmem a ha)
  · exact disjoint_chunks hlen hreverse
  · have hlength : nrElems.toInt.toNat ≤ (cs.flatten ++ part).length := by
      have henough := hsuits.enough
      rw [← elemOffsets_length _ _ g.elemLen.toNat] at henough
      rw [hlist, Geometry.elems, elemAddrs, List.length_map]
      exact henough
    have hcap : nrElems.toInt.toNat ≤ cs.length * chunkSize.toInt.toNat :=
      capacity_of_chunks hshort hfull hargs.dvd hlength
    have hsize : (cs.length * chunkSize.toInt.toNat : Nat) =
        mds.numChunks.toInt * chunkSize.toInt := by
      rw [← hcount, Int.natCast_mul, Int.toNat_of_nonneg hchunk.le]
    have hpos := hargs.nrElems_pos
    rw [← hsize]
    omega

/-- The loop over zeroed pages, for a record with no chunks yet. -/
theorem ArgsOk.initBuf_laidOut (hargs : ArgsOk nrElems elemLen nostraddle chunkSize)
    (hsuits : g.Suits nrElems elemLen nostraddle) (hfits : g.Fits) (hbuf : buf ≠ NULL)
    (hroom : buf.toNat + g.size.toInt.toNat ≤ 2 ^ 64) (hboundary : PGSIZE_2MB ∣ buf.toNat)
    (hclear : ∀ a ∈ g.elems buf, mem a = {}) (hhead : mds.chunkHead = NULL)
    (hnum : mds.numChunks = 0) (hfree : mds.freeChunks = 0) {st : InitState}
    (hst : st = mempoolInitBufWithPages mem (mds.describe g buf nostraddle chunkSize)
      g.elemsPerPage g.initPages g.elemLen) :
    ∃ chunks,
      Chunked (fun a => (st.mem a).next) (fun a => (st.mem a).nextChunk) NULL st.mds.chunkHead
        chunks ∧
      LaidOut st.mds (exactLen elemLen) nrElems nostraddle chunkSize chunks := by
  obtain ⟨cs, part, hbuilt, hlist, hcount, hfull, hshort⟩ :=
    initBuf_built mem (mds.describe g buf nostraddle chunkSize) hfits hbuf hroom rfl
      hargs.chunkSize_pos hhead hnum hfree
  obtain ⟨hstbuf, hstpages⟩ := initBuf_record _ _ _ _ _ hst
  rw [← hst] at hbuilt hcount
  have hmem : ∀ a ∈ cs.flatten, a ∈ g.elems buf := fun a ha =>
    hlist ▸ List.mem_append_left part ha
  have hnull : NULL ∉ cs.flatten := fun h => (hfits.elems_ok hbuf hroom).2.1 (hmem NULL h)
  obtain ⟨hends, hend⟩ := ends_of_clear (fun a ha => hclear a (hmem a ha))
    fun c hc => hbuilt.chunk_ne_nil hc
  exact ⟨cs.reverse, hbuilt.chunked hnull hends hend,
    hargs.laidOut hsuits hfits hroom hboundary hstbuf hstpages hlist hcount hfull hshort⟩

/-- The elements of a new datastore. -/
theorem created_elements (hpages : PagesOk allocPages) (haligned : PagesAligned allocPages)
    (hzero : PagesZero allocPages mem) (hargs : ArgsOk nrElems elemLen nostraddle chunkSize)
    (self allDatastores : Addr) (name : String) :
    ∃ r, mempoolCreateDatastore allocPages self allDatastores mem {} nrElems elemLen nostraddle
        chunkSize name = .ok r ∧
      (r.ret = 0 → ∃ chunks,
        Chunked (fun a => (r.mem a).next) (fun a => (r.mem a).nextChunk) NULL r.mds.chunkHead
          chunks ∧
        LaidOut r.mds (exactLen elemLen) nrElems nostraddle chunkSize chunks) := by
  obtain ⟨g, hg, hsuits⟩ := hargs.geometry
  refine ⟨_, hargs.create_eq name hg, ?_⟩
  cases halloc : allocPages (getOrder g.size.toInt64.toUInt64) with
  | none =>
    intro hret
    rw [fillDatastore_none halloc] at hret
    exact absurd (show (-ENOMEM : Int) = 0 from hret) (by decide)
  | some buf =>
    intro _
    obtain ⟨hbuf, hnonneg, hroom⟩ := hpages.hold halloc
    have hfits := datastoreGeometry_fits hargs.elemLen_ge hg hnonneg
    have hlarge : PGSIZE_2MB ≤ g.size.toInt.toNat := by
      rw [hsuits.size]
      exact Nat.le_mul_of_pos_left _ (hargs.pages_pos hsuits)
    obtain ⟨hboundary, hblock⟩ := haligned.dvd hnonneg hlarge halloc
    have hclear : ∀ a ∈ g.elems buf, mem a = {} := by
      intro a ha
      obtain ⟨hlo, hhi⟩ := hfits.elems_inside hroom ha
      have hlen := hfits.len
      exact hzero _ _ halloc a hlo (by omega)
    have hnew : ({ magic := MEMPOOL_MAGIC, prettyname := some name } :
        MempoolDatastore).chunkHead = NULL := rfl
    obtain ⟨chunks, hchunked, hlaid⟩ := hargs.initBuf_laidOut hsuits hfits hbuf hroom hboundary
      hclear hnew rfl rfl rfl
    rw [fillDatastore_some halloc rfl]
    exact ⟨chunks, hchunked, hlaid.numChunks, hlaid.sizes, hlaid.inside, hlaid.apart,
      hlaid.onePage, hlaid.oneChunk, hlaid.capacity⟩

end Create

theorem onePage_aligned : PagesAligned onePage := by
  intro order buf h
  unfold onePage at h
  split at h
  · rename_i horder
    obtain rfl := Option.some.inj h
    rw [horder]
    decide
  · cases h

theorem createTwo_args : ArgsOk 2 0x100000 1 2 where
  nrElems_pos := by decide
  elemLen_ge := by decide
  chunkSize_pos := by decide
  power := by decide
  whole := by decide
  page := fun _ => by decide
  pages := by decide

theorem created_elements_two :
    ∃ r, createTwo (fun _ => {}) = .ok r ∧ r.ret = 0 ∧ ∃ chunks,
      Chunked (fun a => (r.mem a).next) (fun a => (r.mem a).nextChunk) NULL r.mds.chunkHead
        chunks ∧
      LaidOut r.mds (exactLen 0x100000) 2 1 2 chunks := by
  have hzero : PagesZero onePage (fun _ => {}) := fun _ _ _ _ _ _ => rfl
  obtain ⟨r, hr, h⟩ := created_elements onePage_ok onePage_aligned hzero createTwo_args 8 NULL
    "mbuf"
  have hret : r.ret = 0 := by
    have heq := Except.ok.inj (hr.symm.trans (createTwo_eq _))
    rw [heq, fillDatastore_some twoElems_order rfl]
  exact ⟨r, hr, hret, h hret⟩

end ThletEvaluation.Shinjuku
