import ThletEvaluation.Shinjuku.DatastoreEnds

/-!
# The arithmetic of `mempool_create_datastore`

The call once more, with every `int` operation, every division and every assignment of a
`size_t` to an `int` watched. What the watched call returns is what the call returns, and it
says for which arguments nothing is lost on the way.
-/

namespace ThletEvaluation.Shinjuku

open Checks

set_option autoImplicit false

inductive Hazard where
  | divideByZero
  | overflow
  | truncation
  deriving DecidableEq

/-- The result of an `int` operation. -/
def intOp (x : Int) : Except Hazard Int32 :=
  if (Int32.ofInt x).toInt = x then .ok (Int32.ofInt x) else .error .overflow

/-- The assignment of a `size_t` to an `int`. -/
def exactInt (x : UInt64) : Except Hazard Int32 :=
  if (sizeToInt x).toInt = x.toNat then .ok (sizeToInt x) else .error .truncation

def checkedNostraddle (nrElems : Int32) (elemLen : UInt64) : Except Hazard Geometry :=
  exactInt (UInt64.ofNat PGSIZE_2MB / elemLen) >>= fun perPage =>
  intOp (nrElems.toInt + perPage.toInt) >>= fun sum =>
  intOp (sum.toInt - 1) >>= fun last =>
  if perPage = 0 then .error .divideByZero
  else intOp ((last / perPage).toInt * PGSIZE_2MB) >>= fun size =>
    .ok {
      elemLen := elemLen
      nrPages := last / perPage
      nrElems := nrElems
      size := size
      elemsPerPage := perPage
      initPages := last / perPage }

def checkedStraddle (nrElems : Int32) (elemLen : UInt64) : Except Hazard Geometry :=
  exactInt ((nrElems.toInt64.toUInt64 * elemLen + UInt64.ofNat PGMASK_2MB) >>>
    UInt64.ofNat PGSHIFT_2MB) >>= fun nrPages =>
  intOp (nrPages.toInt * PGSIZE_2MB) >>= fun size =>
  exactInt (size.toInt64.toUInt64 / elemLen) >>= fun elems =>
  .ok {
    elemLen := elemLen
    nrPages := nrPages
    nrElems := elems
    size := size
    elemsPerPage := elems
    initPages := 1 }

def checkedGeometry (nrElems : Int32) (elemLen : UInt64) (nostraddle : Int32) :
    Except Hazard Geometry :=
  if alignLong elemLen = 0 then .error .divideByZero
  else if nostraddle ≠ 0 then checkedNostraddle nrElems (alignLong elemLen)
  else checkedStraddle nrElems (alignLong elemLen)

def checkedElem (st : InitState) (cur : Addr) : Except Hazard InitState :=
  intOp (st.chunkCount.toInt + 1) >>= fun count =>
  if count = st.mds.chunkSize then
    intOp (st.mds.numChunks.toInt + 1) >>= fun _ =>
    intOp (st.mds.freeChunks.toInt + 1) >>= fun _ => .ok (initElem st cur)
  else .ok (initElem st cur)

/-- The counter `j` stays below `elems_per_page`, which is an `int`. -/
def checkedPage (elemLen : UInt64) : Nat → Addr → InitState → Except Hazard InitState
  | 0, _, st => .ok st
  | j + 1, cur, st => checkedElem st cur >>= fun st' => checkedPage elemLen j (cur + elemLen) st'

def checkedPages (buf : Addr) (elemsPerPage : Nat) (elemLen : UInt64) :
    Nat → Nat → InitState → Except Hazard InitState
  | 0, _, st => .ok st
  | n + 1, i, st =>
    intOp ((i * PGSIZE_2MB : Nat) : Int) >>= fun _ =>
    checkedPage elemLen elemsPerPage (buf + UInt64.ofNat (i * PGSIZE_2MB)) st >>= fun st' =>
    checkedPages buf elemsPerPage elemLen n (i + 1) st'

def checkedInit (mem : Addr → MempoolHdr) (mds : MempoolDatastore) (elemsPerPage nrPages : Int32)
    (elemLen : UInt64) : Except Hazard InitState :=
  checkedPages mds.buf elemsPerPage.toInt.toNat elemLen nrPages.toInt.toNat 0
    ⟨mem, mds, NULL, NULL, 0⟩

def checkedFill (allocPages : Nat → Option Addr) (self allDatastores : Addr)
    (mem : Addr → MempoolHdr) (mds : MempoolDatastore) (nostraddle chunkSize : Int32)
    (g : Geometry) : Except Hazard CreateResult :=
  match allocPages (getOrder g.size.toInt64.toUInt64) with
  | none => .ok ⟨-ENOMEM, mem, mds, allDatastores⟩
  | some buf =>
    checkedInit mem (mds.describe g buf nostraddle chunkSize) g.elemsPerPage g.initPages
      g.elemLen >>= fun st =>
    .ok ⟨0, st.mem, { st.mds with nextDs := allDatastores }, self⟩

/-- The call for a zeroed datastore; without a result it has stopped at a `BUG_ON`. -/
def checkedCreate (allocPages : Nat → Option Addr) (self allDatastores : Addr)
    (mem : Addr → MempoolHdr) (nrElems : Int32) (elemLen : UInt64)
    (nostraddle chunkSize : Int32) (name : String) : Except Hazard (Option CreateResult) :=
  intOp (chunkSize.toInt - 1) >>= fun mask =>
  if chunkSize &&& mask ≠ 0 then .ok none
  else if chunkSize = 0 then .error .divideByZero
  else intOp ((nrElems / chunkSize).toInt * chunkSize.toInt) >>= fun whole =>
    if whole ≠ nrElems then .ok none
    else if elemLen = 0 ∨ nrElems = 0 then .ok (some ⟨-EINVAL, mem, {}, allDatastores⟩)
    else checkedGeometry nrElems elemLen nostraddle >>= fun g =>
      checkedFill allocPages self allDatastores mem
        { magic := MEMPOOL_MAGIC, prettyname := some name } nostraddle chunkSize g >>= fun r =>
      .ok (some r)

section Operations
variable {β : Type} {x : Int} {y : UInt64} {r : β}

theorem intOp_bind {f : Int32 → Except Hazard β} (h : intOp x >>= f = .ok r) :
    ∃ n : Int32, n.toInt = x ∧ f n = .ok r := by
  by_cases hx : (Int32.ofInt x).toInt = x
  · rw [intOp, if_pos hx] at h
    exact ⟨_, hx, h⟩
  · rw [intOp, if_neg hx] at h
    cases h

theorem exactInt_bind {f : Int32 → Except Hazard β} (h : exactInt y >>= f = .ok r) :
    ∃ n : Int32, n = sizeToInt y ∧ n.toInt = y.toNat ∧ f n = .ok r := by
  by_cases hy : (sizeToInt y).toInt = y.toNat
  · rw [exactInt, if_pos hy] at h
    exact ⟨_, rfl, hy, h⟩
  · rw [exactInt, if_neg hy] at h
    cases h

theorem intOp_of_lt (hlo : -2 ^ 31 ≤ x) (hhi : x < 2 ^ 31) :
    ∃ n : Int32, n.toInt = x ∧ intOp x = .ok n := by
  have hx := Int32.toInt_ofInt_of_le hlo hhi
  exact ⟨Int32.ofInt x, hx, by rw [intOp, if_pos hx]⟩

theorem exactInt_of_lt (hy : y.toNat < 2 ^ 31) :
    ∃ n : Int32, n.toInt = y.toNat ∧ exactInt y = .ok n := by
  have hval := sizeToInt_toInt hy
  exact ⟨sizeToInt y, hval, by rw [exactInt, if_pos hval]⟩

end Operations

/-! ## The sizes -/

def elemsIn (len : Nat) : Nat := PGSIZE_2MB / len

/-- `DIV_ROUND_UP(nr_elems, elems_per_page)`. -/
def nostraddlePages (n len : Nat) : Nat := (n + elemsIn len - 1) / elemsIn len

/-- `PGN_2MB(nr_elems * elem_len + PGMASK_2MB)`, as a `size_t`. -/
def straddlePages (n len : Nat) : Nat := (n * len + PGMASK_2MB) % 2 ^ 64 / PGSIZE_2MB

/-- The numbers behind a geometry. -/
structure Geometry.Is (g : Geometry) (len pages perPage loopPages : Nat) : Prop where
  elemLen : g.elemLen.toNat = len
  nrPages : g.nrPages.toInt = pages
  size : g.size.toInt = pages * PGSIZE_2MB
  elemsPerPage : g.elemsPerPage.toInt = perPage
  initPages : g.initPages.toInt = loopPages

section Sizes
variable {n : Int32} {len : UInt64} {g : Geometry}

theorem toInt_div_of_nonneg {a b : Int32} (ha : 0 ≤ a.toInt) (hb : 0 < b.toInt) :
    (a / b).toInt = a.toInt / b.toInt := by
  have hne : b ≠ -1 := by
    rintro rfl
    exact absurd hb (by decide)
  rw [Int32.toInt_div_of_ne_right _ _ hne, Int.tdiv_eq_ediv_of_nonneg ha]

theorem pageQuotient (len : UInt64) :
    (UInt64.ofNat PGSIZE_2MB / len).toNat = elemsIn len.toNat := by
  rw [UInt64.toNat_div, twoMB_toNat, elemsIn]

theorem elemsIn_pos_iff {len : Nat} : 0 < elemsIn len ↔ 0 < len ∧ len ≤ PGSIZE_2MB := by
  unfold elemsIn
  rw [Nat.div_pos_iff]

theorem nostraddleQuotient {last perPage : Int32} (hn : 0 < n.toInt) (len : UInt64)
    (hpos : 0 < elemsIn len.toNat) (hper : perPage.toInt = elemsIn len.toNat)
    (hlast : last.toInt = n.toInt + elemsIn len.toNat - 1) :
    (last / perPage).toInt = (nostraddlePages n.toInt.toNat len.toNat : Int) := by
  rw [toInt_div_of_nonneg (by omega) (by omega), hlast, hper, nostraddlePages, Int.natCast_ediv]
  congr 1
  omega

/-- What the watched branch has found out when it returns. -/
theorem checkedNostraddle_ok (hn : 0 < n.toInt) (h : checkedNostraddle n len = .ok g) :
    0 < elemsIn len.toNat ∧ nostraddlePages n.toInt.toNat len.toNat < 1024 ∧
      g.Is len.toNat (nostraddlePages n.toInt.toNat len.toNat) (elemsIn len.toNat)
        (nostraddlePages n.toInt.toNat len.toNat) := by
  obtain ⟨perPage, -, hper, h⟩ := exactInt_bind h
  obtain ⟨sum, hsum, h⟩ := intOp_bind h
  obtain ⟨last, hlast, h⟩ := intOp_bind h
  rw [pageQuotient] at hper
  by_cases hzero : perPage = 0
  · rw [if_pos hzero] at h
    cases h
  · rw [if_neg hzero] at h
    obtain ⟨size, hsize, h⟩ := intOp_bind h
    obtain rfl := Except.ok.inj h
    have hpos : 0 < elemsIn len.toNat := by
      apply Nat.pos_of_ne_zero
      intro hz
      rw [hz] at hper
      exact hzero (Int32.toInt_inj.mp hper)
    have hlast' : last.toInt = n.toInt + elemsIn len.toNat - 1 := by omega
    have hquot := nostraddleQuotient hn len hpos hper hlast'
    rw [hquot] at hsize
    have hlt : size.toInt < 2 ^ 31 := size.toInt_lt
    refine ⟨hpos, ?_, rfl, hquot, hsize, hper, hquot⟩
    simp only [PGSIZE_2MB] at hsize
    omega

theorem elemsIn_le_of_len {len : Nat} (hlen : 8 ≤ len) : elemsIn len ≤ 262144 := by
  unfold elemsIn
  calc PGSIZE_2MB / len ≤ PGSIZE_2MB / 8 := Nat.div_le_div_left hlen (by omega)
    _ = 262144 := rfl

theorem checkedNostraddle_of_lt (hn : 0 < n.toInt) (hlen : 8 ≤ len.toNat)
    (hpos : 0 < elemsIn len.toNat)
    (hpages : nostraddlePages n.toInt.toNat len.toNat < 1024) :
    ∃ g, checkedNostraddle n len = .ok g := by
  have hsmall := elemsIn_le_of_len hlen
  -- Fewer than 1024 pages hold the elements, so there are not many.
  have hn' : n.toInt.toNat ≤ 1024 * elemsIn len.toNat := by
    have hdiv := (Nat.div_lt_iff_lt_mul hpos).mp hpages
    omega
  obtain ⟨perPage, hper, heq⟩ := exactInt_of_lt (y := UInt64.ofNat PGSIZE_2MB / len)
    (by rw [pageQuotient]; omega)
  rw [pageQuotient] at hper
  obtain ⟨sum, hsum, heq₁⟩ := intOp_of_lt (x := n.toInt + perPage.toInt) (by omega) (by omega)
  obtain ⟨last, hlast, heq₂⟩ := intOp_of_lt (x := sum.toInt - 1) (by omega) (by omega)
  have hlast' : last.toInt = n.toInt + elemsIn len.toNat - 1 := by omega
  have hquot := nostraddleQuotient hn len hpos hper hlast'
  obtain ⟨size, -, heq₃⟩ := intOp_of_lt (x := (last / perPage).toInt * PGSIZE_2MB)
    (by rw [hquot, PGSIZE_2MB]; omega) (by rw [hquot, PGSIZE_2MB]; omega)
  have hne : perPage ≠ 0 := by
    rintro rfl
    rw [show (0 : Int32).toInt = 0 from rfl] at hper
    omega
  rw [checkedNostraddle, bind_of_ok heq, bind_of_ok heq₁, bind_of_ok heq₂, if_neg hne,
    bind_of_ok heq₃]
  exact ⟨_, rfl⟩

theorem straddleQuotient (hn : 0 ≤ n.toInt) (len : UInt64) :
    ((n.toInt64.toUInt64 * len + UInt64.ofNat PGMASK_2MB) >>> UInt64.ofNat PGSHIFT_2MB).toNat =
      straddlePages n.toInt.toNat len.toNat := by
  rw [UInt64.toNat_shiftRight, UInt64.toNat_add, UInt64.toNat_mul, toUInt64_toNat hn,
    Nat.shiftRight_eq_div_pow, straddlePages]
  simp only [UInt64.toNat_ofNat', PGMASK_2MB, PGSHIFT_2MB, PGSIZE_2MB, Nat.reducePow,
    Nat.reduceMod, Nat.mod_add_mod]

theorem elemsQuotient {size : Int32} {pages : Nat} (hsize : size.toInt = pages * PGSIZE_2MB)
    (len : UInt64) :
    (size.toInt64.toUInt64 / len).toNat = pages * PGSIZE_2MB / len.toNat := by
  simp only [PGSIZE_2MB] at hsize ⊢
  rw [UInt64.toNat_div, toUInt64_toNat (by omega)]
  congr 1
  omega

theorem checkedStraddle_ok (hn : 0 < n.toInt) (h : checkedStraddle n len = .ok g) :
    straddlePages n.toInt.toNat len.toNat < 1024 ∧
      g.Is len.toNat (straddlePages n.toInt.toNat len.toNat)
        (straddlePages n.toInt.toNat len.toNat * PGSIZE_2MB / len.toNat) 1 := by
  obtain ⟨nrPages, -, hpages, h⟩ := exactInt_bind h
  obtain ⟨size, hsize, h⟩ := intOp_bind h
  obtain ⟨elems, -, helems, h⟩ := exactInt_bind h
  obtain rfl := Except.ok.inj h
  rw [straddleQuotient hn.le] at hpages
  rw [hpages] at hsize
  rw [elemsQuotient hsize] at helems
  have hlt : size.toInt < 2 ^ 31 := size.toInt_lt
  refine ⟨?_, rfl, hpages, hsize, helems, rfl⟩
  simp only [PGSIZE_2MB] at hsize
  omega

theorem checkedStraddle_of_lt (hn : 0 < n.toInt)
    (hpages : straddlePages n.toInt.toNat len.toNat < 1024) :
    ∃ g, checkedStraddle n len = .ok g := by
  obtain ⟨nrPages, hval, heq⟩ := exactInt_of_lt
    (y := (n.toInt64.toUInt64 * len + UInt64.ofNat PGMASK_2MB) >>> UInt64.ofNat PGSHIFT_2MB)
    (by rw [straddleQuotient hn.le]; omega)
  rw [straddleQuotient hn.le] at hval
  obtain ⟨size, hsize, heq₁⟩ := intOp_of_lt (x := nrPages.toInt * PGSIZE_2MB)
    (by rw [hval, PGSIZE_2MB]; omega) (by rw [hval, PGSIZE_2MB]; omega)
  rw [hval] at hsize
  obtain ⟨elems, -, heq₂⟩ := exactInt_of_lt (y := size.toInt64.toUInt64 / len) (by
    rw [elemsQuotient hsize]
    refine Nat.lt_of_le_of_lt (Nat.div_le_self _ _) ?_
    simp only [PGSIZE_2MB]
    omega)
  rw [checkedStraddle, bind_of_ok heq, bind_of_ok heq₁, bind_of_ok heq₂]
  exact ⟨_, rfl⟩

theorem alignLong_toNat (x : UInt64) : (alignLong x).toNat = (x.toNat + 7) % 2 ^ 64 / 8 * 8 := by
  rw [alignLong, and_not_seven, UInt64.toNat_add]
  rfl

theorem alignLong_ge {x : UInt64} (h : alignLong x ≠ 0) : 8 ≤ (alignLong x).toNat := by
  have hpos : (alignLong x).toNat ≠ 0 := fun hz => h (UInt64.toNat_inj.mp hz)
  have hval := alignLong_toNat x
  omega

end Sizes

/-- The sizes that the call can compute: less than 2 GB, in elements of at most a page unless
they may straddle the pages. -/
def SizesHold (nrElems : Int32) (elemLen : UInt64) (nostraddle : Int32) : Prop :=
  alignLong elemLen ≠ 0 ∧
  (nostraddle ≠ 0 → (alignLong elemLen).toNat ≤ PGSIZE_2MB ∧
    nostraddlePages nrElems.toInt.toNat (alignLong elemLen).toNat < 1024) ∧
  (nostraddle = 0 → straddlePages nrElems.toInt.toNat (alignLong elemLen).toNat < 1024)

section Geometry
variable {n nostraddle : Int32} {elemLen : UInt64} {g : Geometry}

theorem checkedGeometry_ok_iff (hn : 0 < n.toInt) :
    (∃ g, checkedGeometry n elemLen nostraddle = .ok g) ↔ SizesHold n elemLen nostraddle := by
  by_cases hzero : alignLong elemLen = 0
  · constructor
    · rintro ⟨g, h⟩
      rw [checkedGeometry, if_pos hzero] at h
      cases h
    · rintro ⟨h, -⟩
      exact absurd hzero h
  · have hlen := alignLong_ge hzero
    by_cases hno : nostraddle = 0
    · rw [checkedGeometry, if_neg hzero, if_neg (not_not.mpr hno)]
      constructor
      · rintro ⟨g, h⟩
        exact ⟨hzero, fun hne => absurd hno hne, fun _ => (checkedStraddle_ok hn h).1⟩
      · rintro ⟨-, -, h⟩
        exact checkedStraddle_of_lt hn (h hno)
    · rw [checkedGeometry, if_neg hzero, if_pos hno]
      constructor
      · rintro ⟨g, h⟩
        obtain ⟨hpos, hpages, -⟩ := checkedNostraddle_ok hn h
        exact ⟨hzero, fun _ => ⟨(elemsIn_pos_iff.mp hpos).2, hpages⟩, fun he => absurd he hno⟩
      · rintro ⟨-, h, -⟩
        obtain ⟨hle, hpages⟩ := h hno
        exact checkedNostraddle_of_lt hn hlen (elemsIn_pos_iff.mpr ⟨by omega, hle⟩) hpages

theorem asInt_toInt (n : Int32) : asInt n.toInt = .ok n := by
  have hn : Int32.ofInt n.toInt = n := Int32.ofInt_toInt n
  rw [asInt, hn, if_pos rfl]

theorem checkedNostraddle_geometry {len : UInt64} (h : checkedNostraddle n len = .ok g) :
    nostraddleGeometry n len = .ok g := by
  obtain ⟨perPage, hdef, -, h⟩ := exactInt_bind h
  obtain ⟨sum, hsum, h⟩ := intOp_bind h
  obtain ⟨last, hlast, h⟩ := intOp_bind h
  obtain rfl : perPage = elemsPerPage len := hdef
  have hlast' : sum - 1 = last := by
    apply Int32.toInt_inj.mp
    rw [toInt_pred (by have := last.le_toInt; omega), hlast]
  rw [nostraddleGeometry, ← hsum, bind_of_ok (asInt_toInt sum), hlast']
  by_cases hzero : elemsPerPage len = 0
  · rw [if_pos hzero] at h
    cases h
  · rw [if_neg hzero] at h ⊢
    obtain ⟨size, hsize, h⟩ := intOp_bind h
    rw [← hsize, bind_of_ok (asInt_toInt size), ← Except.ok.inj h]

theorem checkedStraddle_geometry {len : UInt64} (h : checkedStraddle n len = .ok g) :
    straddleGeometry n len = .ok g := by
  obtain ⟨nrPages, hpages, -, h⟩ := exactInt_bind h
  obtain ⟨size, hsize, h⟩ := intOp_bind h
  obtain ⟨elems, helems, -, h⟩ := exactInt_bind h
  obtain rfl : nrPages = pagesOfElems n len := hpages
  rw [straddleGeometry, ← hsize, bind_of_ok (asInt_toInt size), ← Except.ok.inj h, helems]

/-- The watched sizes are those of the call. -/
theorem checkedGeometry_geometry (h : checkedGeometry n elemLen nostraddle = .ok g) :
    datastoreGeometry n elemLen nostraddle = .ok g := by
  by_cases hzero : alignLong elemLen = 0
  · rw [checkedGeometry, if_pos hzero] at h
    cases h
  · by_cases hno : nostraddle = 0
    · rw [checkedGeometry, if_neg hzero, if_neg (not_not.mpr hno)] at h
      rw [datastoreGeometry, if_neg hzero, if_neg (not_not.mpr hno)]
      exact checkedStraddle_geometry h
    · rw [checkedGeometry, if_neg hzero, if_pos hno] at h
      rw [datastoreGeometry, if_neg hzero, if_pos hno]
      exact checkedNostraddle_geometry h

end Geometry

/-! ## The loop -/

section Loop
variable {st : InitState} {cur buf : Addr} {elemLen : UInt64} {perPage : Nat}

/-- The counters of the loop after `m` elements. -/
structure Counts (size : Int32) (m : Nat) (st : InitState) : Prop where
  chunkSize : st.mds.chunkSize = size
  count_nonneg : 0 ≤ st.chunkCount.toInt
  count_lt : st.chunkCount.toInt < size.toInt
  numChunks_nonneg : 0 ≤ st.mds.numChunks.toInt
  numChunks_le : st.mds.numChunks.toInt ≤ m
  freeChunks_nonneg : 0 ≤ st.mds.freeChunks.toInt
  freeChunks_le : st.mds.freeChunks.toInt ≤ m

theorem toInt_succ_of_lt {k : Int32} (h : k.toInt + 1 < 2 ^ 31) :
    (k + 1).toInt = k.toInt + 1 := by
  have hle := k.le_toInt
  rw [Int32.toInt_add, show (1 : Int32).toInt = 1 from rfl, Int.bmod_eq_of_le (by omega) (by omega)]

theorem initElem_full (cur : Addr) (h : st.chunkCount + 1 = st.mds.chunkSize) :
    (initElem st cur).chunkCount = 0 ∧
    (initElem st cur).mds.chunkSize = st.mds.chunkSize ∧
    (initElem st cur).mds.numChunks = st.mds.numChunks + 1 ∧
    (initElem st cur).mds.freeChunks = st.mds.freeChunks + 1 := by
  simp only [initElem, h, if_true, and_self]

theorem initElem_part (cur : Addr) (h : st.chunkCount + 1 ≠ st.mds.chunkSize) :
    (initElem st cur).chunkCount = st.chunkCount + 1 ∧ (initElem st cur).mds = st.mds := by
  simp only [initElem, h, if_false, and_self]

theorem Counts.step {size : Int32} {m : Nat} (h : Counts size m st) (hm : m + 1 < 2 ^ 31)
    (cur : Addr) :
    checkedElem st cur = .ok (initElem st cur) ∧ Counts size (m + 1) (initElem st cur) := by
  obtain ⟨hsize, hc, hclt, hn, hnle, hf, hfle⟩ := h
  have hlt : size.toInt < 2 ^ 31 := size.toInt_lt
  obtain ⟨count, hcount, heq⟩ := intOp_of_lt (x := st.chunkCount.toInt + 1) (by omega) (by omega)
  obtain ⟨_, -, heqn⟩ := intOp_of_lt (x := st.mds.numChunks.toInt + 1) (by omega) (by omega)
  obtain ⟨_, -, heqf⟩ := intOp_of_lt (x := st.mds.freeChunks.toInt + 1) (by omega) (by omega)
  have hsucc : st.chunkCount + 1 = count := by
    apply Int32.toInt_inj.mp
    rw [toInt_succ_of_lt (by omega), hcount]
  by_cases hfull : count = st.mds.chunkSize
  · constructor
    · rw [checkedElem, bind_of_ok heq, if_pos hfull, bind_of_ok heqn, bind_of_ok heqf]
    · obtain ⟨hc', hs', hnum, hfree⟩ := initElem_full cur (hsucc.trans hfull)
      have hnum' : (initElem st cur).mds.numChunks.toInt = st.mds.numChunks.toInt + 1 := by
        rw [hnum, toInt_succ_of_lt (by omega)]
      have hfree' : (initElem st cur).mds.freeChunks.toInt = st.mds.freeChunks.toInt + 1 := by
        rw [hfree, toInt_succ_of_lt (by omega)]
      have hzero : (initElem st cur).chunkCount.toInt = 0 := by
        rw [hc']
        rfl
      exact ⟨hs'.trans hsize, by omega, by omega, by omega, by omega, by omega, by omega⟩
  · have hne : st.chunkCount + 1 ≠ st.mds.chunkSize := fun h => hfull (hsucc.symm.trans h)
    constructor
    · rw [checkedElem, bind_of_ok heq, if_neg hfull]
    · obtain ⟨hc', hmds⟩ := initElem_part cur hne
      have hcount' : (initElem st cur).chunkCount.toInt = st.chunkCount.toInt + 1 := by
        rw [hc', hsucc, hcount]
      have hneq : st.chunkCount.toInt + 1 ≠ size.toInt := by
        intro heq
        apply hfull
        apply Int32.toInt_inj.mp
        rw [hcount, hsize, heq]
      rw [← hmds] at hsize hn hnle hf hfle
      exact ⟨hsize, by omega, by omega, hn, by omega, hf, by omega⟩

theorem Counts.page {size : Int32} {m : Nat} (h : Counts size m st) (elemLen : UInt64) (j : Nat)
    (hm : m + j < 2 ^ 31) (cur : Addr) :
    checkedPage elemLen j cur st = .ok (initPage elemLen j cur st) ∧
      Counts size (m + j) (initPage elemLen j cur st) := by
  induction j generalizing m cur st with
  | zero => exact ⟨rfl, h⟩
  | succ j ih =>
    obtain ⟨heq, hnext⟩ := h.step (by omega) cur
    obtain ⟨heq', hlast⟩ := ih hnext (by omega) (cur + elemLen)
    rw [checkedPage, bind_of_ok heq, initPage]
    refine ⟨heq', ?_⟩
    rwa [show m + (j + 1) = m + 1 + j by omega]

/-- With few pages and few elements nothing overflows in the loop. -/
theorem Counts.pages {size : Int32} {m : Nat} (h : Counts size m st) (buf : Addr)
    (elemLen : UInt64) {n i : Nat} (hm : m + n * perPage < 2 ^ 31) (hpages : i + n ≤ 1024) :
    checkedPages buf perPage elemLen n i st = .ok (initPages buf perPage elemLen n i st) := by
  induction n generalizing m i st with
  | zero => rfl
  | succ n ih =>
    rw [Nat.succ_mul] at hm
    obtain ⟨_, -, heq⟩ := intOp_of_lt (x := ((i * PGSIZE_2MB : Nat) : Int)) (by omega)
      (by simp only [PGSIZE_2MB]; omega)
    obtain ⟨heq', hnext⟩ := h.page elemLen perPage (by omega)
      (buf + UInt64.ofNat (i * PGSIZE_2MB))
    rw [checkedPages, bind_of_ok heq, bind_of_ok heq', initPages]
    exact ih hnext (by omega) (by omega)

end Loop

section Call
variable {allocPages : Nat → Option Addr} {self allDatastores : Addr} {mem : Addr → MempoolHdr}
variable {nrElems nostraddle chunkSize : Int32} {elemLen : UInt64} {name : String}
variable {mds : MempoolDatastore} {g : Geometry}

/-- The loop takes few rounds. -/
theorem checkedGeometry_few (hn : 0 < nrElems.toInt)
    (h : checkedGeometry nrElems elemLen nostraddle = .ok g) :
    g.initPages.toInt.toNat * g.elemsPerPage.toInt.toNat < 2 ^ 31 ∧
      g.initPages.toInt.toNat ≤ 1024 := by
  by_cases hzero : alignLong elemLen = 0
  · rw [checkedGeometry, if_pos hzero] at h
    cases h
  · by_cases hno : nostraddle = 0
    · rw [checkedGeometry, if_neg hzero, if_neg (not_not.mpr hno)] at h
      obtain ⟨hpages, hg⟩ := checkedStraddle_ok hn h
      have hle := Nat.div_le_self (straddlePages nrElems.toInt.toNat (alignLong elemLen).toNat *
        PGSIZE_2MB) (alignLong elemLen).toNat
      rw [hg.initPages, hg.elemsPerPage, Int.toNat_natCast, Int.toNat_natCast]
      simp only [PGSIZE_2MB] at hle ⊢
      omega
    · rw [checkedGeometry, if_neg hzero, if_pos hno] at h
      obtain ⟨-, hpages, hg⟩ := checkedNostraddle_ok hn h
      have hmul := Nat.mul_le_mul hpages.le (elemsIn_le_of_len (alignLong_ge hzero))
      rw [hg.initPages, hg.elemsPerPage, Int.toNat_natCast, Int.toNat_natCast]
      omega

theorem checkedFill_eq (hchunk : 0 < chunkSize.toInt) (hnum : mds.numChunks = 0)
    (hfree : mds.freeChunks = 0) (hn : 0 < nrElems.toInt)
    (hg : checkedGeometry nrElems elemLen nostraddle = .ok g) :
    checkedFill allocPages self allDatastores mem mds nostraddle chunkSize g =
      .ok (fillDatastore allocPages self allDatastores mem mds nostraddle chunkSize g) := by
  obtain ⟨hfew, hpages⟩ := checkedGeometry_few hn hg
  unfold checkedFill fillDatastore
  cases allocPages (getOrder g.size.toInt64.toUInt64) with
  | none => rfl
  | some buf =>
    have hcounts : Counts chunkSize 0
        ⟨mem, mds.describe g buf nostraddle chunkSize, NULL, NULL, 0⟩ := by
      constructor
      · rfl
      · exact Int.le_refl 0
      · exact hchunk
      · exact (congrArg Int32.toInt hnum).ge
      · exact (congrArg Int32.toInt hnum).le
      · exact (congrArg Int32.toInt hfree).ge
      · exact (congrArg Int32.toInt hfree).le
    have hrounds : 0 + g.initPages.toInt.toNat * g.elemsPerPage.toInt.toNat < 2 ^ 31 := by omega
    have hloop := hcounts.pages buf g.elemLen hrounds (by omega : 0 + _ ≤ _)
    exact bind_of_ok hloop _

theorem chunkMask_eq (hchunk : 0 ≤ chunkSize.toInt) :
    intOp (chunkSize.toInt - 1) = .ok (chunkSize - 1) := by
  obtain ⟨mask, hmask, heq⟩ := intOp_of_lt (x := chunkSize.toInt - 1) (by omega)
    (by have := chunkSize.toInt_lt; omega)
  have hval : mask = chunkSize - 1 := by
    apply Int32.toInt_inj.mp
    rw [hmask, toInt_pred (by omega)]
  rw [heq, hval]

theorem wholeChunks_eq (hn : 0 < nrElems.toInt) (hchunk : 0 < chunkSize.toInt) :
    intOp ((nrElems / chunkSize).toInt * chunkSize.toInt) =
      .ok (nrElems / chunkSize * chunkSize) := by
  have hlt : nrElems.toInt < 2 ^ 31 := nrElems.toInt_lt
  have hquot := toInt_div_of_nonneg hn.le hchunk
  have hmul := Int.ediv_mul_le nrElems.toInt (b := chunkSize.toInt) (by omega)
  have hnonneg : 0 ≤ nrElems.toInt / chunkSize.toInt * chunkSize.toInt :=
    Int.mul_nonneg (Int.ediv_nonneg hn.le hchunk.le) hchunk.le
  rw [← hquot] at hmul hnonneg
  obtain ⟨whole, hwhole, heq⟩ := intOp_of_lt
    (x := (nrElems / chunkSize).toInt * chunkSize.toInt) (by omega) (by omega)
  have hval : whole = nrElems / chunkSize * chunkSize := by
    apply Int32.toInt_inj.mp
    rw [hwhole, Int32.toInt_mul, Int.bmod_eq_of_le (by omega) (by omega)]
  rw [heq, hval]

theorem pos_of_ne_zero (hchunk : 0 ≤ chunkSize.toInt) (hzero : chunkSize ≠ 0) :
    0 < chunkSize.toInt := by
  have hne : chunkSize.toInt ≠ 0 := fun hz => hzero (Int32.toInt_inj.mp hz)
  omega

/-- Of the checks only a division can fail, and of the rest only the sizes. -/
theorem checkedCreate_eq (hn : 0 < nrElems.toInt) (hchunk : 0 ≤ chunkSize.toInt) :
    checkedCreate allocPages self allDatastores mem nrElems elemLen nostraddle chunkSize name =
      if chunkSize &&& (chunkSize - 1) ≠ 0 then .ok none
      else if chunkSize = 0 then .error .divideByZero
      else if nrElems / chunkSize * chunkSize ≠ nrElems then .ok none
      else if elemLen = 0 ∨ nrElems = 0 then .ok (some ⟨-EINVAL, mem, {}, allDatastores⟩)
      else checkedGeometry nrElems elemLen nostraddle >>= fun g =>
        .ok (some (fillDatastore allocPages self allDatastores mem
          { magic := MEMPOOL_MAGIC, prettyname := some name } nostraddle chunkSize g)) := by
  rw [checkedCreate, bind_of_ok (chunkMask_eq hchunk)]
  congr 1
  by_cases hzero : chunkSize = 0
  · rw [if_pos hzero, if_pos hzero]
  · have hpos := pos_of_ne_zero hchunk hzero
    rw [if_neg hzero, if_neg hzero, bind_of_ok (wholeChunks_eq hn hpos)]
    congr 2
    cases hg : checkedGeometry nrElems elemLen nostraddle with
    | error e => rfl
    | ok g =>
      have hfill : checkedFill allocPages self allDatastores mem
          { magic := MEMPOOL_MAGIC, prettyname := some name } nostraddle chunkSize g = .ok _ :=
        checkedFill_eq hpos rfl rfl hn hg
      exact bind_of_ok hfill _

/-- What a watched call returns is what the call returns; where it stops without a result, the
call stops at the same `BUG_ON`. -/
theorem checkedCreate_refines (hn : 0 < nrElems.toInt) (hchunk : 0 ≤ chunkSize.toInt)
    {r : Option CreateResult}
    (h : checkedCreate allocPages self allDatastores mem nrElems elemLen nostraddle chunkSize
      name = .ok r) :
    match r with
    | some r => mempoolCreateDatastore allocPages self allDatastores mem {} nrElems elemLen
        nostraddle chunkSize name = .ok r
    | none => mempoolCreateDatastore allocPages self allDatastores mem {} nrElems elemLen
        nostraddle chunkSize name = .error .chunkSize ∨
      mempoolCreateDatastore allocPages self allDatastores mem {} nrElems elemLen
        nostraddle chunkSize name = .error .nrElems := by
  have hmagic : ¬ ({} : MempoolDatastore).magic ≠ 0 := not_not.mpr rfl
  rw [checkedCreate_eq hn hchunk] at h
  unfold mempoolCreateDatastore
  simp only [if_neg hmagic]
  by_cases hpow : chunkSize &&& (chunkSize - 1) ≠ 0
  · rw [if_pos hpow] at h
    obtain rfl := Except.ok.inj h
    exact .inl (if_pos hpow)
  · rw [if_neg hpow, guard_eq_ok] at h
    obtain ⟨hzero, h⟩ := h
    by_cases hwhole : nrElems / chunkSize * chunkSize ≠ nrElems
    · rw [if_pos hwhole] at h
      obtain rfl := Except.ok.inj h
      exact .inr (by rw [if_neg hpow, if_neg hzero, if_pos hwhole])
    · rw [if_neg hwhole] at h
      by_cases hempty : elemLen = 0 ∨ nrElems = 0
      · rw [if_pos hempty] at h
        obtain rfl := Except.ok.inj h
        simp only [if_neg hpow, if_neg hzero, if_neg hwhole, if_pos hempty]
      · rw [if_neg hempty, bind_eq_ok] at h
        obtain ⟨g, hg, h⟩ := h
        obtain rfl := Except.ok.inj h
        simp only [if_neg hpow, if_neg hzero, if_neg hwhole, if_neg hempty,
          checkedGeometry_geometry hg]
        rfl

/-- The call divides by zero, overflows an `int` or loses bits of a size exactly for a chunk size
of 0 and for sizes that it cannot hold. -/
theorem checkedCreate_safe_iff (hn : 0 < nrElems.toInt) (hchunk : 0 ≤ chunkSize.toInt) :
    (∀ hazard, checkedCreate allocPages self allDatastores mem nrElems elemLen nostraddle
      chunkSize name ≠ .error hazard) ↔
    chunkSize &&& (chunkSize - 1) ≠ 0 ∨
      chunkSize ≠ 0 ∧ (nrElems / chunkSize * chunkSize ≠ nrElems ∨ elemLen = 0 ∨
        SizesHold nrElems elemLen nostraddle) := by
  have hn0 : nrElems ≠ 0 := by
    rintro rfl
    exact absurd hn (by decide)
  rw [checkedCreate_eq hn hchunk]
  by_cases hpow : chunkSize &&& (chunkSize - 1) ≠ 0
  · simp [hpow]
  · by_cases hzero : chunkSize = 0
    · simp [hzero]
    · by_cases hwhole : nrElems / chunkSize * chunkSize ≠ nrElems
      · simp [hpow, hzero, hwhole]
      · by_cases hlen : elemLen = 0
        · simp [hpow, hzero, hwhole, hlen]
        · -- Every check passes: what is left are the sizes.
          have hsizes : ∀ hazard, (checkedGeometry nrElems elemLen nostraddle >>= fun g =>
              .ok (some (fillDatastore allocPages self allDatastores mem
                { magic := MEMPOOL_MAGIC, prettyname := some name } nostraddle chunkSize g))) =
              .error hazard ↔ checkedGeometry nrElems elemLen nostraddle = .error hazard := by
            intro hazard
            simp [bind_eq_error]
          simp only [hpow, hzero, hwhole, hlen, hn0, if_false, or_false, false_or,
            not_false_eq_true, true_and, ne_eq, hsizes]
          rw [← checkedGeometry_ok_iff hn]
          cases checkedGeometry nrElems elemLen nostraddle with
          | ok g => simp
          | error e => simp

end Call

theorem checkedCreate_safe_two : 0 < (2 : Int32).toInt ∧ ∀ hazard,
    checkedCreate onePage 8 NULL (fun _ => {}) 2 0x100000 1 2 "mbuf" ≠ .error hazard := by
  refine ⟨by decide, ?_⟩
  refine (checkedCreate_safe_iff (by decide) (by decide)).mpr (.inr ⟨by decide, .inr (.inr ?_)⟩)
  refine ⟨by decide +kernel, fun _ => ?_, fun h => absurd h (by decide)⟩
  decide +kernel

/-- The first `BUG_ON` lets 0 pass, and the second one divides by it. -/
theorem checkedCreate_zero_chunk :
    checkedCreate onePage 8 NULL (fun _ => {}) 2 64 0 0 "mbuf" = .error .divideByZero := by
  rw [checkedCreate, bind_of_ok (chunkMask_eq (by decide)), if_neg (by decide), if_pos rfl]

end ThletEvaluation.Shinjuku
