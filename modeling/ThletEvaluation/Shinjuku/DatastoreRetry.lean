import ThletEvaluation.Shinjuku.DatastoreCapacity

/-!
# Datastores whose creation has failed

`mempool_create_datastore` marks the datastore before it asks for the pages. The mark is what
`mempool_create` and the next attempt to create the datastore look at.
-/

namespace ThletEvaluation.Shinjuku

open Checks

set_option autoImplicit false

/-- The call has left no trace: no pool can be made on the datastore, and the next attempt goes
as the first one. -/
structure Retriable (ds allDatastores : Addr) (mem : Addr → MempoolHdr)
    (mds : MempoolDatastore) (r : CreateResult) : Prop where
  mds_eq : r.mds = mds
  allDatastores_eq : r.allDatastores = allDatastores
  refused : ∀ m self, mempoolCreate m self r.mds = .error .noDatastore
  retry : ∀ allocPages nrElems elemLen nostraddle chunkSize name,
    mempoolCreateDatastore allocPages ds r.allDatastores r.mem r.mds nrElems elemLen nostraddle
        chunkSize name =
      mempoolCreateDatastore allocPages ds allDatastores mem mds nrElems elemLen nostraddle
        chunkSize name
  unmarked : ∀ allocPages nrElems elemLen nostraddle chunkSize name,
    mempoolCreateDatastore allocPages ds r.allDatastores r.mem r.mds nrElems elemLen nostraddle
      chunkSize name ≠ .error .magic

section Retry
variable {allocPages : Nat → Option Addr} {mem : Addr → MempoolHdr} {mds : MempoolDatastore}
variable {nrElems nostraddle chunkSize : Int32} {elemLen : UInt64} {g : Geometry}
variable {self allDatastores : Addr} {name : String} {r : CreateResult}

theorem asInt_error {x : Int} {e : CreateFault} (h : asInt x = .error e) : e = .overflow := by
  unfold asInt at h
  split at h
  · cases h
  · exact (Except.error.inj h).symm

theorem nostraddleGeometry_error {e : CreateFault}
    (h : nostraddleGeometry nrElems elemLen = .error e) : e = .divideByZero ∨ e = .overflow := by
  rcases bind_eq_error.mp h with h | ⟨sum, -, h⟩
  · exact .inr (asInt_error h)
  · by_cases hpage : elemsPerPage elemLen = 0
    · rw [if_pos hpage] at h
      exact .inl (Except.error.inj h).symm
    · rw [if_neg hpage] at h
      rcases bind_eq_error.mp h with h | ⟨size, -, h⟩
      · exact .inr (asInt_error h)
      · cases h

/-- The sizes fail for arithmetic reasons only. -/
theorem datastoreGeometry_error {e : CreateFault}
    (h : datastoreGeometry nrElems elemLen nostraddle = .error e) :
    e = .divideByZero ∨ e = .overflow := by
  unfold datastoreGeometry at h
  split at h
  · exact .inl (Except.error.inj h).symm
  · split at h
    · exact nostraddleGeometry_error h
    · rcases bind_eq_error.mp h with h | ⟨size, -, h⟩
      · exact .inr (asInt_error h)
      · cases h

/-- The first `BUG_ON` fires exactly for a marked datastore. -/
theorem create_magic_iff :
    mempoolCreateDatastore allocPages self allDatastores mem mds nrElems elemLen nostraddle
      chunkSize name = .error .magic ↔ mds.magic ≠ 0 := by
  constructor
  · intro h hmagic
    rw [mempoolCreateDatastore, if_neg (not_not.mpr hmagic), guard_eq_error (by decide),
      guard_eq_error (by decide), guard_eq_error (by decide)] at h
    obtain ⟨-, -, -, h⟩ := h
    by_cases hempty : elemLen = 0 ∨ nrElems = 0
    · rw [if_pos hempty] at h
      cases h
    · rw [if_neg hempty, bind_eq_error] at h
      rcases h with hg | ⟨g, -, h⟩
      · rcases datastoreGeometry_error hg with he | he <;> cases he
      · cases h
  · intro hmagic
    rw [mempoolCreateDatastore, if_pos hmagic]

/-- What a failed call leaves: either nothing has changed, or the mark is set. -/
theorem failed_create_cases
    (hcreate : mempoolCreateDatastore allocPages self allDatastores mem mds nrElems elemLen
      nostraddle chunkSize name = .ok r) (hret : r.ret ≠ 0) :
    (elemLen = 0 ∨ nrElems = 0) ∧ r = ⟨-EINVAL, mem, mds, allDatastores⟩ ∨
    ¬ (elemLen = 0 ∨ nrElems = 0) ∧ r = ⟨-ENOMEM, mem,
      { mds with magic := MEMPOOL_MAGIC, prettyname := some name }, allDatastores⟩ := by
  by_cases hempty : elemLen = 0 ∨ nrElems = 0
  · rcases mempoolCreateDatastore_cases hcreate with ⟨-, hr⟩ | ⟨hne, g, hg, -⟩
    · exact .inl ⟨hempty, hr⟩
    · -- Without a length no size is computed.
      obtain rfl := hempty.resolve_right hne
      have hzero : alignLong 0 = 0 := by decide
      rw [datastoreGeometry, if_pos hzero] at hg
      cases hg
  · rcases mempoolCreateDatastore_cases hcreate with ⟨he, -⟩ | ⟨hne, g, -, hr⟩
    · exact absurd he hempty
    · right
      refine ⟨hempty, ?_⟩
      cases halloc : allocPages (getOrder g.size.toInt64.toUInt64) with
      | none => rw [hr, fillDatastore_none halloc]
      | some buf =>
        rw [hr, fillDatastore_some halloc rfl] at hret
        exact absurd rfl hret

theorem retriable_of_unchanged (hmagic : mds.magic = 0) :
    Retriable self allDatastores mem mds ⟨-EINVAL, mem, mds, allDatastores⟩ where
  mds_eq := rfl
  allDatastores_eq := rfl
  refused := by
    intro m ds
    have hne : mds.magic ≠ MEMPOOL_MAGIC := by
      rw [hmagic]
      decide
    rw [mempoolCreate, if_pos hne]
  retry := fun _ _ _ _ _ _ => rfl
  unmarked := fun _ _ _ _ _ _ h => create_magic_iff.mp h hmagic

/-- A failed creation can be tried again exactly when it failed for its arguments. -/
theorem failed_create_retriable_iff (hmagic : mds.magic = 0)
    (hcreate : mempoolCreateDatastore allocPages self allDatastores mem mds nrElems elemLen
      nostraddle chunkSize name = .ok r) (hret : r.ret ≠ 0) :
    Retriable self allDatastores mem mds r ↔ elemLen = 0 ∨ nrElems = 0 := by
  rcases failed_create_cases hcreate hret with ⟨hempty, rfl⟩ | ⟨hempty, rfl⟩
  · exact ⟨fun _ => hempty, fun _ => retriable_of_unchanged hmagic⟩
  · constructor
    · intro h
      have hmark : MEMPOOL_MAGIC = mds.magic := congrArg MempoolDatastore.magic h.mds_eq
      rw [hmagic] at hmark
      exact absurd hmark (by decide)
    · intro he
      exact absurd he hempty

end Retry

theorem empty_create :
    mempoolCreateDatastore onePage 8 NULL (fun _ => {}) {} 0 64 1 2 "mbuf" =
      .ok ⟨-EINVAL, fun _ => {}, {}, NULL⟩ := by
  rw [mempoolCreateDatastore, if_neg (by decide), if_neg (by decide), if_neg (by decide),
    if_neg (by decide), if_pos (by decide)]

theorem empty_create_retriable :
    Retriable 8 NULL (fun _ => {}) {} ⟨-EINVAL, fun _ => {}, {}, NULL⟩ :=
  (failed_create_retriable_iff rfl empty_create (by decide)).mpr (.inr rfl)

/-- There are no pages for a datastore of one chunk of two elements. -/
theorem no_pages_not_retriable :
    ∃ r, mempoolCreateDatastore (fun _ => none) 8 NULL (fun _ => {}) {} 2 0x100000 1 2 "mbuf" =
        .ok r ∧ r.ret = -ENOMEM ∧
      r.mds.magic = MEMPOOL_MAGIC ∧ ¬ Retriable 8 NULL (fun _ => {}) {} r := by
  refine ⟨_, createTwo_args.create_eq "mbuf" twoElems_geometry, ?_⟩
  rw [fillDatastore_none rfl]
  refine ⟨rfl, rfl, fun h => ?_⟩
  have hmark : MEMPOOL_MAGIC = 0 := congrArg MempoolDatastore.magic h.mds_eq
  exact absurd hmark (by decide)

end ThletEvaluation.Shinjuku
