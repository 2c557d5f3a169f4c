import Mathlib.Data.List.Basic
import Mathlib.Data.List.Nodup
import ThletEvaluation.Lib.Chain
import ThletEvaluation.Shinjuku.Datastore
import ThletEvaluation.Shinjuku.MempoolLayout
import ThletEvaluation.Shinjuku.MempoolCalls

/-!
# The lists of a fresh datastore

The loop writes the link from an element to the following one of its chunk, and from the head
of a chunk to the head of the chunk before it. The last link of every list is not written. So
the lists end where the pages happened to hold NULL, and `Built` keeps their ends open.
-/

namespace ThletEvaluation.Shinjuku

open Chain
set_option autoImplicit false

def firstOf (c : List Addr) : Addr := c.headD NULL

def lastOf (c : List Addr) : Addr := c.getLastD NULL

/-- What the list of chunks ends in: the link that the first chunk's head held before. -/
def listEnd (mem₀ : Addr → MempoolHdr) : List (List Addr) → Addr
  | [] => NULL
  | c :: _ => (mem₀ (firstOf c)).nextChunk

/-- The loop has finished the chunks `cs`, in this order, and `part` of the next one. -/
structure Built (mem₀ : Addr → MempoolHdr) (size : Int32) (st : InitState)
    (cs : List (List Addr)) (part : List Addr) : Prop where
  chunkSize : st.mds.chunkSize = size
  full : ∀ c ∈ cs, (c.length : Int) = size.toInt
  short : (part.length : Int) < size.toInt
  count : st.chunkCount.toInt = part.length
  numChunks : st.mds.numChunks = Int32.ofNat cs.length
  freeChunks : st.mds.freeChunks = Int32.ofNat cs.length
  head : st.head = firstOf part
  prev : st.prev = lastOf part
  chains : ∀ c ∈ cs, Walk (fun a => (st.mem a).next) (firstOf c) c (mem₀ (lastOf c)).next
  building : part ≠ [] →
    Walk (fun a => (st.mem a).next) (firstOf part) part (mem₀ (lastOf part)).next
  heads : Walk (fun a => (st.mem a).nextChunk) st.mds.chunkHead (cs.reverse.map firstOf)
    (listEnd mem₀ cs)
  outside : ∀ x, x ∉ cs.flatten → x ∉ part → (st.mem x).next = (mem₀ x).next
  links : ∀ x, x ∉ cs.flatten → (st.mem x).nextChunk = (mem₀ x).nextChunk

section Elem
variable {mem₀ : Addr → MempoolHdr} {size : Int32} {st : InitState} {cs : List (List Addr)}
variable {part : List Addr} {cur : Addr}

theorem firstOf_mem {c : List Addr} (h : c ≠ []) : firstOf c ∈ c := by
  cases c with
  | nil => exact absurd rfl h
  | cons x xs => exact List.mem_cons_self

@[simp] theorem lastOf_snoc (xs : List Addr) (a : Addr) : lastOf (xs ++ [a]) = a := by
  simp [lastOf]

/-- The first half of the loop body: the element is linked behind the one before it. -/
def linkPrev (st : InitState) (cur : Addr) : Addr → MempoolHdr :=
  if st.prev = NULL then st.mem else setNext st.mem st.prev cur

theorem linkPrev_nextChunk (st : InitState) (cur x : Addr) :
    (linkPrev st cur x).nextChunk = (st.mem x).nextChunk := by
  unfold linkPrev
  split <;> simp

/-- Nothing but the element before the new one gets another link. -/
theorem Built.linkPrev_next (h : Built mem₀ size st cs part) {x : Addr} (hx : x ≠ lastOf part) :
    (linkPrev st cur x).next = (st.mem x).next := by
  unfold linkPrev
  split
  · rfl
  · rw [h.prev]
    simp [hx]

theorem Built.walk_snoc (h : Built mem₀ size st cs part) (hnull : NULL ∉ part)
    (hnodup : (part ++ [cur]).Nodup) (hcur : cur ∉ cs.flatten) :
    Walk (fun a => (linkPrev st cur a).next) (firstOf (part ++ [cur])) (part ++ [cur])
      (mem₀ cur).next := by
  have hdisj := (List.nodup_append.mp hnodup).2.2
  have hfresh : cur ∉ part := fun hmem => hdisj cur hmem cur (by simp) rfl
  have hend : (st.mem cur).next = (mem₀ cur).next := h.outside cur hcur hfresh
  rcases List.eq_nil_or_concat part with rfl | ⟨xs, l, hpart⟩
  · refine ⟨rfl, ?_⟩
    have hprev : st.prev = NULL := h.prev
    simpa [linkPrev, hprev, Walk] using hend
  · have hlast : lastOf part = l := by rw [hpart, List.concat_eq_append, lastOf_snoc]
    rw [List.concat_eq_append] at hpart
    subst hpart
    have hl : l ≠ NULL := fun heq => hnull (by simp [heq])
    have hlcur : cur ≠ lastOf (xs ++ [l]) := by
      rw [hlast]
      exact fun heq => hfresh (by simp [heq])
    have hlxs : l ∉ xs := fun hmem =>
      (List.nodup_append.mp (List.nodup_append.mp hnodup).1).2.2 l hmem l (by simp) rfl
    have hlink : (linkPrev st cur l).next = cur := by
      have hprev : st.prev = l := by rw [h.prev, hlast]
      simp [linkPrev, hprev, hl]
    have hbuilt := (h.building (by simp)).init
    have hxs : Walk (fun a => (linkPrev st cur a).next) (firstOf (xs ++ [l])) xs l := by
      refine hbuilt.frame fun x hx => h.linkPrev_next ?_
      rw [hlast]
      rintro rfl
      exact hlxs hx
    have hl' := hxs.snoc
    simp only [hlink] at hl'
    have hcur' := hl'.snoc
    rw [h.linkPrev_next hlcur, hend] at hcur'
    have hfirst : firstOf (xs ++ [l] ++ [cur]) = firstOf (xs ++ [l]) := by
      cases xs <;> rfl
    rw [hfirst]
    exact hcur'

theorem Built.linkPrev_outside (h : Built mem₀ size st cs part) {x : Addr} (hx : x ∉ part) :
    (linkPrev st cur x).next = (st.mem x).next := by
  rcases List.eq_nil_or_concat part with rfl | ⟨xs, l, hpart⟩
  · have hprev : st.prev = NULL := h.prev
    simp [linkPrev, hprev]
  · refine h.linkPrev_next ?_
    rw [hpart, List.concat_eq_append, lastOf_snoc]
    rintro rfl
    exact hx (by simp [hpart])

theorem Built.chunk_ne_nil (h : Built mem₀ size st cs part) {c : List Addr} (hc : c ∈ cs) :
    c ≠ [] := by
  rintro rfl
  have hfull := h.full [] hc
  have hshort := h.short
  simp at hfull
  omega

/-- The branch for the first chunk is taken exactly for the first chunk. -/
theorem Built.chunkHead_null_iff (h : Built mem₀ size st cs part) (hnull : NULL ∉ cs.flatten) :
    st.mds.chunkHead = NULL ↔ cs = [] := by
  have hheads := h.heads
  rcases List.eq_nil_or_concat cs with rfl | ⟨ds, c, hcs⟩
  · simpa [Walk, listEnd] using hheads
  · rw [List.concat_eq_append] at hcs
    subst hcs
    simp only [List.reverse_append, List.reverse_singleton, List.singleton_append,
      List.map_cons] at hheads
    have hmem : firstOf c ∈ (ds ++ [c]).flatten :=
      List.mem_flatten.mpr ⟨c, by simp, firstOf_mem (h.chunk_ne_nil (by simp))⟩
    rw [hheads.1]
    constructor
    · intro heq
      exact absurd (heq ▸ hmem) hnull
    · simp

theorem Built.head_eq (h : Built mem₀ size st cs part) (hnull : NULL ∉ part) :
    (if st.prev = NULL then cur else st.head) = firstOf (part ++ [cur]) := by
  rw [h.prev, h.head]
  rcases List.eq_nil_or_concat part with rfl | ⟨xs, l, hpart⟩
  · rfl
  · rw [List.concat_eq_append] at hpart
    subst hpart
    have hl : l ≠ NULL := fun heq => hnull (by simp [heq])
    rw [lastOf_snoc, if_neg hl]
    cases xs <;> rfl

theorem Built.count_succ (h : Built mem₀ size st cs part) :
    (st.chunkCount + 1).toInt = part.length + 1 := by
  have hlt : st.chunkCount.toInt < size.toInt := by
    rw [h.count]
    exact h.short
  rw [toInt_succ hlt, h.count]

theorem Built.initElem_part (h : Built mem₀ size st cs part) (hnull : NULL ∉ part)
    (hcount : st.chunkCount + 1 ≠ st.mds.chunkSize) :
    initElem st cur = { st with
      mem := linkPrev st cur
      head := firstOf (part ++ [cur])
      prev := cur
      chunkCount := st.chunkCount + 1 } := by
  rw [← h.head_eq hnull, initElem, if_neg hcount]
  rfl

/-- An element that does not fill the chunk joins the unfinished part. -/
theorem Built.extend (h : Built mem₀ size st cs part) (hnull : NULL ∉ part)
    (hnodup : (cs.flatten ++ (part ++ [cur])).Nodup)
    (hcount : st.chunkCount + 1 ≠ st.mds.chunkSize) :
    Built mem₀ size (initElem st cur) cs (part ++ [cur]) := by
  obtain ⟨-, hpart, hapart⟩ := List.nodup_append.mp hnodup
  have hcur : cur ∉ cs.flatten := fun hmem => hapart cur hmem cur (by simp) rfl
  have hsucc := h.count_succ
  rw [h.initElem_part hnull hcount]
  have hne : (part.length + 1 : Int) ≠ size.toInt := by
    intro heq
    refine hcount (Int32.toInt_inj.mp ?_)
    rw [hsucc, h.chunkSize, heq]
  have hshort := h.short
  refine
    { h with
      short := ?_, count := ?_, head := rfl, prev := (lastOf_snoc part cur).symm,
      chains := ?_, building := ?_, heads := ?_, outside := ?_, links := ?_ }
  · rw [List.length_append, List.length_singleton]
    push_cast
    omega
  · rw [hsucc]
    simp
  · intro c hc
    refine (h.chains c hc).frame fun x hx => h.linkPrev_outside fun hmem => ?_
    exact hapart x (List.mem_flatten.mpr ⟨c, hc, hx⟩) x (by simp [hmem]) rfl
  · intro _
    rw [lastOf_snoc]
    exact h.walk_snoc hnull hpart hcur
  · exact h.heads.frame fun x _ => linkPrev_nextChunk st cur x
  · intro x hcs hx
    simp only [List.mem_append, List.mem_singleton, not_or] at hx
    exact (h.linkPrev_outside hx.1).trans (h.outside x hcs hx.1)
  · intro x hx
    exact (linkPrev_nextChunk st cur x).trans (h.links x hx)

/-- The list of chunks after a chunk with head `a` was put in front of it. -/
def pushChunk (st : InitState) (mem : Addr → MempoolHdr) (a : Addr) : Addr → MempoolHdr :=
  if st.mds.chunkHead = NULL then mem else setNextChunk mem a st.mds.chunkHead

theorem pushChunk_next (st : InitState) (mem : Addr → MempoolHdr) (a x : Addr) :
    (pushChunk st mem a x).next = (mem x).next := by
  unfold pushChunk
  split <;> simp

theorem pushChunk_outside (st : InitState) (mem : Addr → MempoolHdr) {a x : Addr} (hx : x ≠ a) :
    (pushChunk st mem a x).nextChunk = (mem x).nextChunk := by
  unfold pushChunk
  split <;> simp [hx]

theorem Built.heads_push (h : Built mem₀ size st cs part) (hnull : NULL ∉ cs.flatten)
    {c : List Addr} (hc : firstOf c ∉ cs.flatten) :
    Walk (fun a => (pushChunk st (linkPrev st cur) (firstOf c) a).nextChunk) (firstOf c)
      ((cs ++ [c]).reverse.map firstOf) (listEnd mem₀ (cs ++ [c])) := by
  have hold : ∀ x ∈ cs.reverse.map firstOf,
      (pushChunk st (linkPrev st cur) (firstOf c) x).nextChunk = (st.mem x).nextChunk := by
    intro x hx
    obtain ⟨d, hd, rfl⟩ := List.mem_map.mp hx
    have hmem : d ∈ cs := List.mem_reverse.mp hd
    have hne : firstOf d ≠ firstOf c := by
      intro heq
      refine hc (heq ▸ List.mem_flatten.mpr ⟨d, hmem, firstOf_mem (h.chunk_ne_nil hmem)⟩)
    rw [pushChunk_outside st _ hne, linkPrev_nextChunk]
  simp only [List.reverse_append, List.reverse_singleton, List.singleton_append, List.map_cons]
  refine ⟨rfl, ?_⟩
  by_cases hcs : cs = []
  · subst hcs
    have hhead := (h.chunkHead_null_iff hnull).mpr rfl
    have hlink := h.links (firstOf c) (by simp)
    simpa [Walk, listEnd, pushChunk, hhead, linkPrev_nextChunk] using hlink
  · have hhead : st.mds.chunkHead ≠ NULL := mt (h.chunkHead_null_iff hnull).mp hcs
    have hlink : (pushChunk st (linkPrev st cur) (firstOf c) (firstOf c)).nextChunk =
        st.mds.chunkHead := by
      simp [pushChunk, hhead]
    have hend : listEnd mem₀ (cs ++ [c]) = listEnd mem₀ cs := by
      cases cs with
      | nil => exact absurd rfl hcs
      | cons d ds => rfl
    simp only [hlink, hend]
    exact h.heads.frame hold

theorem Built.initElem_full (h : Built mem₀ size st cs part) (hnull : NULL ∉ part)
    (hcount : st.chunkCount + 1 = st.mds.chunkSize) :
    initElem st cur =
      { mem := pushChunk st (linkPrev st cur) (firstOf (part ++ [cur]))
        mds := { st.mds with
          chunkHead := firstOf (part ++ [cur])
          numChunks := st.mds.numChunks + 1
          freeChunks := st.mds.freeChunks + 1 }
        head := NULL
        prev := NULL
        chunkCount := 0 } := by
  rw [← h.head_eq hnull, initElem, if_pos hcount]
  rfl

/-- The element that fills the chunk finishes it. -/
theorem Built.finish (h : Built mem₀ size st cs part) (hnull : NULL ∉ cs.flatten ++ part)
    (hnodup : (cs.flatten ++ (part ++ [cur])).Nodup)
    (hcount : st.chunkCount + 1 = st.mds.chunkSize) :
    Built mem₀ size (initElem st cur) (cs ++ [part ++ [cur]]) [] := by
  obtain ⟨-, hpart, hapart⟩ := List.nodup_append.mp hnodup
  simp only [List.mem_append, not_or] at hnull
  have hcur : cur ∉ cs.flatten := fun hmem => hapart cur hmem cur (by simp) rfl
  have hfirst : firstOf (part ++ [cur]) ∈ part ++ [cur] := firstOf_mem (by simp)
  have hlen : (part.length + 1 : Int) = size.toInt := by
    rw [← h.count_succ, hcount, h.chunkSize]
  rw [h.initElem_full hnull.2 hcount]
  refine
    { chunkSize := h.chunkSize, full := ?_, short := ?_, count := rfl, numChunks := ?_,
      freeChunks := ?_, head := rfl, prev := rfl, chains := ?_, building := ?_, heads := ?_,
      outside := ?_, links := ?_ }
  · intro c hc
    rcases List.mem_append.mp hc with hc | hc
    · exact h.full c hc
    · rw [List.mem_singleton.mp hc, List.length_append, List.length_singleton]
      exact_mod_cast hlen
  · rw [List.length_nil, ← hlen]
    omega
  · rw [List.length_append, List.length_singleton, Int32.ofNat_add]
    exact congrArg (· + 1) h.numChunks
  · rw [List.length_append, List.length_singleton, Int32.ofNat_add]
    exact congrArg (· + 1) h.freeChunks
  · intro c hc
    rcases List.mem_append.mp hc with hc | hc
    · refine (h.chains c hc).frame fun x hx => ?_
      refine (pushChunk_next _ _ _ x).trans (h.linkPrev_outside fun hmem => ?_)
      exact hapart x (List.mem_flatten.mpr ⟨c, hc, hx⟩) x (by simp [hmem]) rfl
    · rw [List.mem_singleton.mp hc, lastOf_snoc]
      exact (h.walk_snoc hnull.2 hpart hcur).frame fun x _ => pushChunk_next _ _ _ x
  · exact fun hne => absurd rfl hne
  · refine h.heads_push hnull.1 fun hmem => ?_
    exact hapart _ hmem _ hfirst rfl
  · intro x hx _
    simp only [List.flatten_append, List.flatten_singleton, List.mem_append, not_or] at hx
    rw [pushChunk_next, h.linkPrev_outside hx.2.1]
    exact h.outside x hx.1 hx.2.1
  · intro x hx
    simp only [List.flatten_append, List.flatten_singleton, List.mem_append, not_or] at hx
    rw [pushChunk_outside _ _ (fun heq => ?_), linkPrev_nextChunk]
    · exact h.links x hx.1
    · subst heq
      rcases List.mem_append.mp hfirst with hm | hm
      · exact hx.2.1 hm
      · exact hx.2.2 hm

/-- One element: the finished chunks and the part, put together, have grown by it. -/
theorem Built.initElem (h : Built mem₀ size st cs part)
    (hnull : NULL ∉ cs.flatten ++ part) (hnodup : (cs.flatten ++ part ++ [cur]).Nodup) :
    ∃ cs' part', Built mem₀ size (initElem st cur) cs' part' ∧
      cs'.flatten ++ part' = cs.flatten ++ part ++ [cur] := by
  rw [List.append_assoc] at hnodup
  by_cases hcount : st.chunkCount + 1 = st.mds.chunkSize
  · refine ⟨_, _, h.finish hnull hnodup hcount, ?_⟩
    simp
  · refine ⟨_, _, h.extend (fun hmem => hnull (by simp [hmem])) hnodup hcount, ?_⟩
    simp

/-- The whole loop: any run over distinct elements, none at NULL. -/
theorem Built.foldl (elems : List Addr) (h : Built mem₀ size st cs part)
    (hnull : NULL ∉ cs.flatten ++ part ++ elems)
    (hnodup : (cs.flatten ++ part ++ elems).Nodup) :
    ∃ cs' part', Built mem₀ size (elems.foldl Shinjuku.initElem st) cs' part' ∧
      cs'.flatten ++ part' = cs.flatten ++ part ++ elems := by
  induction elems generalizing st cs part with
  | nil => exact ⟨cs, part, h, by simp⟩
  | cons cur rest ih =>
    have hsplit : cs.flatten ++ part ++ cur :: rest = cs.flatten ++ part ++ [cur] ++ rest := by
      simp
    rw [hsplit] at hnull hnodup
    obtain ⟨cs₁, part₁, h₁, hlist⟩ := h.initElem (fun hmem => hnull (by simp_all))
      (List.nodup_append.mp hnodup).1
    rw [← hlist] at hnull hnodup
    obtain ⟨cs₂, part₂, h₂, hlist₂⟩ := ih h₁ hnull hnodup
    refine ⟨cs₂, part₂, h₂, ?_⟩
    rw [hlist₂, hlist, hsplit]

end Elem

/-- Following `next_chunk` from `chunk_head` visits `num_chunks` heads and then reaches NULL, and
following `next` from each of them visits `chunkSize` elements and then reaches NULL. -/
def ListsWellFormed (mem : Addr → MempoolHdr) (mds : MempoolDatastore) (chunkSize : Int32) :
    Prop :=
  ∃ chunks, Chunked (fun a => (mem a).next) (fun a => (mem a).nextChunk) NULL mds.chunkHead chunks ∧
    (chunks.length : Int) = mds.numChunks.toInt ∧
    ∀ c ∈ chunks, (c.length : Int) = chunkSize.toInt

section Finished
variable {mem₀ : Addr → MempoolHdr} {size : Int32} {st : InitState} {cs : List (List Addr)}
variable {part : List Addr}

theorem Built.start (mem₀ : Addr → MempoolHdr) (mds : MempoolDatastore)
    (hsize : 0 < mds.chunkSize.toInt) (hhead : mds.chunkHead = NULL) (hnum : mds.numChunks = 0)
    (hfree : mds.freeChunks = 0) : Built mem₀ mds.chunkSize ⟨mem₀, mds, NULL, NULL, 0⟩ [] [] := by
  refine
    { chunkSize := rfl, full := by simp, short := by simpa using hsize, count := rfl,
      numChunks := hnum, freeChunks := hfree, head := rfl, prev := rfl, chains := by simp,
      building := fun hne => absurd rfl hne, heads := hhead, outside := fun _ _ _ => rfl,
      links := fun _ _ => rfl }

theorem Built.chunked (h : Built mem₀ size st cs part) (hnull : NULL ∉ cs.flatten)
    (hends : ∀ c ∈ cs, (mem₀ (lastOf c)).next = NULL) (hend : listEnd mem₀ cs = NULL) :
    Chunked (fun a => (st.mem a).next) (fun a => (st.mem a).nextChunk) NULL st.mds.chunkHead
      cs.reverse := by
  have hheads := h.heads
  rw [hend] at hheads
  refine hheads.chunked ?_ ?_
  · intro hmem
    obtain ⟨c, hc, heq⟩ := List.mem_map.mp hmem
    have hc' : c ∈ cs := List.mem_reverse.mp hc
    refine hnull (List.mem_flatten.mpr ⟨c, hc', ?_⟩)
    rw [← heq]
    exact firstOf_mem (h.chunk_ne_nil hc')
  · rw [List.forall₂_map_left_iff, List.forall₂_same]
    intro c hc
    have hc' : c ∈ cs := List.mem_reverse.mp hc
    have hwalk := h.chains c hc'
    rw [hends c hc'] at hwalk
    exact hwalk.linked fun hmem => hnull (List.mem_flatten.mpr ⟨c, hc', hmem⟩)

theorem Built.wellFormed (h : Built mem₀ size st cs part) (hnull : NULL ∉ cs.flatten)
    (hnum : (cs.length : Int) = st.mds.numChunks.toInt)
    (hends : ∀ c ∈ cs, (mem₀ (lastOf c)).next = NULL) (hend : listEnd mem₀ cs = NULL) :
    ListsWellFormed st.mem st.mds size := by
  refine ⟨cs.reverse, h.chunked hnull hends hend, ?_, ?_⟩
  · rw [List.length_reverse]
    exact hnum
  · intro c hc
    exact h.full c (List.mem_reverse.mp hc)

/-- A list that ends in NULL after the right number of elements leaves no choice for the links
that the loop did not write. -/
theorem Built.ends_null (h : Built mem₀ size st cs part)
    (hnum : (cs.length : Int) = st.mds.numChunks.toInt) (hwf : ListsWellFormed st.mem st.mds size) :
    (∀ c ∈ cs, (mem₀ (lastOf c)).next = NULL) ∧ listEnd mem₀ cs = NULL := by
  obtain ⟨chunks, hchunked, hlen, hsizes⟩ := hwf
  obtain ⟨hs, hwalk, hall⟩ := hchunked.walk
  have hcount : hs.length = (cs.reverse.map firstOf).length := by
    rw [hall.length_eq, List.length_map, List.length_reverse]
    omega
  obtain ⟨heads, hnull⟩ := hwalk.unique h.heads hcount
  refine ⟨fun c hc => ?_, hnull.symm⟩
  have hhead : firstOf c ∈ hs := by
    rw [heads]
    exact List.mem_map_of_mem (List.mem_reverse.mpr hc)
  obtain ⟨i, hi, heq⟩ := List.getElem_of_mem hhead
  have hi' : i < chunks.length := hall.length_eq ▸ hi
  have hlinked := hall.get hi hi'
  simp only [List.get_eq_getElem, heq] at hlinked
  have hd : chunks[i].length = c.length := by
    have h₁ := hsizes chunks[i] (List.getElem_mem hi')
    have h₂ := h.full c hc
    omega
  exact (hlinked.walk.unique (h.chains c hc) hd).2.symm

end Finished

end ThletEvaluation.Shinjuku
