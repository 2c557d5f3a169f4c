import Mathlib.Data.List.Nodup
import Mathlib.Data.List.Perm.Basic
import ThletEvaluation.Lib.Chain
import ThletEvaluation.Shinjuku.Mempool

/-!
# Where the elements of a datastore are

A layout lists, for each pool, the elements behind `head` and `private_chunk`, and
the chunks of the datastore. The calls of `mempool.c` move elements between these
places; the moves are stated on layouts first, and the pointer code is then shown
to make exactly these moves.
-/

namespace ThletEvaluation.Shinjuku

open Chain
set_option autoImplicit false

structure Layout where
  head : Nat → List Addr
  priv : Nat → List Addr
  chunks : List (List Addr)

namespace Layout

def cached (L : Layout) (p : Nat) : List Addr := L.head p ++ L.priv p

def free (L : Layout) (P : Nat) : List Addr :=
  (List.range P).flatMap L.cached ++ L.chunks.flatten

structure Represents (L : Layout) (P : Nat) (s : Pools) : Prop where
  head : ∀ p < P, Linked (fun a => (s.mem a).next) NULL (s.pool p).head (L.head p)
  priv : ∀ p < P, Linked (fun a => (s.mem a).next) NULL (s.pool p).privateChunk (L.priv p)
  chunks : Chunked (fun a => (s.mem a).next) (fun a => (s.mem a).nextChunk) NULL
    s.mds.chunkHead L.chunks

/-- `Alloc p L a second L'`: pool `p` hands out `a`, from the hottest place that has
one; `second` tells whether that takes the second stage. -/
inductive Alloc (p : Nat) (L : Layout) (a : Addr) : Bool → Layout → Prop where
  | hot {xs : List Addr} : L.head p = a :: xs →
      Alloc p L a false { L with head := Function.update L.head p xs }
  | priv {xs : List Addr} : L.head p = [] → L.priv p = a :: xs →
      Alloc p L a true { L with
        head := Function.update L.head p xs
        priv := Function.update L.priv p [] }
  | chunk {xs : List Addr} {cs : List (List Addr)} : L.head p = [] → L.priv p = [] →
      L.chunks = (a :: xs) :: cs →
      Alloc p L a true { L with head := Function.update L.head p xs, chunks := cs }

/-- `Free p L a second L'`: pool `p` takes `a` back. The second stage starts a new head
list and retires the old one, pushing the list retired before it to the datastore. -/
inductive Free (p : Nat) (L : Layout) (a : Addr) : Bool → Layout → Prop where
  | hot : Free p L a false { L with head := Function.update L.head p (a :: L.head p) }
  | retire : L.priv p = [] →
      Free p L a true { L with
        head := Function.update L.head p [a]
        priv := Function.update L.priv p (L.head p) }
  | restock : L.priv p ≠ [] →
      Free p L a true {
        head := Function.update L.head p [a]
        priv := Function.update L.priv p (L.head p)
        chunks := L.priv p :: L.chunks }

def others (L : Layout) (P p : Nat) : List Addr := ((List.range P).erase p).flatMap L.cached

theorem free_split (L : Layout) {P p : Nat} (hp : p < P) :
    (L.free P).Perm (L.cached p ++ (L.chunks.flatten ++ L.others P p)) := by
  have hrange : (List.range P).Perm (p :: (List.range P).erase p) :=
    List.perm_cons_erase (List.mem_range.mpr hp)
  have hcached : ((List.range P).flatMap L.cached).Perm (L.cached p ++ L.others P p) := by
    simpa [others] using hrange.flatMap_right L.cached
  refine (hcached.append_right L.chunks.flatten).trans ?_
  rw [List.append_assoc]
  exact List.perm_append_comm.append_left (L.cached p)

theorem others_congr {L L' : Layout} {P p : Nat}
    (h : ∀ q, q ≠ p → L'.cached q = L.cached q) : L'.others P p = L.others P p := by
  apply List.flatMap_congr
  intro q hq
  exact h q (List.nodup_range.mem_erase_iff.mp hq).1

theorem Alloc.cached_ne {L L' : Layout} {p q : Nat} {a : Addr} {b : Bool} (h : Alloc p L a b L')
    (hq : q ≠ p) : L'.cached q = L.cached q := by
  cases h <;> simp [cached, hq]

theorem Free.cached_ne {L L' : Layout} {p q : Nat} {a : Addr} {b : Bool} (h : Free p L a b L')
    (hq : q ≠ p) : L'.cached q = L.cached q := by
  cases h <;> simp [cached, hq]

theorem Alloc.perm {L L' : Layout} {P p : Nat} {a : Addr} {b : Bool} (h : Alloc p L a b L')
    (hp : p < P) :
    (L.free P).Perm (a :: L'.free P) := by
  refine (L.free_split hp).trans (.trans ?_ ((L'.free_split hp).cons a).symm)
  rw [others_congr fun q hq => h.cached_ne hq]
  cases h with
  | hot hhead => simp [cached, hhead]
  | priv hhead hpriv => simp [cached, hhead, hpriv]
  | chunk hhead hpriv hchunks => simp [cached, hhead, hpriv, hchunks]

theorem Free.perm {L L' : Layout} {P p : Nat} {a : Addr} {b : Bool} (h : Free p L a b L')
    (hp : p < P) :
    (L'.free P).Perm (a :: L.free P) := by
  refine (L'.free_split hp).trans (.trans ?_ ((L.free_split hp).cons a).symm)
  rw [others_congr fun q hq => h.cached_ne hq]
  cases h with
  | hot => simp [cached]
  | retire hpriv => simp [cached, hpriv]
  | restock hpriv => simp [cached]

theorem mem_free_of_cached {L : Layout} {P q : Nat} {x : Addr} (hq : q < P)
    (h : x ∈ L.cached q) : x ∈ L.free P :=
  List.mem_append_left _ (List.mem_flatMap.mpr ⟨q, List.mem_range.mpr hq, h⟩)

theorem mem_free_of_chunks {L : Layout} {P : Nat} {x : Addr}
    (h : x ∈ L.chunks.flatten) : x ∈ L.free P := List.mem_append_right _ h

theorem Represents.unique {L L' : Layout} {P : Nat} {s : Pools}
    (h : L.Represents P s) (h' : L'.Represents P s) :
    (∀ p < P, L.head p = L'.head p ∧ L.priv p = L'.priv p) ∧ L.chunks = L'.chunks :=
  ⟨fun p hp => ⟨(h.head p hp).unique (h'.head p hp), (h.priv p hp).unique (h'.priv p hp)⟩,
    h.chunks.unique h'.chunks⟩

theorem Represents.put {L L' : Layout} {P p : Nat} {s : Pools} {r : Arena} {held : List Addr}
    (h : L.Represents P s)
    (hhead : Linked (fun a => (r.mem a).next) NULL r.m.head (L'.head p))
    (hpriv : Linked (fun a => (r.mem a).next) NULL r.m.privateChunk (L'.priv p))
    (hchunks : Chunked (fun a => (r.mem a).next) (fun a => (r.mem a).nextChunk) NULL
      r.mds.chunkHead L'.chunks)
    (hother : ∀ q, q ≠ p → L'.head q = L.head q ∧ L'.priv q = L.priv q)
    (hmem : ∀ q < P, q ≠ p → ∀ x ∈ L.cached q, (r.mem x).next = (s.mem x).next) :
    L'.Represents P (s.put p r held) := by
  refine ⟨?_, ?_, hchunks⟩
  · intro q hq
    by_cases heq : q = p
    · subst q
      simpa [Pools.put] using hhead
    · rw [(hother q heq).1]
      simp only [Pools.put, Function.update_of_ne heq]
      exact (h.head q hq).frame fun x hx => hmem q hq heq x (List.mem_append_left _ hx)
  · intro q hq
    by_cases heq : q = p
    · subst q
      simpa [Pools.put] using hpriv
    · rw [(hother q heq).2]
      simp only [Pools.put, Function.update_of_ne heq]
      exact (h.priv q hq).frame fun x hx => hmem q hq heq x (List.mem_append_right _ hx)

end Layout

end ThletEvaluation.Shinjuku
