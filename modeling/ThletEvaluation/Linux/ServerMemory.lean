import ThletEvaluation.Linux.ServerConnections

/-!
# The memory of the table

`hash_init` allocates a lock for each bucket, `put` an entry when it finds none, and `hash_free`
frees both. What was allocated is at every moment what was freed and what is there; and the
threads use the table only while it is there, unless `accept` fails after a thread was started.
-/

namespace ThletEvaluation.Linux

open Locked Run

set_option autoImplicit false

def newEntries : List ServerEvent → List (Fin NUM_BUCKETS) :=
  List.filterMap fun
    | .newEntry b => some b
    | _ => none

def freedEntries : List ServerEvent → List (Fin NUM_BUCKETS) :=
  List.filterMap fun
    | .freeEntry b => some b
    | _ => none

def freedLocks : List ServerEvent → List (Fin NUM_BUCKETS) :=
  List.filterMap fun
    | .freeLock b => some b
    | _ => none

/-- The buckets that `hash_free` has still before it. -/
def MainPlace.remaining : MainPlace → List (Fin NUM_BUCKETS)
  | .destroying rest _ => rest
  | .exited _ => []
  | _ => List.finRange NUM_BUCKETS

/-- The second event does not use what the first has freed. -/
def Apart (e e' : ServerEvent) : Prop := ∀ t b, e = .freeLock b → e' ≠ .touch t b

structure Ledger (tr : List ServerEvent) (s : ServerSys) : Prop where
  entries : ∀ b, (newEntries tr).count b =
    (freedEntries tr).count b + if (s.table.cell b).isSome then 1 else 0
  once : ∀ b, (newEntries tr).count b ≤ 1
  locks : freedLocks tr ++ s.main.remaining = List.finRange NUM_BUCKETS
  gone : ∀ b ∈ freedLocks tr, s.table.cell b = none
  kept : ∀ b, b ∉ freedLocks tr → b ∉ freedEntries tr
  apart : tr.Pairwise Apart

section Ledger
variable {signed : Bool} {s s' : ServerSys} {tr es : List ServerEvent}

@[simp] theorem newEntries_append (tr tr' : List ServerEvent) :
    newEntries (tr ++ tr') = newEntries tr ++ newEntries tr' := List.filterMap_append

@[simp] theorem freedEntries_append (tr tr' : List ServerEvent) :
    freedEntries (tr ++ tr') = freedEntries tr ++ freedEntries tr' := List.filterMap_append

@[simp] theorem freedLocks_append (tr tr' : List ServerEvent) :
    freedLocks (tr ++ tr') = freedLocks tr ++ freedLocks tr' := List.filterMap_append

theorem mem_freedLocks {b : Fin NUM_BUCKETS} : b ∈ freedLocks tr ↔ .freeLock b ∈ tr := by
  simp only [freedLocks, List.mem_filterMap]
  constructor
  · rintro ⟨e, he, h⟩
    cases e <;> simp at h
    exact h ▸ he
  · exact fun h => ⟨_, h, rfl⟩

/-- No step frees and uses. -/
theorem Ledger.apart_append (h : Ledger tr s) (hes : es.Pairwise Apart)
    (hfree : freedLocks tr = [] ∨ ∀ t b, .touch t b ∉ es) : (tr ++ es).Pairwise Apart := by
  refine List.pairwise_append.mpr ⟨h.apart, hes, ?_⟩
  rintro e he e' he' t b rfl rfl
  rcases hfree with hnil | hno
  · have hmem := mem_freedLocks.mpr he
    simp [hnil] at hmem
  · exact hno t b he'

theorem pairwise_apart_of_no_free (h : freedLocks es = []) : es.Pairwise Apart := by
  apply List.pairwise_of_forall_mem_list
  rintro e he e' he' t b rfl
  have hmem := mem_freedLocks.mpr he
  simp [h] at hmem

/-- A step that allocates and frees nothing. -/
theorem Ledger.same (h : Ledger tr s) (hnew : newEntries es = []) (hentries : freedEntries es = [])
    (hlocks : freedLocks es = []) (hcell : ∀ b, (s'.table.cell b).isSome = (s.table.cell b).isSome)
    (hmain : s'.main.remaining = s.main.remaining)
    (htouch : freedLocks tr = [] ∨ ∀ t b, .touch t b ∉ es) : Ledger (tr ++ es) s' where
  entries b := by simpa [hnew, hentries, hcell b] using h.entries b
  once b := by simpa [hnew] using h.once b
  locks := by simpa [hlocks, hmain] using h.locks
  gone b hb := by
    have hb : b ∈ freedLocks tr := by simpa [hlocks] using hb
    have hnone := hcell b
    rw [h.gone b hb] at hnone
    simpa using hnone
  kept b hb := by simpa [hentries] using h.kept b (by simpa [hlocks] using hb)
  apart := h.apart_append (pairwise_apart_of_no_free hlocks) htouch

theorem Ledger.none_freed (h : Ledger tr s) (hserving : s.main.Serving) : freedLocks tr = [] := by
  have hlocks := h.locks
  have hall : s.main.remaining = List.finRange NUM_BUCKETS := by
    cases hmain : s.main with
    | accepting n => rfl
    | joining i n => rfl
    | destroying rest status => rw [hmain] at hserving; cases hserving
    | exited status => rw [hmain] at hserving; cases hserving
  rw [hall] at hlocks
  simpa using congrArg List.length hlocks

theorem newEntries_eq_nil (h : ∀ b, .newEntry b ∉ es) : newEntries es = [] := by
  rw [newEntries, List.filterMap_eq_nil_iff]
  intro e he
  cases e with
  | newEntry b => exact absurd he (h b)
  | _ => rfl

theorem memoryEvents_nothing_freed (signed : Bool) (a : Action HashCall Entries)
    (table : HashState) (ts : List HashEvent) :
    freedEntries (memoryEvents signed table a ++ ts.map .table) = [] ∧
      freedLocks (memoryEvents signed table a ++ ts.map .table) = [] := by
  constructor
  all_goals
    simp only [freedEntries, freedLocks, List.filterMap_eq_nil_iff]
    intro e he
    rcases List.mem_append.mp he with he | he
    · rcases memoryEvents_cases he with ⟨b, rfl⟩ | ⟨_, b, _, _, _, _, rfl, _⟩ <;> rfl
    · obtain ⟨e', -, rfl⟩ := List.mem_map.mp he
      rfl

theorem HashPlace.access_isSome {m m' : HashPlace} {v v' : Option Entries} {fresh : Entries}
    (h : m.access v fresh = some (m', v')) (hm : ∀ key value, m ≠ .putNew key value) :
    v'.isSome = v.isSome := by
  cases m with
  | putTest key value => cases v <;> cases h <;> rfl
  | putNew key value => exact absurd rfl (hm key value)
  | putKey key value i padding =>
    cases v with
    | none => cases h
    | some e =>
      obtain ⟨c, -, h⟩ := Option.map_eq_some_iff.mp h
      cases h
      rfl
  | putValue value i padding =>
    cases v with
    | none => cases h
    | some e =>
      obtain ⟨c, -, h⟩ := Option.map_eq_some_iff.mp h
      cases h
      rfl
  | getTest value => cases v <;> cases h <;> rfl
  | getValue value i padding =>
    cases v with
    | none => cases h
    | some e =>
      simp only [access, Option.ite_none_right_eq_some] at h
      obtain ⟨c, -, h⟩ := Option.map_eq_some_iff.mp h.2
      cases h
      rfl
  | finished result => cases h

/-- A step inside a call allocates an entry for an empty bucket or leaves every bucket as full as
it was. -/
theorem inside_cells {a : Action HashCall Entries} {table table' : HashState}
    {ts : List HashEvent} {T : Hash} {st : Nat → Status HashCall (Option (List UInt8))}
    (hsim : Simulates (hashBody signed) Hash.buckets GoodBucket
      (fun call v₀ m v => HashStage v₀ call m v) T st table) (hcall : a.isCall = false)
    (hstep : (hashMachine signed).step table a = some (table', ts)) :
    ((∀ b, (table'.cell b).isSome = (table.cell b).isSome) ∧
      newEntries (memoryEvents signed table a ++ ts.map .table) = []) ∨
    ∃ b, table.cell b = none ∧ (∃ e, table'.cell = Function.update table.cell b (some e)) ∧
      newEntries (memoryEvents signed table a ++ ts.map .table) = [b] := by
  have hts : newEntries (ts.map .table) = [] := by
    apply newEntries_eq_nil
    intro b hb
    obtain ⟨_, -, h⟩ := List.mem_map.mp hb
    cases h
  rw [newEntries_append, hts, List.append_nil]
  have hnone : (∀ t c, a ≠ .access t c) → newEntries (memoryEvents signed table a) = [] := by
    intro ha
    apply newEntries_eq_nil
    intro b hb
    rcases memoryEvents_cases hb with ⟨b', h⟩ | ⟨t, b', _, _, _, c, _, h, _⟩
    · cases h
    · exact ha t c h
  cases hash_step_move hstep with
  | call op hphase => cases hcall
  | acquire hphase hlock hfree => exact .inl ⟨fun b => rfl, hnone (by simp)⟩
  | release hphase hlock hres => exact .inl ⟨fun b => rfl, hnone (by simp)⟩
  | ret hphase => exact .inl ⟨fun b => rfl, hnone (by simp)⟩
  | @access t call b m m' fresh v hphase hlock haccess =>
    have hhash : hash signed call.key = some b := hlock
    obtain ⟨-, hstage⟩ := hsim.inside_of_lock hphase hlock
    by_cases hm : ∃ key value, m = .putNew key value
    · obtain ⟨key, value, rfl⟩ := hm
      right
      have hempty : table.cell b = none := by
        generalize hv : table.cell b = v at hstage
        cases hstage
        rfl
      have hv : v = some fresh := by
        simp only [hashBody, HashPlace.access, Option.ite_none_right_eq_some, Option.some.injEq,
          Prod.mk.injEq] at haccess
        exact haccess.2.2.symm
      refine ⟨b, hempty, ⟨fresh, by rw [hv]⟩, ?_⟩
      simp [memoryEvents, hphase, hhash, newEntries]
    · left
      have hm : ∀ key value, m ≠ .putNew key value := fun key value h => hm ⟨key, value, h⟩
      constructor
      · intro b'
        rcases eq_or_ne b' b with rfl | hne
        · simpa using HashPlace.access_isSome haccess hm
        · simp [hne]
      · apply newEntries_eq_nil
        intro b' hb'
        rcases memoryEvents_cases hb' with ⟨_, h⟩ | ⟨t', _, call', key, value, _, _, h, hphase', _⟩
        · cases h
        · cases h
          rw [hphase] at hphase'
          cases hphase'
          exact hm key value rfl

theorem Ledger.alloc {b : Fin NUM_BUCKETS} {e : Entries} (h : Ledger tr s)
    (hserving : s.main.Serving) (hempty : s.table.cell b = none)
    (hcell : s'.table.cell = Function.update s.table.cell b (some e)) (hmain : s'.main = s.main)
    (hnew : newEntries es = [b]) (hentries : freedEntries es = []) (hlocks : freedLocks es = []) :
    Ledger (tr ++ es) s' := by
  have hnil := h.none_freed hserving
  have hcount : (newEntries tr).count b = 0 := by
    have hkept := h.kept b (by simp [hnil])
    rw [h.entries b, hempty, List.count_eq_zero.mpr hkept]
    rfl
  constructor
  · intro b'
    rw [newEntries_append, freedEntries_append, hnew, hentries, hcell, List.append_nil,
      List.count_append, List.count_singleton]
    rcases eq_or_ne b' b with rfl | hne
    · have hkept := h.kept b' (by simp [hnil])
      simp [hcount, List.count_eq_zero.mpr hkept]
    · simpa [hne, Ne.symm hne] using h.entries b'
  · intro b'
    rw [newEntries_append, hnew, List.count_append, List.count_singleton]
    rcases eq_or_ne b' b with rfl | hne
    · simp [hcount]
    · simpa [hne, Ne.symm hne] using h.once b'
  · simpa [hlocks, hmain] using h.locks
  · intro b' hb'
    simp [hnil, hlocks] at hb'
  · intro b' _
    simpa [hentries] using h.kept b' (by simp [hnil])
  · exact h.apart_append (pairwise_apart_of_no_free hlocks) (.inl hnil)

theorem Ledger.destroy {b : Fin NUM_BUCKETS} {rest : List (Fin NUM_BUCKETS)} {status : Int}
    (h : Ledger tr s) (hmain : s.main = .destroying (b :: rest) status) :
    Ledger (tr ++ freeEvents b (s.table.cell b))
      { s.freeBucket b with main := .afterBucket rest status } := by
  have hlocks := h.locks
  rw [hmain, MainPlace.remaining] at hlocks
  have hb : b ∉ freedLocks tr := by
    have hnodup : (freedLocks tr ++ b :: rest).Nodup := hlocks ▸ List.nodup_finRange _
    exact fun hmem => (List.nodup_append.mp hnodup).2.2 b hmem b List.mem_cons_self rfl
  have hnew : newEntries (freeEvents b (s.table.cell b)) = [] := by
    cases s.table.cell b <;> rfl
  have hfree : freedLocks (freeEvents b (s.table.cell b)) = [b] := by
    cases s.table.cell b <;> rfl
  have hentries : freedEntries (freeEvents b (s.table.cell b)) =
      if (s.table.cell b).isSome then [b] else [] := by
    cases s.table.cell b <;> rfl
  constructor
  · intro b'
    rw [newEntries_append, freedEntries_append, hnew, hentries, List.append_nil,
      List.count_append, h.entries b']
    rcases eq_or_ne b' b with rfl | hne
    · cases s.table.cell b' <;> simp [ServerSys.freeBucket]
    · cases hcell : s.table.cell b <;> simp [ServerSys.freeBucket, hne, Ne.symm hne]
  · simpa [hnew] using h.once
  · rw [freedLocks_append, hfree, ← hlocks]
    cases rest <;> simp [MainPlace.afterBucket, MainPlace.remaining]
  · intro b' hb'
    rcases eq_or_ne b' b with rfl | hne
    · simp [ServerSys.freeBucket]
    · simpa [ServerSys.freeBucket, hne] using h.gone b' (by simpa [hfree, hne] using hb')
  · intro b' hb'
    have hne : b' ≠ b := by
      rintro rfl
      simp [hfree] at hb'
    have hkept := h.kept b' (by simpa [hfree, hne] using hb')
    rw [freedEntries_append, hentries]
    split <;> simp [hkept, hne]
  · refine h.apart_append ?_ (.inr ?_)
    · cases s.table.cell b with
      | none => simp [freeEvents]
      | some e => simp [freeEvents, Apart]
    · intro t b'
      cases s.table.cell b <;> simp [freeEvents]

theorem Ledger.step {a : ServerAct} (hlinear : Linear signed tr s) (h : Ledger tr s)
    (hstep : s.step signed a = some (s', es)) : Ledger (tr ++ es) s' := by
  cases ServerSys.step_move hstep with
  | @acceptFail n r hmain hr =>
    exact h.same rfl rfl rfl (fun _ => rfl) (by rw [hmain]; rfl) (.inr (by simp))
  | @accept n r hmain hr =>
    refine h.same rfl rfl rfl (fun _ => rfl) ?_ (.inr (by simp))
    rw [hmain]
    simp only [MainPlace.afterAccept]
    split <;> rfl
  | @join i n hmain hdone =>
    refine h.same rfl rfl rfl (fun _ => rfl) ?_ (.inr (by simp))
    rw [hmain]
    simp only [MainPlace.afterJoin]
    split <;> rfl
  | destroy hmain => exact h.destroy hmain
  | start alive hconn hlen => exact h.same rfl rfl rfl (fun _ => rfl) rfl (.inr (by simp))
  | recvExit alive hconn hpiece hcall =>
    exact h.same rfl rfl rfl (fun _ => rfl) rfl (.inr (by simp))
  | recvCall alive hconn hpiece hcall htable =>
    cases hash_step_move htable with
    | call op hphase => exact h.same rfl rfl rfl (fun _ => rfl) rfl (.inr (by simp))
  | recvEnd alive hconn => exact h.same rfl rfl rfl (fun _ => rfl) rfl (.inr (by simp))
  | @table a fd buffer table es alive hconn hcall htable =>
    have hserving := hlinear.staffed.serving (t := a.thread) (by simp only [hconn, Conn.Busy])
    obtain ⟨T, st, -, hsim⟩ := hlinear.linear
    obtain ⟨hentries, hlocks⟩ := memoryEvents_nothing_freed signed a s.table es
    have hafter : (s.afterTable a.thread fd buffer table).table = table ∧
        (s.afterTable a.thread fd buffer table).main = s.main := by
      rcases s.afterTable_cases a.thread fd buffer table with ⟨-, heq⟩ | heq <;> rw [heq] <;>
        exact ⟨rfl, rfl⟩
    rcases inside_cells (hsim hserving) hcall htable with
      ⟨hcell, hnew⟩ | ⟨b, hempty, ⟨e, hcell⟩, hnew⟩
    · exact h.same hnew hentries hlocks (by rw [hafter.1]; exact hcell) (by rw [hafter.2])
        (.inl (h.none_freed hserving))
    · exact h.alloc hserving hempty (by rw [hafter.1]; exact hcell) hafter.2 hnew hentries hlocks
  | reply alive hconn => exact h.same rfl rfl rfl (fun _ => rfl) rfl (.inr (by simp))
  | close alive hconn => exact h.same rfl rfl rfl (fun _ => rfl) rfl (.inr (by simp))

end Ledger

/-! ## When `accept` fails -/

section Failure
variable {signed : Bool} {client : Nat → Int}

theorem ledger_of_runs {s : ServerSys} {tr : List ServerEvent}
    (hrun : Runs (serverMachine signed) (FailsAt 0) (serverStart client) tr s) : Ledger tr s := by
  refine (hrun.invariant (I := fun tr s => Linear signed tr s ∧ Ledger tr s) ?_ ?_).2
  · refine ⟨.start client, ?_⟩
    constructor <;> simp [newEntries, freedEntries, freedLocks, serverStart, hashStart, hashInit,
      State.start, MainPlace.remaining]
  · rintro tr es s s' a ⟨hlinear, hledger⟩ hok hstep
    exact ⟨hlinear.step hok hstep, hledger.step hlinear hstep⟩

theorem ServerSys.Move.run {ok : ServerSys → ServerAct → Prop} {s₀ s s' : ServerSys}
    {a : ServerAct} {tr es : List ServerEvent} (h : s.Move signed a s' es)
    (hrun : Runs (serverMachine signed) ok s₀ tr s) (hok : ok s a) :
    Runs (serverMachine signed) ok s₀ (tr ++ es) s' :=
  hrun.next hok h.step

/-- A trace that `Apart` admits has no use behind a free. -/
theorem not_apart {tr es : List ServerEvent} {b : Fin NUM_BUCKETS} {t : Nat}
    (hfree : .freeLock b ∈ tr) (htouch : .touch t b ∈ es) : ¬ (tr ++ es).Pairwise Apart :=
  fun h => (List.pairwise_append.mp h).2.2 _ hfree _ htouch t b rfl rfl

theorem accepts_run (signed : Bool) (client : Nat → Int) (k : Nat) {n : Nat}
    (hn : n < NUM_SERVERS) :
    ∃ tr s, Runs (serverMachine signed) (FailsAt k) (serverStart client) tr s ∧
      s.main = .accepting n ∧ (∀ t < n, s.conn t = .created) ∧ s.table = hashStart := by
  induction n with
  | zero => exact ⟨[], _, .start, rfl, by simp, rfl⟩
  | succ n ih =>
    obtain ⟨tr, s, hrun, hmain, hconn, htable⟩ := ih (by omega)
    have hr : ¬ (3 : Int) < 0 := by decide
    refine ⟨_, _, (ServerSys.Move.accept hmain hr).run hrun fun h => absurd h hr,
      by simp [MainPlace.afterAccept, hn], fun t ht => ?_, htable⟩
    rcases eq_or_ne t n with rfl | hne
    · simp [ServerSys.setConn]
    · simpa [ServerSys.setConn, hne] using hconn t (by omega)

theorem getRecord_call (signed : Bool) : ∃ key b b' rest,
    rpcCall (recvInto (List.replicate RPC_SIZE 0) (recordEnding .get 0).bytes) = some (.get key) ∧
      hash signed key = some b ∧ List.finRange NUM_BUCKETS = b :: b' :: rest := by
  have hrange : List.finRange (98 + 1 + 1) =
      0 :: 1 :: ((List.finRange 98).map Fin.succ).map Fin.succ := by
    rw [List.finRange_succ, List.finRange_succ, List.map_cons]
    rfl
  refine ⟨List.replicate 110 0, ⟨0, by decide⟩, ⟨1, by decide⟩, _, by decide +kernel, ?_, hrange⟩
  cases signed <;> decide +kernel

/-- Thread 0 has begun a call and is about to take the lock of the first bucket. -/
theorem calling_run (signed : Bool) (client : Nat → Int) {k : Nat} (hk : k < NUM_SERVERS)
    (hpos : 0 < k) :
    ∃ tr s fd buffer call b b' rest,
      Runs (serverMachine signed) (FailsAt k) (serverStart client) tr s ∧ s.main = .accepting k ∧
      s.conn 0 = .handling fd buffer ∧ s.table.phase 0 = .waiting call ∧
      hash signed call.key = some b ∧ s.table.holder b = none ∧
      List.finRange NUM_BUCKETS = b :: b' :: rest := by
  obtain ⟨tr, s, hrun, hmain, hconn, htable⟩ := accepts_run signed client k hk
  obtain ⟨key, b, b', rest, hcall, hhash, hrest⟩ := getRecord_call signed
  have alive : ∀ c, s.main ≠ .exited c := by simp [hmain]
  have hlen : (List.replicate RPC_SIZE (0 : UInt8)).length = RPC_SIZE := List.length_replicate
  have hpiece : (recordEnding .get 0).bytes ≠ [] ∧
      (recordEnding .get 0).bytes.length ≤ RPC_SIZE := by
    decide +kernel
  have hrun₁ := (ServerSys.Move.start alive (hconn 0 hpos) hlen).run hrun trivial
  have hconn₁ := s.setConn_conn_self 0 (.receiving (s.client 0) (List.replicate RPC_SIZE 0))
  have hstep : (hashMachine signed).step s.table (.call 0 (Call.get key).hashCall) =
      some (hashStart.at 0 (.waiting (Call.get key).hashCall),
        [.call 0 (Call.get key).hashCall]) := by
    rw [htable]
    rfl
  exact ⟨_, _, s.client 0, recvInto (List.replicate RPC_SIZE 0) (recordEnding .get 0).bytes,
    (Call.get key).hashCall, b, b', rest,
    (ServerSys.Move.recvCall (by exact alive) hconn₁ hpiece hcall hstep).run hrun₁ trivial,
    hmain, by simp, State.at_phase_self, hhash, rfl, hrest⟩

/-- When `accept` fails then, the lock is freed before the thread takes it. -/
theorem use_after_free (signed : Bool) (client : Nat → Int) {k : Nat} (hk : k < NUM_SERVERS)
    (hpos : 0 < k) :
    ∃ tr s, Runs (serverMachine signed) (FailsAt k) (serverStart client) tr s ∧
      ¬ tr.Pairwise Apart := by
  obtain ⟨tr, s, fd, buffer, call, b, b', rest, hrun, hmain, hconn, hphase, hhash, hfree, hrest⟩ :=
    calling_run signed client hk hpos
  have hrun₁ := (ServerSys.Move.acceptFail hmain (by decide : (-1 : Int) < 0)).run hrun
    fun _ => hmain
  have hdestroying : MainPlace.destroying (List.finRange NUM_BUCKETS) (-1) =
      .destroying (b :: b' :: rest) (-1) := by rw [hrest]
  have hrun₂ := (ServerSys.Move.destroy hdestroying).run hrun₁ trivial
  obtain ⟨table, htable⟩ : ∃ table, (hashMachine signed).step
      { s.table with cell := Function.update s.table.cell b none } (.acquire 0) =
        some (table, []) := by
    simp only [hashMachine, Body.machine, Body.step, hphase, hashBody]
    exact ⟨_, Option.bind_eq_some_iff.mpr ⟨b, hhash, by rw [hfree]⟩⟩
  have hrun₃ := (ServerSys.Move.table (a := .acquire 0) (by rintro c ⟨⟩) (by exact hconn) rfl
    (by exact htable)).run hrun₂ trivial
  refine ⟨_, _, hrun₃, not_apart (b := b) (t := 0) ?_ (List.mem_append_left _ ?_)⟩
  · apply List.mem_append_right
    cases s.table.cell b <;> simp [freeEvents]
  · simp [memoryEvents, ServerSys.freeBucket, hphase, hhash]

/-- The locks and the entries of the table are freed once, all of them by the time `main` returns,
and none is used afterwards: this holds of every run in which `accept` fails at most after `k`
threads have been started exactly if that is before the first. -/
theorem table_memory_safe_iff (signed : Bool) (client : Nat → Int) (k : Fin NUM_SERVERS) :
    (∀ tr s, Runs (serverMachine signed) (FailsAt k) (serverStart client) tr s →
      tr.Pairwise Apart ∧ (freedLocks tr).Nodup ∧
      (∀ b, (freedEntries tr).count b ≤ (newEntries tr).count b ∧ (newEntries tr).count b ≤ 1) ∧
      ∀ status, s.main = .exited status → freedLocks tr = List.finRange NUM_BUCKETS ∧
        ∀ b, (freedEntries tr).count b = (newEntries tr).count b) ↔
    k.val = 0 := by
  constructor
  · intro h
    by_contra hk
    obtain ⟨tr, s, hrun, hnot⟩ := use_after_free signed client k.isLt (Nat.pos_of_ne_zero hk)
    exact hnot (h tr s hrun).1
  · intro hk tr s hrun
    rw [hk] at hrun
    have hledger := ledger_of_runs hrun
    have hnodup : (freedLocks tr ++ s.main.remaining).Nodup :=
      hledger.locks ▸ List.nodup_finRange _
    refine ⟨hledger.apart, (List.nodup_append.mp hnodup).1, fun b => ⟨?_, hledger.once b⟩, ?_⟩
    · rw [hledger.entries b]
      exact Nat.le_add_right _ _
    · intro status hstatus
      have hlocks := hledger.locks
      rw [hstatus, MainPlace.remaining, List.append_nil] at hlocks
      refine ⟨hlocks, fun b => ?_⟩
      have hgone := hledger.gone b (hlocks ▸ List.mem_finRange b)
      rw [hledger.entries b, hgone]
      rfl

end Failure

end ThletEvaluation.Linux
