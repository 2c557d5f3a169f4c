import ThletEvaluation.Linux.HashLocks
import ThletEvaluation.Linux.Server

/-!
# The TCP server as a whole

`main` of `server.c` accepts connections, starts a thread for each, joins the threads and frees
the table; the threads receive, call `put` and `get` under the bucket locks, and reply. All of
them interleave. When `accept` fails, `main` frees the table at once, and the threads that are
there run on until the process is gone.
-/

namespace ThletEvaluation.Linux

open Locked Run

set_option autoImplicit false

def NUM_SERVERS : Nat := 10000

/-- Where the thread of a connection is. In `handling` it is inside `put` or `get`. -/
inductive Conn where
  | unborn
  | created
  | receiving (fd : Int) (buffer : List UInt8)
  | handling (fd : Int) (buffer : List UInt8)
  | replying (fd : Int) (buffer : List UInt8) (last : Bool)
  | closing (fd : Int)
  | finished
  deriving DecidableEq

/-- Where `main` is: `destroying` has the buckets that `hash_free` has not come to yet. -/
inductive MainPlace where
  | accepting (threads : Nat)
  | joining (i threads : Nat)
  | destroying (rest : List (Fin NUM_BUCKETS)) (status : Int)
  | exited (status : Int)

structure ServerSys where
  main : MainPlace
  client : Nat → Int
  conn : Nat → Conn
  table : HashState

inductive ServerAct where
  | accept (r : Int)
  | join
  | destroy
  /-- The thread begins; `buffer` is what it finds on its stack. -/
  | start (t : Nat) (buffer : List UInt8)
  | recv (t : Nat) (piece : List UInt8)
  | recvEnd (t : Nat)
  | table (a : Action HashCall Entries)
  | reply (t : Nat)
  | close (t : Nat)

inductive ServerEvent where
  | accepted (t : Nat) (fd : Int)
  | started (t : Nat) (fd : Int) (buffer : List UInt8)
  | received (t : Nat) (piece : List UInt8)
  | handled (t : Nat) (buffer : List UInt8)
  | table (e : HashEvent)
  /-- The thread uses the lock or the entry of the bucket. -/
  | touch (t : Nat) (b : Fin NUM_BUCKETS)
  | newEntry (b : Fin NUM_BUCKETS)
  | freeEntry (b : Fin NUM_BUCKETS)
  | freeLock (b : Fin NUM_BUCKETS)
  | replied (t : Nat) (fd : Int) (bytes : List UInt8)
  | closed (t : Nat) (fd : Int)

/-- The call as `handle_rpc` makes it, with its local array for the value of a `get`. -/
def Call.hashCall : Call → HashCall
  | .get key => .get key (List.replicate VALUE_SIZE 0)
  | .put key value => .put key value

/-- The memory that a step of a thread on the table uses. -/
def memoryEvents (signed : Bool) (s : HashState) : Action HashCall Entries → List ServerEvent
  | .acquire t =>
    match s.phase t with
    | .waiting call => (hash signed call.key).toList.map (.touch t)
    | _ => []
  | .access t _ =>
    match s.phase t with
    | .inside call (.putNew _ _) =>
      (hash signed call.key).toList.flatMap fun b => [.touch t b, .newEntry b]
    | .inside call _ => (hash signed call.key).toList.map (.touch t)
    | _ => []
  | .release t =>
    match s.phase t with
    | .inside call _ => (hash signed call.key).toList.map (.touch t)
    | _ => []
  | _ => []

/-- `hash_free` of one bucket: `free_iter`, which finds at most one entry, and the lock. -/
def freeEvents (b : Fin NUM_BUCKETS) : Option Entries → List ServerEvent
  | none => [.freeLock b]
  | some _ => [.freeEntry b, .freeLock b]

/-- The loop conditions of `main`. -/
def MainPlace.afterAccept (threads : Nat) : MainPlace :=
  if threads < NUM_SERVERS then .accepting threads else .joining 0 threads

def MainPlace.afterJoin (i threads : Nat) : MainPlace :=
  if i < threads then .joining i threads else .destroying (List.finRange NUM_BUCKETS) 0

def MainPlace.afterBucket (rest : List (Fin NUM_BUCKETS)) (status : Int) : MainPlace :=
  match rest with
  | [] => .exited status
  | b :: rest => .destroying (b :: rest) status

namespace ServerSys

def setConn (s : ServerSys) (t : Nat) (c : Conn) : ServerSys :=
  { s with conn := Function.update s.conn t c }

def freeBucket (s : ServerSys) (b : Fin NUM_BUCKETS) : ServerSys :=
  { s with table := { s.table with cell := Function.update s.table.cell b none } }

/-- When the call has returned the thread goes on to its reply. -/
def afterTable (s : ServerSys) (t : Nat) (fd : Int) (buffer : List UInt8) (table : HashState) :
    ServerSys :=
  match table.phase t with
  | .idle => { s.setConn t (.replying fd buffer false) with table := table }
  | _ => { s with table := table }

/-- `main`. -/
def mainStep (s : ServerSys) : ServerAct → Option (ServerSys × List ServerEvent)
  | .accept r =>
    match s.main with
    | .accepting n =>
      let s := { s with client := Function.update s.client n r }
      if r < 0 then some ({ s with main := .destroying (List.finRange NUM_BUCKETS) (-1) }, [])
      else
        some ({ s.setConn n .created with main := .afterAccept (n + 1) }, [.accepted n r])
    | _ => none
  | .join =>
    match s.main with
    | .joining i n =>
      match s.conn i with
      | .finished => some ({ s with main := .afterJoin (i + 1) n }, [])
      | _ => none
    | _ => none
  | .destroy =>
    match s.main with
    | .destroying (b :: rest) status =>
      some ({ s.freeBucket b with main := .afterBucket rest status },
        freeEvents b (s.table.cell b))
    | _ => none
  | _ => none

/-- The body of the thread function `server`. -/
def connStep (signed : Bool) (s : ServerSys) : ServerAct → Option (ServerSys × List ServerEvent)
  | .start t buffer =>
    match s.conn t with
    | .created =>
      if buffer.length = RPC_SIZE then
        some (s.setConn t (.receiving (s.client t) buffer), [.started t (s.client t) buffer])
      else none
    | _ => none
  | .recv t piece =>
    match s.conn t with
    | .receiving fd old =>
      if piece ≠ [] ∧ piece.length ≤ RPC_SIZE then
        let buffer := recvInto old piece
        match rpcCall buffer with
        | none => some (s.setConn t (.replying fd buffer true),
            [.received t piece, .handled t buffer])
        | some call =>
          ((hashMachine signed).step s.table (.call t call.hashCall)).map fun r =>
            ({ s.setConn t (.handling fd buffer) with table := r.1 },
              [.received t piece, .handled t buffer] ++ r.2.map .table)
      else none
    | _ => none
  | .recvEnd t =>
    match s.conn t with
    | .receiving fd _ => some (s.setConn t (.closing fd), [])
    | _ => none
  | .table a =>
    match s.conn a.thread with
    | .handling fd buffer =>
      if a.isCall then none
      else
        ((hashMachine signed).step s.table a).map fun r =>
          (s.afterTable a.thread fd buffer r.1, memoryEvents signed s.table a ++ r.2.map .table)
    | _ => none
  | .reply t =>
    match s.conn t with
    | .replying fd buffer last =>
      some (s.setConn t (if last then .closing fd else .receiving fd buffer),
        [.replied t fd (buffer.take 4)])
    | _ => none
  | .close t =>
    match s.conn t with
    | .closing fd => some (s.setConn t .finished, [.closed t fd])
    | _ => none
  | _ => none

/-- Nothing runs any more once `main` has returned. -/
def step (signed : Bool) (s : ServerSys) (a : ServerAct) :
    Option (ServerSys × List ServerEvent) :=
  match s.main with
  | .exited _ => none
  | _ => (s.mainStep a).or (s.connStep signed a)

end ServerSys

def serverMachine (signed : Bool) : Machine ServerSys ServerAct ServerEvent :=
  ⟨ServerSys.step signed⟩

/-- After `init`; the descriptors in `client` are what the stack held before. -/
def serverStart (client : Nat → Int) : ServerSys :=
  ⟨.accepting 0, client, fun _ => .unborn, hashStart⟩

/-! ## What a step can do -/

namespace ServerSys

@[simp] theorem setConn_conn_self (s : ServerSys) (t : Nat) (c : Conn) :
    (s.setConn t c).conn t = c := Function.update_self ..

/-- The actions of the connection threads; `alive` is that the process still runs. -/
inductive Move (signed : Bool) (s : ServerSys) :
    ServerAct → ServerSys → List ServerEvent → Prop where
  | acceptFail {n : Nat} {r : Int} (hmain : s.main = .accepting n) (hr : r < 0) :
      Move signed s (.accept r) { s with
        client := Function.update s.client n r
        main := .destroying (List.finRange NUM_BUCKETS) (-1) } []
  | accept {n : Nat} {r : Int} (hmain : s.main = .accepting n) (hr : ¬ r < 0) :
      Move signed s (.accept r) { s.setConn n .created with
        client := Function.update s.client n r
        main := .afterAccept (n + 1) } [.accepted n r]
  | join {i n : Nat} (hmain : s.main = .joining i n) (hdone : s.conn i = .finished) :
      Move signed s .join { s with main := .afterJoin (i + 1) n } []
  | destroy {b : Fin NUM_BUCKETS} {rest : List (Fin NUM_BUCKETS)} {status : Int}
      (hmain : s.main = .destroying (b :: rest) status) :
      Move signed s .destroy { s.freeBucket b with main := .afterBucket rest status }
        (freeEvents b (s.table.cell b))
  | start {t : Nat} {buffer : List UInt8} (alive : ∀ c, s.main ≠ .exited c)
      (hconn : s.conn t = .created) (hlen : buffer.length = RPC_SIZE) :
      Move signed s (.start t buffer) (s.setConn t (.receiving (s.client t) buffer))
        [.started t (s.client t) buffer]
  | recvExit {t : Nat} {fd : Int} {old piece : List UInt8} (alive : ∀ c, s.main ≠ .exited c)
      (hconn : s.conn t = .receiving fd old) (hpiece : piece ≠ [] ∧ piece.length ≤ RPC_SIZE)
      (hcall : rpcCall (recvInto old piece) = none) :
      Move signed s (.recv t piece) (s.setConn t (.replying fd (recvInto old piece) true))
        [.received t piece, .handled t (recvInto old piece)]
  | recvCall {t : Nat} {fd : Int} {old piece : List UInt8} {call : Call} {table : HashState}
      {es : List HashEvent} (alive : ∀ c, s.main ≠ .exited c)
      (hconn : s.conn t = .receiving fd old) (hpiece : piece ≠ [] ∧ piece.length ≤ RPC_SIZE)
      (hcall : rpcCall (recvInto old piece) = some call)
      (hstep : (hashMachine signed).step s.table (.call t call.hashCall) = some (table, es)) :
      Move signed s (.recv t piece)
        { s.setConn t (.handling fd (recvInto old piece)) with table := table }
        ([.received t piece, .handled t (recvInto old piece)] ++ es.map .table)
  | recvEnd {t : Nat} {fd : Int} {old : List UInt8} (alive : ∀ c, s.main ≠ .exited c)
      (hconn : s.conn t = .receiving fd old) :
      Move signed s (.recvEnd t) (s.setConn t (.closing fd)) []
  | table {a : Action HashCall Entries} {fd : Int} {buffer : List UInt8} {table : HashState}
      {es : List HashEvent} (alive : ∀ c, s.main ≠ .exited c)
      (hconn : s.conn a.thread = .handling fd buffer) (hcall : a.isCall = false)
      (hstep : (hashMachine signed).step s.table a = some (table, es)) :
      Move signed s (.table a) (s.afterTable a.thread fd buffer table)
        (memoryEvents signed s.table a ++ es.map .table)
  | reply {t : Nat} {fd : Int} {buffer : List UInt8} {last : Bool}
      (alive : ∀ c, s.main ≠ .exited c) (hconn : s.conn t = .replying fd buffer last) :
      Move signed s (.reply t)
        (s.setConn t (if last then .closing fd else .receiving fd buffer))
        [.replied t fd (buffer.take 4)]
  | close {t : Nat} {fd : Int} (alive : ∀ c, s.main ≠ .exited c)
      (hconn : s.conn t = .closing fd) :
      Move signed s (.close t) (s.setConn t .finished) [.closed t fd]

variable {signed : Bool} {s s' : ServerSys} {a : ServerAct} {es : List ServerEvent}

theorem afterTable_cases (s : ServerSys) (t : Nat) (fd : Int) (buffer : List UInt8)
    (table : HashState) :
    (table.phase t = .idle ∧ s.afterTable t fd buffer table =
      { s.setConn t (.replying fd buffer false) with table := table }) ∨
    s.afterTable t fd buffer table = { s with table := table } := by
  unfold afterTable
  split
  next hidle => exact .inl ⟨hidle, rfl⟩
  next => exact .inr rfl

theorem mainStep_move (h : s.mainStep a = some (s', es)) : s.Move signed a s' es := by
  cases a with
  | accept r =>
    cases hmain : s.main with
    | accepting n =>
      simp only [mainStep, hmain] at h
      split at h
      next hr =>
        cases h
        exact .acceptFail hmain hr
      next hr =>
        cases h
        exact .accept hmain hr
    | _ => simp [mainStep, hmain] at h
  | join =>
    cases hmain : s.main with
    | joining i n =>
      cases hdone : s.conn i with
      | finished =>
        simp only [mainStep, hmain, hdone] at h
        cases h
        exact .join hmain hdone
      | _ => simp [mainStep, hmain, hdone] at h
    | _ => simp [mainStep, hmain] at h
  | destroy =>
    cases hmain : s.main with
    | destroying rest status =>
      cases rest with
      | nil => simp [mainStep, hmain] at h
      | cons b rest =>
        simp only [mainStep, hmain] at h
        cases h
        exact .destroy hmain
    | _ => simp [mainStep, hmain] at h
  | _ => cases h

theorem connStep_move (alive : ∀ c, s.main ≠ .exited c) (h : s.connStep signed a = some (s', es)) :
    s.Move signed a s' es := by
  cases a with
  | start t buffer =>
    cases hconn : s.conn t with
    | created =>
      simp only [connStep, hconn, Option.ite_none_right_eq_some] at h
      obtain ⟨hlen, h⟩ := h
      cases h
      exact .start alive hconn hlen
    | _ => simp [connStep, hconn] at h
  | recv t piece =>
    cases hconn : s.conn t with
    | receiving fd old =>
      simp only [connStep, hconn, Option.ite_none_right_eq_some] at h
      obtain ⟨hpiece, h⟩ := h
      cases hcall : rpcCall (recvInto old piece) with
      | none =>
        simp only [hcall] at h
        cases h
        exact .recvExit alive hconn hpiece hcall
      | some call =>
        simp only [hcall] at h
        obtain ⟨r, hstep, h⟩ := Option.map_eq_some_iff.mp h
        cases h
        exact .recvCall alive hconn hpiece hcall hstep
    | _ => simp [connStep, hconn] at h
  | recvEnd t =>
    cases hconn : s.conn t with
    | receiving fd old =>
      simp only [connStep, hconn] at h
      cases h
      exact .recvEnd alive hconn
    | _ => simp [connStep, hconn] at h
  | table a =>
    cases hconn : s.conn a.thread with
    | handling fd buffer =>
      simp only [connStep, hconn, Option.ite_none_left_eq_some] at h
      obtain ⟨hcall, h⟩ := h
      obtain ⟨r, hstep, h⟩ := Option.map_eq_some_iff.mp h
      cases h
      exact .table alive hconn (by simpa using hcall) hstep
    | _ => simp only [connStep, hconn, reduceCtorEq] at h
  | reply t =>
    cases hconn : s.conn t with
    | replying fd buffer last =>
      simp only [connStep, hconn] at h
      cases h
      exact .reply alive hconn
    | _ => simp [connStep, hconn] at h
  | close t =>
    cases hconn : s.conn t with
    | closing fd =>
      simp only [connStep, hconn] at h
      cases h
      exact .close alive hconn
    | _ => simp [connStep, hconn] at h
  | _ => cases h

theorem step_move (h : s.step signed a = some (s', es)) : s.Move signed a s' es := by
  have hor : (s.mainStep a).or (s.connStep signed a) = some (s', es) ∧
      ∀ c, s.main ≠ .exited c := by
    unfold step at h
    split at h
    · cases h
    next hmain => exact ⟨h, hmain⟩
  obtain ⟨h, alive⟩ := hor
  rcases Option.or_eq_some_iff.mp h with h | ⟨-, h⟩
  · exact mainStep_move h
  · exact connStep_move alive h

theorem step_of_conn (alive : ∀ c, s.main ≠ .exited c) (hmain : s.mainStep a = none)
    (h : s.connStep signed a = some (s', es)) : s.step signed a = some (s', es) := by
  unfold step
  split
  next c hc => exact absurd hc (alive c)
  next => rw [hmain, Option.none_or, h]

theorem Move.step (h : s.Move signed a s' es) : s.step signed a = some (s', es) := by
  cases h with
  | acceptFail hmain hr => simp [ServerSys.step, mainStep, hmain, hr]
  | accept hmain hr => simp [ServerSys.step, mainStep, hmain, hr, setConn]
  | join hmain hdone => simp [ServerSys.step, mainStep, hmain, hdone]
  | destroy hmain => simp [ServerSys.step, mainStep, hmain]
  | start alive hconn hlen => exact step_of_conn alive rfl (by simp [connStep, hconn, hlen])
  | recvExit alive hconn hpiece hcall =>
    exact step_of_conn alive rfl (by simp [connStep, hconn, hpiece, hcall])
  | recvCall alive hconn hpiece hcall hstep =>
    exact step_of_conn alive rfl (by simp [connStep, hconn, hpiece, hcall, hstep])
  | recvEnd alive hconn => exact step_of_conn alive rfl (by simp [connStep, hconn])
  | table alive hconn hcall hstep =>
    exact step_of_conn alive rfl (by simp only [connStep, hconn, hcall, hstep]; rfl)
  | reply alive hconn => exact step_of_conn alive rfl (by simp [connStep, hconn])
  | close alive hconn => exact step_of_conn alive rfl (by simp [connStep, hconn])

end ServerSys

/-! ## Who is at work -/

/-- `accept` fails at most where `k` threads have been started. -/
def FailsAt (k : Nat) (s : ServerSys) : ServerAct → Prop
  | .accept r => r < 0 → s.main = .accepting k
  | _ => True

/-- The threads that there are, as `main` knows them. -/
def MainPlace.Crew (conn : Nat → Conn) : MainPlace → Prop
  | .accepting n => ∀ t, n ≤ t → conn t = .unborn
  | .joining i n => (∀ t < i, conn t = .finished) ∧ ∀ t, n ≤ t → conn t = .unborn
  | .destroying _ _ => ∀ t, conn t = .finished ∨ conn t = .unborn
  | .exited _ => ∀ t, conn t = .finished ∨ conn t = .unborn

def Conn.Busy : Conn → Prop
  | .unborn => False
  | .finished => False
  | _ => True

def Conn.Handling : Conn → Prop
  | .handling _ _ => True
  | _ => False

structure Staffed (s : ServerSys) : Prop where
  idle : ∀ t, ¬ (s.conn t).Handling → s.table.phase t = .idle
  crew : s.main.Crew s.conn

section Staff
variable {signed : Bool} {s s' : ServerSys} {a : ServerAct} {es : List ServerEvent}

theorem MainPlace.Crew.update {conn : Nat → Conn} {t : Nat} {m : MainPlace} (h : m.Crew conn)
    (ht : (conn t).Busy) (c : Conn) : m.Crew (Function.update conn t c) := by
  have hborn : ∀ t', conn t' = .unborn → Function.update conn t c t' = .unborn := by
    intro t' h'
    have hne : t' ≠ t := by
      rintro rfl
      simp [h', Conn.Busy] at ht
    rw [Function.update_of_ne hne, h']
  have hdone : ∀ t', conn t' = .finished → Function.update conn t c t' = .finished := by
    intro t' h'
    have hne : t' ≠ t := by
      rintro rfl
      simp [h', Conn.Busy] at ht
    rw [Function.update_of_ne hne, h']
  cases m with
  | accepting n => exact fun t' ht' => hborn t' (h t' ht')
  | joining i n =>
    exact ⟨fun t' ht' => hdone t' (h.1 t' ht'), fun t' ht' => hborn t' (h.2 t' ht')⟩
  | destroying rest status => exact fun t' => (h t').imp (hdone t') (hborn t')
  | exited status => exact fun t' => (h t').imp (hdone t') (hborn t')

/-- A thread outside `put` and `get` goes on outside. -/
theorem Staffed.setConn {t : Nat} {c : Conn} (h : Staffed s) (hbusy : (s.conn t).Busy)
    (hnow : ¬ (s.conn t).Handling) : Staffed (s.setConn t c) where
  idle t' ht' := by
    rcases eq_or_ne t' t with rfl | hne
    · exact h.idle t' hnow
    · exact h.idle t' (by simpa [ServerSys.setConn, hne] using ht')
  crew := h.crew.update hbusy c

theorem hash_step_phase_of_ne {s s' : HashState} {a : Action HashCall Entries} {t : Nat}
    {es : List HashEvent} (h : (hashMachine signed).step s a = some (s', es))
    (ht : t ≠ a.thread) : s'.phase t = s.phase t :=
  Body.step_phase_of_ne (B := hashBody signed) h ht

theorem Staffed.start (client : Nat → Int) : Staffed (serverStart client) :=
  ⟨fun _ _ => rfl, fun _ _ => rfl⟩

theorem Staffed.step (h : Staffed s) (hok : FailsAt 0 s a)
    (hstep : s.step signed a = some (s', es)) : Staffed s' := by
  cases ServerSys.step_move hstep with
  | acceptFail hmain hr =>
    refine ⟨h.idle, fun t => .inr ?_⟩
    have hcrew := h.crew
    rw [hok hr] at hcrew
    exact hcrew t (Nat.zero_le t)
  | @accept n r hmain hr =>
    have hcrew := h.crew
    rw [hmain] at hcrew
    have hborn : ∀ t, n + 1 ≤ t → Function.update s.conn n .created t = .unborn := by
      intro t ht
      rw [Function.update_of_ne (by omega), hcrew t (by omega)]
    refine ⟨fun t ht => ?_, ?_⟩
    · rcases eq_or_ne t n with rfl | hne
      · exact h.idle t (by simp [hcrew t (Nat.le_refl t), Conn.Handling])
      · exact h.idle t (by simpa [ServerSys.setConn, hne] using ht)
    · unfold MainPlace.afterAccept
      split
      · exact hborn
      · exact ⟨fun t ht => by omega, hborn⟩
  | @join i n hmain hdone =>
    have hcrew := h.crew
    rw [hmain] at hcrew
    have hsucc : ∀ t < i + 1, s.conn t = .finished := by
      intro t ht
      rcases Nat.lt_succ_iff_lt_or_eq.mp ht with hlt | rfl
      · exact hcrew.1 t hlt
      · exact hdone
    refine ⟨h.idle, ?_⟩
    unfold MainPlace.afterJoin
    split
    · exact ⟨hsucc, hcrew.2⟩
    · intro t
      rcases Nat.lt_or_ge t (i + 1) with hlt | hge
      · exact .inl (hsucc t hlt)
      · exact .inr (hcrew.2 t (by omega))
  | @destroy b rest status hmain =>
    have hcrew := h.crew
    rw [hmain] at hcrew
    refine ⟨h.idle, ?_⟩
    cases rest <;> exact hcrew
  | start alive hconn hlen =>
    exact h.setConn (by simp [hconn, Conn.Busy]) (by simp [hconn, Conn.Handling])
  | recvExit alive hconn hpiece hcall =>
    exact h.setConn (by simp [hconn, Conn.Busy]) (by simp [hconn, Conn.Handling])
  | @recvCall t fd old piece call table es alive hconn hpiece hcall htable =>
    refine ⟨fun t' ht' => ?_, h.crew.update (by simp [hconn, Conn.Busy]) _⟩
    have hne : t' ≠ t := by
      rintro rfl
      simp [ServerSys.setConn, Conn.Handling] at ht'
    rw [show table.phase t' = s.table.phase t' from hash_step_phase_of_ne htable hne]
    exact h.idle t' (by simpa [ServerSys.setConn, hne] using ht')
  | recvEnd alive hconn =>
    exact h.setConn (by simp [hconn, Conn.Busy]) (by simp [hconn, Conn.Handling])
  | @table a fd buffer table es alive hconn hcall htable =>
    have hother : ∀ t, t ≠ a.thread → ¬ (s.conn t).Handling → table.phase t = .idle := by
      intro t hne ht
      exact (hash_step_phase_of_ne htable hne).trans (h.idle t ht)
    rcases s.afterTable_cases a.thread fd buffer table with ⟨hidle, heq⟩ | heq
    · rw [heq]
      refine ⟨fun t ht => ?_, h.crew.update (by simp only [hconn, Conn.Busy]) _⟩
      rcases eq_or_ne t a.thread with rfl | hne
      · exact hidle
      · exact hother t hne (by simpa only [ServerSys.setConn, Function.update_of_ne hne] using ht)
    · rw [heq]
      refine ⟨fun t ht => hother t ?_ ht, h.crew⟩
      rintro rfl
      exact ht (by simp only [hconn, Conn.Handling])
  | reply alive hconn =>
    exact h.setConn (by simp [hconn, Conn.Busy]) (by simp [hconn, Conn.Handling])
  | close alive hconn =>
    exact h.setConn (by simp [hconn, Conn.Busy]) (by simp [hconn, Conn.Handling])

end Staff

/-! ## The calls of all threads -/

/-- What happens on the table. -/
def tableEvents : List ServerEvent → List HashEvent :=
  List.filterMap fun
    | .table e => some e
    | _ => none

/-- The table is there. -/
def MainPlace.Serving : MainPlace → Prop
  | .accepting _ => True
  | .joining _ _ => True
  | _ => False

/-- The calls have been performed as if one after the other. -/
structure Linear (signed : Bool) (tr : List ServerEvent) (s : ServerSys) : Prop where
  staffed : Staffed s
  linear : ∃ table st,
    (sequential (HashCall.perform signed)).accept (hashInit, fun _ => .idle) (tableEvents tr) =
      some (table, st) ∧
    (s.main.Serving → Simulates (hashBody signed) Hash.buckets GoodBucket
      (fun call v₀ m v => HashStage v₀ call m v) table st s.table)

section Linear
variable {signed : Bool} {s s' : ServerSys} {tr es : List ServerEvent} {t : Nat}

@[simp] theorem tableEvents_append (tr tr' : List ServerEvent) :
    tableEvents (tr ++ tr') = tableEvents tr ++ tableEvents tr' := List.filterMap_append

@[simp] theorem tableEvents_map (es : List HashEvent) : tableEvents (es.map .table) = es := by
  simp [tableEvents, List.filterMap_map]

/-- The memory events name a thread inside a call and the bucket of this call. -/
theorem memoryEvents_cases {a : Action HashCall Entries} {table : HashState} {e : ServerEvent}
    (h : e ∈ memoryEvents signed table a) :
    (∃ b, e = .touch a.thread b) ∨ ∃ t b call key value c,
      e = .newEntry b ∧ a = .access t c ∧ table.phase t = .inside call (.putNew key value) ∧
      hash signed call.key = some b := by
  cases a with
  | call t call => cases h
  | ret t => cases h
  | acquire t =>
    cases hphase : table.phase t with
    | waiting call =>
      simp only [memoryEvents, hphase, List.mem_map] at h
      obtain ⟨b, -, rfl⟩ := h
      exact .inl ⟨b, rfl⟩
    | _ => simp [memoryEvents, hphase] at h
  | release t =>
    cases hphase : table.phase t with
    | inside call m =>
      simp only [memoryEvents, hphase, List.mem_map] at h
      obtain ⟨b, -, rfl⟩ := h
      exact .inl ⟨b, rfl⟩
    | _ => simp [memoryEvents, hphase] at h
  | access t c =>
    cases hphase : table.phase t with
    | inside call m =>
      cases m with
      | putNew key value =>
        simp only [memoryEvents, hphase, List.mem_flatMap, Option.mem_toList, List.mem_cons,
          List.not_mem_nil, or_false] at h
        obtain ⟨b, hb, rfl | rfl⟩ := h
        · exact .inl ⟨b, rfl⟩
        · exact .inr ⟨t, b, call, key, value, c, rfl, rfl, hphase, hb⟩
      | _ =>
        simp only [memoryEvents, hphase, List.mem_map] at h
        obtain ⟨b, -, rfl⟩ := h
        exact .inl ⟨b, rfl⟩
    | _ => simp [memoryEvents, hphase] at h

@[simp] theorem tableEvents_memoryEvents (a : Action HashCall Entries) (table : HashState) :
    tableEvents (memoryEvents signed table a) = [] := by
  rw [tableEvents, List.filterMap_eq_nil_iff]
  intro e he
  rcases memoryEvents_cases he with ⟨b, rfl⟩ | ⟨_, b, _, _, _, _, rfl, _⟩ <;> rfl

theorem Staffed.serving (h : Staffed s) (hbusy : (s.conn t).Busy) : s.main.Serving := by
  have hcrew := h.crew
  cases hmain : s.main with
  | accepting n => trivial
  | joining i n => trivial
  | destroying rest status =>
    rw [hmain] at hcrew
    rcases hcrew t with ht | ht <;> simp [ht, Conn.Busy] at hbusy
  | exited status =>
    rw [hmain] at hcrew
    rcases hcrew t with ht | ht <;> simp [ht, Conn.Busy] at hbusy

theorem Linear.same (h : Linear signed tr s) (hstaffed : Staffed s') (hes : tableEvents es = [])
    (htable : s'.table = s.table) (hmain : s'.main.Serving → s.main.Serving) :
    Linear signed (tr ++ es) s' := by
  obtain ⟨table, st, haccept, hsim⟩ := h.linear
  refine ⟨hstaffed, table, st, by simpa [hes] using haccept, fun hserving => ?_⟩
  rw [htable]
  exact hsim (hmain hserving)

theorem Linear.move {a : Action HashCall Entries} {table : HashState} {ts : List HashEvent}
    (h : Linear signed tr s) (hstaffed : Staffed s') (hserving : s.main.Serving)
    (hes : tableEvents es = ts) (htable : s'.table = table)
    (hstep : (hashMachine signed).step s.table a = some (table, ts)) :
    Linear signed (tr ++ es) s' := by
  obtain ⟨T, st, haccept, hsim⟩ := h.linear
  obtain ⟨T', st', haccept', hsim'⟩ := (hsim hserving).step (hashBody_meets signed) hstep
  refine ⟨hstaffed, T', st', ?_, fun _ => htable ▸ hsim'⟩
  rw [tableEvents_append, hes]
  exact Observer.accept_append_iff.mpr ⟨(T, st), haccept, haccept'⟩

theorem Linear.start (client : Nat → Int) : Linear signed [] (serverStart client) :=
  ⟨.start client, hashInit, fun _ => .idle, rfl,
    fun _ => Simulates.start (by simp [hashInit, GoodBucket]) rfl⟩

theorem Linear.step {a : ServerAct} (h : Linear signed tr s) (hok : FailsAt 0 s a)
    (hstep : s.step signed a = some (s', es)) : Linear signed (tr ++ es) s' := by
  have hstaffed := h.staffed.step hok hstep
  cases ServerSys.step_move hstep with
  | acceptFail hmain hr => exact h.same hstaffed rfl rfl (by rintro ⟨⟩)
  | accept hmain hr => exact h.same hstaffed rfl rfl fun _ => by rw [hmain]; trivial
  | join hmain hdone => exact h.same hstaffed rfl rfl fun _ => by rw [hmain]; trivial
  | @destroy b rest status hmain =>
    obtain ⟨T, st, haccept, -⟩ := h.linear
    refine ⟨hstaffed, T, st, ?_, fun hserving => ?_⟩
    · cases s.table.cell b <;> simpa [tableEvents, freeEvents] using haccept
    · cases rest <;> cases hserving
  | start alive hconn hlen => exact h.same hstaffed rfl rfl id
  | recvExit alive hconn hpiece hcall => exact h.same hstaffed rfl rfl id
  | @recvCall t fd old piece call table es alive hconn hpiece hcall htable =>
    have hserving := h.staffed.serving (t := t) (by simp [hconn, Conn.Busy])
    refine h.move hstaffed hserving ?_ rfl htable
    simp only [tableEvents_append, tableEvents_map]
    rfl
  | recvEnd alive hconn => exact h.same hstaffed rfl rfl id
  | @table a fd buffer table es alive hconn hcall htable =>
    have hserving := h.staffed.serving (t := a.thread) (by simp only [hconn, Conn.Busy])
    refine h.move hstaffed hserving ?_ ?_ htable
    · simp
    · rcases s.afterTable_cases a.thread fd buffer table with ⟨-, heq⟩ | heq <;> rw [heq]
  | reply alive hconn => exact h.same hstaffed rfl rfl id
  | close alive hconn => exact h.same hstaffed rfl rfl id

end Linear

end ThletEvaluation.Linux
