import ThletEvaluation.Linux.ServerSystem

/-!
# Each connection of the server

What one thread does for its connection does not depend on the others: the buffers it handles
and the replies it sends are those of `server` on the pieces that it receives. The calls it
makes on the table are those of its buffers, and these are performed as if one after the other
with the calls of all the other threads.
-/

namespace ThletEvaluation.Linux

open Locked Run

set_option autoImplicit false

def ServerEvent.piece? (t : Nat) : ServerEvent → Option (List UInt8)
  | .received t' piece => if t' = t then some piece else none
  | _ => none

def ServerEvent.buffer? (t : Nat) : ServerEvent → Option (List UInt8)
  | .handled t' buffer => if t' = t then some buffer else none
  | _ => none

def ServerEvent.reply? (t : Nat) : ServerEvent → Option (List UInt8)
  | .replied t' _ bytes => if t' = t then some bytes else none
  | _ => none

def ServerEvent.call? (t : Nat) : ServerEvent → Option HashCall
  | .table (.call t' call) => if t' = t then some call else none
  | _ => none

/-- What thread `t` has received, handled and replied, and the calls it has begun. -/
structure ConnLog where
  pieces : List (List UInt8)
  buffers : List (List UInt8)
  replies : List (List UInt8)
  calls : List HashCall

def connLog (t : Nat) (tr : List ServerEvent) : ConnLog where
  pieces := tr.filterMap (ServerEvent.piece? t)
  buffers := tr.filterMap (ServerEvent.buffer? t)
  replies := tr.filterMap (ServerEvent.reply? t)
  calls := tr.filterMap (ServerEvent.call? t)

def ConnLog.append (l l' : ConnLog) : ConnLog :=
  ⟨l.pieces ++ l'.pieces, l.buffers ++ l'.buffers, l.replies ++ l'.replies, l.calls ++ l'.calls⟩

def ConnLog.empty : ConnLog := ⟨[], [], [], []⟩

@[simp] theorem ConnLog.append_empty (l : ConnLog) : l.append .empty = l := by
  simp [append, empty]

theorem connLog_append (t : Nat) (tr es : List ServerEvent) :
    connLog t (tr ++ es) = (connLog t tr).append (connLog t es) := by
  simp [connLog, ConnLog.append]

/-- What is still to come on a connection whose client sends `rest`. -/
def Conn.future (signed : Bool) (rest : List (List UInt8)) : Conn → Session
  | .receiving _ buffer => server signed none buffer rest
  | .handling _ buffer =>
    let r := server signed none buffer rest
    ⟨r.calls, buffer.take 4 :: r.replies, r.table⟩
  | .replying _ buffer last =>
    let r := if last then ⟨[], [], none⟩ else server signed none buffer rest
    ⟨r.calls, buffer.take 4 :: r.replies, r.table⟩
  | _ => ⟨[], [], none⟩

/-- The thread does not receive any more. -/
def Conn.Over : Conn → Prop
  | .closing _ => True
  | .finished => True
  | _ => False

/-- The log and what is still to come make up a session of `server`. -/
structure Conn.Serves (signed : Bool) (c : Conn) (l : ConnLog) (old : List UInt8) : Prop where
  buffers : ∀ rest, (c.Over → rest = []) →
    (server signed none old (l.pieces ++ rest)).calls = l.buffers ++ (c.future signed rest).calls
  replies : ∀ rest, (c.Over → rest = []) →
    (server signed none old (l.pieces ++ rest)).replies =
      l.replies ++ (c.future signed rest).replies

/-- The calls of the handled buffers. -/
def callsOf (buffers : List (List UInt8)) : List HashCall :=
  buffers.filterMap fun buffer => (rpcCall buffer).map Call.hashCall

structure Logged (signed : Bool) (c : Conn) (l : ConnLog) : Prop where
  calls : l.calls = callsOf l.buffers
  fresh : c = .unborn ∨ c = .created → l = .empty
  serves : c ≠ .unborn → c ≠ .created →
    ∃ old : List UInt8, old.length = RPC_SIZE ∧ c.Serves signed l old

section Server
variable {signed : Bool} {old piece buffer : List UInt8} {rest : List (List UInt8)}

theorem server_none_exit (h : rpcCall (recvInto old piece) = none) :
    server signed none old (piece :: rest) =
      ⟨[recvInto old piece], [(recvInto old piece).take 4], none⟩ := by
  simp [server, handleRpc, kvRpc, h]

theorem server_none_call {call : Call} (h : rpcCall (recvInto old piece) = some call) :
    server signed none old (piece :: rest) =
      let r := server signed none (recvInto old piece) rest
      ⟨recvInto old piece :: r.calls, (recvInto old piece).take 4 :: r.replies, r.table⟩ := by
  simp [server, handleRpc, kvRpc, h]

end Server

/-! ## The steps of one thread -/

namespace Logged
variable {signed : Bool} {l : ConnLog} {fd fd' : Int} {old buffer piece : List UInt8}

theorem created (h : Logged signed .unborn l) : Logged signed .created l :=
  ⟨h.calls, fun _ => h.fresh (.inl rfl), by simp⟩

theorem start (h : Logged signed .created l) (hlen : buffer.length = RPC_SIZE) :
    Logged signed (.receiving fd buffer) l := by
  obtain rfl := h.fresh (.inr rfl)
  exact ⟨h.calls, by simp, fun _ _ => ⟨buffer, hlen, fun rest _ => rfl, fun rest _ => rfl⟩⟩

theorem recvExit (h : Logged signed (.receiving fd old) l)
    (hcall : rpcCall (recvInto old piece) = none) :
    Logged signed (.replying fd (recvInto old piece) true)
      (l.append ⟨[piece], [recvInto old piece], [], []⟩) := by
  obtain ⟨old₀, hlen, hserves⟩ := h.serves (by simp) (by simp)
  refine ⟨?_, by simp, fun _ _ => ⟨old₀, hlen, fun rest _ => ?_, fun rest _ => ?_⟩⟩
  · simp [ConnLog.append, callsOf, hcall, h.calls]
  · have hb := hserves.buffers (piece :: rest) (by rintro ⟨⟩)
    simpa [ConnLog.append, Conn.future, server_none_exit hcall] using hb
  · have hr := hserves.replies (piece :: rest) (by rintro ⟨⟩)
    simpa [ConnLog.append, Conn.future, server_none_exit hcall] using hr

theorem recvCall {call : Call} (h : Logged signed (.receiving fd old) l)
    (hcall : rpcCall (recvInto old piece) = some call) :
    Logged signed (.handling fd (recvInto old piece))
      (l.append ⟨[piece], [recvInto old piece], [], [call.hashCall]⟩) := by
  obtain ⟨old₀, hlen, hserves⟩ := h.serves (by simp) (by simp)
  refine ⟨?_, by simp, fun _ _ => ⟨old₀, hlen, fun rest _ => ?_, fun rest _ => ?_⟩⟩
  · simp [ConnLog.append, callsOf, hcall, h.calls]
  · have hb := hserves.buffers (piece :: rest) (by rintro ⟨⟩)
    simpa [ConnLog.append, Conn.future, server_none_call hcall] using hb
  · have hr := hserves.replies (piece :: rest) (by rintro ⟨⟩)
    simpa [ConnLog.append, Conn.future, server_none_call hcall] using hr

theorem recvEnd (h : Logged signed (.receiving fd old) l) : Logged signed (.closing fd) l := by
  obtain ⟨old₀, hlen, hserves⟩ := h.serves (by simp) (by simp)
  refine ⟨h.calls, by simp, fun _ _ => ⟨old₀, hlen, fun rest hrest => ?_, fun rest hrest => ?_⟩⟩
  · obtain rfl := hrest trivial
    exact hserves.buffers [] (by rintro ⟨⟩)
  · obtain rfl := hrest trivial
    exact hserves.replies [] (by rintro ⟨⟩)

theorem returned (h : Logged signed (.handling fd buffer) l) :
    Logged signed (.replying fd buffer false) l := by
  obtain ⟨old₀, hlen, hserves⟩ := h.serves (by simp) (by simp)
  exact ⟨h.calls, by simp, fun _ _ => ⟨old₀, hlen, hserves.buffers, hserves.replies⟩⟩

theorem reply {last : Bool} (h : Logged signed (.replying fd buffer last) l) :
    Logged signed (if last then .closing fd else .receiving fd buffer)
      (l.append ⟨[], [], [buffer.take 4], []⟩) := by
  obtain ⟨old₀, hlen, hserves⟩ := h.serves (by simp) (by simp)
  have hcalls : (l.append ⟨[], [], [buffer.take 4], []⟩).calls =
      callsOf (l.append ⟨[], [], [buffer.take 4], []⟩).buffers := by
    simpa [ConnLog.append] using h.calls
  refine ⟨hcalls, by cases last <;> simp, fun _ _ =>
    ⟨old₀, hlen, fun rest hrest => ?_, fun rest hrest => ?_⟩⟩
  · have hb := hserves.buffers rest (by rintro ⟨⟩)
    cases last <;> simpa [ConnLog.append, Conn.future] using hb
  · have hr := hserves.replies rest (by rintro ⟨⟩)
    cases last <;> simpa [ConnLog.append, Conn.future] using hr

theorem close (h : Logged signed (.closing fd) l) : Logged signed .finished l := by
  obtain ⟨old₀, hlen, hserves⟩ := h.serves (by simp) (by simp)
  exact ⟨h.calls, by simp, fun _ _ => ⟨old₀, hlen, fun rest hrest => hserves.buffers rest hrest,
    fun rest hrest => hserves.replies rest hrest⟩⟩

/-- Between two pieces and at the end, the log is a session of `server`. -/
theorem session {c : Conn} (h : Logged signed c l)
    (hc : (∃ fd buffer, c = .receiving fd buffer) ∨ c = .finished) :
    ∃ old : List UInt8, old.length = RPC_SIZE ∧
      l.buffers = (server signed none old l.pieces).calls ∧
      l.replies = (server signed none old l.pieces).replies := by
  rcases hc with ⟨fd, buffer, rfl⟩ | rfl
  · obtain ⟨old, hlen, hserves⟩ := h.serves (by simp) (by simp)
    have hb := hserves.buffers [] (by rintro ⟨⟩)
    have hr := hserves.replies [] (by rintro ⟨⟩)
    simp only [List.append_nil, Conn.future, server] at hb hr
    exact ⟨old, hlen, hb.symm, hr.symm⟩
  · obtain ⟨old, hlen, hserves⟩ := h.serves (by simp) (by simp)
    have hb := hserves.buffers [] fun _ => rfl
    have hr := hserves.replies [] fun _ => rfl
    simp only [List.append_nil, Conn.future] at hb hr
    exact ⟨old, hlen, hb.symm, hr.symm⟩

end Logged

/-! ## Whole runs -/

section Runs
variable {signed : Bool} {s s' : ServerSys} {tr es : List ServerEvent} {t : Nat}

/-- The logs after a step that adds `l` to the log of `t` and makes `c` of its connection. -/
theorem logged_set {c : Conn} {l : ConnLog} (h : ∀ t, Logged signed (s.conn t) (connLog t tr))
    (hconn : s'.conn = Function.update s.conn t c) (hes : connLog t es = l)
    (hother : ∀ t', t' ≠ t → connLog t' es = .empty)
    (hl : Logged signed c ((connLog t tr).append l)) :
    ∀ t, Logged signed (s'.conn t) (connLog t (tr ++ es)) := by
  intro t'
  rw [connLog_append, hconn]
  rcases eq_or_ne t' t with rfl | hne
  · rwa [hes, Function.update_self]
  · rw [hother t' hne, Function.update_of_ne hne, ConnLog.append_empty]
    exact h t'

theorem logged_same (h : ∀ t, Logged signed (s.conn t) (connLog t tr)) (hconn : s'.conn = s.conn)
    (hes : ∀ t, connLog t es = .empty) :
    ∀ t, Logged signed (s'.conn t) (connLog t (tr ++ es)) := by
  intro t
  rw [connLog_append, hes t, ConnLog.append_empty, hconn]
  exact h t

theorem connLog_eq_empty (h : ∀ e ∈ es, e.piece? t = none ∧ e.buffer? t = none ∧
    e.reply? t = none ∧ e.call? t = none) : connLog t es = .empty := by
  have hpieces := List.filterMap_eq_nil_iff.mpr fun e he => (h e he).1
  have hbuffers := List.filterMap_eq_nil_iff.mpr fun e he => (h e he).2.1
  have hreplies := List.filterMap_eq_nil_iff.mpr fun e he => (h e he).2.2.1
  have hcalls := List.filterMap_eq_nil_iff.mpr fun e he => (h e he).2.2.2
  simp [connLog, ConnLog.empty, hpieces, hbuffers, hreplies, hcalls]

/-- A step inside a call is not in the logs. -/
theorem connLog_inside {a : Action HashCall Entries} {table table' : HashState}
    {ts : List HashEvent} (hcall : a.isCall = false)
    (hstep : (hashMachine signed).step table a = some (table', ts)) (t : Nat) :
    connLog t (memoryEvents signed table a ++ ts.map .table) = .empty := by
  apply connLog_eq_empty
  intro e he
  rcases List.mem_append.mp he with he | he
  · rcases memoryEvents_cases he with ⟨b, rfl⟩ | ⟨_, b, _, _, _, _, rfl, _⟩ <;>
      exact ⟨rfl, rfl, rfl, rfl⟩
  · obtain ⟨e', he', rfl⟩ := List.mem_map.mp he
    clear he
    refine ⟨rfl, rfl, rfl, ?_⟩
    cases hash_step_move hstep with
    | call op hphase => cases hcall
    | acquire hphase hlock hfree => cases he'
    | access hphase hlock haccess => cases he'
    | release hphase hlock hres =>
      rw [List.mem_singleton.mp he']
      rfl
    | ret hphase =>
      rw [List.mem_singleton.mp he']
      rfl

theorem logged_step {a : ServerAct} (hstaffed : Staffed s)
    (h : ∀ t, Logged signed (s.conn t) (connLog t tr)) (hstep : s.step signed a = some (s', es)) :
    ∀ t, Logged signed (s'.conn t) (connLog t (tr ++ es)) := by
  cases ServerSys.step_move hstep with
  | acceptFail hmain hr => exact logged_same h rfl fun _ => rfl
  | @accept n r hmain hr =>
    have hcrew := hstaffed.crew
    rw [hmain] at hcrew
    have hn := h n
    rw [hcrew n (Nat.le_refl n)] at hn
    exact logged_set (l := .empty) h rfl rfl (fun _ _ => rfl) (by simpa using hn.created)
  | join hmain hdone => exact logged_same h rfl fun _ => rfl
  | @destroy b rest status hmain =>
    exact logged_same h rfl fun _ => by cases s.table.cell b <;> rfl
  | @start t buffer alive hconn hlen =>
    have ht := h t
    rw [hconn] at ht
    exact logged_set (l := .empty) h rfl rfl (fun _ _ => rfl) (by simpa using ht.start hlen)
  | @recvExit t fd old piece alive hconn hpiece hcall =>
    have ht := h t
    rw [hconn] at ht
    refine logged_set h rfl ?_ (fun t' ht' => ?_) (ht.recvExit hcall)
    · simp [connLog, List.filterMap_cons, ServerEvent.piece?, ServerEvent.buffer?,
        ServerEvent.reply?, ServerEvent.call?]
    · simp [connLog, ConnLog.empty, ServerEvent.piece?, ServerEvent.buffer?, ServerEvent.reply?,
        ServerEvent.call?, Ne.symm ht']
  | @recvCall t fd old piece call table es alive hconn hpiece hcall htable =>
    have ht := h t
    rw [hconn] at ht
    obtain rfl : es = [.call t call.hashCall] := by
      cases hash_step_move htable
      rfl
    refine logged_set h rfl ?_ (fun t' ht' => ?_) (ht.recvCall hcall)
    · simp [connLog, List.filterMap_cons, ServerEvent.piece?, ServerEvent.buffer?,
        ServerEvent.reply?, ServerEvent.call?]
    · simp [connLog, ConnLog.empty, ServerEvent.piece?, ServerEvent.buffer?, ServerEvent.reply?,
        ServerEvent.call?, Ne.symm ht']
  | @recvEnd t fd old alive hconn =>
    have ht := h t
    rw [hconn] at ht
    exact logged_set (l := .empty) h rfl rfl (fun _ _ => rfl) (by simpa using ht.recvEnd)
  | @table a fd buffer table es alive hconn hcall htable =>
    have hes := connLog_inside hcall htable
    have ht := h a.thread
    rw [hconn] at ht
    rcases s.afterTable_cases a.thread fd buffer table with ⟨-, heq⟩ | heq
    · rw [heq]
      exact logged_set h rfl (hes _) (fun t' _ => hes t') (by simpa using ht.returned)
    · rw [heq]
      exact logged_same h rfl hes
  | @reply t fd buffer last alive hconn =>
    have ht := h t
    rw [hconn] at ht
    refine logged_set h rfl ?_ (fun t' ht' => ?_) ht.reply
    · simp [connLog, List.filterMap_cons, ServerEvent.piece?, ServerEvent.buffer?,
        ServerEvent.reply?, ServerEvent.call?]
    · simp [connLog, ConnLog.empty, ServerEvent.piece?, ServerEvent.buffer?, ServerEvent.reply?,
        ServerEvent.call?, Ne.symm ht']
  | @close t fd alive hconn =>
    have ht := h t
    rw [hconn] at ht
    exact logged_set (l := .empty) h rfl rfl (fun _ _ => rfl) (by simpa using ht.close)

theorem server_run_invariant {client : Nat → Int}
    (hrun : Runs (serverMachine signed) (FailsAt 0) (serverStart client) tr s) :
    Linear signed tr s ∧ ∀ t, Logged signed (s.conn t) (connLog t tr) := by
  apply hrun.invariant
    (I := fun tr s => Linear signed tr s ∧ ∀ t, Logged signed (s.conn t) (connLog t tr))
  · exact ⟨.start client, fun t => ⟨rfl, fun _ => rfl, by simp [serverStart]⟩⟩
  · rintro tr es s s' a ⟨hlinear, hlogged⟩ hok hstep
    exact ⟨hlinear.step hok hstep, logged_step hlinear.staffed hlogged hstep⟩

/-- As long as `accept` does not fail once a thread has been started: each thread handles the
buffers and sends the replies of a `server` that is alone with its pieces, it makes the calls of
its buffers, and the calls of all the threads together have been performed as if one after the
other. -/
theorem server_serves_connections {client : Nat → Int}
    (hrun : Runs (serverMachine signed) (FailsAt 0) (serverStart client) tr s) :
    (∃ table st, (sequential (HashCall.perform signed)).accept (hashInit, fun _ => .idle)
      (tableEvents tr) = some (table, st)) ∧
    ∀ t, ((∃ fd buffer, s.conn t = .receiving fd buffer) ∨ s.conn t = .finished) →
      ∃ old : List UInt8, old.length = RPC_SIZE ∧
        (connLog t tr).buffers = (server signed none old (connLog t tr).pieces).calls ∧
        (connLog t tr).replies = (server signed none old (connLog t tr).pieces).replies ∧
        (connLog t tr).calls = callsOf (connLog t tr).buffers := by
  obtain ⟨hlinear, hlogged⟩ := server_run_invariant hrun
  obtain ⟨table, st, haccept, -⟩ := hlinear.linear
  refine ⟨⟨table, st, haccept⟩, fun t ht => ?_⟩
  obtain ⟨old, hlen, hbuffers, hreplies⟩ := (hlogged t).session ht
  exact ⟨old, hlen, hbuffers, hreplies, (hlogged t).calls⟩

end Runs

/-- Two connections: the first makes a `get` and goes on, the second exits. -/
def twoConnections : List ServerAct :=
  [.accept 5, .accept 6, .start 1 (List.replicate RPC_SIZE 9), .start 0 (List.replicate RPC_SIZE 7),
    .recv 0 (recordEnding .get 0).bytes, .table (.acquire 0),
    .recv 1 (recordEnding .exit 0).bytes, .table (.access 0 ⟨[], []⟩), .reply 1,
    .table (.release 0), .close 1, .table (.ret 0), .reply 0]

def ServerAct.accepts : ServerAct → Bool
  | .accept r => 0 ≤ r
  | _ => true

theorem server_serves_connections_two :
    ∃ (tr : List ServerEvent) (s : ServerSys),
      s.conn 0 = .receiving 5 (recordEnding .get 0).bytes ∧ s.conn 1 = .finished ∧
      (connLog 0 tr).pieces = [(recordEnding .get 0).bytes] ∧
      (connLog 1 tr).pieces = [(recordEnding .exit 0).bytes] ∧
      (∃ table st, (sequential (HashCall.perform false)).accept (hashInit, fun _ => .idle)
        (tableEvents tr) = some (table, st)) ∧
      ∀ t < 2, ∃ old : List UInt8, old.length = RPC_SIZE ∧
        (connLog t tr).buffers = (server false none old (connLog t tr).pieces).calls ∧
        (connLog t tr).replies = (server false none old (connLog t tr).pieces).replies ∧
        (connLog t tr).calls = callsOf (connLog t tr).buffers := by
  obtain ⟨tr, s, hrun, hend⟩ := (serverMachine false).exec_reaches (fun _ a => a.accepts = true)
    (serverStart fun _ => 0) twoConnections (fun tr s =>
      decide (s.conn 0 = .receiving 5 (recordEnding .get 0).bytes ∧ s.conn 1 = .finished ∧
        (connLog 0 tr).pieces = [(recordEnding .get 0).bytes] ∧
        (connLog 1 tr).pieces = [(recordEnding .exit 0).bytes])) (by decide +kernel)
  have hrun : Runs (serverMachine false) (FailsAt 0) (serverStart fun _ => 0) tr s := by
    apply hrun.mono
    intro s a ha
    cases a with
    | accept r =>
      intro hr
      have hpos : 0 ≤ r := of_decide_eq_true ha
      omega
    | _ => trivial
  obtain ⟨hconn₀, hconn₁, hpieces₀, hpieces₁⟩ := of_decide_eq_true hend
  obtain ⟨hlinear, hserves⟩ := server_serves_connections hrun
  refine ⟨tr, s, hconn₀, hconn₁, hpieces₀, hpieces₁, hlinear, fun t ht => hserves t ?_⟩
  rcases Nat.lt_succ_iff_lt_or_eq.mp ht with hlt | rfl
  · obtain rfl : t = 0 := Nat.lt_one_iff.mp hlt
    exact .inl ⟨5, _, hconn₀⟩
  · exact .inr hconn₁

end ThletEvaluation.Linux
