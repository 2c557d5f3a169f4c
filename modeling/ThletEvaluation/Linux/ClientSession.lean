import Mathlib.Algebra.Order.BigOperators.Group.List
import Mathlib.Data.Nat.Cast.Basic
import ThletEvaluation.Linux.ServerConnections

/-!
# One connection from both ends

A thread of `client.c` sends its records one at a time and receives `sizeof(int)` bytes after
each. At the other end is the thread `server`. What TCP does is left open: a `recv` returns any
part of the bytes that are under way, and when one side is gone the other side's `recv` returns
nothing and its `send` may kill its process.
-/

namespace ThletEvaluation.Linux

open Run

set_option autoImplicit false

/-- Where `generate_reqs` is in its loop. -/
inductive ClientPlace where
  | sending (i : Nat)
  | receiving (i : Nat)
  | closed
  | killed

/-- `up` and `down` are the bytes under way to the server and to the client. -/
structure Tcp where
  client : ClientPlace
  server : Conn
  dead : Bool
  up : List UInt8
  down : List UInt8

inductive TcpAct where
  | send
  | clientRecv (n : Nat)
  | clientPipe
  | start (buffer : List UInt8)
  | serverRecv (n : Nat)
  | reply
  | serverPipe
  | close

inductive TcpEvent where
  | received (piece buffer : List UInt8)
  | replied (bytes : List UInt8)
  | answered (bytes : List UInt8)

def ClientPlace.gone : ClientPlace → Bool
  | .closed | .killed => true
  | _ => false

def Tcp.serverGone (s : Tcp) : Bool :=
  s.dead || match s.server with
    | .finished => true
    | _ => false

def recordAt (rs : List Rpc) (i : Nat) : List UInt8 := (rs[i]?.map Rpc.bytes).getD []

/-- `i <= req_nums`, where `rs` is the array of `req_nums + 1` records. -/
def ClientPlace.next (rs : List Rpc) (i : Nat) : ClientPlace :=
  if i + 1 < rs.length then .sending (i + 1) else .closed

namespace Tcp

/-- What `recv` with room for `size` bytes can return. -/
def CanRecv (n size : Nat) (bytes : List UInt8) (gone : Bool) : Prop :=
  (0 < n ∧ n ≤ size ∧ n ≤ bytes.length) ∨ (n = 0 ∧ gone = true)

instance (n size : Nat) (bytes : List UInt8) (gone : Bool) :
    Decidable (CanRecv n size bytes gone) :=
  inferInstanceAs (Decidable (_ ∨ _))

def clientStep (rs : List Rpc) (s : Tcp) : TcpAct → Option (Tcp × List TcpEvent)
  | .send =>
    match s.client with
    | .sending i => some ({ s with client := .receiving i, up := s.up ++ recordAt rs i }, [])
    | _ => none
  | .clientRecv n =>
    match s.client with
    | .receiving i =>
      if CanRecv n 4 s.down s.serverGone then
        some ({ s with client := .next rs i, down := s.down.drop n }, [.answered (s.down.take n)])
      else none
    | _ => none
  | .clientPipe =>
    match s.client with
    | .sending _ => if s.serverGone then some ({ s with client := .killed }, []) else none
    | _ => none
  | _ => none

/-- The calls of `put` and `get` return and do not touch the connection. -/
def serverStep (fd : Int) (s : Tcp) : TcpAct → Option (Tcp × List TcpEvent)
  | .start buffer =>
    match s.server with
    | .created =>
      if buffer.length = RPC_SIZE then some ({ s with server := .receiving fd buffer }, [])
      else none
    | _ => none
  | .serverRecv n =>
    match s.server with
    | .receiving fd old =>
      if CanRecv n RPC_SIZE s.up s.client.gone then
        if n = 0 then some ({ s with server := .closing fd }, [])
        else
          let buffer := recvInto old (s.up.take n)
          some ({ s with
            server := .replying fd buffer (rpcCall buffer).isNone
            up := s.up.drop n }, [.received (s.up.take n) buffer])
      else none
    | _ => none
  | .reply =>
    match s.server with
    | .replying fd buffer last =>
      some ({ s with
        server := if last then .closing fd else .receiving fd buffer
        down := s.down ++ buffer.take 4 }, [.replied (buffer.take 4)])
    | _ => none
  | .serverPipe =>
    match s.server with
    | .replying .. => if s.client.gone then some ({ s with dead := true }, []) else none
    | _ => none
  | .close =>
    match s.server with
    | .closing _ => some ({ s with server := .finished }, [])
    | _ => none
  | _ => none

def step (rs : List Rpc) (fd : Int) (s : Tcp) (a : TcpAct) : Option (Tcp × List TcpEvent) :=
  match s.clientStep rs a with
  | some r => some r
  | none => if s.dead then none else s.serverStep fd a

end Tcp

def tcpMachine (rs : List Rpc) (fd : Int) : Machine Tcp TcpAct TcpEvent := ⟨Tcp.step rs fd⟩

/-- The connection is accepted and both threads are there. -/
def tcpStart : Tcp := ⟨.sending 0, .created, false, [], []⟩

/-- Everything a step of the connection can be. -/
inductive TcpMove (rs : List Rpc) (fd : Int) (s : Tcp) : TcpAct → Tcp → List TcpEvent → Prop where
  | send {i : Nat} (hclient : s.client = .sending i) :
      TcpMove rs fd s .send { s with client := .receiving i, up := s.up ++ recordAt rs i } []
  | answer {i n : Nat} (hclient : s.client = .receiving i)
      (hn : Tcp.CanRecv n 4 s.down s.serverGone) :
      TcpMove rs fd s (.clientRecv n) { s with client := .next rs i, down := s.down.drop n }
        [.answered (s.down.take n)]
  | clientPipe {i : Nat} (hclient : s.client = .sending i) (hgone : s.serverGone = true) :
      TcpMove rs fd s .clientPipe { s with client := .killed } []
  | start {buffer : List UInt8} (hserver : s.server = .created) (hlen : buffer.length = RPC_SIZE)
      (halive : s.dead = false) :
      TcpMove rs fd s (.start buffer) { s with server := .receiving fd buffer } []
  | recvEnd {fd' : Int} {old : List UInt8} (hserver : s.server = .receiving fd' old)
      (halive : s.dead = false) (hgone : s.client.gone = true) :
      TcpMove rs fd s (.serverRecv 0) { s with server := .closing fd' } []
  | recv {n : Nat} {fd' : Int} {old : List UInt8} (hserver : s.server = .receiving fd' old)
      (halive : s.dead = false) (hpos : 0 < n) (hsize : n ≤ RPC_SIZE) (hn : n ≤ s.up.length) :
      TcpMove rs fd s (.serverRecv n)
        { s with
          server := .replying fd' (recvInto old (s.up.take n))
            (rpcCall (recvInto old (s.up.take n))).isNone
          up := s.up.drop n }
        [.received (s.up.take n) (recvInto old (s.up.take n))]
  | reply {fd' : Int} {buffer : List UInt8} {last : Bool}
      (hserver : s.server = .replying fd' buffer last) (halive : s.dead = false) :
      TcpMove rs fd s .reply
        { s with
          server := if last then .closing fd' else .receiving fd' buffer
          down := s.down ++ buffer.take 4 }
        [.replied (buffer.take 4)]
  | serverPipe {fd' : Int} {buffer : List UInt8} {last : Bool}
      (hserver : s.server = .replying fd' buffer last) (halive : s.dead = false)
      (hgone : s.client.gone = true) :
      TcpMove rs fd s .serverPipe { s with dead := true } []
  | close {fd' : Int} (hserver : s.server = .closing fd') (halive : s.dead = false) :
      TcpMove rs fd s .close { s with server := .finished } []

section Steps
variable {rs : List Rpc} {fd : Int} {s s' : Tcp} {a : TcpAct} {tr es : List TcpEvent}

theorem Tcp.clientStep_move {r : Tcp × List TcpEvent} (h : s.clientStep rs a = some r) :
    TcpMove rs fd s a r.1 r.2 := by
  cases a <;> simp only [clientStep] at h
  case send =>
    split at h
    next i hclient =>
      cases h
      exact .send hclient
    · cases h
  case clientRecv n =>
    split at h
    next i hclient =>
      split at h
      next hn =>
        cases h
        exact .answer hclient hn
      · cases h
    · cases h
  case clientPipe =>
    split at h
    next i hclient =>
      split at h
      next hgone =>
        cases h
        exact .clientPipe hclient hgone
      · cases h
    · cases h
  all_goals cases h

theorem Tcp.serverStep_move {r : Tcp × List TcpEvent} (halive : s.dead = false)
    (h : s.serverStep fd a = some r) : TcpMove rs fd s a r.1 r.2 := by
  cases a <;> simp only [serverStep] at h
  case start buffer =>
    split at h
    next hserver =>
      split at h
      next hlen =>
        cases h
        exact .start hserver hlen halive
      · cases h
    · cases h
  case serverRecv n =>
    split at h
    next fd' old hserver =>
      split at h
      next hn =>
        rcases hn with ⟨hpos, hsize, hn⟩ | ⟨rfl, hgone⟩
        · rw [if_neg (by omega)] at h
          cases h
          exact .recv hserver halive hpos hsize hn
        · cases h
          exact .recvEnd hserver halive hgone
      · cases h
    · cases h
  case reply =>
    split at h
    next fd' buffer last hserver =>
      cases h
      exact .reply hserver halive
    · cases h
  case serverPipe =>
    split at h
    next fd' buffer last hserver =>
      split at h
      next hgone =>
        cases h
        exact .serverPipe hserver halive hgone
      · cases h
    · cases h
  case close =>
    split at h
    next fd' hserver =>
      cases h
      exact .close hserver halive
    · cases h
  all_goals cases h

theorem Tcp.step_move (h : s.step rs fd a = some (s', es)) : TcpMove rs fd s a s' es := by
  simp only [step] at h
  split at h
  next r hr =>
    cases h
    exact clientStep_move hr
  next =>
    split at h
    · cases h
    next halive => exact serverStep_move (Bool.not_eq_true _ ▸ halive) h

end Steps

/-! ## What the two sides have seen -/

def TcpEvent.piece? : TcpEvent → Option (List UInt8)
  | .received piece _ => some piece
  | _ => none

def TcpEvent.buffer? : TcpEvent → Option (List UInt8)
  | .received _ buffer => some buffer
  | _ => none

def TcpEvent.reply? : TcpEvent → Option (List UInt8)
  | .replied bytes => some bytes
  | _ => none

def TcpEvent.answer? : TcpEvent → Option (List UInt8)
  | .answered bytes => some bytes
  | _ => none

/-- The log of the server thread, as for one of several connections. -/
def tcpLog (tr : List TcpEvent) : ConnLog where
  pieces := tr.filterMap TcpEvent.piece?
  buffers := tr.filterMap TcpEvent.buffer?
  replies := tr.filterMap TcpEvent.reply?
  calls := callsOf (tr.filterMap TcpEvent.buffer?)

/-- What the client's calls of `recv` have returned. -/
def answers (tr : List TcpEvent) : List (List UInt8) := tr.filterMap TcpEvent.answer?

theorem tcpLog_append (tr es : List TcpEvent) :
    tcpLog (tr ++ es) = (tcpLog tr).append (tcpLog es) := by
  simp [tcpLog, ConnLog.append, callsOf]

theorem answers_append (tr es : List TcpEvent) : answers (tr ++ es) = answers tr ++ answers es := by
  simp [answers]

section Log
variable (tr : List TcpEvent) (bytes buffer : List UInt8)

@[simp] theorem tcpLog_received : tcpLog (tr ++ [.received bytes buffer]) =
    (tcpLog tr).append ⟨[bytes], [buffer], [], callsOf [buffer]⟩ := tcpLog_append _ _

@[simp] theorem tcpLog_replied : tcpLog (tr ++ [.replied bytes]) =
    (tcpLog tr).append ⟨[], [], [bytes], []⟩ := tcpLog_append _ _

@[simp] theorem tcpLog_answered : tcpLog (tr ++ [.answered bytes]) = tcpLog tr :=
  (tcpLog_append _ _).trans (ConnLog.append_empty _)

@[simp] theorem answers_received : answers (tr ++ [.received bytes buffer]) = answers tr :=
  (answers_append _ _).trans (List.append_nil _)

@[simp] theorem answers_replied : answers (tr ++ [.replied bytes]) = answers tr :=
  (answers_append _ _).trans (List.append_nil _)

@[simp] theorem answers_answered : answers (tr ++ [.answered bytes]) = answers tr ++ [bytes] :=
  answers_append _ _

end Log

/-- The number of records that the client has sent. -/
def ClientPlace.Sent (k : Nat) : ClientPlace → Prop
  | .sending i => k = i
  | .receiving i => k = i + 1
  | _ => True

/-- The number of times that the client has received. -/
def ClientPlace.Heard (k : Nat) : ClientPlace → Prop
  | .sending i | .receiving i => k = i
  | _ => True

def ClientPlace.In (n : Nat) : ClientPlace → Prop
  | .sending i | .receiving i => i < n
  | _ => True

/-- The reply that the server owes. -/
def Conn.due : Conn → Nat
  | .replying .. => 1
  | _ => 0

/-- The places of a thread whose calls on the table are not looked at. -/
def Conn.Plain : Conn → Prop
  | .unborn | .handling .. => False
  | .receiving _ buffer | .replying _ buffer _ => buffer.length = RPC_SIZE
  | _ => True

/-- What holds of the bytes and the calls in every state, however TCP cuts the bytes. -/
structure Flow (signed : Bool) (rs : List Rpc) (tr : List TcpEvent) (s : Tcp) : Prop where
  within : s.client.In rs.length
  up : ∃ k, s.client.Sent k ∧
    (tcpLog tr).pieces.flatten ++ s.up = (rs.take k).flatMap Rpc.bytes
  pieces : ∀ p ∈ (tcpLog tr).pieces, p ≠ [] ∧ p.length ≤ RPC_SIZE
  down : (answers tr).flatten ++ s.down = (tcpLog tr).replies.flatten
  replied : ∀ r ∈ (tcpLog tr).replies, r.length = 4
  answered : ∀ r ∈ answers tr, r.length ≤ 4
  heard : s.client.Heard (answers tr).length
  due : (tcpLog tr).pieces.length = (tcpLog tr).replies.length + s.server.due
  plain : s.server.Plain
  logged : Logged signed s.server (tcpLog tr)

theorem recordAt_eq {rs : List Rpc} {i : Nat} (hi : i < rs.length) :
    recordAt rs i = rs[i].bytes := by
  simp [recordAt, hi]

theorem take_succ_bytes {rs : List Rpc} {i : Nat} (hi : i < rs.length) :
    (rs.take (i + 1)).flatMap Rpc.bytes = (rs.take i).flatMap Rpc.bytes ++ recordAt rs i := by
  rw [List.take_succ_eq_append_getElem hi, List.flatMap_append, recordAt_eq hi]
  simp

theorem length_recvInto {old piece : List UInt8} (hold : old.length = RPC_SIZE)
    (hpiece : piece.length ≤ RPC_SIZE) : (recvInto old piece).length = RPC_SIZE := by
  simp [recvInto, hold]
  omega

section Flow
variable {signed : Bool} {rs : List Rpc} {fd : Int} {s s' : Tcp} {a : TcpAct}
variable {tr es : List TcpEvent}

theorem Flow.send (h : Flow signed rs tr s) {i : Nat} (hclient : s.client = .sending i) :
    Flow signed rs (tr ++ []) { s with client := .receiving i, up := s.up ++ recordAt rs i } := by
  obtain ⟨k, hk, hup⟩ := h.up
  have hwithin := h.within
  have hheard := h.heard
  rw [hclient] at hk hwithin hheard
  obtain rfl : k = i := hk
  rw [List.append_nil]
  refine { h with within := hwithin, up := ⟨k + 1, rfl, ?_⟩, heard := hheard }
  rw [take_succ_bytes hwithin, ← hup, List.append_assoc]

theorem Flow.answer (h : Flow signed rs tr s) {i n : Nat} (hclient : s.client = .receiving i)
    (hn : n ≤ 4) :
    Flow signed rs (tr ++ [.answered (s.down.take n)])
      { s with client := .next rs i, down := s.down.drop n } := by
  obtain ⟨k, hk, hup⟩ := h.up
  have hheard := h.heard
  rw [hclient] at hk hheard
  obtain rfl : k = i + 1 := hk
  have hi : (answers tr).length = i := hheard
  refine { h with
    within := ?_, up := ⟨i + 1, ?_, by simpa using hup⟩, pieces := by simpa using h.pieces
    down := ?_, replied := by simpa using h.replied, answered := ?_, heard := ?_
    due := by simpa using h.due, logged := by simpa using h.logged }
  · by_cases hnext : i + 1 < rs.length <;> simp [ClientPlace.next, ClientPlace.In, hnext]
  · by_cases hnext : i + 1 < rs.length <;> simp [ClientPlace.next, ClientPlace.Sent, hnext]
  · simp [← h.down]
  · intro r hr
    rcases List.mem_append.mp (answers_answered tr _ ▸ hr) with hr | hr
    · exact h.answered r hr
    · rw [List.mem_singleton.mp hr, List.length_take]
      omega
  · by_cases hnext : i + 1 < rs.length <;> simp [ClientPlace.next, ClientPlace.Heard, hnext, hi]

theorem Flow.recv (h : Flow signed rs tr s) {n : Nat} {fd' : Int} {old : List UInt8}
    (hserver : s.server = .receiving fd' old) (hpos : 0 < n) (hsize : n ≤ RPC_SIZE)
    (hn : n ≤ s.up.length) :
    Flow signed rs (tr ++ [.received (s.up.take n) (recvInto old (s.up.take n))])
      { s with
        server := .replying fd' (recvInto old (s.up.take n))
          (rpcCall (recvInto old (s.up.take n))).isNone
        up := s.up.drop n } := by
  obtain ⟨k, hk, hup⟩ := h.up
  have hplain := h.plain
  have hlogged := h.logged
  have hdue := h.due
  rw [hserver] at hplain hlogged hdue
  have hlen : (s.up.take n).length = n := by simpa using hn
  refine { h with
    up := ⟨k, hk, ?_⟩, pieces := ?_, down := by simpa [ConnLog.append] using h.down
    replied := by simpa [ConnLog.append] using h.replied, answered := by simpa using h.answered
    heard := by simpa using h.heard, due := ?_, plain := length_recvInto hplain (by omega)
    logged := ?_ }
  · simp [ConnLog.append, ← hup]
  · intro p hp
    rcases List.mem_append.mp (tcpLog_received tr _ _ ▸ hp) with hp | hp
    · exact h.pieces p hp
    · obtain rfl : p = s.up.take n := List.mem_singleton.mp hp
      exact ⟨List.ne_nil_of_length_pos (by omega), by omega⟩
  · simpa [ConnLog.append, Conn.due] using hdue
  · rw [tcpLog_received]
    cases hcall : rpcCall (recvInto old (s.up.take n)) with
    | none => simpa [callsOf, hcall] using hlogged.recvExit hcall
    | some call => simpa [callsOf, hcall] using (hlogged.recvCall hcall).returned

theorem Flow.reply (h : Flow signed rs tr s) {fd' : Int} {buffer : List UInt8} {last : Bool}
    (hserver : s.server = .replying fd' buffer last) :
    Flow signed rs (tr ++ [.replied (buffer.take 4)])
      { s with
        server := if last then .closing fd' else .receiving fd' buffer
        down := s.down ++ buffer.take 4 } := by
  have hplain := h.plain
  have hlogged := h.logged
  have hdue := h.due
  rw [hserver] at hplain hlogged hdue
  have hlen : buffer.length = RPC_SIZE := hplain
  refine { h with
    up := by simpa [ConnLog.append] using h.up, pieces := by simpa [ConnLog.append] using h.pieces
    down := ?_, replied := ?_, answered := by simpa using h.answered
    heard := by simpa using h.heard, due := ?_, plain := ?_, logged := ?_ }
  · simp [ConnLog.append, ← h.down]
  · intro r hr
    rcases List.mem_append.mp (tcpLog_replied tr _ ▸ hr) with hr | hr
    · exact h.replied r hr
    · rw [List.mem_singleton.mp hr, List.length_take, hlen]
      rfl
  · cases last <;> simpa [ConnLog.append, Conn.due] using hdue
  · cases last
    · exact hplain
    · trivial
  · rw [tcpLog_replied]
    exact hlogged.reply

theorem Flow.step (h : Flow signed rs tr s) (hmove : TcpMove rs fd s a s' es) :
    Flow signed rs (tr ++ es) s' := by
  cases hmove with
  | send hclient => exact h.send hclient
  | answer hclient hn => exact h.answer hclient (by rcases hn with hn | hn <;> omega)
  | clientPipe hclient hgone =>
    rw [List.append_nil]
    obtain ⟨k, -, hup⟩ := h.up
    exact { h with within := trivial, up := ⟨k, trivial, hup⟩, heard := trivial }
  | start hserver hlen halive =>
    rw [List.append_nil]
    have hdue := h.due
    have hlogged := h.logged
    rw [hserver] at hdue hlogged
    exact { h with due := hdue, plain := hlen, logged := hlogged.start hlen }
  | recvEnd hserver halive hgone =>
    rw [List.append_nil]
    have hdue := h.due
    have hlogged := h.logged
    rw [hserver] at hdue hlogged
    exact { h with due := hdue, plain := trivial, logged := hlogged.recvEnd }
  | recv hserver halive hpos hsize hn => exact h.recv hserver hpos hsize hn
  | reply hserver halive => exact h.reply hserver
  | serverPipe hserver halive hgone =>
    rw [List.append_nil]
    exact { h with }
  | close hserver halive =>
    rw [List.append_nil]
    have hdue := h.due
    have hlogged := h.logged
    rw [hserver] at hdue hlogged
    exact { h with due := hdue, plain := trivial, logged := hlogged.close }

/-! ## No waiting for each other -/

theorem length_flatten_le {l : List (List UInt8)} {n : Nat} (h : ∀ p ∈ l, p.length ≤ n) :
    l.flatten.length ≤ l.length * n := by
  have hle := List.sum_le_card_nsmul (l.map List.length) n (by simpa using h)
  rwa [List.length_map, Nat.nsmul_eq_mul, ← List.length_flatten] at hle

theorem le_length_flatten {l : List (List UInt8)} {n : Nat} (h : ∀ p ∈ l, n ≤ p.length) :
    l.length * n ≤ l.flatten.length := by
  have hle := List.card_nsmul_le_sum (l.map List.length) n (by simpa using h)
  rwa [List.length_map, Nat.nsmul_eq_mul, ← List.length_flatten] at hle

theorem length_records {rs : List Rpc} {k : Nat} (hk : k ≤ rs.length) :
    ((rs.take k).flatMap Rpc.bytes).length = k * RPC_SIZE := by
  simp [List.length_flatMap, hk]

/-- The server has answered at least as often as the client has sent, once all is received. -/
theorem Flow.not_stuck (h : Flow signed rs tr s) {i : Nat} {fd' : Int} {old : List UInt8}
    (hclient : s.client = .receiving i) (hserver : s.server = .receiving fd' old)
    (hup : s.up = []) : s.down ≠ [] := by
  intro hdown
  obtain ⟨k, hk, hsent⟩ := h.up
  have hwithin := h.within
  have hheard := h.heard
  have hdue := h.due
  rw [hclient] at hk hwithin hheard
  rw [hserver] at hdue
  obtain rfl : k = i + 1 := hk
  have hi : (answers tr).length = i := hheard
  have hpieces : (i + 1) * RPC_SIZE ≤ (tcpLog tr).pieces.length * RPC_SIZE := by
    have hlength : ((rs.take (i + 1)).flatMap Rpc.bytes).length = (i + 1) * RPC_SIZE :=
      length_records hwithin
    rw [← hlength, ← hsent, hup, List.append_nil]
    exact length_flatten_le fun p hp => (h.pieces p hp).2
  have hreplies : (tcpLog tr).replies.length * 4 ≤ (answers tr).length * 4 := by
    refine Nat.le_trans (le_length_flatten fun r hr => (h.replied r hr).ge) ?_
    rw [← h.down, hdown, List.append_nil]
    exact length_flatten_le h.answered
  have hle : i + 1 ≤ (tcpLog tr).pieces.length :=
    Nat.le_of_mul_le_mul_right hpieces (by decide)
  simp only [Conn.due] at hdue
  omega

/-- A server that is neither gone nor waiting for bytes goes on. -/
theorem Tcp.server_isSome (hplain : s.server.Plain) (hgone : s.serverGone = false)
    (hwait : ∀ fd' old, s.server ≠ .receiving fd' old) : ∃ a, (s.step rs fd a).isSome := by
  have hdead : s.dead = false := by
    simp only [serverGone, Bool.or_eq_false_iff] at hgone
    exact hgone.1
  cases hserver : s.server with
  | unborn => simp [hserver, Conn.Plain] at hplain
  | created =>
    refine ⟨.start (List.replicate RPC_SIZE 0), ?_⟩
    simp [step, clientStep, serverStep, hserver, hdead]
  | receiving fd' old => exact absurd hserver (hwait fd' old)
  | handling fd' buffer => simp [hserver, Conn.Plain] at hplain
  | replying fd' buffer last =>
    refine ⟨.reply, ?_⟩
    simp [step, clientStep, serverStep, hserver, hdead]
  | closing fd' =>
    refine ⟨.close, ?_⟩
    simp [step, clientStep, serverStep, hserver, hdead]
  | finished => simp [serverGone, hserver] at hgone

theorem Tcp.recv_isSome {fd' : Int} {old : List UInt8} {n : Nat}
    (hserver : s.server = .receiving fd' old) (hgone : s.serverGone = false)
    (hn : CanRecv n RPC_SIZE s.up s.client.gone) : (s.step rs fd (.serverRecv n)).isSome := by
  have hdead : s.dead = false := by
    simp only [serverGone, Bool.or_eq_false_iff] at hgone
    exact hgone.1
  by_cases hzero : n = 0
  · subst hzero
    simp [step, clientStep, serverStep, hserver, hdead, hn]
  · simp [step, clientStep, serverStep, hserver, hdead, hn, hzero]

/-- Until both sides are gone one of them can take a step. -/
theorem Flow.exists_step (h : Flow signed rs tr s) :
    (s.client.gone = true ∧ s.serverGone = true) ∨ ∃ a, (s.step rs fd a).isSome := by
  have hserver : s.serverGone = false → (∀ i, s.client = .receiving i → s.down = []) →
      (∀ i, s.client ≠ .sending i) → ∃ a, (s.step rs fd a).isSome := by
    intro hgone hdown hsending
    by_cases hwait : ∃ fd' old, s.server = .receiving fd' old
    · obtain ⟨fd', old, hconn⟩ := hwait
      cases hup : s.up with
      | cons b bs => exact ⟨_, Tcp.recv_isSome (n := 1) hconn hgone (.inl ⟨by omega, by decide,
          by simp [hup]⟩)⟩
      | nil =>
        refine ⟨_, Tcp.recv_isSome (n := 0) hconn hgone (.inr ⟨rfl, ?_⟩)⟩
        cases hclient : s.client with
        | sending i => exact absurd hclient (hsending i)
        | receiving i => exact absurd (hdown i hclient) (h.not_stuck hclient hconn hup)
        | closed => rfl
        | killed => rfl
    · exact Tcp.server_isSome h.plain hgone fun fd' old hconn => hwait ⟨fd', old, hconn⟩
  cases hclient : s.client with
  | sending i => exact .inr ⟨.send, by simp [Tcp.step, Tcp.clientStep, hclient]⟩
  | receiving i =>
    right
    cases hdown : s.down with
    | cons b bs =>
      refine ⟨.clientRecv 1, ?_⟩
      simp [Tcp.step, Tcp.clientStep, hclient, Tcp.CanRecv, hdown]
    | nil =>
      cases hgone : s.serverGone with
      | true =>
        refine ⟨.clientRecv 0, ?_⟩
        simp [Tcp.step, Tcp.clientStep, hclient, Tcp.CanRecv, hgone]
      | false => exact hserver hgone (fun _ _ => hdown) (by simp [hclient])
  | closed =>
    cases hgone : s.serverGone with
    | true => exact .inl ⟨rfl, rfl⟩
    | false => exact .inr (hserver hgone (by simp [hclient]) (by simp [hclient]))
  | killed =>
    cases hgone : s.serverGone with
    | true => exact .inl ⟨rfl, rfl⟩
    | false => exact .inr (hserver hgone (by simp [hclient]) (by simp [hclient]))

/-! ## No going on for ever -/

/-- Every byte that is not received yet can still cost a `recv`, a reply and a round. -/
def ClientPlace.left (n : Nat) : ClientPlace → Nat
  | .sending i => 3 * ((n - i) * RPC_SIZE) + 2 * (n - i) + 1
  | .receiving i => 3 * ((n - (i + 1)) * RPC_SIZE) + 2 * (n - i)
  | _ => 0

def Conn.left : Conn → Nat
  | .created | .replying .. => 3
  | .receiving .. => 2
  | .closing _ => 1
  | _ => 0

def Tcp.left (n : Nat) (s : Tcp) : Nat :=
  s.client.left n + 3 * s.up.length + s.server.left + if s.dead then 0 else 1

end Flow

def sampleRecords : List Rpc := [recordEnding .put 1, recordEnding .exit 0]

end ThletEvaluation.Linux
