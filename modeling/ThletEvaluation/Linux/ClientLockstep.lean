import ThletEvaluation.Linux.ClientSession

/-!
# One connection on which nothing is cut

Where each `recv` returns all that is under way, the loop of the client and the loop of the server
go in lockstep: one record goes up, is handled, and its first bytes come down.
-/

namespace ThletEvaluation.Linux

open Run

set_option autoImplicit false

/-- `rpc[i].type = i == req_nums ? Exit : rand() % 2`. -/
def Generated (rs : List Rpc) : Prop :=
  rs ≠ [] ∧ ∀ r i, rs[i]? = some r →
    if i + 1 = rs.length then r.type = RpcType.exit.code
    else r.type = RpcType.get.code ∨ r.type = RpcType.put.code

/-- A `recv` returns all that is under way. -/
def TcpAct.Whole (s : Tcp) : TcpAct → Prop
  | .serverRecv n => n = s.up.length
  | .clientRecv n => n = s.down.length
  | _ => True

instance TcpAct.decidableWhole (s : Tcp) (a : TcpAct) : Decidable (a.Whole s) :=
  match a with
  | .serverRecv n => inferInstanceAs (Decidable (n = s.up.length))
  | .clientRecv n => inferInstanceAs (Decidable (n = s.down.length))
  | .send | .clientPipe | .start _ | .reply | .serverPipe | .close =>
    inferInstanceAs (Decidable True)

/-- So many records have been handled, replied to and answered. -/
structure Exchanged (rs : List Rpc) (tr : List TcpEvent) (handled replied answered : Nat) :
    Prop where
  buffers : (tcpLog tr).buffers = (rs.take handled).map Rpc.bytes
  replies : (tcpLog tr).replies = (rs.take replied).map fun r => r.bytes.take 4
  answers : answers tr = (rs.take answered).map fun r => r.bytes.take 4

/-- The server waits for the next record. -/
def Conn.Waits : Conn → Prop
  | .created => True
  | .receiving _ buffer => buffer.length = RPC_SIZE
  | _ => False

/-- The server has replied to record `i`. -/
def Conn.Done (rs : List Rpc) (i : Nat) (c : Conn) : Prop :=
  if i + 1 = rs.length then (∃ fd, c = .closing fd) ∨ c = .finished
  else ∃ fd buffer, c = .receiving fd buffer ∧ buffer.length = RPC_SIZE

/-- One record after the other goes up, is handled, and its reply comes down. -/
inductive Lockstep (rs : List Rpc) (tr : List TcpEvent) : Tcp → Prop where
  | ready {i : Nat} {server : Conn} (hi : i < rs.length) (hwaits : server.Waits)
      (hlog : Exchanged rs tr i i i) : Lockstep rs tr ⟨.sending i, server, false, [], []⟩
  | sent {i : Nat} {server : Conn} (hi : i < rs.length) (hwaits : server.Waits)
      (hlog : Exchanged rs tr i i i) :
      Lockstep rs tr ⟨.receiving i, server, false, recordAt rs i, []⟩
  | handled {i : Nat} {fd : Int} (hi : i < rs.length) (hlog : Exchanged rs tr (i + 1) i i) :
      Lockstep rs tr ⟨.receiving i, .replying fd (recordAt rs i) (i + 1 = rs.length), false, [], []⟩
  | replied {i : Nat} {server : Conn} (hi : i < rs.length) (hdone : server.Done rs i)
      (hlog : Exchanged rs tr (i + 1) (i + 1) i) :
      Lockstep rs tr ⟨.receiving i, server, false, [], (recordAt rs i).take 4⟩
  | ended {i : Nat} {server : Conn} (hi : i + 1 = rs.length) (hdone : server.Done rs i)
      (hlog : Exchanged rs tr (i + 1) (i + 1) (i + 1)) :
      Lockstep rs tr ⟨.closed, server, false, [], []⟩

section Lockstep
variable {rs : List Rpc} {fd : Int} {s s' : Tcp} {a : TcpAct} {tr es : List TcpEvent} {i : Nat}

theorem rpcCall_recordAt (hgen : Generated rs) (hi : i < rs.length) :
    (rpcCall (recordAt rs i)).isNone = decide (i + 1 = rs.length) := by
  have htype : rpcType (recordAt rs i) = rs[i].type := by
    rw [recordAt_eq hi]
    simpa using rpcType_bytes rs[i] []
  have hcode := hgen.2 rs[i] i (List.getElem?_eq_getElem hi)
  by_cases hlast : i + 1 = rs.length
  · rw [if_pos hlast] at hcode
    simp [rpcCall, htype, hcode, hlast, RpcType.code]
  · rw [if_neg hlast] at hcode
    rcases hcode with hcode | hcode <;> simp [rpcCall, htype, hcode, hlast, RpcType.code]

theorem length_recordAt (hi : i < rs.length) : (recordAt rs i).length = RPC_SIZE := by
  rw [recordAt_eq hi, Rpc.length_bytes]

theorem take_succ_map (f : Rpc → List UInt8) (hi : i < rs.length) :
    (rs.take (i + 1)).map f = (rs.take i).map f ++ [f rs[i]] := by
  rw [List.take_succ_eq_append_getElem hi, List.map_append]
  rfl

theorem Exchanged.handle {r b : Nat} (h : Exchanged rs tr i r b) (hi : i < rs.length)
    (piece : List UInt8) :
    Exchanged rs (tr ++ [.received piece (recordAt rs i)]) (i + 1) r b := by
  refine ⟨?_, by simpa [ConnLog.append] using h.replies, by simpa using h.answers⟩
  rw [tcpLog_received, take_succ_map _ hi, ← h.buffers, recordAt_eq hi]
  rfl

theorem Exchanged.reply {n b : Nat} (h : Exchanged rs tr n i b) (hi : i < rs.length) :
    Exchanged rs (tr ++ [.replied ((recordAt rs i).take 4)]) n (i + 1) b := by
  refine ⟨by simpa [ConnLog.append] using h.buffers, ?_, by simpa using h.answers⟩
  rw [tcpLog_replied, take_succ_map _ hi, ← h.replies, recordAt_eq hi]
  rfl

theorem Exchanged.answer {n r : Nat} (h : Exchanged rs tr n r i) (hi : i < rs.length) :
    Exchanged rs (tr ++ [.answered ((recordAt rs i).take 4)]) n r (i + 1) := by
  refine ⟨by simpa using h.buffers, by simpa using h.replies, ?_⟩
  rw [answers_answered, take_succ_map _ hi, ← h.answers, recordAt_eq hi]

theorem Conn.Waits.not_gone {c : Conn} (h : c.Waits) {client : ClientPlace} {up down : List UInt8} :
    (Tcp.mk client c false up down).serverGone = false := by
  cases c <;> first | rfl | exact h.elim

theorem Lockstep.step_ready {c : Conn} (hi : i < rs.length) (hwaits : c.Waits)
    (hlog : Exchanged rs tr i i i)
    (hmove : TcpMove rs fd ⟨.sending i, c, false, [], []⟩ a s' es) : Lockstep rs (tr ++ es) s' := by
  cases hmove with
  | send hclient =>
    cases hclient
    rw [List.append_nil]
    exact .sent hi hwaits hlog
  | answer hclient hn => cases hclient
  | clientPipe hclient hgone => simp [hwaits.not_gone] at hgone
  | start hserver hlen halive =>
    rw [List.append_nil]
    exact .ready hi hlen hlog
  | recvEnd hserver halive hgone => cases hgone
  | recv hserver halive hpos hsize hn =>
    simp only [List.length_nil] at hn
    omega
  | reply hserver halive =>
    obtain rfl := hserver
    exact hwaits.elim
  | serverPipe hserver halive hgone => cases hgone
  | close hserver halive =>
    obtain rfl := hserver
    exact hwaits.elim

theorem Lockstep.step_sent {c : Conn} (hgen : Generated rs) (hi : i < rs.length)
    (hwaits : c.Waits) (hlog : Exchanged rs tr i i i)
    (hwhole : a.Whole ⟨.receiving i, c, false, recordAt rs i, []⟩)
    (hmove : TcpMove rs fd ⟨.receiving i, c, false, recordAt rs i, []⟩ a s' es) :
    Lockstep rs (tr ++ es) s' := by
  cases hmove with
  | send hclient => cases hclient
  | answer hclient hn =>
    rcases hn with ⟨hpos, -, hn⟩ | ⟨-, hgone⟩
    · simp only [List.length_nil] at hn
      omega
    · simp [hwaits.not_gone] at hgone
  | clientPipe hclient hgone => cases hclient
  | start hserver hlen halive =>
    rw [List.append_nil]
    exact .sent hi hlen hlog
  | recvEnd hserver halive hgone => cases hgone
  | @recv n fd' old hserver halive hpos hsize hn =>
    obtain rfl := hserver
    obtain rfl : n = (recordAt rs i).length := hwhole
    have hbuffer : recvInto old (recordAt rs i) = recordAt rs i := by
      rw [recordAt_eq hi]
      exact recvInto_bytes _ hwaits
    simp only [List.take_length, List.drop_length, hbuffer, rpcCall_recordAt hgen hi]
    exact .handled hi (hlog.handle hi _)
  | reply hserver halive =>
    obtain rfl := hserver
    exact hwaits.elim
  | serverPipe hserver halive hgone => cases hgone
  | close hserver halive =>
    obtain rfl := hserver
    exact hwaits.elim

theorem Lockstep.step_handled {fd' : Int} (hi : i < rs.length)
    (hlog : Exchanged rs tr (i + 1) i i)
    (hmove : TcpMove rs fd
      ⟨.receiving i, .replying fd' (recordAt rs i) (i + 1 = rs.length), false, [], []⟩ a s' es) :
    Lockstep rs (tr ++ es) s' := by
  cases hmove with
  | send hclient => cases hclient
  | answer hclient hn =>
    rcases hn with ⟨hpos, -, hn⟩ | ⟨-, hgone⟩
    · simp only [List.length_nil] at hn
      omega
    · cases hgone
  | clientPipe hclient hgone => cases hclient
  | start hserver hlen halive => cases hserver
  | recvEnd hserver halive hgone => cases hserver
  | recv hserver halive hpos hsize hn => cases hserver
  | reply hserver halive =>
    cases hserver
    refine .replied hi ?_ (hlog.reply hi)
    by_cases hlast : i + 1 = rs.length
    · simp [Conn.Done, hlast]
    · simp [Conn.Done, hlast, length_recordAt hi]
  | serverPipe hserver halive hgone => cases hgone
  | close hserver halive => cases hserver

theorem Conn.Done.next {c : Conn} (h : c.Done rs i) (hi : i < rs.length)
    (hlog : Exchanged rs tr (i + 1) (i + 1) (i + 1)) :
    Lockstep rs tr ⟨.next rs i, c, false, [], []⟩ := by
  by_cases hlast : i + 1 = rs.length
  · simp only [ClientPlace.next, hlast, Nat.lt_irrefl, if_false]
    exact .ended hlast h hlog
  · have hnext : i + 1 < rs.length := by omega
    simp only [Done, hlast, if_false] at h
    obtain ⟨fd', buffer, rfl, hlen⟩ := h
    simp only [ClientPlace.next, hnext, if_true]
    exact .ready hnext hlen hlog

theorem Conn.Done.close {fd' : Int} (h : (Conn.closing fd').Done rs i) :
    Conn.finished.Done rs i := by
  by_cases hlast : i + 1 = rs.length
  · simp [Done, hlast]
  · simp [Done, hlast] at h

theorem Lockstep.step_replied {c : Conn} (hi : i < rs.length) (hdone : c.Done rs i)
    (hlog : Exchanged rs tr (i + 1) (i + 1) i)
    (hwhole : a.Whole ⟨.receiving i, c, false, [], (recordAt rs i).take 4⟩)
    (hmove : TcpMove rs fd ⟨.receiving i, c, false, [], (recordAt rs i).take 4⟩ a s' es) :
    Lockstep rs (tr ++ es) s' := by
  cases hmove with
  | send hclient => cases hclient
  | @answer i' n hclient hn =>
    cases hclient
    obtain rfl : n = ((recordAt rs i).take 4).length := hwhole
    simp only [List.take_length, List.drop_length]
    exact hdone.next hi (hlog.answer hi)
  | clientPipe hclient hgone => cases hclient
  | start hserver hlen halive =>
    obtain rfl := hserver
    by_cases hlast : i + 1 = rs.length <;> simp [Conn.Done, hlast] at hdone
  | recvEnd hserver halive hgone => cases hgone
  | recv hserver halive hpos hsize hn =>
    simp only [List.length_nil] at hn
    omega
  | reply hserver halive =>
    obtain rfl := hserver
    by_cases hlast : i + 1 = rs.length <;> simp [Conn.Done, hlast] at hdone
  | serverPipe hserver halive hgone => cases hgone
  | close hserver halive =>
    obtain rfl := hserver
    rw [List.append_nil]
    exact .replied hi hdone.close hlog

theorem Lockstep.step_over {c : Conn} (hi : i + 1 = rs.length) (hdone : c.Done rs i)
    (hlog : Exchanged rs tr (i + 1) (i + 1) (i + 1))
    (hmove : TcpMove rs fd ⟨.closed, c, false, [], []⟩ a s' es) : Lockstep rs (tr ++ es) s' := by
  have hplace : (∃ fd, c = .closing fd) ∨ c = .finished := by
    rwa [Conn.Done, if_pos hi] at hdone
  cases hmove with
  | send hclient => cases hclient
  | answer hclient hn => cases hclient
  | clientPipe hclient hgone => cases hclient
  | start hserver hlen halive => simp [show c = _ from hserver] at hplace
  | recvEnd hserver halive hgone => simp [show c = _ from hserver] at hplace
  | recv hserver halive hpos hsize hn => simp [show c = _ from hserver] at hplace
  | reply hserver halive => simp [show c = _ from hserver] at hplace
  | serverPipe hserver halive hgone => simp [show c = _ from hserver] at hplace
  | close hserver halive =>
    obtain rfl := hserver
    rw [List.append_nil]
    exact .ended hi hdone.close hlog

theorem Lockstep.step (hgen : Generated rs) (h : Lockstep rs tr s) (hwhole : a.Whole s)
    (hmove : TcpMove rs fd s a s' es) : Lockstep rs (tr ++ es) s' := by
  cases h with
  | ready hi hwaits hlog => exact step_ready hi hwaits hlog hmove
  | sent hi hwaits hlog => exact step_sent hgen hi hwaits hlog hwhole hmove
  | handled hi hlog => exact step_handled hi hlog hmove
  | replied hi hdone hlog => exact step_replied hi hdone hlog hwhole hmove
  | ended hi hdone hlog => exact step_over hi hdone hlog hmove

theorem lockstep_of_runs (hgen : Generated rs)
    (hrun : Runs (tcpMachine rs fd) (fun s a => a.Whole s) tcpStart tr s) : Lockstep rs tr s := by
  refine hrun.invariant (I := fun tr s => Lockstep rs tr s) ?_ ?_
  · exact .ready (List.length_pos_of_ne_nil hgen.1) trivial ⟨rfl, rfl, rfl⟩
  · intro tr es s s' a h hwhole hstep
    exact h.step hgen hwhole (Tcp.step_move hstep)

/-- As long as the exchange is not over there is a step that cuts nothing. -/
theorem Lockstep.exists_step (h : Lockstep rs tr s) :
    (s.client = .closed ∧ s.server = .finished ∧
      Exchanged rs tr rs.length rs.length rs.length) ∨
    ∃ a, a.Whole s ∧ (s.step rs fd a).isSome := by
  cases h with
  | ready hi hwaits hlog => exact .inr ⟨.send, trivial, by simp [Tcp.step, Tcp.clientStep]⟩
  | @sent i server hi hwaits hlog =>
    right
    cases server with
    | created =>
      refine ⟨.start (List.replicate RPC_SIZE 0), trivial, ?_⟩
      simp [Tcp.step, Tcp.clientStep, Tcp.serverStep]
    | receiving fd' buffer =>
      refine ⟨.serverRecv (recordAt rs i).length, rfl, Tcp.recv_isSome rfl rfl (.inl ?_)⟩
      simp [length_recordAt hi, RPC_SIZE]
    | _ => exact hwaits.elim
  | handled hi hlog =>
    exact .inr ⟨.reply, trivial, by simp [Tcp.step, Tcp.clientStep, Tcp.serverStep]⟩
  | @replied i server hi hdone hlog =>
    right
    refine ⟨.clientRecv ((recordAt rs i).take 4).length, rfl, ?_⟩
    simp [Tcp.step, Tcp.clientStep, Tcp.CanRecv, length_recordAt hi, RPC_SIZE]
  | @ended i server hi hdone hlog =>
    rw [Conn.Done, if_pos hi] at hdone
    rcases hdone with ⟨fd', rfl⟩ | rfl
    · exact .inr ⟨.close, trivial, by simp [Tcp.step, Tcp.clientStep, Tcp.serverStep]⟩
    · exact .inl ⟨rfl, rfl, hi ▸ hlog⟩

/-- Where TCP cuts nothing, the records the client makes are handled one by one, each is answered
with its own first bytes before the next is sent, nobody is killed, and the session ends with the
reply to the `Exit`. -/
theorem session_lockstep (hgen : Generated rs)
    (hrun : Runs (tcpMachine rs fd) (fun s a => a.Whole s) tcpStart tr s) :
    (∃ handled replied answered, Exchanged rs tr handled replied answered ∧
      answered ≤ replied ∧ replied ≤ handled ∧ handled ≤ answered + 1 ∧ handled ≤ rs.length) ∧
    s.dead = false ∧ s.client ≠ .killed ∧
    ((∀ a, a.Whole s → (tcpMachine rs fd).step s a = none) →
      s.client = .closed ∧ s.server = .finished ∧
        Exchanged rs tr rs.length rs.length rs.length) := by
  have hlock := lockstep_of_runs hgen hrun
  have hend : (∀ a, a.Whole s → (tcpMachine rs fd).step s a = none) →
      s.client = .closed ∧ s.server = .finished ∧
        Exchanged rs tr rs.length rs.length rs.length := by
    intro hstuck
    have hnext : _ ∨ ∃ a, a.Whole s ∧ (s.step rs fd a).isSome := hlock.exists_step
    rcases hnext with hover | ⟨a, hwhole, ha⟩
    · exact hover
    · exact absurd (hstuck a hwhole) (Option.isSome_iff_ne_none.mp ha)
  cases hlock with
  | ready hi hwaits hlog =>
    exact ⟨⟨_, _, _, hlog, Nat.le_refl _, Nat.le_refl _, by omega, by omega⟩, rfl, by simp, hend⟩
  | sent hi hwaits hlog =>
    exact ⟨⟨_, _, _, hlog, Nat.le_refl _, Nat.le_refl _, by omega, by omega⟩, rfl, by simp, hend⟩
  | handled hi hlog =>
    exact ⟨⟨_, _, _, hlog, Nat.le_refl _, by omega, by omega, by omega⟩, rfl, by simp, hend⟩
  | replied hi hdone hlog =>
    exact ⟨⟨_, _, _, hlog, by omega, Nat.le_refl _, by omega, by omega⟩, rfl, by simp, hend⟩
  | ended hi hdone hlog =>
    exact ⟨⟨_, _, _, hlog, Nat.le_refl _, Nat.le_refl _, by omega, by omega⟩, rfl, by simp, hend⟩

end Lockstep

def wholeSession : List TcpAct :=
  [.send, .start (List.replicate RPC_SIZE 9), .serverRecv 126, .reply, .clientRecv 4, .send,
    .serverRecv 126, .reply, .close, .clientRecv 4]

theorem session_lockstep_two :
    ∃ (tr : List TcpEvent) (s : Tcp), (answers tr).length = 2 ∧ s.client ≠ .killed ∧
      ∃ handled replied answered, Exchanged sampleRecords tr handled replied answered ∧
        handled ≤ answered + 1 := by
  obtain ⟨tr, s, hrun, hp⟩ := (tcpMachine sampleRecords 5).exec_reaches (fun s a => a.Whole s)
    tcpStart wholeSession (fun tr _ => (answers tr).length == 2) (by decide +kernel)
  have hgen : Generated sampleRecords := by
    refine ⟨by decide, fun r i hr => ?_⟩
    match i, hr with
    | 0, hr =>
      cases hr
      exact .inr rfl
    | 1, hr =>
      cases hr
      rfl
  obtain ⟨⟨handled, replied, answered, hlog, -, -, hle, -⟩, -, hkilled, -⟩ :=
    session_lockstep hgen hrun
  exact ⟨tr, s, by simpa using hp, hkilled, handled, replied, answered, hlog, hle⟩

end ThletEvaluation.Linux
