import Mathlib.Data.List.SplitLengths
import ThletEvaluation.Linux.Rpc

/-!
# Records over TCP

The `server` thread of `server.c` calls `recv` with room for one record and hands its buffer
to `handle_rpc` after every piece it receives, however short the piece is. A connection is
the stream of the records that the client sends, cut into the pieces that `recv` returns.
-/

namespace ThletEvaluation.Linux

open Bytes

set_option autoImplicit false

/-- What a connection leaves: the buffer at each call of `handle_rpc`, the replies, and the
table. -/
structure Session where
  calls : List (List UInt8)
  replies : List (List UInt8)
  table : Option Hash

def handleRpc (signed : Bool) (p : List UInt8) (table : Option Hash) : Option Hash × Bool :=
  kvRpc signed p table

def server (signed : Bool) : Option Hash → List UInt8 → List (List UInt8) → Session
  | table, _, [] => ⟨[], [], table⟩
  | table, old, piece :: pieces =>
    let buffer := recvInto old piece
    let r := handleRpc signed buffer table
    let rest := if r.2 then ⟨[], [], r.1⟩ else server signed r.1 buffer pieces
    -- the reply is the first sizeof(int) bytes of the buffer
    ⟨buffer :: rest.calls, buffer.take 4 :: rest.replies, rest.table⟩

/-- The number of records up to and including the first `Exit`. -/
def session : List RpcType → Nat
  | [] => 0
  | t :: ts => if t = .exit then 1 else session ts + 1

/-- The server did to the records of types `ts` what it is meant to do. -/
structure Framed (signed : Bool) (table : Option Hash) (ts : List RpcType) (rs : List Rpc)
    (result : Session) : Prop where
  calls : result.calls = (rs.take (session ts)).map Rpc.bytes
  replies : result.replies.length = (rs.take (session ts)).length
  table : result.table =
    (rs.take (session ts)).foldl (fun t r => (handleRpc signed r.bytes t).1) table

section Server
variable {signed : Bool} {table : Option Hash} {r : Rpc} {t : RpcType}

theorem handleRpc_done (ht : r.type = t.code) :
    (handleRpc signed r.bytes table).2 = decide (t = .exit) := by
  have htype : rpcType r.bytes = t.code := by
    rw [← ht]
    simpa using rpcType_bytes r []
  cases t <;> simp [handleRpc, kvRpc, rpcCall, htype, RpcType.code]

theorem server_calls_congr (table' : Option Hash) (buffer : List UInt8)
    (pieces : List (List UInt8)) :
    (server signed table buffer pieces).calls = (server signed table' buffer pieces).calls := by
  induction pieces generalizing table table' buffer with
  | nil => rfl
  | cons piece pieces ih =>
    have hdone : ∀ p, (handleRpc signed p table).2 = (handleRpc signed p table').2 := by
      intro p
      simp only [handleRpc, kvRpc]
      split <;> rfl
    simp only [server, hdone]
    split
    · rfl
    · rw [ih]

/-- A piece that is a whole record. -/
theorem server_record {buffer : List UInt8} (hlen : buffer.length = RPC_SIZE)
    (ht : r.type = t.code) (cuts : List Nat) (stream : List UInt8) :
    server signed table buffer ((RPC_SIZE :: cuts).splitLengths (r.bytes ++ stream)) =
      let table' := (handleRpc signed r.bytes table).1
      let rest := if t = .exit then ⟨[], [], table'⟩
        else server signed table' r.bytes (cuts.splitLengths stream)
      ⟨r.bytes :: rest.calls, r.bytes.take 4 :: rest.replies, rest.table⟩ := by
  rw [List.splitLengths_cons, List.take_left' r.length_bytes, List.drop_left' r.length_bytes]
  simp only [server, recvInto_bytes r hlen, handleRpc_done ht, decide_eq_true_eq]

theorem framed_of_whole_records {ts : List RpcType} {rs : List Rpc} {cuts : List Nat}
    {buffer : List UInt8} (htypes : rs.map Rpc.type = ts.map RpcType.code)
    (hlen : buffer.length = RPC_SIZE) (hpos : ∀ c ∈ cuts, 0 < c)
    (hsum : cuts.sum = RPC_SIZE * ts.length) (hwhole : ∀ c ∈ cuts.take (session ts), c = RPC_SIZE) :
    Framed signed table ts rs
      (server signed table buffer (cuts.splitLengths (rs.flatMap Rpc.bytes))) := by
  induction ts generalizing rs cuts buffer table with
  | nil =>
    obtain rfl : cuts = [] := by
      cases cuts with
      | nil => rfl
      | cons c cs =>
        have hc := hpos c List.mem_cons_self
        simp at hsum
        omega
    obtain rfl : rs = [] := by simpa using htypes
    exact ⟨rfl, rfl, rfl⟩
  | cons t ts ih =>
    cases rs with
    | nil => simp at htypes
    | cons r rs =>
      cases cuts with
      | nil => simp [RPC_SIZE] at hsum
      | cons c cs =>
        obtain ⟨ht, htypes⟩ := List.cons.inj htypes
        have hpos' : ∀ c ∈ cs, 0 < c := fun c' hc' => hpos c' (List.mem_cons_of_mem c hc')
        obtain rfl : c = RPC_SIZE := by
          apply hwhole
          rw [session]
          split <;> simp
        rw [List.flatMap_cons, server_record hlen ht]
        by_cases hexit : t = .exit
        · simp only [hexit, if_true]
          exact ⟨by simp [session], by simp [session], by simp [session]⟩
        · have hsum' : cs.sum = RPC_SIZE * ts.length := by
            simp [Nat.mul_add] at hsum
            omega
          have hrest : Framed signed (handleRpc signed r.bytes table).1 ts rs
              (server signed (handleRpc signed r.bytes table).1 r.bytes
                (cs.splitLengths (rs.flatMap Rpc.bytes))) := by
            apply ih htypes r.length_bytes hpos' hsum'
            intro c hc
            exact hwhole c (by simp [session, hexit, hc])
          simp only [hexit, if_false]
          exact ⟨by simp [session, hexit, hrest.calls], by simp [session, hexit, hrest.replies],
            by simp [session, hexit, hrest.table]⟩

end Server

/-- A record of a type whose last byte is `x`. -/
def recordEnding (t : RpcType) (x : UInt8) : Rpc where
  magic := 0
  id := 0
  type := t.code
  key := List.replicate KEY_SIZE 0
  value := List.replicate (VALUE_SIZE - 1) 0 ++ [x]
  key_length := by simp
  value_length := by simp [VALUE_SIZE]

theorem recordEnding_getLast (t : RpcType) (x : UInt8) :
    (recordEnding t x).bytes.getLast? = some x := by
  simp [Rpc.bytes, recordEnding, ← List.append_assoc]

/-- After a short piece the buffer still ends like the record before. -/
theorem whole_of_recvInto {r r' : Rpc} {x y : UInt8} (hxy : x ≠ y) {c : Nat}
    (hc : c ≤ RPC_SIZE) (hr : r.bytes.getLast? = some x) (hr' : r'.bytes.getLast? = some y)
    (stream : List UInt8) (h : recvInto r'.bytes ((r.bytes ++ stream).take c) = r.bytes) :
    c = RPC_SIZE := by
  by_contra hne
  have htake : (r.bytes ++ stream).take c = r.bytes.take c :=
    List.take_append_of_le_length (by simpa using hc)
  have hlen : (r.bytes.take c).length = c := by simpa using hc
  rw [htake, recvInto, hlen] at h
  have hdrop : r'.bytes.drop c = r.bytes.drop c := by
    have happ : r.bytes.take c ++ r'.bytes.drop c = r.bytes.take c ++ r.bytes.drop c := by
      rw [h, List.take_append_drop]
    exact List.append_cancel_left happ
  have hlast := congrArg List.getLast? hdrop
  rw [List.getLast?_drop, List.getLast?_drop, if_neg (by simp; omega), if_neg (by simp; omega),
    hr, hr'] at hlast
  exact hxy (Option.some.inj hlast).symm

theorem whole_records_of_calls {signed : Bool} {ts : List RpcType} {cuts : List Nat}
    (t₀ : RpcType) (hcuts : ∀ c ∈ cuts, c ≤ RPC_SIZE) (hsum : cuts.sum = RPC_SIZE * ts.length)
    (h : ∀ (rs : List Rpc) (r₀ : Rpc), rs.map Rpc.type = ts.map RpcType.code →
      r₀.type = t₀.code →
      (server signed none r₀.bytes (cuts.splitLengths (rs.flatMap Rpc.bytes))).calls =
        (rs.take (session ts)).map Rpc.bytes) :
    ∀ c ∈ cuts.take (session ts), c = RPC_SIZE := by
  induction ts generalizing cuts t₀ with
  | nil => simp [session]
  | cons t ts ih =>
    cases cuts with
    | nil => simp [RPC_SIZE] at hsum
    | cons c cs =>
      have hwhole : c = RPC_SIZE := by
        have hcalls := h (recordEnding t 1 :: ts.map (recordEnding · 0)) (recordEnding t₀ 0)
          (by simp [recordEnding, Function.comp_def]) rfl
        have hsession : 0 < session (t :: ts) := by
          rw [session]
          split <;> omega
        have hhead := congrArg List.head? hcalls
        rw [List.flatMap_cons, List.splitLengths_cons, server, List.head?_cons, List.head?_map,
          List.head?_take, if_neg (by omega), List.head?_cons, Option.map_some] at hhead
        exact whole_of_recvInto (by decide) (hcuts c List.mem_cons_self)
          (recordEnding_getLast t 1) (recordEnding_getLast t₀ 0) _ (Option.some.inj hhead)
      subst hwhole
      by_cases hexit : t = .exit
      · simp [session, hexit]
      · have hsum' : cs.sum = RPC_SIZE * ts.length := by
          simp [Nat.mul_add] at hsum
          omega
        have hrest : ∀ c ∈ cs.take (session ts), c = RPC_SIZE := by
          -- the first record has filled the buffer, and it is of type `t`
          apply ih t (fun c hc => hcuts c (List.mem_cons_of_mem _ hc)) hsum'
          intro rs r htypes ht
          have hcalls := h (r :: rs) (recordEnding t₀ 0) (by simp [ht, htypes]) rfl
          rw [List.flatMap_cons, server_record (Rpc.length_bytes _) ht] at hcalls
          simp only [hexit, if_false, session, List.take_succ_cons, List.map_cons,
            List.cons.injEq, true_and] at hcalls
          exact (server_calls_congr _ _ _).trans hcalls
        intro c hc
        simp only [session, hexit, if_false, List.take_succ_cons, List.mem_cons] at hc
        rcases hc with rfl | hc
        · rfl
        · exact hrest c hc

/-- For every list of record types and every way to cut a stream of such records into pieces
of 1 to `sizeof(Rpc)` bytes, the server calls `handle_rpc` once for each record up to the
first `Exit` with exactly its bytes, replies once to each, and leaves the table that the
records themselves describe, whatever they contain, exactly when each of these records
arrives as one piece. -/
theorem framed_iff_whole_records (signed : Bool) (ts : List RpcType) (cuts : List Nat)
    (hcuts : ∀ c ∈ cuts, 0 < c ∧ c ≤ RPC_SIZE) (hsum : cuts.sum = RPC_SIZE * ts.length) :
    (∀ rs : List Rpc, rs.map Rpc.type = ts.map RpcType.code → ∀ buffer : List UInt8,
        buffer.length = RPC_SIZE → ∀ table : Option Hash, Framed signed table ts rs
          (server signed table buffer (cuts.splitLengths (rs.flatMap Rpc.bytes)))) ↔
      ∀ c ∈ cuts.take (session ts), c = RPC_SIZE := by
  constructor
  · intro h
    apply whole_records_of_calls .get (fun c hc => (hcuts c hc).2) hsum
    intro rs r₀ htypes _
    exact (h rs htypes r₀.bytes r₀.length_bytes none).calls
  · intro hwhole rs htypes buffer hlen table
    exact framed_of_whole_records htypes hlen (fun c hc => (hcuts c hc).1) hsum hwhole

/-- Only the record behind the `Exit` is cut. -/
theorem framed_iff_whole_records_cutAfterExit :
    (∀ c ∈ [126, 126, 100, 26], 0 < c ∧ c ≤ RPC_SIZE) ∧
      [126, 126, 100, 26].sum = RPC_SIZE * [RpcType.put, .exit, .get].length ∧
      ((∀ rs : List Rpc, rs.map Rpc.type = [RpcType.put, .exit, .get].map RpcType.code →
        ∀ buffer : List UInt8, buffer.length = RPC_SIZE → ∀ table : Option Hash,
          Framed false table [.put, .exit, .get] rs
            (server false table buffer
              ([126, 126, 100, 26].splitLengths (rs.flatMap Rpc.bytes)))) ↔
      ∀ c ∈ [126, 126, 100, 26].take (session [.put, .exit, .get]), c = RPC_SIZE) :=
  ⟨by decide, by decide, framed_iff_whole_records false [.put, .exit, .get] [126, 126, 100, 26]
    (by decide) (by decide)⟩

/-- A record that arrives in two pieces is handled twice. -/
theorem record_in_two_pieces :
    ¬ ∀ (signed : Bool) (ts : List RpcType) (rs : List Rpc) (pieces : List (List UInt8))
      (buffer : List UInt8) (table : Option Hash), rs.map Rpc.type = ts.map RpcType.code →
      (∀ p ∈ pieces, p ≠ [] ∧ p.length ≤ RPC_SIZE) → pieces.flatten = rs.flatMap Rpc.bytes →
      buffer.length = RPC_SIZE →
      Framed signed table ts rs (server signed table buffer pieces) := by
  intro hclaim
  have hframed := hclaim false [.put] [recordEnding .put 1]
    [(recordEnding .put 1).bytes.take 100, (recordEnding .put 1).bytes.drop 100]
    (List.replicate RPC_SIZE 0) (some hashInit) rfl (by decide +kernel) (by simp) (by simp)
  exact absurd (congrArg List.length hframed.calls) (by decide +kernel)

end ThletEvaluation.Linux
