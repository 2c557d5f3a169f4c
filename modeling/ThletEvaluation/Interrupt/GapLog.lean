import Mathlib.Logic.Function.Basic
import ThletEvaluation.Interrupt.Flags

/-!
# The gap log of the receiver

While no packet is there, `main` of `recv.c` reads the cycle counter and logs every gap in
`t7a` and `t8a`. The index `vc` is used as the length of the log by the loop that scans it
once a packet has come. What the counter and `epoll_wait` return is left to the outside.
-/

namespace ThletEvaluation.Interrupt

set_option autoImplicit false

def VEC_SIZE : Nat := 100000

/-- One round of the polling loop; `nfds` is what `epoll_wait` returns if it is called. -/
structure Round where
  readings : Readings
  ioctlFails : Bool
  nfds : Int

/-- An index of `t7a` and `t8a` and what is written there. -/
structure Write where
  index : Nat
  t7 : UInt64
  t8 : UInt64
  deriving DecidableEq

structure Poll where
  nfds : Int
  vc : Nat
  t7a : Nat → UInt64
  t8a : Nat → UInt64
  exited : Bool

/-- The beginning of a request: the arrays are as the requests before have left them. -/
def Poll.start (nfds : Int) (t7a t8a : Nat → UInt64) : Poll := ⟨nfds, 0, t7a, t8a, false⟩

/-- The gap `t7`, `t8` is logged and `epoll_wait` is called. -/
def Poll.record (s : Poll) (t7 t8 : UInt64) (nfds : Int) : Poll where
  nfds := nfds
  vc := if s.vc ≥ VEC_SIZE then 0 else s.vc + 1
  t7a := Function.update s.t7a s.vc t7
  t8a := Function.update s.t8a s.vc t8
  exited := s.exited

/-- `while (nfds <= 0)`; a round that is not reached is not taken. -/
def pollLoop : Poll → List Round → Poll × List Write
  | s, [] => (s, [])
  | s, r :: rounds =>
    if s.nfds > 0 then (s, [])
    else
      match gap r.readings with
      | none => pollLoop s rounds
      | some (t7, t8) =>
        if r.ioctlFails then ({ s with exited := true }, [])
        else
          let rest := pollLoop (s.record t7 t8 r.nfds) rounds
          (rest.1, ⟨s.vc, t7, t8⟩ :: rest.2)

/-- `state` is `-1` until the gap of the interrupt is found, and `1` then. -/
structure Scan where
  pre : UInt64
  found : Bool
  toIrq : UInt64
  /-- The indices that have been read. -/
  reads : List Nat
  deriving DecidableEq

/-- The scan from `i` on, with `n` entries left. -/
def scanFrom (commonIrqEntry csExit : UInt64) (t7a t8a : Nat → UInt64) :
    Nat → Nat → Scan → Scan
  | _, 0, s => s
  | i, n + 1, s =>
    if !s.found && (s.pre < commonIrqEntry && t7a i > commonIrqEntry) then
      scanFrom commonIrqEntry csExit t7a t8a (i + 1) n
        ⟨t7a i, true, commonIrqEntry - s.pre, s.reads ++ [i]⟩
    else if s.found && (t7a i < csExit && csExit < t8a i) then
      { s with reads := s.reads ++ [i] }
    else
      scanFrom commonIrqEntry csExit t7a t8a (i + 1) n
        { s with pre := t7a i, reads := s.reads ++ [i] }

def scanLoop (commonIrqEntry csExit t0 : UInt64) (p : Poll) : Scan :=
  scanFrom commonIrqEntry csExit p.t7a p.t8a 0 p.vc ⟨t0, false, 0, []⟩

/-- The number of gaps that are logged in the rounds that are taken. -/
def gapsLogged : Int → List Round → Nat
  | _, [] => 0
  | nfds, r :: rounds =>
    if nfds > 0 then 0
    else
      match gap r.readings with
      | none => gapsLogged nfds rounds
      | some _ => if r.ioctlFails then 0 else gapsLogged r.nfds rounds + 1

section Poll
variable {s : Poll} {rounds : List Round}

theorem record_vc_le (h : s.vc ≤ VEC_SIZE) (t7 t8 : UInt64) (nfds : Int) :
    (s.record t7 t8 nfds).vc ≤ VEC_SIZE := by
  simp only [Poll.record]
  split <;> omega

theorem pollLoop_vc_le (h : s.vc ≤ VEC_SIZE) (rounds : List Round) :
    (pollLoop s rounds).1.vc ≤ VEC_SIZE := by
  fun_induction pollLoop s rounds with
  | case1 s => exact h
  | case2 s r rounds hn => exact h
  | case3 s r rounds hn hgap ih => exact ih h
  | case4 s r rounds hn t7 t8 hgap hio => exact h
  | case5 s r rounds hn t7 t8 hgap hio rest ih => exact ih (record_vc_le h t7 t8 r.nfds)

/-- The first gap beyond `VEC_SIZE` is the first write out of bounds. -/
theorem writes_in_bounds_iff (h : s.vc ≤ VEC_SIZE) (rounds : List Round) :
    (∀ w ∈ (pollLoop s rounds).2, w.index < VEC_SIZE) ↔
      s.vc + gapsLogged s.nfds rounds ≤ VEC_SIZE := by
  fun_induction pollLoop s rounds with
  | case1 s => simpa [gapsLogged] using h
  | case2 s r rounds hn => simpa [gapsLogged, hn] using h
  | case3 s r rounds hn hgap ih => simpa [gapsLogged, hn, hgap] using ih h
  | case4 s r rounds hn t7 t8 hgap hio => simpa [gapsLogged, hn, hgap, hio] using h
  | case5 s r rounds hn t7 t8 hgap hio rest ih =>
    have hrest := ih (record_vc_le h t7 t8 r.nfds)
    simp only [gapsLogged, hn, if_false, hgap, hio, List.forall_mem_cons, rest, hrest]
    simp only [Poll.record]
    split
    · -- `vc` stands at `VEC_SIZE`: this write is out of bounds.
      constructor
      · rintro ⟨hlt, -⟩
        omega
      · intro hle
        simp at hle
        omega
    · simp
      omega

/-- Whether `vc` has wrapped or not, the entries below it are from this request. -/
theorem written_of_lt_vc (rounds : List Round) {i : Nat} (hi : i < (pollLoop s rounds).1.vc) :
    i < s.vc ∨ ∃ w ∈ (pollLoop s rounds).2, w.index = i := by
  fun_induction pollLoop s rounds with
  | case1 s => exact .inl hi
  | case2 s r rounds hn => exact .inl hi
  | case3 s r rounds hn hgap ih => exact ih hi
  | case4 s r rounds hn t7 t8 hgap hio => exact .inl hi
  | case5 s r rounds hn t7 t8 hgap hio rest ih =>
    rcases ih hi with hlt | ⟨w, hw, rfl⟩
    · by_cases hvc : i < s.vc
      · exact .inl hvc
      · right
        refine ⟨_, List.mem_cons_self, ?_⟩
        simp only [Poll.record] at hlt ⊢
        split at hlt <;> omega
    · exact .inr ⟨w, List.mem_cons_of_mem _ hw, rfl⟩

end Poll

section Scan
variable {commonIrqEntry csExit t0 : UInt64} {t7a t8a : Nat → UInt64}

theorem reads_step {reads : List Nat} {i n j : Nat}
    (h : j ∈ reads ++ [i] ∨ i + 1 ≤ j ∧ j < i + 1 + n) :
    j ∈ reads ∨ i ≤ j ∧ j < i + (n + 1) := by
  rcases h with h | h
  · rcases List.mem_append.mp h with h | h
    · exact .inl h
    · right
      have hij := List.mem_singleton.mp h
      omega
  · right
    omega

theorem scanFrom_reads (i n : Nat) (s : Scan) {j : Nat}
    (hj : j ∈ (scanFrom commonIrqEntry csExit t7a t8a i n s).reads) :
    j ∈ s.reads ∨ i ≤ j ∧ j < i + n := by
  fun_induction scanFrom commonIrqEntry csExit t7a t8a i n s with
  | case1 i s => exact .inl hj
  | case2 i n s hfound ih => exact reads_step (ih hj)
  | case3 i n s hfound hexit => exact reads_step (.inl hj)
  | case4 i n s hfound hexit ih => exact reads_step (ih hj)

theorem scanLoop_reads_lt_vc {p : Poll} {j : Nat}
    (hj : j ∈ (scanLoop commonIrqEntry csExit t0 p).reads) : j < p.vc := by
  rcases scanFrom_reads _ _ _ hj with h | h
  · simp at h
  · omega

end Scan

/-- The log is written and read in bounds, and only what this request has written is read,
exactly when the request logs no more than `VEC_SIZE` gaps. -/
theorem gapLog_in_bounds_iff (nfds : Int) (t7a t8a : Nat → UInt64) (rounds : List Round)
    (commonIrqEntry csExit t0 : UInt64) :
    ((∀ w ∈ (pollLoop (.start nfds t7a t8a) rounds).2, w.index < VEC_SIZE) ∧
      ∀ i ∈ (scanLoop commonIrqEntry csExit t0 (pollLoop (.start nfds t7a t8a) rounds).1).reads,
        i < VEC_SIZE ∧ ∃ w ∈ (pollLoop (.start nfds t7a t8a) rounds).2, w.index = i) ↔
    gapsLogged nfds rounds ≤ VEC_SIZE := by
  have hstart : (Poll.start nfds t7a t8a).vc ≤ VEC_SIZE := Nat.zero_le _
  have hwrites := writes_in_bounds_iff hstart rounds
  simp only [Poll.start, Nat.zero_add] at hwrites
  constructor
  · rintro ⟨h, -⟩
    exact hwrites.mp h
  · intro h
    refine ⟨hwrites.mpr h, ?_⟩
    intro i hi
    have hvc := scanLoop_reads_lt_vc hi
    refine ⟨Nat.lt_of_lt_of_le hvc (pollLoop_vc_le hstart rounds), ?_⟩
    rcases written_of_lt_vc rounds hvc with hlt | hw
    · exact absurd hlt (Nat.not_lt_zero i)
    · exact hw

/-- A round with a gap, and no packet. -/
def loggedRound : Round := ⟨⟨0, 2000, 2030, 2060, 2090, 2120⟩, false, 0⟩

theorem gapsLogged_replicate (n : Nat) : gapsLogged 0 (List.replicate n loggedRound) = n := by
  induction n with
  | zero => rfl
  | succ n ih =>
    have hgap : gap loggedRound.readings = some (0, 2000) := by decide
    rw [List.replicate_succ, gapsLogged, hgap]
    simpa [loggedRound] using ih

/-- One gap too many before the packet comes. -/
theorem gapLog_overruns :
    ¬ ∀ w ∈ (pollLoop (.start 0 (fun _ => 0) (fun _ => 0))
      (List.replicate (VEC_SIZE + 1) loggedRound)).2, w.index < VEC_SIZE := by
  intro h
  have hle := (writes_in_bounds_iff (s := .start 0 (fun _ => 0) (fun _ => 0)) (Nat.zero_le _)
    (List.replicate (VEC_SIZE + 1) loggedRound)).mp h
  simp only [Poll.start, gapsLogged_replicate] at hle
  omega

end ThletEvaluation.Interrupt
