import ThletEvaluation.Lib.Run
import ThletEvaluation.Lib.Threads

/-!
# The latency log of the TCP client

Each thread of `client.c` measures its requests and then copies the samples into `lat`, which
all threads share, as they share the counter `numbers`. An index from `LAT_SIZE` on is one
behind the array. The copying is under `lock`, but reading the counter and storing the sample
are two steps all the same, so what the lock is for is proved and not assumed.
-/

namespace ThletEvaluation.Linux.Client

open Run Threads

set_option autoImplicit false

def MAX_REQ_PER_THREAD : Nat := 1000

def NUM_SERVERS : Nat := 10000

def LAT_SIZE : Nat := NUM_SERVERS * MAX_REQ_PER_THREAD

inductive ThreadPc where
  | absent
  | created
  /-- In the loop that sends request `i` and waits for its reply. -/
  | sending (latency : Nat → Int64) (i : Nat)
  | locking (latency : Nat → Int64)
  | committing (latency : Nat → Int64) (i : Nat)
  /-- The index of the store of sample `i` is `n`. -/
  | storing (latency : Nat → Int64) (i : Nat) (n : Int32)
  | returned

inductive MainPc where
  | creating (i : Nat)
  | joining (i : Nat)
  | joined
  /-- `pthread_create` has failed for thread `i`, and the process has ended. -/
  | failed (i : Nat)
  deriving DecidableEq

structure ClientSys where
  numbers : Int32
  lat : Int → Int64
  lock : Option Nat
  thread : Nat → ThreadPc
  main : MainPc

def ClientSys.init : ClientSys := ⟨0, fun _ => 0, none, fun _ => .absent, .creating 0⟩

inductive ClientAct where
  /-- `main` goes on; `success` is what `pthread_create` returns if it is called. -/
  | main (success : Bool)
  /-- Thread `t` goes on; `latency` is the time to the reply if it waits for one. -/
  | thread (t : Nat) (latency : Int64)

inductive LogEvent where
  | sample (t : Nat) (latency : Int64)
  | write (k : Int) (latency : Int64)
  deriving DecidableEq

variable (T R : Nat) (connects : Nat → Bool)

def ClientSys.goto (s : ClientSys) (t : Nat) (pc : ThreadPc) : ClientSys :=
  { s with thread := Function.update s.thread t pc }

/-- `connects` tells which threads get a connection. -/
def generateReqs (s : ClientSys) (t : Nat) (sample : Int64) :
    Option (ClientSys × List LogEvent) :=
  match s.thread t with
  | .absent => none
  | .created =>
    if connects t then some (s.goto t (.sending (fun _ => 0) 0), [])
    else some (s.goto t .returned, [])
  | .sending latency i =>
    if i ≤ R then
      some (s.goto t (.sending (Function.update latency i sample) (i + 1)), [.sample t sample])
    else some (s.goto t (.locking latency), [])
  | .locking latency =>
    if s.lock = none then some ({ s.goto t (.committing latency 0) with lock := some t }, [])
    else none
  | .committing latency i =>
    if i ≤ R then some (s.goto t (.storing latency i s.numbers), [])
    else some ({ s.goto t .returned with lock := none }, [])
  | .storing latency i n =>
    some ({ s.goto t (.committing latency (i + 1)) with
      lat := Function.update s.lat n.toInt (latency i)
      numbers := n + 1 }, [.write n.toInt (latency i)])
  | .returned => none

def mainStep (s : ClientSys) (success : Bool) : Option (ClientSys × List LogEvent) :=
  match s.main with
  | .creating i =>
    if i < T then
      if success then some ({ s.goto i .created with main := .creating (i + 1) }, [])
      else some ({ s with main := .failed i }, [])
    else some ({ s with main := .joining 0 }, [])
  | .joining i =>
    if i < T then
      match s.thread i with
      | .returned => some ({ s with main := .joining (i + 1) }, [])
      | _ => none
    else some ({ s with main := .joined }, [])
  | .joined | .failed _ => none

def MainPc.running : MainPc → Bool
  | .failed _ => false
  | _ => true

def clientStep (s : ClientSys) : ClientAct → Option (ClientSys × List LogEvent)
  | .main success => mainStep T s success
  | .thread t latency => if s.main.running then generateReqs R connects s t latency else none

def clientMachine : Machine ClientSys ClientAct LogEvent := ⟨clientStep T R connects⟩

def LogEvent.isSample : LogEvent → Bool
  | .sample _ _ => true
  | .write _ _ => false

/-- The number of threads that get a connection. -/
def connected : Nat := ((Finset.range T).filter fun t => connects t = true).card

/-- No sample is stored outside `lat`, and `numbers` counts the samples that were taken. -/
def LogBounded (tr : List LogEvent) (s : ClientSys) : Prop :=
  (∀ k v, .write k v ∈ tr → 0 ≤ k ∧ k < LAT_SIZE) ∧
    (s.main = .joined → s.numbers.toInt = tr.countP LogEvent.isSample ∧
      s.numbers.toInt = (connected T connects * (R + 1) : Nat))

/-- The samples of thread `t` when it has returned. -/
def quota (t : Nat) : Nat := if connects t = true then R + 1 else 0

def ThreadPc.active : ThreadPc → Bool
  | .absent => false
  | .returned => false
  | _ => true

def ThreadPc.critical : ThreadPc → Bool
  | .committing _ _ => true
  | .storing _ _ _ => true
  | _ => false

def ThreadPc.sampled (t : Nat) : ThreadPc → Nat
  | .absent => 0
  | .created => 0
  | .sending _ i => i
  | .locking _ => R + 1
  | .committing _ _ => R + 1
  | .storing _ _ _ => R + 1
  | .returned => quota R connects t

def ThreadPc.committed (t : Nat) : ThreadPc → Nat
  | .absent => 0
  | .created => 0
  | .sending _ _ => 0
  | .locking _ => 0
  | .committing _ i => i
  | .storing _ i _ => i
  | .returned => quota R connects t

/-- What holds at a place of the program of thread `t`. -/
def ThreadPc.At (numbers : Int32) (t : Nat) : ThreadPc → Prop
  | .absent => True
  | .created => True
  | .sending _ i => connects t = true ∧ i ≤ R + 1
  | .locking _ => connects t = true
  | .committing _ i => connects t = true ∧ i ≤ R + 1
  | .storing _ i n => connects t = true ∧ i ≤ R ∧ n = numbers
  | .returned => True

/-- The number of threads that `main` has created. -/
def MainPc.made : MainPc → Nat
  | .creating i => i
  | .failed i => i
  | .joining _ => T
  | .joined => T

def MainPc.joins : MainPc → Nat
  | .creating _ => 0
  | .failed _ => 0
  | .joining i => i
  | .joined => T

structure LogInv (tr : List LogEvent) (s : ClientSys) : Prop where
  made_le : s.main.made T ≤ T
  joins_le : s.main.joins T ≤ s.main.made T
  present : ∀ t, s.thread t = .absent ↔ s.main.made T ≤ t
  joined : ∀ t, t < s.main.joins T → s.thread t = .returned
  lock : ∀ t, s.lock = some t ↔ (s.thread t).critical = true
  place : ∀ t, (s.thread t).At R connects s.numbers t
  numbers : s.numbers.toInt = total T (ThreadPc.committed R connects) s.thread
  samples : tr.countP LogEvent.isSample = total T (ThreadPc.sampled R connects) s.thread
  writes : ∀ k, (∃ v, .write k v ∈ tr) ↔ 0 ≤ k ∧ k < s.numbers.toInt

section Invariant
variable {T R connects} {s : ClientSys} {tr es : List LogEvent} {t : Nat}

theorem logInv_init : LogInv T R connects [] ClientSys.init where
  made_le := Nat.zero_le _
  joins_le := Nat.le_refl _
  present := by simp [ClientSys.init, MainPc.made]
  joined := by simp [ClientSys.init, MainPc.joins]
  lock := by simp [ClientSys.init, ThreadPc.critical]
  place := fun _ => trivial
  numbers := by simp [ClientSys.init, total, ThreadPc.committed]
  samples := by simp [ClientSys.init, total, ThreadPc.sampled]
  writes := by simp [ClientSys.init]

theorem LogInv.thread_made (h : LogInv T R connects tr s)
    (hactive : (s.thread t).active = true) : t < s.main.made T := by
  by_contra hge
  rw [(h.present t).mpr (Nat.le_of_not_lt hge)] at hactive
  cases hactive

theorem LogInv.thread_lt (h : LogInv T R connects tr s) (hactive : (s.thread t).active = true) :
    t < T :=
  Nat.lt_of_lt_of_le (h.thread_made hactive) h.made_le

/-- A step of a thread that is not a store. -/
theorem LogInv.move (h : LogInv T R connects tr s) {old pc : ThreadPc} {l : Option Nat}
    (hpc : s.thread t = old) (hactive : old.active = true) (hpresent : pc ≠ .absent)
    (hlock : ∀ v, l = some v ↔ if v = t then pc.critical = true else s.lock = some v)
    (hplace : pc.At R connects s.numbers t)
    (hcommitted : pc.committed R connects t = old.committed R connects t)
    (hsampled : pc.sampled R connects t =
      old.sampled R connects t + es.countP LogEvent.isSample)
    (hquiet : ∀ k v, .write k v ∉ es) :
    LogInv T R connects (tr ++ es) { s.goto t pc with lock := l } := by
  subst hpc
  have hmade := h.thread_made hactive
  have ht := h.thread_lt hactive
  refine ⟨h.made_le, h.joins_le, ?_, ?_, ?_, ?_, ?_, ?_, ?_⟩
  · intro v
    by_cases hv : v = t
    · subst hv
      simp only [ClientSys.goto, Function.update_self, hpresent, false_iff]
      omega
    · simpa [ClientSys.goto, hv] using h.present v
  · intro v hjoined
    have hreturned := h.joined v hjoined
    have hv : v ≠ t := by
      rintro rfl
      rw [hreturned] at hactive
      cases hactive
    simpa [ClientSys.goto, hv] using hreturned
  · intro v
    simp only [hlock v]
    by_cases hv : v = t
    · simp [ClientSys.goto, hv]
    · simpa [ClientSys.goto, hv] using h.lock v
  · intro v
    by_cases hv : v = t
    · subst hv
      simpa [ClientSys.goto] using hplace
    · simpa [ClientSys.goto, hv] using h.place v
  · have hsum := total_update (ThreadPc.committed R connects) s.thread pc ht
    have hnumbers := h.numbers
    simp only [ClientSys.goto]
    omega
  · have hsum := total_update (ThreadPc.sampled R connects) s.thread pc ht
    have hsamples := h.samples
    simp only [ClientSys.goto, List.countP_append]
    omega
  · intro k
    simpa [hquiet, ClientSys.goto] using h.writes k

theorem LogInv.advance (h : LogInv T R connects tr s) {old pc : ThreadPc}
    (hpc : s.thread t = old) (hactive : old.active = true) (hpresent : pc ≠ .absent)
    (hcritical : pc.critical = old.critical) (hplace : pc.At R connects s.numbers t)
    (hcommitted : pc.committed R connects t = old.committed R connects t)
    (hsampled : pc.sampled R connects t =
      old.sampled R connects t + es.countP LogEvent.isSample)
    (hquiet : ∀ k v, .write k v ∉ es) :
    LogInv T R connects (tr ++ es) (s.goto t pc) := by
  refine h.move (l := s.lock) hpc hactive hpresent ?_ hplace hcommitted hsampled hquiet
  intro v
  by_cases hv : v = t
  · rw [if_pos hv, hv, hcritical, ← hpc]
    exact h.lock t
  · rw [if_neg hv]

theorem LogInv.main_goto (h : LogInv T R connects tr s) (pc : MainPc)
    (hmade : pc.made T = s.main.made T) (hjoins : pc.joins T ≤ s.main.made T)
    (hjoined : ∀ v, v < pc.joins T → s.thread v = .returned) :
    LogInv T R connects tr { s with main := pc } where
  made_le := hmade ▸ h.made_le
  joins_le := hmade ▸ hjoins
  present := by
    intro v
    rw [hmade]
    exact h.present v
  joined := hjoined
  lock := h.lock
  place := h.place
  numbers := h.numbers
  samples := h.samples
  writes := h.writes

theorem LogInv.create (h : LogInv T R connects tr s) {i : Nat} (hmain : s.main = .creating i)
    (hi : i < T) :
    LogInv T R connects tr { s.goto i .created with main := .creating (i + 1) } := by
  have habsent : s.thread i = .absent := (h.present i).mpr (by simp [hmain, MainPc.made])
  refine ⟨hi, Nat.zero_le _, ?_, by simp [MainPc.joins], ?_, ?_, ?_, ?_, h.writes⟩
  · intro v
    have hv := h.present v
    simp only [hmain, MainPc.made] at hv ⊢
    by_cases hvi : v = i
    · simp [ClientSys.goto, hvi]
    · simp only [ClientSys.goto, Function.update_of_ne hvi, hv]
      omega
  · intro v
    by_cases hvi : v = i
    · have hlock := h.lock i
      simp only [habsent, ThreadPc.critical] at hlock
      simpa [ClientSys.goto, hvi, ThreadPc.critical] using hlock
    · simpa [ClientSys.goto, hvi] using h.lock v
  · intro v
    by_cases hvi : v = i
    · simp [ClientSys.goto, hvi, ThreadPc.At]
    · simpa [ClientSys.goto, hvi] using h.place v
  · have hsum := total_update (ThreadPc.committed R connects) s.thread .created hi
    have hnumbers := h.numbers
    simp only [habsent, ThreadPc.committed] at hsum
    simp only [ClientSys.goto]
    omega
  · have hsum := total_update (ThreadPc.sampled R connects) s.thread .created hi
    have hsamples := h.samples
    simp only [habsent, ThreadPc.sampled] at hsum
    simp only [ClientSys.goto]
    omega

theorem LogInv.mainStep (h : LogInv T R connects tr s) {success : Bool} {u : ClientSys}
    (hstep : mainStep T s success = some (u, es)) : LogInv T R connects (tr ++ es) u := by
  have hmade := h.made_le
  have hjoins := h.joins_le
  unfold Client.mainStep at hstep
  split at hstep
  next i hmain =>
    rw [hmain] at hmade
    split at hstep
    next hi =>
      split at hstep
      next =>
        cases hstep
        simpa using h.create hmain hi
      next =>
        cases hstep
        simpa using h.main_goto (.failed i) (by simp [hmain, MainPc.made])
          (Nat.zero_le _) (by simp [MainPc.joins])
    next hi =>
      cases hstep
      obtain rfl : i = T := Nat.le_antisymm hmade (Nat.le_of_not_lt hi)
      simpa using h.main_goto (.joining 0) (by simp [hmain, MainPc.made])
        (Nat.zero_le _) (by simp [MainPc.joins])
  next i hmain =>
    rw [hmain] at hjoins
    split at hstep
    next hi =>
      split at hstep
      next hreturned =>
        cases hstep
        refine (List.append_nil tr).symm ▸ h.main_goto (.joining (i + 1))
          (by simp [hmain, MainPc.made])
          (by simpa [hmain, MainPc.made, MainPc.joins] using Nat.succ_le_of_lt hi) ?_
        intro v hv
        rcases Nat.lt_succ_iff_lt_or_eq.mp hv with hlt | rfl
        · exact h.joined v (by simpa [hmain, MainPc.joins] using hlt)
        · exact hreturned
      next => cases hstep
    next hi =>
      cases hstep
      obtain rfl : i = T := Nat.le_antisymm hjoins (Nat.le_of_not_lt hi)
      refine (List.append_nil tr).symm ▸ h.main_goto .joined
        (by simp [hmain, MainPc.made]) (by simp [hmain, MainPc.made, MainPc.joins]) ?_
      intro v hv
      exact h.joined v (by simpa [hmain, MainPc.joins] using hv)
  next => cases hstep
  next => cases hstep

/-! ## The shares of the threads -/

theorem sum_quota : ∑ t ∈ Finset.range T, quota R connects t = connected T connects * (R + 1) := by
  unfold quota connected
  rw [← Finset.sum_filter]
  exact Finset.sum_const_nat fun _ _ => rfl

theorem connected_le : connected T connects ≤ T := by
  have hcard := Finset.card_filter_le (Finset.range T) fun t => connects t = true
  rwa [Finset.card_range] at hcard

theorem ThreadPc.At.committed_le {numbers : Int32} {pc : ThreadPc}
    (h : pc.At R connects numbers t) :
    pc.committed R connects t ≤ quota R connects t := by
  cases pc with
  | absent | created | sending | locking => exact Nat.zero_le _
  | returned => exact Nat.le_refl _
  | committing latency i =>
    obtain ⟨hconnects, hi⟩ := h
    simpa [ThreadPc.committed, quota, hconnects] using hi
  | storing latency i n =>
    obtain ⟨hconnects, hi, _⟩ := h
    simp only [ThreadPc.committed, quota, hconnects, if_true]
    omega

theorem LogInv.numbers_le (h : LogInv T R connects tr s) :
    s.numbers.toInt ≤ (connected T connects * (R + 1) : Nat) := by
  have hle := total_le (n := T) fun v _ => (h.place v).committed_le
  rw [sum_quota] at hle
  rw [h.numbers]
  exact_mod_cast hle

/-- The sample that is about to be stored is not counted yet. -/
theorem LogInv.numbers_lt (h : LogInv T R connects tr s) {latency : Nat → Int64} {i : Nat}
    {n : Int32} (hpc : s.thread t = .storing latency i n) (ht : t < T) :
    s.numbers.toInt < (connected T connects * (R + 1) : Nat) := by
  have hplace := h.place t
  rw [hpc] at hplace
  obtain ⟨hconnects, hi, _⟩ := hplace
  have hlt : (s.thread t).committed R connects t < quota R connects t := by
    simp only [hpc, ThreadPc.committed, quota, hconnects, if_true]
    omega
  have hsum := total_lt (fun v _ => (h.place v).committed_le) ht hlt
  rw [sum_quota] at hsum
  rw [h.numbers]
  exact_mod_cast hsum

variable (hsize : T * (R + 1) < 2 ^ 31)
include hsize

theorem LogInv.store (h : LogInv T R connects tr s) {latency : Nat → Int64} {i : Nat} {n : Int32}
    (hpc : s.thread t = .storing latency i n) :
    LogInv T R connects (tr ++ [LogEvent.write n.toInt (latency i)])
      { s.goto t (.committing latency (i + 1)) with
        lat := Function.update s.lat n.toInt (latency i)
        numbers := n + 1 } := by
  have hplace := h.place t
  rw [hpc] at hplace
  obtain ⟨hconnects, hi, rfl⟩ := hplace
  have ht : t < T := h.thread_lt (by rw [hpc]; rfl)
  have hlock : s.lock = some t := (h.lock t).mpr (by simp [hpc, ThreadPc.critical])
  have hsucc : (s.numbers + 1).toInt = s.numbers.toInt + 1 := by
    have hlt := h.numbers_lt hpc ht
    have hnonneg := h.numbers
    have hle : connected T connects * (R + 1) ≤ T * (R + 1) :=
      Nat.mul_le_mul_right _ connected_le
    rw [Int32.toInt_add, show (1 : Int32).toInt = 1 from rfl,
      Int.bmod_eq_of_le (by omega) (by omega)]
  refine ⟨h.made_le, h.joins_le, ?_, ?_, ?_, ?_, ?_, ?_, ?_⟩
  · intro v
    by_cases hv : v = t
    · have hpresent := h.present v
      subst hv
      simpa [ClientSys.goto, hpc] using hpresent
    · simpa [ClientSys.goto, hv] using h.present v
  · intro v hjoined
    have hreturned := h.joined v hjoined
    have hv : v ≠ t := by
      rintro rfl
      simp [hpc] at hreturned
    simpa [ClientSys.goto, hv] using hreturned
  · intro v
    by_cases hv : v = t
    · simp [ClientSys.goto, hv, hlock, ThreadPc.critical]
    · simpa [ClientSys.goto, hv] using h.lock v
  · intro v
    by_cases hv : v = t
    · subst hv
      simpa [ClientSys.goto, ThreadPc.At, hconnects] using hi
    -- another thread that relies on the counter would have the lock as well
    · have hfree : (s.thread v).critical ≠ true := by
        intro hcritical
        exact hv (Option.some.inj (((h.lock v).mpr hcritical).symm.trans hlock))
      have hv' := h.place v
      simp only [ClientSys.goto, Function.update_of_ne hv]
      cases hpv : s.thread v with
      | storing latency' j m => simp [hpv, ThreadPc.critical] at hfree
      | absent | created | returned => trivial
      | sending | locking | committing => simpa [hpv, ThreadPc.At] using hv'
  · have hsum := total_update (ThreadPc.committed R connects) s.thread
      (.committing latency (i + 1)) ht
    have hnumbers := h.numbers
    simp only [hpc, ThreadPc.committed] at hsum
    simp only [ClientSys.goto, hsucc]
    omega
  · have hsum := total_update (ThreadPc.sampled R connects) s.thread
      (.committing latency (i + 1)) ht
    have hsamples := h.samples
    simp only [hpc, ThreadPc.sampled] at hsum
    simp only [ClientSys.goto, List.countP_append, List.countP_singleton, LogEvent.isSample,
      Bool.false_eq_true, if_false]
    omega
  · intro k
    have hwrites := h.writes k
    have hnumbers := h.numbers
    simp only [List.mem_append, exists_or, hwrites, List.mem_singleton, LogEvent.write.injEq,
      exists_and_left, exists_eq, and_true, hsucc]
    omega

theorem LogInv.generateReqs (h : LogInv T R connects tr s) {sample : Int64} {u : ClientSys}
    (hstep : generateReqs R connects s t sample = some (u, es)) :
    LogInv T R connects (tr ++ es) u := by
  have hplace := h.place t
  have hlock := h.lock t
  unfold Client.generateReqs at hstep
  split at hstep
  next => cases hstep
  next hpc =>
    split at hstep
    next hconnects =>
      cases hstep
      exact h.advance hpc rfl nofun rfl ⟨hconnects, Nat.zero_le _⟩ rfl rfl (by simp)
    next hconnects =>
      cases hstep
      have hquota : quota R connects t = 0 := if_neg hconnects
      exact h.advance hpc rfl nofun rfl trivial hquota hquota (by simp)
  next latency i hpc =>
    rw [hpc] at hplace
    split at hstep
    next hi =>
      cases hstep
      exact h.advance hpc rfl nofun rfl ⟨hplace.1, Nat.succ_le_succ hi⟩ rfl rfl (by simp)
    next hi =>
      cases hstep
      obtain rfl : i = R + 1 := Nat.le_antisymm hplace.2 (Nat.lt_of_not_le hi)
      exact h.advance hpc rfl nofun rfl hplace.1 rfl rfl (by simp)
  next latency hpc =>
    rw [hpc] at hplace
    split at hstep
    next hfree =>
      cases hstep
      refine h.move hpc rfl nofun ?_ ⟨hplace, Nat.zero_le _⟩ rfl rfl (by simp)
      intro v
      by_cases hv : v = t
      · simp [hv, ThreadPc.critical]
      · simp [hv, hfree, Ne.symm hv]
    next => cases hstep
  next latency i hpc =>
    rw [hpc] at hplace hlock
    split at hstep
    next hi =>
      cases hstep
      exact h.advance hpc rfl nofun rfl ⟨hplace.1, hi, rfl⟩ rfl rfl (by simp)
    next hi =>
      cases hstep
      obtain rfl : i = R + 1 := Nat.le_antisymm hplace.2 (Nat.lt_of_not_le hi)
      have hquota : quota R connects t = R + 1 := if_pos hplace.1
      refine h.move hpc rfl nofun ?_ trivial hquota hquota (by simp)
      intro v
      by_cases hv : v = t
      · simp [hv, ThreadPc.critical]
      · simp [hv, hlock.mpr rfl, Ne.symm hv]
  next latency i n hpc =>
    cases hstep
    exact h.store hsize hpc
  next => cases hstep

theorem logInv_of_runs
    (h : Runs (clientMachine T R connects) (fun _ _ => True) ClientSys.init tr s) :
    LogInv T R connects tr s := by
  refine h.invariant logInv_init ?_
  intro tr es s t act hinv _ hstep
  cases act with
  | main success => exact hinv.mainStep hstep
  | thread v latency =>
    simp only [clientMachine, clientStep] at hstep
    split at hstep
    · exact hinv.generateReqs hsize hstep
    · cases hstep

end Invariant

/-! ## The way to the end -/

def ThreadPc.weight : ThreadPc → Nat
  | .returned => 0
  | .storing _ i _ => 2 * (R + 1 - i)
  | .committing _ i => 2 * (R + 1 - i) + 1
  | .locking _ => 2 * (R + 1) + 2
  | .sending _ i => (R + 1 - i) + 2 * (R + 1) + 3
  | .created => 3 * (R + 1) + 4
  | .absent => 3 * (R + 1) + 5

def MainPc.weight : MainPc → Nat
  | .creating _ => T + 2
  | .joining i => T - i + 1
  | .joined => 0
  | .failed _ => 0

def remaining (s : ClientSys) : Nat :=
  total T (fun _ => ThreadPc.weight R) s.thread + s.main.weight T

section Progress
variable {T R connects} {s : ClientSys} {tr : List LogEvent} {t : Nat}

theorem ThreadPc.active_of_critical {pc : ThreadPc} (h : pc.critical = true) :
    pc.active = true := by
  cases pc with
  | committing | storing => rfl
  | absent | created | sending | locking | returned => cases h

theorem ThreadPc.returned_of_not_active {pc : ThreadPc} (hpresent : pc ≠ .absent)
    (h : ¬ pc.active = true) : pc = .returned := by
  cases pc with
  | absent => exact absurd rfl hpresent
  | returned => rfl
  | created | sending | locking | committing | storing => exact absurd rfl h

/-- A thread that is under way goes on, unless it waits for a lock that is taken. -/
theorem generateReqs_enabled (hplace : (s.thread t).At R connects s.numbers t)
    (hactive : (s.thread t).active = true)
    (hlock : s.lock = none ∨ (s.thread t).critical = true) :
    ∃ u es pc, generateReqs R connects s t 0 = some (u, es) ∧ u.main = s.main ∧
      u.thread = Function.update s.thread t pc ∧ pc.weight R < (s.thread t).weight R := by
  cases hpc : s.thread t with
  | absent => simp [hpc, ThreadPc.active] at hactive
  | returned => simp [hpc, ThreadPc.active] at hactive
  | created =>
    by_cases hconnects : connects t = true
    · have hstep : generateReqs R connects s t 0 =
          some (s.goto t (.sending (fun _ => 0) 0), []) := by
        simp [generateReqs, hpc, hconnects]
      refine ⟨_, _, _, hstep, rfl, rfl, ?_⟩
      simp only [ThreadPc.weight]
      omega
    · have hstep : generateReqs R connects s t 0 = some (s.goto t .returned, []) := by
        simp [generateReqs, hpc, hconnects]
      exact ⟨_, _, _, hstep, rfl, rfl, Nat.succ_pos _⟩
  | sending latency i =>
    by_cases hi : i ≤ R
    · have hstep : generateReqs R connects s t 0 =
          some (s.goto t (.sending (Function.update latency i 0) (i + 1)), [.sample t 0]) := by
        simp [generateReqs, hpc, hi]
      refine ⟨_, _, _, hstep, rfl, rfl, ?_⟩
      simp only [ThreadPc.weight]
      omega
    · have hstep : generateReqs R connects s t 0 = some (s.goto t (.locking latency), []) := by
        simp [generateReqs, hpc, hi]
      refine ⟨_, _, _, hstep, rfl, rfl, ?_⟩
      simp only [ThreadPc.weight]
      omega
  | locking latency =>
    have hfree : s.lock = none := by simpa [hpc, ThreadPc.critical] using hlock
    have hstep : generateReqs R connects s t 0 =
        some ({ s.goto t (.committing latency 0) with lock := some t }, []) := by
      simp [generateReqs, hpc, hfree]
    refine ⟨_, _, _, hstep, rfl, rfl, ?_⟩
    simp only [ThreadPc.weight]
    omega
  | committing latency i =>
    by_cases hi : i ≤ R
    · have hstep : generateReqs R connects s t 0 =
          some (s.goto t (.storing latency i s.numbers), []) := by
        simp [generateReqs, hpc, hi]
      exact ⟨_, _, _, hstep, rfl, rfl, Nat.lt_succ_self _⟩
    · have hstep : generateReqs R connects s t 0 =
          some ({ s.goto t .returned with lock := none }, []) := by
        simp [generateReqs, hpc, hi]
      exact ⟨_, _, _, hstep, rfl, rfl, Nat.succ_pos _⟩
  | storing latency i n =>
    rw [hpc] at hplace
    have hi : i ≤ R := hplace.2.1
    have hstep : generateReqs R connects s t 0 =
        some ({ s.goto t (.committing latency (i + 1)) with
          lat := Function.update s.lat n.toInt (latency i)
          numbers := n + 1 }, [.write n.toInt (latency i)]) := by
      simp [generateReqs, hpc]
    refine ⟨_, _, _, hstep, rfl, rfl, ?_⟩
    simp only [ThreadPc.weight]
    omega

/-- Until `main` has joined all threads, it or one of them can bring that nearer. -/
theorem LogInv.progress (h : LogInv T R connects tr s) (hrun : s.main.running = true) :
    s.main = .joined ∨ ∃ act u es, clientStep T R connects s act = some (u, es) ∧
      u.main.running = true ∧ remaining T R u < remaining T R s := by
  have hthread : ∀ {t}, (s.thread t).active = true →
      (s.lock = none ∨ (s.thread t).critical = true) →
      ∃ act u es, clientStep T R connects s act = some (u, es) ∧
        u.main.running = true ∧ remaining T R u < remaining T R s := by
    intro t hactive hlock
    obtain ⟨u, es, pc, hstep, hmain, hu, hlt⟩ := generateReqs_enabled (h.place t) hactive hlock
    have ht := h.thread_lt hactive
    have hsum := total_update (fun _ => ThreadPc.weight R) s.thread pc ht
    refine ⟨.thread t 0, u, es, by simp [clientStep, hrun, hstep], hmain ▸ hrun, ?_⟩
    simp only [remaining, hu, hmain]
    omega
  cases hmain : s.main with
  | joined => exact .inl rfl
  | failed i => simp [hmain, MainPc.running] at hrun
  | creating i =>
    right
    by_cases hi : i < T
    · have habsent : s.thread i = .absent := (h.present i).mpr (by simp [hmain, MainPc.made])
      have hsum := total_update (fun _ => ThreadPc.weight R) s.thread .created hi
      refine ⟨.main true, { s.goto i .created with main := .creating (i + 1) }, [], ?_, rfl, ?_⟩
      · simp [clientStep, Client.mainStep, hmain, hi]
      · simp only [habsent, ThreadPc.weight] at hsum
        simp only [remaining, ClientSys.goto, hmain, MainPc.weight]
        omega
    · refine ⟨.main true, { s with main := .joining 0 }, [], ?_, rfl, ?_⟩
      · simp [clientStep, Client.mainStep, hmain, hi]
      · simp only [remaining, hmain, MainPc.weight]
        omega
  | joining i =>
    right
    by_cases hi : i < T
    · have hpresent : s.thread i ≠ .absent := by
        intro habsent
        have hle := (h.present i).mp habsent
        simp only [hmain, MainPc.made] at hle
        omega
      cases hlock : s.lock with
      | some o =>
        have hcritical := (h.lock o).mp hlock
        exact hthread (ThreadPc.active_of_critical hcritical) (.inr hcritical)
      | none =>
        by_cases hactive : (s.thread i).active = true
        · exact hthread hactive (.inl hlock)
        · have hreturned : s.thread i = .returned :=
            ThreadPc.returned_of_not_active hpresent hactive
          refine ⟨.main true, { s with main := .joining (i + 1) }, [], ?_, rfl, ?_⟩
          · simp [clientStep, Client.mainStep, hmain, hi, hreturned]
          · simp only [remaining, hmain, MainPc.weight]
            omega
    · refine ⟨.main true, { s with main := .joined }, [], ?_, rfl, ?_⟩
      · simp [clientStep, Client.mainStep, hmain, hi]
      · simp only [remaining, hmain, MainPc.weight]
        omega

end Progress

section Bounded
variable {T R connects} {s : ClientSys} {tr : List LogEvent}

/-- No run gets stuck: unless the process has ended, it goes on to the last join. -/
theorem runs_to_joined (hsize : T * (R + 1) < 2 ^ 31)
    (h : Runs (clientMachine T R connects) (fun _ _ => True) ClientSys.init tr s)
    (hrun : s.main.running = true) :
    ∃ tr' u, Runs (clientMachine T R connects) (fun _ _ => True) ClientSys.init tr' u ∧
      u.main = .joined := by
  refine h.reaches (I := fun s => s.main.running = true) (remaining T R) ?_ hrun
  intro tr s hs hrun
  rcases (logInv_of_runs hsize hs).progress hrun with hjoined | ⟨act, u, es, hstep, hu⟩
  · exact .inl hjoined
  · exact .inr ⟨act, u, es, trivial, hstep, hu⟩

theorem LogInv.of_joined (h : LogInv T R connects tr s) (hjoined : s.main = .joined) :
    s.numbers.toInt = tr.countP LogEvent.isSample ∧
      s.numbers.toInt = (connected T connects * (R + 1) : Nat) := by
  have hreturned : ∀ t < T, s.thread t = .returned := by
    intro t ht
    exact h.joined t (by simpa [hjoined, MainPc.joins] using ht)
  have hcommitted : total T (ThreadPc.committed R connects) s.thread =
      ∑ t ∈ Finset.range T, quota R connects t := by
    apply total_eq
    intro t ht
    rw [hreturned t ht, ThreadPc.committed]
  have hsampled : total T (ThreadPc.sampled R connects) s.thread =
      ∑ t ∈ Finset.range T, quota R connects t := by
    apply total_eq
    intro t ht
    rw [hreturned t ht, ThreadPc.sampled]
  rw [h.numbers, h.samples, hcommitted, hsampled, sum_quota]
  exact ⟨rfl, rfl⟩

theorem LogInv.bounded (h : LogInv T R connects tr s)
    (hfit : connected T connects * (R + 1) ≤ LAT_SIZE) : LogBounded T R connects tr s := by
  refine ⟨?_, h.of_joined⟩
  intro k v hmem
  obtain ⟨hk, hlt⟩ := (h.writes k).mp ⟨v, hmem⟩
  have hle := h.numbers_le
  omega

theorem not_bounded_of_joined (h : LogInv T R connects tr s) (hjoined : s.main = .joined)
    (hover : LAT_SIZE < connected T connects * (R + 1)) : ¬ LogBounded T R connects tr s := by
  rintro ⟨hbound, _⟩
  have hnumbers := (h.of_joined hjoined).2
  obtain ⟨v, hmem⟩ := (h.writes LAT_SIZE).mpr ⟨Int.natCast_nonneg _, by omega⟩
  have hlt := (hbound _ v hmem).2
  omega

theorem size_lt (hT : T ≤ NUM_SERVERS) (hR : R ≤ MAX_REQ_PER_THREAD) : T * (R + 1) < 2 ^ 31 := by
  have hle : T * (R + 1) ≤ NUM_SERVERS * (MAX_REQ_PER_THREAD + 1) :=
    Nat.mul_le_mul hT (Nat.succ_le_succ hR)
  have hmax : NUM_SERVERS * (MAX_REQ_PER_THREAD + 1) < 2 ^ 31 := by decide
  omega

/-- Some run stores behind the array, if there are more samples than it has room for. -/
theorem runs_overrun (hsize : T * (R + 1) < 2 ^ 31)
    (hover : LAT_SIZE < connected T connects * (R + 1)) :
    ∃ tr s, Runs (clientMachine T R connects) (fun _ _ => True) ClientSys.init tr s ∧
      ¬ LogBounded T R connects tr s := by
  have hstart : Runs (clientMachine T R connects) (fun _ _ => True) ClientSys.init []
      ClientSys.init := .start
  obtain ⟨tr, s, hrun, hjoined⟩ := runs_to_joined hsize hstart rfl
  exact ⟨tr, s, hrun, not_bounded_of_joined (logInv_of_runs hsize hrun) hjoined hover⟩

/-- The log stays within the array and is complete, in every order of the threads, exactly if
the threads with a connection have no more samples than the array has elements. -/
theorem logBounded_iff (hT : T ≤ NUM_SERVERS) (hR : R ≤ MAX_REQ_PER_THREAD) :
    (∀ tr s, Runs (clientMachine T R connects) (fun _ _ => True) ClientSys.init tr s →
      LogBounded T R connects tr s) ↔ connected T connects * (R + 1) ≤ LAT_SIZE := by
  have hsize := size_lt hT hR
  constructor
  · intro hall
    by_contra hover
    obtain ⟨tr, s, hrun, hnot⟩ := runs_overrun hsize (Nat.lt_of_not_le hover)
    exact hnot (hall tr s hrun)
  · intro hfit tr s hrun
    exact (logInv_of_runs hsize hrun).bounded hfit

end Bounded

theorem connected_all (T : Nat) : connected T (fun _ => true) = T := by
  simp [connected]

/-- `./client 9990 1000`: the last thread fills the array but for ten elements. -/
theorem logBounded_iff_9990 :
    9990 ≤ NUM_SERVERS ∧ 1000 ≤ MAX_REQ_PER_THREAD ∧
      ∀ tr s, Runs (clientMachine 9990 1000 fun _ => true) (fun _ _ => True) ClientSys.init tr s →
        LogBounded 9990 1000 (fun _ => true) tr s := by
  refine ⟨by decide, by decide, (logBounded_iff (by decide) (by decide)).mpr ?_⟩
  rw [connected_all]
  decide

/-- `./client 10000 1000`, with all threads connected. -/
theorem log_overrun :
    0 < 10000 ∧ 10000 ≤ NUM_SERVERS ∧ 1000 ≤ MAX_REQ_PER_THREAD ∧
      ∃ tr s,
        Runs (clientMachine 10000 1000 fun _ => true) (fun _ _ => True) ClientSys.init tr s ∧
          ¬ LogBounded 10000 1000 (fun _ => true) tr s := by
  refine ⟨by decide, by decide, by decide, runs_overrun (by decide) ?_⟩
  rw [connected_all]
  decide

end ThletEvaluation.Linux.Client
