import Mathlib.Algebra.Order.BigOperators.Group.Finset
import Mathlib.Data.List.Perm.Subperm
import ThletEvaluation.Lib.Observer
import ThletEvaluation.Lib.Threads

/-!
# The thread pool of `udpserver`

`main` puts RPCs into the queue of the pool, reports, frees the table and then runs
`~ThreadPool`, which lets the workers empty the queue. What is done under `queue_mutex` is one
step; a worker that waits on the condition variable may also wake up by itself. A call of
`handle_rpc` has a beginning and an end, and it uses the table in between.
-/

namespace ThletEvaluation.Linux.ThreadPool

open Run

set_option autoImplicit false

inductive WorkerPc (α : Type) where
  /-- About to lock the mutex and to look at the queue. -/
  | ready
  | waiting
  | popped (rpc : α)
  | inHandle (rpc : α)
  /-- About to call `g_stats.add`. -/
  | stats
  | exited
  deriving DecidableEq

inductive MainPc where
  | recv
  | notifyOne
  | report
  | destroy
  | setStop
  | notifyAll
  | join (i : Nat)
  /-- `~ThreadPool` has returned. -/
  | done
  deriving DecidableEq

structure Pool (α : Type) where
  tasks : List α
  stop : Bool
  worker : Nat → WorkerPc α
  main : MainPc
  freed : Bool

def Pool.init (α : Type) : Pool α := ⟨[], false, fun _ => .ready, .recv, false⟩

inductive PoolAct (α : Type) where
  /-- The receive loop of `main` gets an RPC, or ends. -/
  | enqueue (rpc : α)
  | endLoop
  /-- `notify_one` wakes worker `w`, or nobody when nobody waits. -/
  | notify (w : Nat)
  | main
  | work (w : Nat)
  | wakeUp (w : Nat)
  deriving DecidableEq

inductive PoolEvent (α : Type) where
  | enqueue (rpc : α)
  | pop (w : Nat) (rpc : α)
  | enter (w : Nat) (rpc : α)
  | leave (w : Nat) (rpc : α)
  | destroy
  deriving DecidableEq

variable {α : Type}

def Pool.setWorker (s : Pool α) (w : Nat) (pc : WorkerPc α) : Pool α :=
  { s with worker := Function.update s.worker w pc }

def WorkerPc.woken : WorkerPc α → WorkerPc α
  | .waiting => .ready
  | pc => pc

/-- One step of worker `w`. The wait of the loop returns when `stop` is set or the queue is
not empty. -/
def workStep (w : Nat) (s : Pool α) : Option (Pool α × List (PoolEvent α)) :=
  match s.worker w with
  | .ready =>
    match s.tasks with
    | rpc :: tasks => some ({ s.setWorker w (.popped rpc) with tasks := tasks }, [.pop w rpc])
    | [] => some (s.setWorker w (if s.stop then .exited else .waiting), [])
  | .waiting => none
  | .popped rpc => some (s.setWorker w (.inHandle rpc), [.enter w rpc])
  | .inHandle rpc => some (s.setWorker w .stats, [.leave w rpc])
  | .stats => some (s.setWorker w .ready, [])
  | .exited => none

/-- The steps of `main` behind its receive loop, and those of `~ThreadPool`. -/
def mainStep (n : Nat) (s : Pool α) : Option (Pool α × List (PoolEvent α)) :=
  match s.main with
  | .report => some ({ s with main := .destroy }, [])
  | .destroy => some ({ s with main := .setStop, freed := true }, [.destroy])
  | .setStop => some ({ s with main := .notifyAll, stop := true }, [])
  | .notifyAll => some ({ s with main := .join 0, worker := fun w => (s.worker w).woken }, [])
  | .join i =>
    if i < n then
      match s.worker i with
      | .exited => some ({ s with main := .join (i + 1) }, [])
      | _ => none
    else some ({ s with main := .done }, [])
  | .recv | .notifyOne | .done => none

def WorkerPc.isWaiting : WorkerPc α → Bool
  | .waiting => true
  | _ => false

def poolStep (n : Nat) (s : Pool α) : PoolAct α → Option (Pool α × List (PoolEvent α))
  | .enqueue rpc =>
    if s.main = .recv then
      some ({ s with tasks := s.tasks ++ [rpc], main := .notifyOne }, [.enqueue rpc])
    else none
  | .endLoop => if s.main = .recv then some ({ s with main := .report }, []) else none
  | .notify w =>
    if s.main = .notifyOne then
      if w < n ∧ (s.worker w).isWaiting = true then
        some ({ s.setWorker w .ready with main := .recv }, [])
      else if (List.range n).all fun v => !(s.worker v).isWaiting then
        some ({ s with main := .recv }, [])
      else none
    else none
  | .main => mainStep n s
  | .work w => if w < n then workStep w s else none
  | .wakeUp w =>
    if w < n ∧ (s.worker w).isWaiting = true then some (s.setWorker w .ready, []) else none

def poolMachine (α : Type) (n : Nat) : Machine (Pool α) (PoolAct α) (PoolEvent α) := ⟨poolStep n⟩

/-- `main` goes on without touching anything else. -/
inductive MainMove (n : Nat) (s : Pool α) : MainPc → Prop where
  | endLoop (h : s.main = .recv) : MainMove n s .report
  | notified (h : s.main = .notifyOne) : MainMove n s .recv
  | report (h : s.main = .report) : MainMove n s .destroy
  | join {i : Nat} (h : s.main = .join i) (hi : i < n) (hexit : s.worker i = .exited) :
      MainMove n s (.join (i + 1))
  | joined {i : Nat} (h : s.main = .join i) (hi : n ≤ i) : MainMove n s .done

/-- Worker `w` goes on without touching the queue. -/
inductive WorkerMove (s : Pool α) (w : Nat) : WorkerPc α → List (PoolEvent α) → Prop where
  | wait (h : s.worker w = .ready) (hempty : s.tasks = []) (hstop : s.stop = false) :
      WorkerMove s w .waiting []
  | exit (h : s.worker w = .ready) (hempty : s.tasks = []) (hstop : s.stop = true) :
      WorkerMove s w .exited []
  | wake (h : s.worker w = .waiting) : WorkerMove s w .ready []
  | enter {rpc : α} (h : s.worker w = .popped rpc) : WorkerMove s w (.inHandle rpc) [.enter w rpc]
  | leave {rpc : α} (h : s.worker w = .inHandle rpc) : WorkerMove s w .stats [.leave w rpc]
  | again (h : s.worker w = .stats) : WorkerMove s w .ready []

/-- Everything a step can be. -/
inductive PoolMove (n : Nat) (s : Pool α) : PoolAct α → Pool α → List (PoolEvent α) → Prop where
  | enqueue {act : PoolAct α} (rpc : α) (h : s.main = .recv) :
      PoolMove n s act { s with tasks := s.tasks ++ [rpc], main := .notifyOne } [.enqueue rpc]
  | main {act : PoolAct α} {m : MainPc} (h : MainMove n s m) :
      PoolMove n s act { s with main := m } []
  | destroy (h : s.main = .destroy) :
      PoolMove n s .main { s with main := .setStop, freed := true } [.destroy]
  | setStop {act : PoolAct α} (h : s.main = .setStop) :
      PoolMove n s act { s with main := .notifyAll, stop := true } []
  | notifyAll {act : PoolAct α} (h : s.main = .notifyAll) :
      PoolMove n s act { s with main := .join 0, worker := fun w => (s.worker w).woken } []
  | pop {act : PoolAct α} {w : Nat} {rpc : α} {tasks : List α} (hw : w < n)
      (h : s.worker w = .ready) (htasks : s.tasks = rpc :: tasks) :
      PoolMove n s act { s.setWorker w (.popped rpc) with tasks := tasks } [.pop w rpc]
  | worker {act : PoolAct α} {w : Nat} {pc : WorkerPc α} {es : List (PoolEvent α)} (hw : w < n)
      (h : WorkerMove s w pc es) : PoolMove n s act (s.setWorker w pc) es
  | wakeOne {act : PoolAct α} {w : Nat} (hw : w < n) (h : s.worker w = .waiting)
      (hmain : s.main = .notifyOne) :
      PoolMove n s act { s.setWorker w .ready with main := .recv } []

section Inversion
variable {n w : Nat} {s t : Pool α} {es : List (PoolEvent α)}

theorem eq_waiting_of_isWaiting {pc : WorkerPc α} (h : pc.isWaiting = true) : pc = .waiting := by
  cases pc <;> first | rfl | simp [WorkerPc.isWaiting] at h

theorem workStep_cases (hw : w < n) (h : workStep w s = some (t, es)) :
    PoolMove n s (.work w) t es := by
  unfold workStep at h
  cases hpc : s.worker w with
  | ready =>
    cases htasks : s.tasks with
    | cons rpc tasks =>
      obtain ⟨rfl, rfl⟩ := by simpa [hpc, htasks] using h
      exact .pop hw hpc htasks
    | nil =>
      cases hstop : s.stop with
      | true =>
        obtain ⟨rfl, rfl⟩ := by simpa [hpc, htasks, hstop] using h
        exact .worker hw (.exit hpc htasks hstop)
      | false =>
        obtain ⟨rfl, rfl⟩ := by simpa [hpc, htasks, hstop] using h
        exact .worker hw (.wait hpc htasks hstop)
  | waiting | exited => simp [hpc] at h
  | popped rpc =>
    obtain ⟨rfl, rfl⟩ := by simpa [hpc] using h
    exact .worker hw (.enter hpc)
  | inHandle rpc =>
    obtain ⟨rfl, rfl⟩ := by simpa [hpc] using h
    exact .worker hw (.leave hpc)
  | stats =>
    obtain ⟨rfl, rfl⟩ := by simpa [hpc] using h
    exact .worker hw (.again hpc)

theorem mainStep_cases (h : mainStep n s = some (t, es)) : PoolMove n s .main t es := by
  unfold mainStep at h
  cases hmain : s.main with
  | recv | notifyOne | done => simp [hmain] at h
  | report =>
    obtain ⟨rfl, rfl⟩ := by simpa [hmain] using h
    exact .main (.report hmain)
  | destroy =>
    obtain ⟨rfl, rfl⟩ := by simpa [hmain] using h
    exact .destroy hmain
  | setStop =>
    obtain ⟨rfl, rfl⟩ := by simpa [hmain] using h
    exact .setStop hmain
  | notifyAll =>
    obtain ⟨rfl, rfl⟩ := by simpa [hmain] using h
    exact .notifyAll hmain
  | join i =>
    by_cases hi : i < n
    · cases hexit : s.worker i with
      | exited =>
        obtain ⟨rfl, rfl⟩ := by simpa [hmain, hi, hexit] using h
        exact .main (.join hmain hi hexit)
      | _ => simp [hmain, hi, hexit] at h
    · obtain ⟨rfl, rfl⟩ := by simpa [hmain, hi] using h
      exact .main (.joined hmain (by omega))

theorem poolStep_cases {act : PoolAct α} (h : poolStep n s act = some (t, es)) :
    PoolMove n s act t es := by
  cases act with
  | enqueue rpc =>
    simp only [poolStep] at h
    split at h
    next hmain =>
      obtain ⟨rfl, rfl⟩ := by simpa using h
      exact .enqueue rpc hmain
    · simp at h
  | endLoop =>
    simp only [poolStep] at h
    split at h
    next hmain =>
      obtain ⟨rfl, rfl⟩ := by simpa using h
      exact .main (.endLoop hmain)
    · simp at h
  | notify w =>
    simp only [poolStep] at h
    split at h
    next hmain =>
      split at h
      next hw =>
        obtain ⟨rfl, rfl⟩ := by simpa using h
        exact .wakeOne hw.1 (eq_waiting_of_isWaiting hw.2) hmain
      · split at h
        · obtain ⟨rfl, rfl⟩ := by simpa using h
          exact .main (.notified hmain)
        · simp at h
    · simp at h
  | main => exact mainStep_cases h
  | work w =>
    simp only [poolStep] at h
    split at h
    next hw => exact workStep_cases hw h
    · simp at h
  | wakeUp w =>
    simp only [poolStep] at h
    split at h
    next hw =>
      obtain ⟨rfl, rfl⟩ := by simpa using h
      exact .worker hw.1 (.wake (eq_waiting_of_isWaiting hw.2))
    · simp at h

end Inversion

def enqueued (tr : List (PoolEvent α)) : List α :=
  tr.filterMap fun
    | .enqueue rpc => some rpc
    | _ => none

def pops (tr : List (PoolEvent α)) : List (Nat × α) :=
  tr.filterMap fun
    | .pop w rpc => some (w, rpc)
    | _ => none

def enters (tr : List (PoolEvent α)) : List (Nat × α) :=
  tr.filterMap fun
    | .enter w rpc => some (w, rpc)
    | _ => none

/-- The RPCs for which `handle_rpc` was called. -/
def handled (tr : List (PoolEvent α)) : List α := (enters tr).map Prod.snd

def WorkerPc.inHand : WorkerPc α → List α
  | .popped rpc => [rpc]
  | _ => []

/-- Every RPC that was popped was handled by the same worker or is in its hands. -/
structure Tallied (tr : List (PoolEvent α)) (s : Pool α) : Prop where
  queue : enqueued tr = (pops tr).map Prod.snd ++ s.tasks
  hands : ∀ w, (pops tr).filter (fun e => e.1 = w) =
    (enters tr).filter (fun e => e.1 = w) ++ (s.worker w).inHand.map fun rpc => (w, rpc)

def MainPc.stopping : MainPc → Bool
  | .notifyAll | .join _ | .done => true
  | _ => false

def MainPc.joining : MainPc → Bool
  | .join _ | .done => true
  | _ => false

/-- The number of workers that were joined. -/
def MainPc.joined (n : Nat) : MainPc → Nat
  | .join i => i
  | .done => n
  | _ => 0

structure Closing (n : Nat) (s : Pool α) : Prop where
  stop : s.stop = s.main.stopping
  freed : s.freed = (s.main.stopping || s.main = .setStop)
  outside : ∀ w, n ≤ w → s.worker w = .ready
  exited : ∀ w, s.worker w = .exited → s.stop = true ∧ s.tasks = []
  joined : ∀ w, w < s.main.joined n → s.worker w = .exited
  awake : s.main.joining = true → ∀ w, s.worker w ≠ .waiting

section Tally
variable {n : Nat} {s t : Pool α} {tr es : List (PoolEvent α)}

theorem enqueued_append : enqueued (tr ++ es) = enqueued tr ++ enqueued es :=
  List.filterMap_append

theorem pops_append : pops (tr ++ es) = pops tr ++ pops es := List.filterMap_append

theorem enters_append : enters (tr ++ es) = enters tr ++ enters es := List.filterMap_append

/-- Steps that neither pop an RPC nor begin to handle one. -/
theorem Tallied.keep (h : Tallied tr s) (hqueue : enqueued es = []) (hpops : pops es = [])
    (henters : enters es = []) (htasks : t.tasks = s.tasks)
    (hhand : ∀ w, (t.worker w).inHand = (s.worker w).inHand) : Tallied (tr ++ es) t := by
  have hq : enqueued (tr ++ es) = enqueued tr := by
    rw [enqueued_append, hqueue, List.append_nil]
  have hp : pops (tr ++ es) = pops tr := by
    rw [pops_append, hpops, List.append_nil]
  have he : enters (tr ++ es) = enters tr := by
    rw [enters_append, henters, List.append_nil]
  refine ⟨by rw [hq, hp, htasks]; exact h.queue, ?_⟩
  intro w
  rw [hp, he, hhand]
  exact h.hands w

theorem inHand_setWorker {w : Nat} {pc : WorkerPc α} (h : pc.inHand = (s.worker w).inHand)
    (v : Nat) : ((s.setWorker w pc).worker v).inHand = (s.worker v).inHand := by
  rcases eq_or_ne v w with rfl | hne
  · simpa [Pool.setWorker] using h
  · simp [Pool.setWorker, hne]

theorem tallied_pop {w : Nat} {rpc : α} {tasks : List α} (h : Tallied tr s)
    (hpc : s.worker w = .ready) (htasks : s.tasks = rpc :: tasks) :
    Tallied (tr ++ [.pop w rpc]) { s.setWorker w (.popped rpc) with tasks := tasks } := by
  have hp : pops (tr ++ [.pop w rpc]) = pops tr ++ [(w, rpc)] := by simp [pops]
  have he : enters (tr ++ [PoolEvent.pop w rpc]) = enters tr := by simp [enters]
  refine ⟨?_, ?_⟩
  · have hq : enqueued (tr ++ [.pop w rpc]) = enqueued tr := by simp [enqueued]
    rw [hq, hp, h.queue, htasks]
    simp
  · intro v
    have hv := h.hands v
    rw [hp, he, List.filter_append]
    rcases eq_or_ne v w with rfl | hne
    · rw [hpc] at hv
      rw [hv]
      simp [Pool.setWorker, WorkerPc.inHand]
    · simpa [Pool.setWorker, hne, hne.symm] using hv

theorem tallied_enter {w : Nat} {rpc : α} (h : Tallied tr s) (hpc : s.worker w = .popped rpc) :
    Tallied (tr ++ [.enter w rpc]) (s.setWorker w (.inHandle rpc)) := by
  have hp : pops (tr ++ [PoolEvent.enter w rpc]) = pops tr := by simp [pops]
  have he : enters (tr ++ [.enter w rpc]) = enters tr ++ [(w, rpc)] := by simp [enters]
  refine ⟨?_, ?_⟩
  · have hq : enqueued (tr ++ [PoolEvent.enter w rpc]) = enqueued tr := by simp [enqueued]
    rw [hq, hp, h.queue]
    rfl
  · intro v
    have hv := h.hands v
    rw [hp, he, List.filter_append]
    rcases eq_or_ne v w with rfl | hne
    · rw [hpc] at hv
      rw [hv]
      simp [Pool.setWorker, WorkerPc.inHand]
    · simpa [Pool.setWorker, hne, hne.symm] using hv

theorem inHand_woken (pc : WorkerPc α) : pc.woken.inHand = pc.inHand := by
  cases pc <;> rfl

theorem tallied_step {act : PoolAct α} (h : Tallied tr s) (hmove : PoolMove n s act t es) :
    Tallied (tr ++ es) t := by
  cases hmove with
  | enqueue rpc _ =>
    have hp : pops (tr ++ [PoolEvent.enqueue rpc]) = pops tr := by simp [pops]
    have he : enters (tr ++ [PoolEvent.enqueue rpc]) = enters tr := by simp [enters]
    have hq : enqueued (tr ++ [.enqueue rpc]) = enqueued tr ++ [rpc] := by simp [enqueued]
    refine ⟨by rw [hq, hp, h.queue]; simp, ?_⟩
    intro w
    rw [hp, he]
    exact h.hands w
  | main _ => exact h.keep rfl rfl rfl rfl fun _ => rfl
  | destroy _ => exact h.keep rfl rfl rfl rfl fun _ => rfl
  | setStop _ => exact h.keep rfl rfl rfl rfl fun _ => rfl
  | notifyAll _ => exact h.keep rfl rfl rfl rfl fun w => inHand_woken _
  | pop hw hpc htasks => exact tallied_pop h hpc htasks
  | worker hw hwork =>
    cases hwork with
    | wait hpc _ _ | exit hpc _ _ | wake hpc | leave hpc | again hpc =>
      exact h.keep rfl rfl rfl rfl (inHand_setWorker (by rw [hpc]; rfl))
    | enter hpc => exact tallied_enter h hpc
  | wakeOne hw hpc _ => exact h.keep rfl rfl rfl rfl (inHand_setWorker (by rw [hpc]; rfl))

end Tally

section Close
variable {n : Nat} {s t : Pool α} {es : List (PoolEvent α)}

theorem Closing.moved (h : Closing n s) {w : Nat} (pc : WorkerPc α) (hw : w < n)
    (hnot : s.worker w ≠ .exited) (hexit : pc = .exited → s.stop = true ∧ s.tasks = [])
    (hwait : pc = .waiting → s.stop = false) : Closing n (s.setWorker w pc) := by
  refine ⟨h.stop, h.freed, ?_, ?_, ?_, ?_⟩
  · intro v hv
    have hne : v ≠ w := by omega
    simpa [Pool.setWorker, hne] using h.outside v hv
  · intro v hv
    rcases eq_or_ne v w with rfl | hne
    · exact hexit (by simpa [Pool.setWorker] using hv)
    · exact h.exited v (by simpa [Pool.setWorker, hne] using hv)
  · intro v hv
    rcases eq_or_ne v w with rfl | hne
    · exact absurd (h.joined v hv) hnot
    · simpa [Pool.setWorker, hne] using h.joined v hv
  · intro hjoin v
    have hstop : s.stop = true := by
      rw [h.stop]
      revert hjoin
      cases hmain : s.main <;> simp [Pool.setWorker, MainPc.joining, MainPc.stopping, hmain]
    rcases eq_or_ne v w with rfl | hne
    · intro hv
      have := hwait (by simpa [Pool.setWorker] using hv)
      simp [hstop] at this
    · simpa [Pool.setWorker, hne] using h.awake hjoin v

theorem closing_main {m : MainPc} (h : Closing n s) (hmove : MainMove n s m) :
    Closing n { s with main := m } := by
  have hstop := h.stop
  have hfreed := h.freed
  cases hmove with
  | endLoop hmain | notified hmain | report hmain =>
    rw [hmain] at hstop hfreed
    exact ⟨hstop, hfreed, h.outside, h.exited, by simp [MainPc.joined],
      by simp [MainPc.joining]⟩
  | @join i hmain _ hexit =>
    have hjoined := h.joined
    rw [hmain] at hstop hfreed hjoined
    refine ⟨hstop, hfreed, h.outside, h.exited, ?_, fun _ => h.awake (by rw [hmain]; rfl)⟩
    intro w hw
    rcases Nat.lt_or_eq_of_le (Nat.le_of_lt_succ hw) with hlt | rfl
    · exact hjoined w hlt
    · exact hexit
  | @joined i hmain hi =>
    have hjoined := h.joined
    rw [hmain] at hstop hfreed hjoined
    refine ⟨hstop, hfreed, h.outside, h.exited, ?_, fun _ => h.awake (by rw [hmain]; rfl)⟩
    intro w hw
    exact hjoined w (Nat.lt_of_lt_of_le hw hi)

theorem woken_ne_waiting (pc : WorkerPc α) : pc.woken ≠ .waiting := by
  cases pc <;> simp [WorkerPc.woken]

theorem eq_exited_of_woken {pc : WorkerPc α} (h : pc.woken = .exited) : pc = .exited := by
  cases pc <;> simp [WorkerPc.woken] at h ⊢

theorem closing_step {act : PoolAct α} (h : Closing n s) (hmove : PoolMove n s act t es) :
    Closing n t := by
  have hstop := h.stop
  have hfreed := h.freed
  cases hmove with
  | enqueue rpc hmain =>
    rw [hmain] at hstop hfreed
    refine ⟨hstop, hfreed, h.outside, ?_, by simp [MainPc.joined], by simp [MainPc.joining]⟩
    intro w hw
    have := (h.exited w hw).1
    simp [hstop, MainPc.stopping] at this
  | main hmove => exact closing_main h hmove
  | destroy hmain =>
    rw [hmain] at hstop
    exact ⟨hstop, rfl, h.outside, h.exited, by simp [MainPc.joined], by simp [MainPc.joining]⟩
  | setStop hmain =>
    rw [hmain] at hstop hfreed
    refine ⟨rfl, hfreed, h.outside, ?_, by simp [MainPc.joined], by simp [MainPc.joining]⟩
    intro w hw
    exact ⟨rfl, (h.exited w hw).2⟩
  | notifyAll hmain =>
    rw [hmain] at hstop hfreed
    refine ⟨hstop, hfreed, ?_, ?_, by simp [MainPc.joined], fun _ w => woken_ne_waiting _⟩
    · intro w hw
      simp [h.outside w hw, WorkerPc.woken]
    · intro w hw
      exact h.exited w (eq_exited_of_woken hw)
  | @pop _ w rpc tasks hw hpc htasks =>
    have hmoved := h.moved (.popped rpc) hw (by simp [hpc]) (by simp) (by simp)
    refine ⟨hmoved.stop, hmoved.freed, hmoved.outside, ?_, hmoved.joined, hmoved.awake⟩
    intro v hv
    have := (hmoved.exited v hv).2
    simp [Pool.setWorker, htasks] at this
  | worker hw hwork =>
    cases hwork with
    | wait hpc _ hstop => exact h.moved _ hw (by simp [hpc]) (by simp) fun _ => hstop
    | exit hpc hempty hstop =>
      exact h.moved _ hw (by simp [hpc]) (fun _ => ⟨hstop, hempty⟩) (by simp)
    | wake hpc | enter hpc | leave hpc | again hpc =>
      exact h.moved _ hw (by simp [hpc]) (by simp) (by simp)
  | wakeOne hw hpc hmain =>
    have hmoved := h.moved .ready hw (by simp [hpc]) (by simp) (by simp)
    rw [hmain] at hstop hfreed
    exact ⟨hstop, hfreed, hmoved.outside, hmoved.exited, by simp [MainPc.joined],
      by simp [MainPc.joining]⟩

end Close

/-! ## The table -/

def WorkerPc.busy : WorkerPc α → Bool
  | .popped _ | .inHandle _ => true
  | _ => false

/-- Nothing is queued, and no worker is between popping an RPC and the end of its call. -/
def Pool.idle (n : Nat) (s : Pool α) : Prop :=
  s.tasks = [] ∧ ∀ w, w < n → (s.worker w).busy = false

instance [DecidableEq α] (n : Nat) (s : Pool α) : Decidable (s.idle n) :=
  inferInstanceAs (Decidable (_ ∧ _))

/-- `destroy` is called when the pool is idle. -/
def IdleAtDestroy (n : Nat) (s : Pool α) : PoolAct α → Prop
  | .main => s.main = .destroy → s.idle n
  | _ => True

instance [DecidableEq α] (n : Nat) (s : Pool α) (act : PoolAct α) :
    Decidable (IdleAtDestroy n s act) :=
  match act with
  | .main => inferInstanceAs (Decidable (_ → _))
  | .enqueue _ | .endLoop | .notify _ | .work _ | .wakeUp _ => .isTrue trivial

def PoolEvent.usesTable : PoolEvent α → Bool
  | .enter _ _ | .leave _ _ => true
  | _ => false

section Lifetime
variable {n : Nat} {s t : Pool α} {es : List (PoolEvent α)}

/-- The state of the table; a use of the freed table is refused. -/
def lifetime : Observer Bool (PoolEvent α) where
  next freed ev :=
    match ev with
    | .destroy => some true
    | .enter _ _ | .leave _ _ => if freed then none else some false
    | _ => some freed

structure Guarded (n : Nat) (freed : Bool) (s : Pool α) : Prop where
  closing : Closing n s
  freed : s.freed = freed
  idle : s.freed = true → s.idle n

theorem idle_setWorker {w : Nat} {pc : WorkerPc α} (h : s.idle n) (hpc : pc.busy = false) :
    (s.setWorker w pc).idle n := by
  refine ⟨h.1, ?_⟩
  intro v hv
  rcases eq_or_ne v w with rfl | hne
  · simpa [Pool.setWorker] using hpc
  · simpa [Pool.setWorker, hne] using h.2 v hv

theorem busy_woken (pc : WorkerPc α) : pc.woken.busy = pc.busy := by
  cases pc <;> rfl

theorem Guarded.not_freed {freed : Bool} (h : Guarded n freed s) {w : Nat} (hw : w < n)
    (hbusy : (s.worker w).busy = true) : s.freed = false := by
  by_contra hfreed
  have hidle := (h.idle (by simpa using hfreed)).2 w hw
  simp [hbusy] at hidle

theorem guarded_step {freed : Bool} {act : PoolAct α} (h : Guarded n freed s)
    (hok : IdleAtDestroy n s act) (hstep : poolStep n s act = some (t, es)) :
    ∃ freed', lifetime.accept freed es = some freed' ∧ Guarded n freed' t := by
  have hmove := poolStep_cases hstep
  have hclosing := closing_step h.closing hmove
  obtain rfl := h.freed
  cases hmove with
  | enqueue rpc hmain =>
    have hfreed : s.freed = false := by simp [h.closing.freed, hmain, MainPc.stopping]
    exact ⟨s.freed, rfl, hclosing, rfl, by simp [hfreed]⟩
  | main hmove => exact ⟨s.freed, rfl, hclosing, rfl, h.idle⟩
  | destroy hmain =>
    exact ⟨true, rfl, hclosing, rfl, fun _ => hok hmain⟩
  | setStop hmain => exact ⟨s.freed, rfl, hclosing, rfl, h.idle⟩
  | notifyAll hmain =>
    refine ⟨s.freed, rfl, hclosing, rfl, ?_⟩
    intro hfreed
    refine ⟨(h.idle hfreed).1, ?_⟩
    intro w hw
    rw [busy_woken]
    exact (h.idle hfreed).2 w hw
  | @pop _ w rpc tasks hw hpc htasks =>
    have hfreed : s.freed = false := by
      by_contra hne
      have hidle := (h.idle (by simpa using hne)).1
      simp [htasks] at hidle
    exact ⟨s.freed, rfl, hclosing, rfl, by simp [Pool.setWorker, hfreed]⟩
  | worker hw hwork =>
    cases hwork with
    | wait hpc _ _ | exit hpc _ _ | wake hpc | again hpc =>
      exact ⟨s.freed, rfl, hclosing, rfl, fun hfreed => idle_setWorker (h.idle hfreed) rfl⟩
    | enter hpc | leave hpc =>
      have hfreed := h.not_freed hw (by rw [hpc]; rfl)
      refine ⟨false, by simp [lifetime, hfreed], hclosing, hfreed, ?_⟩
      simp [Pool.setWorker, hfreed]
  | wakeOne hw hpc hmain =>
    exact ⟨s.freed, rfl, hclosing, rfl, fun hfreed => idle_setWorker (h.idle hfreed) rfl⟩

theorem not_usesTable_of_freed {post : List (PoolEvent α)} {b : Bool}
    (h : lifetime.accept true post = some b) : ∀ ev ∈ post, ev.usesTable = false := by
  induction post with
  | nil => simp
  | cons ev post ih =>
    obtain ⟨c, hc, hrest⟩ := Observer.accept_cons_iff.mp h
    cases ev with
    | enter | leave => simp [lifetime] at hc
    | enqueue | pop | destroy =>
      obtain rfl : true = c := by simpa [lifetime] using hc
      simpa [PoolEvent.usesTable] using ih hrest

end Lifetime

/-! ## The way to the end -/

def WorkerPc.weight : WorkerPc α → Nat
  | .exited => 0
  | .ready => 1
  | .waiting => 2
  | .stats => 2
  | .inHandle _ => 3
  | .popped _ => 4

def MainPc.weight (n : Nat) : MainPc → Nat
  | .notifyAll => n + 2
  | .join i => n - i + 1
  | _ => 0

/-- A bound for the number of steps after `stop` was set. -/
def remaining (n : Nat) (s : Pool α) : Nat :=
  4 * s.tasks.length + ∑ w ∈ Finset.range n, (s.worker w).weight + s.main.weight n

section Progress
variable {n : Nat} {s t : Pool α} {es : List (PoolEvent α)}

theorem sum_setWorker {w : Nat} (hw : w < n) (pc : WorkerPc α) :
    ∑ v ∈ Finset.range n, ((s.setWorker w pc).worker v).weight + (s.worker w).weight =
      ∑ v ∈ Finset.range n, (s.worker v).weight + pc.weight :=
  Threads.total_update (fun _ => WorkerPc.weight) s.worker pc hw

theorem sum_woken_le :
    ∑ w ∈ Finset.range n, (s.worker w).woken.weight ≤
      ∑ w ∈ Finset.range n, (s.worker w).weight := by
  apply Finset.sum_le_sum
  intro w _
  cases s.worker w <;> simp [WorkerPc.woken, WorkerPc.weight]

theorem remaining_lt {act : PoolAct α} (h : Closing n s) (hstop : s.stop = true)
    (hmove : PoolMove n s act t es) : remaining n t < remaining n s := by
  have hmain : s.main.stopping = true := h.stop ▸ hstop
  cases hmove with
  | enqueue _ h | destroy h | setStop h => simp [h, MainPc.stopping] at hmain
  | main hmove =>
    cases hmove with
    | endLoop h | notified h | report h => simp [h, MainPc.stopping] at hmain
    | join h hi _ =>
      simp only [remaining, h, MainPc.weight]
      omega
    | joined h _ =>
      simp only [remaining, h, MainPc.weight]
      omega
  | notifyAll h =>
    have hsum := sum_woken_le (n := n) (s := s)
    simp only [remaining, h, MainPc.weight]
    omega
  | @pop _ w rpc tasks hw hpc htasks =>
    have hsum := sum_setWorker (s := s) hw (.popped rpc)
    rw [hpc] at hsum
    simp only [remaining, htasks, List.length_cons]
    simp only [WorkerPc.weight, Pool.setWorker] at hsum ⊢
    omega
  | @worker _ w pc es hw hwork =>
    have hsum := sum_setWorker (s := s) hw pc
    have hlt : pc.weight < (s.worker w).weight := by
      cases hwork with
      | wait _ _ hrun => simp [hrun] at hstop
      | exit hpc _ _ | wake hpc | enter hpc | leave hpc | again hpc =>
        simp [hpc, WorkerPc.weight]
    simp only [remaining, Pool.setWorker] at hsum ⊢
    omega
  | wakeOne _ _ h => simp [h, MainPc.stopping] at hmain

theorem step_of_stop (h : Closing n s) (hstop : s.stop = true) :
    s.main = .done ∨ ∃ act r, poolStep n s act = some r := by
  have hmain : s.main.stopping = true := h.stop ▸ hstop
  cases hpc : s.main with
  | recv | notifyOne | report | destroy | setStop => simp [hpc, MainPc.stopping] at hmain
  | notifyAll => exact .inr ⟨.main, _, by simp only [poolStep, mainStep, hpc]; rfl⟩
  | done => exact .inl rfl
  | join i =>
    right
    by_cases hi : i < n
    · have hawake := h.awake (by simp [hpc, MainPc.joining]) i
      cases hw : s.worker i with
      | waiting => exact absurd hw hawake
      | exited => exact ⟨.main, _, by simp only [poolStep, mainStep, hpc, hi, if_true, hw]; rfl⟩
      | ready =>
        cases htasks : s.tasks with
        | nil => exact ⟨.work i, _, by simp only [poolStep, workStep, hi, if_true, hw, htasks]; rfl⟩
        | cons rpc tasks =>
          exact ⟨.work i, _, by simp only [poolStep, workStep, hi, if_true, hw, htasks]; rfl⟩
      | popped rpc => exact ⟨.work i, _, by simp only [poolStep, workStep, hi, if_true, hw]; rfl⟩
      | inHandle rpc => exact ⟨.work i, _, by simp only [poolStep, workStep, hi, if_true, hw]; rfl⟩
      | stats => exact ⟨.work i, _, by simp only [poolStep, workStep, hi, if_true, hw]; rfl⟩
    · exact ⟨.main, _, by simp only [poolStep, mainStep, hpc, hi, if_false]; rfl⟩

end Progress

section Complete
variable {n : Nat} {s : Pool α} {tr : List (PoolEvent α)}

theorem count_filter_fst [DecidableEq α] (l : List (Nat × α)) (e : Nat × α) :
    (l.filter fun e' => e'.1 = e.1).count e = l.count e :=
  List.count_filter (by simp)

theorem Tallied.enters_subperm (h : Tallied tr s) : (enters tr).Subperm (pops tr) := by
  classical
  apply List.subperm_ext_iff.mpr
  intro e _
  rw [← count_filter_fst (enters tr), ← count_filter_fst (pops tr), h.hands e.1,
    List.count_append]
  omega

/-- No call is made without the RPC having been put into the queue for it. -/
theorem Tallied.handled_subperm (h : Tallied tr s) : (handled tr).Subperm (enqueued tr) := by
  rw [h.queue]
  have hpops : (handled tr).Subperm ((pops tr).map Prod.snd) := by
    obtain ⟨l, hperm, hsub⟩ := h.enters_subperm
    exact ⟨l.map Prod.snd, hperm.map Prod.snd, hsub.map Prod.snd⟩
  exact hpops.trans (List.sublist_append_left _ _).subperm

theorem Tallied.handled_perm (h : Tallied tr s) (hempty : s.tasks = [])
    (hhands : ∀ w, (s.worker w).inHand = []) : (handled tr).Perm (enqueued tr) := by
  classical
  have hperm : (enters tr).Perm (pops tr) := by
    apply List.perm_iff_count.mpr
    intro e
    rw [← count_filter_fst (enters tr), ← count_filter_fst (pops tr), h.hands e.1, hhands]
    simp
  rw [h.queue, hempty, List.append_nil]
  exact hperm.map Prod.snd

/-- All workers have left, and each of them saw an empty queue when it did. -/
theorem Closing.all_done (h : Closing n s) (hn : 0 < n) (hdone : s.main = .done) :
    s.tasks = [] ∧ ∀ w, (s.worker w).inHand = [] := by
  have hexited : ∀ w, w < n → s.worker w = .exited := by
    intro w hw
    exact h.joined w (by simpa [hdone, MainPc.joined] using hw)
  refine ⟨(h.exited 0 (hexited 0 hn)).2, ?_⟩
  intro w
  by_cases hw : w < n
  · rw [hexited w hw]
    rfl
  · rw [h.outside w (by omega)]
    rfl

end Complete

theorem tallied_init (α : Type) : Tallied [] (Pool.init α) :=
  ⟨rfl, fun _ => rfl⟩

theorem guarded_init (α : Type) (n : Nat) : Guarded n false (Pool.init α) where
  closing := ⟨rfl, rfl, fun _ _ => rfl, by simp [Pool.init], by simp [Pool.init, MainPc.joined],
    by simp [Pool.init, MainPc.joining]⟩
  freed := rfl
  idle := by simp [Pool.init]

/-- In every run with at least one worker in which `destroy` is called when the pool is idle:
no RPC is handled more often than it was enqueued, when `~ThreadPool` has returned each was
handled exactly as often, and no call of `handle_rpc` begins or ends after `destroy`. Once
`stop` is set, every step brings the return of `~ThreadPool` nearer, and there is a step until
then. -/
theorem pool_completes {n : Nat} (hn : 0 < n) {tr : List (PoolEvent α)} {s : Pool α}
    (h : Runs (poolMachine α n) (IdleAtDestroy n) (Pool.init α) tr s) :
    (handled tr).Subperm (enqueued tr) ∧
      (s.main = .done → (handled tr).Perm (enqueued tr)) ∧
      (∀ pre post, tr = pre ++ .destroy :: post → ∀ ev ∈ post, ev.usesTable = false) ∧
      (s.stop = true → (s.main = .done ∨ ∃ act r, poolStep n s act = some r) ∧
        ∀ act t es, poolStep n s act = some (t, es) → remaining n t < remaining n s) := by
  have htally : Tallied tr s := by
    apply Runs.invariant (I := Tallied) (tallied_init α) _ h
    intro tr es s t act hs _ hstep
    exact tallied_step hs (poolStep_cases hstep)
  obtain ⟨freed, hacc, hguard⟩ := Runs.simulates (O := lifetime) (R := Guarded n)
    (guarded_init α n) (fun hg hok hstep => guarded_step hg hok hstep) h
  have hclosing := hguard.closing
  refine ⟨htally.handled_subperm, ?_, ?_, ?_⟩
  · intro hdone
    obtain ⟨hempty, hhands⟩ := hclosing.all_done hn hdone
    exact htally.handled_perm hempty hhands
  · rintro pre post rfl
    obtain ⟨c, -, hrest⟩ := Observer.accept_append_iff.mp hacc
    obtain ⟨d, hd, hpost⟩ := Observer.accept_cons_iff.mp hrest
    obtain rfl : true = d := by simpa [lifetime] using hd
    exact not_usesTable_of_freed hpost
  · intro hstop
    refine ⟨step_of_stop hclosing hstop, ?_⟩
    intro act t es hstep
    exact remaining_lt hclosing hstop (poolStep_cases hstep)

/-- One worker handles one RPC before `main` goes on to the end. -/
def promptWorker : List (PoolAct Nat) :=
  [PoolAct.enqueue 7, .notify 0] ++ List.replicate 4 (PoolAct.work 0) ++ [PoolAct.endLoop] ++
    List.replicate 4 PoolAct.main ++ [PoolAct.work 0] ++ List.replicate 2 PoolAct.main

theorem pool_completes_promptWorker :
    ∃ tr s, 0 < 1 ∧ Runs (poolMachine Nat 1) (IdleAtDestroy 1) (Pool.init Nat) tr s ∧
      s.main = .done ∧ enqueued tr = [7] ∧ (handled tr).Subperm (enqueued tr) ∧
      (s.main = .done → (handled tr).Perm (enqueued tr)) ∧
      (∀ pre post, tr = pre ++ .destroy :: post → ∀ ev ∈ post, ev.usesTable = false) ∧
      (s.stop = true → (s.main = .done ∨ ∃ act r, poolStep 1 s act = some r) ∧
        ∀ act t es, poolStep 1 s act = some (t, es) → remaining 1 t < remaining 1 s) := by
  obtain ⟨tr, s, hrun, hend⟩ := Machine.exec_reaches (poolMachine Nat 1) (IdleAtDestroy 1)
    (Pool.init Nat) promptWorker (fun tr s => s.main = .done ∧ enqueued tr = [7]) (by decide)
  obtain ⟨hdone, henqueued⟩ := of_decide_eq_true hend
  exact ⟨tr, s, Nat.one_pos, hrun, hdone, henqueued, pool_completes Nat.one_pos hrun⟩

/-- The only worker gets to the RPC when the table is gone. -/
theorem rpc_handled_after_destroy :
    ¬ ∀ (n : Nat) (tr : List (PoolEvent Nat)) (s : Pool Nat),
      Runs (poolMachine Nat n) (fun _ _ => True) (Pool.init Nat) tr s →
        (s.main = .done → (handled tr).Perm (enqueued tr)) ∧
        ∀ pre post, tr = pre ++ .destroy :: post → ∀ ev ∈ post, ev.usesTable = false := by
  intro hclaim
  obtain ⟨tr, s, hrun, hend⟩ := Machine.exec_reaches (poolMachine Nat 1) (fun _ _ => True)
    (Pool.init Nat) [.enqueue 7, .notify 0, .endLoop, .main, .main, .work 0, .work 0]
    (fun tr _ => tr = [.enqueue 7, .destroy, .pop 0 7, .enter 0 7]) (by decide)
  obtain rfl := of_decide_eq_true hend
  have huse := (hclaim 1 _ s hrun).2 [.enqueue 7] [.pop 0 7, .enter 0 7] rfl (.enter 0 7) (by simp)
  simp [PoolEvent.usesTable] at huse

end ThletEvaluation.Linux.ThreadPool
