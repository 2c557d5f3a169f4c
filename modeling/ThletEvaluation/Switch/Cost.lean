import ThletEvaluation.Lib.Loop

/-!
# The measured interval of the switch benchmark

Every thread commits the cycle counts at which it started and ended. The kernel module and
the user program put these together in a loop over the threads, and divide what they report
by the length of the interval they find.
-/

namespace ThletEvaluation.Switch

open Loop

set_option autoImplicit false

/-- `struct thlet_module_stats` of a finished thread. -/
structure ModuleStats where
  start : UInt64
  endCycle : UInt64
  total : UInt64
  pureComputation : UInt64
  deriving DecidableEq

structure ExitSums where
  sum : UInt64
  pure : UInt64
  startCycle : UInt64
  endCycle : UInt64
  deriving DecidableEq

/-- `MIN` of the kernel. -/
def MIN (a b : UInt64) : UInt64 := if a < b then a else b

/-- `MAX` of the kernel. -/
def MAX (a b : UInt64) : UInt64 := if a > b then a else b

/-- The body of the loop of `thlet_switch_exit`, after the wait for `stats[i].finished`. -/
def exitBody (i : Nat) (t : ExitSums) (s : ModuleStats) : ExitSums :=
  let startCycle := if i = 0 then s.start else MIN t.startCycle s.start
  { sum := t.sum + s.total
    pure := t.pure + s.pureComputation
    startCycle := startCycle
    -- The new `start_cycle` stands where the old `end_cycle` is meant.
    endCycle := if i = 0 then s.endCycle else MAX startCycle s.endCycle }

def thletSwitchExit (stats : List ModuleStats) : ExitSums :=
  stats.foldlIdx exitBody ⟨0, 0, 0, 0⟩

def ExitSums.cost (t : ExitSums) : UInt64 := t.endCycle - t.startCycle

structure UserSums where
  pureSum : UInt64
  start : UInt64
  endCycle : UInt64
  deriving DecidableEq

/-- The body of the loop of `main`, after `pthread_join`. -/
def userBody (i : Nat) (t : UserSums) (s : ModuleStats) : UserSums where
  pureSum := t.pureSum + s.pureComputation
  start := if i = 0 ∨ s.start < t.start then s.start else t.start
  endCycle := if i = 0 ∨ s.endCycle > t.endCycle then s.endCycle else t.endCycle

def userMain (stats : List ModuleStats) : UserSums := stats.foldlIdx userBody ⟨0, 0, 0⟩

def UserSums.cost (t : UserSums) : UInt64 := t.endCycle - t.start

def IsMinStart (stats : List ModuleStats) (c : UInt64) : Prop :=
  IsBest (· ≤ ·) ModuleStats.start stats c

def IsMaxEnd (stats : List ModuleStats) (c : UInt64) : Prop :=
  IsBest (· ≥ ·) ModuleStats.endCycle stats c

section Extrema
variable {stats : List ModuleStats} {c d : UInt64}

theorem IsMinStart.append (h : IsMinStart stats c) (s : ModuleStats)
    (hd : d = c ∨ d = s.start) (hdc : d ≤ c) (hds : d ≤ s.start) :
    IsMinStart (stats ++ [s]) d :=
  IsBest.append (fun _ _ _ => UInt64.le_trans) h hd hdc hds

theorem IsMaxEnd.append (h : IsMaxEnd stats c) (s : ModuleStats)
    (hd : d = c ∨ d = s.endCycle) (hdc : c ≤ d) (hds : s.endCycle ≤ d) :
    IsMaxEnd (stats ++ [s]) d :=
  IsBest.append (fun _ _ _ h h' => UInt64.le_trans h' h) h hd hdc hds

theorem IsMaxEnd.unique (hc : IsMaxEnd stats c) (hd : IsMaxEnd stats d) : c = d :=
  IsBest.unique (fun _ _ h h' => UInt64.le_antisymm h' h) hc hd

theorem isMaxEnd_last_iff (hne : stats ≠ []) :
    IsMaxEnd stats (stats.getLast hne).endCycle ↔
      ∀ s ∈ stats, s.endCycle ≤ (stats.getLast hne).endCycle := by
  constructor
  · intro h
    exact h.2
  · intro h
    exact ⟨⟨_, stats.getLast_mem hne, rfl⟩, h⟩

end Extrema

section User
variable (stats : List ModuleStats)

theorem userMain_extrema : stats ≠ [] →
    IsMinStart stats (userMain stats).start ∧ IsMaxEnd stats (userMain stats).endCycle := by
  unfold userMain
  apply foldlIdx_invariant (I := fun xs (t : UserSums) => xs ≠ [] →
    IsMinStart xs t.start ∧ IsMaxEnd xs t.endCycle)
  · intro h
    exact absurd rfl h
  · intro pre s t _ ih _
    by_cases hpre : pre = []
    · subst hpre
      simp only [userBody, List.length_nil, true_or, if_true, List.nil_append]
      exact ⟨isBest_singleton (UInt64.le_refl _), isBest_singleton (UInt64.le_refl _)⟩
    · obtain ⟨hstart, hend⟩ := ih hpre
      have hlen : pre.length ≠ 0 := by simpa using hpre
      simp only [userBody, hlen, false_or]
      constructor
      · apply hstart.append s <;> grind
      · apply hend.append s <;> grind

end User

section Kernel
variable (stats : List ModuleStats)

/-- The kernel loop keeps the least start; of the ends it keeps the last one, which no
start it has seen exceeds. -/
theorem thletSwitchExit_spec (hle : ∀ s ∈ stats, s.start ≤ s.endCycle) (hne : stats ≠ []) :
    IsMinStart stats (thletSwitchExit stats).startCycle ∧
    (thletSwitchExit stats).endCycle = (stats.getLast hne).endCycle := by
  suffices h : ∀ hne : stats ≠ [], IsMinStart stats (thletSwitchExit stats).startCycle ∧
      (thletSwitchExit stats).endCycle = (stats.getLast hne).endCycle from h hne
  unfold thletSwitchExit
  apply foldlIdx_invariant (I := fun xs (t : ExitSums) => ∀ hne : xs ≠ [],
    IsMinStart xs t.startCycle ∧ t.endCycle = (xs.getLast hne).endCycle)
  · intro h
    exact absurd rfl h
  · intro pre s t hs ih _
    rw [List.getLast_concat]
    by_cases hpre : pre = []
    · subst hpre
      simp only [exitBody, List.length_nil, if_true, List.nil_append]
      exact ⟨isBest_singleton (UInt64.le_refl _), trivial⟩
    · have hmin := (ih hpre).1
      have hlen : pre.length ≠ 0 := by simpa using hpre
      have hse := hle s hs
      simp only [exitBody, hlen, if_false, MIN, MAX]
      constructor
      · apply hmin.append s <;> grind
      · -- The new `start_cycle` is at most `s.start`, so the maximum is `s.end`.
        grind

theorem cost_eq_iff {t : ExitSums} {u : UserSums} (h : t.startCycle = u.start) :
    t.cost = u.cost ↔ t.endCycle = u.endCycle := by
  unfold ExitSums.cost UserSums.cost
  rw [h]
  constructor
  · intro he
    grind
  · intro he
    rw [he]

/-- The two loops find the same interval, from the least start to the greatest end, exactly
for the arrays in which no thread ends later than the last one. -/
theorem thletSwitchExit_agrees_iff (hle : ∀ s ∈ stats, s.start ≤ s.endCycle)
    (hne : stats ≠ []) :
    (IsMinStart stats (thletSwitchExit stats).startCycle ∧
      IsMaxEnd stats (thletSwitchExit stats).endCycle ∧
      (thletSwitchExit stats).cost = (userMain stats).cost) ↔
    ∀ s ∈ stats, s.endCycle ≤ (stats.getLast hne).endCycle := by
  obtain ⟨hmin, hlast⟩ := thletSwitchExit_spec stats hle hne
  obtain ⟨hmin', hmax⟩ := userMain_extrema stats hne
  have hstart : (thletSwitchExit stats).startCycle = (userMain stats).start :=
    IsBest.unique (fun _ _ => UInt64.le_antisymm) hmin hmin'
  rw [← isMaxEnd_last_iff hne, cost_eq_iff hstart, hlast]
  constructor
  · rintro ⟨-, h, -⟩
    exact h
  · intro h
    exact ⟨hmin, h, h.unique hmax⟩

theorem thletSwitchExit_agrees_balanced :
    (thletSwitchExit [⟨3, 10, 40, 5⟩, ⟨2, 12, 40, 5⟩]).cost =
      (userMain [⟨3, 10, 40, 5⟩, ⟨2, 12, 40, 5⟩]).cost :=
  ((thletSwitchExit_agrees_iff [⟨3, 10, 40, 5⟩, ⟨2, 12, 40, 5⟩] (by decide)
    (by simp)).mpr (by decide)).2.2

/-- The first thread ends at 20, the second at 12: the kernel reports 10 cycles. -/
theorem thletSwitchExit_misses_end :
    ¬ IsMaxEnd [⟨3, 20, 40, 5⟩, ⟨2, 12, 40, 5⟩]
      (thletSwitchExit [⟨3, 20, 40, 5⟩, ⟨2, 12, 40, 5⟩]).endCycle ∧
    (thletSwitchExit [⟨3, 20, 40, 5⟩, ⟨2, 12, 40, 5⟩]).cost = 10 ∧
    (userMain [⟨3, 20, 40, 5⟩, ⟨2, 12, 40, 5⟩]).cost = 18 := by
  refine ⟨?_, by decide, by decide⟩
  intro h
  exact absurd (h.2 ⟨3, 20, 40, 5⟩ (by simp)) (by decide)

end Kernel

end ThletEvaluation.Switch
