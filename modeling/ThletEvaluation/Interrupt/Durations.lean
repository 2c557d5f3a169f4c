import Mathlib.Data.List.Forall2
import ThletEvaluation.Interrupt.Device
import ThletEvaluation.Interrupt.GapLog

/-!
# The rows of `result.txt`

Once a packet has come, `main` of `recv.c` takes differences of the time stamps that the
kernel has left in `info->ts` and writes them as one row. A stamp may be one of an earlier
interrupt. All differences are unsigned.
-/

namespace ThletEvaluation.Interrupt

set_option autoImplicit false

/-- The fields of `struct Stats`, in the order in which the row has them. -/
inductive RowField where
  | pipeFlush
  | hardirq
  | hardirq2igbsoftirq
  | igbSoftirq
  | net1
  | net2
  | net3
  | udp
  | tcp
  | deliver
  | igbsoftirq2sched
  | schedPre
  | schedPick
  | schedWakeup
  | csPre
  | csMm
  | csReg
  deriving DecidableEq

def rowFields : List RowField :=
  [.pipeFlush, .hardirq, .hardirq2igbsoftirq, .igbSoftirq, .net1, .net2, .net3, .udp, .tcp,
    .deliver, .igbsoftirq2sched, .schedPre, .schedPick, .schedWakeup, .csPre, .csMm, .csReg]

variable (ts : StatField → UInt64) (t0 : UInt64) (log : Poll)

/-- The stamp lies within the softirq of the driver. -/
def InSoftirq (f : StatField) : Prop :=
  ts .igbSoftirqEntry < ts f ∧ ts f < ts .igbSoftirqExit

instance (f : StatField) : Decidable (InSoftirq ts f) := inferInstanceAs (Decidable (_ ∧ _))

def rowValue (toIrq : UInt64) : RowField → UInt64
  | .pipeFlush => if toIrq < 2000 then toIrq else 0
  | .hardirq => ts .commonIrqExit - ts .commonIrqEntry
  | .hardirq2igbsoftirq => ts .igbSoftirqEntry - ts .commonIrqExit
  | .igbSoftirq => ts .igbSoftirqExit - ts .igbSoftirqEntry
  | .net1 => if InSoftirq ts .netSkb1Entry then ts .netSkb1Exit - ts .netSkb1Entry else 0
  | .net2 => if InSoftirq ts .netSkb2Entry then ts .netSkb2Exit - ts .netSkb2Entry else 0
  | .net3 => if InSoftirq ts .netSkb3Entry then ts .netSkb3Exit - ts .netSkb3Entry else 0
  | .udp => ts .udpExit - ts .udpEntry
  | .tcp => ts .tcpExit - ts .tcpEntry
  -- the slots of `igb_intr` are used for the delivery
  | .deliver => ts .igbIntrExit - ts .igbIntrEntry
  | .igbsoftirq2sched =>
    if ts .schedEntry > ts .igbSoftirqExit then ts .schedEntry - ts .igbSoftirqExit else 0
  | .schedPre => ts .pickEntry - ts .schedEntry
  | .schedPick => ts .pickExit - ts .pickEntry
  | .schedWakeup => ts .csEntry - ts .pickExit
  | .csPre => ts .csMm - ts .csEntry
  | .csMm => ts .csReg - ts .csMm
  | .csReg => ts .csExit - ts .csReg

/-- The row for the stamps `ts`, if one is written. -/
def resultRow : Option (List UInt64) :=
  if InSoftirq ts .netSkb1Entry then
    some (rowFields.map
      (rowValue ts (scanLoop (ts .commonIrqEntry) (ts .csExit) t0 log).toIrq))
  else none

/-! ## What a row is meant to hold -/

/-- The later and the earlier stamp of a field; the interrupt may come after `t0` or after
any of the logged gaps. -/
def RowField.stamps : RowField → List (UInt64 × UInt64)
  | .pipeFlush => (t0 :: (List.range log.vc).map log.t7a).map fun pre => (ts .commonIrqEntry, pre)
  | .hardirq => [(ts .commonIrqExit, ts .commonIrqEntry)]
  | .hardirq2igbsoftirq => [(ts .igbSoftirqEntry, ts .commonIrqExit)]
  | .igbSoftirq => [(ts .igbSoftirqExit, ts .igbSoftirqEntry)]
  | .net1 => [(ts .netSkb1Exit, ts .netSkb1Entry)]
  | .net2 => [(ts .netSkb2Exit, ts .netSkb2Entry)]
  | .net3 => [(ts .netSkb3Exit, ts .netSkb3Entry)]
  | .udp => [(ts .udpExit, ts .udpEntry)]
  | .tcp => [(ts .tcpExit, ts .tcpEntry)]
  | .deliver => [(ts .igbIntrExit, ts .igbIntrEntry)]
  | .igbsoftirq2sched => [(ts .schedEntry, ts .igbSoftirqExit)]
  | .schedPre => [(ts .pickEntry, ts .schedEntry)]
  | .schedPick => [(ts .pickExit, ts .pickEntry)]
  | .schedWakeup => [(ts .csEntry, ts .pickExit)]
  | .csPre => [(ts .csMm, ts .csEntry)]
  | .csMm => [(ts .csReg, ts .csMm)]
  | .csReg => [(ts .csExit, ts .csReg)]

/-- `v` is the difference of the two stamps of the field as numbers, or 0. -/
def DurationExact (f : RowField) (v : UInt64) : Prop :=
  v = 0 ∨ ∃ s ∈ f.stamps ts t0 log, v.toNat + s.2.toNat = s.1.toNat

/-- The orders that the row takes for granted. -/
structure StampsInOrder : Prop where
  commonIrq : ts .commonIrqEntry ≤ ts .commonIrqExit
  hardirqFirst : ts .commonIrqExit ≤ ts .igbSoftirqEntry
  netSkb1 : ts .netSkb1Entry ≤ ts .netSkb1Exit
  netSkb2 : InSoftirq ts .netSkb2Entry → ts .netSkb2Entry ≤ ts .netSkb2Exit
  netSkb3 : InSoftirq ts .netSkb3Entry → ts .netSkb3Entry ≤ ts .netSkb3Exit
  udp : ts .udpEntry ≤ ts .udpExit
  tcp : ts .tcpEntry ≤ ts .tcpExit
  igbIntr : ts .igbIntrEntry ≤ ts .igbIntrExit
  schedPre : ts .schedEntry ≤ ts .pickEntry
  schedPick : ts .pickEntry ≤ ts .pickExit
  schedWakeup : ts .pickExit ≤ ts .csEntry
  csPre : ts .csEntry ≤ ts .csMm
  csMm : ts .csMm ≤ ts .csReg
  csReg : ts .csReg ≤ ts .csExit

section Differences
variable {ts t0 log} {a b : UInt64} {g : Prop} [Decidable g]

theorem sub_exact_iff : (a - b = 0 ∨ (a - b).toNat + b.toNat = a.toNat) ↔ b ≤ a := by
  constructor
  · rintro (h | h)
    · have hab : a = b := by grind
      rw [hab]
      exact UInt64.le_refl b
    · rw [UInt64.le_iff_toNat_le]
      omega
  · intro h
    right
    rw [UInt64.toNat_sub_of_le _ _ h]
    rw [UInt64.le_iff_toNat_le] at h
    omega

theorem durationExact_sub_iff {f : RowField} (hf : f.stamps ts t0 log = [(a, b)]) :
    DurationExact ts t0 log f (a - b) ↔ b ≤ a := by
  rw [← sub_exact_iff]
  simp [DurationExact, hf]

theorem durationExact_guarded_iff {f : RowField} (hf : f.stamps ts t0 log = [(a, b)]) :
    DurationExact ts t0 log f (if g then a - b else 0) ↔ (g → b ≤ a) := by
  by_cases hg : g
  · rw [if_pos hg, durationExact_sub_iff hf]
    simp [hg]
  · simp [hg, DurationExact]

end Differences

section Scan
variable {commonIrqEntry csExit : UInt64} {t7a t8a : Nat → UInt64}

/-- The time to the interrupt is taken from a stamp before it. -/
theorem scanFrom_toIrq (i n : Nat) (s : Scan) :
    (scanFrom commonIrqEntry csExit t7a t8a i n s).toIrq = s.toIrq ∨
    ∃ pre, (pre = s.pre ∨ ∃ j, j < i + n ∧ pre = t7a j) ∧ pre < commonIrqEntry ∧
      (scanFrom commonIrqEntry csExit t7a t8a i n s).toIrq = commonIrqEntry - pre := by
  fun_induction scanFrom commonIrqEntry csExit t7a t8a i n s with
  | case1 i s => exact .inl rfl
  | case2 i n s hfound ih =>
    simp only [Bool.and_eq_true, decide_eq_true_eq] at hfound
    rcases ih with h | ⟨pre, hpre, hlt, h⟩
    · exact .inr ⟨s.pre, .inl rfl, hfound.2.1, h⟩
    · refine .inr ⟨pre, .inr ?_, hlt, h⟩
      rcases hpre with rfl | ⟨j, hj, rfl⟩
      · exact ⟨i, by omega, rfl⟩
      · exact ⟨j, by omega, rfl⟩
  | case3 i n s hfound hexit => exact .inl rfl
  | case4 i n s hfound hexit ih =>
    rcases ih with h | ⟨pre, hpre, hlt, h⟩
    · exact .inl h
    · refine .inr ⟨pre, .inr ?_, hlt, h⟩
      rcases hpre with rfl | ⟨j, hj, rfl⟩
      · exact ⟨i, by omega, rfl⟩
      · exact ⟨j, by omega, rfl⟩

theorem pipeFlush_exact : DurationExact ts t0 log .pipeFlush
    (rowValue ts (scanLoop (ts .commonIrqEntry) (ts .csExit) t0 log).toIrq .pipeFlush) := by
  simp only [rowValue]
  split
  · rcases scanFrom_toIrq 0 log.vc ⟨t0, false, 0, []⟩ with h | ⟨pre, hpre, hlt, h⟩
    · exact .inl h
    · right
      refine ⟨(ts .commonIrqEntry, pre), ?_, ?_⟩
      · apply List.mem_map.mpr
        refine ⟨pre, ?_, rfl⟩
        rcases hpre with rfl | ⟨j, hj, rfl⟩
        · exact List.mem_cons_self
        · apply List.mem_cons_of_mem
          exact List.mem_map.mpr ⟨j, List.mem_range.mpr (by omega), rfl⟩
      · rw [scanLoop, h, UInt64.toNat_sub_of_le _ _ (UInt64.le_of_lt hlt)]
        rw [UInt64.lt_iff_toNat_lt] at hlt
        simp only
        omega
  · exact .inl rfl

end Scan

section Row
variable {ts t0 log} {toIrq : UInt64}

theorem stampsInOrder_of_exact (hnet : InSoftirq ts .netSkb1Entry)
    (h : ∀ f, DurationExact ts t0 log f (rowValue ts toIrq f)) : StampsInOrder ts where
  commonIrq := (durationExact_sub_iff rfl).mp (h .hardirq)
  hardirqFirst := (durationExact_sub_iff rfl).mp (h .hardirq2igbsoftirq)
  netSkb1 := (durationExact_guarded_iff rfl).mp (h .net1) hnet
  netSkb2 := (durationExact_guarded_iff rfl).mp (h .net2)
  netSkb3 := (durationExact_guarded_iff rfl).mp (h .net3)
  udp := (durationExact_sub_iff rfl).mp (h .udp)
  tcp := (durationExact_sub_iff rfl).mp (h .tcp)
  igbIntr := (durationExact_sub_iff rfl).mp (h .deliver)
  schedPre := (durationExact_sub_iff rfl).mp (h .schedPre)
  schedPick := (durationExact_sub_iff rfl).mp (h .schedPick)
  schedWakeup := (durationExact_sub_iff rfl).mp (h .schedWakeup)
  csPre := (durationExact_sub_iff rfl).mp (h .csPre)
  csMm := (durationExact_sub_iff rfl).mp (h .csMm)
  csReg := (durationExact_sub_iff rfl).mp (h .csReg)

/-- The softirq itself and the way to the scheduler need no order beyond the guards. -/
theorem exact_of_stampsInOrder (hnet : InSoftirq ts .netSkb1Entry) (h : StampsInOrder ts)
    {f : RowField} (hf : f ≠ .pipeFlush) : DurationExact ts t0 log f (rowValue ts toIrq f) := by
  cases f with
  | pipeFlush => exact absurd rfl hf
  | hardirq => exact (durationExact_sub_iff rfl).mpr h.commonIrq
  | hardirq2igbsoftirq => exact (durationExact_sub_iff rfl).mpr h.hardirqFirst
  | igbSoftirq =>
    apply (durationExact_sub_iff rfl).mpr
    exact UInt64.le_trans (UInt64.le_of_lt hnet.1) (UInt64.le_of_lt hnet.2)
  | net1 => exact (durationExact_guarded_iff rfl).mpr fun _ => h.netSkb1
  | net2 => exact (durationExact_guarded_iff rfl).mpr h.netSkb2
  | net3 => exact (durationExact_guarded_iff rfl).mpr h.netSkb3
  | udp => exact (durationExact_sub_iff rfl).mpr h.udp
  | tcp => exact (durationExact_sub_iff rfl).mpr h.tcp
  | deliver => exact (durationExact_sub_iff rfl).mpr h.igbIntr
  | igbsoftirq2sched => exact (durationExact_guarded_iff rfl).mpr UInt64.le_of_lt
  | schedPre => exact (durationExact_sub_iff rfl).mpr h.schedPre
  | schedPick => exact (durationExact_sub_iff rfl).mpr h.schedPick
  | schedWakeup => exact (durationExact_sub_iff rfl).mpr h.schedWakeup
  | csPre => exact (durationExact_sub_iff rfl).mpr h.csPre
  | csMm => exact (durationExact_sub_iff rfl).mpr h.csMm
  | csReg => exact (durationExact_sub_iff rfl).mpr h.csReg

theorem mem_rowFields (f : RowField) : f ∈ rowFields := by
  cases f <;> simp [rowFields]

end Row

/-- Every value of a row is an exact duration or 0 exactly when the stamps that the row does
not compare are in order. -/
theorem resultRow_exact_iff :
    (∀ row, resultRow ts t0 log = some row →
      List.Forall₂ (DurationExact ts t0 log) rowFields row) ↔
    (InSoftirq ts .netSkb1Entry → StampsInOrder ts) := by
  by_cases hnet : InSoftirq ts .netSkb1Entry
  · simp only [resultRow, hnet, if_true, Option.some.injEq, forall_eq', List.forall₂_map_right_iff,
      List.forall₂_same, true_imp_iff]
    constructor
    · intro h
      exact stampsInOrder_of_exact hnet fun f => h f (mem_rowFields f)
    · intro h f _
      by_cases hf : f = .pipeFlush
      · subst hf
        exact pipeFlush_exact ts t0 log
      · exact exact_of_stampsInOrder hnet h hf
  · simp [resultRow, hnet]

/-- A datagram has come: the exit of the last UDP handler has not been stamped again. -/
def staleUdp : StatField → UInt64
  | .igbSoftirqEntry => 10
  | .netSkb1Entry => 11
  | .udpEntry => 12
  | .udpExit => 5
  | .netSkb1Exit => 13
  | .igbSoftirqExit => 20
  | .state | .commonIrqEntry | .commonIrqExit | .igbIntrEntry | .igbIntrExit | .igbIntrMsiEntry
  | .igbIntrMsiExit | .commonSoftirqEntry | .commonSoftirqExit | .tcpEntry | .tcpExit
  | .netSkb2Entry | .netSkb2Exit | .netSkb3Entry | .netSkb3Exit | .schedEntry | .pickEntry
  | .pickExit | .csEntry | .csMm | .csReg | .csExit => 0

/-- The eighth value is `5 - 12`. -/
theorem resultRow_wraps :
    ∃ row, resultRow staleUdp 0 (.start 1 (fun _ => 0) fun _ => 0) = some row ∧
      row[7]? = some 18446744073709551609 ∧
      ¬ List.Forall₂ (DurationExact staleUdp 0 (.start 1 (fun _ => 0) fun _ => 0))
        rowFields row := by
  refine ⟨[0, 0, 10, 10, 2, 0, 0, 18446744073709551609, 0, 0, 0, 0, 0, 0, 0, 0, 0],
    by decide +kernel, rfl, ?_⟩
  intro h
  simp only [rowFields, List.forall₂_cons] at h
  obtain ⟨-, -, -, -, -, -, -, hudp, -⟩ := h
  rcases hudp with h | ⟨s, hs, h⟩
  · exact absurd h (by decide)
  · obtain rfl := List.mem_singleton.mp hs
    exact absurd h (by decide)

end ThletEvaluation.Interrupt
