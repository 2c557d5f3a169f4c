import Mathlib.Logic.Function.Basic
import ThletEvaluation.Lib.Run

/-!
# The `thlet_intr` device

The file operations of `thlet_intr.c` over one pointer `info`, the pages `kzalloc` has given
out and the statistics that the patched kernel keeps for each CPU. The kernel's own additions
are actions of the outside. A page is named by the number of pages given out before it.
-/

namespace ThletEvaluation.Interrupt

open Run

set_option autoImplicit false

/-- The fields of `cpu_thlet_stats` that the module reads. -/
inductive StatField where
  | state
  | commonIrqEntry
  | commonIrqExit
  | igbIntrEntry
  | igbIntrExit
  | igbIntrMsiEntry
  | igbIntrMsiExit
  | commonSoftirqEntry
  | commonSoftirqExit
  | tcpEntry
  | tcpExit
  | udpEntry
  | udpExit
  | netSkb1Entry
  | netSkb1Exit
  | netSkb2Entry
  | netSkb2Exit
  | netSkb3Entry
  | netSkb3Exit
  | igbSoftirqEntry
  | igbSoftirqExit
  | schedEntry
  | pickEntry
  | pickExit
  | csEntry
  | csMm
  | csReg
  | csExit
  deriving DecidableEq

inductive SummaryField where
  | count
  | commonIrq
  | igbIntr
  | igbIntrMsi
  | cirq2softirq
  | iirq2softirq
  | cirq2isoftirq
  | iirq2isoftirq
  | softirq
  | igbSoftirq
  | softirq2sched
  | isoftirq2sched
  | schedPre
  | schedPick
  | schedWakeup
  | csPre
  | csMm
  | csReg
  deriving DecidableEq

/-- `cpu_thlet_stats` and `cpu_thlet_stats_summary` of one CPU. -/
structure CpuStats where
  stats : StatField → UInt64
  summary : SummaryField → UInt64
  save : UInt64
  pre : UInt64 → StatField → UInt64

/-- What the module writes of a `pipe_`; `pre` is `ps.pre`. -/
structure Pipe where
  intr : Int64
  back : Int64
  ts : StatField → UInt64
  ps : SummaryField → UInt64
  pre : StatField → UInt64

def CpuStats.zero : CpuStats := ⟨fun _ => 0, fun _ => 0, 0, fun _ _ => 0⟩

def Pipe.zero : Pipe := ⟨0, 0, fun _ => 0, fun _ => 0, fun _ => 0⟩

structure Device where
  cpus : Nat → CpuStats
  info : Option Nat
  /-- The number of pages that `kzalloc` has given out. -/
  allocated : Nat
  pages : Nat → Pipe
  removed : Bool

def Device.init : Device := ⟨fun _ => CpuStats.zero, none, 0, fun _ => Pipe.zero, false⟩

def DEV_MAJOR : UInt32 := 250
def RECV_CORE : Nat := 25

/-- `_IO` of the kernel. -/
def ioNumber (type nr : UInt32) : UInt32 := type <<< 8 ||| nr

def IOCTL_SENDIPI : UInt32 := ioNumber DEV_MAJOR 1
def IOCTL_TEST : UInt32 := ioNumber DEV_MAJOR 3
def IOCTL_STAT_START : UInt32 := ioNumber DEV_MAJOR 4
def IOCTL_GET_STATS : UInt32 := ioNumber DEV_MAJOR 5
def IOCTL_CLEAR : UInt32 := ioNumber DEV_MAJOR 6
def IOCTL_FINISH : UInt32 := ioNumber DEV_MAJOR 7

def EAGAIN : Int := 11
def ENOMEM : Int := 12
def EINVAL : Int := 22

section Fields
variable {F : Type} [DecidableEq F]

/-- A list of assignments, from the field on the right to the one on the left. -/
def copyFields (copies : List (F × F)) (src dst : F → UInt64) : F → UInt64 :=
  copies.foldl (fun dst c => Function.update dst c.1 (src c.2)) dst

def clearFields (fields : List F) (dst : F → UInt64) : F → UInt64 :=
  fields.foldl (fun dst f => Function.update dst f 0) dst

end Fields

/-- The assignments to `info->ts`, which are those to `info->ps.pre` too. -/
def statCopies : List (StatField × StatField) :=
  [(.state, .state), (.commonIrqEntry, .commonIrqEntry), (.commonIrqExit, .commonIrqExit),
    (.igbIntrEntry, .igbIntrEntry), (.igbIntrExit, .igbIntrExit),
    (.igbIntrMsiEntry, .igbIntrMsiEntry), (.igbIntrMsiExit, .igbIntrMsiExit),
    (.commonSoftirqEntry, .commonSoftirqEntry), (.commonSoftirqExit, .commonSoftirqExit),
    (.tcpEntry, .tcpEntry), (.tcpExit, .tcpExit), (.udpEntry, .udpEntry), (.udpExit, .udpExit),
    (.netSkb1Entry, .netSkb1Entry), (.netSkb1Exit, .netSkb1Exit),
    (.netSkb2Entry, .netSkb2Entry), (.netSkb2Exit, .netSkb2Exit),
    (.netSkb3Entry, .netSkb3Entry), (.netSkb3Exit, .netSkb3Exit),
    (.igbSoftirqEntry, .igbSoftirqEntry), (.igbSoftirqExit, .igbSoftirqExit),
    (.schedEntry, .schedEntry), (.pickEntry, .pickEntry), (.pickExit, .pickExit),
    (.csEntry, .csEntry), (.csMm, .csMm), (.csReg, .csReg), (.csExit, .csExit)]

/-- The assignments to `info->ps`. -/
def summaryCopies : List (SummaryField × SummaryField) :=
  [(.count, .count), (.commonIrq, .commonIrq), (.igbIntr, .igbIntr), (.igbIntrMsi, .igbIntrMsi),
    (.cirq2softirq, .cirq2softirq), (.iirq2softirq, .iirq2softirq),
    (.cirq2isoftirq, .cirq2isoftirq), (.iirq2isoftirq, .iirq2isoftirq), (.softirq, .softirq),
    (.igbSoftirq, .igbSoftirq), (.softirq2sched, .softirq2sched),
    (.isoftirq2sched, .isoftirq2sched), (.schedPre, .schedPre), (.schedPick, .schedPick),
    (.schedWakeup, .schedWakeup), (.csPre, .csPre), (.csMm, .csReg), (.csReg, .csReg)]

def summaryClears : List SummaryField :=
  [.count, .commonIrq, .igbIntr, .igbIntrMsi, .cirq2softirq, .iirq2softirq, .cirq2isoftirq,
    .iirq2isoftirq, .softirq, .igbSoftirq, .softirq2sched, .isoftirq2sched, .schedPre,
    .schedPick, .schedWakeup, .csPre, .csReg, .csReg]

/-- The branch of `IOCTL_GET_STATS`. -/
def getStats (c : CpuStats) (page : Pipe) : Pipe :=
  let save := if c.save ≠ 0 then c.save - 1 else c.save
  { page with
    ts := copyFields statCopies c.stats page.ts
    ps := copyFields summaryCopies c.summary page.ps
    pre := copyFields statCopies (c.pre save) page.pre }

def CpuStats.setState (c : CpuStats) (v : UInt64) : CpuStats :=
  { c with stats := Function.update c.stats .state v }

def CpuStats.clear (c : CpuStats) : CpuStats :=
  { c with summary := clearFields summaryClears c.summary }

def Device.setCpu (d : Device) (cpu : Nat) (c : CpuStats) : Device :=
  { d with cpus := Function.update d.cpus cpu c }

def Device.setPage (d : Device) (n : Nat) (page : Pipe) : Device :=
  { d with pages := Function.update d.pages n page }

inductive DeviceEvent where
  | added (cpu : Nat) (f : SummaryField) (amount : UInt64)
  | cleared (cpu : Nat)
  /-- `IOCTL_GET_STATS` of a process has written to a page. -/
  | snapshot (pid cpu page : Nat) (ps : SummaryField → UInt64)
  /-- A call has been killed at an access through a NULL `info`. -/
  | oops (pid : Nat) (num : UInt32)
  /-- The page that `kzalloc` has given and the result of `threadlet_mmap`. -/
  | mmap (pid : Nat) (page : Option Nat) (ret : Int)
  /-- `threadlet_exit` and the page it frees. -/
  | removed (freed : Option Nat)

inductive Outcome where
  | ret (value : Int) (d : Device) (es : List DeviceEvent)
  /-- An access through NULL in a process, which is killed. -/
  | oops
  /-- An access through NULL in an interrupt: nothing runs any more. -/
  | panic

/-- `threadlet_mmap`; the outcomes of `kzalloc` and `remap_pfn_range` come from outside. -/
def threadletMmap (pid : Nat) (kzallocs remaps : Bool) (d : Device) :
    Device × List DeviceEvent :=
  if kzallocs then
    let info := d.allocated
    let d := { d.setPage info .zero with info := some info, allocated := d.allocated + 1 }
    if remaps then (d, [.mmap pid (some info) 0]) else (d, [.mmap pid (some info) (-EAGAIN)])
  else ({ d with info := none }, [.mmap pid none (-ENOMEM)])

/-- `handler` on `RECV_CORE`, with the two readings of the cycle counter that it stores. -/
def handler (intr back : Int64) (info : Nat) (d : Device) : Device :=
  (d.setPage info { d.pages info with intr := intr, back := back }).setCpu RECV_CORE
    ((d.cpus RECV_CORE).setState 2)

def threadletIoctl (pid cpu : Nat) (num : UInt32) (param : UInt64) (intr back : Int64)
    (d : Device) : Outcome :=
  let c := d.cpus cpu
  if param = 0 then .ret (-EINVAL) d []
  else if num = IOCTL_SENDIPI then
    match d.info with
    | some info => .ret 1 (handler intr back info d) []
    | none => if cpu = RECV_CORE then .oops else .panic
  else if num = IOCTL_TEST then .ret 1 d []
  else if num = IOCTL_STAT_START then
    .ret 1 (d.setCpu cpu { c.setState 1 with save := 0 }) []
  else if num = IOCTL_GET_STATS then
    match d.info with
    | some info =>
      let page := getStats c (d.pages info)
      .ret 1 (d.setPage info page) [.snapshot pid cpu info page.ps]
    | none => .oops
  else if num = IOCTL_CLEAR then .ret 1 (d.setCpu cpu c.clear) [.cleared cpu]
  else if num = IOCTL_FINISH then .ret 1 (d.setCpu cpu (c.setState 0)) []
  else .ret 1 d []

def threadletIoctl32 (pid cpu : Nat) (num : UInt32) (param : UInt64) (intr back : Int64)
    (d : Device) : Outcome :=
  match threadletIoctl pid cpu num param intr back d with
  | .ret _ d es => .ret 0 d es
  | .oops => .oops
  | .panic => .panic

def threadletExit (d : Device) : Device × List DeviceEvent :=
  ({ d with removed := true }, [.removed d.info])

inductive DeviceAct where
  | add (cpu : Nat) (f : SummaryField) (amount : UInt64)
  /-- The kernel's records other than the sums. -/
  | record (cpu : Nat) (stats : StatField → UInt64) (save : UInt64)
      (pre : UInt64 → StatField → UInt64)
  | mmap (pid : Nat) (kzallocs remaps : Bool)
  | ioctl (compat : Bool) (pid cpu : Nat) (num : UInt32) (param : UInt64) (intr back : Int64)
  | exit

def Outcome.next (pid : Nat) (num : UInt32) (d : Device) :
    Outcome → Option (Device × List DeviceEvent)
  | .ret _ d' es => some (d', es)
  | .oops => some (d, [.oops pid num])
  | .panic => none

def deviceStep (d : Device) : DeviceAct → Option (Device × List DeviceEvent)
  | .add cpu f amount =>
    let c := d.cpus cpu
    some (d.setCpu cpu { c with summary := Function.update c.summary f (c.summary f + amount) },
      [.added cpu f amount])
  | .record cpu stats save pre =>
    some (d.setCpu cpu { d.cpus cpu with stats := stats, save := save, pre := pre }, [])
  | .mmap pid kzallocs remaps =>
    if d.removed then none else some (threadletMmap pid kzallocs remaps d)
  | .ioctl compat pid cpu num param intr back =>
    if d.removed then none
    else if compat then (threadletIoctl32 pid cpu num param intr back d).next pid num d
    else (threadletIoctl pid cpu num param intr back d).next pid num d
  | .exit => if d.removed then none else some (threadletExit d)

def deviceMachine : Machine Device DeviceAct DeviceEvent := ⟨deviceStep⟩

/-- A change of the records of one CPU that leaves its sums alone. -/
theorem summary_setCpu {d : Device} {cpu : Nat} {c : CpuStats}
    (h : c.summary = (d.cpus cpu).summary) (k : Nat) :
    ((d.setCpu cpu c).cpus k).summary = (d.cpus k).summary := by
  by_cases hk : k = cpu
  · subst hk
    simpa [Device.setCpu] using h
  · simp [Device.setCpu, hk]

section Calls
variable {pid cpu : Nat} {num : UInt32} {param : UInt64} {intr back : Int64} {d d' : Device}
variable {es : List DeviceEvent}

/-- A call that is neither a snapshot nor a clear. -/
structure Aside (d d' : Device) : Prop where
  info : d'.info = d.info
  allocated : d'.allocated = d.allocated
  removed : d'.removed = d.removed
  summary : ∀ k, (d'.cpus k).summary = (d.cpus k).summary

theorem Aside.refl (d : Device) : Aside d d := ⟨rfl, rfl, rfl, fun _ => rfl⟩

theorem aside_setCpu {c : CpuStats} (h : c.summary = (d.cpus cpu).summary) :
    Aside d (d.setCpu cpu c) := ⟨rfl, rfl, rfl, summary_setCpu h⟩

theorem aside_handler (info : Nat) : Aside d (handler intr back info d) :=
  ⟨rfl, rfl, rfl, summary_setCpu rfl⟩

/-- What a call that does not halt the machine can do. -/
theorem ioctl_cases
    (h : (threadletIoctl pid cpu num param intr back d).next pid num d = some (d', es)) :
    (∃ info, d.info = some info ∧
      d' = d.setPage info (getStats (d.cpus cpu) (d.pages info)) ∧
      es = [.snapshot pid cpu info (getStats (d.cpus cpu) (d.pages info)).ps]) ∨
    (d' = d.setCpu cpu (d.cpus cpu).clear ∧ es = [.cleared cpu]) ∨
    (d.info = none ∧ d' = d ∧ es = [.oops pid num]) ∨
    (Aside d d' ∧ es = []) := by
  have aside {v : Int} {u : Device} (h : (Outcome.ret v u []).next pid num d = some (d', es))
      (hu : Aside d u) : Aside d d' ∧ es = [] := by
    obtain ⟨rfl, rfl⟩ := Prod.mk.inj (Option.some.inj h)
    exact ⟨hu, rfl⟩
  unfold threadletIoctl at h
  split at h
  · exact .inr (.inr (.inr (aside h (.refl d))))
  split at h
  · split at h
    next info hinfo => exact .inr (.inr (.inr (aside h (aside_handler info))))
    next hinfo =>
      split at h
      · obtain ⟨rfl, rfl⟩ := Prod.mk.inj (Option.some.inj h)
        exact .inr (.inr (.inl ⟨hinfo, rfl, rfl⟩))
      · simp [Outcome.next] at h
  split at h
  · exact .inr (.inr (.inr (aside h (.refl d))))
  split at h
  · exact .inr (.inr (.inr (aside h (aside_setCpu rfl))))
  split at h
  · split at h
    next info hinfo =>
      obtain ⟨rfl, rfl⟩ := Prod.mk.inj (Option.some.inj h)
      exact .inl ⟨info, hinfo, rfl, rfl⟩
    next hinfo =>
      obtain ⟨rfl, rfl⟩ := Prod.mk.inj (Option.some.inj h)
      exact .inr (.inr (.inl ⟨hinfo, rfl, rfl⟩))
  split at h
  · obtain ⟨rfl, rfl⟩ := Prod.mk.inj (Option.some.inj h)
    exact .inr (.inl ⟨rfl, rfl⟩)
  split at h
  · exact .inr (.inr (.inr (aside h (aside_setCpu rfl))))
  · exact .inr (.inr (.inr (aside h (.refl d))))

/-- The compatibility call differs in its result only. -/
theorem next_ioctl32 : (threadletIoctl32 pid cpu num param intr back d).next pid num d =
    (threadletIoctl pid cpu num param intr back d).next pid num d := by
  unfold threadletIoctl32
  split <;> simp [Outcome.next, *]

theorem deviceStep_ioctl {compat : Bool}
    (h : deviceStep d (.ioctl compat pid cpu num param intr back) = some (d', es)) :
    d.removed = false ∧
      (threadletIoctl pid cpu num param intr back d).next pid num d = some (d', es) := by
  simp only [deviceStep, next_ioctl32, ite_self] at h
  split at h
  · simp at h
  next hremoved => exact ⟨by simpa using hremoved, h⟩

theorem deviceStep_mmap {kzallocs remaps : Bool}
    (h : deviceStep d (.mmap pid kzallocs remaps) = some (d', es)) : d.removed = false ∧
      ((∃ ret, d' = { d.setPage d.allocated .zero with
          info := some d.allocated, allocated := d.allocated + 1 } ∧
        es = [.mmap pid (some d.allocated) ret]) ∨
      (d' = { d with info := none } ∧ es = [.mmap pid none (-ENOMEM)])) := by
  simp only [deviceStep, threadletMmap] at h
  split at h
  · simp at h
  next hremoved =>
    refine ⟨by simpa using hremoved, ?_⟩
    split at h
    · left
      split at h
      · obtain ⟨rfl, rfl⟩ := Prod.mk.inj (Option.some.inj h)
        exact ⟨0, rfl, rfl⟩
      · obtain ⟨rfl, rfl⟩ := Prod.mk.inj (Option.some.inj h)
        exact ⟨-EAGAIN, rfl, rfl⟩
    · obtain ⟨rfl, rfl⟩ := Prod.mk.inj (Option.some.inj h)
      exact .inr ⟨rfl, rfl⟩

theorem deviceStep_exit (h : deviceStep d .exit = some (d', es)) :
    d' = { d with removed := true } ∧ es = [.removed d.info] := by
  simp only [deviceStep, threadletExit] at h
  split at h
  · simp at h
  · obtain ⟨rfl, rfl⟩ := Prod.mk.inj (Option.some.inj h)
    exact ⟨rfl, rfl⟩

end Calls

end ThletEvaluation.Interrupt
