import ThletEvaluation.Interrupt.Device
import ThletEvaluation.Lib.Observer

/-!
# The summary that a snapshot shows

`sums` is the law: for each CPU and each field, what the kernel has added since the CPU's last
clear. A snapshot follows it in every field but one, since the field `cs_mm` of the page is
assigned from the kernel's `cs_reg`.
-/

namespace ThletEvaluation.Interrupt

open Run

set_option autoImplicit false

/-- For each CPU and field: the amounts added since the last clear, as the field holds them. -/
abbrev Sums := Nat → SummaryField → UInt64

def Sums.observe (b : Sums) : DeviceEvent → Sums
  | .added cpu f amount => Function.update b cpu (Function.update (b cpu) f (b cpu f + amount))
  | .cleared cpu => Function.update b cpu fun _ => 0
  | _ => b

def sums (tr : List DeviceEvent) : Sums := tr.foldl Sums.observe fun _ _ => 0

/-- Every snapshot shows the sums of its CPU, field for field. -/
def Exact (tr : List DeviceEvent) : Prop :=
  ∀ pre post pid cpu page ps, tr = pre ++ .snapshot pid cpu page ps :: post →
    ∀ f, ps f = sums pre cpu f

/-- At every snapshot the kernel has added as much to `cs_mm` as to `cs_reg`. -/
def MmEqualsReg (tr : List DeviceEvent) : Prop :=
  ∀ pre post pid cpu page ps, tr = pre ++ .snapshot pid cpu page ps :: post →
    sums pre cpu .csMm = sums pre cpu .csReg

/-- The kernel's field that the assignments of a snapshot read for a field of the page. -/
def SummaryField.source : SummaryField → SummaryField
  | .csMm => .csReg
  | f => f

theorem getStats_ps (c : CpuStats) (page : Pipe) (f : SummaryField) :
    (getStats c page).ps f = c.summary f.source := by
  cases f <;> rfl

theorem source_ne_csMm (f : SummaryField) : f.source ≠ .csMm := by
  cases f <;> simp [SummaryField.source]

theorem clear_summary (c : CpuStats) {f : SummaryField} (hf : f ≠ .csMm) :
    c.clear.summary f = 0 := by
  cases f <;> first | rfl | exact absurd rfl hf

open Classical in
/-- The law as an observer that refuses a snapshot with other values. -/
noncomputable def sumsObserver : Observer Sums DeviceEvent where
  next b
    | .snapshot _ cpu _ ps => if ps = fun f => b cpu f.source then some b else none
    | e => some (b.observe e)

theorem sumsObserver_next {b c : Sums} {e : DeviceEvent} (h : sumsObserver.next b e = some c) :
    c = b.observe e := by
  cases e with
  | snapshot pid cpu page ps =>
    simp only [sumsObserver] at h
    split at h
    · exact (Option.some.inj h).symm
    · simp at h
  | added cpu f amount => exact (Option.some.inj h).symm
  | cleared cpu => exact (Option.some.inj h).symm
  | oops pid num => exact (Option.some.inj h).symm
  | mmap pid page ret => exact (Option.some.inj h).symm
  | removed freed => exact (Option.some.inj h).symm

/-- The kernel's fields hold the sums, `cs_mm` apart, which no clear reaches. -/
def Holds (b : Sums) (d : Device) : Prop :=
  ∀ cpu f, f ≠ .csMm → (d.cpus cpu).summary f = b cpu f

section Steps
variable {b : Sums} {d d' : Device} {es : List DeviceEvent}

theorem Holds.of_summary (h : Holds b d)
    (hsame : ∀ k, (d'.cpus k).summary = (d.cpus k).summary) : Holds b d' := by
  intro k f hf
  rw [hsame k]
  exact h k f hf

/-- One CPU's fields and its sums change together. -/
theorem Holds.setCpu (h : Holds b d) {cpu : Nat} {c : CpuStats} {sum : SummaryField → UInt64}
    (hc : ∀ f, f ≠ .csMm → c.summary f = sum f) :
    Holds (Function.update b cpu sum) (d.setCpu cpu c) := by
  intro k f hf
  by_cases hk : k = cpu
  · subst hk
    simpa [Device.setCpu] using hc f hf
  · simpa [Device.setCpu, hk] using h k f hf

theorem Holds.add (h : Holds b d) {cpu : Nat} {f : SummaryField} {amount : UInt64} :
    Holds (b.observe (.added cpu f amount)) (d.setCpu cpu { d.cpus cpu with
      summary := Function.update (d.cpus cpu).summary f ((d.cpus cpu).summary f + amount) }) := by
  apply h.setCpu
  intro g hg
  by_cases hgf : g = f
  · subst hgf
    simp [h cpu g hg]
  · simp [hgf, h cpu g hg]

theorem Holds.ioctl (h : Holds b d) {pid cpu : Nat} {num : UInt32} {param : UInt64}
    {intr back : Int64}
    (hstep : (threadletIoctl pid cpu num param intr back d).next pid num d = some (d', es)) :
    ∃ c, sumsObserver.accept b es = some c ∧ Holds c d' := by
  rcases ioctl_cases hstep with ⟨info, -, rfl, rfl⟩ | ⟨rfl, rfl⟩ | ⟨-, rfl, rfl⟩ | ⟨haside, rfl⟩
  · refine ⟨b, ?_, h⟩
    have hps : (getStats (d.cpus cpu) (d.pages info)).ps = fun f => b cpu f.source := by
      funext f
      rw [getStats_ps]
      exact h cpu f.source (source_ne_csMm f)
    simp [sumsObserver, hps]
  · exact ⟨b.observe (.cleared cpu), by simp [sumsObserver],
      h.setCpu fun f hf => clear_summary (d.cpus cpu) hf⟩
  · exact ⟨b, by simp [sumsObserver, Sums.observe], h⟩
  · exact ⟨b, rfl, h.of_summary haside.summary⟩

theorem Holds.step (h : Holds b d) {act : DeviceAct} (hstep : deviceStep d act = some (d', es)) :
    ∃ c, sumsObserver.accept b es = some c ∧ Holds c d' := by
  cases act with
  | add cpu f amount =>
    obtain ⟨rfl, rfl⟩ := Prod.mk.inj (Option.some.inj hstep)
    exact ⟨b.observe (.added cpu f amount), by simp [sumsObserver], h.add⟩
  | record cpu stats save pre =>
    obtain ⟨rfl, rfl⟩ := Prod.mk.inj (Option.some.inj hstep)
    exact ⟨b, rfl, h.of_summary (summary_setCpu rfl)⟩
  | mmap pid kzallocs remaps =>
    obtain ⟨-, ⟨ret, rfl, rfl⟩ | ⟨rfl, rfl⟩⟩ := deviceStep_mmap hstep
    · exact ⟨b, by simp [sumsObserver, Sums.observe], h⟩
    · exact ⟨b, by simp [sumsObserver, Sums.observe], h⟩
  | ioctl compat pid cpu num param intr back => exact h.ioctl (deviceStep_ioctl hstep).2
  | exit =>
    obtain ⟨rfl, rfl⟩ := deviceStep_exit hstep
    exact ⟨b, by simp [sumsObserver, Sums.observe], h⟩

end Steps

/-- What a snapshot shows, in every run. -/
theorem snapshot_shows {ok : Device → DeviceAct → Prop} {tr pre post : List DeviceEvent}
    {d : Device} {pid cpu page : Nat} {ps : SummaryField → UInt64}
    (h : Runs deviceMachine ok Device.init tr d)
    (htr : tr = pre ++ .snapshot pid cpu page ps :: post) (f : SummaryField) :
    ps f = sums pre cpu f.source := by
  have hstart : Holds (fun _ _ => 0) Device.init := fun _ _ _ => rfl
  obtain ⟨b, hb, -⟩ := Runs.simulates hstart (fun hR _ hstep => hR.step hstep) h
  subst htr
  obtain ⟨c, e, hc, hnext⟩ := Observer.accept_split hb
  have hsum : c = sums pre := Observer.accept_foldl sumsObserver_next hc
  simp only [sumsObserver] at hnext
  split at hnext
  next hps => rw [hps, hsum]
  · simp at hnext

/-- In every run of the device, on every CPU: the snapshots show the sums exactly when
`cs_mm` has grown as much as `cs_reg` at each of them. -/
theorem snapshot_exact_iff {tr : List DeviceEvent} {d : Device}
    (h : Runs deviceMachine (fun _ _ => True) Device.init tr d) : Exact tr ↔ MmEqualsReg tr := by
  constructor
  · intro hexact pre post pid cpu page ps htr
    calc sums pre cpu .csMm = ps .csMm := (hexact pre post pid cpu page ps htr .csMm).symm
      _ = sums pre cpu .csReg := snapshot_shows h htr .csMm
  · intro hequal pre post pid cpu page ps htr f
    rw [snapshot_shows h htr f]
    by_cases hf : f = .csMm
    · subst hf
      exact (hequal pre post pid cpu page ps htr).symm
    · cases f <;> first | rfl | exact absurd rfl hf

/-- A process has mapped the page, and the kernel has added to one field of the process' CPU. -/
def oneAddition (f : SummaryField) : List DeviceEvent := [.mmap 0 (some 0) 0, .added 0 f 1]

theorem oneAddition_snapshot (f : SummaryField) : ∃ ps d,
    Runs deviceMachine (fun _ _ => True) Device.init (oneAddition f ++ [.snapshot 0 0 0 ps]) d := by
  have hmap : deviceMachine.step Device.init (.mmap 0 true true) = some (_, _) := rfl
  have hadd : Runs deviceMachine (fun _ _ => True) Device.init (oneAddition f) _ :=
    .next (.next .start trivial hmap) trivial (a := .add 0 f 1) rfl
  exact ⟨_, _, .next hadd trivial (a := .ioctl false 0 0 IOCTL_GET_STATS 1 0 0) rfl⟩

theorem snapshot_exact_iff_commonIrq : ∃ ps d,
    Runs deviceMachine (fun _ _ => True) Device.init
      (oneAddition .commonIrq ++ [.snapshot 0 0 0 ps]) d ∧
    Exact (oneAddition .commonIrq ++ [.snapshot 0 0 0 ps]) := by
  obtain ⟨ps, d, hrun⟩ := oneAddition_snapshot .commonIrq
  refine ⟨ps, d, hrun, (snapshot_exact_iff hrun).mpr ?_⟩
  intro pre post pid cpu page ps' htr
  -- the snapshot is the last of the three events
  rcases pre with _ | ⟨e₁, _ | ⟨e₂, _ | ⟨e₃, pre⟩⟩⟩
  · simp [oneAddition] at htr
  · simp [oneAddition] at htr
  · obtain ⟨rfl, rfl, ⟨-, rfl, -⟩, -⟩ := by simpa [oneAddition] using htr
    rfl
  · simp [oneAddition] at htr

theorem snapshot_misses_csMm :
    ¬ ∀ tr d, Runs deviceMachine (fun _ _ => True) Device.init tr d → Exact tr := by
  intro hclaim
  obtain ⟨ps, d, hrun⟩ := oneAddition_snapshot .csMm
  have hshown : ps .csMm = 0 := snapshot_shows hrun rfl .csMm
  have hsum : ps .csMm = 1 := hclaim _ d hrun _ _ 0 0 0 ps rfl .csMm
  simp [hshown] at hsum

end ThletEvaluation.Interrupt
