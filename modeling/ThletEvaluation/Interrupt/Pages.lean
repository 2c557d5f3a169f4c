import ThletEvaluation.Interrupt.Device
import ThletEvaluation.Lib.Observer

/-!
# The life of the shared pages

Every `threadlet_mmap` allocates a page of its own, and the one pointer `info` follows the last
of them. The history of the device decides whether the pointer still stands for all that was
allocated and for what a caller has mapped.
-/

namespace ThletEvaluation.Interrupt

open Run

set_option autoImplicit false

def DeviceEvent.allocates : DeviceEvent → Option Nat
  | .mmap _ page _ => page
  | _ => none

/-- The process of an accepted `IOCTL_GET_STATS`. -/
def DeviceEvent.getter : DeviceEvent → Option Nat
  | .snapshot pid _ _ _ => some pid
  | .oops pid num => if num = IOCTL_GET_STATS then some pid else none
  | _ => none

def pagesOf (tr : List DeviceEvent) : List Nat := tr.filterMap DeviceEvent.allocates

/-- A call of `threadlet_mmap` has entered the page into the process' address space. -/
def MappedBy (pid page : Nat) (tr : List DeviceEvent) : Prop := .mmap pid (some page) 0 ∈ tr

/-- Every snapshot goes to a page that its process has mapped, and none through NULL. -/
structure WritesMapped (tr : List DeviceEvent) : Prop where
  mapped : ∀ pre post pid cpu page ps, tr = pre ++ .snapshot pid cpu page ps :: post →
    MappedBy pid page pre
  notNull : ∀ pid, .oops pid IOCTL_GET_STATS ∉ tr

def FreedOnce (tr : List DeviceEvent) (freed : Option Nat) : Prop :=
  ∀ page ∈ pagesOf tr, freed.toList.count page = 1

/-- No `threadlet_mmap` is called once one has got a page. -/
def OnePage (tr : List DeviceEvent) : Prop :=
  ∀ pre post pid page ret, tr = pre ++ .mmap pid page ret :: post → pagesOf pre = []

/-- Who calls `IOCTL_GET_STATS` has called `threadlet_mmap` before, and it has returned 0. -/
def GetAfterMmap (tr : List DeviceEvent) : Prop :=
  ∀ pre post e pid, tr = pre ++ e :: post → e.getter = some pid → ∃ page, MappedBy pid page pre

/-- What the history says of the device's pointer and of the pages. -/
structure PageLog where
  info : Option Nat
  pages : List Nat

def PageLog.observe (b : PageLog) : DeviceEvent → PageLog
  | .mmap _ page _ => ⟨page, b.pages ++ page.toList⟩
  | _ => b

def pageLog (tr : List DeviceEvent) : PageLog := tr.foldl PageLog.observe ⟨none, []⟩

/-- Refuses an event that does not go with the pointer, and a page that is given out twice. -/
def pageObserver : Observer PageLog DeviceEvent where
  next b
    | .mmap pid page ret =>
      if ∀ n ∈ page, n ∉ b.pages then some (b.observe (.mmap pid page ret)) else none
    | .snapshot _ _ page _ => if b.info = some page then some b else none
    | .oops _ _ => if b.info = none then some b else none
    | .removed freed => if freed = b.info then some b else none
    | .added _ _ _ | .cleared _ => some b

theorem pageObserver_next {b c : PageLog} {e : DeviceEvent} (h : pageObserver.next b e = some c) :
    c = b.observe e := by
  cases e <;> simp only [pageObserver, Option.ite_none_right_eq_some, Option.some.injEq] at h
  case added => exact h.symm
  case cleared => exact h.symm
  all_goals exact h.2.symm

/-- The pointer is that of the history, and pages not yet given out are not in it. -/
structure Logged (b : PageLog) (d : Device) : Prop where
  info : d.info = b.info
  fresh : ∀ n ∈ b.pages, n < d.allocated

section Steps
variable {b : PageLog} {d d' : Device} {es : List DeviceEvent}

theorem Logged.ioctl (h : Logged b d) {pid cpu : Nat} {num : UInt32} {param : UInt64}
    {intr back : Int64}
    (hstep : (threadletIoctl pid cpu num param intr back d).next pid num d = some (d', es)) :
    pageObserver.accept b es = some b ∧ Logged b d' := by
  rcases ioctl_cases hstep with ⟨info, hinfo, rfl, rfl⟩ | ⟨rfl, rfl⟩ | ⟨hinfo, rfl, rfl⟩ |
    ⟨haside, rfl⟩
  · exact ⟨by simp [pageObserver, ← h.info, hinfo], h.info, h.fresh⟩
  · exact ⟨by simp [pageObserver], h.info, h.fresh⟩
  · exact ⟨by simp [pageObserver, ← h.info, hinfo], h⟩
  · refine ⟨rfl, haside.info.trans h.info, ?_⟩
    rw [haside.allocated]
    exact h.fresh

theorem Logged.step (h : Logged b d) {act : DeviceAct} (hstep : deviceStep d act = some (d', es)) :
    ∃ c, pageObserver.accept b es = some c ∧ Logged c d' := by
  cases act with
  | add cpu f amount =>
    obtain ⟨rfl, rfl⟩ := Prod.mk.inj (Option.some.inj hstep)
    exact ⟨b, by simp [pageObserver], h.info, h.fresh⟩
  | record cpu stats save pre =>
    obtain ⟨rfl, rfl⟩ := Prod.mk.inj (Option.some.inj hstep)
    exact ⟨b, rfl, h.info, h.fresh⟩
  | mmap pid kzallocs remaps =>
    obtain ⟨-, ⟨ret, rfl, rfl⟩ | ⟨rfl, rfl⟩⟩ := deviceStep_mmap hstep
    · have hnew : d.allocated ∉ b.pages := fun hmem => Nat.lt_irrefl _ (h.fresh _ hmem)
      refine ⟨⟨some d.allocated, b.pages ++ [d.allocated]⟩, ?_, rfl, ?_⟩
      · simp [pageObserver, PageLog.observe, hnew]
      · intro n hn
        rcases List.mem_append.mp hn with hold | hlast
        · exact Nat.lt_succ_of_lt (h.fresh n hold)
        · rw [List.mem_singleton.mp hlast]
          exact Nat.lt_succ_self _
    · exact ⟨⟨none, b.pages⟩, by simp [pageObserver, PageLog.observe], rfl, h.fresh⟩
  | ioctl compat pid cpu num param intr back => exact ⟨b, h.ioctl (deviceStep_ioctl hstep).2⟩
  | exit =>
    obtain ⟨rfl, rfl⟩ := deviceStep_exit hstep
    exact ⟨b, by simp [pageObserver, h.info], h.info, h.fresh⟩

theorem runs_accepted {ok : Device → DeviceAct → Prop} {tr : List DeviceEvent}
    (h : Runs deviceMachine ok Device.init tr d) :
    ∃ b, pageObserver.accept ⟨none, []⟩ tr = some b := by
  have hstart : Logged ⟨none, []⟩ Device.init := ⟨rfl, by simp⟩
  obtain ⟨b, hb, -⟩ := Runs.simulates hstart (fun hR _ hstep => hR.step hstep) h
  exact ⟨b, hb⟩

end Steps

section Histories
variable {tr pre post : List DeviceEvent}

theorem pageLog_append (e : DeviceEvent) : pageLog (tr ++ [e]) = (pageLog tr).observe e := by
  simp [pageLog]

theorem pagesOf_append (e : DeviceEvent) :
    pagesOf (tr ++ [e]) = pagesOf tr ++ e.allocates.toList := by
  cases h : e.allocates <;> simp [pagesOf, h]

theorem pages_pageLog (tr : List DeviceEvent) : (pageLog tr).pages = pagesOf tr := by
  induction tr using List.reverseRecOn with
  | nil => rfl
  | append_singleton tr e ih =>
    rw [pageLog_append, pagesOf_append, ← ih]
    cases e <;> simp [PageLog.observe, DeviceEvent.allocates]

theorem MappedBy.mem_pagesOf {pid page : Nat} (h : MappedBy pid page tr) : page ∈ pagesOf tr :=
  List.mem_filterMap.mpr ⟨_, h, rfl⟩

theorem OnePage.left (h : OnePage (pre ++ post)) : OnePage pre := by
  intro pre' post' pid page ret hpre
  exact h pre' (post' ++ post) pid page ret (by simp [hpre])

/-- While only the last call got a page, the pointer stands for all that was allocated. -/
theorem OnePage.pagesOf_eq (h : OnePage tr) : pagesOf tr = (pageLog tr).info.toList := by
  induction tr using List.reverseRecOn with
  | nil => rfl
  | append_singleton tr e ih =>
    have hprev := ih h.left
    rw [pageLog_append, pagesOf_append]
    cases e with
    | mmap pid page ret =>
      simp [h tr [] pid page ret rfl, PageLog.observe, DeviceEvent.allocates]
    | _ => simp [hprev, PageLog.observe, DeviceEvent.allocates]

/-- A page that the pointer has left is not pointed to again. -/
theorem info_ne_of_left {b c : PageLog} {es : List DeviceEvent} {n : Nat} (hn : n ∈ b.pages)
    (hinfo : b.info ≠ some n) (h : pageObserver.accept b es = some c) : c.info ≠ some n := by
  suffices hboth : n ∈ c.pages ∧ c.info ≠ some n from hboth.2
  apply Observer.accept_invariant (I := fun _ c => n ∈ c.pages ∧ c.info ≠ some n) _ _ h
  · exact ⟨hn, hinfo⟩
  · rintro tr c e d ⟨hmem, hne⟩ hnext
    obtain rfl := pageObserver_next hnext
    cases e with
    | mmap pid page ret =>
      simp only [pageObserver, Option.ite_none_right_eq_some] at hnext
      refine ⟨List.mem_append_left _ hmem, ?_⟩
      rintro rfl
      exact hnext.1 n rfl hmem
    | _ => exact ⟨hmem, hne⟩

/-- The log at an event of an accepted history, and what the event says of it. -/
theorem accept_at {e : DeviceEvent} {b : PageLog} (htr : tr = pre ++ e :: post)
    (h : pageObserver.accept ⟨none, []⟩ tr = some b) :
    ∃ c, pageObserver.next (pageLog pre) e = some c := by
  subst htr
  obtain ⟨c, d, hc, hd⟩ := Observer.accept_split h
  obtain rfl : c = pageLog pre := Observer.accept_foldl pageObserver_next hc
  exact ⟨d, hd⟩

end Histories

section Lifecycle
variable {tr : List DeviceEvent} {d : Device} {freed : Option Nat} {b : PageLog}

theorem onePage_of_freedOnce (h : pageObserver.accept ⟨none, []⟩ tr = some b)
    (hfreed : FreedOnce tr b.info) : OnePage tr := by
  intro pre post pid page ret htr
  apply List.eq_nil_iff_forall_not_mem.mpr
  intro n hn
  have hcount := hfreed n (by simp [htr, pagesOf] at hn ⊢; exact .inl hn)
  have hlast : b.info = some n := by
    cases hinfo : b.info with
    | none => simp [hinfo] at hcount
    | some m => simpa [hinfo, List.count_singleton] using hcount
  -- the page of `pre` is not the one that this call gets, and the pointer does not come back
  subst htr
  obtain ⟨c, hc, hrest⟩ := Observer.accept_append_iff.mp h
  obtain ⟨c', hc', hpost⟩ := Observer.accept_cons_iff.mp hrest
  obtain rfl : c = pageLog pre := Observer.accept_foldl pageObserver_next hc
  obtain rfl := pageObserver_next hc'
  simp only [pageObserver, Option.ite_none_right_eq_some] at hc'
  have hmem : n ∈ (pageLog pre).pages := by rwa [pages_pageLog]
  refine info_ne_of_left (List.mem_append_left _ hmem) ?_ hpost hlast
  rintro rfl
  exact hc'.1 n rfl hmem

theorem getAfterMmap_of_writesMapped (h : WritesMapped tr) : GetAfterMmap tr := by
  intro pre post e pid htr hget
  cases e with
  | snapshot pid' cpu page ps =>
    obtain rfl := Option.some.inj hget
    exact ⟨page, h.mapped pre post _ cpu page ps htr⟩
  | oops pid' num =>
    simp only [DeviceEvent.getter, Option.ite_none_right_eq_some] at hget
    obtain ⟨rfl, -⟩ := hget
    exact absurd (by simp [htr]) (h.notNull pid')
  | _ => simp [DeviceEvent.getter] at hget

theorem writesMapped_of_onePage (h : pageObserver.accept ⟨none, []⟩ tr = some b)
    (hone : OnePage tr) (hget : GetAfterMmap tr) : WritesMapped tr := by
  have pointed {pre post e pid} (htr : tr = pre ++ e :: post)
      (he : DeviceEvent.getter e = some pid) :
      ∃ page, MappedBy pid page pre ∧ (pageLog pre).info = some page := by
    obtain ⟨page, hmapped⟩ := hget pre post e pid htr he
    have hmem := hmapped.mem_pagesOf
    rw [OnePage.pagesOf_eq (OnePage.left (htr ▸ hone))] at hmem
    exact ⟨page, hmapped, by simpa using hmem⟩
  constructor
  · intro pre post pid cpu page ps htr
    obtain ⟨page', hmapped, hinfo⟩ := pointed htr rfl
    obtain ⟨c, hc⟩ := accept_at htr h
    simp only [pageObserver, Option.ite_none_right_eq_some, hinfo, Option.some.injEq] at hc
    rwa [← hc.1]
  · intro pid hmem
    obtain ⟨pre, post, htr⟩ := List.append_of_mem hmem
    have hgetter : (DeviceEvent.oops pid IOCTL_GET_STATS).getter = some pid := by
      simp [DeviceEvent.getter]
    obtain ⟨page, -, hinfo⟩ := pointed htr hgetter
    obtain ⟨c, hc⟩ := accept_at htr h
    simp [pageObserver, hinfo] at hc

theorem freedOnce_of_onePage (h : pageObserver.accept ⟨none, []⟩ tr = some b)
    (hone : OnePage tr) : FreedOnce tr b.info := by
  obtain rfl : b = pageLog tr := Observer.accept_foldl pageObserver_next h
  intro page hpage
  rw [hone.pagesOf_eq] at hpage
  rw [Option.mem_toList.mp hpage]
  simp

/-- For every history of calls of any processes that ends in the removal of the module: the
snapshots go to pages of their callers and every page is freed once exactly when there is
no `mmap` after one that got a page, and no `IOCTL_GET_STATS` without an `mmap` of its own. -/
theorem page_lifecycle_iff
    (h : Runs deviceMachine (fun _ _ => True) Device.init (tr ++ [.removed freed]) d) :
    WritesMapped tr ∧ FreedOnce tr freed ↔ OnePage tr ∧ GetAfterMmap tr := by
  obtain ⟨b, hb⟩ := runs_accepted h
  obtain ⟨c, hc, hend⟩ := Observer.accept_append_iff.mp hb
  obtain rfl : freed = c.info := by
    simp only [Observer.accept_singleton, pageObserver, Option.ite_none_right_eq_some] at hend
    exact hend.1
  constructor
  · rintro ⟨hwrites, hfreed⟩
    exact ⟨onePage_of_freedOnce hc hfreed, getAfterMmap_of_writesMapped hwrites⟩
  · rintro ⟨hone, hget⟩
    exact ⟨writesMapped_of_onePage hc hone hget, freedOnce_of_onePage hc hone⟩

end Lifecycle

/-- One process maps the page and takes a snapshot before the module goes. -/
def oneProcess (ps : SummaryField → UInt64) : List DeviceEvent :=
  [.mmap 7 (some 0) 0, .snapshot 7 0 0 ps]

theorem page_lifecycle_iff_oneProcess : ∃ ps d,
    Runs deviceMachine (fun _ _ => True) Device.init (oneProcess ps ++ [.removed (some 0)]) d ∧
    WritesMapped (oneProcess ps) ∧ FreedOnce (oneProcess ps) (some 0) := by
  have hmap : deviceMachine.step Device.init (.mmap 7 true true) = some (_, _) := rfl
  have hget : Runs deviceMachine (fun _ _ => True) Device.init
      (oneProcess (getStats .zero .zero).ps) _ :=
    .next (.next .start trivial hmap) trivial (a := .ioctl false 7 0 IOCTL_GET_STATS 1 0 0) rfl
  have hrun := hget.next trivial (a := .exit) rfl
  refine ⟨_, _, hrun, (page_lifecycle_iff hrun).mpr ⟨?_, ?_⟩⟩
  · intro pre post pid page ret htr
    -- the call is the first event
    rcases pre with _ | ⟨e₁, _ | ⟨e₂, pre⟩⟩ <;> simp [oneProcess] at htr ⊢
    rfl
  · intro pre post e pid htr hget
    refine ⟨0, ?_⟩
    rcases pre with _ | ⟨e₁, _ | ⟨e₂, pre⟩⟩ <;> simp [oneProcess] at htr ⊢
    · obtain ⟨rfl, -⟩ := htr
      simp [DeviceEvent.getter] at hget
    · obtain ⟨rfl, rfl, -⟩ := htr
      obtain rfl := Option.some.inj hget
      simp [MappedBy]

/-- Two processes: the page of the first one is lost when the second one maps its own. -/
theorem second_mmap_loses_page :
    ¬ ∀ tr freed d,
      Runs deviceMachine (fun _ _ => True) Device.init (tr ++ [.removed freed]) d →
        WritesMapped tr ∧ FreedOnce tr freed := by
  intro hclaim
  have hmap : deviceMachine.step Device.init (.mmap 7 true true) = some (_, _) := rfl
  have htwo : Runs deviceMachine (fun _ _ => True) Device.init
      [.mmap 7 (some 0) 0, .mmap 8 (some 1) 0] _ :=
    .next (.next .start trivial hmap) trivial (a := .mmap 8 true true) rfl
  have hfreed := (hclaim _ _ _ (htwo.next trivial (a := .exit) rfl)).2
  exact absurd (hfreed 0 (by decide)) (by decide)

end ThletEvaluation.Interrupt
