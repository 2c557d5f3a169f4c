import ThletEvaluation.Switch.Benchmark

/-!
# What the benchmark module reports

A thread stores its record before it says that it has finished, and `thlet_switch_exit` reads it
afterwards, so that what is reported are the final records of all threads.
-/

namespace ThletEvaluation.Switch

open Run Loop

set_option autoImplicit false

variable {cfg : Config} {random : Nat → Nat → UInt64} {s s' : Bench} {t : Nat} {act : BenchAct}
variable {tr es : List BenchEvent}

/-! ## What each thread has committed -/

/-- A thread that has not counted itself yet is before its commit. -/
def PlaceOk (cfg : Config) (random : Nat → Nat → UInt64) (s : Bench) (t : Nat) : Prop :=
  match s.thread t with
  | .absent | .waiting | .enabling => s.measuring.thread t = .idle ∧ s.finished t = false
  | .measuring => s.finished t = false
  | .counting r _ =>
    (s.measuring.thread t).commit (benchRounds cfg random t) = some r ∧ s.finished t = false
  | .storing r todo =>
    (s.measuring.thread t).commit (benchRounds cfg random t) = some r ∧ s.finished t = false ∧
      ∀ field, field ∉ todo → field.get (s.stats t) = field.get r
  | .checking | .disabling | .returned =>
    (s.measuring.thread t).commit (benchRounds cfg random t) = some (s.stats t) ∧
      s.finished t = true

theorem PlaceOk.congr {u : Nat} (h : PlaceOk cfg random s u) (hthread : s'.thread u = s.thread u)
    (hmeasuring : s'.measuring.thread u = s.measuring.thread u)
    (hfinished : s'.finished u = s.finished u) (hstats : s'.stats u = s.stats u) :
    PlaceOk cfg random s' u := by
  unfold PlaceOk at h ⊢
  rwa [hthread, hmeasuring, hfinished, hstats]

theorem StatField.get_set (field field' : StatField) (v : UInt64) (r : ModuleStats) :
    field'.get (field.set v r) = if field' = field then v else field'.get r := by
  cases field <;> cases field' <;> rfl

theorem StatField.ext {r r' : ModuleStats} (h : ∀ field : StatField, field.get r = field.get r') :
    r = r' := by
  have h0 := h .start
  have h1 := h .endCycle
  have h2 := h .total
  have h3 := h .pureComputation
  cases r
  cases r'
  simp_all [StatField.get]

/-- A thread leaves the other threads alone. -/
theorem threadMove_frame {u : Nat} (h : ThreadMove cfg random s t s' es) (hu : u ≠ t) :
    s'.thread u = s.thread u ∧ s'.measuring.thread u = s.measuring.thread u ∧
      s'.finished u = s.finished u ∧ s'.stats u = s.stats u := by
  cases h with
  | measure hp hm =>
    rcases measuring_step_cases hm with ⟨d, hact, -⟩ | ⟨t', m', hact, -, -, hm', -⟩
    · simp at hact
    · obtain rfl : t = t' := by simpa using hact
      simp [hm', hu]
  | _ => simp [Bench.goto, hu]

theorem placeOk_move (h : PlaceOk cfg random s t) (hmove : ThreadMove cfg random s t s' es) :
    PlaceOk cfg random s' t := by
  unfold PlaceOk at h
  cases hmove with
  | release hp hreleased =>
    rw [hp] at h
    simpa [PlaceOk, Bench.goto] using h
  | enable hp =>
    rw [hp] at h
    simpa [PlaceOk, Bench.goto] using h.2
  | measure hp hm =>
    rw [hp] at h
    simpa [PlaceOk, hp] using h
  | load hp hr =>
    rw [hp] at h
    simpa [PlaceOk, Bench.goto] using ⟨hr, h⟩
  | count hp =>
    rw [hp] at h
    simp only [PlaceOk, Bench.goto, Function.update_self]
    refine ⟨h.1, h.2, fun field hfield => ?_⟩
    exact absurd (by cases field <;> simp [StatField.stores]) hfield
  | @store r field todo hp =>
    rw [hp] at h
    obtain ⟨hr, hfin, hdone⟩ := h
    simp only [PlaceOk, Bench.goto, Function.update_self]
    refine ⟨hr, hfin, fun field' hfield' => ?_⟩
    rw [StatField.get_set]
    split
    case isTrue heq => rw [heq]
    case isFalse hne => exact hdone field' (by simp [hne, hfield'])
  | finish hp =>
    rw [hp] at h
    obtain ⟨hr, hfin, hdone⟩ := h
    simp only [PlaceOk, Bench.goto, Function.update_self]
    exact ⟨by rw [hr, StatField.ext fun field => (hdone field (by simp)).symm], trivial⟩
  | last hp hcnt | pass hp hcnt =>
    rw [hp] at h
    simpa [PlaceOk, Bench.goto] using h
  | disable hp =>
    rw [hp] at h
    simpa [PlaceOk, Bench.goto] using h

/-! ## What the exit has read -/

/-- The records of the threads below `i`. -/
def Bench.records (s : Bench) (i : Nat) : List ModuleStats := (List.range i).map s.stats

/-- How many threads have been created. -/
def LoaderPlace.created (n : Nat) : LoaderPlace → Nat
  | .clearing => 0
  | .creating i => i
  | _ => n

def LoaderOk (cfg : Config) (s : Bench) : Prop :=
  match s.loader with
  | .clearing | .releasing | .loaded => True
  | .creating i => i ≤ cfg.threads
  | .waiting i sums =>
    i ≤ cfg.threads ∧ (∀ j < i, s.finished j = true) ∧ sums = thletSwitchExit (s.records i)
  | .reading i sums got todo =>
    i < cfg.threads ∧ (∀ j ≤ i, s.finished j = true) ∧ sums = thletSwitchExit (s.records i) ∧
      ∀ field, field ∉ todo → field.get got = field.get (s.stats i)
  | .reporting sums =>
    (∀ j < cfg.threads, s.finished j = true) ∧ sums = thletSwitchExit (s.records cfg.threads)
  | .disabling | .zeroing | .unloaded | .divideError =>
    ∀ j < cfg.threads, s.finished j = true

/-- The records of the threads that have finished stay as they are. -/
def Settled (s s' : Bench) : Prop :=
  ∀ j, s.finished j = true → s'.finished j = true ∧ s'.stats j = s.stats j

theorem Settled.records {i : Nat} (h : Settled s s') (hi : ∀ j < i, s.finished j = true) :
    s'.records i = s.records i :=
  List.map_congr_left fun j hj => (h j (hi j (List.mem_range.mp hj))).2

theorem LoaderOk.congr (h : LoaderOk cfg s) (hloader : s'.loader = s.loader)
    (hsettled : Settled s s') : LoaderOk cfg s' := by
  unfold LoaderOk at h ⊢
  rw [hloader]
  cases hp : s.loader with
  | clearing | creating i | releasing | loaded =>
    rw [hp] at h
    exact h
  | waiting i sums =>
    rw [hp] at h
    obtain ⟨hi, hfin, hsums⟩ := h
    exact ⟨hi, fun j hj => (hsettled j (hfin j hj)).1, by rw [hsettled.records hfin]; exact hsums⟩
  | reading i sums got todo =>
    rw [hp] at h
    obtain ⟨hi, hfin, hsums, hgot⟩ := h
    have hbelow : ∀ j < i, s.finished j = true := fun j hj => hfin j hj.le
    refine ⟨hi, fun j hj => (hsettled j (hfin j hj)).1, ?_, fun field hfield => ?_⟩
    · rw [hsettled.records hbelow]
      exact hsums
    · rw [(hsettled i (hfin i (Nat.le_refl i))).2]
      exact hgot field hfield
  | reporting sums =>
    rw [hp] at h
    obtain ⟨hfin, hsums⟩ := h
    exact ⟨fun j hj => (hsettled j (hfin j hj)).1, by rw [hsettled.records hfin]; exact hsums⟩
  | disabling | zeroing | unloaded | divideError =>
    rw [hp] at h
    exact fun j hj => (hsettled j (h j hj)).1

theorem threadMove_loader (h : ThreadMove cfg random s t s' es) : s'.loader = s.loader := by
  cases h <;> rfl

theorem settled_of_threadMove (hok : PlaceOk cfg random s t)
    (h : ThreadMove cfg random s t s' es) : Settled s s' := by
  intro u hu
  by_cases hut : u = t
  · subst hut
    unfold PlaceOk at hok
    cases h with
    | count hp | store hp | finish hp =>
      rw [hp] at hok
      simp [hok.2] at hu
    | _ => exact ⟨hu, rfl⟩
  · obtain ⟨-, -, hfin, hstats⟩ := threadMove_frame h hut
    exact ⟨hfin ▸ hu, hstats⟩

theorem records_succ (i : Nat) : s.records (i + 1) = s.records i ++ [s.stats i] := by
  simp [Bench.records, List.range_succ]

theorem exit_records_succ (i : Nat) :
    thletSwitchExit (s.records (i + 1)) =
      exitBody i (thletSwitchExit (s.records i)) (s.stats i) := by
  rw [records_succ, thletSwitchExit, foldlIdx_append_singleton, Nat.zero_add]
  simp [Bench.records, thletSwitchExit]

structure BenchInv (cfg : Config) (random : Nat → Nat → UInt64) (s : Bench) : Prop where
  place : ∀ t, PlaceOk cfg random s t
  absent : ∀ t, s.thread t = .absent ↔ s.loader.created cfg.threads ≤ t
  loader : LoaderOk cfg s

theorem benchInv_init (now : UInt64) (recording : Bool) (sums : SwitchStatsSum) :
    BenchInv cfg random (.init now recording sums) where
  place _ := ⟨rfl, rfl⟩
  absent t := ⟨fun _ => Nat.zero_le t, fun _ => rfl⟩
  loader := trivial

/-- A thread that goes on is there, and stays. -/
theorem threadMove_absent (h : ThreadMove cfg random s t s' es) (u : Nat) :
    s'.thread u = .absent ↔ s.thread u = .absent := by
  by_cases hu : u = t
  · subst hu
    cases h <;> simp_all [Bench.goto]
  · rw [(threadMove_frame h hu).1]

theorem benchInv_thread (hinv : BenchInv cfg random s) (h : ThreadMove cfg random s t s' es) :
    BenchInv cfg random s' where
  place u := by
    by_cases hu : u = t
    · subst hu
      exact placeOk_move (hinv.place u) h
    · obtain ⟨hthread, hmeasuring, hfin, hstats⟩ := threadMove_frame h hu
      exact (hinv.place u).congr hthread hmeasuring hfin hstats
  absent u := by rw [threadMove_absent h, threadMove_loader h, hinv.absent]
  loader := hinv.loader.congr (threadMove_loader h) (settled_of_threadMove (hinv.place t) h)

/-- Where the loader only goes on, the threads see nothing of it. -/
theorem BenchInv.enter {p : LoaderPlace} (hinv : BenchInv cfg random s)
    (hcreated : p.created cfg.threads = s.loader.created cfg.threads)
    (hloader : LoaderOk cfg (s.enter p)) : BenchInv cfg random (s.enter p) where
  place := hinv.place
  absent t := by rw [Bench.enter, hcreated]; exact hinv.absent t
  loader := hloader

theorem BenchInv.congr (hinv : BenchInv cfg random s) (hthread : s'.thread = s.thread)
    (hmeasuring : s'.measuring = s.measuring) (hfinished : s'.finished = s.finished)
    (hstats : s'.stats = s.stats) (hloader : s'.loader = s.loader) : BenchInv cfg random s' where
  place t := (hinv.place t).congr (congrFun hthread t) (by rw [hmeasuring])
    (congrFun hfinished t) (congrFun hstats t)
  absent t := by rw [hthread, hloader, hinv.absent]
  loader := hinv.loader.congr hloader fun j hj => ⟨hfinished ▸ hj, by rw [hstats]⟩

theorem benchInv_create {i : Nat} (hinv : BenchInv cfg random s) (hp : s.loader = .creating i)
    (hi : i < cfg.threads) :
    BenchInv cfg random { (s.goto i .waiting).enter (.creating (i + 1)) with
      finished := Function.update s.finished i false } where
  place t := by
    by_cases ht : t = i
    · subst ht
      have habsent : s.thread t = .absent := (hinv.absent t).mpr (by rw [hp]; exact Nat.le_refl t)
      have hidle := hinv.place t
      unfold PlaceOk at hidle
      rw [habsent] at hidle
      simpa [PlaceOk, Bench.goto, Bench.enter] using hidle.1
    · exact (hinv.place t).congr (by simp [Bench.goto, Bench.enter, ht]) rfl (by simp [ht]) rfl
  absent t := by
    have habsent := hinv.absent t
    rw [hp] at habsent
    by_cases ht : t = i
    · subst ht
      simp [Bench.goto, Bench.enter, LoaderPlace.created]
    · simp only [Bench.goto, Bench.enter, Function.update_of_ne ht, habsent, LoaderPlace.created]
      omega
  loader := hi

theorem benchInv_loader (hinv : BenchInv cfg random s) (h : LoaderMove cfg s s' es) :
    BenchInv cfg random s' := by
  have hok := hinv.loader
  unfold LoaderOk at hok
  cases h with
  | clear hp =>
    have hnew := hinv.enter (p := .creating 0) (by rw [hp]; rfl) (Nat.zero_le _)
    exact hnew.congr rfl rfl rfl rfl rfl
  | create hp hi => exact benchInv_create hinv hp hi
  | created hp hi =>
    rw [hp] at hok
    refine hinv.enter ?_ trivial
    rw [hp]
    exact Nat.le_antisymm (Nat.le_of_not_lt hi) hok
  | release hp =>
    have hnew := hinv.enter (p := .loaded) (by rw [hp]; rfl) trivial
    exact hnew.congr rfl rfl rfl rfl rfl
  | exit hp =>
    exact hinv.enter (by rw [hp]; rfl) ⟨Nat.zero_le _, fun j hj => absurd hj (by simp), rfl⟩
  | await hp hi hfin =>
    rw [hp] at hok
    obtain ⟨-, hbelow, hsums⟩ := hok
    refine hinv.enter (by rw [hp]; rfl) ⟨hi, fun j hj => ?_, hsums, fun field hfield => ?_⟩
    · rcases Nat.lt_or_eq_of_le hj with hlt | rfl
      · exact hbelow j hlt
      · exact hfin
    · exact absurd (by cases field <;> simp [StatField.reads]) hfield
  | @read i sums got field todo hp =>
    rw [hp] at hok
    obtain ⟨hi, hfin, hsums, hgot⟩ := hok
    refine hinv.enter (by rw [hp]; rfl) ⟨hi, hfin, hsums, fun field' hfield' => ?_⟩
    rw [StatField.get_set]
    split
    case isTrue heq =>
      rw [heq]
      rfl
    case isFalse hne => exact hgot field' (by simp [hne, hfield'])
  | @add i sums got hp =>
    rw [hp] at hok
    obtain ⟨hi, hfin, hsums, hgot⟩ := hok
    refine hinv.enter (by rw [hp]; rfl) ⟨hi, fun j hj => hfin j (Nat.le_of_lt_succ hj), ?_⟩
    have hread : got = s.stats i := StatField.ext fun field => hgot field (by simp)
    rw [hsums, hread]
    exact (exit_records_succ i).symm
  | summed hp hi =>
    rw [hp] at hok
    obtain ⟨hle, hfin, hsums⟩ := hok
    obtain rfl := Nat.le_antisymm hle (Nat.le_of_not_lt hi)
    exact hinv.enter (by rw [hp]; rfl) ⟨hfin, hsums⟩
  | report hp hr | divide hp hr =>
    rw [hp] at hok
    exact hinv.enter (by rw [hp]; rfl) hok.1
  | disable hp =>
    rw [hp] at hok
    have hnew := hinv.enter (p := .zeroing) (by rw [hp]; rfl) hok
    exact hnew.congr rfl rfl rfl rfl rfl
  | zero hp =>
    rw [hp] at hok
    have hnew := hinv.enter (p := .unloaded) (by rw [hp]; rfl) hok
    exact hnew.congr rfl rfl rfl rfl rfl

theorem benchInv_step (hinv : BenchInv cfg random s)
    (h : s.step cfg random act = some (s', es)) : BenchInv cfg random s' := by
  cases act with
  | tick d =>
    obtain ⟨rfl, -⟩ := by simpa [Bench.step] using h
    exact ⟨hinv.place, hinv.absent, hinv.loader⟩
  | thread t => exact benchInv_thread hinv (threadStep_move h)
  | loader => exact benchInv_loader hinv (loaderStep_move h)
  | kernel sums =>
    obtain ⟨rfl, -⟩ := by simpa [Bench.step] using h
    exact ⟨hinv.place, hinv.absent, hinv.loader⟩

theorem settled_step (hinv : BenchInv cfg random s)
    (h : s.step cfg random act = some (s', es)) : Settled s s' := by
  cases act with
  | tick d =>
    obtain ⟨rfl, -⟩ := by simpa [Bench.step] using h
    exact fun j hj => ⟨hj, rfl⟩
  | thread t => exact settled_of_threadMove (hinv.place t) (threadStep_move h)
  | loader =>
    cases loaderStep_move h with
    | @create i hp hi =>
      intro j hj
      have hne : j ≠ i := by
        rintro rfl
        have habsent : s.thread j = .absent :=
          (hinv.absent j).mpr (by rw [hp]; exact Nat.le_refl j)
        have hidle := hinv.place j
        unfold PlaceOk at hidle
        rw [habsent] at hidle
        simp [hidle.2] at hj
      exact ⟨by simpa [hne] using hj, rfl⟩
    | _ => exact fun j hj => ⟨hj, rfl⟩
  | kernel sums =>
    obtain ⟨rfl, -⟩ := by simpa [Bench.step] using h
    exact fun j hj => ⟨hj, rfl⟩

/-- What has been printed is what the records of the threads give, and they have finished. -/
def Reported (cfg : Config) (tr : List BenchEvent) (s : Bench) : Prop :=
  ∀ r, .report r ∈ tr → (∀ j < cfg.threads, s.finished j = true) ∧
    ∃ sums, exitReport cfg.threads (thletSwitchExit (s.records cfg.threads)) sums = some r

theorem Reported.settled (h : Reported cfg tr s) (hsettled : Settled s s') :
    Reported cfg tr s' := by
  intro r hr
  obtain ⟨hfin, hreport⟩ := h r hr
  rw [hsettled.records hfin]
  exact ⟨fun j hj => (hsettled j (hfin j hj)).1, hreport⟩

theorem report_step (hinv : BenchInv cfg random s)
    (h : s.step cfg random act = some (s', es)) : Reported cfg es s' := by
  intro r hr
  cases act with
  | tick d | kernel sums =>
    obtain ⟨-, rfl⟩ := by simpa [Bench.step] using h
    simp at hr
  | thread t =>
    cases threadStep_move h with
    | measure hp hm => simp at hr
    | _ => simp at hr
  | loader =>
    have hok := hinv.loader
    unfold LoaderOk at hok
    cases loaderStep_move h with
    | report hp hreport =>
      rw [hp] at hok
      obtain ⟨hfin, rfl⟩ := hok
      obtain rfl : _ = r := by simpa [eq_comm] using hr
      exact ⟨hfin, _, hreport⟩
    | _ => simp at hr

theorem bench_of_runs {ok : Bench → BenchAct → Prop} {now : UInt64} {recording : Bool}
    {sums : SwitchStatsSum}
    (h : Runs (benchMachine cfg random) ok (.init now recording sums) tr s) :
    BenchInv cfg random s ∧ Reported cfg tr s := by
  refine h.invariant (I := fun tr s => BenchInv cfg random s ∧ Reported cfg tr s)
    ⟨benchInv_init now recording sums, fun r hr => by simp at hr⟩ ?_
  rintro tr es s s' act ⟨hinv, hreported⟩ - hstep
  refine ⟨benchInv_step hinv hstep, fun r hr => ?_⟩
  rcases List.mem_append.mp hr with hr | hr
  · exact hreported.settled (settled_step hinv hstep) r hr
  · exact report_step hinv hstep r hr

theorem count_nop (tr : List BenchEvent) (t : Nat) :
    tr.count (.nop ⟨t⟩) = (tr.filterMap BenchEvent.nop?).count ⟨t⟩ := by
  induction tr with
  | nil => rfl
  | cons e tr ih =>
    cases e with
    | nop e => simp [BenchEvent.nop?, List.count_cons, ih]
    | report r => simp [List.filterMap_cons, BenchEvent.nop?, ih]

/-- A thread that has finished has committed what it has measured. -/
theorem BenchInv.commit (hinv : BenchInv cfg random s) (ht : s.finished t = true) :
    (s.measuring.thread t).commit (benchRounds cfg random t) = some (s.stats t) := by
  have hplace := hinv.place t
  unfold PlaceOk at hplace
  cases hp : s.thread t <;> rw [hp] at hplace <;> simp_all

/-- If the last thread is the last to end, the kernel finds the interval that the program
finds. -/
theorem exit_cost_of_last {xs : List ModuleStats} (hle : ∀ c ∈ xs, c.start ≤ c.endCycle)
    (hne : xs ≠ []) (hlast : ∀ c ∈ xs, c.endCycle ≤ (xs.getLast hne).endCycle) :
    (thletSwitchExit xs).cost = (userMain xs).cost := by
  obtain ⟨hmin, hend⟩ := thletSwitchExit_spec xs hle hne
  obtain ⟨hmin', hmax⟩ := userMain_extrema xs hne
  have hstart : (thletSwitchExit xs).startCycle = (userMain xs).start :=
    IsBest.unique (fun _ _ => UInt64.le_antisymm) hmin hmin'
  rw [cost_eq_iff hstart, hend]
  exact ((isMaxEnd_last_iff hne).mpr hlast).unique hmax

/-- Two threads, with one short round each. -/
def pairConfig : Config :=
  ⟨2, 1, 1, of_decide_eq_true rfl, of_decide_eq_true rfl, of_decide_eq_true rfl,
    of_decide_eq_true rfl, of_decide_eq_true rfl⟩

def oneAfterTheOther (t : Nat) : List BenchAct :=
  List.replicate 3 (.thread t) ++ .tick 1 :: List.replicate 4 (.thread t) ++ .tick 5 ::
    List.replicate 11 (.thread t)

/-- The threads of `pairConfig` measure one after the other, and the module is unloaded. -/
def pairRun : List BenchAct :=
  List.replicate 5 .loader ++ oneAfterTheOther 0 ++ oneAfterTheOther 1 ++ .thread 1 ::
    List.replicate 15 .loader

section Results
variable {now : UInt64} {recording : Bool} {sums : SwitchStatsSum} {r : Report}

/-- Whatever the interleaving, the report is what `thlet_switch_exit` computes from the final
records of all threads. In each record the computation fits into the interval, and the thread
has executed two `nop`s more than the `total` it commits. -/
theorem report_of_final_records
    (hrun : Runs (benchMachine cfg random) (fun s a => a.Admits NoWrap s)
      (.init now recording sums) tr s)
    (hr : .report r ∈ tr) :
    (∃ sums, exitReport cfg.threads (thletSwitchExit (s.records cfg.threads)) sums = some r) ∧
    ∀ t < cfg.threads, (s.stats t).start ≤ (s.stats t).endCycle ∧
      (s.stats t).pureComputation ≤ (s.stats t).endCycle - (s.stats t).start ∧
      (s.stats t).total = iterCnt cfg.loops (random t) (cfg.iters - 1) ∧
      tr.count (.nop ⟨t⟩) = (s.stats t).total.toNat + 2 := by
  obtain ⟨hinv, hreported⟩ := bench_of_runs hrun
  obtain ⟨hfin, hreport⟩ := hreported r hr
  refine ⟨hreport, fun t ht => ?_⟩
  have hmeasures := measures_of_runs hrun
  obtain ⟨-, htimed⟩ := timed_of_runs now.toNat_lt hmeasures
  obtain ⟨hcounted, hcnt⟩ := counted_of_runs (fun t => steps_rounds cfg (random t)) hmeasures t
  have hcommit := hinv.commit (hfin t ht)
  obtain ⟨hse, hpure⟩ := commit_timed hcommit (htimed t)
  obtain ⟨f, e, -, hrecord⟩ := commit_eq_some hcommit
  refine ⟨hse, hpure, by rw [hrecord]; rfl, ?_⟩
  rw [count_nop, hcnt]
  exact commit_counted hcommit cfg.iters_pos hcounted

theorem report_of_final_records_pair :
    ∃ (tr : List BenchEvent) (s : Bench), .report ⟨2, 12, 83, 0, 0, 0⟩ ∈ tr ∧
      ∃ sums, exitReport 2 (thletSwitchExit (s.records 2)) sums = some ⟨2, 12, 83, 0, 0, 0⟩ := by
  obtain ⟨tr, s, hrun, hr⟩ := (benchMachine pairConfig fun _ _ => 0).exec_reaches
    (fun s a => a.Admits NoWrap s) (.init 7 false ⟨0, 0, 0, 0, 0⟩) pairRun
    (fun tr _ => decide (.report ⟨2, 12, 83, 0, 0, 0⟩ ∈ tr)) (by decide +kernel)
  exact ⟨tr, s, by simpa using hr, (report_of_final_records hrun (by simpa using hr)).1⟩

theorem getLast_records {n : Nat} (hne : s.records n ≠ []) :
    (s.records n).getLast hne = s.stats (n - 1) := by
  simp [Bench.records]

theorem report_pure_le {xs : List ModuleStats} {threads : Nat}
    (hr : exitReport threads (thletSwitchExit xs) sums = some r)
    (hle : (xs.map fun c => c.pureComputation.toNat).sum ≤ (thletSwitchExit xs).cost.toNat) :
    r.pure.toNat ≤ 100 := by
  unfold exitReport at hr
  split at hr
  · simp at hr
  · obtain rfl := Option.some.inj hr
    have hpure : (thletSwitchExit xs).pure.toNat ≤ (thletSwitchExit xs).cost.toNat := by
      rw [toNat_pure_exit]
      exact Nat.le_trans (Nat.mod_le _ _) hle
    simp only [UInt64.toNat_div, UInt64.toNat_mul]
    apply Nat.div_le_of_le_mul
    refine Nat.le_trans (Nat.mod_le _ _) ?_
    exact Nat.mul_le_mul_right 100 hpure

/-- If the core is never taken from a thread that is computing and the cycle counter does not wrap
around, the threads together have computed for at most the length of the interval from the first
start to the last end, and the percentage that is printed is one, provided that the last thread is
the last to end. -/
theorem pure_within_interval
    (hrun : Runs (benchMachine cfg random) (fun s a => a.Admits (Undisturbed cfg.threads) s)
      (.init now recording sums) tr s)
    (hr : .report r ∈ tr) :
    ((s.records cfg.threads).map fun c => c.pureComputation.toNat).sum ≤
      (userMain (s.records cfg.threads)).cost.toNat ∧
    ((∀ t < cfg.threads, (s.stats t).endCycle ≤ (s.stats (cfg.threads - 1)).endCycle) →
      r.pure.toNat ≤ 100) := by
  obtain ⟨hinv, hreported⟩ := bench_of_runs hrun
  obtain ⟨hfin, sums', hreport⟩ := hreported r hr
  have hpacked := packed_of_runs now.toNat_lt (measures_of_runs hrun)
  have hcommit : ∀ t < cfg.threads,
      (s.measuring.thread t).commit (benchRounds cfg random t) = some (s.stats t) :=
    fun t ht => hinv.commit (hfin t ht)
  have hsum := pureSum_le_cost hpacked cfg.threads_pos hcommit
  rw [pureSum_commit hcommit] at hsum
  refine ⟨hsum, fun hlast => report_pure_le hreport ?_⟩
  have hne : s.records cfg.threads ≠ [] := by
    simpa [Bench.records] using cfg.threads_pos.ne'
  have hmem : ∀ c ∈ s.records cfg.threads, ∃ t < cfg.threads, s.stats t = c := by
    simp [Bench.records]
  have hcost : (thletSwitchExit (s.records cfg.threads)).cost =
      (userMain (s.records cfg.threads)).cost := by
    refine exit_cost_of_last (fun c hc => ?_) hne fun c hc => ?_
    · obtain ⟨t, ht, rfl⟩ := hmem c hc
      exact (commit_timed (hcommit t ht) (hpacked.timed t)).1
    · obtain ⟨t, ht, rfl⟩ := hmem c hc
      rw [getLast_records]
      exact hlast t ht
  rw [hcost]
  exact hsum

theorem pure_within_interval_pair :
    ∃ (s : Bench), (s.stats 0).endCycle = 13 ∧ (s.stats 1).endCycle = 19 ∧
      ((s.records 2).map fun c => c.pureComputation.toNat).sum ≤
        (userMain (s.records 2)).cost.toNat := by
  obtain ⟨tr, s, hrun, hend⟩ := (benchMachine pairConfig fun _ _ => 0).exec_reaches
    (fun s a => a.Admits (Undisturbed 2) s) (.init 7 false ⟨0, 0, 0, 0, 0⟩) pairRun
    (fun tr s => decide (.report ⟨2, 12, 83, 0, 0, 0⟩ ∈ tr) && (s.stats 0).endCycle == 13 &&
      (s.stats 1).endCycle == 19) (by decide +kernel)
  simp only [Bool.and_eq_true, decide_eq_true_eq, beq_iff_eq] at hend
  obtain ⟨⟨hr, h0⟩, h1⟩ := hend
  exact ⟨s, h0, h1, (pure_within_interval hrun hr).1⟩

end Results

end ThletEvaluation.Switch
