import ThletEvaluation.Switch.Exit

/-!
# When the patched kernel records

`cpu_thlet_switch_start` is set by every thread before it measures and cleared by a thread that
finds `finish_cnt` to be the number of threads. The counter is loaded and stored in two steps, so
that a thread can overwrite the count of another. This loses counts but never invents one.
-/

namespace ThletEvaluation.Switch

open Run Threads

set_option autoImplicit false

variable {cfg : Config} {random : Nat → Nat → UInt64} {s s' : Bench} {t : Nat} {act : BenchAct}
variable {tr es : List BenchEvent}

/-- Before the store that sets the flag. -/
def ThreadPlace.early : ThreadPlace → Bool
  | .absent | .waiting | .enabling => true
  | _ => false

/-- One for a thread that has stored its count. -/
def ThreadPlace.counted : ThreadPlace → Nat
  | .storing _ _ | .checking | .disabling | .returned => 1
  | _ => 0

/-- Has stored its count and still has to look at the counter, or to clear the flag. -/
def ThreadPlace.ending : ThreadPlace → Bool
  | .storing _ _ | .checking | .disabling => true
  | _ => false

/-- The exit has cleared the flag. -/
def LoaderPlace.off : LoaderPlace → Bool
  | .zeroing | .unloaded => true
  | _ => false

def Bench.counted (cfg : Config) (s : Bench) : Nat :=
  total cfg.threads (fun _ p => p.counted) s.thread

theorem ThreadPlace.counted_le (p : ThreadPlace) : p.counted ≤ 1 := by
  cases p <;> simp [ThreadPlace.counted]

theorem sum_ones (n : Nat) : ∑ _v ∈ Finset.range n, 1 = n :=
  (Finset.card_eq_sum_ones _).symm.trans (Finset.card_range n)

theorem counted_le : s.counted cfg ≤ cfg.threads :=
  Nat.le_trans (total_le fun v _ => (s.thread v).counted_le) (sum_ones cfg.threads).le

theorem counted_lt (ht : t < cfg.threads) (hp : (s.thread t).counted = 0) :
    s.counted cfg < cfg.threads := by
  refine Nat.lt_of_lt_of_le
    (total_lt (fun v _ => (s.thread v).counted_le) ht (by rw [hp]; exact Nat.one_pos)) ?_
  exact (sum_ones cfg.threads).le

theorem counted_of_finished (hinv : BenchInv cfg random s)
    (hfin : ∀ j < cfg.threads, s.finished j = true) : s.counted cfg = cfg.threads := by
  have htotal : s.counted cfg = ∑ _v ∈ Finset.range cfg.threads, 1 := by
    refine total_eq fun v hv => ?_
    have hplace := hinv.place v
    unfold PlaceOk at hplace
    cases hp : s.thread v <;> rw [hp] at hplace <;> simp_all [ThreadPlace.counted]
  rw [htotal, sum_ones]

theorem counted_goto (ht : t < cfg.threads) (p : ThreadPlace) :
    (s.goto t p).counted cfg + (s.thread t).counted = s.counted cfg + p.counted :=
  total_update (fun _ q => q.counted) s.thread p ht

theorem BenchInv.lt (hinv : BenchInv cfg random s) (ht : s.thread t ≠ .absent) :
    t < cfg.threads := by
  have hcreated : s.loader.created cfg.threads ≤ cfg.threads := by
    have hok := hinv.loader
    unfold LoaderOk at hok
    cases hp : s.loader <;> rw [hp] at hok <;> simp_all [LoaderPlace.created]
  have habsent := mt (hinv.absent t).mpr ht
  omega

theorem BenchInv.finished_of_off (hinv : BenchInv cfg random s) (hoff : s.loader.off = true) :
    ∀ j < cfg.threads, s.finished j = true := by
  have hok := hinv.loader
  unfold LoaderOk at hok
  cases hp : s.loader with
  | zeroing | unloaded =>
    rw [hp] at hok
    exact hok
  | _ => simp [hp, LoaderPlace.off] at hoff

/-- The counter is at most the number of threads that have counted. The flag is off only while no
thread has set it yet or when all have counted, and then it is the last of them, or the exit, that
has cleared it. -/
structure FlagOk (cfg : Config) (s : Bench) : Prop where
  le : s.finishCnt.toNat ≤ s.counted cfg
  loaded : ∀ t r c, s.thread t = .counting r c → c.toNat ≤ s.counted cfg
  off : s.recording = false → (∀ t, (s.thread t).early = true) ∨
    (s.counted cfg = cfg.threads ∧ (s.finishCnt.toNat = cfg.threads ∨ s.loader.off = true))
  full : s.finishCnt.toNat = cfg.threads →
    s.recording = false ∨ ∃ t, (s.thread t).ending = true
  disabling : ∀ t, s.thread t = .disabling → s.finishCnt.toNat = cfg.threads
  after : s.loader.off = true → s.recording = false

/-- While a thread that has not counted is past the store that sets the flag, it is set. -/
theorem FlagOk.on (h : FlagOk cfg s) (ht : t < cfg.threads) (hp : (s.thread t).counted = 0)
    (hearly : (s.thread t).early = false) : s.recording = true := by
  by_contra hrec
  have hlt := counted_lt ht hp
  rcases h.off (by simpa using hrec) with hall | ⟨hcounted, -⟩
  · simp [hall t] at hearly
  · omega

theorem FlagOk.not_full (h : FlagOk cfg s) (ht : t < cfg.threads)
    (hp : (s.thread t).counted = 0) : s.finishCnt.toNat ≠ cfg.threads := by
  have hlt := counted_lt ht hp
  have hle := h.le
  omega

/-- A thread goes on without storing anything that is shared. -/
theorem FlagOk.goto {p : ThreadPlace} (h : FlagOk cfg s) (ht : t < cfg.threads)
    (hcounted : p.counted = (s.thread t).counted)
    (hearly : (s.thread t).early = true → p.early = true)
    (hloaded : ∀ r c, p = .counting r c → c.toNat ≤ s.counted cfg)
    (hending : s.finishCnt.toNat = cfg.threads → (s.thread t).ending = true → p.ending = true)
    (hdisabling : p = .disabling → s.finishCnt.toNat = cfg.threads) :
    FlagOk cfg (s.goto t p) := by
  have hsame : (s.goto t p).counted cfg = s.counted cfg := by
    have hgoto := counted_goto (s := s) ht p
    omega
  refine ⟨hsame ▸ h.le, fun u r c hu => ?_, fun hrec => ?_, fun hfull => ?_, fun u hu => ?_,
    h.after⟩
  · rw [hsame]
    by_cases hut : u = t
    · subst hut
      exact hloaded r c (by simpa [Bench.goto] using hu)
    · exact h.loaded u r c (by simpa [Bench.goto, hut] using hu)
  · rw [hsame]
    refine (h.off hrec).imp (fun hall u => ?_) id
    by_cases hut : u = t
    · subst hut
      simpa [Bench.goto] using hearly (hall u)
    · simpa [Bench.goto, hut] using hall u
  · rcases h.full hfull with hrec | ⟨u, hu⟩
    · exact .inl hrec
    · right
      by_cases hut : u = t
      · subst hut
        exact ⟨u, by simpa [Bench.goto] using hending hfull hu⟩
      · exact ⟨u, by simpa [Bench.goto, hut] using hu⟩
  · by_cases hut : u = t
    · subst hut
      exact hdisabling (by simpa [Bench.goto] using hu)
    · exact h.disabling u (by simpa [Bench.goto, hut] using hu)

theorem toNat_threads (cfg : Config) : (UInt64.ofNat cfg.threads).toNat = cfg.threads :=
  toNat_now cfg.threads_lt

theorem eq_threads_iff : s.finishCnt = UInt64.ofNat cfg.threads ↔
    s.finishCnt.toNat = cfg.threads := by
  rw [← UInt64.toNat_inj, toNat_threads]

theorem flagOk_enable (h : FlagOk cfg s) (ht : t < cfg.threads) (hp : s.thread t = .enabling)
    (hoff : s.loader.off = false) : FlagOk cfg { s.goto t .measuring with recording := true } := by
  have hnot := h.not_full ht (by rw [hp]; rfl)
  have hsame : (s.goto t .measuring).counted cfg = s.counted cfg := by
    have hgoto := counted_goto (s := s) ht .measuring
    rw [hp] at hgoto
    exact hgoto
  refine ⟨?_, fun u r c hu => ?_, by simp, fun hfull => absurd hfull hnot, fun u hu => ?_, ?_⟩
  · exact hsame ▸ h.le
  · by_cases hut : u = t
    · simp [hut, Bench.goto] at hu
    · exact hsame ▸ h.loaded u r c (by simpa [Bench.goto, hut] using hu)
  · by_cases hut : u = t
    · simp [hut, Bench.goto] at hu
    · exact h.disabling u (by simpa [Bench.goto, hut] using hu)
  · intro hgone
    rw [show s.loader.off = true from hgone] at hoff
    simp at hoff

/-- The store of a count: what was loaded can be too low by now, but not too high. -/
theorem flagOk_count {r : ModuleStats} {c : UInt64} (h : FlagOk cfg s) (ht : t < cfg.threads)
    (hp : s.thread t = .counting r c) :
    FlagOk cfg { s.goto t (.storing r StatField.stores) with finishCnt := c + 1 } := by
  have hzero : (s.thread t).counted = 0 := by rw [hp]; rfl
  have hon := h.on ht hzero (by rw [hp]; rfl)
  have hlt := counted_lt ht hzero
  have hc := h.loaded t r c hp
  have hmore : (s.goto t (.storing r StatField.stores)).counted cfg = s.counted cfg + 1 := by
    have hgoto := counted_goto (s := s) ht (.storing r StatField.stores)
    rw [hzero] at hgoto
    exact hgoto
  have hbound := cfg.threads_lt
  have hsucc : (c + 1).toNat = c.toNat + 1 := toNat_succ (by omega)
  refine ⟨?_, fun u r' c' hu => ?_, fun hrec => ?_, fun _ => .inr ⟨t, ?_⟩, fun u hu => ?_,
    h.after⟩
  · simp only [Bench.counted] at hmore ⊢
    rw [hmore, hsucc]
    exact Nat.succ_le_succ hc
  · simp only [Bench.counted] at hmore ⊢
    rw [hmore]
    by_cases hut : u = t
    · simp [hut, Bench.goto] at hu
    · exact Nat.le_succ_of_le (h.loaded u r' c' (by simpa [Bench.goto, hut] using hu))
  · simp [show s.recording = false from hrec] at hon
  · simp [Bench.goto, ThreadPlace.ending]
  · by_cases hut : u = t
    · simp [hut, Bench.goto] at hu
    · have hfull := h.disabling u (by simpa [Bench.goto, hut] using hu)
      exact absurd hfull (h.not_full ht hzero)

theorem FlagOk.congr (h : FlagOk cfg s) (hthread : s'.thread = s.thread)
    (hcnt : s'.finishCnt = s.finishCnt) (hrec : s'.recording = s.recording)
    (hloader : s'.loader = s.loader) : FlagOk cfg s' := by
  have hcounted : s'.counted cfg = s.counted cfg := by rw [Bench.counted, hthread]; rfl
  refine ⟨?_, ?_, ?_, ?_, ?_, ?_⟩
  · rw [hcnt, hcounted]
    exact h.le
  · rw [hthread, hcounted]
    exact h.loaded
  · rw [hrec, hthread, hcounted, hcnt, hloader]
    exact h.off
  · rw [hcnt, hrec, hthread]
    exact h.full
  · rw [hthread, hcnt]
    exact h.disabling
  · rw [hloader, hrec]
    exact h.after

theorem flagOk_disable (h : FlagOk cfg s) (ht : t < cfg.threads) (hp : s.thread t = .disabling) :
    FlagOk cfg { s.goto t .returned with recording := false } := by
  have hfull := h.disabling t hp
  have hcounted : s.counted cfg = cfg.threads :=
    Nat.le_antisymm counted_le (hfull ▸ h.le)
  have hsame : (s.goto t .returned).counted cfg = s.counted cfg := by
    have hgoto := counted_goto (s := s) ht .returned
    rw [hp] at hgoto
    exact Nat.add_right_cancel hgoto
  refine ⟨hsame ▸ h.le, fun u r c hu => ?_, fun _ => .inr ⟨hsame.trans hcounted, .inl hfull⟩,
    fun _ => .inl rfl, fun u hu => ?_, fun _ => rfl⟩
  · by_cases hut : u = t
    · simp [hut, Bench.goto] at hu
    · exact hsame ▸ h.loaded u r c (by simpa [Bench.goto, hut] using hu)
  · by_cases hut : u = t
    · simp [hut, Bench.goto] at hu
    · exact hfull

theorem flagOk_thread (hinv : BenchInv cfg random s) (h : FlagOk cfg s)
    (hmove : ThreadMove cfg random s t s' es) : FlagOk cfg s' := by
  have ht : s.thread t ≠ .absent → t < cfg.threads := hinv.lt
  cases hmove with
  | release hp hreleased =>
    exact h.goto (ht (by simp [hp])) (by rw [hp]; rfl) (fun _ => rfl) (by simp)
      (by simp [hp, ThreadPlace.ending]) (by simp)
  | enable hp =>
    refine flagOk_enable h (ht (by simp [hp])) hp ?_
    by_contra hoff
    have hfin := hinv.finished_of_off (by simpa using hoff) t (ht (by simp [hp]))
    have hplace := hinv.place t
    unfold PlaceOk at hplace
    rw [hp] at hplace
    simp [hplace.2] at hfin
  | measure hp hm => exact h.congr rfl rfl rfl rfl
  | load hp hr =>
    refine h.goto (ht (by simp [hp])) (by rw [hp]; rfl) (by simp [hp, ThreadPlace.early]) ?_
      (by simp [hp, ThreadPlace.ending]) (by simp)
    rintro r c hrc
    obtain ⟨-, rfl⟩ := by simpa using hrc
    exact h.le
  | count hp => exact flagOk_count h (ht (by simp [hp])) hp
  | @store r field todo hp =>
    have hnew : FlagOk cfg (s.goto t (.storing r todo)) :=
      h.goto (ht (by simp [hp])) (by rw [hp]; rfl) (by simp [hp, ThreadPlace.early]) (by simp)
        (fun _ _ => rfl) (by simp)
    exact hnew.congr rfl rfl rfl rfl
  | finish hp =>
    have hnew : FlagOk cfg (s.goto t .checking) :=
      h.goto (ht (by simp [hp])) (by rw [hp]; rfl) (by simp [hp, ThreadPlace.early]) (by simp)
        (fun _ _ => rfl) (by simp)
    exact hnew.congr rfl rfl rfl rfl
  | last hp hcnt =>
    exact h.goto (ht (by simp [hp])) (by rw [hp]; rfl) (by simp [hp, ThreadPlace.early]) (by simp)
      (fun _ _ => rfl) (fun _ => eq_threads_iff.mp hcnt)
  | pass hp hcnt =>
    exact h.goto (ht (by simp [hp])) (by rw [hp]; rfl) (by simp [hp, ThreadPlace.early]) (by simp)
      (fun hfull => absurd (eq_threads_iff.mpr hfull) hcnt) (by simp)
  | disable hp => exact flagOk_disable h (ht (by simp [hp])) hp

theorem flagOk_init (now : UInt64) (recording : Bool) (sums : SwitchStatsSum) :
    FlagOk cfg (.init now recording sums) where
  le := Nat.zero_le _
  loaded t r c h := by simp [Bench.init] at h
  off _ := .inl fun _ => rfl
  full h := absurd h cfg.threads_pos.ne
  disabling t h := by simp [Bench.init] at h
  after h := by simp [Bench.init, LoaderPlace.off] at h

/-- The loader goes on without storing anything that is shared. -/
theorem FlagOk.enter {p : LoaderPlace} (h : FlagOk cfg s) (hoff : p.off = s.loader.off) :
    FlagOk cfg (s.enter p) where
  le := h.le
  loaded := h.loaded
  off hrec := (h.off hrec).imp id (.imp id fun hlast => hoff ▸ hlast)
  full := h.full
  disabling := h.disabling
  after hgone := h.after (hoff ▸ hgone)

theorem flagOk_loader (hinv : BenchInv cfg random s) (h : FlagOk cfg s)
    (hmove : LoaderMove cfg s s' es) : FlagOk cfg s' := by
  cases hmove with
  | clear hp =>
    have hearly : ∀ t, (s.thread t).early = true := fun t => by
      rw [(hinv.absent t).mpr (by rw [hp]; exact Nat.zero_le t)]
      rfl
    exact ⟨h.le, h.loaded, fun _ => .inl hearly, fun hfull => .inl rfl, h.disabling, fun _ => rfl⟩
  | @create i hp hi =>
    have habsent : s.thread i = .absent :=
      (hinv.absent i).mpr (by rw [hp]; exact Nat.le_refl i)
    have hnew : FlagOk cfg (s.goto i .waiting) :=
      h.goto hi (by rw [habsent]; rfl) (fun _ => rfl) (by simp)
        (by simp [habsent, ThreadPlace.ending]) (by simp)
    have hnext := hnew.enter (p := .creating (i + 1)) (by simp [Bench.goto, hp, LoaderPlace.off])
    exact hnext.congr rfl rfl rfl rfl
  | release hp =>
    have hnew := h.enter (p := .loaded) (by rw [hp]; rfl)
    exact hnew.congr rfl rfl rfl rfl
  | disable hp =>
    have hok := hinv.loader
    unfold LoaderOk at hok
    rw [hp] at hok
    have hcounted := counted_of_finished hinv hok
    exact ⟨h.le, h.loaded, fun _ => .inr ⟨hcounted, .inr rfl⟩, fun _ => .inl rfl, h.disabling,
      fun _ => rfl⟩
  | zero hp =>
    have hnew := h.enter (p := .unloaded) (by rw [hp]; rfl)
    exact hnew.congr rfl rfl rfl rfl
  | created hp hi | exit hp | await hp hi hfin | read hp | add hp | summed hp hi | report hp hr
  | divide hp hr => exact h.enter (by rw [hp]; rfl)

theorem flagOk_of_runs {ok : Bench → BenchAct → Prop} {now : UInt64} {recording : Bool}
    {sums : SwitchStatsSum}
    (h : Runs (benchMachine cfg random) ok (.init now recording sums) tr s) :
    BenchInv cfg random s ∧ FlagOk cfg s := by
  refine h.invariant (I := fun _ s => BenchInv cfg random s ∧ FlagOk cfg s)
    ⟨benchInv_init now recording sums, flagOk_init now recording sums⟩ ?_
  rintro tr es s s' act ⟨hinv, hflag⟩ - hstep
  refine ⟨benchInv_step hinv hstep, ?_⟩
  cases act with
  | tick d | kernel sums =>
    obtain ⟨rfl, -⟩ : _ = s' ∧ _ := by
      simpa [benchMachine, Bench.step] using hstep
    exact hflag.congr rfl rfl rfl rfl
  | thread t => exact flagOk_thread hinv hflag (threadStep_move hstep)
  | loader => exact flagOk_loader hinv hflag (loaderStep_move hstep)

/-- A thread that is measuring is past the store that sets the flag and has not counted. -/
theorem BenchInv.running (hinv : BenchInv cfg random s)
    (ht : (s.measuring.thread t).running = true) : s.thread t = .measuring := by
  have hplace := hinv.place t
  unfold PlaceOk at hplace
  have hcommit : ∀ c, (s.measuring.thread t).commit (benchRounds cfg random t) ≠ some c := by
    intro c hc
    obtain ⟨f, e, hm, -⟩ := commit_eq_some hc
    simp [hm, Measure.running] at ht
  cases hp : s.thread t with
  | measuring => rfl
  | absent | waiting | enabling =>
    rw [hp] at hplace
    simp [hplace.1, Measure.running] at ht
  | counting r c | storing r todo | checking | disabling | returned =>
    rw [hp] at hplace
    exact absurd hplace.1 (hcommit _)

/-- The flag is set whenever a thread is between its readings of `start_cycle` and `end_cycle`,
whatever the interleaving, and clear when the module has been unloaded. Once all threads have
returned, and before the exit clears it, it is clear exactly if no count has been lost. -/
theorem recording_covers_measurement {ok : Bench → BenchAct → Prop} {now : UInt64}
    {recording : Bool} {sums : SwitchStatsSum}
    (hrun : Runs (benchMachine cfg random) ok (.init now recording sums) tr s) :
    (∀ t, (s.measuring.thread t).running = true → s.recording = true) ∧
    (s.loader = .unloaded → s.recording = false) ∧
    ((∀ t < cfg.threads, s.thread t = .returned) → s.loader.off = false →
      (s.recording = false ↔ s.finishCnt = UInt64.ofNat cfg.threads)) := by
  obtain ⟨hinv, hflag⟩ := flagOk_of_runs hrun
  refine ⟨fun t ht => ?_, fun hgone => hflag.after (by rw [hgone]; rfl), fun hall hoff => ?_⟩
  · have hp := hinv.running ht
    exact hflag.on (hinv.lt (t := t) (by simp [hp])) (by rw [hp]; rfl) (by rw [hp]; rfl)
  · rw [eq_threads_iff]
    constructor
    · intro hrec
      rcases hflag.off hrec with hearly | ⟨-, hfull | hgone⟩
      · have hzero := hearly 0
        simp [hall 0 cfg.threads_pos, ThreadPlace.early] at hzero
      · exact hfull
      · simp [hgone] at hoff
    · intro hfull
      rcases hflag.full hfull with hrec | ⟨t, ht⟩
      · exact hrec
      · have hlt := hinv.lt (t := t) (fun habsent => by simp [habsent, ThreadPlace.ending] at ht)
        simp [hall t hlt, ThreadPlace.ending] at ht

/-- Thread 1 counts while thread 0 is about to store what it has loaded before. -/
def lostCountRun : List BenchAct :=
  List.replicate 5 .loader ++ List.replicate 11 (.thread 0) ++ oneAfterTheOther 1 ++
    List.replicate 7 (.thread 0)

/-- The second count is lost, and the flag stays set. -/
theorem recording_covers_measurement_lost : ∃ s : Bench, s.finishCnt = 1 ∧
    (s.recording = false ↔ s.finishCnt = UInt64.ofNat 2) := by
  obtain ⟨tr, s, hrun, hend⟩ := (benchMachine pairConfig fun _ _ => 0).exec_reaches
    (fun _ _ => True) (.init 7 false ⟨0, 0, 0, 0, 0⟩) lostCountRun
    (fun _ s => decide (∀ t : Nat, t < 2 → s.thread t = .returned) && s.loader.off == false &&
      s.finishCnt == 1) (by decide +kernel)
  simp only [Bool.and_eq_true, decide_eq_true_eq, beq_iff_eq] at hend
  obtain ⟨⟨hall, hoff⟩, hcnt⟩ := hend
  exact ⟨s, hcnt, (recording_covers_measurement hrun).2.2 hall hoff⟩

end ThletEvaluation.Switch
