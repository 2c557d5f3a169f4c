import ThletEvaluation.Switch.Recording
import ThletEvaluation.Switch.User

/-!
# What the benchmark program reports

A thread says that it has finished before it stores its record, but nobody looks at that: `main`
joins the threads. The counter of the threads is atomic, so that no count is lost, and the last
thread stops the recording. What is copied afterwards, even by several parties at once, is what
the kernel has recorded.
-/

namespace ThletEvaluation.Switch

open Run Threads Loop

set_option autoImplicit false

variable {cfg : Config} {random : Nat → Nat → UInt64} {s s' : UserBench} {t : Nat} {act : UserAct}
variable {tr es : List UserEvent}

/-! ## The records -/

def UserPlaceOk (cfg : Config) (random : Nat → Nat → UInt64) (s : UserBench) (t : Nat) : Prop :=
  match s.thread t with
  | .absent | .waiting => s.measuring.thread t = .idle
  | .measuring => True
  | .storing r todo =>
    (s.measuring.thread t).commit (benchRounds cfg random t) = some r ∧
      ∀ field, field ∉ todo → field.get (s.stats t) = field.get r
  | .counting | .checking | .disabling | .copying _ | .returned =>
    (s.measuring.thread t).commit (benchRounds cfg random t) = some (s.stats t)

def UserBench.records (s : UserBench) (i : Nat) : List ModuleStats := (List.range i).map s.stats

/-- How many threads have been created. -/
def MainPlace.created (n : Nat) : MainPlace → Nat
  | .creating i | .failed i => i
  | _ => n

def UserBench.Joined (s : UserBench) (i : Nat) (u : UserSums) : Prop :=
  (∀ j < i, s.thread j = .returned) ∧ u = userMain (s.records i)

def MainOk (cfg : Config) (s : UserBench) : Prop :=
  match s.main with
  | .creating i | .failed i => i ≤ cfg.threads
  | .clearing _ | .enabling | .releasing => True
  | .joining i u => i ≤ cfg.threads ∧ s.Joined i u
  | .disabling u | .copying u _ | .printing u => s.Joined cfg.threads u
  | .exited => ∀ j < cfg.threads, s.thread j = .returned

structure UserInv (cfg : Config) (random : Nat → Nat → UInt64) (s : UserBench) : Prop where
  place : ∀ t, UserPlaceOk cfg random s t
  absent : ∀ t, s.thread t = .absent ↔ s.main.created cfg.threads ≤ t
  main : MainOk cfg s

theorem UserInv.lt (hinv : UserInv cfg random s) (ht : s.thread t ≠ .absent) :
    t < cfg.threads := by
  have hcreated : s.main.created cfg.threads ≤ cfg.threads := by
    have hok := hinv.main
    unfold MainOk at hok
    cases hp : s.main <;> rw [hp] at hok <;> simp_all [MainPlace.created]
  have habsent := mt (hinv.absent t).mpr ht
  omega

theorem UserPlaceOk.congr (h : UserPlaceOk cfg random s t) (hthread : s'.thread t = s.thread t)
    (hmeasuring : s'.measuring.thread t = s.measuring.thread t)
    (hstats : s'.stats t = s.stats t) : UserPlaceOk cfg random s' t := by
  unfold UserPlaceOk at h ⊢
  rwa [hthread, hmeasuring, hstats]

theorem userThreadMove_frame {u : Nat} (h : UserThreadMove cfg random s t s' es) (hu : u ≠ t) :
    s'.thread u = s.thread u ∧ s'.measuring.thread u = s.measuring.thread u ∧
      s'.stats u = s.stats u := by
  cases h with
  | measure hp hm =>
    rcases measuring_step_cases hm with ⟨d, hact, -⟩ | ⟨t', m', hact, -, -, hm', -⟩
    · simp at hact
    · obtain rfl : t = t' := by simpa using hact
      simp [hm', hu]
  | _ => simp [UserBench.goto, hu]

theorem userPlaceOk_move (h : UserPlaceOk cfg random s t)
    (hmove : UserThreadMove cfg random s t s' es) : UserPlaceOk cfg random s' t := by
  unfold UserPlaceOk at h
  cases hmove with
  | release hp hreleased => simp [UserPlaceOk, UserBench.goto]
  | measure hp hm => simp [UserPlaceOk, hp]
  | finish hp hr =>
    simp only [UserPlaceOk, UserBench.goto, Function.update_self]
    exact ⟨hr, fun field hfield => absurd (by cases field <;> simp [StatField.stores]) hfield⟩
  | @store r field todo hp =>
    rw [hp] at h
    obtain ⟨hr, hdone⟩ := h
    simp only [UserPlaceOk, UserBench.goto, Function.update_self]
    refine ⟨hr, fun field' hfield' => ?_⟩
    rw [StatField.get_set]
    split
    case isTrue heq => rw [heq]
    case isFalse hne => exact hdone field' (by simp [hne, hfield'])
  | stored hp =>
    rw [hp] at h
    obtain ⟨hr, hdone⟩ := h
    simp only [UserPlaceOk, UserBench.goto, Function.update_self]
    rw [hr, StatField.ext fun field => (hdone field (by simp)).symm]
  | count hp | last hp hcnt | pass hp hcnt | disable hp | copy hp | copied hp =>
    rw [hp] at h
    simpa [UserPlaceOk, UserBench.goto] using h

theorem userThreadMove_main (h : UserThreadMove cfg random s t s' es) : s'.main = s.main := by
  cases h <;> rfl

/-- A thread that goes on has not returned, and is there before and afterwards. -/
theorem userThreadMove_there (h : UserThreadMove cfg random s t s' es) :
    s.thread t ≠ .returned ∧ s.thread t ≠ .absent ∧ s'.thread t ≠ .absent := by
  cases h <;> simp [*, UserBench.goto]

/-- The records of the threads that have returned stay as they are. -/
def UserSettled (s s' : UserBench) : Prop :=
  ∀ j, s.thread j = .returned → s'.thread j = .returned ∧ s'.stats j = s.stats j

theorem userSettled_of_threadMove (h : UserThreadMove cfg random s t s' es) :
    UserSettled s s' := by
  intro u hu
  have hne : u ≠ t := by
    rintro rfl
    exact (userThreadMove_there h).1 hu
  obtain ⟨hthread, -, hstats⟩ := userThreadMove_frame h hne
  exact ⟨hthread ▸ hu, hstats⟩

theorem UserBench.Joined.settled {i : Nat} {u : UserSums} (h : s.Joined i u)
    (hsettled : UserSettled s s') : s'.Joined i u := by
  have hrecords : s'.records i = s.records i :=
    List.map_congr_left fun j hj => (hsettled j (h.1 j (List.mem_range.mp hj))).2
  exact ⟨fun j hj => (hsettled j (h.1 j hj)).1, by rw [hrecords]; exact h.2⟩

theorem MainOk.congr (h : MainOk cfg s) (hmain : s'.main = s.main) (hsettled : UserSettled s s') :
    MainOk cfg s' := by
  unfold MainOk at h ⊢
  rw [hmain]
  cases hp : s.main with
  | creating i | failed i | clearing todo | enabling | releasing =>
    rw [hp] at h
    exact h
  | joining i u =>
    rw [hp] at h
    exact ⟨h.1, h.2.settled hsettled⟩
  | disabling u | copying u todo | printing u =>
    rw [hp] at h
    exact UserBench.Joined.settled h hsettled
  | exited =>
    rw [hp] at h
    exact fun j hj => (hsettled j (h j hj)).1

theorem userInv_thread (hinv : UserInv cfg random s) (h : UserThreadMove cfg random s t s' es) :
    UserInv cfg random s' where
  place u := by
    by_cases hu : u = t
    · subst hu
      exact userPlaceOk_move (hinv.place u) h
    · obtain ⟨hthread, hmeasuring, hstats⟩ := userThreadMove_frame h hu
      exact (hinv.place u).congr hthread hmeasuring hstats
  absent u := by
    rw [userThreadMove_main h, ← hinv.absent u]
    by_cases hu : u = t
    · subst hu
      obtain ⟨-, hthere, hthere'⟩ := userThreadMove_there h
      exact iff_of_false hthere' hthere
    · rw [(userThreadMove_frame h hu).1]
  main := hinv.main.congr (userThreadMove_main h) (userSettled_of_threadMove h)

/-- Where `main` only goes on, the threads see nothing of it. -/
theorem UserInv.enter {p : MainPlace} (hinv : UserInv cfg random s)
    (hcreated : p.created cfg.threads = s.main.created cfg.threads)
    (hmain : MainOk cfg (s.enter p)) : UserInv cfg random (s.enter p) where
  place := hinv.place
  absent t := by rw [UserBench.enter, hcreated]; exact hinv.absent t
  main := hmain

theorem UserInv.congr (hinv : UserInv cfg random s) (hthread : s'.thread = s.thread)
    (hmeasuring : s'.measuring.thread = s.measuring.thread) (hstats : s'.stats = s.stats)
    (hmain : s'.main = s.main) : UserInv cfg random s' where
  place t := (hinv.place t).congr (congrFun hthread t) (congrFun hmeasuring t) (congrFun hstats t)
  absent t := by rw [hthread, hmain, hinv.absent]
  main := hinv.main.congr hmain fun j hj => ⟨hthread ▸ hj, by rw [hstats]⟩

theorem userInv_create {i : Nat} (hinv : UserInv cfg random s) (hp : s.main = .creating i)
    (hi : i < cfg.threads) :
    UserInv cfg random { (s.goto i .waiting).enter (.creating (i + 1)) with
      finished := Function.update s.finished i false } where
  place t := by
    by_cases ht : t = i
    · subst ht
      have habsent : s.thread t = .absent := (hinv.absent t).mpr (by rw [hp]; exact Nat.le_refl t)
      have hidle := hinv.place t
      unfold UserPlaceOk at hidle
      rw [habsent] at hidle
      simpa [UserPlaceOk, UserBench.goto, UserBench.enter] using hidle
    · exact (hinv.place t).congr (by simp [UserBench.goto, UserBench.enter, ht]) rfl rfl
  absent t := by
    have habsent := hinv.absent t
    rw [hp] at habsent
    by_cases ht : t = i
    · subst ht
      simp [UserBench.goto, UserBench.enter, MainPlace.created]
    · simp only [UserBench.goto, UserBench.enter, Function.update_of_ne ht, habsent,
        MainPlace.created]
      omega
  main := hi

theorem userMain_records_succ (i : Nat) :
    userMain (s.records (i + 1)) = userBody i (userMain (s.records i)) (s.stats i) := by
  rw [UserBench.records, List.range_succ, List.map_append, List.map_cons, List.map_nil, userMain,
    foldlIdx_append_singleton, Nat.zero_add]
  simp [UserBench.records, userMain]

theorem userInv_main (hinv : UserInv cfg random s) (h : MainMove cfg s s' es) :
    UserInv cfg random s' := by
  have hok := hinv.main
  unfold MainOk at hok
  cases h with
  | create hp hi => exact userInv_create hinv hp hi
  | fail hp hi => exact hinv.enter (by rw [hp]; rfl) hi.le
  | created hp hi =>
    rw [hp] at hok
    refine hinv.enter ?_ trivial
    rw [hp]
    exact Nat.le_antisymm (Nat.le_of_not_lt hi) hok
  | @clear field todo hp =>
    have hnew := hinv.enter (p := .clearing todo) (by rw [hp]; rfl) trivial
    exact hnew.congr rfl rfl rfl rfl
  | cleared hp => exact hinv.enter (by rw [hp]; rfl) trivial
  | enable hp =>
    have hnew := hinv.enter (p := .releasing) (by rw [hp]; rfl) trivial
    exact hnew.congr rfl rfl rfl rfl
  | release hp =>
    have hnew := hinv.enter (p := .joining 0 ⟨0, 0, 0⟩) (by rw [hp]; rfl)
      ⟨Nat.zero_le _, fun j hj => absurd hj (by simp), rfl⟩
    exact hnew.congr rfl rfl rfl rfl
  | @join i u hp hi hreturned =>
    rw [hp] at hok
    obtain ⟨-, hbelow, hu⟩ := hok
    refine hinv.enter (by rw [hp]; rfl) ⟨hi, fun j hj => ?_, ?_⟩
    · rcases Nat.lt_or_eq_of_le (Nat.le_of_lt_succ hj) with hlt | rfl
      · exact hbelow j hlt
      · exact hreturned
    · rw [hu]
      exact (userMain_records_succ i).symm
  | joined hp hi =>
    rw [hp] at hok
    obtain ⟨hle, hjoined⟩ := hok
    obtain rfl := Nat.le_antisymm hle (Nat.le_of_not_lt hi)
    exact hinv.enter (by rw [hp]; rfl) hjoined
  | @disable u hp =>
    rw [hp] at hok
    have hnew := hinv.enter (p := .copying u KernelField.all) (by rw [hp]; rfl) hok
    exact hnew.congr rfl rfl rfl rfl
  | @copy u field todo hp =>
    rw [hp] at hok
    have hnew := hinv.enter (p := .copying u todo) (by rw [hp]; rfl) hok
    exact hnew.congr rfl rfl rfl rfl
  | copied hp =>
    rw [hp] at hok
    exact hinv.enter (by rw [hp]; rfl) hok
  | print hp =>
    rw [hp] at hok
    exact hinv.enter (by rw [hp]; rfl) hok.1

theorem userInv_step (hinv : UserInv cfg random s)
    (h : s.step cfg random act = some (s', es)) : UserInv cfg random s' := by
  cases act with
  | tick d | kernel field amount =>
    obtain ⟨rfl, -⟩ := by simpa [UserBench.step] using h
    exact hinv.congr rfl rfl rfl rfl
  | thread t =>
    simp only [UserBench.step] at h
    split at h
    · exact userInv_thread hinv (userThreadStep_move h)
    · simp at h
  | main success => exact userInv_main hinv (userMainStep_move h)

theorem userInv_init (now : UInt64) (recording : Bool) (sums : KernelField → UInt64) :
    UserInv cfg random (.init now recording sums) where
  place _ := rfl
  absent t := ⟨fun _ => Nat.zero_le t, fun _ => rfl⟩
  main := Nat.zero_le _

/-! ## The counter and the flag -/

/-- Before the end of the loop that waits for the release. -/
def UserPlace.early : UserPlace → Bool
  | .absent | .waiting => true
  | _ => false

/-- One for a thread that has added itself to the counter. -/
def UserPlace.counted : UserPlace → Nat
  | .checking | .disabling | .copying _ | .returned => 1
  | _ => 0

/-- Has counted and still has to look at the counter, or to clear the flag. -/
def UserPlace.ending : UserPlace → Bool
  | .checking | .disabling => true
  | _ => false

def UserPlace.copying? : UserPlace → Bool
  | .copying _ => true
  | _ => false

/-- `main` has let the threads go. -/
def MainPlace.released : MainPlace → Bool
  | .joining _ _ | .disabling _ | .copying _ _ | .printing _ | .exited => true
  | _ => false

/-- `main` has cleared the flag. -/
def MainPlace.off : MainPlace → Bool
  | .copying _ _ | .printing _ | .exited => true
  | _ => false

def UserBench.counted (cfg : Config) (s : UserBench) : Nat :=
  total cfg.threads (fun _ p => p.counted) s.thread

theorem UserPlace.counted_le (p : UserPlace) : p.counted ≤ 1 := by
  cases p <;> simp [UserPlace.counted]

theorem UserPlace.counted_of_early {p : UserPlace} (h : p.early = true) : p.counted = 0 := by
  cases p <;> first | rfl | simp [UserPlace.early] at h

theorem UserPlace.counted_of_copying {p : UserPlace} (h : p.copying? = true) : p.counted = 1 := by
  cases p <;> first | rfl | simp [UserPlace.copying?] at h

theorem userCounted_lt (ht : t < cfg.threads) (hp : (s.thread t).counted = 0) :
    s.counted cfg < cfg.threads := by
  refine Nat.lt_of_lt_of_le
    (total_lt (fun v _ => (s.thread v).counted_le) ht (by rw [hp]; exact Nat.one_pos)) ?_
  exact (sum_ones cfg.threads).le

theorem userCounted_goto (ht : t < cfg.threads) (p : UserPlace) :
    (s.goto t p).counted cfg + (s.thread t).counted = s.counted cfg + p.counted :=
  total_update (fun _ q => q.counted) s.thread p ht

/-- The counter is the number of the threads that have counted. Once the threads have been let
go, the flag is clear only if all of them have counted, and if all have, it is clear or one of
them is about to clear it. -/
structure UserFlagOk (cfg : Config) (s : UserBench) : Prop where
  counter : s.finishCnt.toNat = s.counted cfg
  released : s.released = s.main.released
  early : s.released = false → ∀ t, (s.thread t).early = true
  releasing : s.main = .releasing → s.recording = true
  off : s.released = true → s.recording = false → s.counted cfg = cfg.threads
  last : s.counted cfg = cfg.threads → s.recording = false ∨ ∃ t, (s.thread t).ending = true
  disabling : ∀ t, s.thread t = .disabling → s.counted cfg = cfg.threads
  copying : ∀ t, (s.thread t).copying? = true → s.recording = false
  after : s.main.off = true → s.recording = false

theorem UserFlagOk.let_go (h : UserFlagOk cfg s) (hp : (s.thread t).early = false) :
    s.released = true := by
  by_contra hreleased
  simp [h.early (by simpa using hreleased) t] at hp

/-- While a thread that has been let go has not counted, the flag is set. -/
theorem UserFlagOk.on (h : UserFlagOk cfg s) (ht : t < cfg.threads)
    (hp : (s.thread t).counted = 0) (hreleased : s.released = true) : s.recording = true := by
  by_contra hrec
  have hlt := userCounted_lt ht hp
  have hall := h.off hreleased (by simpa using hrec)
  omega

/-- A thread goes on without storing anything that is shared. -/
theorem UserFlagOk.goto {p : UserPlace} (h : UserFlagOk cfg s) (ht : t < cfg.threads)
    (hcounted : p.counted = (s.thread t).counted)
    (hearly : s.released = false → p.early = true)
    (hending : s.counted cfg = cfg.threads → (s.thread t).ending = true →
      s.recording = false ∨ p.ending = true)
    (hdisabling : p = .disabling → s.counted cfg = cfg.threads)
    (hcopying : p.copying? = true → s.recording = false) : UserFlagOk cfg (s.goto t p) := by
  have hsame : (s.goto t p).counted cfg = s.counted cfg := by
    have hgoto := userCounted_goto (s := s) ht p
    omega
  refine ⟨hsame ▸ h.counter, h.released, fun hreleased u => ?_, h.releasing, ?_, fun hall => ?_,
    fun u hu => ?_, fun u hu => ?_, h.after⟩
  · by_cases hut : u = t
    · subst hut
      simpa [UserBench.goto] using hearly hreleased
    · simpa [UserBench.goto, hut] using h.early hreleased u
  · rw [hsame]
    exact h.off
  · rw [hsame] at hall
    rcases h.last hall with hrec | ⟨u, hu⟩
    · exact .inl hrec
    · by_cases hut : u = t
      · subst hut
        exact (hending hall hu).imp id fun hnew => ⟨u, by simpa [UserBench.goto] using hnew⟩
      · exact .inr ⟨u, by simpa [UserBench.goto, hut] using hu⟩
  · rw [hsame]
    by_cases hut : u = t
    · subst hut
      exact hdisabling (by simpa [UserBench.goto] using hu)
    · exact h.disabling u (by simpa [UserBench.goto, hut] using hu)
  · by_cases hut : u = t
    · subst hut
      exact hcopying (by simpa [UserBench.goto] using hu)
    · exact h.copying u (by simpa [UserBench.goto, hut] using hu)

theorem UserFlagOk.congr (h : UserFlagOk cfg s) (hthread : s'.thread = s.thread)
    (hcnt : s'.finishCnt = s.finishCnt) (hreleased : s'.released = s.released)
    (hrec : s'.recording = s.recording) (hmain : s'.main = s.main) : UserFlagOk cfg s' := by
  have hcounted : s'.counted cfg = s.counted cfg := by rw [UserBench.counted, hthread]; rfl
  refine ⟨?_, ?_, ?_, ?_, ?_, ?_, ?_, ?_, ?_⟩
  · rw [hcnt, hcounted]
    exact h.counter
  · rw [hreleased, hmain]
    exact h.released
  · rw [hreleased, hthread]
    exact h.early
  · rw [hmain, hrec]
    exact h.releasing
  · rw [hreleased, hrec, hcounted]
    exact h.off
  · rw [hcounted, hrec, hthread]
    exact h.last
  · rw [hthread, hcounted]
    exact h.disabling
  · rw [hthread, hrec]
    exact h.copying
  · rw [hmain, hrec]
    exact h.after

theorem userEq_threads_iff : s.finishCnt = UInt64.ofNat cfg.threads ↔
    s.finishCnt.toNat = cfg.threads := by
  rw [← UInt64.toNat_inj, toNat_threads]

theorem userFlagOk_count (h : UserFlagOk cfg s) (ht : t < cfg.threads)
    (hp : s.thread t = .counting) :
    UserFlagOk cfg { s.goto t .checking with finishCnt := s.finishCnt + 1 } := by
  have hzero : (s.thread t).counted = 0 := by rw [hp]; rfl
  have hreleased := h.let_go (t := t) (by rw [hp]; rfl)
  have hon := h.on ht hzero hreleased
  have hlt := userCounted_lt ht hzero
  have hmore : (s.goto t .checking).counted cfg = s.counted cfg + 1 := by
    have hgoto := userCounted_goto (s := s) ht .checking
    rw [hzero] at hgoto
    exact hgoto
  have hcounter := h.counter
  have hbound := cfg.threads_lt
  have hsucc : (s.finishCnt + 1).toNat = s.finishCnt.toNat + 1 := toNat_succ (by omega)
  refine ⟨?_, h.released, fun hno => ?_, h.releasing, fun _ hrec => ?_, fun _ => .inr ⟨t, ?_⟩,
    fun u hu => ?_, fun u hu => ?_, h.after⟩
  · exact (hsucc.trans (congrArg (· + 1) hcounter)).trans hmore.symm
  · simp [show s.released = false from hno] at hreleased
  · simp [show s.recording = false from hrec] at hon
  · simp [UserBench.goto, UserPlace.ending]
  · by_cases hut : u = t
    · simp [hut, UserBench.goto] at hu
    · have hall := h.disabling u (by simpa [UserBench.goto, hut] using hu)
      omega
  · by_cases hut : u = t
    · simp [hut, UserBench.goto, UserPlace.copying?] at hu
    · exact h.copying u (by simpa [UserBench.goto, hut] using hu)

theorem userFlagOk_disable (h : UserFlagOk cfg s) (ht : t < cfg.threads)
    (hp : s.thread t = .disabling) :
    UserFlagOk cfg { s.goto t (.copying KernelField.all) with recording := false } := by
  have hreleased := h.let_go (t := t) (by rw [hp]; rfl)
  have hmain : s.main.released = true := h.released ▸ hreleased
  have hsame : (s.goto t (.copying KernelField.all)).counted cfg = s.counted cfg := by
    have hgoto := userCounted_goto (s := s) ht (.copying KernelField.all)
    rw [hp] at hgoto
    exact Nat.add_right_cancel hgoto
  have hall := hsame.trans (h.disabling t hp)
  refine ⟨hsame ▸ h.counter, h.released, fun hno => ?_, fun hreleasing => ?_, fun _ _ => hall,
    fun _ => .inl rfl, fun _ _ => hall, fun _ _ => rfl, fun _ => rfl⟩
  · simp [show s.released = false from hno] at hreleased
  · simp [show s.main = .releasing from hreleasing, MainPlace.released] at hmain

theorem userFlagOk_thread (hinv : UserInv cfg random s) (h : UserFlagOk cfg s)
    (hmove : UserThreadMove cfg random s t s' es) : UserFlagOk cfg s' := by
  have ht : s.thread t ≠ .absent → t < cfg.threads := hinv.lt
  have hlate : (s.thread t).early = false → ∀ p : UserPlace,
      s.released = false → p.early = true := by
    intro hp p hno
    simp [h.let_go hp] at hno
  cases hmove with
  | release hp hreleased =>
    exact h.goto (ht (by simp [hp])) (by rw [hp]; rfl) (by simp [hreleased])
      (by simp [hp, UserPlace.ending]) (by simp) (by simp [UserPlace.copying?])
  | measure hp hm => exact h.congr rfl rfl rfl rfl rfl
  | @finish r hp hr =>
    have hnew : UserFlagOk cfg (s.goto t (.storing r StatField.stores)) :=
      h.goto (ht (by simp [hp])) (by rw [hp]; rfl) (hlate (by rw [hp]; rfl) _)
        (by simp [hp, UserPlace.ending]) (by simp) (by simp [UserPlace.copying?])
    exact hnew.congr rfl rfl rfl rfl rfl
  | @store r field todo hp =>
    have hnew : UserFlagOk cfg (s.goto t (.storing r todo)) :=
      h.goto (ht (by simp [hp])) (by rw [hp]; rfl) (hlate (by rw [hp]; rfl) _)
        (by simp [hp, UserPlace.ending]) (by simp) (by simp [UserPlace.copying?])
    exact hnew.congr rfl rfl rfl rfl rfl
  | stored hp =>
    exact h.goto (ht (by simp [hp])) (by rw [hp]; rfl) (hlate (by rw [hp]; rfl) _)
      (by simp [hp, UserPlace.ending]) (by simp) (by simp [UserPlace.copying?])
  | count hp => exact userFlagOk_count h (ht (by simp [hp])) hp
  | last hp hcnt =>
    exact h.goto (ht (by simp [hp])) (by rw [hp]; rfl) (hlate (by rw [hp]; rfl) _)
      (fun _ _ => .inr rfl) (fun _ => h.counter ▸ userEq_threads_iff.mp hcnt)
      (by simp [UserPlace.copying?])
  | pass hp hcnt =>
    refine h.goto (ht (by simp [hp])) (by rw [hp]; rfl) (hlate (by rw [hp]; rfl) _)
      (fun hall => ?_) (by simp) (by simp [UserPlace.copying?])
    exact absurd (userEq_threads_iff.mpr (h.counter.trans hall)) hcnt
  | disable hp => exact userFlagOk_disable h (ht (by simp [hp])) hp
  | @copy field todo hp =>
    have hnew : UserFlagOk cfg (s.goto t (.copying todo)) :=
      h.goto (ht (by simp [hp])) (by rw [hp]; rfl) (hlate (by rw [hp]; rfl) _)
        (by simp [hp, UserPlace.ending]) (by simp)
        (fun _ => h.copying t (by rw [hp]; rfl))
    exact hnew.congr rfl rfl rfl rfl rfl
  | copied hp =>
    exact h.goto (ht (by simp [hp])) (by rw [hp]; rfl) (hlate (by rw [hp]; rfl) _)
      (by simp [hp, UserPlace.ending]) (by simp) (by simp [UserPlace.copying?])

theorem userFlagOk_init (now : UInt64) (recording : Bool) (sums : KernelField → UInt64) :
    UserFlagOk cfg (.init now recording sums) where
  counter := by simp [UserBench.init, UserBench.counted, total, UserPlace.counted]
  released := rfl
  early _ _ := rfl
  releasing h := by simp [UserBench.init] at h
  off h := by simp [UserBench.init] at h
  last h := by
    have hpos := cfg.threads_pos
    simp [UserBench.init, UserBench.counted, total, UserPlace.counted] at h
    omega
  disabling t h := by simp [UserBench.init] at h
  copying t h := by simp [UserBench.init, UserPlace.copying?] at h
  after h := by simp [UserBench.init, MainPlace.off] at h

theorem userCounted_of_returned (hall : ∀ j < cfg.threads, s.thread j = .returned) :
    s.counted cfg = cfg.threads := by
  have htotal : s.counted cfg = ∑ _v ∈ Finset.range cfg.threads, 1 :=
    total_eq fun v hv => by rw [hall v hv]; rfl
  rw [htotal, sum_ones]

/-- `main` goes on without storing anything that is shared. -/
theorem UserFlagOk.enter {p : MainPlace} (h : UserFlagOk cfg s)
    (hreleased : p.released = s.main.released) (hoff : p.off = s.main.off)
    (hreleasing : p ≠ .releasing) : UserFlagOk cfg (s.enter p) where
  counter := h.counter
  released := h.released.trans hreleased.symm
  early := h.early
  releasing hp := absurd hp hreleasing
  off := h.off
  last := h.last
  disabling := h.disabling
  copying := h.copying
  after hgone := h.after (hoff ▸ hgone)

theorem userFlagOk_enable (h : UserFlagOk cfg s) (hp : s.main = .enabling) :
    UserFlagOk cfg { s.enter .releasing with recording := true } := by
  have hno : s.released = false := by rw [h.released, hp]; rfl
  have hzero : ∀ t, (s.thread t).counted = 0 :=
    fun t => UserPlace.counted_of_early (h.early hno t)
  refine ⟨h.counter, hno, h.early, fun _ => rfl, fun hyes => ?_, fun hall => ?_, h.disabling,
    fun t ht => ?_, fun hgone => ?_⟩
  · simp [show s.released = true from hyes] at hno
  · exact absurd hall (userCounted_lt cfg.threads_pos (hzero 0)).ne
  · exact absurd (UserPlace.counted_of_copying ht) (by rw [UserBench.enter, hzero t]; simp)
  · simp [UserBench.enter, MainPlace.off] at hgone

theorem userFlagOk_release (h : UserFlagOk cfg s) (hp : s.main = .releasing) :
    UserFlagOk cfg { s.enter (.joining 0 ⟨0, 0, 0⟩) with released := true } where
  counter := h.counter
  released := rfl
  early hno := by simp at hno
  releasing hnot := by simp [UserBench.enter] at hnot
  off _ hrec := by simp [h.releasing hp, UserBench.enter] at hrec
  last := h.last
  disabling := h.disabling
  copying := h.copying
  after hgone := by simp [UserBench.enter, MainPlace.off] at hgone

theorem userFlagOk_disable_main {u : UserSums} (hinv : UserInv cfg random s)
    (h : UserFlagOk cfg s) (hp : s.main = .disabling u) :
    UserFlagOk cfg { s.enter (.copying u KernelField.all) with recording := false } := by
  have hok := hinv.main
  unfold MainOk at hok
  rw [hp] at hok
  have hall := userCounted_of_returned hok.1
  exact ⟨h.counter, h.released.trans (by rw [hp]; rfl), h.early, fun hnot => by
    simp [UserBench.enter] at hnot, fun _ _ => hall, fun _ => .inl rfl, h.disabling,
    fun _ _ => rfl, fun _ => rfl⟩

theorem userFlagOk_main (hinv : UserInv cfg random s) (h : UserFlagOk cfg s)
    (hmove : MainMove cfg s s' es) : UserFlagOk cfg s' := by
  cases hmove with
  | @create i hp hi =>
    have habsent : s.thread i = .absent :=
      (hinv.absent i).mpr (by rw [hp]; exact Nat.le_refl i)
    have hnew : UserFlagOk cfg (s.goto i .waiting) :=
      h.goto hi (by rw [habsent]; rfl) (fun _ => rfl) (by simp [habsent, UserPlace.ending])
        (by simp) (by simp [UserPlace.copying?])
    have hnext := hnew.enter (p := .creating (i + 1)) (by simp [UserBench.goto, hp,
      MainPlace.released]) (by simp [UserBench.goto, hp, MainPlace.off]) (by simp)
    exact hnext.congr rfl rfl rfl rfl rfl
  | @clear field todo hp =>
    have hnew := h.enter (p := .clearing todo) (by rw [hp]; rfl) (by rw [hp]; rfl) (by simp)
    exact hnew.congr rfl rfl rfl rfl rfl
  | enable hp => exact userFlagOk_enable h hp
  | release hp => exact userFlagOk_release h hp
  | disable hp => exact userFlagOk_disable_main hinv h hp
  | @copy u field todo hp =>
    have hnew := h.enter (p := .copying u todo) (by rw [hp]; rfl) (by rw [hp]; rfl) (by simp)
    exact hnew.congr rfl rfl rfl rfl rfl
  | fail hp hi | created hp hi | cleared hp | join hp hi hreturned | joined hp hi | copied hp
  | print hp => exact h.enter (by rw [hp]; rfl) (by rw [hp]; rfl) (by simp)

theorem userFlagOk_step (hinv : UserInv cfg random s) (h : UserFlagOk cfg s)
    (hstep : s.step cfg random act = some (s', es)) : UserFlagOk cfg s' := by
  cases act with
  | tick d | kernel field amount =>
    obtain ⟨rfl, -⟩ := by simpa [UserBench.step] using hstep
    exact h.congr rfl rfl rfl rfl rfl
  | thread t =>
    simp only [UserBench.step] at hstep
    split at hstep
    · exact userFlagOk_thread hinv h (userThreadStep_move hstep)
    · simp at hstep
  | main success => exact userFlagOk_main hinv h (userMainStep_move hstep)

theorem userFlagOk_of_runs {ok : UserBench → UserAct → Prop} {now : UInt64} {recording : Bool}
    {sums : KernelField → UInt64}
    (h : Runs (userMachine cfg random) ok (.init now recording sums) tr s) :
    UserInv cfg random s ∧ UserFlagOk cfg s := by
  refine h.invariant (I := fun _ s => UserInv cfg random s ∧ UserFlagOk cfg s)
    ⟨userInv_init now recording sums, userFlagOk_init now recording sums⟩ ?_
  rintro tr es s s' act ⟨hinv, hflag⟩ - hstep
  exact ⟨userInv_step hinv hstep, userFlagOk_step hinv hflag hstep⟩

/-! ## What is copied -/

/-- A sum of the kernel, from its value `acc` before the event. -/
def UserEvent.record (field : KernelField) (acc : UInt64) : UserEvent → UInt64
  | .cleared field' => if field' = field then 0 else acc
  | .added field' amount => if field' = field then acc + amount else acc
  | .nop _ | .print _ => acc

/-- A sum of the kernel after the events: what has been added since it was zeroed. -/
def recorded (sums : KernelField → UInt64) (tr : List UserEvent) (field : KernelField) : UInt64 :=
  tr.foldl (UserEvent.record field) (sums field)

/-- The thread has copied the sum to the page, and might still be in the call. -/
def UserPlace.copied (field : KernelField) : UserPlace → Prop
  | .copying todo => field ∉ todo
  | _ => False

def MainPlace.copied (field : KernelField) : MainPlace → Prop
  | .copying _ todo => field ∉ todo
  | .printing _ | .exited => True
  | _ => False

def UserBench.Copied (s : UserBench) (field : KernelField) : Prop :=
  s.main.copied field ∨ ∃ t, (s.thread t).copied field

/-- Whoever has copied a sum, the page holds what the kernel has recorded. -/
structure PageOk (sums : KernelField → UInt64) (tr : List UserEvent) (s : UserBench) : Prop where
  recorded : ∀ field, s.sums field = recorded sums tr field
  copied : ∀ field, s.Copied field → s.kstats field = s.sums field

theorem UserPlace.copying_of_copied {field : KernelField} {p : UserPlace} (h : p.copied field) :
    p.copying? = true := by
  cases p <;> first | rfl | exact h.elim

theorem MainPlace.off_of_copied {field : KernelField} {p : MainPlace} (h : p.copied field) :
    p.off = true := by
  cases p <;> first | rfl | exact h.elim

theorem UserFlagOk.off_of_copied {field : KernelField} (h : UserFlagOk cfg s)
    (hcopied : s.Copied field) : s.recording = false := by
  rcases hcopied with hmain | ⟨t, ht⟩
  · exact h.after (MainPlace.off_of_copied hmain)
  · exact h.copying t (UserPlace.copying_of_copied ht)

theorem recorded_append (sums : KernelField → UInt64) (tr es : List UserEvent)
    (field : KernelField) : recorded sums (tr ++ es) field =
      es.foldl (UserEvent.record field) (recorded sums tr field) :=
  List.foldl_append

theorem KernelField.mem_all (field : KernelField) : field ∈ KernelField.all := by
  cases field <;> decide

theorem copied_of_goto {p : UserPlace} {field : KernelField} (h : s'.Copied field)
    (hthread : s'.thread = Function.update s.thread t p) (hmain : s'.main = s.main) :
    p.copied field ∨ s.Copied field := by
  rcases h with hcopied | ⟨u, hu⟩
  · exact .inr (.inl (hmain ▸ hcopied))
  · rw [hthread] at hu
    by_cases hut : u = t
    · subst hut
      exact .inl (by simpa using hu)
    · exact .inr (.inr ⟨u, by simpa [hut] using hu⟩)

theorem copied_of_enter {p : MainPlace} {field : KernelField} (h : s'.Copied field)
    (hthread : s'.thread = s.thread) (hmain : s'.main = p) : p.copied field ∨ s.Copied field := by
  rcases h with hcopied | ⟨u, hu⟩
  · exact .inl (hmain ▸ hcopied)
  · exact .inr (.inr ⟨u, hthread ▸ hu⟩)

/-- Nothing is added to the sums. -/
theorem PageOk.keep {sums : KernelField → UInt64} (h : PageOk sums tr s)
    (hsums : s'.sums = s.sums)
    (hes : ∀ field acc, es.foldl (UserEvent.record field) acc = acc)
    (hcopied : ∀ field, s'.Copied field →
      s'.kstats field = s.sums field ∨ s'.kstats field = s.kstats field ∧ s.Copied field) :
    PageOk sums (tr ++ es) s' where
  recorded field := by rw [hsums, recorded_append, hes, h.recorded field]
  copied field hfield := by
    rw [hsums]
    rcases hcopied field hfield with hnew | ⟨hold, hbefore⟩
    · exact hnew
    · rw [hold, h.copied field hbefore]

/-- Nothing has been copied yet when something is added or zeroed. -/
theorem PageOk.record {sums : KernelField → UInt64} {e : UserEvent} (h : PageOk sums tr s)
    (hsums : ∀ field, s'.sums field = e.record field (s.sums field))
    (hcopied : ∀ field, ¬ s'.Copied field) : PageOk sums (tr ++ [e]) s' where
  recorded field := by
    rw [hsums, recorded_append, h.recorded field]
    rfl
  copied field hfield := absurd hfield (hcopied field)

theorem record_nops (field : KernelField) (nops : List Nop) (acc : UInt64) :
    (nops.map UserEvent.nop).foldl (UserEvent.record field) acc = acc := by
  induction nops with
  | nil => rfl
  | cons e nops ih => exact ih

theorem copied_cons {field field' : KernelField} {todo : List KernelField} (h : field ∉ todo) :
    field = field' ∨ field ∉ field' :: todo := by
  by_cases heq : field = field'
  · exact .inl heq
  · exact .inr (by simp [heq, h])

theorem pageOk_thread {sums : KernelField → UInt64} (h : PageOk sums tr s)
    (hmove : UserThreadMove cfg random s t s' es) : PageOk sums (tr ++ es) s' := by
  cases hmove with
  | measure hp hm =>
    exact h.keep rfl (fun field acc => record_nops field _ acc) fun _ hfield => .inr ⟨rfl, hfield⟩
  | disable hp =>
    refine h.keep rfl (fun _ _ => rfl) fun field hfield => .inr ⟨rfl, ?_⟩
    exact (copied_of_goto (s := s) hfield rfl rfl).resolve_left fun hnot =>
      hnot (KernelField.mem_all field)
  | @copy field' todo hp =>
    refine h.keep rfl (fun _ _ => rfl) fun field hfield => ?_
    by_cases heq : field = field'
    · subst heq
      exact .inl (by simp)
    · refine .inr ⟨by simp [heq], ?_⟩
      rcases copied_of_goto (s := s) hfield rfl rfl with hnew | hold
      · refine .inr ⟨t, ?_⟩
        rw [hp]
        exact (copied_cons hnew).resolve_left heq
      · exact hold
  | release | finish | store | stored | count | last | pass | copied =>
    refine h.keep rfl (fun _ _ => rfl) fun field hfield => .inr ⟨rfl, ?_⟩
    exact (copied_of_goto (s := s) hfield rfl rfl).resolve_left fun hnot => hnot

theorem pageOk_main {sums : KernelField → UInt64} (hflag : UserFlagOk cfg s)
    (h : PageOk sums tr s) (hmove : MainMove cfg s s' es) : PageOk sums (tr ++ es) s' := by
  cases hmove with
  | create hp hi =>
    refine h.keep rfl (fun _ _ => rfl) fun field hfield => .inr ⟨rfl, ?_⟩
    have hgoto := (copied_of_enter (s := s.goto _ .waiting) hfield rfl rfl).resolve_left
      fun hnot => hnot
    exact (copied_of_goto (s := s) hgoto rfl rfl).resolve_left fun hnot => hnot
  | @clear field' todo hp =>
    refine h.record (fun field => ?_) fun field hfield => ?_
    · by_cases heq : field' = field <;> simp [UserEvent.record, heq, eq_comm]
    · have hbefore := (copied_of_enter (s := s) hfield rfl rfl).resolve_left fun hnot => hnot
      have hno : s.released = false := by rw [hflag.released, hp]; rfl
      rcases hbefore with hmain | ⟨t, ht⟩
      · rw [hp] at hmain
        exact hmain
      · have hone := UserPlace.counted_of_copying (UserPlace.copying_of_copied ht)
        rw [UserPlace.counted_of_early (hflag.early hno t)] at hone
        exact absurd hone (by simp)
  | disable hp =>
    refine h.keep rfl (fun _ _ => rfl) fun field hfield => .inr ⟨rfl, ?_⟩
    exact (copied_of_enter (s := s) hfield rfl rfl).resolve_left fun hnot =>
      hnot (KernelField.mem_all field)
  | @copy u field' todo hp =>
    refine h.keep rfl (fun _ _ => rfl) fun field hfield => ?_
    by_cases heq : field = field'
    · subst heq
      exact .inl (by simp)
    · refine .inr ⟨by simp [heq], ?_⟩
      rcases copied_of_enter (s := s) hfield rfl rfl with hnew | hold
      · refine .inl ?_
        rw [hp]
        exact (copied_cons hnew).resolve_left heq
      · exact hold
  | copied hp =>
    refine h.keep rfl (fun _ _ => rfl) fun field _ => .inr ⟨rfl, .inl ?_⟩
    rw [hp]
    simp [MainPlace.copied]
  | @print u hp =>
    refine h.keep rfl (fun field acc => ?_) fun field _ => .inr ⟨rfl, .inl ?_⟩
    · cases userReport u s.kstats <;> rfl
    · rw [hp]
      trivial
  | fail | created | cleared | enable | release | join | joined =>
    refine h.keep rfl (fun _ _ => rfl) fun field hfield => .inr ⟨rfl, ?_⟩
    exact (copied_of_enter (s := s) hfield rfl rfl).resolve_left fun hnot => hnot

theorem pageOk_step {sums : KernelField → UInt64} (hflag : UserFlagOk cfg s)
    (h : PageOk sums tr s) (hok : act.Recorded s)
    (hstep : s.step cfg random act = some (s', es)) : PageOk sums (tr ++ es) s' := by
  cases act with
  | tick d =>
    obtain ⟨rfl, rfl⟩ := by simpa [UserBench.step] using hstep
    exact h.keep rfl (fun _ _ => rfl) fun _ hfield => .inr ⟨rfl, hfield⟩
  | thread t =>
    simp only [UserBench.step] at hstep
    split at hstep
    · exact pageOk_thread h (userThreadStep_move hstep)
    · simp at hstep
  | main success => exact pageOk_main hflag h (userMainStep_move hstep)
  | kernel field' amount =>
    obtain ⟨rfl, rfl⟩ := by simpa [UserBench.step] using hstep
    refine h.record (fun field => ?_) fun field hfield => ?_
    · by_cases heq : field' = field <;> simp [UserEvent.record, heq, eq_comm]
    · have hon : s.recording = true := hok
      simp [hflag.off_of_copied hfield] at hon

/-! ## What is printed -/

/-- What has been printed is what the records of the threads and the page give. -/
def Printed (cfg : Config) (tr : List UserEvent) (s : UserBench) : Prop :=
  ∀ r, .print r ∈ tr → s.main = .exited ∧
    userReport (userMain (s.records cfg.threads)) s.kstats = some r

/-- When `main` has ended, only time passes, and the kernel can add to its sums. -/
theorem exited_step (hinv : UserInv cfg random s) (hmain : s.main = .exited)
    (hstep : s.step cfg random act = some (s', es)) :
    s'.main = .exited ∧ s'.stats = s.stats ∧ s'.kstats = s.kstats := by
  cases act with
  | tick d | kernel field amount =>
    obtain ⟨rfl, -⟩ := by simpa [UserBench.step] using hstep
    exact ⟨hmain, rfl, rfl⟩
  | thread t =>
    simp only [UserBench.step] at hstep
    split at hstep
    · obtain ⟨hnot, hthere, -⟩ := userThreadMove_there (userThreadStep_move hstep)
      have hok := hinv.main
      unfold MainOk at hok
      rw [hmain] at hok
      exact absurd (hok t (hinv.lt hthere)) hnot
    · simp at hstep
  | main success => simp [UserBench.step, UserBench.mainStep, hmain] at hstep

theorem print_step {r : UserReport} (hinv : UserInv cfg random s)
    (hstep : s.step cfg random act = some (s', es)) (hr : .print r ∈ es) :
    s'.main = .exited ∧ userReport (userMain (s'.records cfg.threads)) s'.kstats = some r := by
  cases act with
  | tick d | kernel field amount =>
    obtain ⟨-, rfl⟩ := by simpa [UserBench.step] using hstep
    simp at hr
  | thread t =>
    simp only [UserBench.step] at hstep
    split at hstep
    · cases userThreadStep_move hstep with
      | measure hp hm => simp at hr
      | _ => simp at hr
    · simp at hstep
  | main success =>
    have hok := hinv.main
    unfold MainOk at hok
    cases userMainStep_move hstep with
    | @print u hp =>
      rw [hp] at hok
      refine ⟨rfl, ?_⟩
      have hreport : userReport u s.kstats = some r := by simpa using hr
      rw [hok.2] at hreport
      exact hreport
    | _ => simp at hr

theorem printed_step (hinv : UserInv cfg random s) (h : Printed cfg tr s)
    (hstep : s.step cfg random act = some (s', es)) : Printed cfg (tr ++ es) s' := by
  intro r hr
  rcases List.mem_append.mp hr with hbefore | hnow
  · obtain ⟨hmain, hreport⟩ := h r hbefore
    obtain ⟨hexited, hstats, hkstats⟩ := exited_step hinv hmain hstep
    refine ⟨hexited, ?_⟩
    rw [hkstats, UserBench.records, hstats]
    exact hreport
  · exact print_step hinv hstep hnow

structure UserRunOk (cfg : Config) (random : Nat → Nat → UInt64) (sums : KernelField → UInt64)
    (tr : List UserEvent) (s : UserBench) : Prop where
  inv : UserInv cfg random s
  flag : UserFlagOk cfg s
  page : PageOk sums tr s
  printed : Printed cfg tr s

theorem userRunOk_of_runs {now : UInt64} {recording : Bool} {sums : KernelField → UInt64}
    (h : Runs (userMachine cfg random) (fun s act => act.Recorded s) (.init now recording sums)
      tr s) : UserRunOk cfg random sums tr s := by
  refine h.invariant (I := UserRunOk cfg random sums) ?_ ?_
  · refine ⟨userInv_init now recording sums, userFlagOk_init now recording sums,
      ⟨fun _ => rfl, fun field hfield => ?_⟩, fun r hr => by simp at hr⟩
    rcases hfield with hmain | ⟨t, ht⟩
    · exact hmain.elim
    · exact ht.elim
  · intro tr es s s' act hrun hok hstep
    exact ⟨userInv_step hrun.inv hstep, userFlagOk_step hrun.inv hrun.flag hstep,
      pageOk_step hrun.flag hrun.page hok hstep, printed_step hrun.inv hrun.printed hstep⟩

theorem UserInv.commit (hinv : UserInv cfg random s) (ht : s.thread t = .returned) :
    (s.measuring.thread t).commit (benchRounds cfg random t) = some (s.stats t) := by
  have hplace := hinv.place t
  unfold UserPlaceOk at hplace
  rw [ht] at hplace
  exact hplace

/-- A thread that is measuring has been let go and has not counted. -/
theorem UserInv.running (hinv : UserInv cfg random s)
    (ht : (s.measuring.thread t).running = true) : s.thread t = .measuring := by
  have hplace := hinv.place t
  unfold UserPlaceOk at hplace
  have hcommit : ∀ c, (s.measuring.thread t).commit (benchRounds cfg random t) ≠ some c := by
    intro c hc
    obtain ⟨f, e, hm, -⟩ := commit_eq_some hc
    simp [hm, Measure.running] at ht
  cases hp : s.thread t with
  | measuring => rfl
  | absent | waiting =>
    rw [hp] at hplace
    simp [hplace, Measure.running] at ht
  | storing r todo =>
    rw [hp] at hplace
    exact absurd hplace.1 (hcommit _)
  | counting | checking | disabling | copying todo | returned =>
    rw [hp] at hplace
    exact absurd hplace (hcommit _)

theorem count_userNop (tr : List UserEvent) (t : Nat) :
    tr.count (.nop ⟨t⟩) = (tr.filterMap UserEvent.nop?).count ⟨t⟩ := by
  induction tr with
  | nil => rfl
  | cons e tr ih =>
    cases e with
    | nop e => simp [UserEvent.nop?, List.count_cons, ih]
    | _ => simp [List.filterMap_cons, UserEvent.nop?, ih]

def userOneAfterTheOther (t : Nat) : List UserAct :=
  List.replicate 2 (.thread t) ++ .tick 1 :: List.replicate 4 (.thread t) ++ .tick 5 ::
    .kernel .sched 3 :: List.replicate 10 (.thread t)

/-- The threads of `pairConfig` measure one after the other. Both find that both have counted, and
stop the recording in turns. -/
def bothFinishRun : List UserAct :=
  List.replicate 12 (.main true) ++ userOneAfterTheOther 0 ++ userOneAfterTheOther 1 ++
    (List.replicate 9 [.thread 0, .thread 1]).flatten ++ List.replicate 12 (.main true)

section Results
variable {now : UInt64} {recording : Bool} {sums : KernelField → UInt64} {r : UserReport}

/-- Whatever the interleaving, and though several parties can copy the sums at once, what is
printed is what the final records of all threads and everything that the kernel has recorded give.
In each record the computation fits into the interval, and the thread has executed two `nop`s more
than the `total` it commits. -/
theorem user_report_of_recorded
    (hrun : Runs (userMachine cfg random) (fun s act => act.Recorded s)
      (.init now recording sums) tr s)
    (hr : .print r ∈ tr) :
    userReport (userMain (s.records cfg.threads)) (recorded sums tr) = some r ∧
    ∀ t < cfg.threads, (s.stats t).start ≤ (s.stats t).endCycle ∧
      (s.stats t).pureComputation ≤ (s.stats t).endCycle - (s.stats t).start ∧
      (s.stats t).total = iterCnt cfg.loops (random t) (cfg.iters - 1) ∧
      tr.count (.nop ⟨t⟩) = (s.stats t).total.toNat + 2 := by
  have hok := userRunOk_of_runs hrun
  obtain ⟨hexited, hreport⟩ := hok.printed r hr
  have hpage : recorded sums tr = s.kstats := by
    funext field
    rw [← hok.page.recorded field]
    refine (hok.page.copied field (.inl ?_)).symm
    rw [hexited]
    trivial
  have hreturned := hok.inv.main
  unfold MainOk at hreturned
  rw [hexited] at hreturned
  refine ⟨hpage ▸ hreport, fun t ht => ?_⟩
  have hmeasures := user_measures_of_runs hrun
  obtain ⟨-, htimed⟩ := timed_of_runs now.toNat_lt hmeasures
  obtain ⟨hcounted, hcnt⟩ := counted_of_runs (fun t => steps_rounds cfg (random t)) hmeasures t
  have hcommit := hok.inv.commit (hreturned t ht)
  obtain ⟨hse, hpure⟩ := commit_timed hcommit (htimed t)
  obtain ⟨f, e, -, hrecord⟩ := commit_eq_some hcommit
  refine ⟨hse, hpure, by rw [hrecord]; rfl, ?_⟩
  rw [count_userNop, hcnt]
  exact commit_counted hcommit cfg.iters_pos hcounted

theorem user_report_of_recorded_pair :
    ∃ (tr : List UserEvent) (s : UserBench), .print ⟨12, 10, 83, 50, 0⟩ ∈ tr ∧
      userReport (userMain (s.records 2)) (recorded (fun _ => 9) tr) =
        some ⟨12, 10, 83, 50, 0⟩ := by
  obtain ⟨tr, s, hrun, hr⟩ := (userMachine pairConfig fun _ _ => 0).exec_reaches
    (fun s act => act.Recorded s) (.init 7 false fun _ => 9) bothFinishRun
    (fun tr _ => decide (.print ⟨12, 10, 83, 50, 0⟩ ∈ tr)) (by decide +kernel)
  exact ⟨tr, s, by simpa using hr, (user_report_of_recorded hrun (by simpa using hr)).1⟩

/-- The flag is set whenever a thread is between its readings of `start_cycle` and `end_cycle`. In
the program no count is lost: once the threads have been let go, the flag is cleared only when all
have counted, and it is clear when all have returned. -/
theorem user_recording_covers_measurement {ok : UserBench → UserAct → Prop}
    (hrun : Runs (userMachine cfg random) ok (.init now recording sums) tr s) :
    (∀ t, (s.measuring.thread t).running = true → s.recording = true) ∧
    (s.released = true → s.recording = false → s.finishCnt = UInt64.ofNat cfg.threads) ∧
    ((∀ t < cfg.threads, s.thread t = .returned) → s.recording = false) := by
  obtain ⟨hinv, hflag⟩ := userFlagOk_of_runs hrun
  refine ⟨fun t ht => ?_, fun hreleased hrec => ?_, fun hall => ?_⟩
  · have hp := hinv.running ht
    refine hflag.on (hinv.lt (t := t) (by simp [hp])) (by rw [hp]; rfl) ?_
    exact hflag.let_go (t := t) (by rw [hp]; rfl)
  · rw [userEq_threads_iff, hflag.counter]
    exact hflag.off hreleased hrec
  · rcases hflag.last (userCounted_of_returned hall) with hrec | ⟨t, ht⟩
    · exact hrec
    · have hlt := hinv.lt (t := t) (fun habsent => by simp [habsent, UserPlace.ending] at ht)
      simp [hall t hlt, UserPlace.ending] at ht

theorem user_recording_covers_measurement_pair : ∃ s : UserBench,
    (∀ t : Nat, t < 2 → s.thread t = .returned) ∧ s.recording = false := by
  obtain ⟨tr, s, hrun, hall⟩ := (userMachine pairConfig fun _ _ => 0).exec_reaches
    (fun s act => act.Recorded s) (.init 7 true fun _ => 9) bothFinishRun
    (fun _ s => decide (∀ t : Nat, t < 2 → s.thread t = .returned)) (by decide +kernel)
  have hreturned : ∀ t : Nat, t < 2 → s.thread t = .returned := by simpa using hall
  exact ⟨s, hreturned, (user_recording_covers_measurement hrun).2.2 hreturned⟩

end Results

end ThletEvaluation.Switch
