import ThletEvaluation.Shinjuku.ContextFast

/-!
# The coroutine law of the context switch

The straight-line code is cut into its block of stores and its block of loads. The
stores write one field for each register, the loads read such fields back, and the
rest is a statement about which record was last saved by whom.
-/

namespace ThletEvaluation.Shinjuku.ContextFast

open Memory
set_option autoImplicit false

def slot : Reg → Nat
  | .ra => O_REG_RA | .sp => O_REG_SP | .gp => O_REG_GP | .tp => O_REG_TP
  | .s0 => O_REG_S0 | .s1 => O_REG_S1 | .s2 => O_REG_S2 | .s3 => O_REG_S3
  | .s4 => O_REG_S4 | .s5 => O_REG_S5 | .s6 => O_REG_S6 | .s7 => O_REG_S7
  | .s8 => O_REG_S8 | .s9 => O_REG_S9 | .s10 => O_REG_S10 | .s11 => O_REG_S11
  | .a0 => O_REG_A0 | .a1 => O_REG_A1 | .a2 => O_REG_A2 | .a3 => O_REG_A3
  | .a4 => O_REG_A4 | .a5 => O_REG_A5 | .a6 => O_REG_A6 | .a7 => O_REG_A7
  | .t0 => O_REG_T0 | .t1 => O_REG_T1 | .t2 => O_REG_T2 | .t3 => O_REG_T3
  | .t4 => O_REG_T4 | .t5 => O_REG_T5 | .t6 => O_REG_T6

def savedRegs : List Reg :=
  [.ra, .sp, .gp, .tp, .s0, .s1, .s2, .s3, .s4, .s5, .s6, .s7, .s8, .s9, .s10, .s11,
    .a0, .a1, .a2, .a3, .a4, .a5, .a6, .a7, .t0, .t1, .t2, .t3, .t4, .t5, .t6]

def loadedRegs : List Reg :=
  [.sp, .s0, .s1, .s2, .s3, .s4, .s5, .s6, .s7, .s8, .s9, .s10, .s11, .ra, .a2, .a3,
    .t0, .t1, .t2, .t3, .t4, .t5, .t6]

def saveCode (rs : List Reg) : List Instr := rs.map fun r => .sd r (slot r) .a0

def loadCode (rs : List Reg) : List Instr := rs.map fun r => .ld r (slot r) .a1

theorem swapcontextVeryFast_eq : swapcontextVeryFast =
    saveCode savedRegs ++ (([.csrr .t0, .sd .t0 O_REG_SSTATUS .a0, .ld .t0 O_REG_SSTATUS .a1,
      .csrw .t0] : List Instr) ++
      (loadCode loadedRegs ++ ([.ld .a1 (slot .a1) .a1, .li .a0 0, .ret] : List Instr))) := rfl

theorem execAll_append (h : Hart) (c d : List Instr) :
    execAll h (c ++ d) = execAll (execAll h c) d := List.foldl_append

theorem exec_saveCode (h : Hart) (rs : List Reg) :
    execAll h (saveCode rs) =
      { h with mem := storeAll h.mem (h.regs .a0) (rs.map fun r => (slot r, h.regs r)) } := by
  induction rs generalizing h with
  | nil => rfl
  | cons r rs ih => exact ih _

/-- The block of loads never overwrites its base register, so every register gets the
field of the record that `a1` pointed to at the start of the block. -/
theorem exec_loadCode (h : Hart) (rs : List Reg) (ha1 : .a1 ∉ rs) :
    (∀ r ∈ rs, (execAll h (loadCode rs)).regs r =
      load h.mem (h.regs .a1 + BitVec.ofNat 64 (slot r))) ∧
    (∀ r, r ∉ rs → (execAll h (loadCode rs)).regs r = h.regs r) ∧
    (execAll h (loadCode rs)).mem = h.mem ∧ (execAll h (loadCode rs)).sstatus = h.sstatus := by
  induction rs generalizing h with
  | nil => exact ⟨by simp, fun _ _ => rfl, rfl, rfl⟩
  | cons r rs ih =>
    simp only [List.mem_cons, not_or] at ha1
    let h₁ := h.set r (load h.mem (h.regs .a1 + BitVec.ofNat 64 (slot r)))
    have hbase : h₁.regs .a1 = h.regs .a1 := Function.update_of_ne ha1.1 _ _
    obtain ⟨hin, hout, hmem, hsst⟩ := ih h₁ ha1.2
    refine ⟨?_, ?_, hmem, hsst⟩
    · intro q hq
      by_cases hqs : q ∈ rs
      · have hload := hin q hqs
        rw [hbase] at hload
        exact hload
      · obtain rfl : q = r := by simpa [hqs] using hq
        exact (hout q hqs).trans (Function.update_self q _ _)
    · intro q hq
      simp only [List.mem_cons, not_or] at hq
      exact (hout q hq.2).trans (Function.update_of_ne hq.1 _ _)

def savedFields (h : Hart) : List (Nat × Word) :=
  savedRegs.map (fun r => (slot r, h.regs r)) ++ [(O_REG_SSTATUS, h.sstatus)]

theorem savedFields_wf (h : Hart) : Fields (savedFields h) KCTX_SIZE := by
  have hoffs : (savedFields h).map Prod.fst = savedRegs.map slot ++ [O_REG_SSTATUS] := rfl
  exact .of_offsets hoffs (by decide) (by decide) (by decide)

theorem mem_savedRegs (r : Reg) : r ∈ savedRegs := by cases r <;> decide

theorem exec_sstatus (h : Hart) :
    let m := store h.mem (h.regs .a0 + BitVec.ofNat 64 O_REG_SSTATUS) h.sstatus
    let h' := execAll h [.csrr .t0, .sd .t0 O_REG_SSTATUS .a0, .ld .t0 O_REG_SSTATUS .a1, .csrw .t0]
    h'.mem = m ∧ h'.sstatus = load m (h.regs .a1 + BitVec.ofNat 64 O_REG_SSTATUS) ∧
      h'.regs .a1 = h.regs .a1 := ⟨rfl, rfl, rfl⟩

theorem exec_return (h : Hart) :
    let h' := execAll h [.ld .a1 (slot .a1) .a1, .li .a0 0, .ret]
    h'.mem = h.mem ∧ h'.sstatus = h.sstatus ∧ h'.pc = h'.regs .ra ∧ h'.regs .a0 = 0 ∧
      h'.regs .a1 = load h.mem (h.regs .a1 + BitVec.ofNat 64 (slot .a1)) ∧
      ∀ r, r ≠ .a0 → r ≠ .a1 → h'.regs r = h.regs r := by
  refine ⟨rfl, rfl, rfl, rfl, rfl, ?_⟩
  intro r h0 h1
  exact (Function.update_of_ne h0 _ _).trans (Function.update_of_ne h1 _ _)

theorem swap_spec (h : Hart) :
    let h' := execAll h swapcontextVeryFast
    h'.mem = storeAll h.mem (h.regs .a0) (savedFields h) ∧
      (∀ r ∈ restored, h'.regs r = load h'.mem (h.regs .a1 + BitVec.ofNat 64 (slot r))) ∧
      h'.regs .a0 = 0 ∧
      h'.sstatus = load h'.mem (h.regs .a1 + BitVec.ofNat 64 O_REG_SSTATUS) ∧
      h'.pc = h'.regs .ra := by
  simp only [swapcontextVeryFast_eq, execAll_append, exec_saveCode]
  have hfields : storeAll h.mem (h.regs .a0) (savedFields h) =
      store (storeAll h.mem (h.regs .a0) (savedRegs.map fun r => (slot r, h.regs r)))
        (h.regs .a0 + BitVec.ofNat 64 O_REG_SSTATUS) h.sstatus := List.foldl_append
  obtain ⟨hmem₁, hsst₁, hbase₁⟩ := exec_sstatus { h with
    mem := storeAll h.mem (h.regs .a0) (savedRegs.map fun r => (slot r, h.regs r)) }
  rw [← hfields] at hmem₁ hsst₁
  revert hmem₁ hsst₁ hbase₁
  generalize execAll _ [.csrr .t0, .sd .t0 O_REG_SSTATUS .a0, .ld .t0 O_REG_SSTATUS .a1,
    .csrw .t0] = h₁
  intro hmem₁ hsst₁ hbase₁
  obtain ⟨hin, hout, hmem₂, hsst₂⟩ := exec_loadCode h₁ loadedRegs (by decide)
  have hbase₂ := (hout .a1 (by decide)).trans hbase₁
  rw [hmem₁] at hmem₂ hin
  rw [hsst₁] at hsst₂
  rw [hbase₁] at hin
  revert hin hmem₂ hsst₂ hbase₂
  generalize execAll h₁ (loadCode loadedRegs) = h₂
  intro hin hmem₂ hsst₂ hbase₂
  obtain ⟨hmem, hsst, hpc, ha0, ha1, hrest⟩ := exec_return h₂
  refine ⟨hmem.trans hmem₂, ?_, ha0, ?_, hpc⟩
  · intro r hr
    rw [hmem, hmem₂]
    by_cases hr1 : r = .a1
    · subst r
      rw [ha1, hmem₂, hbase₂]
    · have hr2 : r ∈ loadedRegs := by
        revert hr hr1
        cases r <;> decide
      have hr0 : r ≠ .a0 := by
        rintro rfl
        exact absurd hr2 (by decide)
      exact (hrest r hr0 hr1).trans (hin r hr2)
  · rw [hsst, hmem, hmem₂]
    exact hsst₂

theorem slot_lt (r : Reg) : slot r + 8 ≤ KCTX_SIZE := by cases r <;> decide

/-- Record `c` holds in memory `m` what hart `S` had at the entry of a call. -/
def Saved (m : Mem) (c : Word) (S : Hart) : Prop :=
  (∀ r, load m (c + BitVec.ofNat 64 (slot r)) = S.regs r) ∧
    load m (c + BitVec.ofNat 64 O_REG_SSTATUS) = S.sstatus

theorem Saved.frame {m m' : Mem} {c : Word} {S : Hart} (h : Saved m c S)
    (hagree : ∀ x, InRange c KCONTEXT_BYTES x → m' x = m x) : Saved m' c S := by
  constructor
  · intro r
    have hr := slot_lt r
    rw [load_frame (Nat.le_trans hr (by decide)) (by decide) hagree]
    exact h.1 r
  · rw [load_frame (by decide) (by decide) hagree]
    exact h.2

theorem saved_old (h : Hart) :
    Saved (execAll h swapcontextVeryFast).mem (h.regs .a0) h := by
  rw [(swap_spec h).1]
  have hwf := savedFields_wf h
  constructor
  · intro r
    exact load_storeAll hwf (f := (slot r, h.regs r))
      (List.mem_append_left _ (List.mem_map.mpr ⟨r, mem_savedRegs r, rfl⟩))
  · exact load_storeAll hwf (f := (O_REG_SSTATUS, h.sstatus)) (by simp [savedFields])

theorem swap_frame (h : Hart) {x : Word} (hx : ¬ InRange (h.regs .a0) KCTX_SIZE x) :
    (execAll h swapcontextVeryFast).mem x = h.mem x := by
  rw [(swap_spec h).1]
  exact storeAll_frame (savedFields_wf h).inside (by decide) hx

theorem swap_resumes (h S : Hart) (hS : Saved (execAll h swapcontextVeryFast).mem (h.regs .a1) S) :
    let h' := execAll h swapcontextVeryFast
    h'.pc = S.regs .ra ∧ h'.regs .a0 = 0 ∧ (∀ r ∈ restored, h'.regs r = S.regs r) ∧
      h'.sstatus = S.sstatus := by
  obtain ⟨_, hregs, ha0, hsst, hpc⟩ := swap_spec h
  have hrestored := fun r hr => (hregs r hr).trans (hS.1 r)
  exact ⟨hpc.trans (hrestored .ra (by decide)), ha0, hrestored, hsst.trans hS.2⟩

def AllSaved (records : List Word) (tr : List Switch) (h : Hart) : Prop :=
  ∀ c ∈ records, ∀ S, lastSave c tr = some S → Saved h.mem c S

theorem lastSave_concat (c : Word) (tr : List Switch) (e : Switch) :
    lastSave c (tr ++ [e]) = if e.old = c then some e.before else lastSave c tr := by
  simp [lastSave, List.foldl_append]

theorem inRange_record {c x : Word} (h : InRange c KCTX_SIZE x) : InRange c KCONTEXT_BYTES x :=
  Nat.lt_of_lt_of_le h (by decide)

theorem AllSaved.swap {records : List Word} {tr : List Switch} {h : Hart} {old new : Word}
    (hsaved : AllSaved records tr h) (hapart : NonOverlapping records)
    (hlegal : (SwitchAct.swap old new).Legal records h) :
    let h' := execAll h swapcontextVeryFast
    AllSaved records (tr ++ [⟨old, new, h, h'⟩]) h' := by
  obtain ⟨hold, _, rfl, _⟩ := hlegal
  intro h' c hc S hS
  rw [lastSave_concat] at hS
  by_cases hoc : h.regs .a0 = c
  · subst c
    obtain rfl : h = S := by simpa using hS
    exact saved_old h
  · have hprev : lastSave c tr = some S := by simpa [hoc] using hS
    refine (hsaved c hc S hprev).frame fun x hx => swap_frame h fun hx' => ?_
    exact hapart c hc _ hold (Ne.symm hoc) x hx (inRange_record hx')

/-- What is promised of a call `e` that follows the calls `pre`. -/
structure Lawful (records : List Word) (pre : List Switch) (e : Switch) : Prop where
  resumes : ∀ S, lastSave e.new (pre ++ [e]) = some S →
    e.after.pc = S.regs .ra ∧ e.after.regs .a0 = 0 ∧
      (∀ r ∈ restored, e.after.regs r = S.regs r) ∧ e.after.sstatus = S.sstatus
  writes : ∀ x, ¬ InRange e.old KCTX_SIZE x → e.after.mem x = e.before.mem x
  others : ∀ c ∈ records, c ≠ e.old → ∀ x, InRange c KCONTEXT_BYTES x →
    e.after.mem x = e.before.mem x
  stackBase : ∀ c ∈ records, load e.after.mem (c + BitVec.ofNat 64 O_STACK_BASE) =
    load e.before.mem (c + BitVec.ofNat 64 O_STACK_BASE)

theorem lawful_swap {records : List Word} {tr : List Switch} {h : Hart} {old new : Word}
    (hsaved : AllSaved records tr h) (hapart : NonOverlapping records)
    (hlegal : (SwitchAct.swap old new).Legal records h) :
    Lawful records tr ⟨old, new, h, execAll h swapcontextVeryFast⟩ := by
  have hafter := hsaved.swap hapart hlegal
  obtain ⟨hold, hnew, rfl, rfl⟩ := hlegal
  have hothers : ∀ c ∈ records, c ≠ h.regs .a0 → ∀ x, InRange c KCONTEXT_BYTES x →
      (execAll h swapcontextVeryFast).mem x = h.mem x := by
    intro c hc hne x hx
    exact swap_frame h fun hx' => hapart c hc _ hold hne x hx (inRange_record hx')
  refine ⟨fun S hS => swap_resumes h S (hafter _ hnew S hS), fun x hx => swap_frame h hx,
    hothers, ?_⟩
  intro c hc
  by_cases hne : c = h.regs .a0
  · subst c
    apply load_congr
    intro i hi
    apply swap_frame
    simp only [InRange, KCTX_SIZE, O_STACK_BASE]
    bv_omega
  · exact load_frame (by decide) (by decide) (hothers c hc hne)

/-- The coroutine law, for every run: every call of the trace resumes the last save of
the record it switches to, and writes nothing but the saved words of `old`. -/
theorem switch_lawful {records : List Word} (hapart : NonOverlapping records) {h₀ h : Hart}
    {tr pre : List Switch} {e : Switch}
    (hrun : Run.Runs switchMachine (fun h a => SwitchAct.Legal records h a) h₀ tr h)
    (hpre : pre ++ [e] <+: tr) : Lawful records pre e := by
  have hinv : AllSaved records tr h ∧
      ∀ pre e, pre ++ [e] <+: tr → Lawful records pre e := by
    refine hrun.invariant (I := fun tr h => AllSaved records tr h ∧
      ∀ pre e, pre ++ [e] <+: tr → Lawful records pre e) ?_ ?_
    · constructor
      · intro c _ S hS
        simp [lastSave] at hS
      · intro pre e hpre
        simp at hpre
    · rintro tr es h t act ⟨hsaved, hlaw⟩ hlegal hstep
      cases act with
      | compute h' =>
        obtain ⟨rfl, rfl⟩ : h' = t ∧ [] = es := by simpa [switchMachine, switchStep] using hstep
        rw [List.append_nil]
        exact ⟨fun c hc S hS => (hsaved c hc S hS).frame (hlegal c hc), hlaw⟩
      | swap old new =>
        obtain ⟨rfl, rfl⟩ : execAll h swapcontextVeryFast = t ∧
            [⟨old, new, h, execAll h swapcontextVeryFast⟩] = es := by
          simpa [switchMachine, switchStep] using hstep
        refine ⟨hsaved.swap hapart hlegal, ?_⟩
        intro pre e hpre
        rcases List.prefix_concat_iff.mp hpre with heq | hpre
        · obtain ⟨rfl, he⟩ := List.append_inj' heq rfl
          obtain rfl := List.singleton_inj.mp he
          exact lawful_swap hsaved hapart hlegal
        · exact hlaw pre e hpre
  exact hinv.2 pre e hpre

def callHart (old new v : Word) (m : Mem) : Hart :=
  ⟨fun r => if r = .a0 then old else if r = .a1 then new else v, 2, 0x100, m⟩

theorem twoRecords_apart : NonOverlapping [0x1000, 0x2000] := by
  intro c hc d hd hne x hx hx'
  simp only [List.mem_cons, List.not_mem_nil, or_false] at hc hd
  simp only [InRange, KCONTEXT_BYTES, O_STACK_BASE] at hx hx'
  rcases hc with rfl | rfl <;> rcases hd with rfl | rfl <;> first | exact hne rfl | bv_omega

/-- Two records; the second call switches back and finds what the first one saved. -/
theorem switch_lawful_back_and_forth :
    ∃ tr pre e h, Run.Runs switchMachine (fun h a => SwitchAct.Legal [0x1000, 0x2000] h a)
        (callHart 0x1000 0x2000 0x400 fun _ => 0) tr h ∧ pre ++ [e] <+: tr ∧
      Lawful [0x1000, 0x2000] pre e ∧ e.new = 0x1000 ∧
      lastSave e.new (pre ++ [e]) = some (callHart 0x1000 0x2000 0x400 fun _ => 0) := by
  let h₀ := callHart 0x1000 0x2000 0x400 fun _ => 0
  let h₁ := execAll h₀ swapcontextVeryFast
  let h₂ := callHart 0x2000 0x1000 9 h₁.mem
  have hgo : Run.Runs switchMachine (fun h a => SwitchAct.Legal [0x1000, 0x2000] h a) h₀
      ([] ++ [⟨0x1000, 0x2000, h₀, h₁⟩]) h₁ :=
    .next (a := .swap 0x1000 0x2000) .start (by simp [SwitchAct.Legal, callHart, h₀]) rfl
  have hwork : Run.Runs switchMachine (fun h a => SwitchAct.Legal [0x1000, 0x2000] h a) h₀
      ([] ++ [⟨0x1000, 0x2000, h₀, h₁⟩] ++ []) h₂ :=
    .next (a := .compute h₂) hgo (fun _ _ _ _ => rfl) rfl
  have hback := hwork.next (a := .swap 0x2000 0x1000)
    (by simp [SwitchAct.Legal, callHart, h₂]) rfl
  exact ⟨_, _, _, _, hback, List.prefix_rfl,
    switch_lawful twoRecords_apart hback List.prefix_rfl, rfl, rfl⟩

end ThletEvaluation.Shinjuku.ContextFast
