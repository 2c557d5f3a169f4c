import ThletEvaluation.Shinjuku.Common
import ThletEvaluation.Shinjuku.ContextSwitch

/-!
# Entering a fresh context

`handle_new_packet` takes a snapshot of the registers into the context, overwrites some of the
saved words by `make_kcontext` and swaps into it. Between the three calls runs compiled code,
which may put anything into the registers and leaves the two records alone.
-/

namespace ThletEvaluation.Shinjuku.ContextFast

open Memory
set_option autoImplicit false

def getcontextFast : List Instr := [
  .sd .ra O_REG_RA .a0,
  .sd .sp O_REG_SP .a0,
  .sd .gp O_REG_GP .a0,
  .sd .tp O_REG_TP .a0,
  .sd .s0 O_REG_S0 .a0,
  .sd .s1 O_REG_S1 .a0,
  .sd .s2 O_REG_S2 .a0,
  .sd .s3 O_REG_S3 .a0,
  .sd .s4 O_REG_S4 .a0,
  .sd .s5 O_REG_S5 .a0,
  .sd .s6 O_REG_S6 .a0,
  .sd .s7 O_REG_S7 .a0,
  .sd .s8 O_REG_S8 .a0,
  .sd .s9 O_REG_S9 .a0,
  .sd .s10 O_REG_S10 .a0,
  .sd .s11 O_REG_S11 .a0,
  .sd .a0 O_REG_A0 .a0,
  .sd .a1 O_REG_A1 .a0,
  .sd .a2 O_REG_A2 .a0,
  .sd .a3 O_REG_A3 .a0,
  .sd .a4 O_REG_A4 .a0,
  .sd .a5 O_REG_A5 .a0,
  .sd .a6 O_REG_A6 .a0,
  .sd .a7 O_REG_A7 .a0,
  .sd .t0 O_REG_T0 .a0,
  .sd .t1 O_REG_T1 .a0,
  .sd .t2 O_REG_T2 .a0,
  .sd .t3 O_REG_T3 .a0,
  .sd .t4 O_REG_T4 .a0,
  .sd .t5 O_REG_T5 .a0,
  .sd .t6 O_REG_T6 .a0,
  .csrr .t0,
  .sd .t0 O_REG_SSTATUS .a0,
  .li .a0 0,
  .ret]

structure Args where
  arg0 : Word
  arg1 : Word
  arg2 : Word
  arg3 : Word

def stackTop (m : Mem) (c : Word) : Word :=
  load m (c + BitVec.ofNat 64 O_STACK_BASE) + SHINJUKU_THREAD_STACK_SIZE.toBitVec

/-- The assignments of `make_kcontext` in their order. -/
def makeFields (top func : Word) (args : Args) (sstatus gp : Word) : List (Nat × Word) :=
  [(O_REG_SP, top &&& ~~~15#64), (O_REG_RA, func), (O_REG_A0, args.arg0),
    (O_REG_A1, args.arg1), (O_REG_A2, args.arg2), (O_REG_A3, args.arg3),
    (O_REG_SSTATUS, sstatus), (O_REG_GP, gp)]

/-- `make_kcontext`; `sstatus` and `gp` are the current values of these registers. -/
def makeKcontext (m : Mem) (c func : Word) (args : Args) (sstatus gp : Word) : Mem :=
  storeAll m c (makeFields (stackTop m c) func args sstatus gp)

def SameRecord (c : Word) (m m' : Mem) : Prop := ∀ x, InRange c KCONTEXT_BYTES x → m' x = m x

/-- The three calls of `handle_new_packet`: `h₀` enters `getcontext_fast`, `h₁` enters
`make_kcontext` and `h₂` enters `swapcontext_very_fast`. -/
structure FreshCalls (main c func : Word) (args : Args) (h₀ h₁ h₂ : Hart) : Prop where
  getArg : h₀.regs .a0 = c
  gotten : SameRecord c (execAll h₀ getcontextFast).mem h₁.mem
  made : SameRecord c (makeKcontext h₁.mem c func args h₁.sstatus (h₁.regs .gp)) h₂.mem
  swapOld : h₂.regs .a0 = main
  swapNew : h₂.regs .a1 = c

/-- A function is entered with its arguments, on a stack of its own that is aligned down. -/
structure Entered (func : Word) (args : Args) (stackBase : Word) (h : Hart) : Prop where
  pc : h.pc = func
  a0 : h.regs .a0 = args.arg0
  a1 : h.regs .a1 = args.arg1
  a2 : h.regs .a2 = args.arg2
  a3 : h.regs .a3 = args.arg3
  sp : (h.regs .sp).toNat =
    (stackBase + SHINJUKU_THREAD_STACK_SIZE.toBitVec).toNat / 16 * 16

theorem getcontextFast_mem (h : Hart) :
    (execAll h getcontextFast).mem = storeAll h.mem (h.regs .a0) (savedFields h) := by
  have hcode : getcontextFast = saveCode savedRegs ++
      ([.csrr .t0, .sd .t0 O_REG_SSTATUS .a0, .li .a0 0, .ret] : List Instr) := rfl
  have hfields : storeAll h.mem (h.regs .a0) (savedFields h) =
      store (storeAll h.mem (h.regs .a0) (savedRegs.map fun r => (slot r, h.regs r)))
        (h.regs .a0 + BitVec.ofNat 64 O_REG_SSTATUS) h.sstatus := List.foldl_append
  rw [hcode, execAll_append, exec_saveCode, hfields]
  rfl

theorem makeFields_wf (top func : Word) (args : Args) (sstatus gp : Word) :
    Fields (makeFields top func args sstatus gp) KCTX_SIZE := by
  have hoffs : (makeFields top func args sstatus gp).map Prod.fst = [O_REG_SP, O_REG_RA,
    O_REG_A0, O_REG_A1, O_REG_A2, O_REG_A3, O_REG_SSTATUS, O_REG_GP] := rfl
  exact .of_offsets hoffs (by decide) (by decide) (by decide)

/-- The bits below the alignment are cleared. -/
theorem toNat_clear_low (x : Word) : (x &&& ~~~15#64).toNat = x.toNat / 16 * 16 := by
  have hdisjoint : (x &&& ~~~15#64) &&& (x &&& 15#64) = 0#64 := by
    rw [BitVec.and_comm x 15#64, BitVec.and_assoc, ← BitVec.and_assoc (~~~15#64),
      BitVec.not_and_self]
    simp
  have hjoin : (x &&& ~~~15#64) ||| (x &&& 15#64) = x := by
    rw [← BitVec.and_or_distrib_left, BitVec.or_comm, BitVec.or_not_self, BitVec.and_allOnes]
  have hlow : (x &&& 15#64).toNat = x.toNat % 16 := by
    rw [BitVec.toNat_and]
    exact Nat.and_two_pow_sub_one_eq_mod x.toNat 4
  have hsum := BitVec.toNat_add_of_and_eq_zero hdisjoint
  rw [BitVec.add_eq_or_of_and_eq_zero _ _ hdisjoint, hjoin, hlow] at hsum
  omega

section Entry
variable {main c func : Word} {args : Args} {h₀ h₁ h₂ : Hart}

/-- The snapshot does not reach `stack_base`. -/
theorem FreshCalls.stackTop_eq (hcalls : FreshCalls main c func args h₀ h₁ h₂) :
    stackTop h₁.mem c = stackTop h₀.mem c := by
  have hsaved : load (execAll h₀ getcontextFast).mem (c + BitVec.ofNat 64 O_STACK_BASE) =
      load h₀.mem (c + BitVec.ofNat 64 O_STACK_BASE) := by
    rw [getcontextFast_mem, hcalls.getArg]
    apply load_storeAll_apart (by decide)
    intro f hf
    have hinside := (savedFields_wf h₀).inside f hf
    simp only [KCTX_SIZE] at hinside
    simp only [O_STACK_BASE]
    omega
  rw [stackTop, load_frame (by decide) (by decide) hcalls.gotten, hsaved, stackTop]

/-- A word that `make_kcontext` has stored is still there after the swap has saved the caller
into another record. -/
theorem FreshCalls.load_made (hcalls : FreshCalls main c func args h₀ h₁ h₂)
    (hapart : NonOverlapping [main, c]) (hne : main ≠ c) {f : Nat × Word}
    (hf : f ∈ makeFields (stackTop h₁.mem c) func args h₁.sstatus (h₁.regs .gp)) :
    load (execAll h₂ swapcontextVeryFast).mem (c + BitVec.ofNat 64 f.1) = f.2 := by
  have hwf := makeFields_wf (stackTop h₁.mem c) func args h₁.sstatus (h₁.regs .gp)
  have hinside : f.1 + 8 ≤ KCONTEXT_BYTES := Nat.le_trans (hwf.inside f hf) (by decide)
  have hkeep : ∀ x, InRange c KCONTEXT_BYTES x →
      (execAll h₂ swapcontextVeryFast).mem x = h₂.mem x := by
    intro x hx
    apply swap_frame
    intro hmain
    rw [hcalls.swapOld] at hmain
    exact hapart main (by simp) c (by simp) hne x (inRange_record hmain) hx
  rw [load_frame hinside (by decide) hkeep, load_frame hinside (by decide) hcalls.made]
  exact load_storeAll hwf hf

/-- For every caller and every context with a record of its own: the entered function finds
its arguments exactly when the first of them is the success code of the swap. -/
theorem fresh_context_entered_iff (hcalls : FreshCalls main c func args h₀ h₁ h₂)
    (hapart : NonOverlapping [main, c]) (hne : main ≠ c) :
    Entered func args (load h₀.mem (c + BitVec.ofNat 64 O_STACK_BASE))
        (execAll h₂ swapcontextVeryFast) ↔ args.arg0 = 0 := by
  obtain ⟨-, hregs, ha0, -, hpc⟩ := swap_spec h₂
  have hload := fun f => hcalls.load_made hapart hne (f := f)
  rw [hcalls.swapNew] at hregs
  revert hregs ha0 hpc hload
  generalize execAll h₂ swapcontextVeryFast = h'
  intro hregs ha0 hpc hload
  have made (r : Reg) (v : Word) (hr : r ∈ restored)
      (hf : (slot r, v) ∈ makeFields (stackTop h₁.mem c) func args h₁.sstatus (h₁.regs .gp)) :
      h'.regs r = v := (hregs r hr).trans (hload (slot r, v) hf)
  constructor
  · intro hentered
    rw [← hentered.a0, ha0]
  · intro hzero
    refine ⟨?_, ha0.trans hzero.symm, ?_, ?_, ?_, ?_⟩
    · exact hpc.trans (made .ra func (by decide) (by simp [makeFields, slot]))
    · exact made .a1 args.arg1 (by decide) (by simp [makeFields, slot])
    · exact made .a2 args.arg2 (by decide) (by simp [makeFields, slot])
    · exact made .a3 args.arg3 (by decide) (by simp [makeFields, slot])
    · have hsp := made .sp (stackTop h₁.mem c &&& ~~~15#64) (by decide)
        (by simp [makeFields, slot])
      rw [hsp, toNat_clear_low, hcalls.stackTop_eq, stackTop]

end Entry

section Sample

/-- The caller enters `getcontext_fast` with the context at 0x2000 in a register. -/
def snapshotHart : Hart := callHart 0x2000 0 0x400 fun _ => 0

/-- Right after the snapshot, with nothing changed. -/
def makeHart : Hart := execAll snapshotHart getcontextFast

def swapHart (args : Args) : Hart := callHart 0x1000 0x2000 9
  (makeKcontext makeHart.mem 0x2000 0x7000 args makeHart.sstatus (makeHart.regs .gp))

theorem freshCalls_sample (args : Args) :
    FreshCalls 0x1000 0x2000 0x7000 args snapshotHart makeHart (swapHart args) :=
  ⟨rfl, fun _ _ => rfl, fun _ _ => rfl, rfl, rfl⟩

theorem fresh_context_entered_iff_zero :
    FreshCalls 0x1000 0x2000 0x7000 ⟨0, 1, 2, 3⟩ snapshotHart makeHart (swapHart ⟨0, 1, 2, 3⟩) ∧
      Entered 0x7000 ⟨0, 1, 2, 3⟩
        (load snapshotHart.mem (0x2000 + BitVec.ofNat 64 O_STACK_BASE))
        (execAll (swapHart ⟨0, 1, 2, 3⟩) swapcontextVeryFast) :=
  ⟨freshCalls_sample _, (fresh_context_entered_iff (freshCalls_sample _) twoRecords_apart
    (by decide)).mpr rfl⟩

/-- The spin count 5 of a packet: `generic_work` is entered with 0. -/
theorem fresh_context_loses_first_argument :
    ¬ ∀ (main c func : Word) (args : Args) (h₀ h₁ h₂ : Hart),
      FreshCalls main c func args h₀ h₁ h₂ → NonOverlapping [main, c] → main ≠ c →
        Entered func args (load h₀.mem (c + BitVec.ofNat 64 O_STACK_BASE))
          (execAll h₂ swapcontextVeryFast) := by
  intro hclaim
  have hentered := hclaim 0x1000 0x2000 0x7000 ⟨5, 0, 0, 0⟩ snapshotHart makeHart
    (swapHart ⟨5, 0, 0, 0⟩) (freshCalls_sample _) twoRecords_apart (by decide)
  have hzero := (swap_spec (swapHart ⟨5, 0, 0, 0⟩)).2.2.1
  exact absurd (hentered.a0.symm.trans hzero) (by decide)

end Sample

end ThletEvaluation.Shinjuku.ContextFast
