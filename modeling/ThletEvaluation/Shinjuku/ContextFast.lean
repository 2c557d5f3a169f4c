import ThletEvaluation.Lib.Memory
import ThletEvaluation.Lib.Run

/-!
# The context switch in assembly

`swapcontext_very_fast` of `context_fast.S`, instruction by instruction, on a hart
with the general registers, `sstatus`, the program counter and byte memory. The
offsets are those of `context.h`; a `kcontext_t` is 64 saved words and `stack_base`.
-/

namespace ThletEvaluation.Shinjuku.ContextFast

open Memory
set_option autoImplicit false

inductive Reg where
  | ra | sp | gp | tp
  | s0 | s1 | s2 | s3 | s4 | s5 | s6 | s7 | s8 | s9 | s10 | s11
  | a0 | a1 | a2 | a3 | a4 | a5 | a6 | a7
  | t0 | t1 | t2 | t3 | t4 | t5 | t6
  deriving DecidableEq, Repr

def O_REG_RA : Nat := 0x00
def O_REG_SP : Nat := 0x08
def O_REG_GP : Nat := 0x10
def O_REG_TP : Nat := 0x18
def O_REG_S0 : Nat := 0x20
def O_REG_S1 : Nat := 0x28
def O_REG_S2 : Nat := 0x30
def O_REG_S3 : Nat := 0x38
def O_REG_S4 : Nat := 0x40
def O_REG_S5 : Nat := 0x48
def O_REG_S6 : Nat := 0x50
def O_REG_S7 : Nat := 0x58
def O_REG_S8 : Nat := 0x60
def O_REG_S9 : Nat := 0x68
def O_REG_S10 : Nat := 0x70
def O_REG_S11 : Nat := 0x78
def O_REG_A0 : Nat := 0x80
def O_REG_A1 : Nat := 0x88
def O_REG_A2 : Nat := 0x90
def O_REG_A3 : Nat := 0x98
def O_REG_A4 : Nat := 0xA0
def O_REG_A5 : Nat := 0xA8
def O_REG_A6 : Nat := 0xB0
def O_REG_A7 : Nat := 0xB8
def O_REG_T0 : Nat := 0xC0
def O_REG_T1 : Nat := 0xC8
def O_REG_T2 : Nat := 0xD0
def O_REG_T3 : Nat := 0xD8
def O_REG_T4 : Nat := 0xE0
def O_REG_T5 : Nat := 0xE8
def O_REG_T6 : Nat := 0xF0
def O_REG_SSTATUS : Nat := 0xF8
def KCTX_SIZE : Nat := 0x100

/-- `REG_NUMS` words of 8 bytes come before `stack_base`. -/
def O_STACK_BASE : Nat := 64 * 8

def KCONTEXT_BYTES : Nat := O_STACK_BASE + 8

structure Hart where
  regs : Reg → Word
  sstatus : Word
  pc : Word
  mem : Mem

inductive Instr where
  | sd (src : Reg) (off : Nat) (base : Reg)
  | ld (dst : Reg) (off : Nat) (base : Reg)
  | csrr (dst : Reg)
  | csrw (src : Reg)
  | li (dst : Reg) (imm : Word)
  | ret

def Hart.set (h : Hart) (r : Reg) (v : Word) : Hart := { h with regs := Function.update h.regs r v }

/-- The two CSR instructions access `sstatus`; `ret` jumps to `ra`. -/
def Instr.exec (h : Hart) : Instr → Hart
  | .sd src off base =>
    { h with mem := store h.mem (h.regs base + BitVec.ofNat 64 off) (h.regs src) }
  | .ld dst off base => h.set dst (load h.mem (h.regs base + BitVec.ofNat 64 off))
  | .csrr dst => h.set dst h.sstatus
  | .csrw src => { h with sstatus := h.regs src }
  | .li dst imm => h.set dst imm
  | .ret => { h with pc := h.regs .ra }

def execAll (h : Hart) (code : List Instr) : Hart := code.foldl Instr.exec h

def swapcontextVeryFast : List Instr := [
  .sd .ra O_REG_RA .a0,
  .sd .sp O_REG_SP .a0,
  .sd .gp O_REG_GP .a0,
  .sd .tp O_REG_TP .a0,
  .sd .s0 O_REG_S0 .a0,
  .sd .s1 O_REG_S1 .a0,
  .sd .s2 O_REG_S2 .a0,
  .sd .s3 O_REG_S3 .a0,
  .sd .s4 O_REG_S4 .a0,
  .sd .s5 O_REG_S5 .a0,
  .sd .s6 O_REG_S6 .a0,
  .sd .s7 O_REG_S7 .a0,
  .sd .s8 O_REG_S8 .a0,
  .sd .s9 O_REG_S9 .a0,
  .sd .s10 O_REG_S10 .a0,
  .sd .s11 O_REG_S11 .a0,
  .sd .a0 O_REG_A0 .a0,
  .sd .a1 O_REG_A1 .a0,
  .sd .a2 O_REG_A2 .a0,
  .sd .a3 O_REG_A3 .a0,
  .sd .a4 O_REG_A4 .a0,
  .sd .a5 O_REG_A5 .a0,
  .sd .a6 O_REG_A6 .a0,
  .sd .a7 O_REG_A7 .a0,
  .sd .t0 O_REG_T0 .a0,
  .sd .t1 O_REG_T1 .a0,
  .sd .t2 O_REG_T2 .a0,
  .sd .t3 O_REG_T3 .a0,
  .sd .t4 O_REG_T4 .a0,
  .sd .t5 O_REG_T5 .a0,
  .sd .t6 O_REG_T6 .a0,
  .csrr .t0,
  .sd .t0 O_REG_SSTATUS .a0,
  .ld .t0 O_REG_SSTATUS .a1,
  .csrw .t0,
  .ld .sp O_REG_SP .a1,
  .ld .s0 O_REG_S0 .a1,
  .ld .s1 O_REG_S1 .a1,
  .ld .s2 O_REG_S2 .a1,
  .ld .s3 O_REG_S3 .a1,
  .ld .s4 O_REG_S4 .a1,
  .ld .s5 O_REG_S5 .a1,
  .ld .s6 O_REG_S6 .a1,
  .ld .s7 O_REG_S7 .a1,
  .ld .s8 O_REG_S8 .a1,
  .ld .s9 O_REG_S9 .a1,
  .ld .s10 O_REG_S10 .a1,
  .ld .s11 O_REG_S11 .a1,
  .ld .ra O_REG_RA .a1,
  .ld .a2 O_REG_A2 .a1,
  .ld .a3 O_REG_A3 .a1,
  .ld .t0 O_REG_T0 .a1,
  .ld .t1 O_REG_T1 .a1,
  .ld .t2 O_REG_T2 .a1,
  .ld .t3 O_REG_T3 .a1,
  .ld .t4 O_REG_T4 .a1,
  .ld .t5 O_REG_T5 .a1,
  .ld .t6 O_REG_T6 .a1,
  .ld .a1 O_REG_A1 .a1,
  .li .a0 0,
  .ret]

/-! ## Coroutines over a set of context records -/

structure Switch where
  old : Word
  new : Word
  before : Hart
  after : Hart

inductive SwitchAct where
  /-- The running code changes registers and its own memory. -/
  | compute (h : Hart)
  | swap (old new : Word)

def switchStep (h : Hart) : SwitchAct → Option (Hart × List Switch)
  | .compute h' => some (h', [])
  | .swap old new =>
    let h' := execAll h swapcontextVeryFast
    some (h', [⟨old, new, h, h'⟩])

def switchMachine : Run.Machine Hart SwitchAct Switch := ⟨switchStep⟩

/-- Calls pass two of the records in `a0` and `a1`; the running code leaves the bytes
of the records alone. -/
def SwitchAct.Legal (records : List Word) (h : Hart) : SwitchAct → Prop
  | .compute h' => ∀ c ∈ records, ∀ x, InRange c KCONTEXT_BYTES x → h'.mem x = h.mem x
  | .swap old new => old ∈ records ∧ new ∈ records ∧ h.regs .a0 = old ∧ h.regs .a1 = new

def NonOverlapping (records : List Word) : Prop :=
  ∀ c ∈ records, ∀ d ∈ records, c ≠ d →
    ∀ x, InRange c KCONTEXT_BYTES x → ¬ InRange d KCONTEXT_BYTES x

/-- The hart at the entry of the last call that saved into record `c`. -/
def lastSave (c : Word) (tr : List Switch) : Option Hart :=
  tr.foldl (fun last e => if e.old = c then some e.before else last) none

/-- What a switch restores besides `pc`, `a0` and `sstatus`. -/
def restored : List Reg :=
  [.ra, .sp, .s0, .s1, .s2, .s3, .s4, .s5, .s6, .s7, .s8, .s9, .s10, .s11, .a1, .a2, .a3,
    .t0, .t1, .t2, .t3, .t4, .t5, .t6]

end ThletEvaluation.Shinjuku.ContextFast
