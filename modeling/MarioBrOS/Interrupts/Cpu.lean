import MarioBrOS.Scheduler.Table
import Mathlib.Data.BitVec

/-!
# The processor in an interrupt

The part of the processor that `isr_asm.s`, `irq_asm.s` and `syscall_asm.s` use: the registers, the
stack, and the instructions of the three files. Memory is seen as words, since the code below only
touches whole words of the stack. A C function is whatever it does to the processor; `Cdecl` is what
its callers rely on.

`struct regs` (`types.h`) is what the stack looks like in a handler, lowest address first
(`regsAt`).
-/

namespace MarioBrOS.Interrupts

open Scheduler (Regs)

/-- A word of the processor. -/
abbrev Word := BitVec 32

/-- The general registers. -/
inductive Reg where
  | eax | ecx | edx | ebx | esp | ebp | esi | edi
  deriving DecidableEq, Repr

/-- The segment registers. -/
inductive Seg where
  | cs | ss | ds | es | fs | gs
  deriving DecidableEq, Repr

/-- The registers. -/
@[ext]
structure File where
  reg : Reg → Word
  seg : Seg → BitVec 16
  eip : Word
  eflags : Word

/-- The processor and its memory, with the variables of the kernel apart from the words that the
stubs use. -/
structure Cpu (σ : Type) extends File where
  mem : Word → Word
  vars : σ

variable {σ : Type}

/-- The word number `k` from the address `p` on. -/
def wordAt (mem : Word → Word) (p : Word) (k : Nat) : Word := mem (p + BitVec.ofNat 32 (4 * k))

/-- A `struct regs` in memory. -/
def regsAt (mem : Word → Word) (p : Word) : Regs where
  gs := wordAt mem p 0
  fs := wordAt mem p 1
  es := wordAt mem p 2
  ds := wordAt mem p 3
  edi := wordAt mem p 4
  esi := wordAt mem p 5
  ebp := wordAt mem p 6
  esp := wordAt mem p 7
  ebx := wordAt mem p 8
  edx := wordAt mem p 9
  ecx := wordAt mem p 10
  eax := wordAt mem p 11
  intNo := wordAt mem p 12
  errCode := wordAt mem p 13
  eip := wordAt mem p 14
  cs := wordAt mem p 15
  eflags := wordAt mem p 16
  useresp := wordAt mem p 17
  ss := wordAt mem p 18

namespace Cpu

/-- The word number `k` of the stack. -/
def peek (c : Cpu σ) (k : Nat) : Word := wordAt c.mem (c.reg .esp) k

/-- Sets a register. -/
def set (r : Reg) (v : Word) (c : Cpu σ) : Cpu σ := { c with reg := Function.update c.reg r v }

/-- Sets a segment register. -/
def setSeg (s : Seg) (v : BitVec 16) (c : Cpu σ) : Cpu σ :=
  { c with seg := Function.update c.seg s v }

/-- Pushes a word. -/
def push (v : Word) (c : Cpu σ) : Cpu σ :=
  { c with
    reg := Function.update c.reg .esp (c.reg .esp - 4)
    mem := Function.update c.mem (c.reg .esp - 4) v }

/-- Takes `n` words off the stack. -/
def drop (n : Nat) (c : Cpu σ) : Cpu σ := c.set .esp (c.reg .esp + BitVec.ofNat 32 (4 * n))

/-- Interrupts off: the flag `IF` is cleared. -/
def cli (c : Cpu σ) : Cpu σ := { c with eflags := c.eflags &&& ~~~ 0x200 }

/-- Goes on at the address `v`. -/
def goto (v : Word) (c : Cpu σ) : Cpu σ := { c with eip := v }

/-- The privilege level: the lowest two bits of `cs`. -/
def cpl (c : Cpu σ) : Nat := (c.seg .cs).toNat % 4

end Cpu

/-- The C functions that the stubs call. -/
inductive CFun where
  | faultHandler
  | irqHandler
  | syscallHandler
  deriving DecidableEq, Repr

/-- The instructions of the stubs. `call f` stands for `mov eax, f` and `call eax`. -/
inductive Instr where
  | pushWord (v : Word)
  | cli
  | pushad
  | popad
  | pushReg (r : Reg)
  | popReg (r : Reg)
  | pushSeg (s : Seg)
  | popSeg (s : Seg)
  | movAx (v : BitVec 16)
  | movSegAx (s : Seg)
  | movEaxEsp
  | call (f : CFun)
  | addEsp (v : Word)
  | iret
  deriving DecidableEq, Repr

/-- The C functions: where they are, where their callers go on, and what they do. -/
structure Env (σ : Type) where
  entry : CFun → Word
  next : CFun → Word
  callee : CFun → Cpu σ → Cpu σ

open Cpu in
/-- One instruction. -/
def exec (env : Env σ) (c : Cpu σ) : Instr → Cpu σ
  | .pushWord v => c.push v
  | .cli => c.cli
  | .pushad =>
    let c' := (((c.push (c.reg .eax)).push (c.reg .ecx)).push (c.reg .edx)).push (c.reg .ebx)
    (((c'.push (c.reg .esp)).push (c.reg .ebp)).push (c.reg .esi)).push (c.reg .edi)
  | .popad =>
    let c' := ((c.set .edi (c.peek 0)).set .esi (c.peek 1)).set .ebp (c.peek 2)
    let c' := ((c'.set .ebx (c.peek 4)).set .edx (c.peek 5)).set .ecx (c.peek 6)
    (c'.set .eax (c.peek 7)).drop 8
  | .pushReg r => c.push (c.reg r)
  | .popReg r => (c.drop 1).set r (c.peek 0)
  | .pushSeg s => c.push ((c.seg s).setWidth 32)
  | .popSeg s => (c.drop 1).setSeg s ((c.peek 0).setWidth 16)
  | .movAx v => c.set .eax ((c.reg .eax).extractLsb' 16 16 ++ v)
  | .movSegAx s => c.setSeg s ((c.reg .eax).setWidth 16)
  | .movEaxEsp => c.set .eax (c.reg .esp)
  | .call f => env.callee f ((c.set .eax (env.entry f)).push (env.next f))
  | .addEsp v => c.set .esp (c.reg .esp + v)
  | .iret =>
    let c' := { c.setSeg .cs ((c.peek 1).setWidth 16) with eip := c.peek 0, eflags := c.peek 2 }
    -- a return to a process also loads its stack
    if c.cpl < (c.peek 1).toNat % 4 then
      (c'.set .esp (c.peek 3)).setSeg .ss ((c.peek 4).setWidth 16)
    else
      c'.drop 3

/-- Instructions, one after the other. -/
def execAll (env : Env σ) (c : Cpu σ) (is : List Instr) : Cpu σ := is.foldl (exec env) c

/-! ## The stack -/

variable {c : Cpu σ} {v p : Word} {k n : Nat} {r r' : Reg} {s s' : Seg}

@[simp] lemma push_seg : (c.push v).seg = c.seg := rfl

@[simp] lemma push_eip : (c.push v).eip = c.eip := rfl

@[simp] lemma push_vars : (c.push v).vars = c.vars := rfl

@[simp] lemma push_eflags : (c.push v).eflags = c.eflags := rfl

@[simp] lemma push_esp : (c.push v).reg .esp = c.reg .esp - 4 := by
  simp [Cpu.push]

@[simp] lemma push_reg (h : r ≠ .esp) : (c.push v).reg r = c.reg r := Function.update_of_ne h _ _

@[simp] lemma set_seg : (c.set r v).seg = c.seg := rfl

@[simp] lemma set_eip : (c.set r v).eip = c.eip := rfl

@[simp] lemma set_eflags : (c.set r v).eflags = c.eflags := rfl

@[simp] lemma set_vars : (c.set r v).vars = c.vars := rfl

@[simp] lemma set_mem : (c.set r v).mem = c.mem := rfl

@[simp] lemma set_reg_self : (c.set r v).reg r = v := by
  simp [Cpu.set]

@[simp] lemma set_reg (h : r' ≠ r) : (c.set r v).reg r' = c.reg r' := Function.update_of_ne h _ _

@[simp] lemma setSeg_reg {u : BitVec 16} : (c.setSeg s u).reg = c.reg := rfl

@[simp] lemma setSeg_eip {u : BitVec 16} : (c.setSeg s u).eip = c.eip := rfl

@[simp] lemma setSeg_eflags {u : BitVec 16} : (c.setSeg s u).eflags = c.eflags := rfl

@[simp] lemma setSeg_vars {u : BitVec 16} : (c.setSeg s u).vars = c.vars := rfl

@[simp] lemma setSeg_mem {u : BitVec 16} : (c.setSeg s u).mem = c.mem := rfl

@[simp] lemma setSeg_seg_self {u : BitVec 16} : (c.setSeg s u).seg s = u := by
  simp [Cpu.setSeg]

@[simp] lemma setSeg_seg {u : BitVec 16} (h : s' ≠ s) : (c.setSeg s u).seg s' = c.seg s' :=
  Function.update_of_ne h _ _

@[simp] lemma cli_reg : c.cli.reg = c.reg := rfl

@[simp] lemma cli_seg : c.cli.seg = c.seg := rfl

@[simp] lemma cli_vars : c.cli.vars = c.vars := rfl

@[simp] lemma cli_mem : c.cli.mem = c.mem := rfl

@[simp] lemma cli_eip : c.cli.eip = c.eip := rfl

@[simp] lemma goto_reg : (c.goto v).reg = c.reg := rfl

@[simp] lemma goto_seg : (c.goto v).seg = c.seg := rfl

@[simp] lemma goto_vars : (c.goto v).vars = c.vars := rfl

@[simp] lemma goto_mem : (c.goto v).mem = c.mem := rfl

@[simp] lemma goto_eip : (c.goto v).eip = v := rfl

@[simp] lemma goto_eflags : (c.goto v).eflags = c.eflags := rfl

@[simp] lemma peek_set (h : .esp ≠ r) : (c.set r v).peek k = c.peek k := by
  simp [Cpu.peek, h]

@[simp] lemma peek_setSeg {u : BitVec 16} : (c.setSeg s u).peek k = c.peek k := rfl

@[simp] lemma peek_cli : c.cli.peek k = c.peek k := rfl

@[simp] lemma peek_goto : (c.goto v).peek k = c.peek k := rfl

@[simp] lemma peek_push_zero : (c.push v).peek 0 = v := by
  simp [Cpu.peek, wordAt, Cpu.push]

@[simp] lemma drop_seg : (c.drop n).seg = c.seg := rfl

@[simp] lemma drop_eip : (c.drop n).eip = c.eip := rfl

@[simp] lemma drop_eflags : (c.drop n).eflags = c.eflags := rfl

@[simp] lemma drop_vars : (c.drop n).vars = c.vars := rfl

@[simp] lemma drop_mem : (c.drop n).mem = c.mem := rfl

@[simp] lemma drop_esp : (c.drop n).reg .esp = c.reg .esp + BitVec.ofNat 32 (4 * n) := set_reg_self

@[simp] lemma drop_reg (h : r ≠ .esp) : (c.drop n).reg r = c.reg r := set_reg h

@[simp] lemma peek_drop : (c.drop n).peek k = c.peek (n + k) := by
  simp only [Cpu.peek, wordAt, drop_esp, drop_mem, BitVec.add_assoc, ← BitVec.ofNat_add,
    ← Nat.mul_add]

/-- A push leaves the words further up as they are. -/
lemma wordAt_push {j : Nat} (hp : p = c.reg .esp + BitVec.ofNat 32 (4 * j)) (h : j + k < 2 ^ 29) :
    wordAt (c.push v).mem p k = wordAt c.mem p k := by
  apply Function.update_of_ne
  rw [hp]
  bv_omega

/-- Below the top. -/
lemma peek_push_succ (h : k < 2 ^ 29) : (c.push v).peek (k + 1) = c.peek k := by
  have e : c.reg .esp - 4 + BitVec.ofNat 32 (4 * (k + 1)) =
      c.reg .esp + BitVec.ofNat 32 (4 * k) := by
    bv_omega
  rw [Cpu.peek, push_esp, wordAt, e]
  exact wordAt_push (j := 0) (by simp) (by omega)

end MarioBrOS.Interrupts
