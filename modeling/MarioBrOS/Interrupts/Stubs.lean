import MarioBrOS.Interrupts.Cpu
import MarioBrOS.Interrupts.Gdt

/-!
# The interrupt stubs

`isr_asm.s`, `irq_asm.s` and `syscall_asm.s`: what lies between an interrupt and its handler in C. A
stub pushes the number of the interrupt (`Numbered`) and goes on with the common part, which saves
the registers, calls the handler with the address of the frame (`Called`), and restores what the
frame holds when the handler is done (`Restored`). `Handled` is all of it. From a process the frame
is on the kernel's own stack and holds the whole process (`Stub.handled_process`); in the kernel its
last two words belong to the interrupted code (`Stub.handled_kernel`).

The words that are pushed are counted by `Grown`: memory elsewhere is as it was.
-/

namespace MarioBrOS.Interrupts

open Scheduler (Regs)

/-- The common part of the stubs (`isr_asm.s`, `common_interrupt_handler`; `irq_asm.s`,
`common_irq_handler`; the end of `syscall_asm.s`), which calls `f`. -/
def commonHandler (f : CFun) : List Instr :=
  [.pushad, .pushSeg .ds, .pushSeg .es, .pushSeg .fs, .pushSeg .gs, .movAx 0x10, .movSegAx .ds,
    .movSegAx .es, .movSegAx .fs, .movSegAx .gs, .movEaxEsp, .pushReg .eax, .call f, .popReg .eax,
    .popSeg .gs, .popSeg .fs, .popSeg .es, .popSeg .ds, .popad, .addEsp 8, .iret]

/-- `isr_asm.s`, `no_error_code_interrupt_handler`. -/
def noErrorCodeInterruptHandler (n : Nat) : List Instr :=
  [.pushWord 0, .cli, .pushWord (BitVec.ofNat 32 n)] ++ commonHandler .faultHandler

/-- `isr_asm.s`, `error_code_interrupt_handler`. -/
def errorCodeInterruptHandler (n : Nat) : List Instr :=
  [.cli, .pushWord (BitVec.ofNat 32 n)] ++ commonHandler .faultHandler

/-- `irq_asm.s`, `interrupt_request_handler`. -/
def interruptRequestHandler (n : Nat) : List Instr :=
  [.pushWord 0, .cli, .pushWord (BitVec.ofNat 32 (32 + n))] ++ commonHandler .irqHandler

/-- `syscall_asm.s`, `common_interrupt_handler`. -/
def commonInterruptHandler : List Instr :=
  [.pushWord 0, .pushWord 0x80] ++ commonHandler .syscallHandler

variable {σ : Type}

/-- The processor enters an interrupt gate: it changes to the kernel's stack if it comes from a
process, and pushes what it needs to come back. -/
def Cpu.enter (tss : Tss) (selector : BitVec 16) (offset : Word) (code : Option Word) (c : Cpu σ) :
    Cpu σ :=
  let c₁ :=
    if 0 < c.cpl then
      (((c.set .esp tss.esp0).setSeg .ss tss.ss0).push ((c.seg .ss).setWidth 32)).push (c.reg .esp)
    else c
  let c₂ := ((c₁.push c.eflags).push ((c.seg .cs).setWidth 32)).push c.eip
  let c₃ := code.elim c₂ c₂.push
  ((c₃.setSeg .cs selector).cli).goto offset

variable {env : Env σ} {c : Cpu σ} {f : CFun}

@[simp] lemma enter_vars (tss : Tss) (selector : BitVec 16) (offset : Word) (code : Option Word) :
    (c.enter tss selector offset code).vars = c.vars := by
  by_cases hc : 0 < c.cpl
  · cases code <;> simp [Cpu.enter, hc]
  · cases code <;> simp [Cpu.enter, hc]

/-- The frame that a handler finds when the stub entered the common part in the state `c`. -/
def Cpu.frame (c : Cpu σ) : Regs where
  gs := (c.seg .gs).setWidth 32
  fs := (c.seg .fs).setWidth 32
  es := (c.seg .es).setWidth 32
  ds := (c.seg .ds).setWidth 32
  edi := c.reg .edi
  esi := c.reg .esi
  ebp := c.reg .ebp
  esp := c.reg .esp
  ebx := c.reg .ebx
  edx := c.reg .edx
  ecx := c.reg .ecx
  eax := c.reg .eax
  intNo := c.peek 0
  errCode := c.peek 1
  eip := c.peek 2
  cs := c.peek 3
  eflags := c.peek 4
  useresp := c.peek 5
  ss := c.peek 6

/-- The state in which the common part has pushed the registers. -/
def Cpu.saved (env : Env σ) (c : Cpu σ) : Cpu σ :=
  execAll env c ((commonHandler .faultHandler).take 11)

/-- The state in which the handler is called. -/
def Cpu.atCall (env : Env σ) (f : CFun) (c : Cpu σ) : Cpu σ :=
  (((c.saved env).push ((c.saved env).reg .eax)).set .eax (env.entry f)).push (env.next f)

lemma saved_esp : (c.saved env).reg .esp = c.reg .esp - 48 := by
  simp [Cpu.saved, execAll, commonHandler, exec]
  bv_omega

/-- The stack is the frame. -/
lemma saved_frame (env : Env σ) (c : Cpu σ) :
    regsAt (c.saved env).mem ((c.saved env).reg .esp) = c.frame := by
  have h (k : Nat) : wordAt (c.saved env).mem ((c.saved env).reg .esp) k = (c.saved env).peek k :=
    rfl
  simp only [regsAt, h]
  simp [Cpu.saved, execAll, commonHandler, exec, Cpu.frame, peek_push_succ]

/-- The handler gets the address of the frame. -/
lemma atCall_frame : (c.atCall env f).reg .esp = (c.saved env).reg .esp - 8 ∧
    (c.atCall env f).peek 1 = (c.saved env).reg .esp ∧
    regsAt (c.atCall env f).mem ((c.saved env).reg .esp) = c.frame := by
  have heax : (c.saved env).reg .eax = (c.saved env).reg .esp := by
    simp [Cpu.saved, execAll, commonHandler, exec]
  refine ⟨?_, ?_, ?_⟩
  · simp only [Cpu.atCall, push_esp, set_reg, ne_eq, reduceCtorEq, not_false_eq_true]
    bv_omega
  · simp [Cpu.atCall, heax, peek_push_succ]
  · rw [← saved_frame env c]
    have h (k : Nat) (hk : k < 19) : wordAt (c.atCall env f).mem ((c.saved env).reg .esp) k =
        wordAt (c.saved env).mem ((c.saved env).reg .esp) k := by
      rw [Cpu.atCall, wordAt_push (j := 1) _ (by omega), set_mem, wordAt_push (j := 0) _ (by omega)]
      · simp
      · simp
    simp only [regsAt, h, Nat.reduceLT]

/-- The registers of a frame from a process. -/
def File.ofRegs (r : Regs) : File where
  reg
    | .eax => r.eax
    | .ecx => r.ecx
    | .edx => r.edx
    | .ebx => r.ebx
    | .esp => r.useresp
    | .ebp => r.ebp
    | .esi => r.esi
    | .edi => r.edi
  seg
    | .cs => r.cs.setWidth 16
    | .ss => r.ss.setWidth 16
    | .ds => r.ds.setWidth 16
    | .es => r.es.setWidth 16
    | .fs => r.fs.setWidth 16
    | .gs => r.gs.setWidth 16
  eip := r.eip
  eflags := r.eflags

/-- What a stub leaves of the state `c` when the handler is done, with the frame at `p`: the
registers of the frame, and the stack of the process it returns to, if it returns to one. -/
structure Restored (p : Word) (c c' : Cpu σ) : Prop where
  mem : c'.mem = c.mem
  vars : c'.vars = c.vars
  eip : c'.eip = (regsAt c.mem p).eip
  eflags : c'.eflags = (regsAt c.mem p).eflags
  reg : ∀ r, r ≠ .esp → c'.reg r = (File.ofRegs (regsAt c.mem p)).reg r
  seg : ∀ s, s ≠ .ss → c'.seg s = (File.ofRegs (regsAt c.mem p)).seg s
  process : c.cpl < (regsAt c.mem p).cs.toNat % 4 →
    c'.reg .esp = (regsAt c.mem p).useresp ∧ c'.seg .ss = (regsAt c.mem p).ss.setWidth 16
  kernel : ¬c.cpl < (regsAt c.mem p).cs.toNat % 4 →
    c'.reg .esp = p + 68 ∧ c'.seg .ss = c.seg .ss

/-- The state in which only the processor's own words are left on the stack. -/
def Cpu.unsaved (env : Env σ) (c : Cpu σ) : Cpu σ :=
  (execAll env c [.popReg .eax, .popSeg .gs, .popSeg .fs, .popSeg .es, .popSeg .ds, .popad]).drop 2

/-- The end of the common part. -/
lemma exec_end : execAll env c ((commonHandler f).drop 13) = exec env (c.unsaved env) .iret := rfl

lemma unsaved_peek (k : Nat) : (c.unsaved env).peek k = c.peek (15 + k) := by
  simp [Cpu.unsaved, execAll, exec, ← Nat.add_assoc]

lemma unsaved_mem (env : Env σ) (c : Cpu σ) : (c.unsaved env).mem = c.mem := by
  simp [Cpu.unsaved, execAll, exec]

lemma unsaved_vars (env : Env σ) (c : Cpu σ) : (c.unsaved env).vars = c.vars := by
  simp [Cpu.unsaved, execAll, exec]

lemma unsaved_esp : (c.unsaved env).reg .esp = c.reg .esp + 60 := by
  simp [Cpu.unsaved, execAll, exec]
  bv_omega

/-- The registers that were pushed by the stub. -/
lemma unsaved_file (env : Env σ) {p : Word} (hpeek : ∀ k, c.peek (k + 1) = wordAt c.mem p k) :
    (∀ r, r ≠ .esp → (c.unsaved env).reg r = (File.ofRegs (regsAt c.mem p)).reg r) ∧
    (∀ s, s ≠ .cs → s ≠ .ss → (c.unsaved env).seg s = (File.ofRegs (regsAt c.mem p)).seg s) ∧
    (c.unsaved env).seg .cs = c.seg .cs ∧ (c.unsaved env).seg .ss = c.seg .ss := by
  refine ⟨fun r hr => ?_, fun s hcs hss => ?_, ?_, ?_⟩
  · cases r with
    | esp => exact absurd rfl hr
    | _ => simp [Cpu.unsaved, execAll, exec, File.ofRegs, regsAt, ← hpeek]
  · cases s with
    | cs => exact absurd rfl hcs
    | ss => exact absurd rfl hss
    | _ => simp [Cpu.unsaved, execAll, exec, File.ofRegs, regsAt, ← hpeek]
  · simp [Cpu.unsaved, execAll, exec]
  · simp [Cpu.unsaved, execAll, exec]

/-- The handler has returned: the rest of the stub restores what the frame says. -/
lemma restored {p : Word} (h : c.reg .esp = p - 4) :
    Restored p c (execAll env c ((commonHandler f).drop 13)) := by
  have hpeek (k : Nat) : c.peek (k + 1) = wordAt c.mem p k := by
    have e : p - 4 + BitVec.ofNat 32 (4 * (k + 1)) = p + BitVec.ofNat 32 (4 * k) := by bv_omega
    rw [Cpu.peek, h, wordAt, e]
    rfl
  obtain ⟨hreg, hseg, hcs, hss⟩ := unsaved_file env hpeek
  have hp (k : Nat) : (c.unsaved env).peek k = wordAt c.mem p (14 + k) := by
    rw [unsaved_peek, ← hpeek, Nat.add_right_comm]
  have hesp : (c.unsaved env).reg .esp = p + 56 := by
    rw [unsaved_esp, h]
    bv_omega
  have hmem := unsaved_mem env c
  have hvars := unsaved_vars env c
  have hcpl : (c.unsaved env).cpl = c.cpl := by rw [Cpu.cpl, hcs, Cpu.cpl]
  rw [exec_end]
  generalize c.unsaved env = d at *
  have hcs' : d.peek 1 = (regsAt c.mem p).cs := hp 1
  by_cases hc : c.cpl < (regsAt c.mem p).cs.toNat % 4
  · -- back to a process: `iret` takes its stack from the frame
    have e : exec env d .iret = _ := if_pos (by rwa [hcpl, hcs'])
    rw [e]
    constructor
    · exact hmem
    · exact hvars
    · exact hp 0
    · exact hp 2
    · intro r hr
      simp [hr, hreg]
    · intro s hs
      by_cases h' : s = .cs
      · subst h'
        simp [hcs', File.ofRegs]
      · simp [hs, h', hseg]
    · intro _
      simp [hp, regsAt]
    · exact absurd hc
  · -- back to the kernel, whose stack stays in use
    have e : exec env d .iret = _ := if_neg (by rwa [hcpl, hcs'])
    rw [e]
    constructor
    · exact hmem
    · exact hvars
    · exact hp 0
    · exact hp 2
    · intro r hr
      simp [hr, hreg]
    · intro s hs
      by_cases h' : s = .cs
      · subst h'
        simp [hcs', File.ofRegs]
      · simp [h', hs, hseg]
    · exact fun h => absurd h hc
    · intro _
      refine ⟨?_, by simp [hss]⟩
      simp [hesp]
      bv_omega

/-- What the stubs rely on: a C function takes its return address off the stack and leaves the
segments of code and stack as they are. -/
structure Env.Cdecl (env : Env σ) : Prop where
  esp : ∀ f c, (env.callee f c).reg .esp = c.reg .esp + 4
  cs : ∀ f c, (env.callee f c).seg .cs = c.seg .cs
  ss : ∀ f c, (env.callee f c).seg .ss = c.seg .ss

/-- The common part calls the handler and restores what the frame says then. -/
lemma common_restored (henv : env.Cdecl) :
    Restored ((c.saved env).reg .esp) (env.callee f (c.atCall env f))
      (execAll env c (commonHandler f)) := by
  have e : execAll env c (commonHandler f) =
      execAll env (env.callee f (c.atCall env f)) ((commonHandler f).drop 13) := rfl
  rw [e]
  apply restored
  rw [henv.esp, atCall_frame.1]
  bv_omega

/-! ## The words that are pushed -/

/-- From the state `c`, whose stack pointer was `top`, at most `n` words were pushed. -/
structure Grown (top : Word) (n : Nat) (c d : Cpu σ) : Prop where
  esp : d.reg .esp = top - BitVec.ofNat 32 (4 * n)
  mem : ∀ a, (∀ k, k < n → a ≠ top - BitVec.ofNat 32 (4 * (k + 1))) → d.mem a = c.mem a
  vars : d.vars = c.vars

variable {top : Word} {n : Nat} {d : Cpu σ} {v : Word}

lemma Grown.push (h : Grown top n c d) (v : Word) : Grown top (n + 1) c (d.push v) := by
  have e : d.reg .esp - 4 = top - BitVec.ofNat 32 (4 * (n + 1)) := by
    rw [h.esp]
    bv_omega
  refine ⟨by rw [push_esp, e], fun a ha => ?_, h.vars⟩
  rw [← h.mem a fun k hk => ha k (Nat.lt_succ_of_lt hk)]
  exact Function.update_of_ne (e ▸ ha n (Nat.lt_succ_self n)) _ _

/-- What leaves the stack alone. -/
lemma Grown.of_eq {d' : Cpu σ} (h : Grown top n c d) (he : d'.reg .esp = d.reg .esp)
    (hm : d'.mem = d.mem) (hv : d'.vars = d.vars) : Grown top n c d' :=
  ⟨he.trans h.esp, hm ▸ h.mem, hv.trans h.vars⟩

/-- The words below the one a handler is called with, from `saved` on. -/
lemma Grown.atCall (h : Grown top n c d) : Grown top (n + 14) c (d.atCall env f) := by
  have h₈ := ((((((((h.push (d.reg .eax)).push (d.reg .ecx)).push (d.reg .edx)).push
    (d.reg .ebx)).push (d.reg .esp)).push (d.reg .ebp)).push (d.reg .esi)).push (d.reg .edi))
  have h₁₂ := (((h₈.push ((d.seg .ds).setWidth 32)).push ((d.seg .es).setWidth 32)).push
    ((d.seg .fs).setWidth 32)).push ((d.seg .gs).setWidth 32)
  have hs : Grown top (n + 12) c (d.saved env) := by
    apply h₁₂.of_eq
    · simp [Cpu.saved, execAll, commonHandler, exec]
    · simp [Cpu.saved, execAll, commonHandler, exec]
    · simp [Cpu.saved, execAll, commonHandler, exec]
  have ht := hs.push ((d.saved env).reg .eax)
  have he : Grown top (n + 13) c (((d.saved env).push ((d.saved env).reg .eax)).set .eax
      (env.entry f)) := ht.of_eq (by simp) (by simp) (by simp)
  exact he.push _

/-! ## From the interrupt to the handler and back -/

/-- The frame of an interrupt of code with the registers `f`, when the stub had pushed the interrupt
number `k` and the stack pointer was `esp`, with `useresp` and `ss` above the words of the
processor. -/
def File.frameOn (f : File) (esp k code useresp ss : Word) : Regs where
  gs := (f.seg .gs).setWidth 32
  fs := (f.seg .fs).setWidth 32
  es := (f.seg .es).setWidth 32
  ds := (f.seg .ds).setWidth 32
  edi := f.reg .edi
  esi := f.reg .esi
  ebp := f.reg .ebp
  esp := esp
  ebx := f.reg .ebx
  edx := f.reg .edx
  ecx := f.reg .ecx
  eax := f.reg .eax
  intNo := k
  errCode := code
  eip := f.eip
  cs := (f.seg .cs).setWidth 32
  eflags := f.eflags
  useresp := useresp
  ss := ss

/-- The frame of an interrupt of a process. -/
def File.frame (f : File) (esp k code : Word) : Regs :=
  f.frameOn esp k code (f.reg .esp) ((f.seg .ss).setWidth 32)

lemma setWidth_back (u : BitVec 16) : (u.setWidth 32).setWidth 16 = u := by
  rw [BitVec.setWidth_setWidth_of_le _ (by decide), BitVec.setWidth_eq]

/-- A frame holds all registers but the stack. -/
lemma File.ofRegs_frameOn (f : File) (esp k code useresp ss : Word) :
    (∀ r, r ≠ .esp → (File.ofRegs (f.frameOn esp k code useresp ss)).reg r = f.reg r) ∧
    ∀ s, s ≠ .ss → (File.ofRegs (f.frameOn esp k code useresp ss)).seg s = f.seg s := by
  refine ⟨fun r hr => ?_, fun s hs => ?_⟩
  · cases r with
    | esp => exact absurd rfl hr
    | _ => rfl
  · cases s with
    | ss => exact absurd rfl hs
    | _ => exact setWidth_back _

/-- The frame of a process holds the stack, too. -/
lemma File.ofRegs_frame (f : File) (esp k code : Word) : File.ofRegs (f.frame esp k code) = f := by
  obtain ⟨hreg, hseg⟩ := f.ofRegs_frameOn esp k code (f.reg .esp) ((f.seg .ss).setWidth 32)
  have er : (File.ofRegs (f.frame esp k code)).reg = f.reg := by
    funext r
    cases r with
    | esp => rfl
    | _ => exact hreg _ (by decide)
  have es : (File.ofRegs (f.frame esp k code)).seg = f.seg := by
    funext s
    cases s with
    | ss => exact setWidth_back _
    | _ => exact hseg _ (by decide)
  obtain ⟨reg, seg, eip, eflags⟩ := f
  exact congrArg₂ (fun r s => File.mk r s eip eflags) er es

/-- A process goes on with the registers of the frame. -/
lemma Restored.toProcess {p : Word} (h : Restored p c d)
    (hc : c.cpl < (regsAt c.mem p).cs.toNat % 4) : d.toFile = File.ofRegs (regsAt c.mem p) := by
  obtain ⟨hesp, hss⟩ := h.process hc
  apply File.ext
  · funext r
    cases r with
    | esp => exact hesp
    | _ => exact h.reg _ (by decide)
  · funext s
    cases s with
    | ss => exact hss
    | _ => exact h.seg _ (by decide)
  · exact h.eip
  · exact h.eflags

/-- The kernel goes on with the registers of the frame, if its stack is where it was. -/
lemma Restored.toKernel {p esp k code useresp ss : Word} {f : File} (h : Restored p c d)
    (hf : regsAt c.mem p = f.frameOn esp k code useresp ss) (hc : (f.seg .cs).toNat % 4 = 0)
    (hesp : p + 68 = f.reg .esp) (hss : c.seg .ss = f.seg .ss) : d.toFile = f := by
  obtain ⟨freg, fseg⟩ := f.ofRegs_frameOn esp k code useresp ss
  have hcs : (regsAt c.mem p).cs.toNat % 4 = 0 := by
    rw [hf]
    exact (congrArg (· % 4) (BitVec.toNat_setWidth_of_le (by decide))).trans hc
  obtain ⟨desp, dss⟩ := h.kernel (hcs ▸ Nat.not_lt_zero _)
  have hreg := h.reg
  have hseg := h.seg
  have heip := h.eip
  have heflags := h.eflags
  rw [hf] at hreg hseg heip heflags
  apply File.ext
  · funext r
    cases r with
    | esp => exact desp.trans hesp
    | _ => exact (hreg _ (by decide)).trans (freg _ (by decide))
  · funext s
    cases s with
    | ss => exact dss.trans hss
    | _ => exact (hseg _ (by decide)).trans (fseg _ (by decide))
  · exact heip
  · exact heflags

/-- The state of the processor when a stub has pushed its number. -/
inductive Numbered (tss : Tss) (selector : BitVec 16) (offset : Word) (c : Cpu σ) :
    Option Word → Nat → Cpu σ → Prop where
  | noErrorCode {k} : Numbered tss selector offset c none k
      (((c.enter tss selector offset none).push 0).cli.push (BitVec.ofNat 32 k))
  | errorCode {k v} : Numbered tss selector offset c (some v) k
      ((c.enter tss selector offset (some v)).cli.push (BitVec.ofNat 32 k))
  | syscall : Numbered tss selector offset c none 0x80
      (((c.enter tss selector offset none).push 0).push 0x80)

variable {tss : Tss} {selector : BitVec 16} {offset : Word} {code : Option Word} {k : Nat}

lemma Numbered.cs (h : Numbered tss selector offset c code k d) : d.seg .cs = selector := by
  cases h <;> simp [Cpu.enter]

/-- Interrupts are off. -/
lemma Numbered.quiet (h : Numbered tss selector offset c code k d) : d.eflags &&& 0x200 = 0 := by
  have hand (v : Word) : v &&& ~~~ 0x200 &&& 0x200 = 0 := by
    rw [BitVec.and_assoc]
    simp
  cases h with
  | noErrorCode => exact hand _
  | errorCode => exact hand _
  | syscall => exact hand _

/-- The processor pushed `n` words. -/
lemma Numbered.grown {n : Nat} (h : Numbered tss selector offset c code k d)
    (h₀ : Grown top n c (c.enter tss selector offset none)) : Grown top (n + 2) c d := by
  cases h with
  | noErrorCode =>
    have h₁ : Grown top (n + 1) c ((c.enter tss selector offset none).push 0).cli :=
      (h₀.push 0).of_eq rfl rfl (by simp)
    exact h₁.push _
  | @errorCode _ v =>
    have h₁ : Grown top (n + 1) c (c.enter tss selector offset (some v)).cli :=
      (h₀.push v).of_eq rfl rfl (by simp)
    exact h₁.push _
  | syscall => exact (h₀.push 0).push _

/-- The words that the processor pushes when it leaves a process. -/
lemma Grown.leave (hc : 0 < c.cpl) : Grown tss.esp0 5 c (c.enter tss selector offset none) := by
  have h₀ : Grown tss.esp0 0 c ((c.set .esp tss.esp0).setSeg .ss tss.ss0) := by
    constructor
    · simp
    · intro a _
      rfl
    · rfl
  have h₅ := ((((h₀.push ((c.seg .ss).setWidth 32)).push (c.reg .esp)).push c.eflags).push
    ((c.seg .cs).setWidth 32)).push c.eip
  apply h₅.of_eq
  · simp [Cpu.enter, hc]
  · simp [Cpu.enter, hc]
  · simp [Cpu.enter, hc]

/-- The words that the processor pushes in the kernel. -/
lemma Grown.stay (hc : ¬0 < c.cpl) :
    Grown (c.reg .esp) 3 c (c.enter tss selector offset none) := by
  have h₀ : Grown (c.reg .esp) 0 c c := by
    constructor
    · simp
    · intro a _
      rfl
    · rfl
  apply (((h₀.push c.eflags).push ((c.seg .cs).setWidth 32)).push c.eip).of_eq
  · simp [Cpu.enter, hc]
  · simp [Cpu.enter, hc]
  · simp [Cpu.enter, hc]

/-- From a process, the frame is the one of the process. -/
lemma Numbered.process (h : Numbered tss selector offset c code k d) (hc : 0 < c.cpl) :
    d.seg .ss = tss.ss0 ∧
      d.frame = c.toFile.frame (tss.esp0 - 28) (BitVec.ofNat 32 k) (code.getD 0) := by
  have hesp := (h.grown (Grown.leave hc)).esp
  cases h with
  | noErrorCode =>
    refine ⟨by simp [Cpu.enter, hc], ?_⟩
    simp only [Cpu.frame, File.frame, File.frameOn, hesp]
    simp [Cpu.enter, hc, peek_push_succ]
  | errorCode =>
    refine ⟨by simp [Cpu.enter, hc], ?_⟩
    simp only [Cpu.frame, File.frame, File.frameOn, hesp]
    simp [Cpu.enter, hc, peek_push_succ]
  | syscall =>
    refine ⟨by simp [Cpu.enter, hc], ?_⟩
    simp only [Cpu.frame, File.frame, File.frameOn, hesp]
    simp [Cpu.enter, hc, peek_push_succ]

/-- In the kernel, the last two words of the frame are not its own: they are what was on the stack
when the interrupt came. -/
lemma Numbered.kernel (h : Numbered tss selector offset c code k d) (hc : ¬0 < c.cpl) :
    d.seg .ss = c.seg .ss ∧
      d.frame = c.toFile.frameOn (c.reg .esp - 20) (BitVec.ofNat 32 k) (code.getD 0) (c.peek 0)
        (c.peek 1) := by
  have hesp := (h.grown (Grown.stay hc)).esp
  cases h with
  | noErrorCode =>
    refine ⟨by simp [Cpu.enter, hc], ?_⟩
    simp only [Cpu.frame, File.frameOn, hesp]
    simp [Cpu.enter, hc, peek_push_succ]
  | errorCode =>
    refine ⟨by simp [Cpu.enter, hc], ?_⟩
    simp only [Cpu.frame, File.frameOn, hesp]
    simp [Cpu.enter, hc, peek_push_succ]
  | syscall =>
    refine ⟨by simp [Cpu.enter, hc], ?_⟩
    simp only [Cpu.frame, File.frameOn, hesp]
    simp [Cpu.enter, hc, peek_push_succ]

/-- The stubs. -/
inductive Stub where
  | isr (n : Fin 32)
  | irq (n : Fin 16)
  | syscall
  deriving DecidableEq, Repr

/-- The interrupts whose stubs leave the error code to the processor. -/
def errorCodes : List Nat := [8, 10, 11, 12, 13, 14, 17]

/-- The instructions of a stub. -/
def Stub.instrs : Stub → List Instr
  | .isr n =>
    if n.val ∈ errorCodes then errorCodeInterruptHandler n else noErrorCodeInterruptHandler n
  | .irq n => interruptRequestHandler n
  | .syscall => commonInterruptHandler

/-- The number that a stub pushes. -/
def Stub.number : Stub → Nat
  | .isr n => n
  | .irq n => 32 + n
  | .syscall => 0x80

/-- The C function that a stub calls. -/
def Stub.handler : Stub → CFun
  | .isr _ => .faultHandler
  | .irq _ => .irqHandler
  | .syscall => .syscallHandler

/-- A stub leaves the error code to the processor. -/
def Stub.expects : Stub → Bool
  | .isr n => n.val ∈ errorCodes
  | _ => false

variable {s : Stub}

lemma noErrorCode_run (c : Cpu σ) (n : Nat) :
    execAll env c (noErrorCodeInterruptHandler n) =
      execAll env (((c.push 0).cli).push (BitVec.ofNat 32 n)) (commonHandler .faultHandler) :=
  List.foldl_append

lemma errorCode_run (c : Cpu σ) (n : Nat) :
    execAll env c (errorCodeInterruptHandler n) =
      execAll env (c.cli.push (BitVec.ofNat 32 n)) (commonHandler .faultHandler) :=
  List.foldl_append

lemma interruptRequest_run (c : Cpu σ) (n : Nat) :
    execAll env c (interruptRequestHandler n) =
      execAll env (((c.push 0).cli).push (BitVec.ofNat 32 (32 + n))) (commonHandler .irqHandler) :=
  List.foldl_append

lemma syscall_run (c : Cpu σ) :
    execAll env c commonInterruptHandler =
      execAll env ((c.push 0).push 0x80) (commonHandler .syscallHandler) :=
  List.foldl_append

/-- A stub pushes its number and goes on with the common part. -/
lemma Stub.numbered (env : Env σ) (tss : Tss) (selector : BitVec 16) (offset : Word) (c : Cpu σ)
    (s : Stub) (hcode : code.isSome = s.expects) : ∃ d,
    Numbered tss selector offset c code s.number d ∧
      execAll env (c.enter tss selector offset code) s.instrs =
        execAll env d (commonHandler s.handler) := by
  cases s with
  | isr n =>
    by_cases hn : n.val ∈ errorCodes
    · have hsome : code.isSome = true := by simpa [Stub.expects, hn] using hcode
      obtain ⟨v, rfl⟩ := Option.isSome_iff_exists.mp hsome
      refine ⟨_, .errorCode, ?_⟩
      rw [Stub.instrs, if_pos hn, errorCode_run]
      rfl
    · have hnone : code = none := by simpa [Stub.expects, hn] using hcode
      subst hnone
      refine ⟨_, .noErrorCode, ?_⟩
      rw [Stub.instrs, if_neg hn, noErrorCode_run]
      rfl
  | irq n =>
    have hnone : code = none := by simpa [Stub.expects] using hcode
    subst hnone
    exact ⟨_, .noErrorCode, interruptRequest_run _ _⟩
  | syscall =>
    have hnone : code = none := by simpa [Stub.expects] using hcode
    subst hnone
    exact ⟨_, .syscall, syscall_run _⟩

/-- The state `a` in which a handler is called, with `frame` in the `n` words below `top` that the
processor and the stub pushed first and the twelve words below: it finds the kernel's segments, and
interrupts are off. No other memory was written, but for its argument and its return address. -/
structure Called (top : Word) (n : Nat) (selector ss : BitVec 16) (frame : Regs) (c a : Cpu σ) :
    Prop where
  arg : a.peek 1 = top - BitVec.ofNat 32 (4 * (n + 12))
  frame : regsAt a.mem (top - BitVec.ofNat 32 (4 * (n + 12))) = frame
  data : ∀ s ∈ [Seg.ds, .es, .fs, .gs], a.seg s = 0x10
  cs : a.seg .cs = selector
  ss : a.seg .ss = ss
  quiet : a.eflags &&& 0x200 = 0
  mem : ∀ x, (∀ k, k < n + 14 → x ≠ top - BitVec.ofNat 32 (4 * (k + 1))) → a.mem x = c.mem x
  vars : a.vars = c.vars

/-- What `mov ax` leaves in `ax`. -/
lemma setWidth_movAx (v : Word) (u : BitVec 16) :
    (v.extractLsb' 16 16 ++ u).setWidth 16 = u := by
  rw [BitVec.setWidth_append]
  simp

/-- The common part calls the handler with the frame. -/
lemma Numbered.called (h : Numbered tss selector offset c code k d) (hd : Grown top n c d) :
    Called top n selector (d.seg .ss) d.frame c (d.atCall env f) := by
  have hsaved : (d.saved env).reg .esp = top - BitVec.ofNat 32 (4 * (n + 12)) := by
    rw [saved_esp, hd.esp]
    bv_omega
  constructor
  · exact hsaved ▸ atCall_frame.2.1
  · exact hsaved ▸ atCall_frame.2.2
  · simp [Cpu.atCall, Cpu.saved, execAll, commonHandler, exec, setWidth_movAx]
  · rw [← h.cs]
    simp [Cpu.atCall, Cpu.saved, execAll, commonHandler, exec]
  · simp [Cpu.atCall, Cpu.saved, execAll, commonHandler, exec]
  · rw [← h.quiet]
    simp [Cpu.atCall, Cpu.saved, execAll, commonHandler, exec]
  · exact hd.atCall.mem
  · exact hd.atCall.vars

/-- What a stub does with a handler that runs in a state where `Called` holds. -/
def Handled (env : Env σ) (f : CFun) (top : Word) (n : Nat) (selector ss : BitVec 16) (frame : Regs)
    (c d : Cpu σ) : Prop :=
  ∃ a, Called top n selector ss frame c a ∧
    Restored (top - BitVec.ofNat 32 (4 * (n + 12))) (env.callee f a) d

lemma Numbered.handled (henv : env.Cdecl) (h : Numbered tss selector offset c code k d)
    (hd : Grown top n c d) :
    Handled env f top n selector (d.seg .ss) d.frame c (execAll env d (commonHandler f)) := by
  have hsaved : (d.saved env).reg .esp = top - BitVec.ofNat 32 (4 * (n + 12)) := by
    rw [saved_esp, hd.esp]
    bv_omega
  exact ⟨d.atCall env f, h.called hd, hsaved ▸ common_restored henv⟩

/-- **A stub, from a process.** -/
lemma Stub.handled_process (tss : Tss) (selector : BitVec 16) (offset : Word)
    (henv : env.Cdecl) (hcode : code.isSome = s.expects) (hc : 0 < c.cpl) :
    Handled env s.handler tss.esp0 7 selector tss.ss0
      (c.toFile.frame (tss.esp0 - 28) (BitVec.ofNat 32 s.number) (code.getD 0)) c
      (execAll env (c.enter tss selector offset code) s.instrs) := by
  obtain ⟨d, hd, hrun⟩ := s.numbered env tss selector offset c hcode
  obtain ⟨hss, hframe⟩ := hd.process hc
  rw [hrun, ← hss, ← hframe]
  exact hd.handled henv (hd.grown (Grown.leave hc))

/-- **A stub, in the kernel.** -/
lemma Stub.handled_kernel (tss : Tss) (selector : BitVec 16) (offset : Word)
    (henv : env.Cdecl) (hcode : code.isSome = s.expects) (hc : ¬0 < c.cpl) :
    Handled env s.handler (c.reg .esp) 5 selector (c.seg .ss)
      (c.toFile.frameOn (c.reg .esp - 20) (BitVec.ofNat 32 s.number) (code.getD 0) (c.peek 0)
        (c.peek 1)) c
      (execAll env (c.enter tss selector offset code) s.instrs) := by
  obtain ⟨d, hd, hrun⟩ := s.numbered env tss selector offset c hcode
  obtain ⟨hss, hframe⟩ := hd.kernel hc
  rw [hrun, ← hss, ← hframe]
  exact hd.handled henv (hd.grown (Grown.stay hc))

end MarioBrOS.Interrupts
