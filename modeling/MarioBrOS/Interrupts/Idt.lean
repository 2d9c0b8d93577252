import MarioBrOS.Interrupts.Stubs
import Mathlib

/-!
# The interrupt table

`idt.c`, `isr.c`, `irq.c` and `syscall_install`: the gates of the 256 interrupts. The processor
takes a gate apart (`Gate.decode`), checks it against the privilege of the code it interrupts and
against the segment the gate leads to, and enters the stub at the gate's address (`Cpu.interrupt`).

`isrs_install` writes the gate 21 twice, the second time with the stub of 22, and never the gate 22:
interrupt 21 is served under the number 22, and interrupt 22 not at all.
-/

namespace MarioBrOS.Interrupts

/-- `idt.h`, `idt_entry_t`. -/
structure IdtEntry where
  addressLow : Nat
  selector : Nat
  always0 : Nat
  gateType : Nat
  storage : Nat
  dpl : Nat
  present : Nat
  addressHigh : Nat
  deriving DecidableEq, Repr

/-- The bit fields of an entry, with their widths. -/
def IdtEntry.fields (e : IdtEntry) : List (Nat × Nat) :=
  [(16, e.addressLow), (16, e.selector), (8, e.always0), (4, e.gateType), (1, e.storage),
    (2, e.dpl), (1, e.present), (16, e.addressHigh)]

/-- The 8 bytes of an entry. -/
def IdtEntry.bits (e : IdtEntry) : Nat := pack e.fields

/-- The entry that `idt_set_gate` writes. -/
def idtEntry (address : Word) (selector privilege : Nat) : IdtEntry where
  addressLow := address.toNat &&& 0xFFFF
  selector := selector
  always0 := 0
  gateType := 0xE
  storage := 0
  dpl := privilege
  present := 1
  addressHigh := (address.toNat >>> 16) &&& 0xFFFF

/-- The table. -/
abbrev Idt : Type := Fin 256 → IdtEntry

/-- `idt.c`, `idt_set_gate`. -/
def idtSetGate (num : Fin 256) (address : Word) (selector privilege : Nat) (idt : Idt) : Idt :=
  Function.update idt num (idtEntry address selector privilege)

/-- `idt.c`, `idt_install`. -/
def idtInstall (idt : Idt) : Idt :=
  (List.finRange 256).foldl (fun idt i => idtSetGate i 0 0 0 idt) idt

variable (addr : Stub → Word) (kernelCode : Nat)

/-- Gates to stubs, for the kernel only. -/
def setGates (gates : List (Fin 256 × Stub)) (idt : Idt) : Idt :=
  gates.foldl (fun idt g => idtSetGate g.1 (addr g.2) kernelCode 0 idt) idt

/-- The gates of `isrs_install`. -/
def isrGates : List (Fin 256 × Stub) :=
  [(0, .isr 0), (1, .isr 1), (2, .isr 2), (3, .isr 3), (4, .isr 4), (5, .isr 5), (6, .isr 6),
    (7, .isr 7), (8, .isr 8), (9, .isr 9), (10, .isr 10), (11, .isr 11), (12, .isr 12),
    (13, .isr 13), (14, .isr 14), (15, .isr 15), (16, .isr 16), (17, .isr 17), (18, .isr 18),
    (19, .isr 19), (20, .isr 20), (21, .isr 21), (21, .isr 22), (23, .isr 23), (24, .isr 24),
    (25, .isr 25), (26, .isr 26), (27, .isr 27), (28, .isr 28), (29, .isr 29), (30, .isr 30),
    (31, .isr 31)]

/-- The gates of `irq_install`. -/
def irqGates : List (Fin 256 × Stub) :=
  [(32, .irq 0), (33, .irq 1), (34, .irq 2), (35, .irq 3), (36, .irq 4), (37, .irq 5), (38, .irq 6),
    (39, .irq 7), (40, .irq 8), (41, .irq 9), (42, .irq 10), (43, .irq 11), (44, .irq 12),
    (45, .irq 13), (46, .irq 14), (47, .irq 15)]

/-- The vector of an interrupt number. -/
abbrev vector (n : Nat) : Fin 256 := Fin.ofNat 256 n

/-- The line of the timer. -/
abbrev timerLine : Fin 16 := 0

/-- The line of the keyboard. -/
abbrev keyboardLine : Fin 16 := 1

/-- `isr.c`, `isrs_install`. -/
def isrsInstall : Idt → Idt := setGates addr kernelCode isrGates

/-- `irq.c`, `irq_install`, but for `irq_remap`. -/
def irqInstall : Idt → Idt := setGates addr kernelCode irqGates

/-- `syscall.c`, `SYSCALL_ISR`. -/
def SYSCALL_ISR : Fin 256 := 0x80

/-- The gate of `syscall_install`. -/
def syscallInstall : Idt → Idt := idtSetGate SYSCALL_ISR (addr .syscall) kernelCode 3

/-! ## The processor's view -/

/-- What the processor reads in a gate. -/
structure Gate where
  offset : Word
  selector : Nat
  kind : Nat
  storage : Nat
  dpl : Nat
  present : Nat
  deriving DecidableEq, Repr

/-- The fields of a gate. -/
def gateFields : List Nat := [16, 16, 8, 4, 1, 2, 1, 16]

/-- A gate, taken apart. -/
def Gate.decode (n : Nat) : Gate :=
  let f := (unpack gateFields n).getD
  { offset := BitVec.ofNat 32 (f 0 0 + 2 ^ 16 * f 7 0)
    selector := f 1 0
    kind := f 3 0
    storage := f 4 0
    dpl := f 5 0
    present := f 6 0 }

/-- What the processor finds: the tables, the task segment, and the instructions at an address. -/
structure Board where
  idt : Idt
  gdt : Gdt
  tss : Tss
  text : Word → List Instr

/-- The segment of a selector. -/
def Board.segment (b : Board) (selector : Nat) : Segment :=
  Segment.decode (b.gdt.gdt (Selector.decode selector).index).bits

variable {σ : Type}

/-- The processor accepts an interrupt gate: it leads to a code segment that is not the null segment
and not less privileged than the code it interrupts, and `int` may use it. -/
def Board.Accepts (b : Board) (g : Gate) (software : Bool) (c : Cpu σ) : Prop :=
  (software = true → c.cpl ≤ g.dpl) ∧ g.kind = 0xE ∧ g.storage = 0 ∧ g.present = 1 ∧
    (Selector.decode g.selector).index ≠ 0 ∧ (b.segment g.selector).present = 1 ∧
    (b.segment g.selector).user = 1 ∧ (b.segment g.selector).kind[3]? = some 1 ∧
    (b.segment g.selector).dpl ≤ c.cpl

instance (b : Board) (g : Gate) (software : Bool) (c : Cpu σ) :
    Decidable (b.Accepts g software c) :=
  inferInstanceAs (Decidable (_ ∧ _))

/-- The interrupt `v`, of the hardware or of an instruction `int v`, with the error code `code`: the
processor after the stub, or `none` if it faults on the gate. -/
def Cpu.interrupt (env : Env σ) (b : Board) (v : Fin 256) (software : Bool) (code : Option Word)
    (c : Cpu σ) : Option (Cpu σ) :=
  let g := Gate.decode (b.idt v).bits
  if b.Accepts g software c then
    some (execAll env (c.enter b.tss (BitVec.ofNat 16 g.selector) g.offset code) (b.text g.offset))
  else
    none

/-! ## The gates that are installed -/

variable {addr : Stub → Word} {kernelCode : Nat} {v : Fin 256} {idt : Idt}

/-- The processor reads a gate as it was set. -/
lemma decode_idtEntry {address : Word} {selector privilege : Nat} (hs : selector < 2 ^ 16)
    (hp : privilege < 4) : Gate.decode (idtEntry address selector privilege).bits =
      ⟨address, selector, 0xE, 0, privilege, 1⟩ := by
  have e16 (m : Nat) : m &&& 0xFFFF = m % 2 ^ 16 := Nat.and_two_pow_sub_one_eq_mod m 16
  have haddr : BitVec.ofNat 32 (address.toNat % 2 ^ 16 % 2 ^ 16 +
      2 ^ 16 * (address.toNat / 2 ^ 16 % 2 ^ 16 % 2 ^ 16)) = address := by
    apply BitVec.eq_of_toNat_eq
    have hlt := address.isLt
    rw [BitVec.toNat_ofNat]
    omega
  have hp : privilege % 2 ^ 2 = privilege := Nat.mod_eq_of_lt hp
  unfold Gate.decode IdtEntry.bits
  rw [show gateFields = (idtEntry address selector privilege).fields.map Prod.fst from rfl,
    unpack_pack]
  simp only [idtEntry, IdtEntry.fields, List.map_cons, List.map_nil, List.getD_cons_zero,
    List.getD_cons_succ, e16, Nat.shiftRight_eq_div_pow, haddr, Nat.mod_eq_of_lt hs, hp]
  rfl

/-- The last gate that was set is the one that counts. -/
lemma setGates_apply (gates : List (Fin 256 × Stub)) :
    setGates addr kernelCode gates idt v =
      ((gates.reverse.lookup v).map fun s => idtEntry (addr s) kernelCode 0).getD (idt v) := by
  induction gates generalizing idt with
  | nil => rfl
  | cons g gates ih =>
    obtain ⟨u, s⟩ := g
    have hstep : setGates addr kernelCode ((u, s) :: gates) idt =
        setGates addr kernelCode gates (idtSetGate u (addr s) kernelCode 0 idt) := rfl
    rw [hstep, ih, List.reverse_cons, List.lookup_append]
    cases hl : gates.reverse.lookup v with
    | some s' => rfl
    | none =>
      by_cases hv : v = u
      · subst hv
        simp [idtSetGate]
      · simp [idtSetGate, List.lookup, beq_false_of_ne hv, Function.update_of_ne hv]

/-- `idt_install` leads nowhere. -/
lemma idtInstall_apply : idtInstall idt v = idtEntry 0 0 0 := by
  have h (l : List (Fin 256)) (idt : Idt) :
      (l.foldl (fun idt i => idtSetGate i 0 0 0 idt) idt) v =
        if v ∈ l then idtEntry 0 0 0 else idt v := by
    induction l generalizing idt with
    | nil => rfl
    | cons u l ih =>
      rw [List.foldl_cons, ih]
      by_cases hl : v ∈ l
      · simp [hl]
      · by_cases hv : v = u
        · simp [hv, idtSetGate]
        · simp [hl, hv, idtSetGate]
  rw [idtInstall, h, if_pos (List.mem_finRange v)]

/-- The stub of an interrupt. -/
def stubOf (v : Fin 256) : Option Stub :=
  if v = 22 then none
  else if v = 21 then some (.isr 22)
  else if h : v.val < 32 then some (.isr ⟨v.val, h⟩)
  else if h : v.val - 32 < 16 then some (.irq ⟨v.val - 32, h⟩)
  else if v = SYSCALL_ISR then some .syscall
  else none

lemma lookup_gates (v : Fin 256) (hv : v ≠ SYSCALL_ISR) :
    (irqGates.reverse.lookup v).or (isrGates.reverse.lookup v) = stubOf v := by
  revert v
  decide +kernel

/-- The table that the kernel installs. -/
def installed (addr : Stub → Word) (kernelCode : Nat) (idt : Idt) : Idt :=
  syscallInstall addr kernelCode
    (irqInstall addr kernelCode (isrsInstall addr kernelCode (idtInstall idt)))

/-- What the processor reads in it. -/
lemma installed_decode (addr : Stub → Word) (idt : Idt) (v : Fin 256) (hk : kernelCode < 2 ^ 16) :
    Gate.decode (installed addr kernelCode idt v).bits =
      (stubOf v).elim ⟨0, 0, 0xE, 0, 0, 1⟩ fun s =>
        ⟨addr s, kernelCode, 0xE, 0, if v = SYSCALL_ISR then 3 else 0, 1⟩ := by
  by_cases hv : v = SYSCALL_ISR
  · subst hv
    have he : installed addr kernelCode idt SYSCALL_ISR =
        idtEntry (addr .syscall) kernelCode 3 := by
      rw [installed, syscallInstall, idtSetGate, Function.update_self]
    rw [he, decode_idtEntry hk (by decide)]
    rfl
  · have he : installed addr kernelCode idt v =
        ((stubOf v).map fun s => idtEntry (addr s) kernelCode 0).getD (idtEntry 0 0 0) := by
      rw [installed, syscallInstall, idtSetGate, Function.update_of_ne hv, irqInstall,
        setGates_apply, isrsInstall, setGates_apply, idtInstall_apply, ← lookup_gates v hv]
      cases irqGates.reverse.lookup v <;> rfl
    rw [he, if_neg hv]
    cases stubOf v with
    | some s => exact decode_idtEntry hk (by decide)
    | none => exact decode_idtEntry (by decide) (by decide)

/-! ## Interrupts -/

/-- The processor after `gdt_install`, `idt_install`, `isrs_install`, `irq_install` and
`syscall_install`, with the stubs in memory at `addr` and the stack of the kernel at `stack`. -/
structure Booted (addr : Stub → Word) (stack : Word) (b : Board) : Prop where
  tables : ∃ tss g idt sels, tss < 2 ^ 32 ∧
    gdtInstall tss stack ⟨g, 0⟩ = some (sels, b.gdt, b.tss) ∧
    b.idt = installed addr (kernelCodeSegment sels) idt
  text : ∀ s, b.text (addr s) = s.instrs

variable {env : Env σ} {b : Board} {stack : Word} {software : Bool} {code : Option Word} {c : Cpu σ}

/-- What the processor finds when it is booted. -/
lemma Booted.board (hb : Booted addr stack b) : b.tss = ⟨stack, 0x18⟩ ∧
    (∃ idt, b.idt = installed addr 0x08 idt) ∧
    b.segment 0x08 = ⟨0, 0xFFFFF, [0, 1, 0, 1], 1, 0, 1, 1, 1⟩ := by
  obtain ⟨tss, g, idt, sels, htss, hg, hidt⟩ := hb.tables
  obtain ⟨g', hrun, hinst⟩ := gdtInstall_installed g stack htss
  rw [hrun] at hg
  obtain ⟨rfl, hg', hbt⟩ := Prod.mk.inj (Option.some.inj hg) |>.imp id Prod.mk.inj
  refine ⟨hbt.symm, ⟨idt, hidt⟩, ?_⟩
  rw [Board.segment, ← hg']
  exact hinst.segment 1 _ rfl

/-- The interrupts that are served: all with a stub, of the hardware or in the kernel, and only the
system call for an instruction of a process. -/
def served (v : Fin 256) (software : Bool) (c : Cpu σ) : Option Stub :=
  if software = true ∧ 0 < c.cpl ∧ v ≠ SYSCALL_ISR then none else stubOf v

/-- The processor enters the stub of the interrupt, or faults. -/
lemma Booted.interrupt (hb : Booted addr stack b) (hc : c.cpl ≤ 3) :
    c.interrupt env b v software code =
      (served v software c).map fun s =>
        execAll env (c.enter b.tss 0x08 (addr s) code) s.instrs := by
  obtain ⟨-, ⟨idt, hidt⟩, hseg⟩ := hb.board
  have hg := installed_decode addr idt v (show 0x08 < 2 ^ 16 by decide)
  rw [← hidt] at hg
  cases hs : stubOf v with
  | none =>
    rw [hs, Option.elim_none] at hg
    have hnot : ¬b.Accepts (Gate.decode (b.idt v).bits) software c := by
      rw [hg]
      exact fun h => h.2.2.2.2.1 rfl
    simp [Cpu.interrupt, hnot, served, hs]
  | some s =>
    rw [hs, Option.elim_some] at hg
    have hiff : b.Accepts (Gate.decode (b.idt v).bits) software c ↔
        ¬(software = true ∧ 0 < c.cpl ∧ v ≠ SYSCALL_ISR) := by
      simp only [Board.Accepts, hg, hseg]
      have hidx : (Selector.decode 0x08).index ≠ 0 := by decide
      by_cases hv : v = SYSCALL_ISR
      · simp [hv, hc, hidx]
      · cases software with
        | false => simp [hidx]
        | true => simp [hv, hidx]
    by_cases hn : software = true ∧ 0 < c.cpl ∧ v ≠ SYSCALL_ISR
    · simp only [Cpu.interrupt, if_neg (fun h => hiff.mp h hn), served, if_pos hn, Option.map_none]
    · rw [Cpu.interrupt, if_pos (hiff.mpr hn), served, if_neg hn, hs, Option.map_some, hg, hb.text]
      rfl

/-- The error codes that the processor pushes: for some exceptions, never for `int`. -/
def Pushes (v : Fin 256) (software : Bool) (code : Option Word) : Prop :=
  code.isSome = (!software && decide (v.val ∈ errorCodes))

/-- What is served has a stub. -/
lemma stubOf_served {s : Stub} (hs : served v software c = some s) : stubOf v = some s := by
  unfold served at hs
  split at hs
  · exact absurd hs (by simp)
  · exact hs

/-- A stub expects the error code that the processor pushes. -/
lemma served_expects {s : Stub} (hs : served v software c = some s) (hp : Pushes v software code)
    (hsoft : software = true → 0 < c.cpl) : code.isSome = s.expects := by
  have hstub := stubOf_served hs
  have hall : ∀ v : Fin 256, (stubOf v).all fun s => s.expects == decide (v.val ∈ errorCodes) := by
    decide +kernel
  have hv := hall v
  rw [hstub, Option.all_some, beq_iff_eq] at hv
  rw [hp, hv]
  cases software with
  | false => rfl
  | true =>
    have hsys : v = SYSCALL_ISR := by
      by_contra hv
      simp [served, hsoft rfl, hv] at hs
    subst hsys
    rfl

/-- An interrupt in a process that is served runs its handler with the frame of the process. -/
lemma Booted.process {s : Stub} (henv : env.Cdecl) (hb : Booted addr stack b) (hc : c.cpl = 3)
    (hcode : Pushes v software code) (hs : served v software c = some s) :
    ∃ d, c.interrupt env b v software code = some d ∧
      Handled env s.handler stack 7 0x08 0x18
        (c.toFile.frame (stack - 28) (BitVec.ofNat 32 s.number) (code.getD 0)) c d := by
  have hpos : 0 < c.cpl := hc ▸ Nat.succ_pos 2
  have hexp := served_expects hs hcode fun _ => hpos
  have h := s.handled_process ⟨stack, 0x18⟩ 0x08 (addr s) henv hexp hpos
  refine ⟨_, ?_, h⟩
  rw [hb.interrupt (hc ▸ le_rfl), hs, Option.map_some, hb.board.1]

/-- **Interrupts in a process.** When the kernel has installed its tables, an interrupt in a process
is served if and only if its vector is below 48 and not 22, or it is the system call; of the
interrupts that a process makes itself only the system call is. The handler then runs on the stack
of the kernel with a frame that holds all registers of the process and the number of the interrupt,
22 for the vector 21, and the process goes on with what the frame holds in the end. -/
theorem interrupt_process (henv : env.Cdecl) (hb : Booted addr stack b) (hc : c.cpl = 3)
    (hcode : Pushes v software code) :
    ((c.interrupt env b v software code).isSome ↔
      (v < 48 ∧ v ≠ 22 ∧ software = false) ∨ v = 0x80) ∧
    ∀ d, c.interrupt env b v software code = some d → ∃ s, stubOf v = some s ∧
      s.number = (if v = 21 then 22 else v.val) ∧
      Handled env s.handler stack 7 0x08 0x18
        (c.toFile.frame (stack - 28) (BitVec.ofNat 32 s.number) (code.getD 0)) c d := by
  have hserved : c.interrupt env b v software code = _ := hb.interrupt (hc ▸ le_rfl)
  have hpos : 0 < c.cpl := hc ▸ Nat.succ_pos 2
  constructor
  · have hall : ∀ v : Fin 256, (stubOf v).isSome = true ↔ (v < 48 ∧ v ≠ 22) ∨ v = 0x80 := by
      decide +kernel
    rw [hserved, Option.isSome_map]
    cases software with
    | false => simpa [served] using hall v
    | true =>
      by_cases hv : v = SYSCALL_ISR
      · subst hv
        have hsome : served SYSCALL_ISR true c = some .syscall := if_neg fun h => h.2.2 rfl
        rw [hsome]
        exact iff_of_true rfl (.inr rfl)
      · have hnone : served v true c = none := if_pos ⟨rfl, hpos, hv⟩
        rw [hnone]
        refine iff_of_false Bool.false_ne_true fun h => ?_
        rcases h with h | h
        · exact Bool.noConfusion h.2.2
        · exact hv h
  · intro d hd
    obtain ⟨s, hs, -⟩ := Option.map_eq_some_iff.mp (hserved.symm.trans hd)
    have hall : ∀ v : Fin 256,
        (stubOf v).all fun s => s.number == if v = 21 then 22 else v.val := by
      decide +kernel
    have hnum := hall v
    rw [stubOf_served hs, Option.all_some, beq_iff_eq] at hnum
    obtain ⟨d', hd', h⟩ := hb.process henv hc hcode hs
    obtain rfl := Option.some.inj (hd'.symm.trans hd)
    exact ⟨s, stubOf_served hs, hnum, h⟩

/-- Where the stubs of the sample are. -/
def sampleAddr (s : Stub) : Word := BitVec.ofNat 32 (16 * s.number)

/-- The stub at an address of the sample. -/
def sampleStub (k : Nat) : Stub :=
  if h : k < 32 then .isr ⟨k, h⟩ else if h : k - 32 < 16 then .irq ⟨k - 32, h⟩ else .syscall

lemma sampleStub_number (s : Stub) : sampleStub s.number = s := by
  cases s with
  | isr n => simp [sampleStub, Stub.number]
  | irq n => simp [sampleStub, Stub.number]
  | syscall => rfl

/-- A booted processor, with the stack of the kernel at `0x400000`. -/
def sampleBoard : Board where
  idt := installed sampleAddr 0x08 fun _ => idtEntry 0 0 0
  gdt := ((gdtInstall 0 0x400000 ⟨fun _ => tssEntry 0, 0⟩).map fun r => r.2.1).getD
    ⟨fun _ => tssEntry 0, 0⟩
  tss := ⟨0x400000, 0x18⟩
  text w := (sampleStub (w.toNat / 16)).instrs

lemma sampleBoard_booted : Booted sampleAddr 0x400000 sampleBoard := by
  obtain ⟨g', hrun, -⟩ := gdtInstall_installed (fun _ => tssEntry 0) 0x400000 (Nat.two_pow_pos 32)
  constructor
  · refine ⟨0, fun _ => tssEntry 0, fun _ => idtEntry 0 0 0,
      [0, 0x08, 0x10, 0x18, 0x23, 0x2B, 0x33, 0x38], Nat.two_pow_pos 32, ?_, rfl⟩
    simp only [sampleBoard, hrun, Option.map_some, Option.getD_some]
  · intro s
    have hk : (sampleAddr s).toNat / 16 = s.number := by
      have hlt : s.number ≤ 0x80 := by
        cases s with
        | isr n => exact n.isLt.le.trans (by decide)
        | irq n => exact (Nat.add_le_add_left n.isLt.le 32).trans (by decide)
        | syscall => exact le_rfl
      rw [sampleAddr, BitVec.toNat_ofNat]
      omega
    change (sampleStub ((sampleAddr s).toNat / 16)).instrs = s.instrs
    rw [hk, sampleStub_number]

/-- Handlers that do nothing. -/
def sampleEnv : Env Unit where
  entry _ := 0
  next _ := 0
  callee _ c := c.drop 1

lemma sampleEnv_cdecl : sampleEnv.Cdecl := ⟨fun _ _ => drop_esp, fun _ _ => rfl, fun _ _ => rfl⟩

/-- A processor with all segments the same. -/
def sampleCpu (u : BitVec 16) : Cpu Unit where
  reg _ := 0x1000
  seg _ := u
  eip := 0
  eflags := 0x200
  mem _ := 0
  vars := ()

theorem interrupt_process_syscall :
    (((sampleCpu 0x23).interrupt sampleEnv sampleBoard 0x80 true none).isSome ↔
      ((0x80 : Fin 256) < 48 ∧ (0x80 : Fin 256) ≠ 22 ∧ true = false) ∨ (0x80 : Fin 256) = 0x80) ∧
    ∀ d, (sampleCpu 0x23).interrupt sampleEnv sampleBoard 0x80 true none = some d →
      ∃ s, stubOf 0x80 = some s ∧
        s.number = (if (0x80 : Fin 256) = 21 then 22 else (0x80 : Fin 256).val) ∧
        Handled sampleEnv s.handler 0x400000 7 0x08 0x18
          ((sampleCpu 0x23).toFile.frame (0x400000 - 28) (BitVec.ofNat 32 s.number)
            (Option.getD none 0)) (sampleCpu 0x23) d :=
  interrupt_process sampleEnv_cdecl sampleBoard_booted rfl rfl

/-- **Interrupts in the kernel.** An interrupt of the hardware in the kernel, whose handler leaves
its frame as it is, comes back to the interrupted code with all registers as they were, the stack
pointer included; memory is as the handler left it, and up to the handler only the 19 words below
the stack pointer were written. -/
theorem interrupt_kernel (henv : env.Cdecl) (hb : Booted addr stack b) (hc : c.cpl = 0)
    (hcode : Pushes v false code) {s : Stub} (hs : stubOf v = some s)
    (hkeep : ∀ a, regsAt (env.callee s.handler a).mem (a.peek 1) = regsAt a.mem (a.peek 1)) :
    ∃ a d, Called (c.reg .esp) 5 0x08 (c.seg .ss)
        (c.toFile.frameOn (c.reg .esp - 20) (BitVec.ofNat 32 s.number) (code.getD 0) (c.peek 0)
          (c.peek 1)) c a ∧
      c.interrupt env b v false code = some d ∧ d.mem = (env.callee s.handler a).mem ∧
      d.vars = (env.callee s.handler a).vars ∧ d.toFile = c.toFile := by
  have hzero : ¬0 < c.cpl := hc ▸ Nat.lt_irrefl 0
  have hexp := served_expects (c := c) (s := s) (by simpa [served] using hs) hcode Bool.noConfusion
  obtain ⟨a, ha, hr⟩ := s.handled_kernel b.tss 0x08 (addr s) henv hexp hzero
  refine ⟨a, _, ha, ?_, hr.mem, hr.vars, ?_⟩
  · rw [hb.interrupt (hc ▸ Nat.zero_le 3)]
    simp [served, hs]
  · have hframe := ha.arg ▸ hkeep a
    rw [ha.frame] at hframe
    refine hr.toKernel hframe hc ?_ ((henv.ss _ _).trans ha.ss)
    exact BitVec.sub_add_cancel ..

theorem interrupt_kernel_tick : ∃ a d,
    Called ((sampleCpu 0x08).reg .esp) 5 0x08 ((sampleCpu 0x08).seg .ss)
        ((sampleCpu 0x08).toFile.frameOn ((sampleCpu 0x08).reg .esp - 20)
          (BitVec.ofNat 32 (Stub.irq 0).number) (Option.getD none 0) ((sampleCpu 0x08).peek 0)
          ((sampleCpu 0x08).peek 1)) (sampleCpu 0x08) a ∧
      (sampleCpu 0x08).interrupt sampleEnv sampleBoard 32 false none = some d ∧
      d.mem = (sampleEnv.callee (Stub.irq 0).handler a).mem ∧
      d.vars = (sampleEnv.callee (Stub.irq 0).handler a).vars ∧
      d.toFile = (sampleCpu 0x08).toFile :=
  interrupt_kernel sampleEnv_cdecl sampleBoard_booted rfl (show Pushes 32 false none from rfl) rfl
    fun _ => rfl

end MarioBrOS.Interrupts
