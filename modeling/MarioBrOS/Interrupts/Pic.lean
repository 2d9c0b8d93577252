import MarioBrOS.Interrupts.Idt

/-!
# The interrupt controllers

`irq_remap` and `init_pic` program the two interrupt controllers, and `irq_handler` runs the routine
of a line and acknowledges the interrupt. A controller (`Chip`) has a command and a data port: a
command with the bit `0x10` starts an initialization, whose other words come to the data port. A
line is raised if it is not masked and no line of its priority or a higher one is in service; it is
then in service until it is acknowledged.

`irq_handler` looks at the number in the frame after the routine is done, and the timer may have put
another process there, which entered the kernel by a system call. The second controller is then
acknowledged for nothing.
-/

namespace MarioBrOS.Interrupts

open Scheduler (Regs)

/-- What a controller waits for on its data port. -/
inductive Awaits where
  | mask
  | offset
  | cascade
  | mode
  deriving DecidableEq, Repr

/-- An interrupt controller: the first vector, the lines that are masked and those in service, and
what it was told about the other controller. -/
@[ext]
structure Chip where
  awaits : Awaits
  mode : Bool
  offset : Nat
  masked : Nat
  cascade : Nat
  autoEoi : Bool
  inService : List Nat
  deriving DecidableEq, Repr

/-- A byte for the command port: an initialization, or the end of the most urgent interrupt in
service. -/
def Chip.command (data : Nat) (c : Chip) : Chip :=
  if data.testBit 4 then
    { c with
      awaits := .offset
      mode := data.testBit 0
      masked := 0
      inService := []
      autoEoi := false }
  else if data = 0x20 then
    { c with inService := c.inService.tail }
  else
    c

/-- A byte for the data port. -/
def Chip.data (data : Nat) (c : Chip) : Chip :=
  match c.awaits with
  | .mask => { c with masked := data }
  | .offset => { c with offset := data, awaits := .cascade }
  | .cascade => { c with cascade := data, awaits := if c.mode then .mode else .mask }
  | .mode => { c with autoEoi := data.testBit 1, awaits := .mask }

/-- The line `i` comes through: the vector, and the controller with the line in service, the most
urgent one first. -/
def Chip.raise (i : Nat) (c : Chip) : Option (Nat × Chip) :=
  if c.awaits = .mask ∧ c.masked.testBit i = false ∧ ∀ j ∈ c.inService, i < j then
    some (c.offset + i, { c with inService := if c.autoEoi then c.inService else i :: c.inService })
  else
    none

/-- The two controllers. -/
structure Pics where
  master : Chip
  slave : Chip
  deriving DecidableEq, Repr

/-- `io.c`, `outb`, on the ports of the controllers. -/
def Pics.outb (p : Pics) (out : Nat × Nat) : Pics :=
  if out.1 = 0x20 then
    { p with master := p.master.command out.2 }
  else if out.1 = 0x21 then
    { p with master := p.master.data out.2 }
  else if out.1 = 0xA0 then
    { p with slave := p.slave.command out.2 }
  else if out.1 = 0xA1 then
    { p with slave := p.slave.data out.2 }
  else
    p

/-- An interrupt line of the machine: 8 and up come from the second controller, which is on the line
of the first one that `cascade` says. No device is wired to that line: an 8259 would ask the second
controller for the vector, here it comes through with its own. -/
def Pics.raise (n : Nat) (p : Pics) : Option (Nat × Pics) :=
  if n < 8 then
    (p.master.raise n).map fun r => (r.1, { p with master := r.2 })
  else do
    let (v, slave) ← p.slave.raise (n - 8)
    let (_, master) ← p.master.raise p.slave.cascade
    if p.master.cascade.testBit p.slave.cascade then some (v, ⟨master, slave⟩) else none

/-- `irq.c`, `irq_remap`. -/
def irqRemap : List (Nat × Nat) :=
  [(0x20, 0x11), (0xA0, 0x11), (0x21, 0x20), (0xA1, 0x28), (0x21, 0x04), (0xA1, 0x02), (0x21, 0x01),
    (0xA1, 0x01), (0x21, 0x0), (0xA1, 0x0)]

/-- `gdt.c`, `init_pic`. -/
def initPic : List (Nat × Nat) :=
  [(0x20, 0x11), (0xA0, 0x11), (0x21, 0x20), (0xA1, 0x28), (0x21, 0x04), (0xA1, 0x02), (0x21, 0x01),
    (0xA1, 0x01), (0x21, 0x0), (0xA1, 0x0)]

variable {σ : Type}

/-- `irq.c`, `irq_routines`, with what a routine does to its frame and to the kernel. -/
abbrev Routines (σ : Type) := Fin 16 → Option (Regs → σ → Regs × σ)

/-- `irq.c`, `irq_install_handler`. -/
def irqInstallHandler (irq : Fin 16) (handler : Regs → σ → Regs × σ) (rs : Routines σ) :
    Routines σ :=
  Function.update rs irq (some handler)

/-- `irq.c`, `irq_handler`: the frame, the kernel, and what is written to the ports. -/
def irqHandler (rs : Routines σ) (r : Regs) (k : σ) : Option (Regs × σ × List (Nat × Nat)) :=
  if h : (r.intNo - 32).toNat < 16 then
    let (r, k) := match rs ⟨(r.intNo - 32).toNat, h⟩ with
      | some handler => handler r k
      | none => (r, k)
    some (r, k, (if 40 ≤ r.intNo.toNat then [(0xA0, 0x20)] else []) ++ [(0x20, 0x20)])
  else
    none

/-- An interrupt of line `n`, with the frame `r` but for the number, which comes from the stub of
the vector. -/
def serve (rs : Routines σ) (x : Pics × σ) (e : Fin 16 × Regs) : Option (Pics × σ) := do
  let (v, p) ← x.1.raise e.1
  let s ← stubOf (vector v)
  let (_, k, out) ← irqHandler rs { e.2 with intNo := BitVec.ofNat 32 s.number } x.2
  some (out.foldl Pics.outb p, k)

/-- What the routine of line `n` does to the kernel. -/
def routine (rs : Routines σ) (k : σ) (e : Fin 16 × Regs) : σ :=
  match rs e.1 with
  | some handler => (handler { e.2 with intNo := BitVec.ofNat 32 (32 + e.1) } k).2
  | none => k

/-- The routines of the kernel, `timer_handler` and the one of the keyboard. -/
def kernelRoutines (timer keyboard : Regs → σ → Regs × σ) : Routines σ :=
  irqInstallHandler timerLine timer (irqInstallHandler keyboardLine keyboard fun _ => none)

/-! ## Programming -/

/-- The controllers after `irq_remap`. -/
def remapped : Pics where
  master := ⟨.mask, true, 0x20, 0, 0x04, false, []⟩
  slave := ⟨.mask, true, 0x28, 0, 0x02, false, []⟩

/-- Whatever the controllers did before, both functions leave them the same. -/
lemma foldl_remap (p : Pics) : irqRemap.foldl Pics.outb p = remapped ∧
    initPic.foldl Pics.outb p = remapped := by
  obtain ⟨master, slave⟩ := p
  exact ⟨rfl, rfl⟩

/-- A line that is raised is in service, on both controllers if it is one of the second. -/
def raised (n : Nat) : Pics :=
  if n < 8 then
    { remapped with master := { remapped.master with inService := [n] } }
  else
    ⟨{ remapped.master with inService := [2] }, { remapped.slave with inService := [n - 8] }⟩

/-- Every line comes through, with its vector. -/
lemma raise_remapped (n : Fin 16) : remapped.raise n = some (32 + n.val, raised n) := by
  revert n
  decide

/-- The acknowledgement of a line: the second controller is acknowledged in any case if the line is
its own. -/
lemma acknowledged {n : Fin 16} {slave : Bool} (hs : 8 ≤ n.val → slave = true) :
    ((if slave then [(0xA0, 0x20)] else []) ++ [(0x20, 0x20)]).foldl Pics.outb (raised n) =
      remapped := by
  have hall : ∀ (n : Fin 16) (slave : Bool), (8 ≤ n.val → slave = true) →
      ((if slave then [(0xA0, 0x20)] else []) ++ [(0x20, 0x20)]).foldl Pics.outb (raised n) =
        remapped := by
    decide
  exact hall n slave hs

/-! ## The lines -/


/-- The number that the stub of a line pushes. -/
lemma stubOf_line (n : Fin 16) : stubOf (vector (32 + n)) = some (.irq n) := by
  revert n
  decide

/-- The handler of a line runs its routine and acknowledges the line on its controllers. -/
lemma irqHandler_line (timer keyboard : Regs → σ → Regs × σ) (n : Fin 16) (r : Regs) (k : σ)
    (hr : r.intNo = BitVec.ofNat 32 (32 + n.val)) :
    ∃ r' slave, irqHandler (kernelRoutines timer keyboard) r k = some (r',
        routine (kernelRoutines timer keyboard) k (n, r),
        (if slave = true then [(0xA0, 0x20)] else []) ++ [(0x20, 0x20)]) ∧
      (8 ≤ n.val → slave = true) := by
  have hnum : r.intNo.toNat = 32 + n.val := by
    rw [hr, BitVec.toNat_ofNat]
    omega
  have hidx : (r.intNo - 32).toNat = n.val := by
    rw [hr]
    bv_omega
  have hfin : (⟨(r.intNo - 32).toNat, hidx ▸ n.isLt⟩ : Fin 16) = n := Fin.ext hidx
  have hself : { r with intNo := BitVec.ofNat 32 (32 + n.val) } = r := by rw [← hr]
  rw [irqHandler, dif_pos (hidx ▸ n.isLt), hfin, routine, hself]
  cases hn : kernelRoutines timer keyboard n with
  | none =>
    -- no routine touches the frame of a line of the second controller
    refine ⟨r, decide (40 ≤ r.intNo.toNat), by simp, fun h => ?_⟩
    rw [hnum]
    exact decide_eq_true (by omega)
  | some handler =>
    refine ⟨(handler r k).1, decide (40 ≤ (handler r k).1.intNo.toNat), by simp, fun h => ?_⟩
    have h0 : n ≠ 0 := by
      rintro rfl
      exact absurd h (by decide)
    have h1 : n ≠ 1 := by
      rintro rfl
      exact absurd h (by decide)
    have hnone : kernelRoutines timer keyboard n = none := by
      simp [kernelRoutines, irqInstallHandler, Function.update_of_ne h0, Function.update_of_ne h1]
    simp [hnone] at hn

/-- The handler of the timer. -/
lemma irqHandler_timer (timer keyboard : Regs → σ → Regs × σ) (r : Regs) (k : σ)
    (hr : r.intNo = 32) :
    ∃ out, irqHandler (kernelRoutines timer keyboard) r k =
      some ((timer r k).1, (timer r k).2, out) := by
  have hidx : (r.intNo - 32).toNat = 0 := by
    rw [hr]
    rfl
  have hfin : (⟨(r.intNo - 32).toNat, hidx ▸ Nat.succ_pos 15⟩ : Fin 16) = 0 := Fin.ext hidx
  rw [irqHandler, dif_pos (hidx ▸ Nat.succ_pos 15), hfin]
  exact ⟨_, rfl⟩

/-- **Every interrupt line is served.** Whatever state the controllers were in, after `irq_remap`
the lines come through one after the other, in any order: the routine of each line runs with the
number of its line in the frame, and the line is acknowledged, so that the next one comes through,
also when the timer has put another frame there. -/
theorem irqs_served (timer keyboard : Regs → σ → Regs × σ) (p : Pics) (k : σ)
    (es : List (Fin 16 × Regs)) :
    es.foldlM (serve (kernelRoutines timer keyboard)) (irqRemap.foldl Pics.outb p, k) =
      some (irqRemap.foldl Pics.outb p, es.foldl (routine (kernelRoutines timer keyboard)) k) := by
  rw [(foldl_remap p).1]
  induction es generalizing k with
  | nil => rfl
  | cons e es ih =>
    obtain ⟨n, r⟩ := e
    obtain ⟨r', slave, hrun, hs⟩ := irqHandler_line timer keyboard n
      { r with intNo := BitVec.ofNat 32 (32 + n.val) } k rfl
    have hstep : serve (kernelRoutines timer keyboard) (remapped, k) (n, r) =
        some (remapped, routine (kernelRoutines timer keyboard) k (n, r)) := by
      simp only [serve, raise_remapped, stubOf_line, Option.bind_eq_bind, Option.bind_some,
        Stub.number, hrun, acknowledged hs]
      rfl
    rw [List.foldlM_cons, hstep]
    exact ih _

end MarioBrOS.Interrupts
