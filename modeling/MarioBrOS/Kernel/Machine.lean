import MarioBrOS.Malloc.HeapOp
import MarioBrOS.Scheduler.Runqueue

/-!
# Context switches

The state of the heap in force, the pair `first_free_block` and `unallocated_mem`, is global and is
saved and restored by hand: on entry to the kernel and on return (`scheduler.c`, `SWITCH_BEFORE` and
`SWITCH_AFTER`), and around the calls that `syscall_malloc` and `syscall_free` make in the directory
of the process (the two macros of the same names in `syscall.c`). The temporary switch of
`alloc_pages` is part of the allocator.

A handler is a sequence of small steps, and between any two of them a heap operation can be looked
at. `MicroStep` has these steps; the handlers of the source are runs of it (`timerHandler_run`,
`syscallMalloc_run`, `syscallFree_run`).
-/

namespace MarioBrOS.Kernel

open Malloc Scheduler Scheduler.SchedulerState

/-- The memory with the globals of `malloc.c`, and the scheduler state. -/
structure Machine where
  malloc : MallocState
  sched : SchedulerState

variable (L : Layout)

/-! ## The macros -/

/-- `ctx->first_free_block = first_free_block; ctx->unallocated_mem = unallocated_mem`, for the
context of slot `i`. -/
def savePair (i : Nat) (pair : HeapPair) (s : SchedulerState) : SchedulerState :=
  s.setProc i
    { s.processes i with
      context :=
        { (s.processes i).context with
          firstFreeBlock := pair.firstFreeBlock
          unallocatedMem := pair.unallocatedMem } }

/-- The pair in force. -/
def Machine.pair (m : Machine) : HeapPair := ⟨m.malloc.firstFreeBlock, m.malloc.unallocatedMem⟩

/-- `syscall.c`, `SWITCH_BEFORE`. -/
def syscallSwitchBefore (m : Machine) : Machine where
  sched := savePair m.sched.currPid m.pair m.sched
  malloc :=
    { m.malloc with
      currentDirectory := L.kernelDirectory
      unallocatedMem := m.malloc.kernelContext.unallocatedMem
      firstFreeBlock := m.malloc.kernelContext.firstFreeBlock }

/-- `syscall.c`, `SWITCH_AFTER`. -/
def syscallSwitchAfter (m : Machine) : Machine :=
  let ctx := (m.sched.processes m.sched.currPid).context
  { m with
    malloc :=
      { m.malloc with
        kernelContext := m.pair
        firstFreeBlock := ctx.firstFreeBlock
        unallocatedMem := ctx.unallocatedMem
        currentDirectory := ctx.pageDir } }

/-- `scheduler.c`, `SWITCH_BEFORE`: also saves the registers. -/
def switchBefore (regs : Regs) (m : Machine) : Machine :=
  syscallSwitchBefore L { m with sched := saveRegs regs m.sched }

/-- `scheduler.c`, `SWITCH_AFTER`: the registers restored are those of the current process. -/
def switchAfter (m : Machine) : Machine := syscallSwitchAfter m

/-! ## The handlers -/

/-- Heap operations one after the other. -/
def runOps : List HeapOp → MallocState → Option MallocState
  | [], s => some s
  | op :: ops, s => (op.exec L s).bind (runOps ops)

/-- `scheduler.c`, `timer_handler`. `ops` are the operations of the queues on the kernel's heap. -/
def timerHandler (regs : Regs) (ops : List HeapOp) (m : Machine) : Option Machine :=
  let m := switchBefore L regs m
  (runOps L ops m.malloc).map fun k =>
    switchAfter { malloc := k, sched := selectNewProcess m.sched }

/-- `scheduler.c`, `syscall_handler`, around the syscall `body`; `ops` as for the timer. -/
def syscallHandler (body : Machine → Option Machine) (cycle : Bool) (regs : Regs)
    (ops : List HeapOp) (m : Machine) : Option Machine :=
  (body (switchBefore L regs m)).bind fun m =>
  (runOps L ops m.malloc).map fun k =>
    switchAfter { malloc := k, sched := endSyscall cycle m.sched }

/-- `syscall.c`, `syscall_malloc`. -/
def syscallMalloc (ext : Option Bytes) (m : Machine) : Option Machine :=
  let size := (m.sched.regs m.sched.currPid).ebx.toNat
  let m := syscallSwitchAfter m
  (memAlloc L ext size m.malloc).map fun r =>
    let m := syscallSwitchBefore L { m with malloc := r.1 }
    let pid := m.sched.currPid
    { m with sched := m.sched.setRegs pid { m.sched.regs pid with eax := BitVec.ofNat 32 r.2 } }

/-- `syscall.c`, `syscall_free`. -/
def syscallFree (m : Machine) : Option Machine :=
  let ptr := (m.sched.regs m.sched.currPid).ebx.toNat
  let m := syscallSwitchAfter m
  (memFree L ptr m.malloc).map fun k => syscallSwitchBefore L { m with malloc := k }

/-- The effect of `fork_page_dir` on the heap range: the new directory `dir` has a copy of the
parent's pages. -/
def copyPages (parent dir : Nat) (s : MallocState) : MallocState :=
  { s with memory := Function.update s.memory dir (s.memory parent) }

/-! ## Small steps -/

/-- What the machine is doing: running the current process, kernel code on the kernel's heap, or
kernel code on the heap of the current process. -/
inductive Mode where
  | user
  | kernel
  | process
  deriving DecidableEq, Repr

/-- A machine in the middle of its work. -/
structure Config where
  machine : Machine
  mode : Mode

/-- The small steps. -/
inductive MicroEvent where
  | op (op : HeapOp)
  | trap (regs : Regs)
  | enter
  | leave
  | result (regs : Regs)
  | fork (dir : Nat)
  | exit
  | wait
  | resume (cycle : Bool)

/-- The directory in force. -/
def Config.directory (c : Config) : Nat := c.machine.malloc.currentDirectory

/-- A slot in use. -/
def Live (s : SchedulerState) (i : Nat) : Prop := (s.processes i).state ≠ .free

/-- A process writes its memory and traps; kernel code uses the heap in force, enters and leaves the
directory of a runnable caller, and changes the process table; the return goes through the end of
`syscall_handler`. A fork gets a directory that no process in use has. -/
inductive MicroStep : Config → MicroEvent → Config → Prop where
  | userWrite {m k mem} :
    HeapOp.exec L (.write mem) m.malloc = some k →
    MicroStep ⟨m, .user⟩ (.op (.write mem)) ⟨{ m with malloc := k }, .user⟩
  | op {m mode o k} :
    mode ≠ .user →
    HeapOp.exec L o m.malloc = some k →
    MicroStep ⟨m, mode⟩ (.op o) ⟨{ m with malloc := k }, mode⟩
  | trap {m regs} : MicroStep ⟨m, .user⟩ (.trap regs) ⟨switchBefore L regs m, .kernel⟩
  | enter {m} :
    (m.sched.processes m.sched.currPid).state = .runnable →
    MicroStep ⟨m, .kernel⟩ .enter ⟨syscallSwitchAfter m, .process⟩
  | leave {m} : MicroStep ⟨m, .process⟩ .leave ⟨syscallSwitchBefore L m, .kernel⟩
  | result {m regs} :
    MicroStep ⟨m, .kernel⟩ (.result regs)
      ⟨{ m with sched := m.sched.setRegs m.sched.currPid regs }, .kernel⟩
  | fork {m dir} :
    (m.sched.processes m.sched.currPid).state = .runnable →
    freeSlot m.sched.processes ≠ NUM_PROCESSES →
    0 ≤ (m.sched.regs m.sched.currPid).ebx.toInt →
    (m.sched.regs m.sched.currPid).ebx.toInt ≤ (m.sched.processes m.sched.currPid).prio →
    dir ≠ L.kernelDirectory →
    (∀ i, Live m.sched i → (m.sched.processes i).context.pageDir ≠ dir) →
    MicroStep ⟨m, .kernel⟩ (.fork dir)
      ⟨⟨copyPages (m.sched.processes m.sched.currPid).context.pageDir dir m.malloc,
        syscallFork dir m.sched⟩, .kernel⟩
  | exit {m} :
    (m.sched.processes m.sched.currPid).state = .runnable →
    MicroStep ⟨m, .kernel⟩ .exit ⟨{ m with sched := syscallExit m.sched }, .kernel⟩
  | wait {m} :
    (m.sched.processes m.sched.currPid).state = .runnable →
    MicroStep ⟨m, .kernel⟩ .wait ⟨{ m with sched := syscallWait m.sched }, .kernel⟩
  | resume {m cycle} :
    MicroStep ⟨m, .kernel⟩ (.resume cycle)
      ⟨switchAfter { m with sched := endSyscall cycle m.sched }, .user⟩

variable {L}

/-- Operations one after the other are small steps. -/
lemma runOps_run {ops : List HeapOp} {m : Machine} {k : MallocState}
    (e : runOps L ops m.malloc = some k) :
    Run (MicroStep L) ⟨m, .kernel⟩ (ops.map .op) ⟨{ m with malloc := k }, .kernel⟩ := by
  induction ops generalizing m with
  | nil =>
    obtain rfl := Option.some.inj e
    exact .nil
  | cons op ops ih =>
    obtain ⟨k', h1, h2⟩ := Option.bind_eq_some_iff.mp e
    exact (Run.single (.op (by decide) h1)).append (ih (m := { m with malloc := k' }) h2)

/-- The timer handler, in small steps. -/
lemma timerHandler_run {regs ops} {m m' : Machine} (e : timerHandler L regs ops m = some m') :
    ∃ es, Run (MicroStep L) ⟨m, .user⟩ es ⟨m', .user⟩ := by
  obtain ⟨k, hk, rfl⟩ := Option.map_eq_some_iff.mp e
  exact ⟨[.trap regs] ++ ops.map .op ++ [.resume true],
    ((Run.single .trap).append (runOps_run hk)).snoc .resume⟩

/-- A syscall whose body is small steps. -/
lemma syscallHandler_run {body cycle regs ops} {m m' : Machine}
    (hbody : ∀ m1 m2, (m1.sched.processes m1.sched.currPid).state = .runnable →
      body m1 = some m2 → ∃ es, Run (MicroStep L) ⟨m1, .kernel⟩ es ⟨m2, .kernel⟩)
    (hcur : (m.sched.processes m.sched.currPid).state = .runnable)
    (e : syscallHandler L body cycle regs ops m = some m') :
    ∃ es, Run (MicroStep L) ⟨m, .user⟩ es ⟨m', .user⟩ := by
  obtain ⟨m1, h1, h2⟩ := Option.bind_eq_some_iff.mp e
  obtain ⟨k, hk, rfl⟩ := Option.map_eq_some_iff.mp h2
  obtain ⟨es, r⟩ := hbody _ _ (by simp [switchBefore, syscallSwitchBefore, savePair, saveRegs, hcur])
    h1
  exact ⟨[.trap regs] ++ es ++ ops.map .op ++ [.resume cycle],
    (((Run.single .trap).append r).append (runOps_run hk)).snoc .resume⟩

/-- `syscall_malloc`, in small steps. -/
lemma syscallMalloc_run {ext} {m m' : Machine}
    (hcur : (m.sched.processes m.sched.currPid).state = .runnable)
    (e : syscallMalloc L ext m = some m') :
    ∃ es, Run (MicroStep L) ⟨m, .kernel⟩ es ⟨m', .kernel⟩ := by
  obtain ⟨r, hr, rfl⟩ := Option.map_eq_some_iff.mp e
  have hop : HeapOp.exec L (.alloc (m.sched.regs m.sched.currPid).ebx.toNat 1 ext)
      (syscallSwitchAfter m).malloc = some r.1 :=
    Option.map_eq_some_iff.mpr ⟨r, hr, rfl⟩
  exact ⟨_, (((Run.single (.enter hcur)).snoc (.op (by decide) hop)).snoc .leave).snoc .result⟩

/-- `syscall_free`, in small steps. -/
lemma syscallFree_run {m m' : Machine}
    (hcur : (m.sched.processes m.sched.currPid).state = .runnable)
    (e : syscallFree L m = some m') :
    ∃ es, Run (MicroStep L) ⟨m, .kernel⟩ es ⟨m', .kernel⟩ := by
  obtain ⟨k, hk, rfl⟩ := Option.map_eq_some_iff.mp e
  have hop : HeapOp.exec L (.free (m.sched.regs m.sched.currPid).ebx.toNat)
      (syscallSwitchAfter m).malloc = some k := hk
  exact ⟨_, ((Run.single (.enter hcur)).snoc (.op (by decide) hop)).snoc .leave⟩

end MarioBrOS.Kernel
