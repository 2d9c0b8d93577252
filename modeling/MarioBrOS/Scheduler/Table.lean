import MarioBrOS.Lib.Run
import Mathlib.Logic.Function.Basic

/-!
# The process table

The scheduler state of `scheduler.h` and the operations on it: process selection
(`scheduler.c`, `select_new_process`), program start-up (`run_program`, `scheduler_install`) and the
syscalls that create, end and await processes (`syscall.c`, `syscall_fork`, `syscall_exit`,
`syscall_wait`, `resolve_exit_wait`).

A process owns the register block its context points to, so the block's contents stand in the
context itself. `resolve_exit_wait` reads the child's `ebx` after freeing the block: `mem_free`
writes only the block's header word and the two list pointers behind it, never `ebx`, so the read
sees the value the child left there. A queue is the list of its values, first to leave first.
What other modules decide (the result of `fork_page_dir`, of `new_page_dir` and of the program
loader) comes in as an argument.
-/

namespace MarioBrOS.Scheduler

/-- The state of a process (`process.h`, `process_state_t`). -/
inductive ProcessState where
  | free
  | waiting
  | runnable
  | zombie
  deriving DecidableEq, Repr

/-- The registers an interrupt saves (`types.h`, `struct regs`). -/
structure Regs where
  (gs fs es ds : BitVec 32)
  (edi esi ebp esp ebx edx ecx eax : BitVec 32)
  (intNo errCode : BitVec 32)
  (eip cs eflags useresp ss : BitVec 32)
  deriving DecidableEq, Repr

/-- The context of a process (`process.h`, `context_t`). -/
structure Context where
  regs : Regs
  firstFreeBlock : Nat
  unallocatedMem : Nat
  pageDir : Nat
  deriving DecidableEq, Repr

/-- A process (`process.h`, `process_t`). -/
structure Process where
  state : ProcessState
  parentId : Nat
  prio : Int
  context : Context
  deriving DecidableEq, Repr

/-- `scheduler.h`, `NUM_PROCESSES`. -/
def NUM_PROCESSES : Nat := 128

/-- `process.h`, `MAX_PRIORITY`. -/
def MAX_PRIORITY : Nat := 15

/-- The scheduler state (`scheduler.h`, `scheduler_state_t`) with the list `run_pid` of the
processes the shell started. -/
structure SchedulerState where
  currPid : Nat
  processes : Nat → Process
  runqueues : Int → List Nat
  runPid : List Nat

namespace SchedulerState

/-- Replaces one slot of the table. -/
def setProc (s : SchedulerState) (i : Nat) (p : Process) : SchedulerState :=
  { s with processes := Function.update s.processes i p }

/-- `state->processes[i].state = st`. -/
def setState (s : SchedulerState) (i : Nat) (st : ProcessState) : SchedulerState :=
  s.setProc i { s.processes i with state := st }

/-- `state->processes[i].parent_id = p`. -/
def setParent (s : SchedulerState) (i p : Nat) : SchedulerState :=
  s.setProc i { s.processes i with parentId := p }

/-- `*state->processes[i].context.regs = r`. -/
def setRegs (s : SchedulerState) (i : Nat) (r : Regs) : SchedulerState :=
  s.setProc i { s.processes i with context := { (s.processes i).context with regs := r } }

/-- The registers of slot `i`. -/
def regs (s : SchedulerState) (i : Nat) : Regs := (s.processes i).context.regs

/-- `state->runqueues[prio] = q`. -/
def setQueue (s : SchedulerState) (prio : Int) (q : List Nat) : SchedulerState :=
  { s with runqueues := Function.update s.runqueues prio q }

/-- `enqueue(state->runqueues[prio], pid)` (`queue.c`, `enqueue`). -/
def enqueue (s : SchedulerState) (prio : Int) (pid : Nat) : SchedulerState :=
  s.setQueue prio (s.runqueues prio ++ [pid])

/-- `push(run_pid, pid)` (`list.c`, `push`). -/
def pushRunPid (s : SchedulerState) (pid : Nat) : SchedulerState :=
  { s with runPid := pid :: s.runPid }

/-- `remove_elt(run_pid, pid)` (`list.c`, `remove_elt`). -/
def removeRunPid (s : SchedulerState) (pid : Nat) : SchedulerState :=
  { s with runPid := s.runPid.erase pid }

@[simp] lemma setProc_processes (s : SchedulerState) (i : Nat) (p : Process) :
    (s.setProc i p).processes = Function.update s.processes i p := rfl

@[simp] lemma setProc_runqueues (s : SchedulerState) (i : Nat) (p : Process) :
    (s.setProc i p).runqueues = s.runqueues := rfl

@[simp] lemma setProc_currPid (s : SchedulerState) (i : Nat) (p : Process) :
    (s.setProc i p).currPid = s.currPid := rfl

@[simp] lemma setQueue_processes (s : SchedulerState) (prio : Int) (q : List Nat) :
    (s.setQueue prio q).processes = s.processes := rfl

@[simp] lemma setQueue_runqueues (s : SchedulerState) (prio : Int) (q : List Nat) :
    (s.setQueue prio q).runqueues = Function.update s.runqueues prio q := rfl

@[simp] lemma setQueue_currPid (s : SchedulerState) (prio : Int) (q : List Nat) :
    (s.setQueue prio q).currPid = s.currPid := rfl

@[simp] lemma enqueue_processes (s : SchedulerState) (prio : Int) (pid : Nat) :
    (s.enqueue prio pid).processes = s.processes := rfl

@[simp] lemma enqueue_runqueues (s : SchedulerState) (prio : Int) (pid : Nat) :
    (s.enqueue prio pid).runqueues =
      Function.update s.runqueues prio (s.runqueues prio ++ [pid]) := rfl

@[simp] lemma enqueue_currPid (s : SchedulerState) (prio : Int) (pid : Nat) :
    (s.enqueue prio pid).currPid = s.currPid := rfl

@[simp] lemma pushRunPid_processes (s : SchedulerState) (pid : Nat) :
    (s.pushRunPid pid).processes = s.processes := rfl

@[simp] lemma pushRunPid_runqueues (s : SchedulerState) (pid : Nat) :
    (s.pushRunPid pid).runqueues = s.runqueues := rfl

@[simp] lemma pushRunPid_currPid (s : SchedulerState) (pid : Nat) :
    (s.pushRunPid pid).currPid = s.currPid := rfl

@[simp] lemma removeRunPid_processes (s : SchedulerState) (pid : Nat) :
    (s.removeRunPid pid).processes = s.processes := rfl

@[simp] lemma removeRunPid_runqueues (s : SchedulerState) (pid : Nat) :
    (s.removeRunPid pid).runqueues = s.runqueues := rfl

@[simp] lemma removeRunPid_currPid (s : SchedulerState) (pid : Nat) :
    (s.removeRunPid pid).currPid = s.currPid := rfl

@[simp] lemma setState_state (s : SchedulerState) (i : Nat) (st : ProcessState) (j : Nat) :
    ((s.setState i st).processes j).state = if j = i then st else (s.processes j).state := by
  by_cases h : j = i <;> simp [setState, h]

@[simp] lemma setState_parentId (s : SchedulerState) (i : Nat) (st : ProcessState) (j : Nat) :
    ((s.setState i st).processes j).parentId = (s.processes j).parentId := by
  by_cases h : j = i <;> simp [setState, h]

@[simp] lemma setState_prio (s : SchedulerState) (i : Nat) (st : ProcessState) (j : Nat) :
    ((s.setState i st).processes j).prio = (s.processes j).prio := by
  by_cases h : j = i <;> simp [setState, h]

@[simp] lemma setState_regs (s : SchedulerState) (i : Nat) (st : ProcessState) (j : Nat) :
    (s.setState i st).regs j = s.regs j := by
  by_cases h : j = i <;> simp [setState, regs, h]

@[simp] lemma setState_currPid (s : SchedulerState) (i : Nat) (st : ProcessState) :
    (s.setState i st).currPid = s.currPid := rfl

@[simp] lemma setState_runqueues (s : SchedulerState) (i : Nat) (st : ProcessState) :
    (s.setState i st).runqueues = s.runqueues := rfl

@[simp] lemma setParent_state (s : SchedulerState) (i p j : Nat) :
    ((s.setParent i p).processes j).state = (s.processes j).state := by
  by_cases h : j = i <;> simp [setParent, h]

@[simp] lemma setParent_parentId (s : SchedulerState) (i p j : Nat) :
    ((s.setParent i p).processes j).parentId = if j = i then p else (s.processes j).parentId := by
  by_cases h : j = i <;> simp [setParent, h]

@[simp] lemma setParent_prio (s : SchedulerState) (i p j : Nat) :
    ((s.setParent i p).processes j).prio = (s.processes j).prio := by
  by_cases h : j = i <;> simp [setParent, h]

@[simp] lemma setParent_regs (s : SchedulerState) (i p j : Nat) :
    (s.setParent i p).regs j = s.regs j := by
  by_cases h : j = i <;> simp [setParent, regs, h]

@[simp] lemma setParent_currPid (s : SchedulerState) (i p : Nat) :
    (s.setParent i p).currPid = s.currPid := rfl

@[simp] lemma setParent_runqueues (s : SchedulerState) (i p : Nat) :
    (s.setParent i p).runqueues = s.runqueues := rfl

@[simp] lemma setRegs_state (s : SchedulerState) (i : Nat) (r : Regs) (j : Nat) :
    ((s.setRegs i r).processes j).state = (s.processes j).state := by
  by_cases h : j = i <;> simp [setRegs, h]

@[simp] lemma setRegs_parentId (s : SchedulerState) (i : Nat) (r : Regs) (j : Nat) :
    ((s.setRegs i r).processes j).parentId = (s.processes j).parentId := by
  by_cases h : j = i <;> simp [setRegs, h]

@[simp] lemma setRegs_prio (s : SchedulerState) (i : Nat) (r : Regs) (j : Nat) :
    ((s.setRegs i r).processes j).prio = (s.processes j).prio := by
  by_cases h : j = i <;> simp [setRegs, h]

@[simp] lemma setRegs_regs (s : SchedulerState) (i : Nat) (r : Regs) (j : Nat) :
    (s.setRegs i r).regs j = if j = i then r else s.regs j := by
  by_cases h : j = i <;> simp [setRegs, regs, h]

@[simp] lemma setRegs_currPid (s : SchedulerState) (i : Nat) (r : Regs) :
    (s.setRegs i r).currPid = s.currPid := rfl

@[simp] lemma setRegs_runqueues (s : SchedulerState) (i : Nat) (r : Regs) :
    (s.setRegs i r).runqueues = s.runqueues := rfl

@[simp] lemma setQueue_regs (s : SchedulerState) (prio : Int) (q : List Nat) (j : Nat) :
    (s.setQueue prio q).regs j = s.regs j := rfl

@[simp] lemma enqueue_regs (s : SchedulerState) (prio : Int) (pid j : Nat) :
    (s.enqueue prio pid).regs j = s.regs j := rfl

@[simp] lemma removeRunPid_regs (s : SchedulerState) (pid j : Nat) :
    (s.removeRunPid pid).regs j = s.regs j := rfl

end SchedulerState

/-! ## Selection -/

/-- The inner loop of `select_new_process`: moves pids from the queue to `temp` until a runnable one
has been moved. -/
def drain (procs : Nat → Process) : List Nat → List Nat → Option Nat × List Nat × List Nat
  | [], temp => (none, [], temp)
  | pid :: q, temp =>
    if (procs pid).state = .runnable then
      (some pid, q, temp ++ [pid])
    else
      drain procs q (temp ++ [pid])

/-- The levels below `n`, from the strongest down, of the outer loop of `select_new_process`. -/
def selectBelow (s : SchedulerState) : Nat → SchedulerState
  | 0 => s
  | prio + 1 =>
    match drain s.processes (s.runqueues prio) [] with
    | (some pid, q, temp) => { s.setQueue prio (q ++ temp) with currPid := pid }
    | (none, q, temp) => selectBelow (s.setQueue prio (q ++ temp)) prio

/-- `scheduler.c`, `select_new_process`. -/
def selectNewProcess (s : SchedulerState) : SchedulerState :=
  selectBelow s (MAX_PRIORITY + 1)

/-! ## Creation -/

/-- The segment selectors and the stack address `new_process` puts into fresh registers. -/
structure UserLayout where
  (userCodeSegment userDataSegment userStackSegment startOfUserStack : BitVec 32)

/-- What `new_page_dir` returns: the directory and the malloc state of its heap. -/
structure PageDirResult where
  (pageDir firstFreeBlock unallocatedMem : Nat)

/-- `process.c`, `new_process`. -/
def newProcess (u : UserLayout) (parentId : Nat) (prio : Int) (dir : PageDirResult) : Process where
  state := .runnable
  parentId := parentId
  prio := prio
  context :=
    { regs :=
        { ds := u.userDataSegment, es := u.userDataSegment, fs := u.userDataSegment,
          gs := u.userDataSegment, eax := 0, ebx := 0, ecx := 0, edx := 0, esi := 0, edi := 0,
          esp := 0, ebp := 0, intNo := 0, errCode := 0, eip := 0, cs := u.userCodeSegment,
          eflags := 0x200, useresp := u.startOfUserStack, ss := u.userStackSegment }
      firstFreeBlock := dir.firstFreeBlock
      unallocatedMem := dir.unallocatedMem
      pageDir := dir.pageDir }

/-- The first slot that is free, or `NUM_PROCESSES` (the search of `syscall_fork` and
`run_program`). -/
def freeSlot (procs : Nat → Process) : Nat :=
  ((List.range NUM_PROCESSES).find? fun i => (procs i).state = .free).getD NUM_PROCESSES

/-- The effect of a successful `load_code` on the registers: `ctx.regs->eip` is the entry point. -/
def Process.loaded (p : Process) (entry : BitVec 32) : Process :=
  { p with context := { p.context with regs := { p.context.regs with eip := entry } } }

/-- `scheduler.c`, `run_program`. `entry` is the entry point `load_code` finds, if the program
exists. -/
def runProgram (u : UserLayout) (dir : PageDirResult) (entry : Option (BitVec 32))
    (s : SchedulerState) : SchedulerState :=
  let pid := freeSlot s.processes
  if pid = NUM_PROCESSES then
    s
  else
    let proc := newProcess u 1 1 dir
    match entry with
    | none => s.setProc pid { proc with state := .free }
    | some e => ((s.setProc pid (proc.loaded e)).pushRunPid pid).enqueue 1 pid

/-- An all-zero slot, as `mem_set` leaves it. -/
def zeroProcess : Process where
  state := .free
  parentId := 0
  prio := 0
  context :=
    { regs :=
        { gs := 0, fs := 0, es := 0, ds := 0, edi := 0, esi := 0, ebp := 0, esp := 0, ebx := 0,
          edx := 0, ecx := 0, eax := 0, intNo := 0, errCode := 0, eip := 0, cs := 0, eflags := 0,
          useresp := 0, ss := 0 }
      firstFreeBlock := 0
      unallocatedMem := 0
      pageDir := 0 }

/-- The state `scheduler_install` hands to the init process. -/
def schedulerInstall (u : UserLayout) (idleDir initDir : PageDirResult)
    (idleEntry initEntry : BitVec 32) : SchedulerState :=
  let s : SchedulerState :=
    { currPid := 0, processes := fun _ => zeroProcess, runqueues := fun _ => [], runPid := [] }
  let s := (s.setProc 0 ((newProcess u 0 0 idleDir).loaded idleEntry)).enqueue 0 0
  let s := (s.setProc 1 ((newProcess u 1 MAX_PRIORITY initDir).loaded initEntry)).enqueue
    MAX_PRIORITY 1
  { s with currPid := 1 }

/-! ## Syscalls -/

/-- The part of `SWITCH_BEFORE` that saves the registers: `*ctx->regs = *regs`. -/
def saveRegs (regs : Regs) (s : SchedulerState) : SchedulerState :=
  s.setRegs s.currPid regs

/-- `syscall.c`, `syscall_fork`. `dir` is the result of `fork_page_dir`. -/
def syscallFork (dir : Nat) (s : SchedulerState) : SchedulerState :=
  let parent := s.processes s.currPid
  let childPrio : Int := parent.context.regs.ebx.toInt
  let id := freeSlot s.processes
  if id = NUM_PROCESSES ∨ childPrio > parent.prio then
    s.setRegs s.currPid { parent.context.regs with eax := 0 }
  else
    let child : Process :=
      { state := .runnable
        parentId := s.currPid
        prio := childPrio
        context :=
          { parent.context with
            regs := { parent.context.regs with eax := 2, ebx := BitVec.ofNat 32 s.currPid }
            pageDir := dir } }
    let s := (s.setProc id child).enqueue childPrio id
    s.setRegs s.currPid { s.regs s.currPid with eax := 1, ebx := BitVec.ofNat 32 id }

/-- `syscall.c`, `resolve_exit_wait`. -/
def resolveExitWait (parent child : Nat) (s : SchedulerState) : SchedulerState :=
  let s := s.setState child .free
  let prio := (s.processes child).prio
  let s := s.setQueue prio ((s.runqueues prio).filter (· ≠ child))
  let s := s.setState parent .runnable
  let s := s.setRegs parent { s.regs parent with eax := 1, ebx := BitVec.ofNat 32 child }
  let s := s.setRegs parent { s.regs parent with ecx := (s.regs child).ebx }
  s.removeRunPid child

/-- One turn of the loop of `syscall_exit` over the children of the exiting process `id`. -/
def exitChild (id : Nat) (s : SchedulerState) (i : Nat) : SchedulerState :=
  if (s.processes i).parentId = id then
    let s := s.setParent i 1
    if (s.processes i).state = .zombie ∧ (s.processes 1).state = .waiting then
      resolveExitWait 1 i s
    else
      s
  else
    s

/-- `syscall.c`, `syscall_exit`. -/
def syscallExit (s : SchedulerState) : SchedulerState :=
  let id := s.currPid
  let s := s.setState id .zombie
  let s := (List.range NUM_PROCESSES).foldl (exitChild id) s
  let parent := (s.processes id).parentId
  if (s.processes parent).state = .waiting then
    resolveExitWait parent id s
  else
    s

/-- The loop of `syscall_wait` over the slots from `ids`: the first zombie child is reaped at once,
otherwise the result says whether some slot names `parent` as its parent. -/
def waitScan (parent : Nat) (s : SchedulerState) : List Nat → Bool → SchedulerState ⊕ Bool
  | [], hasChildren => .inr hasChildren
  | id :: ids, hasChildren =>
    if (s.processes id).parentId = parent then
      if (s.processes id).state = .zombie then
        .inl (resolveExitWait parent id s)
      else
        -- a free slot that still names `parent` counts as a child
        waitScan parent s ids true
    else
      waitScan parent s ids hasChildren

/-- `syscall.c`, `syscall_wait`. -/
def syscallWait (s : SchedulerState) : SchedulerState :=
  let parent := s.currPid
  let s := s.setState parent .waiting
  match waitScan parent s (List.range NUM_PROCESSES) false with
  | .inl s => s
  | .inr true => s
  | .inr false =>
    (s.setRegs parent { s.regs parent with eax := 0 }).setState parent .runnable

/-! ## What `resolve_exit_wait` changes -/

@[simp] lemma resolveExitWait_state (w c : Nat) (s : SchedulerState) (j : Nat) :
    ((resolveExitWait w c s).processes j).state =
      if j = w then .runnable else if j = c then .free else (s.processes j).state := by
  simp [resolveExitWait]

@[simp] lemma resolveExitWait_parentId (w c : Nat) (s : SchedulerState) (j : Nat) :
    ((resolveExitWait w c s).processes j).parentId = (s.processes j).parentId := by
  simp [resolveExitWait]

@[simp] lemma resolveExitWait_prio (w c : Nat) (s : SchedulerState) (j : Nat) :
    ((resolveExitWait w c s).processes j).prio = (s.processes j).prio := by
  simp [resolveExitWait]

@[simp] lemma resolveExitWait_currPid (w c : Nat) (s : SchedulerState) :
    (resolveExitWait w c s).currPid = s.currPid := rfl

/-- The registers after a reported exit: only the waiter's change. -/
lemma resolveExitWait_regs {w c : Nat} (h : c ≠ w) (s : SchedulerState) (j : Nat) :
    (resolveExitWait w c s).regs j =
      if j = w then
        { s.regs w with eax := 1, ebx := BitVec.ofNat 32 c, ecx := (s.regs c).ebx }
      else
        s.regs j := by
  by_cases hj : j = w
  · subst hj
    simp [resolveExitWait, h]
  · simp [resolveExitWait, hj]

end MarioBrOS.Scheduler
