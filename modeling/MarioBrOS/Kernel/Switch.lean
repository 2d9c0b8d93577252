import MarioBrOS.Kernel.Machine

/-!
# Heaps do not mix

A `Trace` is the history of one heap: its start and the operations on it, in order. Beside the
machine every directory has its trace; an operation is entered in the trace of the directory then in
force, and a forked directory takes over the trace of its parent. `Coherent` says where the heap
that a trace makes is to be found: in the globals for the directory in force, in `kernel_context`
for the kernel while a process runs, in its context for every other process in use. Each small step
moves heaps between these places and loses none.
-/

namespace MarioBrOS.Kernel

open Malloc Scheduler Scheduler.SchedulerState

variable {L : Layout}

/-- The history of a heap. -/
structure Trace where
  start : Heap
  ops : List HeapOp

/-- The heap that the operations of the history make on their own. -/
def Trace.heap (τ : Trace) : Option Heap :=
  τ.ops.foldl (fun h op => h.bind op.run) (some τ.start)

/-- One more operation. -/
def Trace.add (τ : Trace) (op : HeapOp) : Trace := { τ with ops := τ.ops ++ [op] }

/-- One more operation is performed on what the others made. -/
lemma Trace.heap_add (τ : Trace) (op : HeapOp) : (τ.add op).heap = τ.heap.bind op.run := by
  simp [Trace.heap, Trace.add]

/-- The histories after an event. -/
def record (c : Config) (τ : Nat → Trace) : MicroEvent → Nat → Trace
  | .op op => Function.update τ c.directory ((τ c.directory).add op)
  | .fork dir =>
    Function.update τ dir
      (τ (c.machine.sched.processes c.machine.sched.currPid).context.pageDir)
  | _ => τ

/-- A small step of the machine with the histories. -/
structure TraceStep (L : Layout) (x : Config × (Nat → Trace)) (e : MicroEvent)
    (y : Config × (Nat → Trace)) : Prop where
  step : MicroStep L x.1 e y.1
  traces : y.2 = record x.1 x.2 e

/-- The heap of the directory `dir` with a pair that is kept somewhere. -/
def heapAt (L : Layout) (m : Machine) (dir : Nat) (pair : HeapPair) : Heap where
  mem := m.malloc.memory dir
  firstFreeBlock := pair.firstFreeBlock
  unallocatedMem := pair.unallocatedMem
  startOfHeap := startOfHeap L dir

/-- The pair in a context. -/
def contextPair (s : SchedulerState) (i : Nat) : HeapPair :=
  ⟨(s.processes i).context.firstFreeBlock, (s.processes i).context.unallocatedMem⟩

/-- The directory in a context. -/
def contextDir (s : SchedulerState) (i : Nat) : Nat := (s.processes i).context.pageDir

/-- The heap of slot `i` as its context has it. -/
def savedHeap (L : Layout) (m : Machine) (i : Nat) : Heap :=
  heapAt L m (contextDir m.sched i) (contextPair m.sched i)

/-- The heap in force is the heap of the current directory with the globals. -/
lemma heap_eq_heapAt (m : Machine) :
    m.malloc.heap L = heapAt L m m.malloc.currentDirectory m.pair := rfl

/-- Where the heaps are. -/
structure Coherent (L : Layout) (x : Config × (Nat → Trace)) : Prop where
  queued : Queued x.1.machine.sched
  alive : Live x.1.machine.sched x.1.machine.sched.currPid ∨
    x.1.mode = .kernel ∧ ∃ w, (x.1.machine.sched.processes w).state = .runnable
  notKernel : ∀ i, Live x.1.machine.sched i → contextDir x.1.machine.sched i ≠ L.kernelDirectory
  distinct : ∀ i j, Live x.1.machine.sched i → Live x.1.machine.sched j →
    contextDir x.1.machine.sched i = contextDir x.1.machine.sched j → i = j
  directory : x.1.directory = if x.1.mode = .kernel then L.kernelDirectory else
    contextDir x.1.machine.sched x.1.machine.sched.currPid
  inForce : (x.2 x.1.directory).heap = some (x.1.machine.malloc.heap L)
  kernel : x.1.mode ≠ .kernel → (x.2 L.kernelDirectory).heap =
    some (heapAt L x.1.machine L.kernelDirectory x.1.machine.malloc.kernelContext)
  saved : ∀ i, Live x.1.machine.sched i → (i ≠ x.1.machine.sched.currPid ∨ x.1.mode = .kernel) →
    (x.2 (contextDir x.1.machine.sched i)).heap = some (savedHeap L x.1.machine i)

variable {m : Machine} {mode : Mode} {τ : Nat → Trace}

/-! ## Operations -/

/-- An operation on the heap in force. -/
lemma Coherent.op {op : HeapOp} {k : MallocState} (h : Coherent L (⟨m, mode⟩, τ))
    (e : op.exec L m.malloc = some k) :
    Coherent L (⟨{ m with malloc := k }, mode⟩, record ⟨m, mode⟩ τ (.op op)) := by
  rw [HeapOp.exec_eq, Option.map_eq_some_iff] at e
  obtain ⟨h', hrun, rfl⟩ := e
  have hstart : h'.startOfHeap = startOfHeap L m.malloc.currentDirectory :=
    HeapOp.run_startOfHeap hrun
  have hdir := h.directory
  simp only [Config.directory] at hdir
  -- the operation touches the memory and the trace of the directory in force only
  have other : ∀ dir pair, dir ≠ m.malloc.currentDirectory →
      heapAt L { m with malloc := m.malloc.setHeap h' } dir pair = heapAt L m dir pair ∧
      record ⟨m, mode⟩ τ (.op op) dir = τ dir := by
    intro dir pair hne
    simp [heapAt, MallocState.setHeap, record, Config.directory, hne]
  refine ⟨h.queued, h.alive, h.notKernel, h.distinct, h.directory, ?_, fun hm => ?_,
    fun i hi hor => ?_⟩
  · have hforce := h.inForce
    simp only [Config.directory] at hforce
    simp only [record, Config.directory, setHeap_currentDirectory, Function.update_self,
      Trace.heap_add, hforce, Option.bind_some, hrun, heap_setHeap L hstart]
  · rw [if_neg hm] at hdir
    have hcur : Live m.sched m.sched.currPid := h.alive.resolve_right fun h => hm h.1
    have hne : L.kernelDirectory ≠ m.malloc.currentDirectory :=
      hdir ▸ (h.notKernel _ hcur).symm
    obtain ⟨e1, e2⟩ := other L.kernelDirectory m.malloc.kernelContext hne
    exact (congrArg Trace.heap e2).trans ((h.kernel hm).trans (congrArg some e1.symm))
  · have hne : contextDir m.sched i ≠ m.malloc.currentDirectory := by
      rw [hdir]
      by_cases hm : mode = .kernel
      · rw [if_pos hm]; exact h.notKernel i hi
      · rw [if_neg hm]
        have hcur : Live m.sched m.sched.currPid := h.alive.resolve_right fun h => hm h.1
        exact fun e => hor.elim (· (h.distinct _ _ hi hcur e)) hm
    obtain ⟨e1, e2⟩ := other (contextDir m.sched i) (contextPair m.sched i) hne
    exact (congrArg Trace.heap e2).trans ((h.saved i hi hor).trans (congrArg some e1.symm))

/-! ## Switches -/

/-- Two scheduler states with the same heaps in the same slots in use, or fewer. -/
structure SameHeaps (s t : SchedulerState) : Prop where
  dir : ∀ i, contextDir t i = contextDir s i
  pair : ∀ i, contextPair t i = contextPair s i
  live : ∀ i, Live t i → Live s i

/-- In the kernel the process table may change, as long as the heaps in it do not. -/
lemma Coherent.sched {t : SchedulerState} (h : Coherent L (⟨m, .kernel⟩, τ)) (hq : Queued t)
    (hs : SameHeaps m.sched t)
    (ha : Live t t.currPid ∨ ∃ w, (t.processes w).state = .runnable) :
    Coherent L (⟨{ m with sched := t }, .kernel⟩, τ) := by
  refine ⟨hq, ha.imp id fun h => ⟨rfl, h⟩, fun i hi => ?_, fun i j hi hj e => ?_, h.directory,
    h.inForce, fun hm => absurd rfl hm, fun i hi _ => ?_⟩
  · have := h.notKernel i (hs.live i hi)
    rwa [← hs.dir] at this
  · have hi' := hs.live i hi
    have hj' := hs.live j hj
    simp only [hs.dir] at e
    exact h.distinct i j hi' hj' e
  · have := h.saved i (hs.live i hi) (.inr rfl)
    simp only [savedHeap, hs.dir, hs.pair] at this ⊢
    exact this

/-- From the directory of the process to the kernel's: the pair goes into the context. -/
lemma Coherent.leave (h : Coherent L (⟨m, mode⟩, τ)) (hm : mode ≠ .kernel) :
    Coherent L (⟨syscallSwitchBefore L m, .kernel⟩, τ) := by
  have hcur : Live m.sched m.sched.currPid := h.alive.resolve_right fun h => hm h.1
  have hstate : ∀ i, (((syscallSwitchBefore L m).sched).processes i).state =
      (m.sched.processes i).state := by
    intro i
    by_cases hi : i = m.sched.currPid <;> simp [syscallSwitchBefore, savePair, hi]
  have hdir : ∀ i, contextDir (syscallSwitchBefore L m).sched i = contextDir m.sched i := by
    intro i
    by_cases hi : i = m.sched.currPid <;> simp [syscallSwitchBefore, savePair, contextDir, hi]
  have hlive : ∀ i, Live (syscallSwitchBefore L m).sched i ↔ Live m.sched i := fun i => by
    rw [Live, hstate, Live]
  have hmem : (syscallSwitchBefore L m).malloc.memory = m.malloc.memory := rfl
  refine ⟨?_, .inl ((hlive _).mpr hcur), fun i hi => ?_, fun i j hi hj e => ?_, rfl, ?_,
    fun h => absurd rfl h, fun i hi _ => ?_⟩
  · refine h.queued.congr (fun j => by rw [hstate]) (fun j _ => ?_) fun _ _ => rfl
    by_cases hj : j = m.sched.currPid <;> simp [syscallSwitchBefore, savePair, hj]
  · simp only [hdir]
    exact h.notKernel i ((hlive i).mp hi)
  · simp only [hdir] at e
    exact h.distinct i j ((hlive i).mp hi) ((hlive j).mp hj) e
  · exact h.kernel hm
  · simp only [savedHeap, hdir]
    by_cases hi' : i = m.sched.currPid
    · have hd := h.directory
      rw [if_neg hm] at hd
      have hp : contextPair (syscallSwitchBefore L m).sched i = m.pair := by
        simp [contextPair, syscallSwitchBefore, savePair, hi', Machine.pair]
      rw [hp, hi', ← hd]
      exact h.inForce
    · have hp : contextPair (syscallSwitchBefore L m).sched i = contextPair m.sched i := by
        simp [contextPair, syscallSwitchBefore, savePair, hi']
      rw [hp]
      exact h.saved i ((hlive i).mp hi) (.inl hi')

/-- From the kernel's directory to that of the process: the pair comes from the context. -/
lemma Coherent.enter (h : Coherent L (⟨m, .kernel⟩, τ)) (hcur : Live m.sched m.sched.currPid)
    (hm : mode ≠ .kernel) : Coherent L (⟨syscallSwitchAfter m, mode⟩, τ) := by
  have hd := h.directory
  refine ⟨h.queued, .inl hcur, h.notKernel, h.distinct, ?_, ?_, fun _ => ?_, fun i hi _ => ?_⟩
  · simp only [if_neg hm]
    rfl
  · exact h.saved _ hcur (.inr rfl)
  · have hforce := h.inForce
    rw [hd, if_pos rfl, heap_eq_heapAt] at hforce
    simp only [Config.directory, if_true] at hd
    rw [hd] at hforce
    exact hforce
  · exact h.saved i hi (.inr rfl)

/-! ## The process table -/

variable {s t u : SchedulerState}

lemma SameHeaps.refl (s : SchedulerState) : SameHeaps s s := ⟨fun _ => rfl, fun _ => rfl, fun _ => id⟩

lemma SameHeaps.trans (h : SameHeaps s t) (h' : SameHeaps t u) : SameHeaps s u :=
  ⟨fun i => (h'.dir i).trans (h.dir i), fun i => (h'.pair i).trans (h.pair i),
    fun i hi => h.live i (h'.live i hi)⟩

section Contexts

variable (s : SchedulerState) (i j : Nat)

@[simp] lemma contextDir_setState (st : ProcessState) :
    contextDir (s.setState i st) j = contextDir s j := by
  by_cases hj : j = i <;> simp [contextDir, setState, hj]

@[simp] lemma contextPair_setState (st : ProcessState) :
    contextPair (s.setState i st) j = contextPair s j := by
  by_cases hj : j = i <;> simp [contextPair, setState, hj]

@[simp] lemma contextDir_setParent (p : Nat) :
    contextDir (s.setParent i p) j = contextDir s j := by
  by_cases hj : j = i <;> simp [contextDir, setParent, hj]

@[simp] lemma contextPair_setParent (p : Nat) :
    contextPair (s.setParent i p) j = contextPair s j := by
  by_cases hj : j = i <;> simp [contextPair, setParent, hj]

@[simp] lemma contextDir_setRegs (r : Regs) :
    contextDir (s.setRegs i r) j = contextDir s j := by
  by_cases hj : j = i <;> simp [contextDir, setRegs, hj]

@[simp] lemma contextPair_setRegs (r : Regs) :
    contextPair (s.setRegs i r) j = contextPair s j := by
  by_cases hj : j = i <;> simp [contextPair, setRegs, hj]

@[simp] lemma contextDir_setQueue (prio : Int) (q : List Nat) :
    contextDir (s.setQueue prio q) j = contextDir s j := rfl

@[simp] lemma contextPair_setQueue (prio : Int) (q : List Nat) :
    contextPair (s.setQueue prio q) j = contextPair s j := rfl

@[simp] lemma contextDir_removeRunPid : contextDir (s.removeRunPid i) j = contextDir s j := rfl

@[simp] lemma contextPair_removeRunPid : contextPair (s.removeRunPid i) j = contextPair s j := rfl

end Contexts

/-- Registers are no part of a heap. -/
lemma sameHeaps_setRegs (s : SchedulerState) (i : Nat) (r : Regs) : SameHeaps s (s.setRegs i r) :=
  ⟨by simp, by simp, by simp [Live]⟩

/-- The state of a slot in use is no part of a heap. -/
lemma sameHeaps_setState {i : Nat} (st : ProcessState) (hi : Live s i) :
    SameHeaps s (s.setState i st) := by
  refine ⟨by simp, by simp, fun j hj => ?_⟩
  by_cases hji : j = i
  · exact hji ▸ hi
  · simpa [Live, hji] using hj

/-- A report changes states and registers only. -/
lemma sameHeaps_resolve {w c : Nat} (hw : (s.processes w).state = .waiting)
    (hc : (s.processes c).state = .zombie) : SameHeaps s (resolveExitWait w c s) := by
  refine ⟨by simp [resolveExitWait], by simp [resolveExitWait], fun j hj => ?_⟩
  by_cases hjw : j = w
  · simp [Live, hjw, hw]
  · by_cases hjc : j = c
    · simp [Live, hjc, hc]
    · simpa [Live, hjw, hjc] using hj

/-- Settling accounts leaves the heaps. -/
lemma Settles.sameHeaps {id l} (h : Settles id s l t) : SameHeaps s t := by
  induction h with
  | refl => exact .refl _
  | reparent _ _ ih => exact ih.trans ⟨by simp, by simp, by simp [Live]⟩
  | resolve _ _ hw hc _ ih => exact ih.trans (sameHeaps_resolve hw hc)

/-- A selection changes queues and the current pid only. -/
lemma sameHeaps_endSyscall (cycle : Bool) (s : SchedulerState) :
    SameHeaps s (endSyscall cycle s) := by
  unfold endSyscall
  split
  · rcases selectBelow_cases s (MAX_PRIORITY + 1) with ⟨_, _, _, _, _, _, _, _, _, e⟩ | ⟨_, e⟩ <;>
      rw [selectNewProcess, e] <;> exact ⟨fun _ => rfl, fun _ => rfl, fun _ => id⟩
  · exact .refl s

/-- A successful fork: the child takes over the pair of its parent, with a directory of its own. -/
lemma syscallFork_contexts (dir : Nat) (hid : freeSlot s.processes ≠ NUM_PROCESSES)
    (hp : (s.regs s.currPid).ebx.toInt ≤ (s.processes s.currPid).prio) (i : Nat) :
    contextPair (syscallFork dir s) i =
      (if i = freeSlot s.processes then contextPair s s.currPid else contextPair s i) ∧
    contextDir (syscallFork dir s) i =
      (if i = freeSlot s.processes then dir else contextDir s i) ∧
    ((syscallFork dir s).processes i).state =
      if i = freeSlot s.processes then .runnable else (s.processes i).state := by
  obtain ⟨child, r, e, hstate, hffb, hum, hdir⟩ : ∃ child r, syscallFork dir s =
      ((s.setProc (freeSlot s.processes) child).enqueue child.prio
        (freeSlot s.processes)).setRegs s.currPid r ∧
      child.state = .runnable ∧
      child.context.firstFreeBlock = (s.processes s.currPid).context.firstFreeBlock ∧
      child.context.unallocatedMem = (s.processes s.currPid).context.unallocatedMem ∧
      child.context.pageDir = dir := by
    unfold syscallFork
    rw [if_neg fun h => h.elim hid fun h => Int.not_lt.mpr hp h]
    exact ⟨_, _, rfl, rfl, rfl, rfl, rfl⟩
  rw [e, contextPair_setRegs, contextDir_setRegs, setRegs_state]
  by_cases hi : i = freeSlot s.processes
  · simp [hi, contextPair, contextDir, hstate, hffb, hum, hdir]
  · simp [hi, contextPair, contextDir]

lemma syscallFork_currPid (dir : Nat) (s : SchedulerState) :
    (syscallFork dir s).currPid = s.currPid := by
  rcases syscallFork_cases dir s with e | ⟨_, _, _, e, _⟩ <;> rw [e] <;> rfl

/-! ## The small steps -/

/-- Registers that are already saved. -/
lemma saveRegs_self (s : SchedulerState) : saveRegs (s.regs s.currPid) s = s := by
  simp [saveRegs, setRegs, setProc, regs]

/-- A fork: the child starts with a copy of its parent's heap. -/
lemma Coherent.fork {dir : Nat} (h : Coherent L (⟨m, .kernel⟩, τ))
    (hcur : (m.sched.processes m.sched.currPid).state = .runnable)
    (hid : freeSlot m.sched.processes ≠ NUM_PROCESSES)
    (h0 : 0 ≤ (m.sched.regs m.sched.currPid).ebx.toInt)
    (hp : (m.sched.regs m.sched.currPid).ebx.toInt ≤ (m.sched.processes m.sched.currPid).prio)
    (hk : dir ≠ L.kernelDirectory) (hdir : ∀ i, Live m.sched i → contextDir m.sched i ≠ dir) :
    Coherent L (⟨⟨copyPages (contextDir m.sched m.sched.currPid) dir m.malloc,
      syscallFork dir m.sched⟩, .kernel⟩, record ⟨m, .kernel⟩ τ (.fork dir)) := by
  have hlive : Live m.sched m.sched.currPid := by simp [Live, hcur]
  have hctx := fun i => syscallFork_contexts dir hid hp i
  obtain ⟨hfree, _⟩ := freeSlot_free hid
  have hparent := h.saved _ hlive (.inr rfl)
  have hstart : startOfHeap L dir = startOfHeap L (contextDir m.sched m.sched.currPid) := by
    have := h.notKernel _ hlive
    simp only at this
    rw [startOfHeap, startOfHeap, if_neg hk, if_neg this]
  have hforkdir : record ⟨m, .kernel⟩ τ (.fork dir) dir = τ (contextDir m.sched m.sched.currPid) := by
    simp [record, contextDir]
  -- only the directory of the child is written
  have hother : ∀ d, d ≠ dir → record ⟨m, .kernel⟩ τ (.fork dir) d = τ d ∧
      (copyPages (contextDir m.sched m.sched.currPid) dir m.malloc).memory d =
        m.malloc.memory d := by
    intro d hd
    simp [record, copyPages, hd]
  have hcopy : (copyPages (contextDir m.sched m.sched.currPid) dir m.malloc).memory dir =
      m.malloc.memory (contextDir m.sched m.sched.currPid) := by
    simp [copyPages]
  -- the child is the only process that is new
  have hold : ∀ i, i ≠ freeSlot m.sched.processes →
      (Live (syscallFork dir m.sched) i ↔ Live m.sched i) := by
    intro i hi
    rw [Live, (hctx i).2.2, if_neg hi, Live]
  refine ⟨?_, .inl ?_, fun i hi => ?_, fun i j hi hj e => ?_, h.directory, ?_,
    fun hm => absurd rfl hm, fun i hi _ => ?_⟩
  · have hq : Queued (syscallFork dir (saveRegs (m.sched.regs m.sched.currPid) m.sched)) :=
      h.queued.fork h0 hp hlive
    rwa [saveRegs_self] at hq
  · simp only [Live, syscallFork_currPid, (hctx _).2.2]
    split
    · simp
    · exact hlive
  · simp only [(hctx i).2.1]
    split
    · exact hk
    · rename_i hne
      exact h.notKernel i ((hold i hne).mp hi)
  · simp only [(hctx _).2.1] at e
    by_cases hi' : i = freeSlot m.sched.processes <;> by_cases hj' : j = freeSlot m.sched.processes
    · rw [hi', hj']
    · rw [if_pos hi', if_neg hj'] at e
      exact absurd e.symm (hdir j ((hold j hj').mp hj))
    · rw [if_neg hi', if_pos hj'] at e
      exact absurd e (hdir i ((hold i hi').mp hi))
    · rw [if_neg hi', if_neg hj'] at e
      exact h.distinct i j ((hold i hi').mp hi) ((hold j hj').mp hj) e
  · have hd := h.directory
    simp only [Config.directory, if_true] at hd
    obtain ⟨e1, e2⟩ := hother L.kernelDirectory hk.symm
    have hforce := h.inForce
    simp only [Config.directory, hd] at hforce
    simp only [Config.directory]
    rw [show (copyPages (contextDir m.sched m.sched.currPid) dir m.malloc).currentDirectory =
      L.kernelDirectory from hd, e1, hforce]
    simp only [MallocState.heap, hd]
    rw [show (copyPages (contextDir m.sched m.sched.currPid) dir m.malloc).currentDirectory =
      L.kernelDirectory from hd, e2]
    rfl
  · simp only [savedHeap, heapAt, (hctx i).1, (hctx i).2.1]
    by_cases hi' : i = freeSlot m.sched.processes
    · rw [if_pos hi', if_pos hi', hforkdir, hcopy, hstart]
      exact hparent
    · rw [if_neg hi', if_neg hi']
      have hlive' := (hold i hi').mp hi
      obtain ⟨e1, e2⟩ := hother (contextDir m.sched i) (hdir i hlive')
      rw [e1, e2]
      exact h.saved i hlive' (.inr rfl)

/-- Every small step keeps the heaps where they belong. -/
lemma TraceStep.coherent {x e y} (st : TraceStep L x e y) (h : Coherent L x) : Coherent L y := by
  obtain ⟨c, τ⟩ := x
  obtain ⟨c', τ'⟩ := y
  obtain ⟨st, rfl⟩ := st
  simp only at st ⊢
  cases st with
  | userWrite e => exact h.op e
  | op _ e => exact h.op e
  | @trap m regs =>
    have hs : Coherent L (⟨{ m with sched := saveRegs regs m.sched }, .user⟩, τ) := by
      have same := sameHeaps_setRegs m.sched m.sched.currPid regs
      refine ⟨h.queued.setRegs, h.alive.imp (fun h => ?_) fun h => absurd h.1 (by simp),
        fun i hi => ?_, fun i j hi hj e => ?_, ?_, h.inForce, h.kernel, fun i hi hor => ?_⟩
      · simpa [Live, saveRegs] using h
      · have := h.notKernel i (same.live i hi)
        simpa [saveRegs] using this
      · exact h.distinct i j (same.live i hi) (same.live j hj) (by simpa [saveRegs] using e)
      · simpa [saveRegs, Config.directory] using h.directory
      · have := h.saved i (same.live i hi) hor
        simpa [saveRegs, savedHeap, heapAt] using this
    exact hs.leave (by simp)
  | enter hcur => exact h.enter (by simp [Live, hcur]) (by simp)
  | leave => exact h.leave (by simp)
  | @result m regs =>
    refine h.sched h.queued.setRegs (sameHeaps_setRegs _ _ _) ?_
    refine h.alive.imp (fun h => ?_) fun h => ?_
    · simpa [Live] using h
    · simpa using h.2
  | fork hcur hid h0 hp hk hdir => exact h.fork hcur hid h0 hp hk hdir
  | @exit m hcur =>
    have hlive : Live m.sched m.sched.currPid := by simp [Live, hcur]
    have hlt := h.queued.inTable _ hlive
    obtain ⟨l, st⟩ := syscallExit_settles m.sched hlt
    have hq : Queued (syscallExit (saveRegs (m.sched.regs m.sched.currPid) m.sched)) :=
      h.queued.exit hlive
    rw [saveRegs_self] at hq
    exact h.sched hq ((sameHeaps_setState .zombie hlive).trans (Settles.sameHeaps st))
      (syscallExit_alive hlt)
  | @wait m hcur =>
    have hlive : Live m.sched m.sched.currPid := by simp [Live, hcur]
    have hq : Queued (syscallWait (saveRegs (m.sched.regs m.sched.currPid) m.sched)) :=
      h.queued.wait hlive
    rw [saveRegs_self] at hq
    refine h.sched hq ?_ (.inl (syscallWait_alive _))
    have hwait := sameHeaps_setState (s := m.sched) .waiting hlive
    rcases syscallWait_cases m.sched with ⟨c, _, _, hne, hz, e⟩ | ⟨_, e | e⟩ <;> rw [e]
    · exact hwait.trans (sameHeaps_resolve (by simp) (by simpa [hne] using hz))
    · exact hwait
    · refine hwait.trans ((sameHeaps_setRegs _ _ _).trans (sameHeaps_setState _ ?_))
      simp [Live]
  | @resume m cycle =>
    have halive : Live m.sched m.sched.currPid ∨
        ∃ w, (m.sched.processes w).state = .runnable := h.alive.imp id fun h => h.2
    obtain ⟨hq, hcur⟩ := h.queued.endSyscall cycle halive
    exact (h.sched hq (sameHeaps_endSyscall cycle m.sched) (.inl hcur)).enter hcur (by simp)

/-- The machine that `scheduler_install` hands to the init process: idle and init have the heaps
that `new_page_dir` made, the kernel's pair is saved. -/
def bootMachine (u : UserLayout) (idleDir initDir : PageDirResult) (idleEntry initEntry : BitVec 32)
    (memory : Nat → Bytes) (kernelContext : HeapPair) : Machine where
  malloc :=
    { memory := memory
      firstFreeBlock := initDir.firstFreeBlock
      unallocatedMem := initDir.unallocatedMem
      currentDirectory := initDir.pageDir
      kernelContext := kernelContext }
  sched := schedulerInstall u idleDir initDir idleEntry initEntry

/-- The histories at the start: every heap as it is, with nothing done to it. -/
def bootTraces (L : Layout) (idleDir initDir : PageDirResult) (memory : Nat → Bytes)
    (kernelContext : HeapPair) (dir : Nat) : Trace :=
  let pair : HeapPair :=
    if dir = initDir.pageDir then ⟨initDir.firstFreeBlock, initDir.unallocatedMem⟩
    else if dir = idleDir.pageDir then ⟨idleDir.firstFreeBlock, idleDir.unallocatedMem⟩
    else kernelContext
  { start :=
      { mem := memory dir
        firstFreeBlock := pair.firstFreeBlock
        unallocatedMem := pair.unallocatedMem
        startOfHeap := startOfHeap L dir }
    ops := [] }

/-- At the start the heaps are where they belong. -/
lemma bootMachine_coherent (u : UserLayout) {d0 d1 : PageDirResult} (e0 e1 : BitVec 32)
    (memory : Nat → Bytes) (k : HeapPair) (h0 : d0.pageDir ≠ L.kernelDirectory)
    (h1 : d1.pageDir ≠ L.kernelDirectory) (h01 : d0.pageDir ≠ d1.pageDir) :
    Coherent L (⟨bootMachine u d0 d1 e0 e1 memory k, .user⟩, bootTraces L d0 d1 memory k) := by
  have hlive : ∀ i, Live (schedulerInstall u d0 d1 e0 e1) i → i = 0 ∨ i = 1 := by
    intro i hi
    by_contra hn
    rw [not_or] at hn
    exact hi (by simp [schedulerInstall, zeroProcess, hn.1, hn.2])
  have hdir0 : contextDir (schedulerInstall u d0 d1 e0 e1) 0 = d0.pageDir := by
    simp [contextDir, schedulerInstall, newProcess, Process.loaded]
  have hdir1 : contextDir (schedulerInstall u d0 d1 e0 e1) 1 = d1.pageDir := by
    simp [contextDir, schedulerInstall, newProcess, Process.loaded]
  refine ⟨schedulerInstall_queued u d0 d1 e0 e1, .inl ?_, fun i hi => ?_, fun i j hi hj e => ?_,
    hdir1.symm, ?_, fun _ => ?_, fun i hi hor => ?_⟩
  · simp [Live, bootMachine, schedulerInstall, newProcess, Process.loaded]
  · rcases hlive i hi with rfl | rfl
    · exact hdir0 ▸ h0
    · exact hdir1 ▸ h1
  · simp only [bootMachine] at e
    rcases hlive i hi with rfl | rfl <;> rcases hlive j hj with rfl | rfl
    · rfl
    · rw [hdir0, hdir1] at e; exact absurd e h01
    · rw [hdir0, hdir1] at e; exact absurd e.symm h01
    · rfl
  · simp [Trace.heap, bootTraces, bootMachine, Config.directory, MallocState.heap]
  · simp [Trace.heap, bootTraces, bootMachine, heapAt, h0.symm, h1.symm]
  · obtain rfl : i = 0 := by
      rcases hlive i hi with rfl | rfl
      · rfl
      · exact absurd (hor.resolve_right (by simp)) fun h => h rfl
    have hpair0 : contextPair (schedulerInstall u d0 d1 e0 e1) 0 =
        ⟨d0.firstFreeBlock, d0.unallocatedMem⟩ := by
      simp [contextPair, schedulerInstall, newProcess, Process.loaded]
    simp [Trace.heap, bootTraces, bootMachine, savedHeap, heapAt, hdir0, hpair0, h01]

/-- Heaps do not mix, over every run of small steps from the start: whenever a heap operation may
run, the heap in force, its pair of globals included, is what the operations on the directory in
force have made of its start on their own (for a forked child: with those of its parent before the
fork); while a process runs, the same holds of the kernel's heap with the pair in `kernel_context`;
and of every other process in use with the pair in its context. -/
theorem heaps_do_not_mix {u d0 d1 e0 e1 memory k es c τ} (h0 : d0.pageDir ≠ L.kernelDirectory)
    (h1 : d1.pageDir ≠ L.kernelDirectory) (h01 : d0.pageDir ≠ d1.pageDir)
    (r : Run (TraceStep L)
      (⟨bootMachine u d0 d1 e0 e1 memory k, .user⟩, bootTraces L d0 d1 memory k) es (c, τ)) :
    (τ c.directory).heap = some (c.machine.malloc.heap L) ∧
    (c.directory = if c.mode = .kernel then L.kernelDirectory else
      contextDir c.machine.sched c.machine.sched.currPid) ∧
    (c.mode ≠ .kernel → (τ L.kernelDirectory).heap =
      some (heapAt L c.machine L.kernelDirectory c.machine.malloc.kernelContext)) ∧
    ∀ i, Live c.machine.sched i → (i ≠ c.machine.sched.currPid ∨ c.mode = .kernel) →
      (τ (contextDir c.machine.sched i)).heap = some (savedHeap L c.machine i) := by
  have h := r.invariant (I := Coherent L) (fun _ _ _ h st => st.coherent h)
    (bootMachine_coherent u e0 e1 memory k h0 h1 h01)
  exact ⟨h.inForce, h.directory, h.kernel, h.saved⟩

/-- Histories can be kept along every run of the machine. -/
lemma exists_traces {c es c'} (r : Run (MicroStep L) c es c') (τ : Nat → Trace) :
    ∃ τ', Run (TraceStep L) (c, τ) es (c', τ') := by
  induction r with
  | nil => exact ⟨τ, .nil⟩
  | @snoc es c' e c'' _ st ih =>
    obtain ⟨τ', r⟩ := ih
    exact ⟨record c' τ' e, r.snoc ⟨st, rfl⟩⟩

/-- Idle's and init's directories in the sample. -/
def sampleDir (pageDir : Nat) : PageDirResult := ⟨pageDir, 0x300000, 0x301000⟩

/-- A machine just started, with a new heap in each directory. -/
def sampleMachine : Machine :=
  bootMachine ⟨0x1B, 0x23, 0x2B, 0xFFFEFFFC⟩ (sampleDir 1) (sampleDir 2) 0xFFFF0000 0xFFFF0000
    (fun dir => (mallocNewState (fun _ => 0) (startOfHeap sampleLayout dir)).mem)
    ⟨0x150000, 0x151000⟩

/-- Init has forked a process as strong as itself, with the directory 3. -/
def sampleForked : Machine :=
  let m := switchBefore sampleLayout (sampleRegs 1 (BitVec.ofNat 32 MAX_PRIORITY)) sampleMachine
  switchAfter ⟨copyPages (m.sched.processes m.sched.currPid).context.pageDir 3 m.malloc,
    endSyscall true (syscallFork 3 m.sched)⟩

/-- The fork, in small steps. -/
lemma sampleForked_run :
    ∃ es, Run (MicroStep sampleLayout) ⟨sampleMachine, .user⟩ es ⟨sampleForked, .user⟩ := by
  refine ⟨_, ((Run.single .trap).snoc (.fork (by decide +kernel) (by decide +kernel)
    (by decide +kernel) (by decide +kernel) (by decide) fun i hi => ?_)).snoc .resume⟩
  by_cases h1 : i = 1
  · subst h1
    decide +kernel
  by_cases h0 : i = 0
  · subst h0
    decide +kernel
  · exact absurd hi (by simp [Live, switchBefore, syscallSwitchBefore, savePair, saveRegs,
      sampleMachine, bootMachine, schedulerInstall, zeroProcess, h0, h1])

/-- The timer lets the other process run, which allocates 100 bytes: its heap is the one that its
operations make of the heap of init before the fork, and the heap of init is kept. -/
theorem heaps_do_not_mix_forked :
    ∃ m m' es, ∃ τ : Nat → Trace,
      timerHandler sampleLayout (sampleRegs 1 0) [] sampleForked = some m ∧
      syscallHandler sampleLayout (syscallMalloc sampleLayout none) false (sampleRegs 1 100) [] m =
        some m' ∧
      Run (TraceStep sampleLayout) (⟨sampleMachine, .user⟩,
        bootTraces sampleLayout (sampleDir 1) (sampleDir 2)
          (fun dir => (mallocNewState (fun _ => 0) (startOfHeap sampleLayout dir)).mem)
          ⟨0x150000, 0x151000⟩) es (⟨m', .user⟩, τ) ∧
      (τ 3).heap = some (m'.malloc.heap sampleLayout) ∧
      (τ 2).heap = some (savedHeap sampleLayout m' 1) := by
  have hreads : ((timerHandler sampleLayout (sampleRegs 1 0) [] sampleForked).bind fun m =>
      (syscallHandler sampleLayout (syscallMalloc sampleLayout none) false (sampleRegs 1 100) []
        m).map fun m' => ((m.sched.processes m.sched.currPid).state, m'.malloc.currentDirectory,
          m'.sched.currPid, (m'.sched.processes 1).state, (m'.sched.processes 1).context.pageDir)) =
      some (.runnable, 3, 2, .runnable, 2) := by
    decide +kernel
  obtain ⟨m, hm, hreads⟩ := Option.bind_eq_some_iff.mp hreads
  obtain ⟨m', hm', hreads⟩ := Option.map_eq_some_iff.mp hreads
  simp only [Prod.mk.injEq] at hreads
  obtain ⟨hcur, hdir, hpid, hinit, hpage⟩ := hreads
  obtain ⟨_, forked⟩ := sampleForked_run
  obtain ⟨_, ticked⟩ := timerHandler_run hm
  obtain ⟨_, called⟩ := syscallHandler_run (fun _ _ h1 h2 => syscallMalloc_run h1 h2) hcur hm'
  obtain ⟨τ, r⟩ := exists_traces ((forked.append ticked).append called)
    (bootTraces sampleLayout (sampleDir 1) (sampleDir 2) _ ⟨0x150000, 0x151000⟩)
  obtain ⟨hforce, _, _, hsaved⟩ := heaps_do_not_mix (by decide) (by decide) (by decide) r
  refine ⟨m, m', _, τ, hm, hm', r, ?_, ?_⟩
  · rw [Config.directory, hdir] at hforce
    exact hforce
  · have h := hsaved 1 (by rw [Live, hinit]; decide) (.inl (by rw [hpid]; decide))
    rw [contextDir, hpage] at h
    exact h

end MarioBrOS.Kernel
