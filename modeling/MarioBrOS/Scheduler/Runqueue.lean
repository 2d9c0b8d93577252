import MarioBrOS.Scheduler.ExitWait
import Mathlib.Data.List.Count

/-!
# Runqueue membership

Three places drain and rebuild queues: selection (`scheduler.c`, `select_new_process`), reaping
(`syscall.c`, `resolve_exit_wait`) and creation (`run_program`, `syscall_fork`). `Queued` says that
a pid is counted once in the queue of its own priority while its slot is in use, and nowhere
otherwise; each operation keeps it, a selection because it only rotates one queue
(`selectBelow_cases`), a report because it frees a slot and filters its pid out.

A syscall is made by a process, that is, by a slot that is not free. `kernelRun_currPid` shows that
the kernel entries of `scheduler.c` never violate this: when the slot of the current process is
freed, its parent becomes runnable, and the handler selects a runnable process before it returns.
-/

namespace MarioBrOS.Scheduler

open SchedulerState

/-! ## The system -/

/-- The operations on the table and the runqueues: the shell starts a program (`entry` is its entry
point, if it exists), the current process traps with the registers it then holds, the scheduler
selects. -/
inductive QueueEvent where
  | run (u : UserLayout) (dir : PageDirResult) (entry : Option (BitVec 32))
  | fork (regs : Regs) (dir : Nat)
  | exit (regs : Regs)
  | wait (regs : Regs)
  | select

/-- The operations in any order. A syscall is made by a slot in use; a fork is successful, with a
priority between 0 and the caller's. -/
inductive QueueStep : SchedulerState → QueueEvent → SchedulerState → Prop where
  | run {s u dir entry} : QueueStep s (.run u dir entry) (runProgram u dir entry s)
  | fork {s regs dir} :
    (s.processes s.currPid).state ≠ .free →
    freeSlot s.processes ≠ NUM_PROCESSES →
    0 ≤ regs.ebx.toInt →
    regs.ebx.toInt ≤ (s.processes s.currPid).prio →
    QueueStep s (.fork regs dir) (syscallFork dir (saveRegs regs s))
  | exit {s regs} :
    (s.processes s.currPid).state ≠ .free →
    QueueStep s (.exit regs) (syscallExit (saveRegs regs s))
  | wait {s regs} :
    (s.processes s.currPid).state ≠ .free →
    QueueStep s (.wait regs) (syscallWait (saveRegs regs s))
  | select {s} : QueueStep s .select (selectNewProcess s)

/-! ## Selection rotates one queue -/

/-- The inner loop stops at the first runnable pid, or empties the queue. -/
lemma drain_cases (procs : Nat → Process) (q temp : List Nat) :
    (∃ a pid b, q = a ++ pid :: b ∧ (∀ x ∈ a, (procs x).state ≠ .runnable) ∧
      (procs pid).state = .runnable ∧
      drain procs q temp = (some pid, b, temp ++ (a ++ [pid]))) ∨
    (∀ x ∈ q, (procs x).state ≠ .runnable) ∧ drain procs q temp = (none, [], temp ++ q) := by
  induction q generalizing temp with
  | nil => right; simp [drain]
  | cons pid q ih =>
    by_cases h : (procs pid).state = .runnable
    · exact .inl ⟨[], pid, q, rfl, by simp, h, by simp [drain, h]⟩
    · rcases ih (temp ++ [pid]) with ⟨a, pid', b, rfl, ha, hp, e⟩ | ⟨hq, e⟩
      · refine .inl ⟨pid :: a, pid', b, rfl, ?_, hp, by simp [drain, h, e]⟩
        simpa [h] using ha
      · refine .inr ⟨?_, by simp [drain, h, e]⟩
        simpa [h] using hq

/-- Putting a queue back as it was changes nothing. -/
lemma setQueue_self (s : SchedulerState) (prio : Int) : s.setQueue prio (s.runqueues prio) = s := by
  simp [setQueue]

/-- The outer loop selects the first runnable pid of the strongest level that has one and moves it,
with the pids before it, to the end of its queue. -/
lemma selectBelow_cases (s : SchedulerState) (n : Nat) :
    (∃ prio < n, ∃ a pid b, s.runqueues prio = a ++ pid :: b ∧
      (∀ x ∈ a, (s.processes x).state ≠ .runnable) ∧ (s.processes pid).state = .runnable ∧
      (∀ j < n, prio < j → ∀ x ∈ s.runqueues j, (s.processes x).state ≠ .runnable) ∧
      selectBelow s n = { s.setQueue prio (b ++ (a ++ [pid])) with currPid := pid }) ∨
    (∀ j < n, ∀ x ∈ s.runqueues j, (s.processes x).state ≠ .runnable) ∧ selectBelow s n = s := by
  induction n with
  | zero => right; simp [selectBelow]
  | succ n ih =>
    rcases drain_cases s.processes (s.runqueues n) [] with ⟨a, pid, b, eq, ha, hp, e⟩ | ⟨hq, e⟩
    · left
      refine ⟨n, by omega, a, pid, b, eq, ha, hp, fun j h1 h2 => by omega, ?_⟩
      simp [selectBelow, e]
    · have step : selectBelow s (n + 1) = selectBelow s n := by
        simp [selectBelow, e, setQueue_self]
      rw [step]
      have cover : ∀ j < n + 1, j = n ∨ j < n := fun j h => by omega
      rcases ih with ⟨prio, hlt, a, pid, b, eq, ha, hp, hj, e'⟩ | ⟨hj, e'⟩
      · refine .inl ⟨prio, by omega, a, pid, b, eq, ha, hp, fun j h1 h2 => ?_, e'⟩
        rcases cover j h1 with rfl | h
        · exact hq
        · exact hj j h h2
      · refine .inr ⟨fun j h => ?_, e'⟩
        rcases cover j h with rfl | h
        · exact hq
        · exact hj j h

/-! ## The invariant -/

variable {s t : SchedulerState}

/-- Every pid in use is counted once in the runqueue of its priority and in no other, a free pid in
none; only slots of the table are in use, with priorities that index a runqueue. -/
structure Queued (s : SchedulerState) : Prop where
  count : ∀ pid prio, (s.runqueues prio).count pid =
    if (s.processes pid).state ≠ .free ∧ prio = (s.processes pid).prio then 1 else 0
  inTable : ∀ pid, (s.processes pid).state ≠ .free → pid < NUM_PROCESSES
  prio : ∀ pid, (s.processes pid).state ≠ .free →
    0 ≤ (s.processes pid).prio ∧ (s.processes pid).prio ≤ MAX_PRIORITY

/-- Changes that keep which slots are in use, the priorities and the queue counts keep `Queued`. -/
lemma Queued.congr (h : Queued s)
    (hstate : ∀ j, (t.processes j).state = .free ↔ (s.processes j).state = .free)
    (hprio : ∀ j, (s.processes j).state ≠ .free → (t.processes j).prio = (s.processes j).prio)
    (hq : ∀ prio pid, (t.runqueues prio).count pid = (s.runqueues prio).count pid) : Queued t := by
  refine ⟨fun pid prio => ?_, fun pid hp => ?_, fun pid hp => ?_⟩
  · rw [hq, h.count]
    by_cases hf : (s.processes pid).state = .free
    · simp [hf, (hstate pid).mpr hf]
    · simp [hf, mt (hstate pid).mp hf, hprio pid hf]
  · exact h.inTable pid (mt (hstate pid).mpr hp)
  · have hf := mt (hstate pid).mpr hp
    rw [hprio pid hf]
    exact h.prio pid hf

/-- Changing the state of a slot in use to another state of use. -/
lemma Queued.setState {i st} (h : Queued s) (hi : (s.processes i).state ≠ .free) (hst : st ≠ .free) :
    Queued (s.setState i st) := by
  refine h.congr (fun j => ?_) (by simp) (by simp)
  by_cases hj : j = i <;> simp [hj, hi, hst]

/-- Registers are no part of the invariant. -/
lemma Queued.setRegs {i r} (h : Queued s) : Queued (s.setRegs i r) :=
  h.congr (by simp) (by simp) (by simp)

/-- A report frees one slot and takes its pid off its queue. -/
lemma Queued.resolve {w c} (h : Queued s) (hw : (s.processes w).state ≠ .free)
    (hc : (s.processes c).state ≠ .free) (hcw : c ≠ w) : Queued (resolveExitWait w c s) := by
  have hq : ∀ prio, (resolveExitWait w c s).runqueues prio =
      if prio = (s.processes c).prio then (s.runqueues prio).filter (· ≠ c)
      else s.runqueues prio := by
    intro prio
    by_cases hp : prio = (s.processes c).prio <;> simp [resolveExitWait, hp]
  refine ⟨fun pid prio => ?_, fun pid hp => ?_, fun pid hp => ?_⟩
  · simp only [resolveExitWait_state, resolveExitWait_prio, hq]
    by_cases hpc : pid = c
    · subst hpc
      have hcount := h.count pid prio
      by_cases hp : prio = (s.processes pid).prio
      · simp [hp, hcw, List.count_eq_zero]
      · simpa [hp, hcw] using hcount
    · have hfilter : ((s.runqueues prio).filter (· ≠ c)).count pid = (s.runqueues prio).count pid :=
        List.count_filter (by simpa using hpc)
      have hcount := h.count pid prio
      by_cases hpw : pid = w
      · subst hpw
        by_cases hp : prio = (s.processes c).prio <;> simp [hp, hw] at hfilter hcount ⊢ <;>
          first | exact hfilter.trans hcount | exact hcount
      · by_cases hp : prio = (s.processes c).prio
        · rw [if_pos hp, hfilter, hcount, if_neg hpw, if_neg hpc]
        · rw [if_neg hp, hcount, if_neg hpw, if_neg hpc]
  · by_cases hpw : pid = w
    · exact h.inTable pid (by simp [hpw, hw])
    · refine h.inTable pid fun hf => hp ?_
      by_cases hpc : pid = c <;> simp [hpw, hpc, hf, hcw]
  · rw [resolveExitWait_prio]
    by_cases hpw : pid = w
    · exact h.prio pid (by simp [hpw, hw])
    · refine h.prio pid fun hf => hp ?_
      by_cases hpc : pid = c <;> simp [hpw, hpc, hf, hcw]

/-- Settling accounts keeps the invariant. -/
lemma Queued.settles {id l} (h : Queued s) (st : Settles id s l t) : Queued t := by
  induction st with
  | refl => exact h
  | reparent _ _ ih => exact ih.congr (by simp) (by simp) (by simp)
  | resolve _ _ hw hc _ ih =>
    refine ih.resolve (by simp [hw]) (by simp [hc]) ?_
    rintro rfl
    cases hw.symm.trans hc

/-- A new process in a free slot, put on the queue of its priority. -/
lemma Queued.create (h : Queued s) (id : Nat) (child : Process) (hlt : id < NUM_PROCESSES)
    (hf : (s.processes id).state = .free) (hc : child.state ≠ .free)
    (hp : 0 ≤ child.prio ∧ child.prio ≤ MAX_PRIORITY) :
    Queued ((s.setProc id child).enqueue child.prio id) := by
  refine ⟨fun pid prio => ?_, fun pid hp => ?_, fun pid hp' => ?_⟩
  · have hcount := h.count pid prio
    by_cases hpid : pid = id
    · subst hpid
      by_cases hprio : prio = child.prio
      · subst hprio
        simpa [hf, hc, List.count_eq_zero] using hcount
      · simpa [hf, hc, hprio] using hcount
    · by_cases hprio : prio = child.prio
      · subst hprio
        simpa [hpid, List.count_append, Ne.symm hpid] using hcount
      · simpa [hpid, hprio] using hcount
  · by_cases hpid : pid = id
    · exact hpid ▸ hlt
    · exact h.inTable pid (by simpa [hpid] using hp)
  · by_cases hpid : pid = id
    · simpa [hpid] using hp
    · have := h.prio pid (by simpa [hpid] using hp')
      simpa [hpid] using this

/-- Selection keeps the invariant: it permutes one queue. -/
lemma Queued.select (h : Queued s) : Queued (selectNewProcess s) := by
  rcases selectBelow_cases s (MAX_PRIORITY + 1) with ⟨prio, _, a, pid, b, eq, _, _, _, e⟩ | ⟨_, e⟩
  · rw [selectNewProcess, e]
    refine h.congr (by simp) (by simp) fun p x => ?_
    by_cases hp : p = prio
    · subst hp
      simp only [setQueue_runqueues, Function.update_self, eq, List.count_append, List.count_cons,
        List.count_nil]
      omega
    · simp [hp]
  · rw [selectNewProcess, e]; exact h

/-! ## The operations keep the invariant -/

/-- `run_program` uses a free slot, or leaves it free when there is no such program. -/
lemma Queued.runProgram (h : Queued s) (u : UserLayout) (dir : PageDirResult)
    (entry : Option (BitVec 32)) : Queued (runProgram u dir entry s) := by
  unfold Scheduler.runProgram
  by_cases hs : freeSlot s.processes = NUM_PROCESSES
  · simpa [hs] using h
  · obtain ⟨hf, hlt⟩ := freeSlot_free hs
    rw [if_neg hs]
    cases entry with
    | none =>
      refine h.congr (fun j => ?_) (fun j hj => ?_) (by simp)
      · by_cases hj : j = freeSlot s.processes <;> simp [hj, hf]
      · have hj : j ≠ freeSlot s.processes := by rintro rfl; exact hj hf
        simp [hj]
    | some e =>
      have hc := h.create _ ((newProcess u 1 1 dir).loaded e) hlt hf
        (by simp [newProcess, Process.loaded])
        (by simp [newProcess, Process.loaded, MAX_PRIORITY])
      exact hc.congr (by simp) (by simp) (by simp [newProcess, Process.loaded])

/-- A successful `syscall_fork` fills a free slot and queues it. -/
lemma Queued.fork {regs dir} (h : Queued s) (h0 : 0 ≤ regs.ebx.toInt)
    (hp : regs.ebx.toInt ≤ (s.processes s.currPid).prio)
    (hcur : (s.processes s.currPid).state ≠ .free) :
    Queued (syscallFork dir (saveRegs regs s)) := by
  have hmax := (h.prio s.currPid hcur).2
  have h := h.setRegs (i := s.currPid) (r := regs)
  rcases syscallFork_cases dir (saveRegs regs s) with e | ⟨id, child, r, e, hlt, hf, hc, hcp⟩
  · rw [e]; exact h.setRegs
  · have hprio : child.prio = regs.ebx.toInt := by simpa [saveRegs] using hcp
    rw [e]
    exact (h.create id child hlt hf (by simp [hc]) (by omega)).setRegs

/-- `syscall_exit` keeps the invariant. -/
lemma Queued.exit {regs} (h : Queued s) (hcur : (s.processes s.currPid).state ≠ .free) :
    Queued (syscallExit (saveRegs regs s)) := by
  obtain ⟨l, st⟩ := syscallExit_settles (saveRegs regs s) (h.inTable _ hcur)
  exact (h.setRegs.setState (by simpa [saveRegs] using hcur) (by simp)).settles st

/-- `syscall_wait` keeps the invariant. -/
lemma Queued.wait {regs} (h : Queued s) (hcur : (s.processes s.currPid).state ≠ .free) :
    Queued (syscallWait (saveRegs regs s)) := by
  have h : Queued ((saveRegs regs s).setState s.currPid .waiting) :=
    h.setRegs.setState (by simpa using hcur) (by simp)
  rcases syscallWait_cases (saveRegs regs s) with ⟨c, _, _, hc, hz, e⟩ | ⟨_, e | e⟩ <;> rw [e]
  · simp only [saveRegs, setRegs_currPid, setRegs_state] at hc hz
    have hzf : (((saveRegs regs s).setState s.currPid .waiting).processes c).state ≠ .free := by
      simp [saveRegs, hc, hz]
    exact h.resolve (by simp [saveRegs]) hzf hc
  · exact h
  · exact h.setRegs.setState (by simp [saveRegs]) (by simp)

/-- Every operation keeps the invariant. -/
lemma QueueStep.queued {s e t} (st : QueueStep s e t) (h : Queued s) : Queued t := by
  cases st with
  | run => exact h.runProgram _ _ _
  | fork hcur _ h0 hp => exact h.fork h0 hp hcur
  | exit hcur => exact h.exit hcur
  | wait hcur => exact h.wait hcur
  | select => exact h.select

/-- The installed table is queued: idle at priority 0, init at `MAX_PRIORITY`. -/
lemma schedulerInstall_queued (u : UserLayout) (d0 d1 : PageDirResult) (e0 e1 : BitVec 32) :
    Queued (schedulerInstall u d0 d1 e0 e1) := by
  let s : SchedulerState :=
    { currPid := 0, processes := fun _ => zeroProcess, runqueues := fun _ => [], runPid := [] }
  have h : Queued s := ⟨by simp [s, zeroProcess], by simp [s, zeroProcess], by simp [s, zeroProcess]⟩
  have h := h.create 0 ((newProcess u 0 0 d0).loaded e0) (by decide) rfl
    (by simp [newProcess, Process.loaded]) (by simp [newProcess, Process.loaded, MAX_PRIORITY])
  have h := h.create 1 ((newProcess u 1 MAX_PRIORITY d1).loaded e1) (by decide)
    (by simp [s, zeroProcess]) (by simp [newProcess, Process.loaded])
    (by simp [newProcess, Process.loaded, MAX_PRIORITY])
  exact h.congr (by simp [schedulerInstall, s, newProcess, Process.loaded])
    (by simp [schedulerInstall, s, newProcess, Process.loaded])
    (by simp [schedulerInstall, s, newProcess, Process.loaded])

/-- Over every run of the operations from the installed table, a pid in use occurs exactly once in
the runqueue of its own priority and in no other, and a free pid in none. -/
theorem runqueue_membership {u d0 d1 e0 e1 es s}
    (r : Run QueueStep (schedulerInstall u d0 d1 e0 e1) es s) (pid : Nat) :
    ((s.processes pid).state ≠ .free →
      (s.runqueues (s.processes pid).prio).count pid = 1 ∧
      ∀ prio, prio ≠ (s.processes pid).prio → pid ∉ s.runqueues prio) ∧
    ((s.processes pid).state = .free → ∀ prio, pid ∉ s.runqueues prio) := by
  have h : Queued s :=
    r.invariant (fun _ _ _ h st => st.queued h) (schedulerInstall_queued u d0 d1 e0 e1)
  refine ⟨fun hp => ⟨by simp [h.count, hp], fun prio hne => ?_⟩, fun hf prio => ?_⟩
  · exact List.count_eq_zero.mp (by simp [h.count, hne])
  · exact List.count_eq_zero.mp (by simp [h.count, hf])

/-- Init forks process 2 and waits, process 2 is selected. -/
def sampleSelect : SchedulerState :=
  selectNewProcess (syscallWait (saveRegs (sampleRegs 2 0) sampleFork))

/-- Process 2 exits, which wakes init, and init is selected. -/
def sampleReap : SchedulerState :=
  selectNewProcess (syscallExit (saveRegs (sampleRegs 0 42) sampleSelect))

/-- Process 2 runs from its own queue, and after its exit is in none. -/
theorem runqueue_membership_sample :
    (sampleSelect.runqueues 3).count 2 = 1 ∧ ∀ prio, 2 ∉ sampleReap.runqueues prio := by
  have selected : Run QueueStep sampleInstall _ sampleSelect :=
    ((Run.single (.fork (by decide) (by decide) (by decide) (by decide))).snoc
      (.wait (by decide))).snoc .select
  have reaped : Run QueueStep sampleInstall _ sampleReap :=
    (selected.snoc (.exit (by decide +kernel))).snoc .select
  refine ⟨?_, (runqueue_membership reaped 2).2 (by decide +kernel)⟩
  have prio : (sampleSelect.processes 2).prio = 3 := by decide +kernel
  exact prio ▸ ((runqueue_membership selected 2).1 (by decide +kernel)).1

/-! ## The caller of a syscall -/

/-- What enters the kernel: the timer, a syscall of the current process, a command of the shell.
`cycle` is `should_cycle` at the end of the syscall. -/
inductive KernelEvent where
  | timer (regs : Regs)
  | fork (regs : Regs) (dir : Nat) (cycle : Bool)
  | exit (regs : Regs) (cycle : Bool)
  | wait (regs : Regs) (cycle : Bool)
  | run (u : UserLayout) (dir : PageDirResult) (entry : Option (BitVec 32))

/-- The end of `syscall_handler`: a new process is selected when the timer asked for it or the
current one cannot go on. -/
def endSyscall (cycle : Bool) (s : SchedulerState) : SchedulerState :=
  if cycle ∨ (s.processes s.currPid).state ≠ .runnable then selectNewProcess s else s

/-- `scheduler.c`, `timer_handler` and `syscall_handler`, with the registers saved by
`SWITCH_BEFORE`. -/
inductive KernelStep : SchedulerState → KernelEvent → SchedulerState → Prop where
  | timer {s regs} : KernelStep s (.timer regs) (selectNewProcess (saveRegs regs s))
  | fork {s regs dir cycle} :
    0 ≤ regs.ebx.toInt →
    regs.ebx.toInt ≤ (s.processes s.currPid).prio →
    KernelStep s (.fork regs dir cycle) (endSyscall cycle (syscallFork dir (saveRegs regs s)))
  | exit {s regs cycle} :
    KernelStep s (.exit regs cycle) (endSyscall cycle (syscallExit (saveRegs regs s)))
  | wait {s regs cycle} :
    KernelStep s (.wait regs cycle) (endSyscall cycle (syscallWait (saveRegs regs s)))
  | run {s u dir entry} : KernelStep s (.run u dir entry) (runProgram u dir entry s)

/-- Selection ends at a process that can run, if there is one. -/
lemma Queued.select_runnable (h : Queued s) {w : Nat} (hw : (s.processes w).state = .runnable) :
    ((selectNewProcess s).processes (selectNewProcess s).currPid).state = .runnable := by
  rcases selectBelow_cases s (MAX_PRIORITY + 1) with ⟨_, _, _, pid, _, _, _, hp, _, e⟩ | ⟨hn, e⟩
  · rw [selectNewProcess, e]
    exact hp
  · -- a runnable pid is queued at its priority, where the selection looks
    have hwf : (s.processes w).state ≠ .free := by simp [hw]
    obtain ⟨h0, h1⟩ := h.prio w hwf
    have hmem : w ∈ s.runqueues (s.processes w).prio :=
      List.count_pos_iff.mp (by simp [h.count, hwf])
    have hprio : ((s.processes w).prio.toNat : Int) = (s.processes w).prio := by omega
    exact absurd hw (hn (s.processes w).prio.toNat (by omega) w (by rwa [hprio]))

/-- Selection ends at a slot in use, if the current one is or some process can run. -/
lemma Queued.select_currPid (h : Queued s)
    (hc : (s.processes s.currPid).state ≠ .free ∨ ∃ w, (s.processes w).state = .runnable) :
    ((selectNewProcess s).processes (selectNewProcess s).currPid).state ≠ .free := by
  rcases hc with hc | ⟨w, hw⟩
  · rcases selectBelow_cases s (MAX_PRIORITY + 1) with ⟨_, _, _, pid, _, _, _, hp, _, e⟩ | ⟨_, e⟩
    · rw [selectNewProcess, e]
      simp [hp]
    · rw [selectNewProcess, e]
      exact hc
  · simp [h.select_runnable hw]

/-- The end of a syscall, whatever the timer asked for. -/
lemma Queued.endSyscall (h : Queued s) (cycle : Bool)
    (hc : (s.processes s.currPid).state ≠ .free ∨ ∃ w, (s.processes w).state = .runnable) :
    Queued (endSyscall cycle s) ∧
      ((endSyscall cycle s).processes (endSyscall cycle s).currPid).state ≠ .free := by
  unfold Scheduler.endSyscall
  split
  · exact ⟨h.select, h.select_currPid hc⟩
  · rename_i hn
    have : (s.processes s.currPid).state = .runnable := by
      by_contra hr
      exact hn (.inr hr)
    exact ⟨h, by simp [this]⟩

/-- After an exit the caller is a zombie, or the parent it was reported to runs. -/
lemma syscallExit_alive (h : s.currPid < NUM_PROCESSES) :
    ((syscallExit s).processes (syscallExit s).currPid).state ≠ .free ∨
      ∃ w, ((syscallExit s).processes w).state = .runnable := by
  obtain ⟨l, st⟩ := syscallExit_settles s h
  have hs := st.settled
  rw [st.currPid]
  by_cases hw : ∃ w c, (w, c) ∈ l
  · obtain ⟨w, c, hm⟩ := hw
    exact .inr ⟨w, (hs.waiter w c hm).2.1⟩
  · left
    rw [hs.state _ (fun c hm => hw ⟨_, c, hm⟩) (fun w hm => hw ⟨w, _, hm⟩)]
    simp

/-- A wait leaves its caller waiting or runnable. -/
lemma syscallWait_alive (s : SchedulerState) :
    ((syscallWait s).processes (syscallWait s).currPid).state ≠ .free := by
  rcases syscallWait_cases s with ⟨c, _, _, _, _, e⟩ | ⟨_, e | e⟩ <;> rw [e] <;> simp

/-- Every kernel entry returns with a queued table and a current slot in use. -/
lemma KernelStep.queued {s e t} (st : KernelStep s e t)
    (h : Queued s ∧ (s.processes s.currPid).state ≠ .free) :
    Queued t ∧ (t.processes t.currPid).state ≠ .free := by
  obtain ⟨h, hcur⟩ := h
  cases st with
  | @timer regs =>
    have hq : Queued (saveRegs regs s) := h.setRegs
    exact ⟨hq.select, hq.select_currPid (.inl (by simpa [saveRegs] using hcur))⟩
  | @fork regs dir cycle h0 hp =>
    refine (h.fork h0 hp hcur).endSyscall cycle (.inl ?_)
    rcases syscallFork_cases dir (saveRegs regs s) with e | ⟨id, child, r, e, _, _, hr, _⟩
    · rw [e]; simpa [saveRegs] using hcur
    · rw [e]
      by_cases hid : s.currPid = id
      · simp [saveRegs, hid, hr]
      · simpa [saveRegs, hid] using hcur
  | @exit regs cycle =>
    exact (h.exit hcur).endSyscall cycle (syscallExit_alive (h.inTable _ hcur))
  | @wait regs cycle =>
    exact (h.wait hcur).endSyscall cycle (.inl (syscallWait_alive _))
  | @run u dir entry =>
    refine ⟨h.runProgram u dir entry, ?_⟩
    unfold Scheduler.runProgram
    by_cases hs : freeSlot s.processes = NUM_PROCESSES
    · simpa [hs] using hcur
    · have hne : s.currPid ≠ freeSlot s.processes := by
        intro hc
        exact hcur (hc ▸ (freeSlot_free hs).1)
      rw [if_neg hs]
      cases entry with
      | none => simpa [hne] using hcur
      | some e => simpa [hne] using hcur

/-- Over every run of the kernel from the installed table, the current process is one in use: the
assumption that `QueueStep` makes on the caller of a syscall is always met. -/
theorem kernelRun_currPid {u d0 d1 e0 e1 es s}
    (r : Run KernelStep (schedulerInstall u d0 d1 e0 e1) es s) :
    Queued s ∧ (s.processes s.currPid).state ≠ .free :=
  r.invariant (I := fun s => Queued s ∧ (s.processes s.currPid).state ≠ .free)
    (fun _ _ _ h st => st.queued h)
    ⟨schedulerInstall_queued u d0 d1 e0 e1, by simp [schedulerInstall, newProcess, Process.loaded]⟩

end MarioBrOS.Scheduler
