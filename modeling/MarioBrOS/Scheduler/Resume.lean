import MarioBrOS.Scheduler.Kill
import MarioBrOS.Scheduler.Runqueue

/-!
# Who is resumed

The kernel returns to user mode by three pieces of code. `timer_handler` and `syscall_handler`
select a process and restore its context (`SWITCH_AFTER`); the keyboard handler goes back to the
directory and the registers that it interrupted, also when `kill_family` has just freed the process
they belong to. `resumed_runnable` says that this is the only way in which a process that cannot run
is resumed, or the registers of a free slot are written.

In `syscall_hlt` the kernel waits for interrupts. The timer only sets `should_cycle` there, and what
the keyboard does is followed by a selection.
-/

namespace MarioBrOS.Scheduler

open SchedulerState

/-! ## Stores into saved registers -/

/-- A store into the registers that a slot has saved: the slot, and its state before the call that
makes the store. -/
abbrev RegWrite := Nat × ProcessState

def regWrite (s : SchedulerState) (i : Nat) : RegWrite := (i, (s.processes i).state)

/-- The stores of the loop of `syscall_exit`, which reports zombies to init. -/
def exitLoopWrites (id : Nat) : List Nat → SchedulerState → List RegWrite
  | [], _ => []
  | i :: ids, s =>
    if (s.processes i).parentId = id ∧ (s.processes i).state = .zombie ∧
        (s.processes 1).state = .waiting then
      regWrite s 1 :: exitLoopWrites id ids (exitChild id s i)
    else
      exitLoopWrites id ids (exitChild id s i)

/-- The stores of `syscall_exit`. -/
def exitWrites (s : SchedulerState) : List RegWrite :=
  let id := s.currPid
  let s := s.setState id .zombie
  let t := (List.range NUM_PROCESSES).foldl (exitChild id) s
  let parent := (t.processes id).parentId
  exitLoopWrites id (List.range NUM_PROCESSES) s ++
    if (t.processes parent).state = .waiting then [regWrite t parent] else []

/-- The stores of `syscall_wait`, unless the caller has to wait. -/
def waitWrites (s : SchedulerState) : List RegWrite :=
  let parent := s.currPid
  let s := s.setState parent .waiting
  match waitScan parent s (List.range NUM_PROCESSES) false with
  | .inl _ => [regWrite s parent]
  | .inr true => []
  | .inr false => [regWrite s parent]

/-- The stores of `kill_family`, which reports the slots it frees to their parents one after the
other. -/
def killWrites : List Nat → SchedulerState → List RegWrite
  | [], _ => []
  | c :: freed, s =>
    let parent := (s.processes c).parentId
    regWrite s parent :: killWrites freed (resolveExitWait parent c s)

/-! ## The system -/

/-- Where the processor is between two entries: in user mode, with the context and the page
directory of a slot in force, or in the loop of `syscall_hlt`. -/
inductive Place where
  | user (pid : Nat)
  | halted

/-- The scheduler between two entries. -/
structure Running where
  sched : SchedulerState
  place : Place

/-- `scheduler.c`, `SWITCH_AFTER`: the context of the current process is restored. -/
def resumed (s : SchedulerState) : Running := ⟨s, .user s.currPid⟩

/-- What a keyboard interrupt comes to: nothing for the processes, a command of the shell that
starts a program, or Ctrl-C. -/
inductive KeyAction where
  | ignored
  | run (u : UserLayout) (dir : PageDirResult) (entry : Option (BitVec 32))
  | kill

/-- `keyboard.c`, `keyboard_shell_handler`, as far as the processes are concerned. -/
inductive KeyStep : SchedulerState → KeyAction → List RegWrite → SchedulerState → Prop where
  | ignored {s} : KeyStep s .ignored [] s
  | run {s u dir entry} : KeyStep s (.run u dir entry) [] (runProgram u dir entry s)
  | kill {s t pid rest freed} :
    s.runPid = pid :: rest →
    (∀ fuel, NUM_PROCESSES < fuel →
      killFamily fuel pid { s with runPid := rest } = some (freed, t)) →
    KeyStep s .kill (killWrites freed { s with runPid := rest }) t

/-- The entries of the kernel, and what happens in `syscall_hlt` until it ends. `cycle` is
`should_cycle` at the end of a syscall. -/
inductive Entry where
  | timer (regs : Regs)
  | fork (regs : Regs) (dir : Nat) (cycle : Bool)
  | exit (regs : Regs) (cycle : Bool)
  | wait (regs : Regs) (cycle : Bool)
  | hlt (regs : Regs)
  | tick
  | wake
  | key (k : KeyAction)

/-- One entry, with its stores. The first of them is that of `SWITCH_BEFORE`, which saves the
registers in the slot of the current process. -/
inductive EntryStep : Running → Entry × List RegWrite → Running → Prop where
  | timer {s p regs} :
    EntryStep ⟨s, .user p⟩ (.timer regs, [regWrite s s.currPid])
      (resumed (selectNewProcess (saveRegs regs s)))
  | fork {s p regs dir cycle} :
    EntryStep ⟨s, .user p⟩
      (.fork regs dir cycle, [regWrite s s.currPid, regWrite (saveRegs regs s) s.currPid])
      (resumed (endSyscall cycle (syscallFork dir (saveRegs regs s))))
  | exit {s p regs cycle} :
    EntryStep ⟨s, .user p⟩
      (.exit regs cycle, regWrite s s.currPid :: exitWrites (saveRegs regs s))
      (resumed (endSyscall cycle (syscallExit (saveRegs regs s))))
  | wait {s p regs cycle} :
    EntryStep ⟨s, .user p⟩
      (.wait regs cycle, regWrite s s.currPid :: waitWrites (saveRegs regs s))
      (resumed (endSyscall cycle (syscallWait (saveRegs regs s))))
  | hlt {s p regs} :
    EntryStep ⟨s, .user p⟩ (.hlt regs, [regWrite s s.currPid]) ⟨saveRegs regs s, .halted⟩
  | tick {s} : EntryStep ⟨s, .halted⟩ (.tick, []) ⟨s, .halted⟩
  | wake {s} : EntryStep ⟨s, .halted⟩ (.wake, []) (resumed (endSyscall true s))
  | key {s t place k writes} :
    KeyStep s k writes t →
    EntryStep ⟨s, place⟩ (.key k, writes) ⟨t, place⟩

/-- Idle can run after the step. -/
def IdleStep (c : Running) (e : Entry × List RegWrite) (d : Running) : Prop :=
  EntryStep c e d ∧ (d.sched.processes 0).state = .runnable

/-- The condition on an entry. A fork asks for a priority that exists. Ctrl-C interrupts no process
of the family that it kills, and that family has no free slot. -/
def EntryFits (c : Running) : Entry × List RegWrite → Prop
  | (.fork regs _ _, _) => 0 ≤ regs.ebx.toInt
  | (.key .kill, _) => ∀ pid rest, c.sched.runPid = pid :: rest →
      ∀ q, Family c.sched pid q → (c.sched.processes q).state ≠ .free ∧ c.place ≠ .user q
  | _ => True

/-- In user mode, the process in force can run. -/
def Resumes (c : Running) : Prop :=
  ∀ p, c.place = .user p → (c.sched.processes p).state = .runnable

variable {s t : SchedulerState} {c d : Running} {w : RegWrite} {par : Nat → Nat}

/-! ## The stores -/

lemma exitLoopWrites_waiting {id : Nat} {ids : List Nat} (h : w ∈ exitLoopWrites id ids s) :
    w.2 = .waiting := by
  induction ids generalizing s with
  | nil => cases h
  | cons i ids ih =>
    rw [exitLoopWrites] at h
    split_ifs at h with hc
    · obtain rfl | h := List.mem_cons.mp h
      · exact hc.2.2
      · exact ih h
    · exact ih h

/-- `syscall_exit` writes to processes that wait. -/
lemma exitWrites_waiting (h : w ∈ exitWrites s) : w.2 = .waiting := by
  unfold exitWrites at h
  dsimp only at h
  generalize (List.range NUM_PROCESSES).foldl (exitChild s.currPid)
    (s.setState s.currPid .zombie) = t at h
  obtain h | h := List.mem_append.mp h
  · exact exitLoopWrites_waiting h
  · split_ifs at h with hc
    · rw [List.mem_singleton.mp h]
      exact hc
    · cases h

/-- So does `syscall_wait`: the caller waits by then. -/
lemma waitWrites_waiting (h : w ∈ waitWrites s) : w.2 = .waiting := by
  have hself : regWrite (s.setState s.currPid .waiting) s.currPid = (s.currPid, .waiting) := by
    simp [regWrite]
  unfold waitWrites at h
  dsimp only at h
  rw [hself] at h
  obtain ⟨_, _, _, _, e⟩ | ⟨_, b, e⟩ := waitScan_cases s.currPid (s.setState s.currPid .waiting)
    (List.range NUM_PROCESSES) false
  · rw [e] at h
    have hw : w = (s.currPid, .waiting) := List.mem_singleton.mp h
    rw [hw]
  · rw [e] at h
    cases b with
    | true => cases h
    | false =>
      have hw : w = (s.currPid, .waiting) := List.mem_singleton.mp h
      rw [hw]

/-- Reports from slots in use to slots in use, where no parent comes before its child: the queues
stay right, what can run and is not freed still can, and no store goes to a free slot. -/
lemma Queued.reap {l : List Nat} (h : Queued s) (hn : l.Nodup)
    (ho : l.Pairwise fun a b => par b ≠ a) (hpar : ∀ i, (s.processes i).parentId = par i)
    (huse : ∀ c ∈ l, par c ≠ c ∧ (s.processes c).state ≠ .free ∧
      (s.processes (par c)).state ≠ .free) :
    Queued (Scheduler.reap par l s) ∧ (∀ w ∈ killWrites l s, w.2 ≠ .free) ∧
      ∀ j, j ∉ l → (s.processes j).state = .runnable →
        ((Scheduler.reap par l s).processes j).state = .runnable := by
  induction l generalizing s with
  | nil => exact ⟨h, nofun, fun _ _ hj => hj⟩
  | cons c l ih =>
    obtain ⟨hne, hc, hw⟩ := huse c List.mem_cons_self
    rw [List.nodup_cons] at hn
    rw [List.pairwise_cons] at ho
    have hrest : ∀ c' ∈ l, par c' ≠ c' ∧
        ((resolveExitWait (par c) c s).processes c').state ≠ .free ∧
          ((resolveExitWait (par c) c s).processes (par c')).state ≠ .free := by
      intro c' hm
      obtain ⟨h1, h2, h3⟩ := huse c' (List.mem_cons_of_mem _ hm)
      have hcc : c' ≠ c := fun e => hn.1 (e ▸ hm)
      have hpc := ho.1 c' hm
      refine ⟨h1, ?_, ?_⟩
      · rw [resolveExitWait_state]
        split_ifs
        · decide
        · exact h2
      · rw [resolveExitWait_state]
        split_ifs
        · decide
        · exact h3
    obtain ⟨i1, i2, i3⟩ := ih (h.resolve hw hc hne.symm) hn.2 ho.2
      (fun i => (resolveExitWait_parentId ..).trans (hpar i)) hrest
    refine ⟨i1, fun w hm => ?_, fun j hj hr => i3 j (fun hm => hj (List.mem_cons_of_mem _ hm)) ?_⟩
    · rw [killWrites, hpar] at hm
      obtain rfl | hm := List.mem_cons.mp hm
      · exact hw
      · exact i2 w hm
    · have hjc : j ≠ c := fun e => hj (e ▸ List.mem_cons_self)
      rw [resolveExitWait_state]
      split_ifs
      · rfl
      · exact hr

/-! ## Selection -/

lemma selectNewProcess_kept (s : SchedulerState) :
    (selectNewProcess s).processes = s.processes ∧ (selectNewProcess s).runPid = s.runPid := by
  obtain ⟨_, _, _, _, _, _, _, _, _, e⟩ | ⟨_, e⟩ := selectBelow_cases s (MAX_PRIORITY + 1)
  · rw [selectNewProcess, e]
    exact ⟨rfl, rfl⟩
  · rw [selectNewProcess, e]
    exact ⟨rfl, rfl⟩

lemma Rooted.select (h : Rooted s) : Rooted (selectNewProcess s) := by
  obtain ⟨hp, hr⟩ := selectNewProcess_kept s
  refine h.congr hr fun i hi => ?_
  rw [hp]
  exact ⟨hi, .inl rfl⟩

lemma Rooted.endSyscall (h : Rooted s) (cycle : Bool) : Rooted (Scheduler.endSyscall cycle s) := by
  unfold Scheduler.endSyscall
  split
  · exact h.select
  · exact h

/-- What holds of the scheduler whenever the kernel returns. -/
structure Resumable (s : SchedulerState) : Prop where
  queued : Queued s
  rooted : Rooted s
  current : (s.processes s.currPid).state = .runnable

/-- A selection finds a process that can run, since idle can. -/
lemma Queued.resumable (h : Queued s) (hr : Rooted s)
    (hidle : ((selectNewProcess s).processes 0).state = .runnable) :
    Resumable (selectNewProcess s) := by
  rw [(selectNewProcess_kept s).1] at hidle
  exact ⟨h.select, hr.select, h.select_runnable hidle⟩

/-- The end of a syscall. -/
lemma Queued.resumable_endSyscall {cycle : Bool} (h : Queued s) (hr : Rooted s)
    (hidle : ((Scheduler.endSyscall cycle s).processes 0).state = .runnable) :
    Resumable (Scheduler.endSyscall cycle s) := by
  unfold Scheduler.endSyscall at hidle ⊢
  split_ifs at hidle ⊢ with hc
  · exact h.resumable hr hidle
  · exact ⟨h, hr, not_not.mp fun hn => hc (.inr hn)⟩

/-! ## One entry -/

/-- A program that is started takes a free slot. -/
lemma runProgram_processes {u : UserLayout} {dir : PageDirResult} {entry : Option (BitVec 32)}
    {j : Nat} (hj : (s.processes j).state ≠ .free) :
    (runProgram u dir entry s).processes j = s.processes j := by
  unfold runProgram
  dsimp only
  split_ifs with hc
  · rfl
  · have hne : j ≠ freeSlot s.processes := by
      rintro rfl
      exact hj (freeSlot_free hc).1
    cases entry with
    | none => exact Function.update_of_ne hne _ _
    | some e => exact Function.update_of_ne hne _ _

lemma runProgram_currPid {u : UserLayout} {dir : PageDirResult} {entry : Option (BitVec 32)} :
    (runProgram u dir entry s).currPid = s.currPid := by
  unfold runProgram
  dsimp only
  split_ifs
  · rfl
  · cases entry <;> rfl

lemma reap_currPid (l : List Nat) (s : SchedulerState) : (reap par l s).currPid = s.currPid := by
  induction l generalizing s with
  | nil => rfl
  | cons c l ih => exact ih _

/-- A fork with a priority that exists, whether it succeeds or not. -/
lemma Queued.fork_any {regs : Regs} {dir : Nat} (h : Queued s) (h0 : 0 ≤ regs.ebx.toInt)
    (hcur : (s.processes s.currPid).state ≠ .free) :
    Queued (syscallFork dir (saveRegs regs s)) := by
  by_cases hp : regs.ebx.toInt ≤ (s.processes s.currPid).prio
  · exact h.fork h0 hp hcur
  · have hregs : (saveRegs regs s).regs s.currPid = regs := by simp [saveRegs]
    have hprio : ((saveRegs regs s).regs s.currPid).ebx.toInt >
        ((saveRegs regs s).processes s.currPid).prio := by
      rw [hregs]
      simpa [saveRegs] using hp
    unfold syscallFork
    dsimp only
    rw [if_pos (.inr hprio)]
    exact h.setRegs.setRegs

/-- Ctrl-C on a family without free slots: the tables stay right, what is outside the family and can
run still can, and no store goes to a free slot. -/
lemma Queued.kill {pid : Nat} {rest freed : List Nat} (h : Queued s) (hr : Rooted s)
    (hrun : s.runPid = pid :: rest) (hall : ∀ q, Family s pid q → (s.processes q).state ≠ .free)
    (hkill : ∀ fuel, NUM_PROCESSES < fuel →
      killFamily fuel pid { s with runPid := rest } = some (freed, t)) :
    Queued t ∧ t.currPid = s.currPid ∧
      (∀ w ∈ killWrites freed { s with runPid := rest }, w.2 ≠ .free) ∧
      ∀ j, ¬ Family s pid j → (s.processes j).state = .runnable →
        (t.processes j).state = .runnable := by
  have hp : pid ∈ s.runPid := hrun ▸ List.mem_cons_self
  have e := (hkill _ (Nat.lt_succ_self _)).symm.trans
    (hr.killFamily_killed hp rest (Nat.lt_succ_self _))
  obtain ⟨rfl, rfl⟩ := Prod.mk.inj (Option.some.inj e)
  have hmem : ∀ c, c ∈ killed s pid ↔ Family s pid c := fun c => hr.mem_killed hp
  have hq : Queued { s with runPid := rest } :=
    h.congr (fun _ => .rfl) (fun _ _ => rfl) fun _ _ => rfl
  have huse : ∀ c ∈ killed s pid, (s.processes c).parentId ≠ c ∧ (s.processes c).state ≠ .free ∧
      (s.processes (s.processes c).parentId).state ≠ .free := by
    intro c hc
    have hfam := (hmem c).mp hc
    obtain ⟨j, hd, _⟩ := hfam.depth hr.init (hr.depth hp) Nat.one_pos
    have hself : Desc (fun c => (s.processes c).parentId) (List.range NUM_PROCESSES) c c := .self
    refine ⟨hself.par_ne hr.init hd (by omega), hall c hfam, ?_⟩
    -- the parent of a member is a member, or init
    cases hfam with
    | self =>
      rw [(hr.run pid hp).2.2.1]
      exact hr.alive
    | child hq e _ =>
      rw [e]
      exact hall _ hq
  obtain ⟨h1, h2, h3⟩ := hq.reap (hr.nodup_killed hp) (pairwise_visit List.nodup_range hr.init
    (hr.depth hp) Nat.one_pos (hr.depth_le hp) (Nat.lt_succ_self _)) (fun _ => rfl) huse
  exact ⟨h1, reap_currPid _ _, h2, fun j hj => h3 j fun hm => hj ((hmem j).mp hm)⟩

/-- The invariant: the tables are right, and in user mode the current process is the one in force
and can run. -/
structure Running.Ok (c : Running) : Prop where
  queued : Queued c.sched
  rooted : Rooted c.sched
  user : ∀ p, c.place = .user p →
    p = c.sched.currPid ∧ (c.sched.processes p).state = .runnable

lemma Resumable.ok (h : Resumable s) : (resumed s).Ok where
  queued := h.queued
  rooted := h.rooted
  user p hp := by
    obtain rfl := Place.user.inj hp
    exact ⟨rfl, h.current⟩

/-- What the keyboard does, in user mode or in `syscall_hlt`. -/
lemma KeyStep.ok {place : Place} {k : KeyAction} {writes : List RegWrite}
    (st : KeyStep s k writes t) (hfit : EntryFits ⟨s, place⟩ (.key k, writes))
    (h : Running.Ok ⟨s, place⟩) : Running.Ok ⟨t, place⟩ ∧ ∀ w ∈ writes, w.2 ≠ .free := by
  cases st with
  | ignored => exact ⟨h, List.forall_mem_nil _⟩
  | run =>
    refine ⟨⟨h.queued.runProgram _ _ _, h.rooted.runProgram, fun p hp => ?_⟩, List.forall_mem_nil _⟩
    obtain ⟨hcur, hrun⟩ := h.user p hp
    have hfree : (s.processes p).state ≠ .free := by
      rw [hrun]
      decide
    refine ⟨hcur.trans runProgram_currPid.symm, ?_⟩
    rw [runProgram_processes hfree]
    exact hrun
  | @kill _ pid rest freed hrun hkill =>
    have hfit := hfit pid rest hrun
    obtain ⟨h1, h2, h3, h4⟩ := h.queued.kill h.rooted hrun (fun q hq => (hfit q hq).1) hkill
    have hrooted : Rooted t := (KillStep.kill hrun (hkill _ (Nat.lt_succ_self _))).rooted h.rooted
    refine ⟨⟨h1, hrooted, fun p hp => ?_⟩, h3⟩
    obtain ⟨hcur, hr⟩ := h.user p hp
    exact ⟨hcur.trans h2.symm, h4 p (fun hq => (hfit p hq).2 hp) hr⟩

/-- What one entry preserves. -/
lemma EntryStep.ok {e : Entry × List RegWrite} (st : EntryStep c e d)
    (hidle : (d.sched.processes 0).state = .runnable) (hfit : EntryFits c e) (h : c.Ok) :
    d.Ok ∧ ∀ w ∈ e.2, w.2 ≠ .free := by
  -- the current process makes the entry
  have hcur : ∀ {s p}, c = ⟨s, .user p⟩ → (s.processes s.currPid).state = .runnable := by
    rintro s p rfl
    obtain ⟨hp, hr⟩ := h.user p rfl
    exact hp ▸ hr
  have hsave : ∀ {s p}, c = ⟨s, .user p⟩ → (regWrite s s.currPid).2 ≠ .free := by
    intro s p hc
    exact (hcur hc).trans_ne (by decide)
  have hlive : ∀ {s p}, c = ⟨s, .user p⟩ → (s.processes s.currPid).state ≠ .free := by
    intro s p hc
    rw [hcur hc]
    decide
  have hwaiting : ∀ {w : RegWrite}, w.2 = .waiting → w.2 ≠ .free := by
    intro w hw
    rw [hw]
    decide
  cases st with
  | @timer s p regs =>
    refine ⟨(Queued.resumable h.queued.setRegs h.rooted.setRegs hidle).ok, fun w hw => ?_⟩
    obtain rfl := List.mem_singleton.mp hw
    exact hsave rfl
  | @fork s p regs dir cycle =>
    have hq : Queued (syscallFork dir (saveRegs regs s)) := h.queued.fork_any hfit (hlive rfl)
    refine ⟨(hq.resumable_endSyscall h.rooted.setRegs.fork hidle).ok, fun w hw => ?_⟩
    obtain rfl | hw := List.mem_cons.mp hw
    · exact hsave rfl
    · obtain rfl := List.mem_singleton.mp hw
      have hs : ((saveRegs regs s).processes s.currPid).state = .runnable := by
        simp [saveRegs, hcur rfl]
      exact hs.trans_ne (by decide)
  | @exit s p regs cycle =>
    have hq : Queued (syscallExit (saveRegs regs s)) := h.queued.exit (hlive rfl)
    have hr : Rooted (syscallExit (saveRegs regs s)) := h.rooted.setRegs.exit
    generalize syscallExit (saveRegs regs s) = t at hq hr hidle
    refine ⟨(hq.resumable_endSyscall hr hidle).ok, fun w hw => ?_⟩
    obtain rfl | hw := List.mem_cons.mp hw
    · exact hsave rfl
    · exact hwaiting (exitWrites_waiting hw)
  | @wait s p regs cycle =>
    have hq : Queued (syscallWait (saveRegs regs s)) := h.queued.wait (hlive rfl)
    have hr : Rooted (syscallWait (saveRegs regs s)) := h.rooted.setRegs.wait
    generalize syscallWait (saveRegs regs s) = t at hq hr hidle
    refine ⟨(hq.resumable_endSyscall hr hidle).ok, fun w hw => ?_⟩
    obtain rfl | hw := List.mem_cons.mp hw
    · exact hsave rfl
    · exact hwaiting (waitWrites_waiting hw)
  | @hlt s p regs =>
    refine ⟨⟨h.queued.setRegs, h.rooted.setRegs, fun p hp => Place.noConfusion hp⟩,
      fun w hw => ?_⟩
    obtain rfl := List.mem_singleton.mp hw
    exact hsave rfl
  | tick => exact ⟨h, List.forall_mem_nil _⟩
  | wake => exact ⟨(h.queued.resumable_endSyscall h.rooted hidle).ok, List.forall_mem_nil _⟩
  | key hk => exact hk.ok hfit h

/-- In a run all of whose entries meet the condition, the process in force in user mode can always
run, and no registers of a free slot are written. -/
theorem resumed_runnable {u d0 d1 e0 e1 es c}
    (r : Run (Guarded EntryFits IdleStep) (resumed (schedulerInstall u d0 d1 e0 e1)) es c) :
    Resumes c ∧ ∀ e ∈ es, ∀ w ∈ e.2, w.2 ≠ .free := by
  have key : c.Ok ∧ ∀ e ∈ es, ∀ w ∈ e.2, w.2 ≠ .free := by
    induction r with
    | nil =>
      have h : Resumable (schedulerInstall u d0 d1 e0 e1) :=
        ⟨schedulerInstall_queued u d0 d1 e0 e1, Rooted.install u d0 d1 e0 e1, rfl⟩
      exact ⟨h.ok, List.forall_mem_nil _⟩
    | snoc _ st ih =>
      obtain ⟨h1, h2⟩ := st.2.1.ok st.2.2 st.1 ih.1
      refine ⟨h1, fun e he => ?_⟩
      obtain he | he := List.mem_append.mp he
      · exact ih.2 e he
      · exact List.mem_singleton.mp he ▸ h2
  exact ⟨fun p hp => (key.1.user p hp).2, key.2⟩

/-! ## Ctrl-C -/

/-- The shell has started process 2 and init waits: process 2 runs. -/
def sampleSwitched : SchedulerState :=
  endSyscall false (syscallWait (saveRegs (sampleRegs 2 0) sampleStarted))

lemma sampleSwitched_reads : sampleSwitched.currPid = 2 ∧ sampleSwitched.runPid = [2] ∧
    (sampleSwitched.processes 0).state = .runnable ∧
    ∀ c ∈ List.range NUM_PROCESSES, (sampleSwitched.processes c).parentId ≠ 2 := by
  decide +kernel

lemma sampleSwitched_rooted : Rooted sampleSwitched := by
  have h : Rooted (syscallWait (saveRegs (sampleRegs 2 0) sampleStarted)) :=
    (Rooted.install _ _ _ _ _).runProgram.setRegs.wait
  exact h.endSyscall false

/-- The table after Ctrl-C. -/
def sampleKilled (s : SchedulerState) : SchedulerState :=
  resolveExitWait 1 2 { s with runPid := [] }

/-- Ctrl-C kills process 2. -/
lemma sampleKilled_step {s : SchedulerState} (h : Rooted s) (hr : s.runPid = [2])
    (hk : killed s 2 = [2]) :
    KeyStep s .kill (killWrites [2] { s with runPid := [] }) (sampleKilled s) := by
  have hp : 2 ∈ s.runPid := hr ▸ List.mem_cons_self
  refine .kill hr fun fuel hf => ?_
  have hparent : (s.processes 2).parentId = 1 := (h.run 2 hp).2.2.1
  rw [h.killFamily_killed hp [] hf, hk, Scheduler.reap, List.foldl_cons, List.foldl_nil, hparent]
  rfl

/-- The run up to the moment when process 2 is resumed. -/
lemma sampleSwitched_run : ∃ es, Run (Guarded EntryFits IdleStep) (resumed sampleInstall) es
    (resumed sampleSwitched) := by
  have started : IdleStep (resumed sampleInstall) _ ⟨sampleStarted, .user 1⟩ :=
    ⟨.key .run, by decide +kernel⟩
  have switched : IdleStep ⟨sampleStarted, .user 1⟩ _ (resumed sampleSwitched) :=
    ⟨.wait, sampleSwitched_reads.2.2.1⟩
  exact ⟨_, (Run.single ⟨by trivial, started⟩).snoc ⟨by trivial, switched⟩⟩

/-- Ctrl-C while process 2 is in `syscall_hlt`: the kernel selects another process. -/
theorem resumed_runnable_sample : Resumes (resumed (endSyscall true
    (sampleKilled (saveRegs (sampleRegs 14 0) sampleSwitched)))) := by
  obtain ⟨es, r⟩ := sampleSwitched_run
  have h : Rooted (saveRegs (sampleRegs 14 0) sampleSwitched) := sampleSwitched_rooted.setRegs
  have halted : IdleStep (resumed sampleSwitched) _
      ⟨saveRegs (sampleRegs 14 0) sampleSwitched, .halted⟩ := ⟨.hlt, by decide +kernel⟩
  have killed : IdleStep ⟨saveRegs (sampleRegs 14 0) sampleSwitched, .halted⟩ _
      ⟨sampleKilled (saveRegs (sampleRegs 14 0) sampleSwitched), .halted⟩ :=
    ⟨.key (sampleKilled_step h sampleSwitched_reads.2.1 (by decide +kernel)), by decide +kernel⟩
  have woken : IdleStep ⟨sampleKilled (saveRegs (sampleRegs 14 0) sampleSwitched), .halted⟩ _
      (resumed (endSyscall true (sampleKilled (saveRegs (sampleRegs 14 0) sampleSwitched)))) :=
    ⟨.wake, by decide +kernel⟩
  have hfit : EntryFits ⟨saveRegs (sampleRegs 14 0) sampleSwitched, .halted⟩
      (.key .kill,
        killWrites [2] { saveRegs (sampleRegs 14 0) sampleSwitched with runPid := [] }) := by
    intro pid rest hrun q hq
    obtain rfl : 2 = pid := (List.cons.inj (sampleSwitched_reads.2.1.symm.trans hrun)).1
    have hpar : ∀ c, ((saveRegs (sampleRegs 14 0) sampleSwitched).processes c).parentId =
        (sampleSwitched.processes c).parentId := fun c => setRegs_parentId ..
    obtain rfl : q = 2 := by
      induction hq with
      | self => rfl
      | child _ e hm ih =>
        exact absurd ((hpar _).symm.trans (e.trans ih)) (sampleSwitched_reads.2.2.2 _ hm)
    exact ⟨by decide +kernel, nofun⟩
  exact (resumed_runnable (((r.snoc ⟨by trivial, halted⟩).snoc ⟨hfit, killed⟩).snoc
    ⟨by trivial, woken⟩)).1

/-- Ctrl-C while process 2 runs: it is resumed although its slot is free, and the next timer
interrupt saves its registers there. -/
theorem resumed_free : ∃ es c, Run IdleStep (resumed sampleInstall) es c ∧ ¬ Resumes c ∧
    ∃ e d, IdleStep c e d ∧ ∃ w ∈ e.2, w.2 = .free := by
  obtain ⟨es, r⟩ := sampleSwitched_run
  have killed : IdleStep (resumed sampleSwitched) _ ⟨sampleKilled sampleSwitched, .user 2⟩ :=
    ⟨.key (sampleKilled_step sampleSwitched_rooted sampleSwitched_reads.2.1 (by decide +kernel)),
      by decide +kernel⟩
  have timer : IdleStep ⟨sampleKilled sampleSwitched, .user 2⟩ (.timer (sampleRegs 0 0), _) _ :=
    ⟨.timer, by decide +kernel⟩
  have hfree : ((sampleKilled sampleSwitched).processes 2).state = .free := by decide +kernel
  refine ⟨_, _, r.of_guarded.snoc killed, fun h => ?_, _, _, timer, _, List.mem_singleton_self _,
    ?_⟩
  · exact absurd ((h 2 rfl).symm.trans hfree) (by decide)
  · exact hfree

end MarioBrOS.Scheduler
