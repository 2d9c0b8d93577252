import MarioBrOS.Interrupts.Pic
import MarioBrOS.Scheduler.Resume

/-!
# Preemption

`timer_handler` and `syscall_handler` save the frame that the stub made in the slot of the current
process, and put the registers of the process that is current afterwards in its place. The
processor, with the variables of the scheduler, takes the steps of its processes, the timer and the
system calls; `Abstract` is the same system without a processor: the table of the scheduler and the
registers of the process that runs. `cpu_refines` says that the one refines the other, through the
tables of segments and interrupts, the stubs and the stack of the kernel.

`preemption` is what a process sees of the timer: nothing.
-/

namespace MarioBrOS.Interrupts

open Scheduler Scheduler.SchedulerState

/-- The variables of `scheduler.c`. -/
structure KernelVars where
  state : SchedulerState
  inKernel : Bool
  shouldCycle : Bool

/-- `scheduler.c`, `timer_handler`, with the frame that `SWITCH_AFTER` leaves. -/
def timerHandler (r : Regs) (k : KernelVars) : Regs × KernelVars :=
  if k.inKernel then
    (r, { k with shouldCycle := true })
  else
    let s := selectNewProcess (saveRegs r k.state)
    (s.regs s.currPid, { k with state := s })

/-- The system calls of `syscall_install` but for `Exit`, `Fork`, `Wait` and `Hlt`: `Printf`,
`Malloc`, `MemFree`, and those on files. -/
def otherCalls : List Word := [3, 4, 5, 15, 16, 17, 18, 19, 20]

/-- `syscall.c`, `syscall`: the system call with the number `n`. The others leave the table alone,
up to a result in `eax`. -/
inductive Call : Word → SchedulerState → SchedulerState → Prop where
  | exit {s} : Call 0 s (syscallExit s)
  | fork {s dir} : 0 ≤ (s.regs s.currPid).ebx.toInt → Call 1 s (syscallFork dir s)
  | wait {s} : Call 2 s (syscallWait s)
  | other {s n v} : n ∈ otherCalls →
    Call n s (s.setRegs s.currPid { s.regs s.currPid with eax := v })

/-- A request for one of these calls; a fork asks for a priority that exists. -/
def Fits (eax ebx : Word) : Prop :=
  (eax = 0 ∨ eax = 1 ∨ eax = 2 ∨ eax ∈ otherCalls) ∧ (eax = 1 → 0 ≤ ebx.toInt)

/-- `scheduler.c`, `syscall_handler`. -/
inductive SyscallHandler (r : Regs) (k : KernelVars) : Regs → KernelVars → Prop where
  | call {s} : k.inKernel = false → Call r.eax (saveRegs r k.state) s →
    SyscallHandler r k
      ((endSyscall k.shouldCycle s).regs (endSyscall k.shouldCycle s).currPid)
      ⟨endSyscall k.shouldCycle s, false, false⟩

/-- The handlers of the kernel, compiled. -/
structure Env.Runs (env : Env KernelVars) (keyboard : Regs → KernelVars → Regs × KernelVars) :
    Prop where
  cdecl : env.Cdecl
  irq : ∀ a r' k' out,
    irqHandler (kernelRoutines timerHandler keyboard) (regsAt a.mem (a.peek 1)) a.vars =
      some (r', k', out) →
    regsAt (env.callee .irqHandler a).mem (a.peek 1) = r' ∧ (env.callee .irqHandler a).vars = k'
  syscall : ∀ a, a.vars.inKernel = false →
    Fits (regsAt a.mem (a.peek 1)).eax (regsAt a.mem (a.peek 1)).ebx →
    SyscallHandler (regsAt a.mem (a.peek 1)) a.vars
      (regsAt (env.callee .syscallHandler a).mem (a.peek 1)) (env.callee .syscallHandler a).vars

/-! ## The two systems -/

/-- What happens: a step of the process `pid`, which leaves it with the registers `file`, the timer,
or a system call. -/
inductive CpuEvent where
  | user (pid : Nat) (file : File)
  | tick
  | call

/-- The code segment of a process. -/
def File.User (f : File) : Prop := (f.seg .cs).toNat % 4 = 3

/-- A frame with the code segment of a process. -/
def UserFrame (r : Regs) : Prop := r.cs.toNat % 4 = 3

/-- The processor. A process leaves the variables of the kernel alone. -/
inductive CpuStep (env : Env KernelVars) (b : Board) :
    Cpu KernelVars → CpuEvent → Cpu KernelVars → Prop where
  | user {c c' : Cpu KernelVars} : c'.toFile.User → c'.vars = c.vars →
    CpuStep env b c (.user c.vars.state.currPid c'.toFile) c'
  | tick {c c'} : c.interrupt env b 32 false none = some c' → CpuStep env b c .tick c'
  | call {c c' : Cpu KernelVars} : Fits (c.reg .eax) (c.reg .ebx) →
    c.interrupt env b SYSCALL_ISR true none = some c' → CpuStep env b c .call c'

/-- The table of the scheduler and the registers of the process that runs. -/
structure Abstract where
  state : SchedulerState
  file : File

/-- The system without a processor. -/
inductive AbstractStep : Abstract → CpuEvent → Abstract → Prop where
  | user {s f f'} : f'.User → AbstractStep ⟨s, f⟩ (.user s.currPid f') ⟨s, f'⟩
  | tick {s t r} : selectNewProcess (saveRegs r s) = t →
    AbstractStep ⟨s, File.ofRegs r⟩ .tick ⟨t, File.ofRegs (t.regs t.currPid)⟩
  | call {s t u r cycle} : Call r.eax (saveRegs r s) u → endSyscall cycle u = t →
    AbstractStep ⟨s, File.ofRegs r⟩ .call ⟨t, File.ofRegs (t.regs t.currPid)⟩

/-- A tick selects a process. -/
lemma AbstractStep.selects {a a' : Abstract} (st : AbstractStep a .tick a') :
    ∃ r, a'.state = selectNewProcess (saveRegs r a.state) := by
  cases st with
  | @tick s t r ht => exact ⟨r, ht.symm⟩

/-- What the abstract system sees of the processor. -/
def Cpu.abstract (c : Cpu KernelVars) : Abstract := ⟨c.vars.state, c.toFile⟩

/-- The processes in use have the code segment of a process. -/
def UserSegments (s : SchedulerState) : Prop :=
  ∀ i, (s.processes i).state ≠ .free → UserFrame (s.regs i)

/-- A process runs, and the next one will be one, too. -/
structure Abstract.Ready (a : Abstract) : Prop where
  user : a.file.User
  queued : Queued a.state
  live : (a.state.processes a.state.currPid).state ≠ .free
  segments : UserSegments a.state

variable {s t : SchedulerState} {r : Regs} {a a' : Abstract} {e : CpuEvent}

/-! ## Code segments -/

lemma ofRegs_user : (File.ofRegs r).User ↔ UserFrame r := by
  have e : (r.cs.setWidth 16).toNat % 4 = r.cs.toNat % 4 := by
    rw [BitVec.toNat_setWidth]
    omega
  rw [UserFrame, ← e]
  rfl

lemma UserSegments.setRegs (h : UserSegments s) (hr : UserFrame r) (i : Nat) :
    UserSegments (s.setRegs i r) := by
  intro j hj
  rw [setRegs_regs]
  split
  · exact hr
  · exact h j (by simpa using hj)

lemma UserSegments.setState (h : UserSegments s) {i : Nat} {st : ProcessState}
    (hi : st ≠ .free → (s.processes i).state ≠ .free) : UserSegments (s.setState i st) := by
  intro j hj
  rw [setState_regs]
  rw [setState_state] at hj
  split at hj
  next e => exact h j (e ▸ hi hj)
  next => exact h j hj

/-- Only the registers of the waiter change, and not its segments. -/
lemma UserSegments.resolve (h : UserSegments s) {w c : Nat} (hne : c ≠ w)
    (hw : (s.processes w).state ≠ .free) : UserSegments (resolveExitWait w c s) := by
  intro j hj
  rw [resolveExitWait_regs hne]
  rw [resolveExitWait_state] at hj
  split
  · exact h w hw
  · next hjw =>
    rw [if_neg hjw] at hj
    split at hj
    · exact absurd rfl hj
    · exact h j hj

lemma UserSegments.settles {id : Nat} {l} (st : Settles id s l t) (h : UserSegments s) :
    UserSegments t := by
  induction st with
  | refl => exact h
  | reparent _ _ ih =>
    intro j hj
    rw [setParent_regs]
    exact ih j (by simpa using hj)
  | resolve _ _ hw hz _ ih =>
    apply ih.resolve
    · rintro rfl
      exact ProcessState.noConfusion (hw.symm.trans hz)
    · exact hw ▸ ProcessState.noConfusion

/-- A new process. -/
lemma UserSegments.create {p : Process} (h : UserSegments s) (hp : UserFrame p.context.regs)
    (i : Nat) (prio : Int) : UserSegments ((s.setProc i p).enqueue prio i) := by
  intro j hj
  by_cases hji : j = i
  · simpa [SchedulerState.regs, hji] using hp
  · simpa [SchedulerState.regs, hji] using h j (by simpa [hji] using hj)

/-- A system call leaves processes with the code segment of a process. -/
lemma UserSegments.call {n : Word} (h : UserSegments s) (hs : Call n s t)
    (hc : s.currPid < NUM_PROCESSES) (hlive : (s.processes s.currPid).state ≠ .free) :
    UserSegments t := by
  have hcur := h _ hlive
  cases hs with
  | exit =>
    obtain ⟨l, st⟩ := syscallExit_settles s hc
    exact (h.setState fun _ => hlive).settles st
  | @fork _ dir _ =>
    unfold syscallFork
    dsimp only
    split
    · refine h.setRegs ?_ _
      exact hcur
    · have hfork := h.create (p := {
          state := .runnable
          parentId := s.currPid
          prio := (s.regs s.currPid).ebx.toInt
          context :=
            { (s.processes s.currPid).context with
              regs := { s.regs s.currPid with eax := 2, ebx := BitVec.ofNat 32 s.currPid }
              pageDir := dir } }) hcur (freeSlot s.processes) (s.regs s.currPid).ebx.toInt
      refine hfork.setRegs ?_ _
      apply hfork
      by_cases hid : s.currPid = freeSlot s.processes
      · simp [hid]
      · simpa [hid] using hlive
  | wait =>
    rcases syscallWait_cases s with ⟨c, _, _, hne, _, e⟩ | ⟨_, e | e⟩
    · rw [e]
      exact (h.setState fun _ => hlive).resolve hne (by simp)
    · rw [e]
      exact h.setState fun _ => hlive
    · rw [e]
      refine UserSegments.setState ?_ fun _ => by simp
      refine (h.setState fun _ => hlive).setRegs ?_ _
      exact hcur
  | other _ =>
    refine h.setRegs ?_ _
    exact hcur

lemma UserSegments.select (h : UserSegments s) : UserSegments (selectNewProcess s) := by
  have hkept := (selectNewProcess_kept s).1
  intro i hi
  rw [hkept] at hi
  rw [SchedulerState.regs, hkept]
  exact h i hi

lemma UserSegments.endSyscall (h : UserSegments s) (cycle : Bool) :
    UserSegments (endSyscall cycle s) := by
  unfold Scheduler.endSyscall
  split
  · exact h.select
  · exact h

/-! ## The abstract system -/

/-- A system call leaves a queued table, in which a process can be selected. -/
lemma Call.queued {n : Word} (hs : Call n (saveRegs r s) t) (h : Queued s)
    (hlive : (s.processes s.currPid).state ≠ .free) :
    Queued t ∧
      ((t.processes t.currPid).state ≠ .free ∨ ∃ w, (t.processes w).state = .runnable) := by
  have hcur : ((saveRegs r s).processes (saveRegs r s).currPid).state ≠ .free := by
    simpa [saveRegs] using hlive
  cases hs with
  | exit => exact ⟨h.exit hlive, syscallExit_alive (h.inTable _ hlive)⟩
  | @fork _ dir h0 =>
    have h0 : 0 ≤ r.ebx.toInt := by simpa [saveRegs] using h0
    by_cases hp : r.ebx.toInt ≤ (s.processes s.currPid).prio
    · refine ⟨h.fork h0 hp hlive, .inl ?_⟩
      rcases syscallFork_cases dir (saveRegs r s) with e | ⟨id, child, r', e, _, _, hr, _⟩
      · simpa [e] using hcur
      · rw [e]
        by_cases hid : (saveRegs r s).currPid = id
        · simp [hid, hr]
        · simpa [hid] using hcur
    · -- a priority above the caller's is refused
      have e : syscallFork dir (saveRegs r s) =
          (saveRegs r s).setRegs s.currPid { (saveRegs r s).regs s.currPid with eax := 0 } := by
        unfold syscallFork
        exact if_pos (.inr (by simpa [saveRegs, SchedulerState.setRegs] using hp))
      rw [e]
      exact ⟨h.setRegs.setRegs, .inl (by simpa using hcur)⟩
  | wait => exact ⟨h.wait hlive, .inl (syscallWait_alive _)⟩
  | other _ => exact ⟨h.setRegs.setRegs, .inl (by simpa using hcur)⟩

/-- The registers of the process that ran are saved. -/
lemma Abstract.Ready.saved (h : Abstract.Ready ⟨s, File.ofRegs r⟩) : Queued (saveRegs r s) ∧
    ((saveRegs r s).processes (saveRegs r s).currPid).state ≠ .free ∧
    UserSegments (saveRegs r s) :=
  ⟨h.queued.setRegs, by simpa [saveRegs] using h.live, h.segments.setRegs (ofRegs_user.mp h.user) _⟩

/-- A step leaves a process that runs. -/
lemma AbstractStep.ready (st : AbstractStep a e a') (h : a.Ready) : a'.Ready := by
  cases st with
  | user hf => exact ⟨hf, h.queued, h.live, h.segments⟩
  | tick ht =>
    obtain ⟨hq, hlive, hu⟩ := h.saved
    have hsel := hq.select_currPid (.inl hlive)
    subst ht
    exact ⟨ofRegs_user.mpr (hu.select _ hsel), hq.select, hsel, hu.select⟩
  | @call s t u r cycle hcall ht =>
    obtain ⟨hq, hlive, hu⟩ := h.saved
    obtain ⟨hqu, halive⟩ := hcall.queued h.queued h.live
    obtain ⟨hqt, hsel⟩ := hqu.endSyscall cycle halive
    have hut := (hu.call hcall (hq.inTable _ hlive) hlive).endSyscall cycle
    subst ht
    exact ⟨ofRegs_user.mpr (hut _ hsel), hqt, hsel, hut⟩

/-! ## The processor -/

variable {addr : Stub → Word} {stack : Word} {b : Board} {env : Env KernelVars}
  {keyboard : Regs → KernelVars → Regs × KernelVars} {c c' : Cpu KernelVars} {f : CFun}

/-- A handler that leaves the frame of a process comes back to this process. -/
lemma Called.resumes {a : Cpu KernelVars} {n : Nat} {top : Word} {ss : BitVec 16} (henv : env.Cdecl)
    (h : Called top n 0x08 ss r c a)
    (hr : Restored (top - BitVec.ofNat 32 (4 * (n + 12))) (env.callee f a) c')
    (hu : UserFrame (regsAt (env.callee f a).mem (a.peek 1))) :
    c'.toFile = File.ofRegs (regsAt (env.callee f a).mem (a.peek 1)) := by
  rw [h.arg] at hu ⊢
  have hcs : (env.callee f a).cpl = 0 := by
    rw [Cpu.cpl, henv.cs, h.cs]
    rfl
  apply hr.toProcess
  rw [hcs, hu]
  exact Nat.succ_pos 2

/-- **The processor refines the scheduler**, one step. -/
lemma CpuStep.abstract (hb : Booted addr stack b) (henv : env.Runs keyboard)
    (st : CpuStep env b c e c') (h : c.abstract.Ready) (hk : c.vars.inKernel = false) :
    AbstractStep c.abstract e c'.abstract ∧ c'.vars.inKernel = false := by
  have hcpl : c.cpl = 3 := h.user
  cases st with
  | user hf hv =>
    have e : c'.abstract = ⟨c.vars.state, c'.toFile⟩ := by rw [Cpu.abstract, hv]
    rw [e, hv]
    exact ⟨.user hf, hk⟩
  | tick hi =>
    obtain ⟨d, hd, hh⟩ := hb.process (s := .irq 0) henv.cdecl hcpl
      (show Pushes 32 false none from rfl) rfl
    obtain rfl := Option.some.inj (hd.symm.trans hi)
    have hframe := c.toFile.ofRegs_frame (stack - 28) 32 0
    have hno : (c.toFile.frame (stack - 28) 32 0).intNo = 32 := rfl
    change Handled env .irqHandler stack 7 0x08 0x18 (c.toFile.frame (stack - 28) 32 0) c d at hh
    generalize c.toFile.frame (stack - 28) 32 0 = r at hh hframe hno
    have hstart : c.abstract = ⟨c.vars.state, File.ofRegs r⟩ := by
      rw [Cpu.abstract, hframe]
    have hstep : AbstractStep ⟨c.vars.state, File.ofRegs r⟩ .tick _ := .tick rfl
    rw [hstart] at h ⊢
    have hready := hstep.ready h
    generalize htab : selectNewProcess (saveRegs r c.vars.state) = t at hstep hready
    -- the kernel is not running, so that the timer switches
    have htimer : timerHandler r c.vars = (t.regs t.currPid, { c.vars with state := t }) := by
      subst htab
      exact if_neg (hk ▸ Bool.false_ne_true)
    obtain ⟨out, hout⟩ := irqHandler_timer timerHandler keyboard r c.vars hno
    obtain ⟨a, hcall, hr⟩ := hh
    have har : regsAt a.mem (a.peek 1) = r := hcall.arg ▸ hcall.frame
    have hav : a.vars = c.vars := hcall.vars
    rw [htimer, ← har, ← hav] at hout
    obtain ⟨hregs, hvars⟩ := henv.irq a _ _ _ hout
    have hfile := hcall.resumes henv.cdecl hr (hregs ▸ ofRegs_user.mp hready.user)
    rw [Cpu.abstract, hfile, hregs, hr.vars, hvars]
    exact ⟨hstep, hav.symm ▸ hk⟩
  | call ha hi =>
    obtain ⟨d, hd, hh⟩ := hb.process (s := .syscall) henv.cdecl hcpl
      (show Pushes SYSCALL_ISR true none from rfl) (if_neg fun h => h.2.2 rfl)
    obtain rfl := Option.some.inj (hd.symm.trans hi)
    have hframe := c.toFile.ofRegs_frame (stack - 28) 0x80 0
    have hfits : Fits (c.toFile.frame (stack - 28) 0x80 0).eax
        (c.toFile.frame (stack - 28) 0x80 0).ebx := ha
    change Handled env .syscallHandler stack 7 0x08 0x18
      (c.toFile.frame (stack - 28) 0x80 0) c d at hh
    generalize c.toFile.frame (stack - 28) 0x80 0 = r at hh hframe hfits
    have hstart : c.abstract = ⟨c.vars.state, File.ofRegs r⟩ := by
      rw [Cpu.abstract, hframe]
    rw [hstart] at h ⊢
    obtain ⟨a, hcall, hr⟩ := hh
    have har : regsAt a.mem (a.peek 1) = r := hcall.arg ▸ hcall.frame
    have hav : a.vars = c.vars := hcall.vars
    have hsys := henv.syscall a (hav ▸ hk) (har.symm ▸ hfits)
    rw [har, hav] at hsys
    generalize hregs : regsAt (env.callee .syscallHandler a).mem (a.peek 1) = r' at hsys
    generalize hvars : (env.callee .syscallHandler a).vars = k' at hsys
    cases hsys with
    | @call u _ hu =>
      have hstep : AbstractStep ⟨c.vars.state, File.ofRegs r⟩ .call
          ⟨endSyscall c.vars.shouldCycle u, _⟩ := .call hu rfl
      have hfile := hcall.resumes henv.cdecl hr (hregs ▸ ofRegs_user.mp (hstep.ready h).user)
      rw [Cpu.abstract, hfile, hregs, hr.vars, hvars]
      exact ⟨hstep, rfl⟩

/-- What `scheduler_install` sets up, with the registers of init in force. -/
lemma Abstract.ready_install (u : UserLayout) (d0 d1 : PageDirResult) (e0 e1 : BitVec 32)
    (hu : u.userCodeSegment.toNat % 4 = 3) :
    Abstract.Ready ⟨schedulerInstall u d0 d1 e0 e1,
      File.ofRegs ((schedulerInstall u d0 d1 e0 e1).regs 1)⟩ := by
  have hseg : UserSegments (schedulerInstall u d0 d1 e0 e1) := by
    intro i hi
    by_cases h1 : i = 1
    · simpa [h1, UserFrame, schedulerInstall, SchedulerState.regs, newProcess, Process.loaded]
        using hu
    · by_cases h0 : i = 0
      · simpa [h0, UserFrame, schedulerInstall, SchedulerState.regs, newProcess, Process.loaded]
          using hu
      · simp [h0, h1, schedulerInstall, zeroProcess] at hi
  have hlive : ((schedulerInstall u d0 d1 e0 e1).processes 1).state ≠ .free := by
    simp [schedulerInstall, newProcess, Process.loaded]
  exact ⟨ofRegs_user.mpr (hseg 1 hlive), schedulerInstall_queued u d0 d1 e0 e1, hlive, hseg⟩

/-- The words of a frame. -/
def frameWords (r : Regs) : List Word :=
  [r.gs, r.fs, r.es, r.ds, r.edi, r.esi, r.ebp, r.esp, r.ebx, r.edx, r.ecx, r.eax, r.intNo,
    r.errCode, r.eip, r.cs, r.eflags, r.useresp, r.ss]

/-- A frame, stored at `p`. -/
def storeRegs (mem : Word → Word) (p : Word) (r : Regs) : Word → Word := fun x =>
  (frameWords r).getD ((x - p).toNat / 4) (mem x)

lemma regsAt_storeRegs (mem : Word → Word) (p : Word) (r : Regs) :
    regsAt (storeRegs mem p r) p = r := by
  have h (k : Nat) (hk : k < 19) : wordAt (storeRegs mem p r) p k =
      (frameWords r).getD k (mem (p + BitVec.ofNat 32 (4 * k))) := by
    have e : (p + BitVec.ofNat 32 (4 * k) - p).toNat / 4 = k := by
      rw [BitVec.add_comm, BitVec.add_sub_cancel, BitVec.toNat_ofNat]
      omega
    rw [wordAt, storeRegs, e]
  simp only [regsAt, h, Nat.reduceLT]
  rfl

/-- The sample of a handler in C: the frame and the variables of the kernel afterwards. -/
def sampleHandler (f : CFun) (r : Regs) (k : KernelVars) : Option (Regs × KernelVars) :=
  match f with
  | .faultHandler => none
  | .irqHandler =>
    (irqHandler (kernelRoutines timerHandler fun r k => (r, k)) r k).map fun o => (o.1, o.2.1)
  | .syscallHandler =>
    let s := saveRegs r k.state
    let s :=
      if r.eax = 0 then syscallExit s
      else if r.eax = 1 then syscallFork 0 s
      else if r.eax = 2 then syscallWait s
      else s.setRegs s.currPid { s.regs s.currPid with eax := 0 }
    let s := endSyscall k.shouldCycle s
    some (s.regs s.currPid, ⟨s, false, false⟩)

/-- The handlers of the sample. -/
def sampleKernel : Env KernelVars where
  entry _ := 0
  next _ := 0
  callee f a :=
    match sampleHandler f (regsAt a.mem (a.peek 1)) a.vars with
    | some (r, k) => { a with mem := storeRegs a.mem (a.peek 1) r, vars := k }.drop 1
    | none => a.drop 1

lemma sampleKernel_callee {f : CFun} {a : Cpu KernelVars} {r : Regs} {k : KernelVars}
    (h : sampleHandler f (regsAt a.mem (a.peek 1)) a.vars = some (r, k)) :
    regsAt (sampleKernel.callee f a).mem (a.peek 1) = r ∧ (sampleKernel.callee f a).vars = k := by
  simp [sampleKernel, h, regsAt_storeRegs]

lemma sampleKernel_runs : sampleKernel.Runs fun r k => (r, k) := by
  have hcallee (f : CFun) (a : Cpu KernelVars) :
      (sampleKernel.callee f a).reg .esp = a.reg .esp + 4 ∧
        (sampleKernel.callee f a).seg = a.seg := by
    simp only [sampleKernel]
    split
    · exact ⟨drop_esp, rfl⟩
    · exact ⟨drop_esp, rfl⟩
  constructor
  · exact ⟨fun f a => (hcallee f a).1, fun f a => congrFun (hcallee f a).2 _,
      fun f a => congrFun (hcallee f a).2 _⟩
  · intro a r' k' out h
    apply sampleKernel_callee
    rw [sampleHandler, h]
    rfl
  · intro a hk hfits
    obtain ⟨hregs, hvars⟩ := sampleKernel_callee (f := .syscallHandler) (a := a) rfl
    rw [hregs, hvars]
    generalize regsAt a.mem (a.peek 1) = r at hfits
    obtain ⟨hn, hebx⟩ := hfits
    refine .call hk ?_
    rcases hn with h | h | h | h
    · rw [if_pos h, h]
      exact .exit
    · rw [if_neg (h ▸ by decide), if_pos h, h]
      exact .fork (by simpa [saveRegs] using hebx h)
    · rw [if_neg (h ▸ by decide), if_neg (h ▸ by decide), if_pos h, h]
      exact .wait
    · have hne (n : Word) (hn : n ∉ otherCalls) : r.eax ≠ n := fun e => hn (e ▸ h)
      rw [if_neg (hne 0 (by decide)), if_neg (hne 1 (by decide)), if_neg (hne 2 (by decide))]
      exact .other h

/-- The registers of init at the call of a fork, for a process as strong as itself. -/
def sampleCaller : Regs :=
  { sampleInstall.regs 1 with eax := 1, ebx := BitVec.ofNat 32 MAX_PRIORITY }

/-- Init has forked process 2, and goes on. -/
def sampleForked : SchedulerState :=
  endSyscall true (syscallFork 0x420000 (saveRegs sampleCaller sampleInstall))

lemma sampleForked_ready :
    Abstract.Ready ⟨sampleForked, File.ofRegs (sampleForked.regs sampleForked.currPid)⟩ := by
  have init : Abstract.Ready ⟨sampleInstall, File.ofRegs (sampleInstall.regs 1)⟩ :=
    Abstract.ready_install _ _ _ _ _ rfl
  have caller : AbstractStep ⟨sampleInstall, File.ofRegs (sampleInstall.regs 1)⟩
      (.user sampleInstall.currPid (File.ofRegs sampleCaller))
      ⟨sampleInstall, File.ofRegs sampleCaller⟩ := .user rfl
  have forked : AbstractStep ⟨sampleInstall, File.ofRegs sampleCaller⟩ .call
      ⟨sampleForked, File.ofRegs (sampleForked.regs sampleForked.currPid)⟩ :=
    .call (.fork (by decide +kernel)) rfl
  exact forked.ready (caller.ready init)

/-- Init runs, with the interrupt table of the sample. -/
def sampleInit : Cpu KernelVars where
  toFile := File.ofRegs (sampleForked.regs sampleForked.currPid)
  mem _ := 0
  vars := ⟨sampleForked, false, false⟩

lemma sampleInit_ready : sampleInit.abstract.Ready := sampleForked_ready

/-- The next process of the queue is process 2. -/
lemma sampleForked_select (r : Regs) :
    (selectNewProcess (saveRegs r sampleForked)).currPid = 2 := rfl

lemma sampleInit_tick : ∃ c', CpuStep sampleKernel sampleBoard sampleInit .tick c' ∧
    c'.vars.state.currPid = 2 := by
  obtain ⟨c', hc, -⟩ := sampleBoard_booted.process (s := .irq 0) (c := sampleInit)
    sampleKernel_runs.cdecl rfl (show Pushes 32 false none from rfl) rfl
  have st : CpuStep sampleKernel sampleBoard sampleInit .tick c' := .tick hc
  obtain ⟨r, h⟩ := (st.abstract sampleBoard_booted sampleKernel_runs sampleInit_ready rfl).1.selects
  exact ⟨c', st, (congrArg SchedulerState.currPid h).trans (sampleForked_select r)⟩

/-- **The processor refines the scheduler.** With the tables, the stubs and the handlers of the
kernel in memory, every run of the processor through its processes, the timer and the system calls
is a run of the table of the scheduler: each interrupt saves the registers of the process that ran
in its slot, and the process that is current afterwards goes on with exactly those of its own. A
process is always current, and it runs outside of the kernel. -/
theorem cpu_refines {es : List CpuEvent} (hb : Booted addr stack b) (henv : env.Runs keyboard)
    (h : c.abstract.Ready) (hk : c.vars.inKernel = false) (run : Run (CpuStep env b) c es c') :
    Run AbstractStep c.abstract es c'.abstract ∧ c'.abstract.Ready ∧
      c'.vars.inKernel = false := by
  induction run with
  | nil => exact ⟨.nil, h, hk⟩
  | snoc _ st ih =>
    obtain ⟨hrun, hready, hout⟩ := ih
    obtain ⟨hstep, hout'⟩ := st.abstract hb henv hready hout
    exact ⟨.snoc hrun hstep, hstep.ready hready, hout'⟩

/-- The tick brings the processor from init to process 2. -/
theorem cpu_refines_tick : ∃ c', Run (CpuStep sampleKernel sampleBoard) sampleInit [.tick] c' ∧
    (sampleInit.vars.state.currPid = 1 ∧ c'.vars.state.currPid = 2) ∧
      Run AbstractStep sampleInit.abstract [.tick] c'.abstract ∧ c'.abstract.Ready ∧
        c'.vars.inKernel = false := by
  obtain ⟨c', st, hpid⟩ := sampleInit_tick
  exact ⟨c', .single st, ⟨by decide +kernel, hpid⟩,
    cpu_refines sampleBoard_booted sampleKernel_runs sampleInit_ready rfl (.single st)⟩

/-! ## Preemption -/

/-- The registers of a process: those of the processor while it runs, else those in its slot. -/
def Abstract.registers (a : Abstract) (i : Nat) : File :=
  if i = a.state.currPid then a.file else File.ofRegs (a.state.regs i)

/-- The registers after the steps of the process `i` itself. -/
def ownSteps (i : Nat) (f : File) (es : List CpuEvent) : File :=
  es.foldl (fun f e =>
    match e with
    | .user pid file => if pid = i then file else f
    | _ => f) f

/-- The timer changes the registers of no process. -/
lemma AbstractStep.registers (st : AbstractStep a e a') (he : e ≠ .call) (i : Nat) :
    a'.registers i = ownSteps i (a.registers i) [e] := by
  cases st with
  | @user s f f' hf =>
    by_cases hi : i = s.currPid
    · simp [Abstract.registers, ownSteps, hi]
    · simp [Abstract.registers, ownSteps, hi, Ne.symm hi]
  | @tick s t r ht =>
    have hregs : t.regs i = if i = s.currPid then r else s.regs i := by
      subst ht
      rw [SchedulerState.regs, (selectNewProcess_kept _).1]
      exact setRegs_regs s s.currPid r i
    have hnew : Abstract.registers ⟨t, File.ofRegs (t.regs t.currPid)⟩ i =
        File.ofRegs (t.regs i) := by
      unfold Abstract.registers
      split
      next hi => rw [hi]
      next => rfl
    rw [hnew, hregs, Abstract.registers]
    exact apply_ite File.ofRegs ..
  | call => exact absurd rfl he

/-- **A process does not notice the timer.** In a run without system calls, whenever and however
often the timer comes and whichever processes it selects, each process has the registers that its
own steps gave it, as if it ran alone. -/
theorem preemption {es : List CpuEvent} (hb : Booted addr stack b) (henv : env.Runs keyboard)
    (h : c.abstract.Ready) (hk : c.vars.inKernel = false) (run : Run (CpuStep env b) c es c')
    (hes : CpuEvent.call ∉ es) (i : Nat) :
    c'.abstract.registers i = ownSteps i (c.abstract.registers i) es := by
  have hboth : ∀ {es c'}, Run (CpuStep env b) c es c' → CpuEvent.call ∉ es →
      c'.abstract.Ready ∧ c'.vars.inKernel = false ∧
        c'.abstract.registers i = ownSteps i (c.abstract.registers i) es := by
    intro es c' run
    induction run with
    | nil => exact fun _ => ⟨h, hk, rfl⟩
    | @snoc es _ e _ _ st ih =>
      intro hes
      rw [List.mem_append, not_or] at hes
      obtain ⟨hready, hout, hregs⟩ := ih hes.1
      obtain ⟨hstep, hout'⟩ := st.abstract hb henv hready hout
      have he : e ≠ .call := fun h => hes.2 (h ▸ List.mem_singleton_self _)
      refine ⟨hstep.ready hready, hout', ?_⟩
      rw [hstep.registers he, hregs]
      exact List.foldl_append.symm
  exact (hboth run hes).2.2

theorem preemption_tick : ∃ c', Run (CpuStep sampleKernel sampleBoard) sampleInit [.tick] c' ∧
    c'.vars.state.currPid = 2 ∧ ∀ i, c'.abstract.registers i = ownSteps i (sampleInit.abstract.registers i) [.tick] := by
  obtain ⟨c', st, hpid⟩ := sampleInit_tick
  have hes : CpuEvent.call ∉ [CpuEvent.tick] := by simp
  exact ⟨c', .single st, hpid,
    preemption sampleBoard_booted sampleKernel_runs sampleInit_ready rfl (.single st) hes⟩

end MarioBrOS.Interrupts
