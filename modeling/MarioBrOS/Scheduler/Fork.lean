import MarioBrOS.Paging.ForkPageDir
import MarioBrOS.Scheduler.Queue
import MarioBrOS.Scheduler.Runqueue

/-!
# Forks that take all they need

`syscall_fork` together with the memory it asks for: register blocks, the directory of the child and
an element of its queue. It does not look whether it gets them; writing through `NULL` is a page
fault. The priority is compared as a signed number and then used as an index, and there is no queue
outside of the array `runqueues`.
-/

namespace MarioBrOS.Scheduler

open SchedulerState
open Paging (KernelHeap Machine forkPageDir)

variable {μ : Type} (H : KernelHeap μ)

/-- `sizeof(regs_t)`. -/
def SIZEOF_REGS : Nat := 4 * 19

/-- A call of `mem_alloc` whose result is written to. -/
def allocated (size : Nat) (m : Machine μ) : Except String (Machine μ) := do
  let (p, m) ← H.memAllocAligned size 1 m
  if p = 0 then throw "PAGE_FAULT" else pure m

/-- The memory of the child of `syscall_fork`: the registers that `new_process` sets up, the ones
that replace them and the directory, a copy of `dir`. -/
def childMemory (dir : Nat) (m : Machine μ) : Except String (Nat × Machine μ) := do
  let m ← allocated H SIZEOF_REGS m
  let m ← allocated H SIZEOF_REGS m
  let ((fork, _), m) ← forkPageDir H dir m
  pure (fork, m)

/-- The test of `syscall_fork`: there is no slot, or the child is to be stronger than its parent. -/
def Refuses (s : SchedulerState) : Prop :=
  freeSlot s.processes = NUM_PROCESSES ∨
    (s.processes s.currPid).context.regs.ebx.toInt > (s.processes s.currPid).prio

instance (s : SchedulerState) : Decidable (Refuses s) := by
  unfold Refuses
  infer_instance

/-- `syscall.c`, `syscall_fork`, with its memory. -/
def forkProcess (s : SchedulerState) (m : Machine μ) :
    Except String (SchedulerState × Machine μ) :=
  if Refuses s then
    pure (syscallFork 0 s, m)
  else do
    let (fork, m) ← childMemory H (s.processes s.currPid).context.pageDir m
    let childPrio := (s.processes s.currPid).context.regs.ebx.toInt
    if 0 ≤ childPrio ∧ childPrio ≤ MAX_PRIORITY then do
      let m ← allocated H SIZEOF_QUEUE m
      pure (syscallFork fork s, m)
    else
      throw "runqueues"

variable {H} {s t : SchedulerState} {m m' : Machine μ} {regs : Regs} {dir fork : Nat}

/-- The call is refused: `eax` is 0 and nothing else changes. -/
def Refused (s : SchedulerState) (m : Machine μ) (t : SchedulerState) (m' : Machine μ) : Prop :=
  t = s.setRegs s.currPid { s.regs s.currPid with eax := 0 } ∧ m' = m

/-- A child `id` has been created. -/
structure Created (s t : SchedulerState) (id : Nat) : Prop where
  lt : id < NUM_PROCESSES
  free : (s.processes id).state = .free
  state : (t.processes id).state = .runnable
  parent : (t.processes id).parentId = s.currPid
  prio : 0 ≤ (t.processes id).prio ∧ (t.processes id).prio ≤ (s.processes s.currPid).prio
  pageDir : (t.processes id).context.pageDir ≠ 0
  regs : t.regs id = { s.regs s.currPid with eax := 2, ebx := BitVec.ofNat 32 s.currPid }
  queue : t.runqueues = Function.update s.runqueues (t.processes id).prio
    (s.runqueues (t.processes id).prio ++ [id])
  caller : t.processes s.currPid = (s.setRegs s.currPid { s.regs s.currPid with
    eax := 1, ebx := BitVec.ofNat 32 id }).processes s.currPid
  others : ∀ j, j ≠ id → j ≠ s.currPid → t.processes j = s.processes j

/-- The fork succeeds completely, or it is refused. -/
def ForkRight (s : SchedulerState) (m : Machine μ) (r : Except String (SchedulerState × Machine μ)) :
    Prop :=
  ∃ t m', r = .ok (t, m') ∧ (Refused s m t m' ∨ ∃ id, Created s t id)

/-- The fork is refused, or the priority is not negative and there is memory for the child. -/
def ForkOk (H : KernelHeap μ) (s : SchedulerState) (m : Machine μ) : Prop :=
  Refuses s ∨ 0 ≤ (s.processes s.currPid).context.regs.ebx.toInt ∧
    ∃ fork m₁ m₂, childMemory H (s.processes s.currPid).context.pageDir m = .ok (fork, m₁) ∧
      fork ≠ 0 ∧ allocated H SIZEOF_QUEUE m₁ = .ok m₂

/-! ## The call -/

lemma syscallFork_refuses (h : Refuses s) :
    syscallFork dir s = s.setRegs s.currPid { s.regs s.currPid with eax := 0 } :=
  if_pos h

/-- The child that `syscall_fork` makes. -/
def forkChild (dir : Nat) (s : SchedulerState) : Process where
  state := .runnable
  parentId := s.currPid
  prio := (s.processes s.currPid).context.regs.ebx.toInt
  context :=
    { (s.processes s.currPid).context with
      regs := { s.regs s.currPid with eax := 2, ebx := BitVec.ofNat 32 s.currPid }
      pageDir := dir }

lemma syscallFork_creates (dir : Nat) (h : ¬ Refuses s) (hcur : (s.processes s.currPid).state ≠ .free) :
    syscallFork dir s =
      ((s.setProc (freeSlot s.processes) (forkChild dir s)).enqueue (forkChild dir s).prio
        (freeSlot s.processes)).setRegs s.currPid { s.regs s.currPid with
          eax := 1, ebx := BitVec.ofNat 32 (freeSlot s.processes) } := by
  have hne : s.currPid ≠ freeSlot s.processes := by
    intro e
    exact hcur (e ▸ (freeSlot_free fun hf => h (.inl hf)).1)
  have hregs : ((s.setProc (freeSlot s.processes) (forkChild dir s)).enqueue (forkChild dir s).prio
      (freeSlot s.processes)).regs s.currPid = s.regs s.currPid := by
    simp [SchedulerState.regs, hne]
  rw [← hregs]
  exact if_neg h

/-- The slots after a fork. -/
lemma syscallFork_processes (dir : Nat) (h : ¬ Refuses s)
    (hcur : (s.processes s.currPid).state ≠ .free) (j : Nat) :
    (syscallFork dir s).processes j =
      if j = s.currPid then (s.setRegs s.currPid { s.regs s.currPid with
        eax := 1, ebx := BitVec.ofNat 32 (freeSlot s.processes) }).processes s.currPid
      else if j = freeSlot s.processes then forkChild dir s else s.processes j := by
  have hne : s.currPid ≠ freeSlot s.processes := by
    intro e
    exact hcur (e ▸ (freeSlot_free fun hf => h (.inl hf)).1)
  rw [syscallFork_creates dir h hcur]
  by_cases hj : j = s.currPid
  · subst hj
    simp [setRegs, hne]
  · by_cases hj' : j = freeSlot s.processes
    · subst hj'
      simp [setRegs, hj]
    · simp [setRegs, hj, hj']

/-- Without the test, the child is there, and it is right if its priority and directory are. -/
lemma created_iff (dir : Nat) (h : ¬ Refuses s) (hcur : (s.processes s.currPid).state ≠ .free) :
    (∃ id, Created s (syscallFork dir s) id) ↔
      0 ≤ (s.processes s.currPid).context.regs.ebx.toInt ∧ dir ≠ 0 := by
  obtain ⟨hf, hlt⟩ := freeSlot_free fun hf => h (.inl hf)
  have hne : freeSlot s.processes ≠ s.currPid := by
    intro e
    exact hcur (e ▸ hf)
  have hproc := syscallFork_processes dir h hcur
  have hchild : (syscallFork dir s).processes (freeSlot s.processes) = forkChild dir s := by
    rw [hproc, if_neg hne, if_pos rfl]
  have hle : (forkChild dir s).prio ≤ (s.processes s.currPid).prio :=
    not_lt.mp fun hgt => h (.inr hgt)
  constructor
  · rintro ⟨id, hc⟩
    obtain rfl : id = freeSlot s.processes := by
      by_contra hid
      have hic : id ≠ s.currPid := by
        rintro rfl
        exact hcur hc.free
      have := hc.state
      rw [hproc, if_neg hic, if_neg hid, hc.free] at this
      cases this
    have hprio := hc.prio.1
    have hdir := hc.pageDir
    rw [hchild] at hprio hdir
    exact ⟨hprio, hdir⟩
  · rintro ⟨hprio, hdir⟩
    refine ⟨freeSlot s.processes, hlt, hf, ?_, ?_, ?_, ?_, ?_, ?_, ?_, fun j hj hjc => ?_⟩
    · rw [hchild]
      rfl
    · rw [hchild]
      rfl
    · rw [hchild]
      exact ⟨hprio, hle⟩
    · rw [hchild]
      exact hdir
    · rw [SchedulerState.regs, hchild]
      rfl
    · rw [hchild, syscallFork_creates dir h hcur]
      rfl
    · rw [hproc, if_pos rfl]
    · rw [hproc, if_neg hjc, if_neg hj]

/-- The call does what it should if and only if it meets the condition. -/
lemma forkRight_iff (hcur : (s.processes s.currPid).state ≠ .free)
    (hmax : (s.processes s.currPid).prio ≤ MAX_PRIORITY) :
    ForkRight s m (forkProcess H s m) ↔ ForkOk H s m := by
  unfold forkProcess ForkOk
  by_cases h : Refuses s
  · rw [if_pos h]
    exact iff_of_true ⟨_, m, rfl, .inl ⟨syscallFork_refuses h, rfl⟩⟩ (.inl h)
  rw [if_neg h, or_iff_right h]
  have hle : (s.processes s.currPid).context.regs.ebx.toInt ≤ MAX_PRIORITY :=
    (not_lt.mp fun hgt => h (.inr hgt)).trans hmax
  cases hmem : childMemory H (s.processes s.currPid).context.pageDir m with
  | error err =>
    refine iff_of_false ?_ ?_
    · rintro ⟨t, m', e, _⟩
      cases e
    · rintro ⟨_, fork, m₁, m₂, e, _⟩
      cases e
  | ok x =>
    obtain ⟨fork, m₁⟩ := x
    dsimp only [bind, Except.bind]
    by_cases hp : 0 ≤ (s.processes s.currPid).context.regs.ebx.toInt
    · rw [if_pos ⟨hp, hle⟩]
      cases hq : allocated H SIZEOF_QUEUE m₁ with
      | error err =>
        refine iff_of_false ?_ ?_
        · rintro ⟨t, m', e, _⟩
          cases e
        · rintro ⟨_, _, _, m₂, e, _, e'⟩
          cases e
          rw [hq] at e'
          cases e'
      | ok m₂ =>
        have hiff := created_iff fork h hcur
        constructor
        · rintro ⟨t, m', e, hr⟩
          cases e
          obtain ⟨ht, _⟩ | hc := hr
          · exfalso
            -- the free slot has been taken, so that the call was not refused
            have h1 := syscallFork_processes fork h hcur (freeSlot s.processes)
            obtain ⟨hf, _⟩ := freeSlot_free fun hf => h (.inl hf)
            have hne : freeSlot s.processes ≠ s.currPid := by
              intro e
              exact hcur (e ▸ hf)
            rw [ht, if_neg hne, if_pos rfl] at h1
            have h2 : (s.processes (freeSlot s.processes)).state = (forkChild fork s).state := by
              rw [← h1, setRegs_state]
            rw [hf] at h2
            cases h2
          · exact ⟨hp, fork, m₁, m₂, rfl, (hiff.mp hc).2, hq⟩
        · rintro ⟨_, fork', m₁', m₂', e, hd, _⟩
          cases e
          exact ⟨_, m₂, rfl, .inr (hiff.mpr ⟨hp, hd⟩)⟩
    · rw [if_neg fun hc => hp hc.1]
      refine iff_of_false ?_ fun hc => hp hc.1
      rintro ⟨t, m', e, _⟩
      cases e

/-! ## The system -/

/-- The syscalls and the scheduler, with memory that the other operations change in any way. -/
inductive ForkStep (H : KernelHeap μ) : SchedulerState × Machine μ → QueueEvent →
    SchedulerState × Machine μ → Prop where
  | fork {x t : SchedulerState} {m m' : Machine μ} {regs : Regs} {dir : Nat} :
    (x.processes x.currPid).state ≠ .free →
    forkProcess H (saveRegs regs x) m = .ok (t, m') →
    ForkStep H (x, m) (.fork regs dir) (t, m')
  | other {x t : SchedulerState} {m m' : Machine μ} {e : QueueEvent} :
    (∀ regs dir, e ≠ .fork regs dir) →
    QueueStep x e t →
    ForkStep H (x, m) e (t, m')

/-- A fork keeps the queues. -/
lemma Queued.forkProcess (h : Queued s) (hcur : (s.processes s.currPid).state ≠ .free)
    (e : forkProcess H (saveRegs regs s) m = .ok (t, m')) : Queued t := by
  have hregs : (saveRegs regs s).regs s.currPid = regs := by simp [saveRegs]
  unfold Scheduler.forkProcess at e
  by_cases hr : Refuses (saveRegs regs s)
  · rw [if_pos hr] at e
    cases e
    rw [syscallFork_refuses hr, saveRegs]
    exact h.setRegs.setRegs
  · rw [if_neg hr] at e
    cases hmem : childMemory H
        ((saveRegs regs s).processes (saveRegs regs s).currPid).context.pageDir m with
    | error err => rw [hmem] at e; cases e
    | ok x =>
      obtain ⟨fork, m₁⟩ := x
      rw [hmem] at e
      dsimp only [bind, Except.bind] at e
      split_ifs at e with hp
      · cases hq : allocated H SIZEOF_QUEUE m₁ with
        | error err => rw [hq] at e; cases e
        | ok m₂ =>
          rw [hq] at e
          cases e
          have hebx : ((saveRegs regs s).processes (saveRegs regs s).currPid).context.regs.ebx.toInt =
              regs.ebx.toInt := congrArg (fun r => r.ebx.toInt) hregs
          have hprio : ((saveRegs regs s).processes (saveRegs regs s).currPid).prio =
              (s.processes s.currPid).prio := by simp [saveRegs]
          refine h.fork (hebx ▸ hp.1) ?_ hcur
          rw [← hebx, ← hprio]
          exact not_lt.mp fun hgt => hr (.inr hgt)

/-- In every reachable state and for all registers, `syscall_fork` does what it should if and only
if it refuses the fork, or the priority is not negative and there is memory for the child. -/
theorem fork_all_or_nothing {u d0 d1 e0 e1 es} {m₀ : Machine μ}
    (r : Run (ForkStep H) (schedulerInstall u d0 d1 e0 e1, m₀) es (s, m))
    (hcur : (s.processes s.currPid).state ≠ .free) (regs : Regs) :
    ForkRight (saveRegs regs s) m (forkProcess H (saveRegs regs s) m) ↔
      ForkOk H (saveRegs regs s) m := by
  have h : Queued s := by
    refine r.invariant (I := fun x => Queued x.1) ?_ (schedulerInstall_queued u d0 d1 e0 e1)
    rintro _ _ _ h st
    cases st with
    | fork hcur e => exact Queued.forkProcess h hcur e
    | other _ st => exact st.queued h
  refine forkRight_iff ?_ ?_
  · simpa [saveRegs] using hcur
  · simpa [saveRegs] using (h.prio _ hcur).2

/-! ## An installed table -/

/-- An installed table, where init has the directory `0x5000`. -/
def sampleForkInstall : SchedulerState :=
  schedulerInstall ⟨0x1B, 0x23, 0x2B, 0xFFFEFFFC⟩ ⟨0x400000, 0x300000, 0x301000⟩
    ⟨0x5000, 0x300000, 0x301000⟩ 0xFFFF0000 0xFFFF0000

lemma allocated_bump (size : Nat) (m : Machine Nat) :
    ∃ m', allocated Paging.bumpHeap size m = .ok m' := by
  refine ⟨{ m with heap := m.heap + 4 + size }, ?_⟩
  have h : Paging.bumpHeap.memAllocAligned size 1 m =
      .ok (m.heap + 4, { m with heap := m.heap + 4 + size }) := by
    simp [Paging.bumpHeap, pure, Except.pure]
  unfold allocated
  rw [h]
  rfl

/-- Init forks at priority 3, and there is memory. -/
theorem fork_all_or_nothing_sample :
    ForkRight (saveRegs (sampleRegs 1 3) sampleForkInstall) (Paging.sampleMachine 7)
      (forkProcess Paging.bumpHeap (saveRegs (sampleRegs 1 3) sampleForkInstall)
        (Paging.sampleMachine 7)) := by
  have hmem : (childMemory Paging.bumpHeap 0x5000 (Paging.sampleMachine 7)).map Prod.fst =
      .ok 0x9000 := by decide +kernel
  have run : Run (ForkStep Paging.bumpHeap) (sampleForkInstall, Paging.sampleMachine 7) []
      (sampleForkInstall, Paging.sampleMachine 7) := .nil
  refine (fork_all_or_nothing run (by decide) _).mpr (.inr ⟨by decide, ?_⟩)
  cases h : childMemory Paging.bumpHeap 0x5000 (Paging.sampleMachine 7) with
  | error err => rw [h] at hmem; cases hmem
  | ok x =>
    obtain ⟨fork, m₁⟩ := x
    rw [h] at hmem
    cases hmem
    obtain ⟨m₂, hq⟩ := allocated_bump SIZEOF_QUEUE m₁
    exact ⟨0x9000, m₁, m₂, h, by decide, hq⟩

/-- Compared as a signed number, the priority `0xFFFFFFFF` is weaker than the one of init, and there
is no queue for it. -/
theorem fork_all_or_nothing_negative :
    ¬ ForkRight (saveRegs (sampleRegs 1 0xFFFFFFFF) sampleForkInstall) (Paging.sampleMachine 7)
      (forkProcess Paging.bumpHeap (saveRegs (sampleRegs 1 0xFFFFFFFF) sampleForkInstall)
        (Paging.sampleMachine 7)) := by
  have hrun : (forkProcess Paging.bumpHeap (saveRegs (sampleRegs 1 0xFFFFFFFF) sampleForkInstall)
      (Paging.sampleMachine 7)).map (fun _ => ()) = .error "runqueues" := by decide +kernel
  rintro ⟨t, m', e, _⟩
  rw [e] at hrun
  cases hrun

end MarioBrOS.Scheduler
