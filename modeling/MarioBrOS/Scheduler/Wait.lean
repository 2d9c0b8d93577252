import MarioBrOS.Scheduler.ExitWait

/-!
# When a wait blocks

`syscall_wait` looks for children among all slots, whatever their state. A slot that is free keeps
the parent of the process that was in it, and the slot of the caller itself can name the caller, so
a wait can leave a process waiting that has no child. `wait_blocks` says when it does not.
-/

namespace MarioBrOS.Scheduler

open SchedulerState

variable {s t : SchedulerState} {regs : Regs} {w : Nat}

/-- Some process other than the current one has it as parent. -/
def HasChild (s : SchedulerState) : Prop :=
  ∃ c < NUM_PROCESSES, c ≠ s.currPid ∧ (s.processes c).state ≠ .free ∧
    (s.processes c).parentId = s.currPid

/-- What `syscall.h` says a wait of the current process does: with children, it reports a zombie or
waits, and without it returns 0. -/
structure WaitRight (s : SchedulerState) (regs : Regs) (t : SchedulerState) : Prop where
  child : HasChild s → (t.processes s.currPid).state = .waiting ∨
    ∃ c, (s.processes c).state = .zombie ∧ (s.processes c).parentId = s.currPid ∧
      Completed s (.wait regs) t s.currPid c (s.regs c).ebx
  noChild : ¬ HasChild s → (t.processes s.currPid).state = .runnable ∧ (t.regs s.currPid).eax = 0

/-- No slot names the current process, neither a free one nor its own. -/
def Unnamed (s : SchedulerState) : Prop :=
  ∀ c < NUM_PROCESSES, (s.processes c).parentId ≠ s.currPid

/-- A scan that finds no zombie says whether some slot names the parent. -/
lemma waitScan_inr {ids : List Nat} {b b' : Bool} (h : waitScan w s ids b = .inr b') :
    b' = true ↔ b = true ∨ ∃ c ∈ ids, (s.processes c).parentId = w := by
  induction ids generalizing b with
  | nil =>
    cases h
    simp
  | cons i ids ih =>
    rw [waitScan] at h
    split_ifs at h with hp hz
    · refine (ih h).trans (iff_of_true (.inl rfl) (.inr ⟨i, List.mem_cons_self, hp⟩))
    · refine (ih h).trans (or_congr_right ?_)
      constructor
      · rintro ⟨c, hc, e⟩
        exact ⟨c, List.mem_cons_of_mem _ hc, e⟩
      · rintro ⟨c, hc, e⟩
        obtain rfl | hc := List.mem_cons.mp hc
        · exact absurd e hp
        · exact ⟨c, hc, e⟩

/-- What a wait does: it reports a zombie child, or there is none, and it blocks if some slot names
the caller and returns 0 if none does. -/
lemma syscallWait_exact (s : SchedulerState) :
    (∃ c < NUM_PROCESSES, (s.processes c).parentId = s.currPid ∧ c ≠ s.currPid ∧
      (s.processes c).state = .zombie ∧
      syscallWait s = resolveExitWait s.currPid c (s.setState s.currPid .waiting)) ∨
    (¬ Unnamed s ∧ syscallWait s = s.setState s.currPid .waiting) ∨
    (Unnamed s ∧ syscallWait s = ((s.setState s.currPid .waiting).setRegs s.currPid
      { s.regs s.currPid with eax := 0 }).setState s.currPid .runnable) := by
  rcases waitScan_cases s.currPid (s.setState s.currPid .waiting) (List.range NUM_PROCESSES) false
    with ⟨c, hc, hp, hz, e⟩ | ⟨_, b, e⟩
  · left
    have hne : c ≠ s.currPid := by
      rintro rfl
      simp at hz
    refine ⟨c, List.mem_range.mp hc, by simpa using hp, hne, by simpa [hne] using hz, ?_⟩
    simp [syscallWait, e]
  · right
    have hb := waitScan_inr e
    have hu : b = true ↔ ¬ Unnamed s := by
      refine hb.trans ?_
      unfold Unnamed
      push Not
      simp
    cases b with
    | true =>
      left
      exact ⟨hu.mp rfl, by simp [syscallWait, e]⟩
    | false =>
      right
      refine ⟨not_not.mp fun hn => absurd (hu.mpr hn) (by decide), by simp [syscallWait, e]⟩

/-- A wait does what it should if and only if the caller has a child or no slot at all names it. -/
theorem wait_blocks (s : SchedulerState) (regs : Regs) :
    WaitRight s regs (syscallWait (saveRegs regs s)) ↔ HasChild s ∨ Unnamed s := by
  have hun : Unnamed (saveRegs regs s) ↔ Unnamed s := by simp [Unnamed, saveRegs]
  have named : HasChild s → ¬ Unnamed s := by
    rintro ⟨c, hlt, _, _, hp⟩ hu
    exact hu c hlt hp
  rcases syscallWait_exact (saveRegs regs s) with ⟨c, hlt, hp, hne, hz, e⟩ | ⟨hn, e⟩ | ⟨hu, e⟩
  · simp only [saveRegs, setRegs_currPid, setRegs_parentId, setRegs_state] at hp hne hz e
    have hlive : (s.processes c).state ≠ .free := by
      intro h
      rw [hz] at h
      cases h
    have hchild : HasChild s := ⟨c, hlt, hne, hlive, hp⟩
    refine iff_of_true ⟨fun _ => .inr ⟨c, hz, hp, ?_⟩, fun hn => absurd hchild hn⟩ (.inl hchild)
    rw [saveRegs, e]
    refine ⟨.inr ⟨⟨regs, rfl⟩, rfl⟩, hlt, by simp, ?_, ?_, ?_⟩
    · rw [resolveExitWait_regs hne, if_pos rfl]
    · rw [resolveExitWait_regs hne, if_pos rfl]
    · rw [resolveExitWait_regs hne, if_pos rfl]
      simp [hne]
  · rw [hun] at hn
    simp only [saveRegs, setRegs_currPid] at e
    have hwait : ((syscallWait (saveRegs regs s)).processes s.currPid).state = .waiting := by
      rw [saveRegs, e]
      simp
    constructor
    · intro h
      by_contra hc
      push Not at hc
      have := (h.noChild hc.1).1
      rw [hwait] at this
      cases this
    · rintro (h | h)
      · exact ⟨fun _ => .inl hwait, fun hn => absurd h hn⟩
      · exact absurd h hn
  · rw [hun] at hu
    simp only [saveRegs, setRegs_currPid] at e
    refine iff_of_true ⟨fun h => absurd hu (named h), fun _ => ?_⟩ (.inr hu)
    rw [saveRegs, e]
    exact ⟨by simp, by simp⟩

/-- Process 2, a child of init, has forked process 3. -/
def sampleChild : SchedulerState :=
  syscallFork 0x430000 (saveRegs (sampleRegs 2 3) { sampleFork with currPid := 2 })

/-- Process 3 has exited. -/
def sampleChildExit : SchedulerState :=
  syscallExit (saveRegs (sampleRegs 0 7) { sampleChild with currPid := 3 })

/-- Process 2 has waited for process 3. -/
def sampleReaped : SchedulerState :=
  syscallWait (saveRegs (sampleRegs 1 3) { sampleChildExit with currPid := 2 })

/-- Process 2 has no child any more, but its next wait leaves it waiting: slot 3 still names it. -/
theorem wait_blocks_childless :
    (∃ es, Run Step sampleInstall es sampleReaped) ∧
      ¬ WaitRight sampleReaped (sampleRegs 0 0)
        (syscallWait (saveRegs (sampleRegs 0 0) sampleReaped)) := by
  constructor
  · have run2 : Run Step sampleInstall _ { sampleFork with currPid := 2 } :=
      (Run.single (.fork (by decide))).snoc (.dispatch (by decide) (by decide))
    have run3 : Run Step sampleInstall _ { sampleChild with currPid := 3 } :=
      (run2.snoc (.fork (by decide +kernel))).snoc (.dispatch (by decide) (by decide +kernel))
    have run4 : Run Step sampleInstall _ { sampleChildExit with currPid := 2 } :=
      (run3.snoc (.exit (by decide +kernel))).snoc (.dispatch (by decide) (by decide +kernel))
    exact ⟨_, run4.snoc (.wait (by decide +kernel))⟩
  · intro h
    have hfree : ∀ c < NUM_PROCESSES, c ≠ sampleReaped.currPid →
        (sampleReaped.processes c).parentId = sampleReaped.currPid →
        (sampleReaped.processes c).state = .free := by decide +kernel
    have hwait : ((syscallWait (saveRegs (sampleRegs 0 0) sampleReaped)).processes
        sampleReaped.currPid).state = .waiting := by decide +kernel
    have hchild : ¬ HasChild sampleReaped := by
      rintro ⟨c, hlt, hne, hs, hp⟩
      exact hs (hfree c hlt hne hp)
    have hrun := (h.noChild hchild).1
    rw [hwait] at hrun
    cases hrun

end MarioBrOS.Scheduler
