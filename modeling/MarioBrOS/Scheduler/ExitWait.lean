import MarioBrOS.Scheduler.Table
import Mathlib.Tactic.Cases
import Mathlib.Data.List.Basic

/-!
# The exit/wait protocol

An `exit` leaves its value in the registers of the zombie slot until some `wait` of the parent picks
it up. A wait can be completed from three places: the wait itself finds a zombie
(`syscall_wait`), the child exits while its parent waits (`syscall_exit`), or an exiting process
hands a zombie child to a waiting init (`syscall_exit`, the loop over the children).

`Settles` collects what these three places do to the table, one move at a time; every fact about a
completed wait is read off it. The abstract side of the protocol is the `Ledger` of exit values that
no wait has returned yet. `exitWait_protocol` says that the table follows the ledger: a wait returns
only what is owed, to the parent of the process that owed it, and settles the debt.
-/

namespace MarioBrOS.Scheduler

open SchedulerState

/-! ## The loop of `syscall_exit` -/

/-- What the two ways of touching a child preserve, the loop of `syscall_exit` preserves. -/
lemma exitLoop_invariant {P : SchedulerState → Prop} {id : Nat} {s : SchedulerState}
    (reparent : ∀ t i, P t → i < NUM_PROCESSES → (t.processes i).parentId = id →
      ¬((t.processes i).state = .zombie ∧ (t.processes 1).state = .waiting) → P (t.setParent i 1))
    (reap : ∀ t i, P t → i < NUM_PROCESSES → (t.processes i).parentId = id →
      (t.processes i).state = .zombie → (t.processes 1).state = .waiting →
      P (resolveExitWait 1 i (t.setParent i 1)))
    (h : P s) : P ((List.range NUM_PROCESSES).foldl (exitChild id) s) := by
  refine List.foldlRecOn _ _ h fun t ht i hi => ?_
  have hlt : i < NUM_PROCESSES := List.mem_range.mp hi
  unfold exitChild
  by_cases hp : (t.processes i).parentId = id
  · rw [if_pos hp]
    by_cases hz : (t.processes i).state = .zombie ∧ (t.processes 1).state = .waiting
    · rw [if_pos (by simpa using hz)]
      exact reap t i ht hlt hp hz.1 hz.2
    · rw [if_neg (by simpa using hz)]
      exact reparent t i ht hlt hp hz
  · rw [if_neg hp]
    exact ht

/-! ## Settling accounts -/

/-- The moves of `syscall_exit` (by process `id`) and `syscall_wait` once the caller's own state is
set: children of `id` go to init, and a zombie is reported to its waiting parent. The list holds the
reports made, waiter first. -/
inductive Settles (id : Nat) : SchedulerState → List (Nat × Nat) → SchedulerState → Prop where
  | refl {s} : Settles id s [] s
  | reparent {s l t i} :
    Settles id s l t →
    (t.processes i).parentId = id →
    Settles id s l (t.setParent i 1)
  | resolve {s l t w c} :
    Settles id s l t →
    c < NUM_PROCESSES →
    (t.processes w).state = .waiting →
    (t.processes c).state = .zombie →
    (t.processes c).parentId = w →
    Settles id s (l ++ [(w, c)]) (resolveExitWait w c t)

variable {s t u : SchedulerState}

/-- What a list of reports says about the states before and after. -/
structure Settled (id : Nat) (s : SchedulerState) (l : List (Nat × Nat)) (t : SchedulerState) :
    Prop where
  waiter : ∀ w c, (w, c) ∈ l →
    (s.processes w).state = .waiting ∧ (t.processes w).state = .runnable ∧
    t.regs w = { s.regs w with eax := 1, ebx := BitVec.ofNat 32 c, ecx := (s.regs c).ebx }
  child : ∀ w c, (w, c) ∈ l →
    c < NUM_PROCESSES ∧ (s.processes c).state = .zombie ∧ (t.processes c).state = .free ∧
    ((s.processes c).parentId = w ∨ w = 1 ∧ (s.processes c).parentId = id)
  unique : ∀ w w' c, (w, c) ∈ l → (w', c) ∈ l → w' = w
  state : ∀ j, (∀ c, (j, c) ∉ l) → (∀ w, (w, j) ∉ l) →
    (t.processes j).state = (s.processes j).state
  regs : ∀ j, (∀ c, (j, c) ∉ l) → t.regs j = s.regs j
  parentId : ∀ j, (t.processes j).parentId = (s.processes j).parentId ∨
    (t.processes j).parentId = 1 ∧ (s.processes j).parentId = id

/-- A slot that still waits has had nothing reported, as waiter or as child. -/
lemma Settled.not_mem_of_waiting {id l w} (h : Settled id s l t)
    (hw : (t.processes w).state = .waiting) : (∀ c, (w, c) ∉ l) ∧ ∀ v, (v, w) ∉ l := by
  refine ⟨fun c hm => ?_, fun v hm => ?_⟩
  · have := (h.waiter _ _ hm).2.1
    rw [hw] at this; cases this
  · have := (h.child _ _ hm).2.2.1
    rw [hw] at this; cases this

/-- A slot that is still a zombie has had nothing reported, as waiter or as child. -/
lemma Settled.not_mem_of_zombie {id l c} (h : Settled id s l t)
    (hc : (t.processes c).state = .zombie) : (∀ d, (c, d) ∉ l) ∧ ∀ v, (v, c) ∉ l := by
  refine ⟨fun d hm => ?_, fun v hm => ?_⟩
  · have := (h.waiter _ _ hm).2.1
    rw [hc] at this; cases this
  · have := (h.child _ _ hm).2.2.1
    rw [hc] at this; cases this

/-- The moves do what their reports say. -/
lemma Settles.settled {id l} (h : Settles id s l t) : Settled id s l t := by
  induction h with
  | refl =>
    exact ⟨by simp, by simp, by simp, fun _ _ _ => rfl, fun _ _ => rfl, fun _ => .inl rfl⟩
  | @reparent l t i _ hp ih =>
    refine ⟨by simpa using ih.waiter, by simpa using ih.child, ih.unique, by simpa using ih.state,
      by simpa using ih.regs, fun j => ?_⟩
    by_cases hj : j = i
    · subst hj
      rcases ih.parentId j with e | ⟨_, e⟩
      · right; simp [← e, hp]
      · right; simp [e]
    · simpa [hj] using ih.parentId j
  | @resolve l t w c _ hlt hw hc hp ih =>
    have ⟨nw1, nw2⟩ := ih.not_mem_of_waiting hw
    have ⟨nc1, nc2⟩ := ih.not_mem_of_zombie hc
    have hcw : c ≠ w := by rintro rfl; rw [hw] at hc; cases hc
    -- neither took part in a report before, so both are as they were at the start
    have sw := (ih.state w nw1 nw2).symm.trans hw
    have sc := (ih.state c nc1 nc2).symm.trans hc
    refine ⟨?_, ?_, ?_, ?_, ?_, by simpa using ih.parentId⟩
    · intro v d hm
      rcases List.mem_append.mp hm with m | m
      · -- an earlier waiter is neither `w` nor `c`
        have hvw : v ≠ w := fun e => nw1 _ (e ▸ m)
        have hvc : v ≠ c := fun e => nc1 _ (e ▸ m)
        simpa [resolveExitWait_regs hcw, hvw, hvc] using ih.waiter v d m
      · obtain ⟨rfl, rfl⟩ : v = w ∧ d = c := by simpa using m
        refine ⟨sw, by simp, ?_⟩
        rw [resolveExitWait_regs hcw, if_pos rfl, ih.regs v nw1, ih.regs d nc1]
    · intro v d hm
      rcases List.mem_append.mp hm with m | m
      · have hdw : d ≠ w := fun e => nw2 _ (e ▸ m)
        have hdc : d ≠ c := fun e => nc2 _ (e ▸ m)
        simpa [hdw, hdc] using ih.child v d m
      · obtain ⟨rfl, rfl⟩ : v = w ∧ d = c := by simpa using m
        refine ⟨hlt, sc, by simp [hcw], ?_⟩
        rcases ih.parentId d with e | ⟨e1, e2⟩
        · exact .inl (e.symm.trans hp)
        · exact .inr ⟨hp.symm.trans e1, e2⟩
    · intro v v' d h1 h2
      rcases List.mem_append.mp h1 with m1 | m1 <;> rcases List.mem_append.mp h2 with m2 | m2
      · exact ih.unique v v' d m1 m2
      · obtain ⟨rfl, rfl⟩ : v' = w ∧ d = c := by simpa using m2
        exact absurd m1 (nc2 _)
      · obtain ⟨rfl, rfl⟩ : v = w ∧ d = c := by simpa using m1
        exact absurd m2 (nc2 _)
      · obtain ⟨rfl, rfl⟩ : v = w ∧ d = c := by simpa using m1
        obtain ⟨rfl, _⟩ : v' = v ∧ d = d := by simpa using m2
        rfl
    · intro j h1 h2
      have hjw : j ≠ w := by rintro rfl; exact h1 c (by simp)
      have hjc : j ≠ c := by rintro rfl; exact h2 w (by simp)
      have e := ih.state j (fun d hm => h1 d (by simp [hm])) (fun v hm => h2 v (by simp [hm]))
      simpa [hjw, hjc] using e
    · intro j h1
      have hjw : j ≠ w := by rintro rfl; exact h1 c (by simp)
      rw [resolveExitWait_regs hcw, if_neg hjw]
      exact ih.regs j fun d hm => h1 d (by simp [hm])

/-- The moves leave the current pid alone. -/
lemma Settles.currPid {id l} (h : Settles id s l t) : t.currPid = s.currPid := by
  induction h with
  | refl => rfl
  | reparent _ _ ih => exact ih
  | resolve _ _ _ _ _ ih => exact ih

/-! ## The syscalls settle accounts -/

/-- What holds during the loop of `syscall_exit`: the exiting slot is still a zombie, unless init
was its parent and took it. -/
def ExitingSlot (id : Nat) (s t : SchedulerState) : Prop :=
  (∃ l, Settles id s l t) ∧
    ((t.processes id).state = .zombie ∨
      (t.processes id).parentId = 1 ∧ (t.processes 1).state ≠ .waiting)

/-- The loop of `syscall_exit` settles accounts. -/
lemma exitLoop_exitingSlot (id : Nat) (s : SchedulerState) (h : (s.processes id).state = .zombie) :
    ExitingSlot id s ((List.range NUM_PROCESSES).foldl (exitChild id) s) := by
  refine exitLoop_invariant (P := ExitingSlot id s) ?_ ?_ ⟨⟨[], .refl⟩, .inl h⟩
  · rintro t i ⟨⟨l, st⟩, hz⟩ _ hp _
    refine ⟨⟨l, st.reparent hp⟩, ?_⟩
    by_cases hi : id = i
    · subst hi
      rcases hz with hz | hz
      · left; simpa using hz
      · right; simpa using hz.2
    · simpa [hi] using hz
  · rintro t i ⟨⟨l, st⟩, hz⟩ hlt hp hzi h1
    refine ⟨⟨_, (st.reparent hp).resolve hlt (by simpa using h1) (by simpa using hzi) (by simp)⟩, ?_⟩
    by_cases hi : id = i
    · right; simp [hi]
    · rcases hz with hz | hz
      · left
        have h1' : id ≠ 1 := by rintro rfl; rw [h1] at hz; cases hz
        simpa [hi, h1'] using hz
      · exact absurd h1 hz.2

/-- `syscall_exit` marks the caller a zombie and settles accounts. -/
lemma syscallExit_settles (s : SchedulerState) (hc : s.currPid < NUM_PROCESSES) :
    ∃ l, Settles s.currPid (s.setState s.currPid .zombie) l (syscallExit s) := by
  have loop := exitLoop_exitingSlot s.currPid (s.setState s.currPid .zombie) (by simp)
  simp only [syscallExit]
  generalize (List.range NUM_PROCESSES).foldl (exitChild s.currPid)
    (s.setState s.currPid .zombie) = t at loop ⊢
  obtain ⟨⟨l, h⟩, hz⟩ := loop
  by_cases hw : (t.processes (t.processes s.currPid).parentId).state = .waiting
  · rw [if_pos hw]
    rcases hz with hz | ⟨e, h1⟩
    · exact ⟨_, h.resolve hc hw hz rfl⟩
    · rw [e] at hw; exact absurd hw h1
  · rw [if_neg hw]
    exact ⟨l, h⟩

/-- The scan of `syscall_wait` either reports the first zombie child or finds none. -/
lemma waitScan_cases (w : Nat) (s : SchedulerState) (ids : List Nat) (b : Bool) :
    (∃ c ∈ ids, (s.processes c).parentId = w ∧ (s.processes c).state = .zombie ∧
      waitScan w s ids b = .inl (resolveExitWait w c s)) ∨
    (∀ c ∈ ids, (s.processes c).parentId = w → (s.processes c).state ≠ .zombie) ∧
      ∃ b', waitScan w s ids b = .inr b' := by
  induction ids generalizing b with
  | nil => exact .inr ⟨by simp, b, rfl⟩
  | cons i ids ih =>
    by_cases hp : (s.processes i).parentId = w
    · by_cases hz : (s.processes i).state = .zombie
      · exact .inl ⟨i, by simp, hp, hz, by simp [waitScan, hp, hz]⟩
      · rcases ih true with ⟨c, hc, h1, h2, e⟩ | ⟨h, b', e⟩
        · exact .inl ⟨c, by simp [hc], h1, h2, by simp [waitScan, hp, hz, e]⟩
        · refine .inr ⟨?_, b', by simp [waitScan, hp, hz, e]⟩
          intro c hc
          rcases List.mem_cons.mp hc with rfl | hc
          · exact fun _ => hz
          · exact h c hc
    · rcases ih b with ⟨c, hc, h1, h2, e⟩ | ⟨h, b', e⟩
      · exact .inl ⟨c, by simp [hc], h1, h2, by simp [waitScan, hp, e]⟩
      · refine .inr ⟨?_, b', by simp [waitScan, hp, e]⟩
        intro c hc
        rcases List.mem_cons.mp hc with rfl | hc
        · exact fun h => absurd h hp
        · exact h c hc

/-- `syscall_wait` reports a zombie child, or there is none and the caller waits or returns with
`eax = 0`. -/
lemma syscallWait_cases (s : SchedulerState) :
    (∃ c < NUM_PROCESSES, (s.processes c).parentId = s.currPid ∧ c ≠ s.currPid ∧
      (s.processes c).state = .zombie ∧
      syscallWait s = resolveExitWait s.currPid c (s.setState s.currPid .waiting)) ∨
    (∀ c < NUM_PROCESSES, (s.processes c).parentId = s.currPid → c ≠ s.currPid →
      (s.processes c).state ≠ .zombie) ∧
    (syscallWait s = s.setState s.currPid .waiting ∨
      syscallWait s = (((s.setState s.currPid .waiting).setRegs s.currPid
        { s.regs s.currPid with eax := 0 }).setState s.currPid .runnable)) := by
  rcases waitScan_cases s.currPid (s.setState s.currPid .waiting) (List.range NUM_PROCESSES) false
    with ⟨c, hc, hp, hz, e⟩ | ⟨h, b, e⟩
  · left
    have hne : c ≠ s.currPid := by rintro rfl; simp at hz
    refine ⟨c, List.mem_range.mp hc, by simpa using hp, hne, by simpa [hne] using hz, ?_⟩
    simp [syscallWait, e]
  · right
    refine ⟨fun c hc hp hne => ?_, ?_⟩
    · simpa [hne] using h c (List.mem_range.mpr hc) (by simpa using hp)
    · cases b with
      | true => left; simp [syscallWait, e]
      | false => right; simp [syscallWait, e]

/-! ## The system -/

/-- The events of the protocol: the scheduler picks a runnable process, or the current process traps
with the registers it then holds. `dir` is the directory `fork_page_dir` returns. -/
inductive Event where
  | dispatch (pid : Nat)
  | fork (regs : Regs) (dir : Nat)
  | exit (regs : Regs)
  | wait (regs : Regs)

/-- The steps of the protocol. Any runnable process may be the next to run. -/
inductive Step : SchedulerState → Event → SchedulerState → Prop where
  | dispatch {s pid} :
    pid < NUM_PROCESSES →
    (s.processes pid).state = .runnable →
    Step s (.dispatch pid) { s with currPid := pid }
  | fork {s regs dir} :
    (s.processes s.currPid).state = .runnable →
    Step s (.fork regs dir) (syscallFork dir (saveRegs regs s))
  | exit {s regs} :
    (s.processes s.currPid).state = .runnable →
    Step s (.exit regs) (syscallExit (saveRegs regs s))
  | wait {s regs} :
    (s.processes s.currPid).state = .runnable →
    Step s (.wait regs) (syscallWait (saveRegs regs s))

/-- In the step from `s` to `t` a wait of `w` returns `eax = 1`, `ebx = c` and `ecx = v`. -/
structure Completed (s : SchedulerState) (e : Event) (t : SchedulerState) (w c : Nat)
    (v : BitVec 32) : Prop where
  waits : (s.processes w).state = .waiting ∨ (∃ regs, e = .wait regs) ∧ w = s.currPid
  child_lt : c < NUM_PROCESSES
  resumed : (t.processes w).state = .runnable
  eax : (t.regs w).eax = 1
  ebx : (t.regs w).ebx = BitVec.ofNat 32 c
  ecx : (t.regs w).ecx = v

/-- The exit values no wait has returned yet, by slot. -/
abbrev Ledger := Nat → Option (BitVec 32)

/-- The ledger after the exit, if the event is one. -/
def Ledger.charge (L : Ledger) (s : SchedulerState) : Event → Ledger
  | .exit regs => Function.update L s.currPid (some regs.ebx)
  | _ => L

/-- A step of the table together with the ledger: an exit is entered, a completed wait is struck
off. -/
structure LedgerStep (x : SchedulerState × Ledger) (e : Event) (y : SchedulerState × Ledger) :
    Prop where
  step : Step x.1 e y.1
  settled : ∀ c, (∃ w v, Completed x.1 e y.1 w c v) → y.2 c = none
  kept : ∀ c, (¬∃ w v, Completed x.1 e y.1 w c v) → y.2 c = x.2.charge x.1 e c

/-- Slot `c` is a zombie once the current process has performed its part of `e`. -/
def Owes (s : SchedulerState) (e : Event) (c : Nat) : Prop :=
  (s.processes c).state = .zombie ∨ (∃ regs, e = .exit regs) ∧ c = s.currPid

/-- The exit value slot `c` then owes. -/
def debt (s : SchedulerState) : Event → Nat → BitVec 32
  | .exit regs, c => if c = s.currPid then regs.ebx else (s.regs c).ebx
  | _, c => (s.regs c).ebx

/-- What one step does, told by the reports it makes. -/
structure Reported (s : SchedulerState) (e : Event) (t : SchedulerState) (l : List (Nat × Nat)) :
    Prop where
  completed : ∀ w c v, Completed s e t w c v ↔ (w, c) ∈ l ∧ v = debt s e c
  child : ∀ w c, (w, c) ∈ l → Owes s e c ∧ (t.processes c).state = .free ∧
    ((s.processes c).parentId = w ∨
      w = 1 ∧ (∃ regs, e = .exit regs) ∧ (s.processes c).parentId = s.currPid)
  unique : ∀ w w' c, (w, c) ∈ l → (w', c) ∈ l → w' = w
  zombie : ∀ c, (t.processes c).state = .zombie ↔ Owes s e c ∧ ∀ w, (w, c) ∉ l
  value : ∀ c, (t.processes c).state = .zombie → (t.regs c).ebx = debt s e c

/-- A pid is recovered from the register it is returned in. -/
lemma pid_ofNat_inj {c d : Nat} (hc : c < NUM_PROCESSES) (hd : d < NUM_PROCESSES)
    (h : BitVec.ofNat 32 c = BitVec.ofNat 32 d) : c = d := by
  have := congrArg BitVec.toNat h
  simp only [BitVec.toNat_ofNat, NUM_PROCESSES] at *
  omega

/-- A free slot was free before the search. -/
lemma freeSlot_free {procs : Nat → Process} (h : freeSlot procs ≠ NUM_PROCESSES) :
    (procs (freeSlot procs)).state = .free ∧ freeSlot procs < NUM_PROCESSES := by
  unfold freeSlot at *
  cases e : (List.range NUM_PROCESSES).find? fun i => (procs i).state = .free with
  | none => simp [e] at h
  | some i =>
    refine ⟨by simpa using List.find?_some e, ?_⟩
    exact List.mem_range.mp (List.mem_of_find?_eq_some e)

/-- `syscall_fork` changes the caller's registers, and at most one free slot, which becomes
runnable. -/
lemma syscallFork_cases (dir : Nat) (s : SchedulerState) :
    syscallFork dir s = s.setRegs s.currPid { s.regs s.currPid with eax := 0 } ∨
    ∃ id child regs,
      syscallFork dir s = ((s.setProc id child).enqueue child.prio id).setRegs s.currPid regs ∧
      id < NUM_PROCESSES ∧ (s.processes id).state = .free ∧
      child.state = .runnable ∧ child.prio = (s.regs s.currPid).ebx.toInt := by
  unfold syscallFork
  by_cases h : freeSlot s.processes = NUM_PROCESSES ∨
      (s.processes s.currPid).context.regs.ebx.toInt > (s.processes s.currPid).prio
  · left
    rw [if_pos h]; rfl
  · right
    obtain ⟨hf, hlt⟩ := freeSlot_free fun e => h (.inl e)
    rw [if_neg h]
    exact ⟨_, _, _, rfl, hlt, hf, rfl, rfl⟩

/-- Scheduling and `syscall_fork` report nothing. -/
lemma reported_nil {e : Event} (he : (∀ regs, e ≠ .exit regs) ∧ ∀ regs, e ≠ .wait regs)
    (hstate : ∀ j, (t.processes j).state = (s.processes j).state ∨
      (s.processes j).state = .free ∧ (t.processes j).state = .runnable)
    (hregs : ∀ j, (s.processes j).state = .zombie → t.regs j = s.regs j) :
    Reported s e t [] := by
  have howes : ∀ c, Owes s e c ↔ (s.processes c).state = .zombie := by
    intro c
    simp only [Owes, or_iff_left_iff_imp]
    rintro ⟨⟨regs, h⟩, _⟩
    exact absurd h (he.1 regs)
  have hz : ∀ c, (t.processes c).state = .zombie ↔ (s.processes c).state = .zombie := by
    intro c
    rcases hstate c with h | ⟨h1, h2⟩
    · rw [h]
    · simp [h1, h2]
  refine ⟨?_, by simp, by simp, by simpa [howes] using hz, ?_⟩
  · intro w c v
    simp only [List.not_mem_nil, false_and, iff_false]
    rintro ⟨hw | ⟨⟨regs, h⟩, _⟩, _, hr, _⟩
    · rcases hstate w with h | ⟨h, _⟩
      · rw [h, hw] at hr; cases hr
      · rw [hw] at h; cases h
    · exact he.2 regs h
  · intro c hc
    rw [hregs c ((hz c).mp hc)]
    cases e with
    | exit regs => exact absurd rfl (he.1 regs)
    | dispatch _ | fork _ _ | wait _ => rfl

/-- What `syscall_exit` reports. -/
lemma syscallExit_reported (regs : Regs) (hcur : (s.processes s.currPid).state = .runnable)
    (hlt : s.currPid < NUM_PROCESSES) :
    ∃ l, Reported s (.exit regs) (syscallExit (saveRegs regs s)) l := by
  obtain ⟨l, st⟩ := syscallExit_settles (saveRegs regs s) hlt
  have h := st.settled
  rw [saveRegs] at h ⊢
  simp only [setRegs_currPid] at h
  have howes : ∀ c, Owes s (.exit regs) c ↔
      (((s.setRegs s.currPid regs).setState s.currPid .zombie).processes c).state = .zombie := by
    intro c
    by_cases hc : c = s.currPid <;> simp [Owes, hc, hcur]
  have hdebt : ∀ c, debt s (.exit regs) c =
      (((s.setRegs s.currPid regs).setState s.currPid .zombie).regs c).ebx := by
    intro c
    by_cases hc : c = s.currPid <;> simp [debt, hc]
  have hwait : ∀ w, (((s.setRegs s.currPid regs).setState s.currPid .zombie).processes w).state =
      .waiting ↔ (s.processes w).state = .waiting := by
    intro w
    by_cases hw : w = s.currPid <;> simp [hw, hcur]
  refine ⟨l, ?_, ?_, h.unique, ?_, ?_⟩
  · intro w c v
    constructor
    · rintro ⟨hw | ⟨⟨_, e⟩, _⟩, hc, hr, _, hb, rfl⟩
      · -- a waiter that runs again was reported to
        by_cases hm : ∃ d, (w, d) ∈ l
        · obtain ⟨d, hm⟩ := hm
          obtain ⟨_, _, er⟩ := h.waiter w d hm
          rw [er] at hb ⊢
          obtain rfl := pid_ofNat_inj (h.child w d hm).1 hc hb
          exact ⟨hm, (hdebt d).symm⟩
        · by_cases hm' : ∃ v, (v, w) ∈ l
          · obtain ⟨v, hm'⟩ := hm'
            have := (h.child v w hm').2.2.1
            rw [this] at hr; cases hr
          · have e := h.state w (fun d hd => hm ⟨d, hd⟩) fun v hv => hm' ⟨v, hv⟩
            rw [(hwait w).mpr hw, hr] at e; cases e
      · cases e
    · rintro ⟨hm, rfl⟩
      obtain ⟨h1, h2, h3⟩ := h.waiter w c hm
      exact ⟨.inl ((hwait w).mp h1), (h.child w c hm).1, h2, by rw [h3], by rw [h3],
        by rw [h3, hdebt]⟩
  · intro w c hm
    obtain ⟨_, h2, h3, h4⟩ := h.child w c hm
    refine ⟨(howes c).mpr h2, h3, ?_⟩
    simp only [setState_parentId, setRegs_parentId] at h4
    exact h4.imp id fun h => ⟨h.1, ⟨regs, rfl⟩, h.2⟩
  · intro c
    rw [howes]
    constructor
    · intro hz
      obtain ⟨n1, n2⟩ := h.not_mem_of_zombie hz
      exact ⟨(h.state c n1 n2).symm.trans hz, n2⟩
    · rintro ⟨hz, n2⟩
      refine (h.state c (fun d hd => ?_) n2).trans hz
      have := (h.waiter c d hd).1
      rw [hz] at this; cases this
  · intro c hz
    rw [h.regs c (h.not_mem_of_zombie hz).1, hdebt]

/-- What `syscall_wait` reports. -/
lemma syscallWait_reported (regs : Regs) (hcur : (s.processes s.currPid).state = .runnable) :
    ∃ l, Reported s (.wait regs) (syscallWait (saveRegs regs s)) l := by
  have howes : ∀ c, Owes s (.wait regs) c ↔ (s.processes c).state = .zombie := by
    intro c; simp [Owes]
  have hne : ∀ c, (s.processes c).state = .zombie → c ≠ s.currPid := by
    rintro c hc rfl; rw [hcur] at hc; cases hc
  rcases syscallWait_cases (saveRegs regs s) with ⟨c, hlt, hp, hcc, hz, e⟩ | ⟨_, e⟩
  · -- a zombie child is reaped at once
    simp only [saveRegs, setRegs_currPid, setRegs_parentId, setRegs_state] at hp hcc hz e
    rw [saveRegs, e]
    refine ⟨[(s.currPid, c)], ?_, ?_, ?_, ?_, ?_⟩
    · intro w d v
      constructor
      · rintro ⟨hw, hd, hr, _, hb, rfl⟩
        by_cases hws : w = s.currPid
        · subst hws
          rw [resolveExitWait_regs hcc, if_pos rfl] at hb ⊢
          obtain rfl := pid_ofNat_inj hlt hd hb
          simp [debt, hcc]
        · have hw : (s.processes w).state = .waiting := hw.resolve_right fun h => hws h.2
          by_cases hwc : w = c
          · rw [← hwc, hw] at hz; cases hz
          · simp [hws, hwc, hw] at hr
      · rintro ⟨hm, rfl⟩
        obtain ⟨rfl, rfl⟩ : w = s.currPid ∧ d = c := by simpa using hm
        refine ⟨.inr ⟨⟨regs, rfl⟩, rfl⟩, hlt, by simp, ?_, ?_, ?_⟩ <;>
          simp [resolveExitWait_regs hcc, debt, hcc]
    · intro w d hm
      obtain ⟨rfl, rfl⟩ : w = s.currPid ∧ d = c := by simpa using hm
      exact ⟨(howes d).mpr hz, by simp [hcc], .inl hp⟩
    · intro w w' d h1 h2
      obtain ⟨rfl, _⟩ : w = s.currPid ∧ d = c := by simpa using h1
      obtain ⟨rfl, _⟩ : w' = s.currPid ∧ d = c := by simpa using h2
      rfl
    · intro d
      rw [howes]
      by_cases hds : d = s.currPid
      · simp [hds, hcur]
      · by_cases hdc : d = c <;> simp [hds, hdc, hcc]
    · intro d hd
      have hds : d ≠ s.currPid := by rintro rfl; simp at hd
      simp [resolveExitWait_regs hcc, hds, debt]
  · -- nobody is reaped
    simp only [saveRegs, setRegs_currPid] at e
    rw [saveRegs]
    refine ⟨[], ?_, by simp, by simp, ?_, ?_⟩
    · intro w d v
      simp only [List.not_mem_nil, false_and, iff_false]
      rintro ⟨hw, _, hr, ha, _⟩
      by_cases hws : w = s.currPid
      · rcases e with e | e <;> rw [e] at hr ha
        · simp [hws] at hr
        · simp [hws] at ha
      · have hw : (s.processes w).state = .waiting := hw.resolve_right fun h => hws h.2
        rcases e with e | e <;> rw [e] at hr <;> simp [hws, hw] at hr
    · intro c
      rw [howes]
      by_cases hcs : c = s.currPid
      · rcases e with e | e <;> rw [e] <;> simp [hcs, hcur]
      · rcases e with e | e <;> rw [e] <;> simp [hcs]
    · intro c hz
      have hcs : c ≠ s.currPid := by
        rintro rfl
        rcases e with e | e <;> rw [e] at hz <;> simp at hz
      rcases e with e | e <;> rw [e] <;> simp [hcs, debt]

/-- What one step reports. -/
lemma Step.reported {s e t} (st : Step s e t) (hlt : s.currPid < NUM_PROCESSES) :
    ∃ l, Reported s e t l := by
  cases st with
  | dispatch _ _ => exact ⟨[], reported_nil (by simp) (fun _ => .inl rfl) fun _ _ => rfl⟩
  | @fork regs dir hcur =>
    refine ⟨[], reported_nil (by simp) ?_ ?_⟩
    · intro j
      rcases syscallFork_cases dir (saveRegs regs s) with e | ⟨id, child, r, e, _, hf, hr, _⟩
      · rw [e]; left; simp [saveRegs]
      · rw [e]
        simp only [saveRegs, setRegs_state] at hf
        by_cases hj : j = id
        · subst hj; right; simp [hf, hr]
        · left; simp [saveRegs, hj]
    · intro j hz
      have hj : j ≠ s.currPid := by rintro rfl; rw [hcur] at hz; cases hz
      rcases syscallFork_cases dir (saveRegs regs s) with e | ⟨id, child, r, e, _, hf, _, _⟩
      · rw [e]; simp [saveRegs, hj]
      · rw [e]
        simp only [saveRegs, setRegs_state] at hf
        have hji : j ≠ id := by rintro rfl; rw [hf] at hz; cases hz
        simp [saveRegs, hj, SchedulerState.regs, setRegs, hji]
  | exit hcur => exact syscallExit_reported _ hcur hlt
  | wait hcur => exact syscallWait_reported _ hcur

/-! ## No lost wakeup -/

/-- No process waits while one of its children, `id` apart, is a zombie. -/
def NoLostWakeupBut (id : Option Nat) (s : SchedulerState) : Prop :=
  ∀ p c, c < NUM_PROCESSES → some c ≠ id → (s.processes p).state = .waiting →
    (s.processes c).parentId = p → (s.processes c).state ≠ .zombie

/-- No process waits while one of its children is a zombie. -/
abbrev NoLostWakeup (s : SchedulerState) : Prop := NoLostWakeupBut none s

/-- A report wakes its waiter and frees its child: only the others have to be looked at. -/
lemma noLostWakeupBut_resolve {id w c}
    (h : ∀ p d, d < NUM_PROCESSES → some d ≠ id → p ≠ w → d ≠ c →
      (t.processes p).state = .waiting → (t.processes d).parentId = p →
      (t.processes d).state ≠ .zombie) :
    NoLostWakeupBut id (resolveExitWait w c t) := by
  intro p d hd hid hp hpd
  simp only [resolveExitWait_state, resolveExitWait_parentId] at hp hpd ⊢
  have hpw : p ≠ w := by rintro rfl; simp at hp
  have hpc : p ≠ c := by rintro rfl; simp [hpw] at hp
  by_cases hdw : d = w
  · simp [hdw]
  · by_cases hdc : d = c
    · rw [if_neg hdw, if_pos hdc]; simp
    · rw [if_neg hdw, if_neg hdc]
      exact h p d hd hid hpw hdc (by simpa [hpw, hpc] using hp) hpd

/-- The loop of `syscall_exit` loses no wakeup: a zombie child goes to init only when init does not
wait, or is reported at once. -/
lemma exitLoop_noLostWakeup {id'} (id : Nat) (h : NoLostWakeupBut id' s) :
    NoLostWakeupBut id' ((List.range NUM_PROCESSES).foldl (exitChild id) s) := by
  refine exitLoop_invariant (P := NoLostWakeupBut id') ?_ ?_ h
  · intro t i ht _ _ hn p c hc hid hp hpc
    simp only [setParent_state, setParent_parentId] at hp hpc ⊢
    by_cases hi : c = i
    · subst hi
      rw [if_pos rfl] at hpc
      subst hpc
      exact fun hz => hn ⟨hz, hp⟩
    · rw [if_neg hi] at hpc
      exact ht p c hc hid hp hpc
  · intro t i ht _ _ _ _
    refine noLostWakeupBut_resolve fun p d hd hid _ hdi hp hpd => ?_
    simp only [setParent_state, setParent_parentId, if_neg hdi] at hp hpd ⊢
    exact ht p d hd hid hp hpd

/-- `syscall_exit` loses no wakeup: the children are looked after in the loop, the caller's own
parent after it. -/
lemma syscallExit_noLostWakeup (h : NoLostWakeup s) : NoLostWakeup (syscallExit s) := by
  have start : NoLostWakeupBut (some s.currPid) (s.setState s.currPid .zombie) := by
    intro p c hc hid hp hpc
    have hcs : c ≠ s.currPid := fun e => hid (congrArg some e)
    have hps : p ≠ s.currPid := by rintro rfl; simp at hp
    simpa [hcs] using h p c hc (by simp) (by simpa [hps] using hp) (by simpa using hpc)
  have loop := exitLoop_noLostWakeup s.currPid start
  simp only [syscallExit]
  generalize (List.range NUM_PROCESSES).foldl (exitChild s.currPid)
    (s.setState s.currPid .zombie) = t at loop ⊢
  by_cases hw : (t.processes (t.processes s.currPid).parentId).state = .waiting
  · rw [if_pos hw]
    -- the exiting slot itself has just been freed
    exact noLostWakeupBut_resolve fun p d hd _ _ hds hp hpd =>
      loop p d hd (by simpa using hds) hp hpd
  · rw [if_neg hw]
    intro p c hc _ hp hpc
    by_cases hcs : c = s.currPid
    · subst hcs hpc
      exact absurd hp hw
    · exact loop p c hc (by simpa using hcs) hp hpc

/-- A wait that finds a zombie child does not wait. -/
lemma syscallWait_noLostWakeup (h : NoLostWakeup s) : NoLostWakeup (syscallWait s) := by
  rcases syscallWait_cases s with ⟨c, _, _, _, _, e⟩ | ⟨hn, e⟩
  · rw [e]
    refine noLostWakeupBut_resolve fun p d hd _ hps _ hp hpd => ?_
    by_cases hds : d = s.currPid
    · simp [hds]
    · simpa [hds] using h p d hd (by simp) (by simpa [hps] using hp) (by simpa using hpd)
  · intro p d hd _ hp hpd
    by_cases hds : d = s.currPid
    · rcases e with e | e <;> rw [e] <;> simp [hds]
    · by_cases hps : p = s.currPid
      · subst hps
        have hpd' : (s.processes d).parentId = s.currPid := by
          rcases e with e | e <;> rw [e] at hpd <;> simpa using hpd
        have := hn d hd hpd' hds
        rcases e with e | e <;> rw [e] <;> simpa [hds] using this
      · have hpw : (s.processes p).state = .waiting := by
          rcases e with e | e <;> rw [e] at hp <;> simpa [hps] using hp
        have hpd' : (s.processes d).parentId = p := by
          rcases e with e | e <;> rw [e] at hpd <;> simpa using hpd
        have := h p d hd (by simp) hpw hpd'
        rcases e with e | e <;> rw [e] <;> simpa [hds] using this

/-- Saving registers does not touch the protocol. -/
lemma saveRegs_noLostWakeup (regs : Regs) (h : NoLostWakeup s) : NoLostWakeup (saveRegs regs s) := by
  intro p c hc hid hp hpc
  simpa [saveRegs] using h p c hc hid (by simpa [saveRegs] using hp) (by simpa [saveRegs] using hpc)

/-- No step loses a wakeup. -/
lemma Step.noLostWakeup {s e t} (st : Step s e t) (h : NoLostWakeup s) : NoLostWakeup t := by
  cases st with
  | dispatch _ _ => exact h
  | @fork regs dir _ =>
    have h := saveRegs_noLostWakeup regs h
    intro p c hc hid hp hpc
    rcases syscallFork_cases dir (saveRegs regs s) with e | ⟨id, child, r, e, _, _, hr, _⟩
    · rw [e] at hp hpc ⊢
      simpa using h p c hc hid (by simpa using hp) (by simpa using hpc)
    · rw [e] at hp hpc ⊢
      have hpi : p ≠ id := by rintro rfl; simp [hr] at hp
      by_cases hci : c = id
      · simp [hci, hr]
      · simpa [hci] using h p c hc hid (by simpa [hpi] using hp) (by simpa [hci] using hpc)
  | exit _ => exact syscallExit_noLostWakeup (saveRegs_noLostWakeup _ h)
  | wait _ => exact syscallWait_noLostWakeup (saveRegs_noLostWakeup _ h)

/-! ## The protocol -/

/-- What a run keeps: the pid in range, no lost wakeup, and a ledger that lists the zombies with the
values they hold. -/
structure Protocol (x : SchedulerState × Ledger) : Prop where
  currPid : x.1.currPid < NUM_PROCESSES
  wakeup : NoLostWakeup x.1
  ledger : ∀ c, x.2 c =
    if (x.1.processes c).state = .zombie then some (x.1.regs c).ebx else none

/-- With the ledger in step, what `e` charges is exactly what is then owed. -/
lemma Protocol.charge {x : SchedulerState × Ledger} (h : Protocol x) (e : Event) (c : Nat) [Decidable (Owes x.1 e c)] :
    x.2.charge x.1 e c = if Owes x.1 e c then some (debt x.1 e c) else none := by
  cases e with
  | exit regs =>
    by_cases hc : c = x.1.currPid
    · simp [Ledger.charge, Owes, debt, hc]
    · simp [Ledger.charge, Owes, debt, hc, h.ledger c]
  | dispatch _ | fork _ _ | wait _ => simp [Ledger.charge, Owes, debt, h.ledger c]

/-- The current pid stays in range. -/
lemma Step.currPid_lt {s e t} (st : Step s e t) (h : s.currPid < NUM_PROCESSES) :
    t.currPid < NUM_PROCESSES := by
  cases st with
  | dispatch hlt _ => exact hlt
  | @fork regs dir _ =>
    rcases syscallFork_cases dir (saveRegs regs s) with e | ⟨id, child, r, e, _⟩ <;>
      rw [e] <;> exact h
  | @exit regs _ =>
    obtain ⟨l, st⟩ := syscallExit_settles (saveRegs regs s) h
    rw [st.currPid]; exact h
  | @wait regs _ =>
    rcases syscallWait_cases (saveRegs regs s) with ⟨c, _, _, _, _, e⟩ | ⟨_, e | e⟩ <;>
      rw [e] <;> exact h

/-- One step keeps the protocol. -/
lemma LedgerStep.protocol {x e y} (st : LedgerStep x e y) (h : Protocol x) : Protocol y := by
  classical
  obtain ⟨l, hr⟩ := st.step.reported h.currPid
  refine ⟨st.step.currPid_lt h.currPid, st.step.noLostWakeup h.wakeup, fun c => ?_⟩
  by_cases hc : ∃ w v, Completed x.1 e y.1 w c v
  · obtain ⟨w, v, hcv⟩ := hc
    obtain ⟨_, hfree, _⟩ := hr.child w c ((hr.completed w c v).mp hcv).1
    rw [st.settled c ⟨w, v, hcv⟩, hfree]; rfl
  · have hnl : ∀ w, (w, c) ∉ l := fun w hm => hc ⟨w, _, (hr.completed w c _).mpr ⟨hm, rfl⟩⟩
    rw [st.kept c hc, h.charge]
    by_cases hz : (y.1.processes c).state = .zombie
    · rw [if_pos ((hr.zombie c).mp hz).1, if_pos hz, hr.value c hz]
    · rw [if_neg hz, if_neg fun ho => hz ((hr.zombie c).mpr ⟨ho, hnl⟩)]

/-- The installed table is in step with the empty ledger. -/
lemma schedulerInstall_protocol (u : UserLayout) (d0 d1 : PageDirResult) (e0 e1 : BitVec 32) :
    Protocol (schedulerInstall u d0 d1 e0 e1, fun _ => none) := by
  have hstate : ∀ c, ((schedulerInstall u d0 d1 e0 e1).processes c).state = .free ∨
      ((schedulerInstall u d0 d1 e0 e1).processes c).state = .runnable := by
    intro c
    by_cases h1 : c = 1
    · right; simp [schedulerInstall, newProcess, Process.loaded, h1]
    · by_cases h0 : c = 0 <;>
        simp [schedulerInstall, newProcess, Process.loaded, zeroProcess, h0, h1]
  refine ⟨by simp [schedulerInstall, NUM_PROCESSES], ?_, fun c => ?_⟩
  · intro p c _ _ hp _
    rcases hstate p with h | h <;> rw [h] at hp <;> cases hp
  · rcases hstate c with h | h <;> simp [h]

/-- A runnable process that does not run keeps its registers, so what a completed wait put there is
what the process sees when it runs again. -/
lemma Step.regs_of_runnable {s e t w} (st : Step s e t) (hlt : s.currPid < NUM_PROCESSES)
    (hw : w ≠ s.currPid) (hr : (s.processes w).state = .runnable) : t.regs w = s.regs w := by
  cases st with
  | dispatch _ _ => rfl
  | @fork regs dir _ =>
    rcases syscallFork_cases dir (saveRegs regs s) with e | ⟨id, child, r, e, _, hf, _⟩
    · rw [e]; simp [saveRegs, hw]
    · simp only [saveRegs, setRegs_state] at hf
      have hwi : w ≠ id := by rintro rfl; rw [hf] at hr; cases hr
      rw [e]; simp [saveRegs, hw, SchedulerState.regs, setRegs, hwi]
  | @exit regs _ =>
    obtain ⟨l, st⟩ := syscallExit_settles (saveRegs regs s) hlt
    refine (st.settled.regs w fun c hm => ?_).trans (by simp [saveRegs, hw])
    have := (st.settled.waiter w c hm).1
    simp [saveRegs, hw, hr] at this
  | @wait regs _ =>
    rcases syscallWait_cases (saveRegs regs s) with ⟨c, _, _, hc, _, e⟩ | ⟨_, e | e⟩ <;> rw [e]
    · rw [resolveExitWait_regs hc]
      simp [saveRegs, hw]
    · simp [saveRegs, hw]
    · simp [saveRegs, hw]

/-- The exit/wait protocol, over every run from the installed table: no process waits while a slot
that has it as its parent is a zombie; the ledger lists exactly the zombies; and a wait that returns
`eax = 1`, `ebx = c`, `ecx = v` was issued by `c`'s parent at that moment (init, if the parent is
just exiting), for a zombie `c` (or the process just exiting), returns the value entered in the
ledger by `c`'s last exit and not struck off since, leaves slot `c` free, and is the only one to
return `c`. -/
theorem exitWait_protocol {u d0 d1 e0 e1 es s L}
    (r : Run LedgerStep (schedulerInstall u d0 d1 e0 e1, fun _ => none) es (s, L)) :
    (∀ p c, c < NUM_PROCESSES → (s.processes p).state = .waiting →
      (s.processes c).parentId = p → (s.processes c).state ≠ .zombie) ∧
    (∀ c, (L c).isSome ↔ (s.processes c).state = .zombie) ∧
    (∀ e t w, Step s e t → w ≠ s.currPid → (s.processes w).state = .runnable →
      t.regs w = s.regs w) ∧
    ∀ e t w c v, Step s e t → Completed s e t w c v →
      ((s.processes c).parentId = w ∨
        w = 1 ∧ (∃ regs, e = .exit regs) ∧ (s.processes c).parentId = s.currPid) ∧
      ((s.processes c).state = .zombie ∨ (∃ regs, e = .exit regs) ∧ c = s.currPid) ∧
      L.charge s e c = some v ∧
      (t.processes c).state = .free ∧
      ∀ w' v', Completed s e t w' c v' → w' = w := by
  classical
  have h : Protocol (s, L) :=
    r.invariant (fun _ _ _ h st => st.protocol h) (schedulerInstall_protocol u d0 d1 e0 e1)
  refine ⟨fun p c hc => h.wakeup p c hc (by simp), fun c => ?_,
    fun e t w st => st.regs_of_runnable h.currPid, fun e t w c v st hcv => ?_⟩
  · have hl : L c = _ := h.ledger c
    by_cases hz : (s.processes c).state = .zombie <;> simp [hl, hz]
  · obtain ⟨l, hr⟩ := st.reported h.currPid
    obtain ⟨hm, hv⟩ := (hr.completed w c v).mp hcv
    obtain ⟨ho, hfree, hp⟩ := hr.child w c hm
    refine ⟨hp, ho, ?_, hfree, fun w' v' hcv' => ?_⟩
    · rw [h.charge e c, if_pos ho, hv]
    · exact hr.unique w w' c hm ((hr.completed w' c v').mp hcv').1

/-- A ledger can be kept along every run of the table. -/
lemma exists_ledger {s es t} (r : Run Step s es t) (L : Ledger) :
    ∃ L', Run LedgerStep (s, L) es (t, L') := by
  classical
  induction r with
  | nil => exact ⟨L, .nil⟩
  | @snoc es t e u _ st ih =>
    obtain ⟨L', r⟩ := ih
    refine ⟨fun c => if ∃ w v, Completed t e u w c v then none else L'.charge t e c, r.snoc ?_⟩
    exact ⟨st, fun c hc => if_pos hc, fun c hc => if_neg hc⟩

/-- Registers at a trap with the given `eax` and `ebx`. -/
def sampleRegs (eax ebx : BitVec 32) : Regs :=
  { zeroProcess.context.regs with eax := eax, ebx := ebx }

/-- An installed table. -/
def sampleInstall : SchedulerState :=
  schedulerInstall ⟨0x1B, 0x23, 0x2B, 0xFFFEFFFC⟩ ⟨0x400000, 0x300000, 0x301000⟩
    ⟨0x410000, 0x300000, 0x301000⟩ 0xFFFF0000 0xFFFF0000

/-- Init has forked process 2 with priority 3. -/
def sampleFork : SchedulerState :=
  syscallFork 0x420000 (saveRegs (sampleRegs 1 3) sampleInstall)

/-- Process 2 has exited with 42. -/
def sampleExit : SchedulerState :=
  syscallExit (saveRegs (sampleRegs 0 42) { sampleFork with currPid := 2 })

/-- Init has waited. -/
def sampleWait : SchedulerState :=
  syscallWait (saveRegs (sampleRegs 2 0) { sampleExit with currPid := 1 })

/-- The wait of init returns process 2 and 42, and slot 2 is free. -/
theorem exitWait_protocol_sample :
    Completed { sampleExit with currPid := 1 } (.wait (sampleRegs 2 0)) sampleWait 1 2 42 ∧
      (sampleWait.processes 2).state = .free := by
  have run : Run Step sampleInstall _ { sampleExit with currPid := 1 } :=
    (((Run.single (.fork (by decide))).snoc (.dispatch (by decide) (by decide))).snoc
      (.exit (by decide))).snoc (.dispatch (by decide) (by decide +kernel))
  have last : Step { sampleExit with currPid := 1 } (.wait (sampleRegs 2 0)) sampleWait :=
    .wait (by decide +kernel)
  have done : Completed { sampleExit with currPid := 1 } (.wait (sampleRegs 2 0)) sampleWait 1 2 42 :=
    ⟨.inr ⟨⟨_, rfl⟩, rfl⟩, by decide, by decide +kernel, by decide +kernel, by decide +kernel,
      by decide +kernel⟩
  obtain ⟨L, r⟩ := exists_ledger run fun _ => none
  exact ⟨done, ((exitWait_protocol r).2.2.2 _ _ _ _ _ last done).2.2.2.1⟩

end MarioBrOS.Scheduler
