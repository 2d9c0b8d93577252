import MarioBrOS.Lib.Forest
import MarioBrOS.Scheduler.ExitWait

/-!
# Killing a family

`kill_family` goes down from a process to all slots that name it as their parent, whatever their
state, and then reports the exit of each slot to its parent. A slot that is free still names the
parent of its last process, so the registers and the directory of that process are freed once more.

The parent links below a process that was started by `run_program` are a tree: it is a child of
init, which is its own parent. `killFamily_frees` says for which tables the right slots are freed.
-/

namespace MarioBrOS.Scheduler

open SchedulerState

/-- The loop of `kill_family` over the slots, where `kill` is its call of itself. -/
def killChildren (kill : Nat → SchedulerState → Option (List Nat × SchedulerState)) (parent : Nat) :
    List Nat → SchedulerState → Option (List Nat × SchedulerState)
  | [], s => some ([], s)
  | child :: ids, s =>
    -- whatever the state of the slot is
    if (s.processes child).parentId = parent then do
      let (freed, s) ← kill child s
      let (freed', s) ← killChildren kill parent ids s
      some (freed ++ freed', s)
    else
      killChildren kill parent ids s

/-- `syscall.c`, `kill_family`: the slots whose registers and directory are freed, and the table. -/
def killFamily : Nat → Nat → SchedulerState → Option (List Nat × SchedulerState)
  | 0, _, _ => none
  | fuel + 1, parent, s => do
    let (freed, s) ← killChildren (killFamily fuel) parent (List.range NUM_PROCESSES) s
    some (freed ++ [parent], resolveExitWait (s.processes parent).parentId parent s)

/-- A process and its descendants, in slots that are not free. -/
inductive LiveFamily (s : SchedulerState) (p : Nat) : Nat → Prop where
  | self : LiveFamily s p p
  | child {q c} :
    LiveFamily s p q →
    (s.processes c).parentId = q →
    c < NUM_PROCESSES →
    (s.processes c).state ≠ .free →
    LiveFamily s p c

/-- The slots that lead to a process by their parents, free or not. -/
abbrev Family (s : SchedulerState) (p : Nat) : Nat → Prop :=
  Desc (fun c => (s.processes c).parentId) (List.range NUM_PROCESSES) p

/-- What killing the family of `p` should do: it ends, the family is freed, each slot once, and the
slots that are free are left alone. -/
def KillRight (s : SchedulerState) (p : Nat) : Prop :=
  ∃ freed t, (∀ fuel, NUM_PROCESSES < fuel → killFamily fuel p s = some (freed, t)) ∧ freed.Nodup ∧
    (∀ c, c ∈ freed ↔ LiveFamily s p c) ∧
    ∀ c, (s.processes c).state = .free → t.processes c = s.processes c

variable {s t : SchedulerState} {p x w c n k : Nat} {par : Nat → Nat}

/-! ## The recursion -/

/-- The table after the slots of a list have been freed. -/
def reap (par : Nat → Nat) (freed : List Nat) (s : SchedulerState) : SchedulerState :=
  freed.foldl (fun s c => resolveExitWait (par c) c s) s

lemma reap_append (l l' : List Nat) : reap par (l ++ l') s = reap par l' (reap par l s) :=
  List.foldl_append

lemma reap_parentId (l : List Nat) (s : SchedulerState) (i : Nat) :
    ((reap par l s).processes i).parentId = (s.processes i).parentId := by
  induction l generalizing s with
  | nil => rfl
  | cons c l ih => exact (ih _).trans (resolveExitWait_parentId ..)

/-- Slots that are not freed, and are no parents of those that are. -/
lemma reap_processes {l : List Nat} {i : Nat} (h : ∀ c ∈ l, i ≠ c ∧ i ≠ par c)
    (s : SchedulerState) : (reap par l s).processes i = s.processes i := by
  induction l generalizing s with
  | nil => rfl
  | cons c l ih =>
    obtain ⟨hc, hp⟩ := h c List.mem_cons_self
    refine (ih (fun c' h' => h c' (List.mem_cons_of_mem _ h')) _).trans ?_
    simp [resolveExitWait, setState, setRegs, setQueue, removeRunPid, setProc, hc, hp]

/-- The loop, when the calls free what a visit passes. -/
lemma killChildren_eq {kill : Nat → SchedulerState → Option (List Nat × SchedulerState)}
    {visit : Nat → List Nat} {ids : List Nat} (hpar : ∀ i, (s.processes i).parentId = par i)
    (hkill : ∀ c ∈ ids, par c = x → ∀ s, (∀ i, (s.processes i).parentId = par i) →
      kill c s = some (visit c, reap par (visit c) s)) :
    killChildren kill x ids s = some ((ids.filter fun c => par c = x).flatMap visit,
      reap par ((ids.filter fun c => par c = x).flatMap visit) s) := by
  induction ids generalizing s with
  | nil => rfl
  | cons c ids ih =>
    have hrest : ∀ c' ∈ ids, par c' = x → ∀ s, (∀ i, (s.processes i).parentId = par i) →
        kill c' s = some (visit c', reap par (visit c') s) :=
      fun c' h => hkill c' (List.mem_cons_of_mem _ h)
    rw [killChildren, hpar]
    by_cases e : par c = x
    · have hs : ∀ i, ((reap par (visit c) s).processes i).parentId = par i := fun i =>
        (reap_parentId _ s i).trans (hpar i)
      have hfilter : ((c :: ids).filter fun c => par c = x) = c :: ids.filter fun c => par c = x :=
        List.filter_cons_of_pos (by simpa using e)
      rw [if_pos e, hkill c List.mem_cons_self e s hpar, hfilter, List.flatMap_cons, reap_append]
      dsimp only [Option.bind_eq_bind, Option.bind_some]
      rw [ih hs hrest]
      rfl
    · rw [if_neg e, List.filter_cons_of_neg (by simpa using e)]
      exact ih hpar hrest

/-- With fuel for all depths, `kill_family` frees what a visit of the family passes. -/
lemma killFamily_eq {r B : Nat} (hpar : ∀ i, (s.processes i).parentId = par i) (hr : par r = r)
    (hx : Depth par r x k) (hk : 0 < k)
    (hB : ∀ y j, Desc par (List.range NUM_PROCESSES) x y → Depth par r y j → j ≤ B)
    (hn : B < n + k) :
    killFamily n x s = some (visit par (List.range NUM_PROCESSES) n x,
      reap par (visit par (List.range NUM_PROCESSES) n x) s) := by
  induction n generalizing x k s with
  | zero =>
    have := hB x k .self hx
    omega
  | succ n ih =>
    have hkill : ∀ c ∈ List.range NUM_PROCESSES, par c = x → ∀ s,
        (∀ i, (s.processes i).parentId = par i) → killFamily n c s =
          some (visit par (List.range NUM_PROCESSES) n c,
            reap par (visit par (List.range NUM_PROCESSES) n c) s) := fun c hc e s hs =>
      ih hs (hx.of_child hr hk e) (by omega) (fun y j d => hB y j (d.head e hc)) (by omega)
    have hloop := killChildren_eq hpar hkill
    rw [killFamily, hloop, visit, reap_append]
    dsimp only [Option.bind_eq_bind, Option.bind_some]
    rw [(reap_parentId _ s x).trans (hpar x)]
    rfl

/-! ## The table -/

/-- Init is its own parent and its slot is in use, as are those of the processes that the shell
started, which are children of init. -/
structure Rooted (s : SchedulerState) : Prop where
  init : (s.processes 1).parentId = 1
  alive : (s.processes 1).state ≠ .free
  nodup : s.runPid.Nodup
  run : ∀ p ∈ s.runPid, p < NUM_PROCESSES ∧ p ≠ 1 ∧ (s.processes p).parentId = 1 ∧
    (s.processes p).state ≠ .free

/-- What changes neither `run_pid` nor a parent, and frees no slot. -/
lemma Rooted.congr (h : Rooted s) (hr : t.runPid = s.runPid)
    (hp : ∀ i, (s.processes i).state ≠ .free →
      (t.processes i).state ≠ .free ∧ ((t.processes i).parentId = (s.processes i).parentId ∨
        (t.processes i).parentId = 1)) : Rooted t := by
  obtain ⟨halive, hparent⟩ := hp 1 h.alive
  refine ⟨?_, halive, hr ▸ h.nodup, fun p hm => ?_⟩
  · obtain e | e := hparent
    · exact e.trans h.init
    · exact e
  · rw [hr] at hm
    obtain ⟨hlt, hne, hparent, hstate⟩ := h.run p hm
    obtain ⟨h1, h2⟩ := hp p hstate
    refine ⟨hlt, hne, ?_, h1⟩
    obtain e | e := h2
    · exact e.trans hparent
    · exact e

/-- The exit of `c` is reported to `w`. -/
lemma Rooted.resolve (h : Rooted s) (hc : c = 1 → w = 1) : Rooted (resolveExitWait w c s) := by
  have hrun : (resolveExitWait w c s).runPid = s.runPid.erase c := rfl
  refine ⟨?_, ?_, hrun ▸ h.nodup.erase c, fun p hm => ?_⟩
  · rw [resolveExitWait_parentId]
    exact h.init
  · rw [resolveExitWait_state]
    split_ifs with h1 h2
    · decide
    · exact absurd (hc h2.symm).symm h1
    · exact h.alive
  · rw [hrun, h.nodup.mem_erase_iff] at hm
    obtain ⟨hlt, hne, hparent, hstate⟩ := h.run p hm.2
    rw [resolveExitWait_parentId, resolveExitWait_state, if_neg hm.1]
    refine ⟨hlt, hne, hparent, ?_⟩
    split_ifs
    · decide
    · exact hstate

lemma Rooted.reap {freed : List Nat} (h : Rooted s) (hl : ∀ c ∈ freed, c = 1 → par c = 1) :
    Rooted (reap par freed s) := by
  induction freed generalizing s with
  | nil => exact h
  | cons c l ih =>
    exact ih (h.resolve (hl c List.mem_cons_self)) fun c' h' => hl c' (List.mem_cons_of_mem _ h')

lemma Rooted.install (u : UserLayout) (d0 d1 : PageDirResult) (e0 e1 : BitVec 32) :
    Rooted (schedulerInstall u d0 d1 e0 e1) := by
  refine ⟨rfl, nofun, List.nodup_nil, nofun⟩

/-- The registers of a slot are no part of it. -/
lemma Rooted.setRegs {i : Nat} {regs : Regs} (h : Rooted s) : Rooted (s.setRegs i regs) :=
  h.congr rfl fun j hj => ⟨by rwa [setRegs_state], .inl (setRegs_parentId ..)⟩

lemma Rooted.setState {i : Nat} {st : ProcessState} (h : Rooted s) (hst : st ≠ .free) :
    Rooted (s.setState i st) := by
  refine h.congr rfl fun j hj => ⟨?_, .inl (setState_parentId ..)⟩
  rw [setState_state]
  split_ifs
  · exact hst
  · exact hj

/-- A free slot is taken. -/
lemma Rooted.setProc {i : Nat} {q : Process} (h : Rooted s) (hi : (s.processes i).state = .free) :
    Rooted (s.setProc i q) := by
  refine h.congr rfl fun j hj => ?_
  have hne : j ≠ i := by
    rintro rfl
    exact hj hi
  rw [setProc_processes, Function.update_of_ne hne]
  exact ⟨hj, .inl rfl⟩

lemma Rooted.fork {dir : Nat} (h : Rooted s) : Rooted (syscallFork dir s) := by
  unfold syscallFork
  dsimp only
  split_ifs with hc
  · exact h.setRegs
  · have hfree := (freeSlot_free fun e => hc (.inl e)).1
    exact Rooted.setRegs ((h.setProc hfree).congr rfl fun j hj => ⟨hj, .inl rfl⟩)

lemma Rooted.runProgram {u : UserLayout} {dir : PageDirResult} {entry : Option (BitVec 32)}
    (h : Rooted s) : Rooted (runProgram u dir entry s) := by
  unfold Scheduler.runProgram
  dsimp only
  split_ifs with hc
  · exact h
  · obtain ⟨hfree, hlt⟩ := freeSlot_free hc
    cases entry with
    | none => exact h.setProc hfree
    | some e =>
      have hrest := h.setProc (q := (newProcess u 1 1 dir).loaded e) hfree
      have hnot : freeSlot s.processes ∉ s.runPid := fun hm => (h.run _ hm).2.2.2 hfree
      have hself : (s.setProc (freeSlot s.processes) ((newProcess u 1 1 dir).loaded e)).processes
          (freeSlot s.processes) = (newProcess u 1 1 dir).loaded e := Function.update_self ..
      refine ⟨hrest.init, hrest.alive, List.nodup_cons.mpr ⟨hnot, h.nodup⟩, fun p hm => ?_⟩
      obtain rfl | hm := List.mem_cons.mp hm
      · refine ⟨hlt, fun e1 => h.alive (e1 ▸ hfree), ?_, ?_⟩
        · exact congrArg Process.parentId hself
        · refine (congrArg Process.state hself).trans_ne ?_
          exact nofun
      · exact hrest.run p hm

lemma Rooted.exitChild {id i : Nat} (h : Rooted s) : Rooted (exitChild id s i) := by
  have hset : Rooted (s.setParent i 1) := by
    refine h.congr rfl fun j hj => ⟨by rwa [setParent_state], ?_⟩
    rw [setParent_parentId]
    split_ifs
    · exact .inr rfl
    · exact .inl rfl
  unfold Scheduler.exitChild
  dsimp only
  split_ifs
  · exact hset.resolve fun _ => rfl
  · exact hset
  · exact h

lemma Rooted.exit (h : Rooted s) : Rooted (syscallExit s) := by
  have hloop : ∀ (l : List Nat) (id : Nat) (s : SchedulerState), Rooted s →
      Rooted (l.foldl (Scheduler.exitChild id) s) := by
    intro l id
    induction l with
    | nil => exact fun s h => h
    | cons i l ih => exact fun s h => ih _ h.exitChild
  have hzombie : Rooted (s.setState s.currPid .zombie) := h.setState (by decide)
  have h' := hloop (List.range NUM_PROCESSES) s.currPid _ hzombie
  unfold syscallExit
  dsimp only
  generalize (List.range NUM_PROCESSES).foldl (Scheduler.exitChild s.currPid)
    (s.setState s.currPid .zombie) = t at h' ⊢
  split_ifs
  · refine h'.resolve fun e => ?_
    rw [e]
    exact h'.init
  · exact h'

lemma Rooted.wait (h : Rooted s) : Rooted (syscallWait s) := by
  have h' : Rooted (s.setState s.currPid .waiting) := h.setState (by decide)
  obtain ⟨c, _, hp, _, _, e⟩ | ⟨_, e | e⟩ := syscallWait_cases s
  · rw [e]
    refine h'.resolve ?_
    rintro rfl
    exact hp.symm.trans h.init
  · rw [e]
    exact h'
  · rw [e]
    exact h'.setRegs.setState (by decide)

/-! ## The system -/

/-- What happens to the table: a process is dispatched, makes a system call, or the shell starts or
kills one. -/
inductive KillEvent where
  | dispatch (pid : Nat)
  | fork (regs : Regs) (dir : Nat)
  | exit (regs : Regs)
  | wait (regs : Regs)
  | run (u : UserLayout) (dir : PageDirResult) (entry : Option (BitVec 32))
  | kill (pid : Nat)

/-- One event. `kill` is the interrupt of the shell (`keyboard.c`, `keyboard_handler`), which pops
the process off `run_pid`. -/
inductive KillStep : SchedulerState → KillEvent → SchedulerState → Prop where
  | dispatch {s pid} : KillStep s (.dispatch pid) { s with currPid := pid }
  | fork {s regs dir} : KillStep s (.fork regs dir) (syscallFork dir (saveRegs regs s))
  | exit {s regs} : KillStep s (.exit regs) (syscallExit (saveRegs regs s))
  | wait {s regs} : KillStep s (.wait regs) (syscallWait (saveRegs regs s))
  | run {s u dir entry} : KillStep s (.run u dir entry) (runProgram u dir entry s)
  | kill {s t pid rest fuel freed} :
    s.runPid = pid :: rest →
    killFamily fuel pid { s with runPid := rest } = some (freed, t) →
    KillStep s (.kill pid) t

/-- The depth of a process that the shell started. -/
lemma Rooted.depth (h : Rooted s) (hp : p ∈ s.runPid) :
    Depth (fun c => (s.processes c).parentId) 1 p 1 := by
  obtain ⟨_, hne, hparent, _⟩ := h.run p hp
  exact .child .root hparent hne

/-- The nodes of the family are not deeper than there are slots. -/
lemma Rooted.depth_le (h : Rooted s) (hp : p ∈ s.runPid) :
    ∀ y j, Family s p y → Depth (fun c => (s.processes c).parentId) 1 y j → j ≤ NUM_PROCESSES := by
  intro y j d hy
  have hmem : p ∈ List.range NUM_PROCESSES := List.mem_range.mpr (h.run p hp).1
  have := d.depth_le hmem (h.depth hp) hy
  rwa [List.length_range] at this

lemma killChildren_rooted {kill : Nat → SchedulerState → Option (List Nat × SchedulerState)}
    {ids freed : List Nat} (hkill : ∀ c s freed t, Rooted s → kill c s = some (freed, t) → Rooted t)
    (h : Rooted s) (e : killChildren kill x ids s = some (freed, t)) : Rooted t := by
  induction ids generalizing s freed with
  | nil =>
    cases e
    exact h
  | cons c ids ih =>
    rw [killChildren] at e
    split_ifs at e
    · obtain ⟨⟨freed', u⟩, e1, e⟩ := Option.bind_eq_some_iff.mp e
      obtain ⟨⟨freed'', v⟩, e2, e⟩ := Option.bind_eq_some_iff.mp e
      cases e
      exact ih (hkill c s freed' u h e1) e2
    · exact ih h e

lemma killFamily_rooted {freed : List Nat} (h : Rooted s)
    (e : killFamily n x s = some (freed, t)) : Rooted t := by
  induction n generalizing x s freed t with
  | zero => cases e
  | succ n ih =>
    rw [killFamily] at e
    obtain ⟨⟨freed', u⟩, e1, e⟩ := Option.bind_eq_some_iff.mp e
    cases e
    have hu : Rooted u := killChildren_rooted (fun c s freed t hs he => ih hs he) h e1
    refine hu.resolve ?_
    rintro rfl
    exact hu.init

lemma KillStep.rooted {e : KillEvent} (st : KillStep s e t) (h : Rooted s) : Rooted t := by
  cases st with
  | dispatch => exact h.congr rfl fun i hi => ⟨hi, .inl rfl⟩
  | fork => exact h.setRegs.fork
  | exit => exact h.setRegs.exit
  | wait => exact h.setRegs.wait
  | run => exact h.runProgram
  | @kill _ pid rest _ _ hrun e =>
    have hpop : Rooted { s with runPid := rest } := by
      refine ⟨h.init, h.alive, ?_, fun p hm => h.run p ?_⟩
      · have := h.nodup
        rw [hrun] at this
        exact this.of_cons
      · rw [hrun]
        exact List.mem_cons_of_mem _ hm
    exact killFamily_rooted hpop e

/-- The slots that `kill_family` frees, children first. -/
def killed (s : SchedulerState) (p : Nat) : List Nat :=
  visit (fun c => (s.processes c).parentId) (List.range NUM_PROCESSES) NUM_PROCESSES p

lemma Rooted.mem_killed (h : Rooted s) (hp : p ∈ s.runPid) : c ∈ killed s p ↔ Family s p c :=
  mem_visit h.init (h.depth hp) Nat.one_pos (h.depth_le hp) (Nat.lt_succ_self _)

lemma Rooted.nodup_killed (h : Rooted s) (hp : p ∈ s.runPid) : (killed s p).Nodup :=
  nodup_visit List.nodup_range h.init (h.depth hp) Nat.one_pos (h.depth_le hp)
    (Nat.lt_succ_self _)

/-- `kill_family` ends, for a process that the shell started. -/
lemma Rooted.killFamily_killed (h : Rooted s) (hp : p ∈ s.runPid) (rest : List Nat)
    (hn : NUM_PROCESSES < n) : killFamily n p { s with runPid := rest } =
      some (killed s p, Scheduler.reap (fun c => (s.processes c).parentId) (killed s p)
        { s with runPid := rest }) := by
  have hn' : NUM_PROCESSES < n + 1 := by omega
  unfold killed
  rw [visit_fuel (m := n) h.init (h.depth hp) Nat.one_pos (h.depth_le hp) (Nat.lt_succ_self _) hn']
  exact killFamily_eq (fun _ => rfl) h.init (h.depth hp) Nat.one_pos (h.depth_le hp) (by omega)

/-- The members of the family that are in use, if all are. -/
lemma liveFamily_iff (h : ∀ c, Family s p c → (s.processes c).state ≠ .free) :
    LiveFamily s p c ↔ Family s p c := by
  constructor
  · intro d
    induction d with
    | self => exact .self
    | child _ e hlt _ ih => exact .child ih e (List.mem_range.mpr hlt)
  · intro d
    induction d with
    | self => exact .self
    | child d e hm ih => exact .child ih e (List.mem_range.mp hm) (h _ (.child d e hm))

/-- Killing a process that the shell started frees its family, each slot once, and leaves the free
slots alone, if and only if no slot of the family is free already. -/
theorem killFamily_frees {u d0 d1 e0 e1 es}
    (r : Run KillStep (schedulerInstall u d0 d1 e0 e1) es s) (hp : p ∈ s.runPid) (rest : List Nat) :
    KillRight { s with runPid := rest } p ↔ ∀ c, Family s p c → (s.processes c).state ≠ .free := by
  have h : Rooted s :=
    r.invariant (fun _ _ _ h st => st.rooted h) (Rooted.install u d0 d1 e0 e1)
  have hmem : ∀ c, c ∈ killed s p ↔ Family s p c := fun c => h.mem_killed hp
  constructor
  · rintro ⟨freed, t, e, _, hfreed, _⟩ c hc
    have hvisit : killed s p = freed :=
      congrArg Prod.fst (Option.some.inj
        ((h.killFamily_killed hp rest (Nat.lt_succ_self _)).symm.trans (e _ (Nat.lt_succ_self _))))
    have hlive : LiveFamily { s with runPid := rest } p c := by
      rw [← hfreed, ← hvisit]
      exact (hmem c).mpr hc
    cases hlive with
    | self => exact (h.run p hp).2.2.2
    | child _ _ _ hs => exact hs
  · intro hall
    have hfam : ∀ c, LiveFamily { s with runPid := rest } p c ↔ Family s p c := fun c =>
      liveFamily_iff (s := { s with runPid := rest }) hall
    refine ⟨_, _, fun n hn => h.killFamily_killed hp rest hn, h.nodup_killed hp,
      fun c => (hmem c).trans (hfam c).symm, fun c hc => ?_⟩
    refine reap_processes (fun i hi => ?_) _
    have hfree : ∀ j, Family s p j → c ≠ j := by
      rintro j hj rfl
      exact hall c hj hc
    have hi := (hmem i).mp hi
    refine ⟨hfree i hi, ?_⟩
    -- the parent of a member is a member, or init
    cases hi with
    | self =>
      rw [(h.run p hp).2.2.1]
      rintro rfl
      exact h.alive hc
    | child hq e _ =>
      rw [e]
      exact hfree _ hq

/-! ## A process of the shell -/

/-- The shell has started process 2. -/
def sampleStarted : SchedulerState :=
  runProgram ⟨0x1B, 0x23, 0x2B, 0xFFFEFFFC⟩ ⟨0x420000, 0x300000, 0x301000⟩ (some 0xFFFF0000)
    sampleInstall

/-- Process 2 has forked process 3, -/
def sampleParent : SchedulerState :=
  syscallFork 0x430000 (saveRegs (sampleRegs 1 1) { sampleStarted with currPid := 2 })

/-- which has exited, -/
def sampleOrphan : SchedulerState :=
  syscallExit (saveRegs (sampleRegs 0 7) { sampleParent with currPid := 3 })

/-- and process 2 has waited for it. -/
def sampleWaited : SchedulerState :=
  syscallWait (saveRegs (sampleRegs 2 0) { sampleOrphan with currPid := 2 })

lemma sampleParent_run : ∃ es, Run KillStep sampleInstall es sampleParent := by
  have started : Run KillStep sampleInstall _ sampleStarted := .single .run
  have dispatched : Run KillStep sampleInstall _ { sampleStarted with currPid := 2 } :=
    started.snoc .dispatch
  exact ⟨_, dispatched.snoc .fork⟩

/-- While process 3 lives, the two are killed together. -/
theorem killFamily_frees_child : KillRight { sampleParent with runPid := [] } 2 := by
  obtain ⟨_, run⟩ := sampleParent_run
  refine (killFamily_frees run (by decide +kernel) []).mpr fun c hc => ?_
  have hchild : ∀ c ∈ List.range NUM_PROCESSES, (sampleParent.processes c).parentId = 2 → c = 3 := by
    decide +kernel
  have hnone : ∀ c ∈ List.range NUM_PROCESSES, (sampleParent.processes c).parentId ≠ 3 := by
    decide +kernel
  have hc : c = 2 ∨ c = 3 := by
    induction hc with
    | self => exact .inl rfl
    | child _ e hm ih =>
      cases ih with
      | inl h2 => exact .inr (hchild _ hm (e.trans h2))
      | inr h3 => exact absurd (e.trans h3) (hnone _ hm)
  cases hc with
  | inl h2 => exact h2 ▸ by decide +kernel
  | inr h3 => exact h3 ▸ by decide +kernel

/-- Slot 3 still names process 2: its registers and directory are freed again. -/
theorem killFamily_frees_twice : (∃ es, Run KillStep sampleInstall es sampleWaited) ∧
    2 ∈ sampleWaited.runPid ∧ ¬ KillRight { sampleWaited with runPid := [] } 2 := by
  obtain ⟨_, forked⟩ := sampleParent_run
  have child : Run KillStep sampleInstall _ { sampleParent with currPid := 3 } :=
    forked.snoc .dispatch
  have exited : Run KillStep sampleInstall _ sampleOrphan := child.snoc .exit
  have back : Run KillStep sampleInstall _ { sampleOrphan with currPid := 2 } :=
    exited.snoc .dispatch
  have waited : Run KillStep sampleInstall _ sampleWaited := back.snoc .wait
  refine ⟨⟨_, waited⟩, by decide +kernel, ?_⟩
  rintro ⟨freed, t, e, _, hfreed, _⟩
  have hrun : (killFamily 129 2 { sampleWaited with runPid := [] }).map Prod.fst = some [3, 2] := by
    decide +kernel
  rw [e 129 (by decide)] at hrun
  have hlist : freed = [3, 2] := Option.some.inj hrun
  have hfree : (({ sampleWaited with runPid := [] } : SchedulerState).processes 3).state =
      .free := by decide +kernel
  have hlive := (hfreed 3).mp (hlist ▸ List.mem_cons_self)
  cases hlive with
  | child _ _ _ hs => exact hs hfree

end MarioBrOS.Scheduler
