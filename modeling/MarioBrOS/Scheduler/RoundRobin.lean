import MarioBrOS.Scheduler.Queue
import MarioBrOS.Scheduler.Runqueue
import Mathlib.Data.List.Rotate
import Mathlib.Order.Interval.Finset.Nat

/-!
# Round robin

`select_new_process` on the queues of the heap: it allocates a temporary queue, drains a runqueue
into it until a runnable pid has come by, and puts the pids back. `selectNewProcess_represents` is
the refinement: over any heap it computes the selection on lists, and the live blocks it leaves are
the cells and nodes of the runqueues and what was there besides.

On the lists a selection is one step of a rotation (`TopLevel.select`), and as many selections as
the level has runnable pids go once around (`TopLevel.rounds`).
-/

namespace MarioBrOS.Scheduler

open SchedulerState

variable {μ : Type} {A : Allocator μ}

/-- The scheduler state with its queues in the heap: `runqueues` are the cells. -/
structure QueueScheduler (μ : Type) where
  heap : QueueHeap μ
  currPid : Nat
  processes : Nat → Process
  runqueues : Int → Nat

/-- The inner loop of `select_new_process`: takes pids from `q` to `temp` until `found`. -/
def drainLoop (A : Allocator μ) (procs : Nat → Process) (q temp : Nat) :
    Nat → QueueHeap μ → Option (Option Nat × QueueHeap μ)
  | 0, _ => none
  | fuel + 1, h =>
    if isEmptyQueue h q then
      some (none, h)
    else
      let (pid, h) := dequeue A h q
      (enqueue A h temp pid).bind fun h =>
      if (procs pid).state = .runnable then
        some (some pid, h)
      else
        drainLoop A procs q temp fuel h

/-- The loop of `select_new_process` that restores the runqueue. -/
def restoreLoop (A : Allocator μ) (q temp : Nat) : Nat → QueueHeap μ → Option (QueueHeap μ)
  | 0, _ => none
  | fuel + 1, h =>
    if isEmptyQueue h temp then
      some h
    else
      let (pid, h) := dequeue A h temp
      (enqueue A h q pid).bind (restoreLoop A q temp fuel)

/-- The outer loop of `select_new_process` over the levels below `n`, from the strongest down. -/
def levelLoop (A : Allocator μ) (temp fuel : Nat) :
    Nat → QueueScheduler μ → Option (QueueScheduler μ)
  | 0, c => some c
  | prio + 1, c => do
    let (found, h) ← drainLoop A c.processes (c.runqueues prio) temp fuel c.heap
    let h ← restoreLoop A (c.runqueues prio) temp fuel h
    match found with
    | some pid => some { c with heap := h, currPid := pid }
    | none => levelLoop A temp fuel prio { c with heap := h }

/-- `scheduler.c`, `select_new_process`. Each of its loops takes at most `fuel` turns. -/
def QueueScheduler.selectNewProcess (A : Allocator μ) (fuel : Nat) (c : QueueScheduler μ) :
    Option (QueueScheduler μ) := do
  let (temp, h) ← emptyQueue A c.heap
  let c ← levelLoop A temp fuel (MAX_PRIORITY + 1) { c with heap := h }
  some { c with heap := c.heap.memFree A temp }

/-- `m` successive selections, with the pids selected. -/
def QueueScheduler.selections (A : Allocator μ) (fuel : Nat) :
    Nat → QueueScheduler μ → Option (List Nat × QueueScheduler μ)
  | 0, c => some ([], c)
  | m + 1, c => do
    let c ← c.selectNewProcess A fuel
    let (pids, d) ← selections A fuel m c
    some (c.currPid :: pids, d)

/-- Requests for a queue or a node are served as long as there are at most `n` live blocks. -/
def Allocator.Room (A : Allocator μ) (n : Nat) : Prop :=
  ∀ m, (A.live m).card ≤ n → ∀ size ≤ SIZEOF_QUEUE, (A.memAlloc m size).1 ≠ 0

/-! ## The loops on lists -/

section Loops

variable {ι : Type} [DecidableEq ι] {I : Set ι} {i j : ι} {cell : ι → Nat} {vals : ι → List Nat}
  {rest : Finset Nat} {h : QueueHeap μ} {fuel n : Nat}

/-- A value is moved from one queue to another: the request for its new node is made when its old
one has been freed. -/
lemma Holds.move {x : Nat} {xs : List Nat} (hroom : A.Room n) (hcard : (A.live h.mem).card = n + 1)
    (hh : Holds A h I cell vals rest) (hi : i ∈ I) (hj : j ∈ I) (hij : i ≠ j)
    (hv : vals i = x :: xs) :
    (Scheduler.dequeue A h (cell i)).1 = x ∧
      ∃ h', Scheduler.enqueue A (Scheduler.dequeue A h (cell i)).2 (cell j) x = some h' ∧
        Holds A h' I cell
          (Function.update (Function.update vals i xs) j (vals j ++ [x])) rest ∧
        (A.live h'.mem).card = n + 1 := by
  obtain ⟨hx, hd, hless⟩ := hh.dequeue hi hv
  have hle : (A.live (Scheduler.dequeue A h (cell i)).2.mem).card = n := by omega
  obtain ⟨h', e, hq, hmore⟩ := hd.enqueue hj x (hroom _ hle.le _ le_rfl)
  rw [Function.update_of_ne hij.symm] at hq
  exact ⟨hx, h', e, hq, by omega⟩

/-- The inner loop does on the heap what `drain` does on lists. -/
lemma drainLoop_spec (procs : Nat → Process) (hroom : A.Room n)
    (hcard : (A.live h.mem).card = n + 1) (hh : Holds A h I cell vals rest) (hi : i ∈ I) (hj : j ∈ I)
    (hij : i ≠ j) (hf : (vals i).length < fuel) :
    ∃ h', drainLoop A procs (cell i) (cell j) fuel h =
        some ((drain procs (vals i) (vals j)).1, h') ∧
      Holds A h' I cell (Function.update (Function.update vals i (drain procs (vals i) (vals j)).2.1)
        j (drain procs (vals i) (vals j)).2.2) rest ∧
      (A.live h'.mem).card = n + 1 := by
  induction fuel generalizing h vals with
  | zero => simp at hf
  | succ fuel ih =>
    cases hv : vals i with
    | nil =>
      have he : isEmptyQueue h (cell i) = true := (hh.isEmpty hi).mpr hv
      refine ⟨h, by simp [drainLoop, he, drain], ?_, hcard⟩
      refine hh.congr (fun _ _ => rfl) fun k _ => ?_
      by_cases hkj : k = j
      · simp [hkj, drain]
      · by_cases hki : k = i
        · simp [hki, hij, drain, hv]
        · simp [hkj, hki]
    | cons pid q =>
      have he : isEmptyQueue h (cell i) = false := by
        rw [Bool.eq_false_iff, Ne, hh.isEmpty hi, hv]
        simp
      obtain ⟨hpid, h₁, e₁, hq, hcard₁⟩ := hh.move hroom hcard hi hj hij hv
      by_cases hr : (procs pid).state = .runnable
      · refine ⟨h₁, by simp [drainLoop, he, hpid, e₁, drain, hr], ?_, hcard₁⟩
        simpa [drain, hr] using hq
      · obtain ⟨h', e, hh', hcard'⟩ := ih hcard₁ hq (by
          rw [Function.update_of_ne hij, Function.update_self]
          rw [hv, List.length_cons] at hf
          exact Nat.lt_of_succ_lt_succ hf)
        rw [Function.update_of_ne hij, Function.update_self, Function.update_self] at e hh'
        refine ⟨h', by simp [drainLoop, he, hpid, e₁, drain, hr, e], ?_, hcard'⟩
        refine hh'.congr (fun _ _ => rfl) fun k _ => ?_
        by_cases hkj : k = j
        · simp [hkj, drain, hr]
        · by_cases hki : k = i
          · simp [hki, hij, drain, hr]
          · simp [hkj, hki]

/-- The restoring loop appends the temporary queue to the runqueue. -/
lemma restoreLoop_spec (hroom : A.Room n) (hcard : (A.live h.mem).card = n + 1)
    (hh : Holds A h I cell vals rest) (hi : i ∈ I) (hj : j ∈ I) (hij : i ≠ j)
    (hf : (vals j).length < fuel) :
    ∃ h', restoreLoop A (cell i) (cell j) fuel h = some h' ∧
      Holds A h' I cell (Function.update (Function.update vals i (vals i ++ vals j)) j []) rest ∧
      (A.live h'.mem).card = n + 1 := by
  induction fuel generalizing h vals with
  | zero => simp at hf
  | succ fuel ih =>
    cases hv : vals j with
    | nil =>
      have he : isEmptyQueue h (cell j) = true := (hh.isEmpty hj).mpr hv
      refine ⟨h, by simp [restoreLoop, he], ?_, hcard⟩
      refine hh.congr (fun _ _ => rfl) fun k _ => ?_
      by_cases hkj : k = j
      · simp [hkj, hv]
      · simp [hkj]
    | cons pid q =>
      have he : isEmptyQueue h (cell j) = false := by
        rw [Bool.eq_false_iff, Ne, hh.isEmpty hj, hv]
        simp
      obtain ⟨hpid, h₁, e₁, hq, hcard₁⟩ := hh.move hroom hcard hj hi hij.symm hv
      obtain ⟨h', e, hh', hcard'⟩ := ih hcard₁ hq (by
        rw [Function.update_of_ne hij.symm, Function.update_self]
        rw [hv, List.length_cons] at hf
        exact Nat.lt_of_succ_lt_succ hf)
      refine ⟨h', by simp [restoreLoop, he, hpid, e₁, e], ?_, hcard'⟩
      refine hh'.congr (fun _ _ => rfl) fun k _ => ?_
      by_cases hkj : k = j
      · simp [hkj]
      · by_cases hki : k = i
        · simp [hki, hij, hij.symm]
        · simp [hkj, hki]

end Loops

/-! ## Selection on the heap and on lists -/

/-- The queues of the scheduler: the levels and, for `none`, the temporary queue. -/
def QueueScheduler.cells (c : QueueScheduler μ) (temp : Nat) : Option Int → Nat
  | some prio => c.runqueues prio
  | none => temp

/-- Their values. -/
def SchedulerState.queues (s : SchedulerState) (temp : List Nat) : Option Int → List Nat
  | some prio => s.runqueues prio
  | none => temp

/-- The queues that exist between two selections. -/
def levels : Set (Option Int) :=
  {i | ∃ prio : Nat, prio ≤ MAX_PRIORITY ∧ i = some (prio : Int)}

/-- The heap of `c` holds the runqueues of `s`, besides the blocks `rest`, and the two agree on the
table and the current process. -/
structure Represents (A : Allocator μ) (c : QueueScheduler μ) (s : SchedulerState)
    (rest : Finset Nat) : Prop where
  holds : Holds A c.heap levels (c.cells 0) (s.queues []) rest
  currPid : c.currPid = s.currPid
  processes : c.processes = s.processes

/-- `c` during a selection, when the temporary queue `temp` exists and is empty. -/
structure Selecting (A : Allocator μ) (temp : Nat) (c : QueueScheduler μ) (s : SchedulerState)
    (rest : Finset Nat) : Prop where
  holds : Holds A c.heap (insert none levels) (c.cells temp) (s.queues []) rest
  currPid : c.currPid = s.currPid
  processes : c.processes = s.processes

variable {c : QueueScheduler μ} {s : SchedulerState} {rest : Finset Nat} {temp fuel n blocks : Nat}

/-- One level drained and restored. -/
lemma Selecting.level (r : Selecting A temp c s rest) (hroom : A.Room blocks)
    (hcard : (A.live c.heap.mem).card = blocks + 1) {prio : Nat} (hp : prio ≤ MAX_PRIORITY)
    (hf : (s.runqueues prio).length < fuel) :
    ∃ h h', drainLoop A c.processes (c.runqueues prio) temp fuel c.heap =
        some ((drain s.processes (s.runqueues prio) []).1, h) ∧
      restoreLoop A (c.runqueues prio) temp fuel h = some h' ∧
      Holds A h' (insert none levels) (c.cells temp)
        ((s.setQueue prio ((drain s.processes (s.runqueues prio) []).2.1 ++
          (drain s.processes (s.runqueues prio) []).2.2)).queues []) rest ∧
      (A.live h'.mem).card = blocks + 1 := by
  have hi : some (prio : Int) ∈ insert none levels := .inr ⟨prio, hp, rfl⟩
  have hj : none ∈ insert none levels := .inl rfl
  obtain ⟨h, e, hh, hcard₁⟩ := drainLoop_spec c.processes hroom hcard r.holds hi hj (by simp) hf
  rw [r.processes] at e hh
  have hlen : (Function.update (Function.update (s.queues []) (some (prio : Int))
      (drain s.processes (s.runqueues prio) []).2.1) none
      (drain s.processes (s.runqueues prio) []).2.2 none).length < fuel := by
    rw [Function.update_self]
    rcases drain_cases s.processes (s.runqueues prio) [] with ⟨a, pid, b, eq, _, _, e⟩ | ⟨_, e⟩
    · rw [eq] at hf
      rw [e]
      simp at hf ⊢
      omega
    · rw [e]
      simpa using hf
  obtain ⟨h', e', hh', hcard₂⟩ := restoreLoop_spec hroom hcard₁ hh hi hj (by simp) hlen
  refine ⟨h, h', r.processes ▸ e, e', hh'.congr (fun _ _ => rfl) fun k hk => ?_, hcard₂⟩
  cases k with
  | none => simp [SchedulerState.queues]
  | some p =>
    by_cases hpp : p = prio
    · subst hpp
      simp [SchedulerState.queues]
    · simp [SchedulerState.queues, hpp]

/-- The outer loop does on the heap what `selectBelow` does on lists. -/
lemma Selecting.levelLoop (r : Selecting A temp c s rest) (hroom : A.Room blocks)
    (hcard : (A.live c.heap.mem).card = blocks + 1) (hn : n ≤ MAX_PRIORITY + 1)
    (hf : ∀ prio < n, (s.runqueues prio).length < fuel) :
    ∃ d, levelLoop A temp fuel n c = some d ∧ d.runqueues = c.runqueues ∧
      Selecting A temp d (selectBelow s n) rest ∧ (A.live d.heap.mem).card = blocks + 1 := by
  induction n generalizing c s with
  | zero => exact ⟨c, rfl, rfl, r, hcard⟩
  | succ prio ih =>
    obtain ⟨h, h', e, e', hh, hcard'⟩ :=
      r.level hroom hcard (Nat.le_of_succ_le_succ hn) (hf prio (Nat.lt_succ_self _))
    simp only [Scheduler.levelLoop, e, e', Option.bind_eq_bind, Option.bind_some, selectBelow]
    cases hd : drain s.processes (s.runqueues prio) [] with
    | mk found qs =>
      obtain ⟨q, t⟩ := qs
      rw [hd] at hh
      cases found with
      | some pid => exact ⟨_, rfl, rfl, ⟨hh, rfl, r.processes⟩, hcard'⟩
      | none =>
        have r' : Selecting A temp { c with heap := h' } (s.setQueue prio (q ++ t)) rest :=
          ⟨hh, r.currPid, r.processes⟩
        have hne : ∀ j < prio, (j : Int) ≠ prio := fun j hj => by omega
        obtain ⟨d, e, hrq, hs, hcardd⟩ := ih r' hcard' (Nat.le_of_succ_le hn) fun j hj => by
          rw [setQueue_runqueues, Function.update_of_ne (hne j hj)]
          exact hf j (Nat.lt_succ_of_lt hj)
        exact ⟨d, e, hrq, hs, hcardd⟩

/-- `select_new_process` on the heap is the selection on lists. It allocates and frees its temporary
queue: the live blocks are again those of the runqueues and `rest`. -/
theorem selectNewProcess_represents (r : Represents A c s rest)
    (hroom : A.Room (A.live c.heap.mem).card)
    (hf : ∀ prio ≤ MAX_PRIORITY, (s.runqueues prio).length < fuel) :
    ∃ d, c.selectNewProcess A fuel = some d ∧ d.runqueues = c.runqueues ∧
      Represents A d (selectNewProcess s) rest ∧
      (A.live d.heap.mem).card = (A.live c.heap.mem).card := by
  have hnone : none ∉ levels := by rintro ⟨_, _, h⟩; cases h
  obtain ⟨⟨temp, h⟩, etemp⟩ : ∃ r, emptyQueue A c.heap = some r := by
    rw [emptyQueue_eq, if_neg (hroom _ le_rfl _ (by decide))]
    exact ⟨_, rfl⟩
  obtain ⟨hholds, hcard⟩ := r.holds.emptyQueue hnone etemp
  have hs : Selecting A temp { c with heap := h } s rest := by
    refine ⟨hholds.congr (fun i hi => ?_) (fun i hi => ?_), r.currPid, r.processes⟩
    · cases i with
      | none => simp [QueueScheduler.cells]
      | some p => simp [QueueScheduler.cells]
    · cases i with
      | none => simp [SchedulerState.queues]
      | some p => simp [SchedulerState.queues]
  obtain ⟨d, e, hrq, hd, hcardd⟩ := hs.levelLoop hroom hcard le_rfl fun prio hp =>
    hf prio (Nat.le_of_lt_succ hp)
  obtain ⟨hfree, hless⟩ := hd.holds.memFree (i := none) (.inl rfl) rfl
  refine ⟨{ d with heap := d.heap.memFree A temp }, ?_, hrq, ⟨?_, hd.currPid, hd.processes⟩,
    Nat.succ_injective (hless.trans hcardd)⟩
  · simp only [QueueScheduler.selectNewProcess, etemp, e, Option.bind_eq_bind, Option.bind_some]
  · have hI : insert none levels \ {none} = levels := by
      rw [Set.insert_sdiff_of_mem _ (Set.mem_singleton _)]
      exact Set.sdiff_singleton_eq_self hnone
    rw [hI] at hfree
    refine hfree.congr (fun i hi => ?_) fun _ _ => rfl
    obtain ⟨p, _, rfl⟩ := hi
    rfl

/-! ## Rotation -/

/-- A pid the scheduler may select. -/
def SchedulerState.isRunnable (s : SchedulerState) (pid : Nat) : Bool :=
  (s.processes pid).state = .runnable

/-- The strongest level that has a runnable pid. -/
structure TopLevel (s : SchedulerState) (prio : Nat) : Prop where
  le : prio ≤ MAX_PRIORITY
  runnable : ∃ pid ∈ s.runqueues prio, s.isRunnable pid
  above : ∀ j : Nat, j ≤ MAX_PRIORITY → prio < j → ∀ pid ∈ s.runqueues j, ¬ s.isRunnable pid

/-- A selection takes the first runnable pid of the strongest level that has one, and moves it and
the pids before it to the end. -/
lemma TopLevel.select {prio : Nat} (t : TopLevel s prio) :
    ∃ a pid b, s.runqueues prio = a ++ pid :: b ∧ (∀ x ∈ a, ¬ s.isRunnable x) ∧
      s.isRunnable pid ∧
      selectNewProcess s = { s.setQueue prio (b ++ (a ++ [pid])) with currPid := pid } := by
  rcases selectBelow_cases s (MAX_PRIORITY + 1) with ⟨p, hp, a, pid, b, eq, ha, hpid, hj, e⟩ | ⟨hj, _⟩
  · have hpp : p = prio := by
      rcases Nat.lt_trichotomy p prio with hlt | heq | hlt
      · obtain ⟨x, hx, hr⟩ := t.runnable
        exact absurd (by simpa [isRunnable] using hr)
          (hj prio (Nat.lt_succ_of_le t.le) hlt x hx)
      · exact heq
      · exact absurd (by simpa [isRunnable] using hpid)
          (t.above p (Nat.le_of_lt_succ hp) hlt pid (by simp [eq]))
    subst hpp
    exact ⟨a, pid, b, eq, by simpa [isRunnable] using ha, by simpa [isRunnable] using hpid, e⟩
  · obtain ⟨x, hx, hr⟩ := t.runnable
    exact absurd (by simpa [isRunnable] using hr) (hj prio (Nat.lt_succ_of_le t.le) x hx)

/-- The level selected from stays the strongest, and the runnable pids in its queue are rotated by
one. -/
lemma TopLevel.step {prio : Nat} (t : TopLevel s prio) :
    TopLevel (selectNewProcess s) prio ∧
    ∃ l, (s.runqueues prio).filter s.isRunnable = (selectNewProcess s).currPid :: l ∧
      ((selectNewProcess s).runqueues prio).filter (selectNewProcess s).isRunnable =
        l ++ [(selectNewProcess s).currPid] := by
  obtain ⟨a, pid, b, eq, ha, hpid, e⟩ := t.select
  have hrun : (selectNewProcess s).isRunnable = s.isRunnable := by
    rw [e]
    rfl
  have hfa : a.filter s.isRunnable = [] := List.filter_eq_nil_iff.mpr ha
  refine ⟨⟨t.le, ⟨pid, ?_, hrun ▸ hpid⟩, fun j hjm hlt x hx => ?_⟩, b.filter s.isRunnable, ?_, ?_⟩
  · simp [e]
  · have hne : (j : Int) ≠ prio := by omega
    rw [e] at hx
    rw [hrun]
    exact t.above j hjm hlt x (by simpa [hne] using hx)
  · simp [eq, e, hfa, hpid]
  · rw [hrun, e]
    simp [hfa, hpid]

/-- A selection keeps the lengths of the queues. -/
lemma selectNewProcess_length (s : SchedulerState) (p : Int) :
    ((selectNewProcess s).runqueues p).length = (s.runqueues p).length := by
  rcases selectBelow_cases s (MAX_PRIORITY + 1) with ⟨prio, _, a, pid, b, eq, _, _, _, e⟩ | ⟨_, e⟩
  · rw [selectNewProcess, e]
    by_cases hp : p = prio
    · subst hp
      simp [eq]
      omega
    · simp [hp]
  · rw [selectNewProcess, e]

/-- Successive selections take the runnable pids of the strongest level in queue order. The
induction is on the pids that are still to come in this round. -/
lemma TopLevel.rounds {prio : Nat} {l l' : List Nat} (t : TopLevel s prio)
    (hl : (s.runqueues prio).filter s.isRunnable = l ++ l') (r : Represents A c s rest)
    (hroom : A.Room (A.live c.heap.mem).card)
    (hf : ∀ p : Nat, p ≤ MAX_PRIORITY → (s.runqueues p).length < fuel) :
    ∃ d, c.selections A fuel l.length = some (l, d) ∧
      Represents A d (selectNewProcess^[l.length] s) rest := by
  induction l generalizing s c l' with
  | nil => exact ⟨c, rfl, r⟩
  | cons pid l ih =>
    obtain ⟨d, e, _, rd, hcard⟩ := selectNewProcess_represents r hroom hf
    obtain ⟨t', k, hk, hk'⟩ := t.step
    rw [hl, List.cons_append, List.cons.injEq] at hk
    obtain ⟨hpid, rfl⟩ := hk
    rw [List.append_assoc] at hk'
    obtain ⟨d', e', rd'⟩ := ih t' hk' rd (hcard ▸ hroom) fun p hp => by
      rw [selectNewProcess_length]
      exact hf p hp
    refine ⟨d', ?_, rd'⟩
    simp only [QueueScheduler.selections, List.length_cons, e, e', Option.bind_eq_bind,
      Option.bind_some, rd.currPid, hpid]

end MarioBrOS.Scheduler
