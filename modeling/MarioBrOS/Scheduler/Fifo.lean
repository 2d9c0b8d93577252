import MarioBrOS.Lib.Run
import MarioBrOS.Scheduler.Queue

/-!
# Queues are first in, first out

Calls of `empty_queue`, `enqueue` and `dequeue` in any order, on any number of queues. Over such a
run the cells of every queue stay a ring, the queues hold what lists would that are appended to at
the end and taken from at the front, and a cell that `dequeue` takes out is freed once.
-/

namespace MarioBrOS.Scheduler

variable {μ : Type}

/-- The heap and the queues in it. -/
structure QueueState (μ : Type) where
  heap : QueueHeap μ
  queues : Set Nat

/-- A call, with the value that goes in or comes out and the cell that is allocated or freed. -/
inductive QueueCall where
  | emptyQueue (q : Nat)
  | enqueue (q v elt : Nat)
  | dequeue (q v elt : Nat)
  deriving DecidableEq, Repr

/-- One call that ends; `dequeue` only on a queue that is not empty. -/
inductive QueueCallStep (A : Allocator μ) : QueueState μ → QueueCall → QueueState μ → Prop where
  | emptyQueue {s q h} (e : emptyQueue A s.heap = some (q, h)) :
      QueueCallStep A s (.emptyQueue q) ⟨h, insert q s.queues⟩
  | enqueue {s q v h} (hq : q ∈ s.queues) (e : enqueue A s.heap q v = some h) :
      QueueCallStep A s (.enqueue q v (newNode A s.heap)) ⟨h, s.queues⟩
  | dequeue {s q} (hq : q ∈ s.queues) (hne : isEmptyQueue s.heap q = false) :
      QueueCallStep A s (.dequeue q (dequeue A s.heap q).1 (s.heap.head q))
        ⟨(dequeue A s.heap q).2, s.queues⟩

/-- What a call does to lists. -/
inductive FifoStep : (Nat → List Nat) → QueueCall → (Nat → List Nat) → Prop where
  | emptyQueue {vals q} : FifoStep vals (.emptyQueue q) (Function.update vals q [])
  | enqueue {vals q v elt} :
      FifoStep vals (.enqueue q v elt) (Function.update vals q (vals q ++ [v]))
  | dequeue {vals q v elt xs} (h : vals q = v :: xs) :
      FifoStep vals (.dequeue q v elt) (Function.update vals q xs)

/-- The number of times `a` was allocated as a cell of a queue. -/
def filled (a : Nat) (cs : List QueueCall) : Nat :=
  cs.countP fun c => match c with
    | .enqueue _ _ elt => elt = a
    | _ => false

/-- The number of times `dequeue` freed `a`. -/
def freed (a : Nat) (cs : List QueueCall) : Nat :=
  cs.countP fun c => match c with
    | .dequeue _ _ elt => elt = a
    | _ => false

/-- `a` is a cell of one of the queues. -/
def IsCell (s : QueueState μ) (nodes : Nat → List Nat) (a : Nat) : Prop :=
  ∃ q ∈ s.queues, a ∈ nodes q

/-- What is said of the queues after the calls `cs`, with the cells `nodes` and the values `vals`:
the values are what lists would hold; the cells of each queue are a ring that starts at `*q`, no two
queues share one, and the live blocks of the heap are these and those of `h`; and a cell has been
freed as often as it was allocated, but for those that are still in a queue. -/
structure Fifo (A : Allocator μ) (h : QueueHeap μ) (cs : List QueueCall) (s : QueueState μ)
    (nodes vals : Nat → List Nat) : Prop where
  lists : Run FifoStep (fun _ => []) cs vals
  owns : Owns A s.heap s.queues id nodes vals (A.live h.mem)
  inside : ∀ a, IsCell s nodes a → filled a cs = freed a cs + 1
  outside : ∀ a, ¬ IsCell s nodes a → filled a cs = freed a cs

variable {A : Allocator μ} {h : QueueHeap μ} {cs : List QueueCall} {s t : QueueState μ}
  {nodes vals : Nat → List Nat} {a q v elt : Nat}

lemma filled_concat (c : QueueCall) : filled a (cs ++ [c]) = filled a cs + filled a [c] :=
  List.countP_append

lemma freed_concat (c : QueueCall) : freed a (cs ++ [c]) = freed a cs + freed a [c] :=
  List.countP_append

@[simp] lemma filled_enqueue : filled a [.enqueue q v elt] = if elt = a then 1 else 0 := by
  simp [filled, List.countP_singleton]

@[simp] lemma filled_dequeue : filled a [.dequeue q v elt] = 0 := rfl

@[simp] lemma filled_emptyQueue : filled a [.emptyQueue q] = 0 := rfl

@[simp] lemma freed_enqueue : freed a [.enqueue q v elt] = 0 := rfl

@[simp] lemma freed_dequeue : freed a [.dequeue q v elt] = if elt = a then 1 else 0 := by
  simp [freed, List.countP_singleton]

@[simp] lemma freed_emptyQueue : freed a [.emptyQueue q] = 0 := rfl

/-- The cells once those of one queue are others. -/
lemma isCell_update {Q : Set Nat} {H : QueueHeap μ} {l : List Nat} (hq : q ∈ Q) :
    IsCell ⟨H, Q⟩ (Function.update nodes q l) a ↔
      a ∈ l ∨ ∃ p ∈ Q, p ≠ q ∧ a ∈ nodes p := by
  constructor
  · rintro ⟨p, hp, ha⟩
    by_cases hpq : p = q
    · subst hpq
      rw [Function.update_self] at ha
      exact .inl ha
    · rw [Function.update_of_ne hpq] at ha
      exact .inr ⟨p, hp, hpq, ha⟩
  · rintro (ha | ⟨p, hp, hpq, ha⟩)
    · exact ⟨q, hq, by rwa [Function.update_self]⟩
    · exact ⟨p, hp, by rwa [Function.update_of_ne hpq]⟩

lemma isCell_iff {Q : Set Nat} {H : QueueHeap μ} (hq : q ∈ Q) :
    IsCell ⟨H, Q⟩ nodes a ↔ a ∈ nodes q ∨ ∃ p ∈ Q, p ≠ q ∧ a ∈ nodes p := by
  have h : IsCell ⟨H, Q⟩ (Function.update nodes q (nodes q)) a ↔ _ := isCell_update hq
  rwa [Function.update_eq_self] at h

/-- A cell is live. -/
lemma Fifo.cell_live (F : Fifo A h cs s nodes vals) (ha : IsCell s nodes a) :
    a ∈ A.live s.heap.mem := by
  obtain ⟨q, hq, ha⟩ := ha
  exact (F.owns.queue q hq).live a (List.mem_cons_of_mem _ ha)

/-- A new queue. -/
lemma Fifo.emptyQueue {h' : QueueHeap μ} (F : Fifo A h cs s nodes vals)
    (e : emptyQueue A s.heap = some (q, h')) :
    Fifo A h (cs ++ [.emptyQueue q]) ⟨h', insert q s.queues⟩ (Function.update nodes q [])
      (Function.update vals q []) := by
  have hlive : ∀ p ∈ s.queues, p ∈ A.live s.heap.mem := fun p hp =>
    (F.owns.queue p hp).live _ (List.mem_cons_self ..)
  have hfresh : q ∉ A.live s.heap.mem := by
    rw [emptyQueue_eq] at e
    split_ifs at e
    exact (Prod.mk.inj (Option.some.inj e)).1 ▸ A.memAlloc_fresh _ _
  have hnew : q ∉ s.queues := fun hm => hfresh (hlive q hm)
  obtain ⟨_, _, howns⟩ := F.owns.emptyQueue hnew e
  have hid : Function.update (id : Nat → Nat) q q = id := Function.update_eq_self q id
  rw [hid] at howns
  have hcell : ∀ a, IsCell ⟨h', insert q s.queues⟩ (Function.update nodes q []) a ↔
      IsCell s nodes a := by
    intro a
    rw [isCell_update (Set.mem_insert q _)]
    constructor
    · rintro (ha | ⟨p, hp, hpq, ha⟩)
      · exact absurd ha List.not_mem_nil
      · exact ⟨p, hp.resolve_left hpq, ha⟩
    · rintro ⟨p, hp, ha⟩
      exact .inr ⟨p, .inr hp, fun e => hnew (e ▸ hp), ha⟩
  refine ⟨.snoc F.lists .emptyQueue, howns, fun a ha => ?_, fun a ha => ?_⟩
  · rw [filled_concat, freed_concat, F.inside a ((hcell a).mp ha)]
    rfl
  · rw [filled_concat, freed_concat, F.outside a fun h' => ha ((hcell a).mpr h')]
    rfl

/-- A value goes in. -/
lemma Fifo.enqueue {h' : QueueHeap μ} (F : Fifo A h cs s nodes vals) (hq : q ∈ s.queues)
    (e : enqueue A s.heap q v = some h') :
    Fifo A h (cs ++ [.enqueue q v (newNode A s.heap)]) ⟨h', s.queues⟩
      (Function.update nodes q (nodes q ++ [newNode A s.heap]))
      (Function.update vals q (vals q ++ [v])) := by
  rw [enqueue_eq] at e
  split_ifs at e with h0
  obtain rfl := Option.some.inj e
  have hnew : ¬ IsCell s nodes (newNode A s.heap) := fun hc =>
    A.memAlloc_fresh _ _ (F.cell_live hc)
  have hcell : ∀ a, IsCell ⟨enqueued A s.heap q v, s.queues⟩
      (Function.update nodes q (nodes q ++ [newNode A s.heap])) a ↔
        IsCell s nodes a ∨ newNode A s.heap = a := by
    intro a
    have hs : IsCell s nodes a ↔ _ := isCell_iff (H := s.heap) hq
    rw [isCell_update hq, hs, List.mem_append, List.mem_singleton, eq_comm (a := a)]
    exact or_right_comm
  refine ⟨.snoc F.lists .enqueue, F.owns.enqueued hq v h0, fun a ha => ?_, fun a ha => ?_⟩
  · rw [filled_concat, freed_concat, filled_enqueue, freed_enqueue]
    obtain ha | rfl := (hcell a).mp ha
    · rw [F.inside a ha, if_neg fun e : newNode A s.heap = a => hnew (e ▸ ha)]
    · rw [F.outside _ hnew, if_pos rfl]
  · rw [hcell, not_or] at ha
    rw [filled_concat, freed_concat, filled_enqueue, freed_enqueue, F.outside a ha.1, if_neg ha.2]

/-- A value comes out. -/
lemma Fifo.dequeue (F : Fifo A h cs s nodes vals) (hq : q ∈ s.queues)
    (hne : isEmptyQueue s.heap q = false) :
    ∃ ns xs, Fifo A h (cs ++ [.dequeue q (dequeue A s.heap q).1 (s.heap.head q)])
      ⟨(dequeue A s.heap q).2, s.queues⟩ (Function.update nodes q ns)
      (Function.update vals q xs) := by
  have hvals : vals q ≠ [] := fun e => by
    exact Bool.false_ne_true (hne.symm.trans ((F.owns.queue q hq).isEmpty.mpr e))
  obtain ⟨x, xs, hx⟩ := List.exists_cons_of_ne_nil hvals
  obtain ⟨n, ns, hn, hhead, hv, howns⟩ := F.owns.dequeue hq hx
  change s.heap.head q = n at hhead
  change (Scheduler.dequeue A s.heap q).1 = x at hv
  have hnodup := (F.owns.queue q hq).nodup
  rw [hn, List.nodup_cons, List.mem_cons, not_or, List.nodup_cons] at hnodup
  have hother : ∀ p ∈ s.queues, p ≠ q → n ∉ nodes p := fun p hp hpq hnp =>
    F.owns.disjoint p hp q hq hpq (List.mem_cons_of_mem _ hnp) (by simp [hn])
  have hcell : ∀ a, IsCell s nodes a ↔ IsCell ⟨(Scheduler.dequeue A s.heap q).2, s.queues⟩
      (Function.update nodes q ns) a ∨ n = a := by
    intro a
    have hs : IsCell s nodes a ↔ _ := isCell_iff (H := s.heap) hq
    rw [isCell_update hq, hs, hn, List.mem_cons, eq_comm (a := a), or_comm (a := n = a)]
    exact or_right_comm
  have hgone : ¬ IsCell ⟨(Scheduler.dequeue A s.heap q).2, s.queues⟩
      (Function.update nodes q ns) n := by
    rw [isCell_update hq]
    rintro (hm | ⟨p, hp, hpq, hm⟩)
    · exact hnodup.2.1 hm
    · exact hother p hp hpq hm
  rw [hv, hhead]
  refine ⟨ns, xs, .snoc F.lists (.dequeue hx), howns, fun a ha => ?_, fun a ha => ?_⟩
  · rw [filled_concat, freed_concat, filled_dequeue, freed_dequeue,
      F.inside a ((hcell a).mpr (.inl ha)), if_neg fun e : n = a => hgone (e ▸ ha)]
  · rw [filled_concat, freed_concat, filled_dequeue, freed_dequeue]
    by_cases he : n = a
    · rw [F.inside a ((hcell a).mpr (.inr he)), if_pos he]
    · rw [F.outside a fun h' => ((hcell a).mp h').elim ha he, if_neg he]

/-- No queues. -/
lemma Fifo.nil (A : Allocator μ) (h : QueueHeap μ) :
    Fifo A h [] ⟨h, ∅⟩ (fun _ => []) fun _ => [] where
  lists := .nil
  owns :=
    { queue := fun _ hq => absurd hq (Set.notMem_empty _)
      disjoint := fun _ hq => absurd hq (Set.notMem_empty _)
      live := fun a => ⟨.inl, fun ha => ha.elim id fun ⟨_, hq, _⟩ => absurd hq (Set.notMem_empty _)⟩
      other := fun _ hq => absurd hq (Set.notMem_empty _) }
  inside _ ha := by
    obtain ⟨_, hq, _⟩ := ha
    exact absurd hq (Set.notMem_empty _)
  outside _ _ := rfl

/-- **Queues are FIFO.** After any calls, the queues are rings that represent lists, and no cell is
shared, lost or freed twice. -/
theorem queues_fifo (A : Allocator μ) (h : QueueHeap μ) (cs : List QueueCall) (s : QueueState μ)
    (r : Run (QueueCallStep A) ⟨h, ∅⟩ cs s) : ∃ nodes vals, Fifo A h cs s nodes vals := by
  induction r with
  | nil => exact ⟨_, _, .nil A h⟩
  | snoc _ st ih =>
    obtain ⟨nodes, vals, F⟩ := ih
    cases st with
    | emptyQueue e => exact ⟨_, _, F.emptyQueue e⟩
    | enqueue hq e => exact ⟨_, _, F.enqueue hq e⟩
    | dequeue hq hne =>
      obtain ⟨ns, xs, F'⟩ := F.dequeue hq hne
      exact ⟨_, _, F'⟩

/-! ### A value in and out -/

/-- An empty heap. -/
def emptyHeap : QueueHeap (Finset Nat) := ⟨∅, fun _ => 0, fun _ => 0, fun _ => 0, fun _ => 0⟩

/-- The heap with one queue, at 1. -/
def oneQueue : QueueHeap (Finset Nat) :=
  (emptyHeap.memAlloc topAllocator SIZEOF_QUEUE_T).2.setHead 1 0

/-- Two values go into a queue, and the first one comes out again. -/
theorem queues_fifo_two : ∃ cs s, Run (QueueCallStep topAllocator) ⟨emptyHeap, ∅⟩ cs s ∧
    cs = [.emptyQueue 1, .enqueue 1 7 2, .enqueue 1 8 3, .dequeue 1 7 2] ∧
      ∃ nodes vals, Fifo topAllocator emptyHeap cs s nodes vals := by
  have hq : 1 ∈ insert 1 (∅ : Set Nat) := Set.mem_insert ..
  have h1 : QueueCallStep topAllocator ⟨emptyHeap, ∅⟩ _ ⟨oneQueue, insert 1 ∅⟩ :=
    .emptyQueue (q := 1) rfl
  have h2 := QueueCallStep.enqueue (A := topAllocator) (s := ⟨oneQueue, insert 1 ∅⟩) (v := 7) hq rfl
  have h3 := QueueCallStep.enqueue (A := topAllocator)
    (s := ⟨enqueued topAllocator oneQueue 1 7, insert 1 ∅⟩) (v := 8) hq rfl
  have h4 := QueueCallStep.dequeue (A := topAllocator)
    (s := ⟨enqueued topAllocator (enqueued topAllocator oneQueue 1 7) 1 8, insert 1 ∅⟩) hq rfl
  have r := (((Run.single h1).snoc h2).snoc h3).snoc h4
  exact ⟨_, _, r, rfl, queues_fifo topAllocator emptyHeap _ _ r⟩

end MarioBrOS.Scheduler
