import MarioBrOS.Lib.Ring
import Mathlib.Data.Finset.Erase
import Mathlib.Data.Finset.Insert
import Mathlib.Data.Finset.Lattice.Fold
import Mathlib.Data.List.Infix
import Mathlib.Order.Lattice.Nat
import Mathlib.Tactic.Tauto
import Mathlib.Logic.Function.Basic

/-!
# Queues in the heap

`queue.c` at the level of its nodes: a `queue_t *` is a heap cell that holds the address of the
first node, the nodes form a circular doubly linked list, and each `enqueue` and `dequeue` allocates
and frees one of them. `Allocator` is what `mem_alloc` and `mem_free` are to a caller. A call whose
request gets NULL writes through it, which is a page fault: it has no result here.

`Holds A h I q xs rest` says that the cells `q i`, for `i` in `I`, are queues with the values `xs
i`, that no two of them share a node, and that the live blocks of the heap are their cells and nodes
and `rest`. The operations are specified by it; callers never look at a node.
-/

namespace MarioBrOS.Scheduler

/-- `mem_alloc` and `mem_free` (`malloc.c`) as their callers see them: a request gives the address
of a block that was not live before, or NULL. -/
structure Allocator (μ : Type) where
  live : μ → Finset Nat
  memAlloc : μ → Nat → Nat × μ
  memFree : μ → Nat → μ
  memAlloc_fresh : ∀ m size, (memAlloc m size).1 ∉ live m
  live_memAlloc : ∀ m size, (memAlloc m size).1 ≠ 0 →
    live (memAlloc m size).2 = insert (memAlloc m size).1 (live m)
  live_refused : ∀ m size, (memAlloc m size).1 = 0 → live (memAlloc m size).2 = live m
  live_memFree : ∀ m a, live (memFree m a) = (live m).erase a

/-- The heap, seen as queues: the state of the allocator, the contents `*q` of the cells and the
fields of the nodes (`queue.h`, `struct queue`). -/
structure QueueHeap (μ : Type) where
  mem : μ
  head : Nat → Nat
  (value prev next : Nat → Nat)

/-- `sizeof(queue_t)`. -/
def SIZEOF_QUEUE_T : Nat := 4

/-- `sizeof(struct queue)`. -/
def SIZEOF_QUEUE : Nat := 12

variable {μ : Type} {A : Allocator μ} {h h' : QueueHeap μ} {q n v : Nat} {ns xs : List Nat}

namespace QueueHeap

/-- `*q = e`. -/
def setHead (h : QueueHeap μ) (q e : Nat) : QueueHeap μ :=
  { h with head := Function.update h.head q e }

/-- `elt->value = v`. -/
def setValue (h : QueueHeap μ) (elt v : Nat) : QueueHeap μ :=
  { h with value := Function.update h.value elt v }

/-- `elt->prev = e`. -/
def setPrev (h : QueueHeap μ) (elt e : Nat) : QueueHeap μ :=
  { h with prev := Function.update h.prev elt e }

/-- `elt->next = e`. -/
def setNext (h : QueueHeap μ) (elt e : Nat) : QueueHeap μ :=
  { h with next := Function.update h.next elt e }

/-- `mem_alloc`. -/
def memAlloc (A : Allocator μ) (h : QueueHeap μ) (size : Nat) : Nat × QueueHeap μ :=
  ((A.memAlloc h.mem size).1, { h with mem := (A.memAlloc h.mem size).2 })

/-- `mem_free`. -/
def memFree (A : Allocator μ) (h : QueueHeap μ) (a : Nat) : QueueHeap μ :=
  { h with mem := A.memFree h.mem a }

end QueueHeap

/-- `queue.c`, `empty_queue`. -/
def emptyQueue (A : Allocator μ) (h : QueueHeap μ) : Option (Nat × QueueHeap μ) :=
  let (q, h) := h.memAlloc A SIZEOF_QUEUE_T
  if q = 0 then none else some (q, h.setHead q 0)

/-- `queue.c`, `is_empty_queue`. -/
def isEmptyQueue (h : QueueHeap μ) (q : Nat) : Bool :=
  h.head q = 0

/-- The part of `enqueue` behind the call of `mem_alloc`. -/
def linkNode (q elt v : Nat) (h : QueueHeap μ) : QueueHeap μ :=
  let h := h.setValue elt v
  if h.head q ≠ 0 then
    let h := h.setNext elt (h.head q)
    let h := h.setPrev elt (h.prev (h.head q))
    let h := h.setNext (h.prev (h.head q)) elt
    h.setPrev (h.head q) elt
  else
    let h := h.setNext elt elt
    let h := h.setPrev elt elt
    h.setHead q elt

/-- `queue.c`, `enqueue`. -/
def enqueue (A : Allocator μ) (h : QueueHeap μ) (q v : Nat) : Option (QueueHeap μ) :=
  let (elt, h) := h.memAlloc A SIZEOF_QUEUE
  if elt = 0 then none else some (linkNode q elt v h)

/-- `queue.c`, `dequeue`. -/
def dequeue (A : Allocator μ) (h : QueueHeap μ) (q : Nat) : Nat × QueueHeap μ :=
  let elt := h.head q
  let v := h.value elt
  let next := h.next elt
  let prev := h.prev elt
  let h := h.setPrev next prev
  let h := h.setNext prev next
  let h := h.memFree A elt
  (v, if next = elt then h.setHead q 0 else h.setHead q next)

/-! ## One queue -/

/-- The cell `q` heads a ring of the live nodes `ns`, which hold the values `xs`. -/
structure IsQueue (A : Allocator μ) (h : QueueHeap μ) (q : Nat) (ns xs : List Nat) : Prop where
  live : ∀ a ∈ q :: ns, a ∈ A.live h.mem
  nodup : (q :: ns).Nodup
  ne_null : 0 ∉ ns
  head : h.head q = ns.head?.getD 0
  ring : Ring h.prev h.next ns
  values : ns.map h.value = xs

/-- The cells and nodes outside `own` are the same in both heaps. -/
structure SameOutside (own : List Nat) (h h' : QueueHeap μ) : Prop where
  head : ∀ a ∉ own, h'.head a = h.head a
  value : ∀ a ∉ own, h'.value a = h.value a
  prev : ∀ a ∉ own, h'.prev a = h.prev a
  next : ∀ a ∉ own, h'.next a = h.next a

/-- A queue is not touched by what happens outside its cell and nodes. -/
lemma IsQueue.frame {own : List Nat} (hq : IsQueue A h q ns xs) (s : SameOutside own h h')
    (hown : (q :: ns).Disjoint own) (hl : ∀ a ∈ q :: ns, a ∈ A.live h'.mem) :
    IsQueue A h' q ns xs := by
  have out : ∀ a ∈ ns, a ∉ own := fun a ha => hown (List.mem_cons_of_mem q ha)
  refine ⟨hl, hq.nodup, hq.ne_null, ?_, ?_, ?_⟩
  · rw [s.head q (hown (List.mem_cons_self ..)), hq.head]
  · obtain ⟨hch, hcl, hd⟩ := hq.ring
    refine ⟨?_, fun z hz x hx => ?_, hd⟩
    · refine chain_congr hch (fun a ha => s.next a (out a (List.mem_of_mem_dropLast ha))) fun a ha =>
        s.prev a (out a (List.mem_of_mem_tail ha))
    · obtain ⟨h1, h2⟩ := hcl z hz x hx
      refine ⟨?_, ?_⟩
      · rw [s.next z (out z (List.mem_of_getLast? hz)), h1]
      · rw [s.prev x (out x (List.mem_of_head? hx)), h2]
  · rw [← hq.values]
    exact List.map_congr_left fun a ha => s.value a (out a ha)

/-- The test for emptiness. -/
lemma IsQueue.isEmpty (hq : IsQueue A h q ns xs) : isEmptyQueue h q = true ↔ xs = [] := by
  rw [isEmptyQueue, decide_eq_true_eq, hq.head, ← hq.values]
  cases ns with
  | nil => simp
  | cons n ns =>
    have hn : n ≠ 0 := by rintro rfl; exact hq.ne_null (by simp)
    simp [hn]

/-- The address of the node the next `enqueue` fills. -/
def newNode (A : Allocator μ) (h : QueueHeap μ) : Nat :=
  (A.memAlloc h.mem SIZEOF_QUEUE).1

/-- The heap after an `enqueue` that gets its node. -/
def enqueued (A : Allocator μ) (h : QueueHeap μ) (q v : Nat) : QueueHeap μ :=
  linkNode q (newNode A h) v (h.memAlloc A SIZEOF_QUEUE).2

/-- `enqueue` gets its node, or has no result. -/
lemma enqueue_eq (A : Allocator μ) (h : QueueHeap μ) (q v : Nat) :
    enqueue A h q v = if newNode A h = 0 then none else some (enqueued A h q v) := rfl

lemma enqueued_mem (A : Allocator μ) (h : QueueHeap μ) (q v : Nat) :
    (enqueued A h q v).mem = (A.memAlloc h.mem SIZEOF_QUEUE).2 := by
  by_cases h0 : h.head q = 0 <;>
    simp [enqueued, linkNode, QueueHeap.memAlloc, QueueHeap.setValue, QueueHeap.setNext, QueueHeap.setPrev,
      QueueHeap.setHead, h0]

lemma enqueued_value (A : Allocator μ) (h : QueueHeap μ) (q v : Nat) :
    (enqueued A h q v).value = Function.update h.value (newNode A h) v := by
  by_cases h0 : h.head q = 0 <;>
    simp [enqueued, linkNode, QueueHeap.memAlloc, QueueHeap.setValue, QueueHeap.setNext, QueueHeap.setPrev,
      QueueHeap.setHead, newNode, h0]

/-- `enqueue` into an empty queue. -/
lemma enqueued_nil (h0 : h.head q = 0) (v : Nat) :
    (enqueued A h q v).head = Function.update h.head q (newNode A h) ∧
    (enqueued A h q v).prev = Function.update h.prev (newNode A h) (newNode A h) ∧
    (enqueued A h q v).next = Function.update h.next (newNode A h) (newNode A h) := by
  simp [enqueued, linkNode, QueueHeap.memAlloc, QueueHeap.setValue, QueueHeap.setNext, QueueHeap.setPrev,
    QueueHeap.setHead, newNode, h0]

/-- `enqueue` into a queue whose first node is `n`: the new node goes between the last node and the
first. -/
lemma enqueued_cons (hn : h.head q = n) (h0 : n ≠ 0) (hne : n ≠ newNode A h) (v : Nat) :
    (enqueued A h q v).head = h.head ∧
    (enqueued A h q v).prev =
      Function.update (Function.update h.prev (newNode A h) (h.prev n)) n (newNode A h) ∧
    (enqueued A h q v).next =
      Function.update (Function.update h.next (newNode A h) n) (h.prev n) (newNode A h) := by
  rw [newNode] at hne
  simp [enqueued, linkNode, QueueHeap.memAlloc, QueueHeap.setValue, QueueHeap.setNext, QueueHeap.setPrev,
    newNode, hn, h0, hne]

/-- The ring of a queue with one node more. -/
lemma IsQueue.enqueued_ring (hq : IsQueue A h q ns xs) (v : Nat)
    (hne : ∀ a ∈ q :: ns, a ≠ newNode A h) :
    (enqueued A h q v).head q = (ns ++ [newNode A h]).head?.getD 0 ∧
    Ring (enqueued A h q v).prev (enqueued A h q v).next (ns ++ [newNode A h]) ∧
    SameOutside (q :: (ns ++ [newNode A h])) h (enqueued A h q v) := by
  have hens : newNode A h ∉ ns := fun hm => hne _ (List.mem_cons_of_mem q hm) rfl
  cases ns with
  | nil =>
    obtain ⟨eh, ep, en⟩ := enqueued_nil (A := A) (h := h) hq.head v
    refine ⟨by simp [eh], ?_, ⟨?_, ?_, ?_, ?_⟩⟩
    · have hnil : Ring h.prev h.next [] := .nil
      exact hnil.append hens (by simp [en]) (by simp [ep]) (by simp) (by simp) (by simp) (by simp)
    · simp +contextual [eh]
    · simp +contextual [enqueued_value]
    · simp +contextual [ep]
    · simp +contextual [en]
  | cons n ns =>
    have hn0 : n ≠ 0 := fun e => hq.ne_null (by simp [e])
    have hnne : n ≠ newNode A h := hne n (by simp)
    obtain ⟨eh, ep, en⟩ := enqueued_cons (A := A) (n := n) hq.head hn0 hnne v
    -- the new node goes between the last one and the first
    have hlast : h.prev n ∈ (n :: ns).getLast? := by
      rw [hq.ring.prev_first]
      simp [List.getLast?_cons]
    have hlm : h.prev n ∈ n :: ns := List.mem_of_getLast? hlast
    have hlne : h.prev n ≠ newNode A h := hne _ (List.mem_cons_of_mem q hlm)
    refine ⟨by simp [eh, hq.head], ?_, ⟨?_, ?_, ?_, ?_⟩⟩
    · refine hq.ring.append hens ?_ ?_ ?_ ?_ ?_ ?_
      · simp [en, hlne.symm]
      · rw [ep, Function.update_of_ne hnne.symm, Function.update_self, hlast, Option.getD_some]
      · intro z hz
        rw [Option.mem_unique hz hlast, en, Function.update_self]
      · intro x hx
        rw [← Option.some.inj hx, ep, Function.update_self]
      · intro a ha
        have hae : a ≠ newNode A h := hne a (List.mem_cons_of_mem q (List.mem_of_mem_dropLast ha))
        have hal : a ≠ h.prev n := ne_getLast_of_mem_dropLast hq.ring.nodup ha hlast
        rw [en, Function.update_of_ne hal, Function.update_of_ne hae]
      · intro a ha
        have hae : a ≠ newNode A h := hne a (List.mem_cons_of_mem q (List.mem_of_mem_tail ha))
        have han : a ≠ n := ne_head_of_mem_tail hq.ring.nodup ha (by simp)
        rw [ep, Function.update_of_ne han, Function.update_of_ne hae]
    · simp [eh]
    · simp +contextual [enqueued_value]
    · simp +contextual [ep]
    · intro a ha
      have hal : a ≠ h.prev n := fun e =>
        ha (e ▸ List.mem_cons_of_mem q (List.mem_append_left _ hlm))
      have hae : a ≠ newNode A h := by rintro rfl; simp at ha
      rw [en, Function.update_of_ne hal, Function.update_of_ne hae]

/-- `enqueue` puts a fresh node at the end of the queue and changes nothing else. -/
lemma IsQueue.enqueued (hq : IsQueue A h q ns xs) (v : Nat) (h0 : newNode A h ≠ 0) :
    newNode A h ∉ A.live h.mem ∧
      A.live (enqueued A h q v).mem = insert (newNode A h) (A.live h.mem) ∧
      IsQueue A (enqueued A h q v) q (ns ++ [newNode A h]) (xs ++ [v]) ∧
      SameOutside (q :: (ns ++ [newNode A h])) h (enqueued A h q v) := by
  have hfresh : newNode A h ∉ A.live h.mem := A.memAlloc_fresh _ _
  have hne : ∀ a ∈ q :: ns, a ≠ newNode A h := by
    rintro a ha rfl
    exact hfresh (hq.live _ ha)
  have hlive : A.live (Scheduler.enqueued A h q v).mem = insert (newNode A h) (A.live h.mem) := by
    rw [enqueued_mem, A.live_memAlloc _ _ h0, newNode]
  obtain ⟨hhead, hring, hsame⟩ := hq.enqueued_ring v hne
  refine ⟨hfresh, hlive, ⟨?_, ?_, ?_, hhead, hring, ?_⟩, hsame⟩
  · intro a ha
    rw [hlive, Finset.mem_insert]
    simp only [List.mem_cons, List.mem_append, List.not_mem_nil, or_false] at ha
    rcases ha with rfl | ha | rfl
    · exact .inr (hq.live a (by simp))
    · exact .inr (hq.live a (by simp [ha]))
    · exact .inl rfl
  · refine List.nodup_cons.mpr ⟨?_, hring.nodup⟩
    have hd := (List.nodup_cons.mp hq.nodup).1
    have hqe := hne q (by simp)
    simp [hd, hqe]
  · simp [hq.ne_null, h0.symm]
  · rw [enqueued_value, List.map_append, ← hq.values]
    congr 1
    · exact List.map_congr_left fun a ha => Function.update_of_ne (hne a (by simp [ha])) _ _
    · simp

/-- The fields `dequeue` leaves behind. -/
lemma dequeue_fields (A : Allocator μ) (h : QueueHeap μ) (hn : h.head q = n) :
    (dequeue A h q).1 = h.value n ∧
    (dequeue A h q).2.mem = A.memFree h.mem n ∧
    (dequeue A h q).2.head =
      Function.update h.head q (if h.next n = n then 0 else h.next n) ∧
    (dequeue A h q).2.value = h.value ∧
    (dequeue A h q).2.prev = Function.update h.prev (h.next n) (h.prev n) ∧
    (dequeue A h q).2.next = Function.update h.next (h.prev n) (h.next n) := by
  by_cases h0 : h.next n = n <;>
    simp [dequeue, QueueHeap.memFree, QueueHeap.setNext, QueueHeap.setPrev, QueueHeap.setHead, hn, h0]

/-- The ring of a queue without its first node. -/
lemma IsQueue.dequeue_ring (hq : IsQueue A h q (n :: ns) xs) :
    (dequeue A h q).2.head q = ns.head?.getD 0 ∧
    Ring (dequeue A h q).2.prev (dequeue A h q).2.next ns ∧
    SameOutside (q :: n :: ns) h (dequeue A h q).2 := by
  obtain ⟨_, _, eh, ev, ep, en⟩ := dequeue_fields (n := n) A h hq.head
  have hnext := hq.ring.next_head
  have hprev := hq.ring.prev_first
  have hd := List.nodup_cons.mp hq.ring.nodup
  have hnm : h.next n ∈ n :: ns := by rw [hnext]; cases ns <;> simp
  have hpm : h.prev n ∈ n :: ns := by
    rw [hprev]
    cases hl : ns.getLast? with
    | none => simp
    | some z => simp [List.mem_of_getLast? hl]
  refine ⟨?_, ?_, ⟨?_, ?_, ?_, ?_⟩⟩
  · rw [eh, Function.update_self, hnext]
    cases ns with
    | nil => simp
    | cons y ns =>
      have hyn : y ≠ n := by rintro rfl; exact hd.1 (by simp)
      simp [hyn]
  · refine hq.ring.tail ?_ ?_ ?_ ?_
    · intro z hz
      have hzp : z = h.prev n := by rw [hprev, hz, Option.getD_some]
      rw [en, hzp, Function.update_self]
    · intro y hy
      have hyn : y = h.next n := by rw [hnext, hy, Option.getD_some]
      rw [ep, hyn, Function.update_self]
    · intro a ha
      have hap : a ≠ h.prev n := by
        have hne : ns ≠ [] := by rintro rfl; simp at ha
        have hl : h.prev n ∈ ns.getLast? := by
          rw [hprev, List.getLast?_eq_some_getLast hne]
          simp
        exact ne_getLast_of_mem_dropLast hd.2 ha hl
      rw [en, Function.update_of_ne hap]
    · intro a ha
      have han : a ≠ h.next n := by
        have hl : h.next n ∈ ns.head? := by
          rw [hnext]
          cases ns with
          | nil => simp at ha
          | cons y ns => simp
        exact ne_head_of_mem_tail hd.2 ha hl
      rw [ep, Function.update_of_ne han]
  · simp +contextual [eh]
  · simp [ev]
  · intro a ha
    have han : a ≠ h.next n := fun e => ha (e ▸ List.mem_cons_of_mem q hnm)
    rw [ep, Function.update_of_ne han]
  · intro a ha
    have hap : a ≠ h.prev n := fun e => ha (e ▸ List.mem_cons_of_mem q hpm)
    rw [en, Function.update_of_ne hap]

/-- `dequeue` returns the first value and frees its node. -/
lemma IsQueue.dequeue {x : Nat} (hq : IsQueue A h q (n :: ns) (x :: xs)) :
    (dequeue A h q).1 = x ∧ A.live (dequeue A h q).2.mem = (A.live h.mem).erase n ∧
      IsQueue A (dequeue A h q).2 q ns xs ∧ SameOutside (q :: n :: ns) h (dequeue A h q).2 := by
  obtain ⟨e1, em, _, ev, _, _⟩ := dequeue_fields (n := n) A h hq.head
  obtain ⟨hhead, hring, hsame⟩ := hq.dequeue_ring
  obtain ⟨hx, hxs⟩ := List.cons.inj hq.values
  have hd := hq.nodup
  rw [List.nodup_cons, List.mem_cons, not_or, List.nodup_cons] at hd
  refine ⟨e1.trans hx, by rw [em, A.live_memFree], ⟨?_, ?_, ?_, hhead, hring, ?_⟩, hsame⟩
  · intro a ha
    rw [em, A.live_memFree, Finset.mem_erase]
    rcases List.mem_cons.mp ha with rfl | ha
    · exact ⟨hd.1.1, hq.live a (by simp)⟩
    · exact ⟨fun e => hd.2.1 (e ▸ ha), hq.live a (by simp [ha])⟩
  · exact List.nodup_cons.mpr ⟨hd.1.2, hd.2.2⟩
  · exact fun h0 => hq.ne_null (List.mem_cons_of_mem n h0)
  · rw [ev]
    exact hxs

/-! ## All queues of the heap -/

section Family

variable {ι : Type} [DecidableEq ι] {I : Set ι} {i : ι} {cell : ι → Nat} {vals : ι → List Nat}
  {rest : Finset Nat}

/-- The cells `cell i`, for `i` in `I`, are queues with the nodes `nodes i` and the values `vals i`.
They own their cells and nodes, and together with `rest` these are the live blocks. -/
structure Owns (A : Allocator μ) (h : QueueHeap μ) (I : Set ι) (cell : ι → Nat)
    (nodes vals : ι → List Nat) (rest : Finset Nat) : Prop where
  queue : ∀ i ∈ I, IsQueue A h (cell i) (nodes i) (vals i)
  disjoint : ∀ i ∈ I, ∀ j ∈ I, i ≠ j → (cell i :: nodes i).Disjoint (cell j :: nodes j)
  live : ∀ a, a ∈ A.live h.mem ↔ a ∈ rest ∨ ∃ i ∈ I, a ∈ cell i :: nodes i
  other : ∀ i ∈ I, ∀ a ∈ cell i :: nodes i, a ∉ rest

/-- The queues `cell i` hold `vals i`; the live blocks are theirs and `rest`. -/
def Holds (A : Allocator μ) (h : QueueHeap μ) (I : Set ι) (cell : ι → Nat) (vals : ι → List Nat)
    (rest : Finset Nat) : Prop :=
  ∃ nodes, Owns A h I cell nodes vals rest

omit [DecidableEq ι] in
/-- The test for emptiness. -/
lemma Holds.isEmpty (hh : Holds A h I cell vals rest) (hi : i ∈ I) :
    isEmptyQueue h (cell i) = true ↔ vals i = [] := by
  obtain ⟨nodes, o⟩ := hh
  exact (o.queue i hi).isEmpty

omit [DecidableEq ι] in
/-- Only the cells and values of the queues in `I` matter. -/
lemma Holds.congr {cell' : ι → Nat} {vals' : ι → List Nat} (hh : Holds A h I cell vals rest)
    (hc : ∀ i ∈ I, cell' i = cell i) (hv : ∀ i ∈ I, vals' i = vals i) :
    Holds A h I cell' vals' rest := by
  obtain ⟨nodes, o⟩ := hh
  refine ⟨nodes, fun i hi => ?_, fun i hi j hj => ?_, fun a => ?_, fun i hi => ?_⟩
  · rw [hc i hi, hv i hi]
    exact o.queue i hi
  · rw [hc i hi, hc j hj]
    exact o.disjoint i hi j hj
  · rw [o.live]
    refine or_congr_right (exists_congr fun i => and_congr_right fun hi => ?_)
    rw [hc i hi]
  · rw [hc i hi]
    exact o.other i hi

/-- An operation on the queue `i` that keeps to its own nodes, and to a block that was not live. -/
lemma Owns.update {nodes : ι → List Nat} {own ns' xs' : List Nat}
    (o : Owns A h I cell nodes vals rest) (hi : i ∈ I) (hq : IsQueue A h' (cell i) ns' xs')
    (s : SameOutside own h h') (hown : ∀ a, a ∈ own ↔ a ∈ cell i :: nodes i ∨ a ∈ ns')
    (hnew : ∀ a ∈ ns', a ∈ nodes i ∨ a ∉ A.live h.mem)
    (hlive : ∀ a, a ∈ A.live h'.mem ↔ a ∈ cell i :: ns' ∨ a ∈ A.live h.mem ∧ a ∉ own) :
    Owns A h' I cell (Function.update nodes i ns') (Function.update vals i xs') rest := by
  have old : ∀ a ∈ own, a ∈ cell i :: nodes i ∨ a ∉ A.live h.mem := by
    intro a ha
    rcases (hown a).mp ha with ha | ha
    · exact .inl ha
    · exact (hnew a ha).imp_left (List.mem_cons_of_mem _)
  -- the blocks of `own` belong to no other queue and not to `rest`
  have sep : ∀ j ∈ I, j ≠ i → (cell j :: nodes j).Disjoint own := by
    intro j hj hji a ha hao
    rcases old a hao with h1 | h1
    · exact o.disjoint j hj i hi hji ha h1
    · exact h1 ((o.queue j hj).live a ha)
  have sepRest : ∀ a ∈ own, a ∉ rest := by
    intro a hao har
    rcases old a hao with h1 | h1
    · exact o.other i hi a h1 har
    · exact h1 ((o.live a).mpr (.inl har))
  have hsub' : ∀ a ∈ cell i :: ns', a ∈ own := by
    intro a ha
    rcases List.mem_cons.mp ha with rfl | ha
    · exact (hown _).mpr (.inl (List.mem_cons_self ..))
    · exact (hown a).mpr (.inr ha)
  refine ⟨fun j hj => ?_, fun j hj k hk hjk => ?_, fun a => ?_, fun j hj a ha => ?_⟩
  · by_cases hji : j = i
    · subst hji
      simpa using hq
    · rw [Function.update_of_ne hji, Function.update_of_ne hji]
      refine (o.queue j hj).frame s (sep j hj hji) fun a ha => ?_
      exact (hlive a).mpr (.inr ⟨(o.queue j hj).live a ha, sep j hj hji ha⟩)
  · by_cases hji : j = i
    · subst hji
      rw [Function.update_self, Function.update_of_ne hjk.symm]
      exact fun a ha hb => sep k hk hjk.symm hb (hsub' a ha)
    · rw [Function.update_of_ne hji]
      by_cases hki : k = i
      · subst hki
        rw [Function.update_self]
        exact fun a ha hb => sep j hj hji ha (hsub' a hb)
      · rw [Function.update_of_ne hki]
        exact o.disjoint j hj k hk hjk
  · rw [hlive, o.live]
    constructor
    · rintro (ha | ⟨ha | ⟨j, hj, ha⟩, hao⟩)
      · exact .inr ⟨i, hi, by simpa using ha⟩
      · exact .inl ha
      · have hji : j ≠ i := by
          rintro rfl
          exact hao ((hown a).mpr (.inl ha))
        exact .inr ⟨j, hj, by rwa [Function.update_of_ne hji]⟩
    · rintro (ha | ⟨j, hj, ha⟩)
      · exact .inr ⟨.inl ha, fun hao => sepRest a hao ha⟩
      · by_cases hji : j = i
        · subst hji
          exact .inl (by simpa using ha)
        · rw [Function.update_of_ne hji] at ha
          exact .inr ⟨.inr ⟨j, hj, ha⟩, sep j hj hji ha⟩
  · by_cases hji : j = i
    · subst hji
      rw [Function.update_self] at ha
      exact sepRest a (hsub' a ha)
    · rw [Function.update_of_ne hji] at ha
      exact o.other j hj a ha

/-- `enqueue` on one of the queues. -/
lemma Owns.enqueued {nodes : ι → List Nat} (o : Owns A h I cell nodes vals rest) (hi : i ∈ I)
    (v : Nat) (h0 : newNode A h ≠ 0) :
    Owns A (enqueued A h (cell i) v) I cell (Function.update nodes i (nodes i ++ [newNode A h]))
      (Function.update vals i (vals i ++ [v])) rest := by
  obtain ⟨hfresh, hlive, hq, hs⟩ := (o.queue i hi).enqueued v h0
  refine o.update hi hq hs (fun a => ?_) (fun a ha => ?_) fun a => ?_
  · simp only [List.mem_cons, List.mem_append, List.not_mem_nil, or_false]
    tauto
  · simp only [List.mem_append, List.mem_cons, List.not_mem_nil, or_false] at ha
    rcases ha with ha | rfl
    · exact .inl ha
    · exact .inr hfresh
  · rw [hlive, Finset.mem_insert]
    constructor
    · rintro (rfl | ha)
      · simp
      · by_cases hm : a ∈ cell i :: (nodes i ++ [newNode A h])
        · exact .inl hm
        · exact .inr ⟨ha, hm⟩
    · rintro (ha | ⟨ha, _⟩)
      · simp only [List.mem_cons, List.mem_append, List.not_mem_nil, or_false] at ha
        rcases ha with rfl | ha | rfl
        · exact .inr ((o.queue i hi).live _ (by simp))
        · exact .inr ((o.queue i hi).live _ (by simp [ha]))
        · exact .inl rfl
      · exact .inr ha

/-- There is one live block more. -/
lemma Holds.enqueue (hh : Holds A h I cell vals rest) (hi : i ∈ I) (v : Nat)
    (h0 : newNode A h ≠ 0) :
    ∃ h', enqueue A h (cell i) v = some h' ∧
      Holds A h' I cell (Function.update vals i (vals i ++ [v])) rest ∧
      (A.live h'.mem).card = (A.live h.mem).card + 1 := by
  obtain ⟨nodes, o⟩ := hh
  obtain ⟨hfresh, hlive, _⟩ := (o.queue i hi).enqueued v h0
  refine ⟨_, by rw [enqueue_eq, if_neg h0], ⟨_, o.enqueued hi v h0⟩, ?_⟩
  rw [hlive, Finset.card_insert_of_notMem hfresh]

/-- `dequeue` on one of the queues that is not empty. -/
lemma Owns.dequeue {nodes : ι → List Nat} {x : Nat} {xs : List Nat}
    (o : Owns A h I cell nodes vals rest) (hi : i ∈ I) (hx : vals i = x :: xs) :
    ∃ n ns, nodes i = n :: ns ∧ h.head (cell i) = n ∧ (dequeue A h (cell i)).1 = x ∧
      Owns A (dequeue A h (cell i)).2 I cell (Function.update nodes i ns)
        (Function.update vals i xs) rest := by
  have hq := o.queue i hi
  obtain ⟨n, ns, hn⟩ : ∃ n ns, nodes i = n :: ns := by
    cases hns : nodes i with
    | nil => simpa [hns, hx] using hq.values
    | cons n ns => exact ⟨n, ns, rfl⟩
  rw [hn, hx] at hq
  obtain ⟨hv, hlive, hq', hs⟩ := hq.dequeue
  refine ⟨n, ns, hn, hq.head, hv,
    o.update hi hq' hs (fun a => ?_) (fun a ha => .inl (by simp [hn, ha])) fun a => ?_⟩
  · rw [hn]
    simp only [List.mem_cons]
    tauto
  have hd := hq.nodup
  rw [List.nodup_cons, List.mem_cons, not_or, List.nodup_cons] at hd
  rw [hlive, Finset.mem_erase]
  constructor
  · rintro ⟨han, ha⟩
    by_cases hm : a ∈ cell i :: ns
    · exact .inl hm
    · rw [List.mem_cons, not_or] at hm
      exact .inr ⟨ha, by simp [han, hm.1, hm.2]⟩
  · rintro (ha | ⟨ha, hm⟩)
    · rcases List.mem_cons.mp ha with rfl | ha
      · exact ⟨hd.1.1, hq.live _ (by simp)⟩
      · exact ⟨fun e => hd.2.1 (e ▸ ha), hq.live a (by simp [ha])⟩
    · exact ⟨fun e => hm (by simp [e]), ha⟩

/-- There is one live block less. -/
lemma Holds.dequeue {x : Nat} {xs : List Nat} (hh : Holds A h I cell vals rest) (hi : i ∈ I)
    (hx : vals i = x :: xs) :
    (dequeue A h (cell i)).1 = x ∧
      Holds A (dequeue A h (cell i)).2 I cell (Function.update vals i xs) rest ∧
      (A.live (dequeue A h (cell i)).2.mem).card + 1 = (A.live h.mem).card := by
  obtain ⟨nodes, o⟩ := hh
  obtain ⟨n, ns, hn, hhead, hv, o'⟩ := o.dequeue hi hx
  refine ⟨hv, ⟨_, o'⟩, ?_⟩
  obtain ⟨_, em, _⟩ := dequeue_fields (n := n) A h hhead
  rw [em, A.live_memFree]
  exact Finset.card_erase_add_one ((o.queue i hi).live n (by simp [hn]))

/-- `empty_queue` gets its block, or has no result. -/
lemma emptyQueue_eq (A : Allocator μ) (h : QueueHeap μ) :
    emptyQueue A h = if (A.memAlloc h.mem SIZEOF_QUEUE_T).1 = 0 then none
      else some ((A.memAlloc h.mem SIZEOF_QUEUE_T).1,
        (h.memAlloc A SIZEOF_QUEUE_T).2.setHead (A.memAlloc h.mem SIZEOF_QUEUE_T).1 0) := rfl

/-- `empty_queue` adds a queue. -/
lemma Owns.emptyQueue {nodes : ι → List Nat} {q : Nat} (o : Owns A h I cell nodes vals rest)
    (hi : i ∉ I) (e : emptyQueue A h = some (q, h')) :
    q ∉ A.live h.mem ∧ A.live h'.mem = insert q (A.live h.mem) ∧
      Owns A h' (insert i I) (Function.update cell i q) (Function.update nodes i [])
        (Function.update vals i []) rest := by
  rw [emptyQueue_eq] at e
  split_ifs at e with h0
  obtain ⟨hq, rfl⟩ := Prod.mk.inj (Option.some.inj e)
  have hfresh : q ∉ A.live h.mem := hq ▸ A.memAlloc_fresh _ _
  have hlive : A.live (A.memAlloc h.mem SIZEOF_QUEUE_T).2 = insert q (A.live h.mem) :=
    hq ▸ A.live_memAlloc _ _ h0
  rw [hq]
  refine ⟨hfresh, hlive, ?_⟩
  have hs : SameOutside [q] h
      (QueueHeap.setHead { h with mem := (A.memAlloc h.mem SIZEOF_QUEUE_T).2 } q 0) := by
    refine ⟨fun a ha => ?_, fun _ _ => rfl, fun _ _ => rfl, fun _ _ => rfl⟩
    rw [List.mem_singleton] at ha
    exact Function.update_of_ne ha _ _
  -- the new block is none of a queue that is there
  have sep : ∀ j ∈ I, ∀ a ∈ cell j :: nodes j, a ≠ q := by
    rintro j hj a ha rfl
    exact hfresh ((o.queue j hj).live _ ha)
  have hne : ∀ j ∈ I, j ≠ i := fun j hj e => hi (e ▸ hj)
  refine ⟨fun j hj => ?_, fun j hj k hk hjk => ?_, fun a => ?_, fun j hj a ha => ?_⟩
  · rcases hj with rfl | hj
    · simp only [Function.update_self]
      refine ⟨?_, List.nodup_singleton q, List.not_mem_nil, ?_, .nil, rfl⟩
      · exact (List.forall_mem_singleton).mpr (hlive ▸ Finset.mem_insert_self _ _)
      · exact Function.update_self ..
    · simp only [Function.update_of_ne (hne j hj)]
      refine (o.queue j hj).frame hs ?_ fun a ha => ?_
      · simpa using fun e => sep j hj q e rfl
      · exact hlive ▸ Finset.mem_insert_of_mem ((o.queue j hj).live a ha)
  · rcases hj with rfl | hj <;> rcases hk with rfl | hk
    · exact absurd rfl hjk
    · simp only [Function.update_self, Function.update_of_ne (hne k hk)]
      simpa using fun e => sep k hk q e rfl
    · simp only [Function.update_self, Function.update_of_ne (hne j hj)]
      simpa using fun e => sep j hj q e rfl
    · simp only [Function.update_of_ne (hne j hj), Function.update_of_ne (hne k hk)]
      exact o.disjoint j hj k hk hjk
  · change a ∈ A.live (A.memAlloc h.mem SIZEOF_QUEUE_T).2 ↔ _
    rw [hlive, Finset.mem_insert, o.live]
    constructor
    · rintro (rfl | ha | ⟨j, hj, ha⟩)
      · exact .inr ⟨i, .inl rfl, by simp⟩
      · exact .inl ha
      · exact .inr ⟨j, .inr hj, by simpa only [Function.update_of_ne (hne j hj)] using ha⟩
    · rintro (ha | ⟨j, rfl | hj, ha⟩)
      · exact .inr (.inl ha)
      · simp only [Function.update_self, List.mem_singleton] at ha
        exact .inl ha
      · simp only [Function.update_of_ne (hne j hj)] at ha
        exact .inr (.inr ⟨j, hj, ha⟩)
  · rcases hj with rfl | hj
    · simp only [Function.update_self, List.mem_singleton] at ha
      rw [ha]
      exact fun har => hfresh ((o.live q).mpr (.inl har))
    · simp only [Function.update_of_ne (hne j hj)] at ha
      exact o.other j hj a ha

lemma Holds.emptyQueue {q : Nat} (hh : Holds A h I cell vals rest) (hi : i ∉ I)
    (e : emptyQueue A h = some (q, h')) :
    Holds A h' (insert i I) (Function.update cell i q) (Function.update vals i []) rest ∧
      (A.live h'.mem).card = (A.live h.mem).card + 1 := by
  obtain ⟨nodes, o⟩ := hh
  obtain ⟨hfresh, hlive, o'⟩ := o.emptyQueue hi e
  refine ⟨⟨_, o'⟩, ?_⟩
  rw [hlive, Finset.card_insert_of_notMem hfresh]

omit [DecidableEq ι] in
/-- `mem_free` of the cell of an empty queue removes it. -/
lemma Holds.memFree (hh : Holds A h I cell vals rest) (hi : i ∈ I) (hx : vals i = []) :
    Holds A (h.memFree A (cell i)) (I \ {i}) cell vals rest ∧
      (A.live (h.memFree A (cell i)).mem).card + 1 = (A.live h.mem).card := by
  obtain ⟨nodes, o⟩ := hh
  have hn : nodes i = [] := by simpa [hx] using (o.queue i hi).values
  have hlive : ∀ a, a ∈ A.live (h.memFree A (cell i)).mem ↔ a ≠ cell i ∧ a ∈ A.live h.mem := by
    intro a
    simp only [QueueHeap.memFree, A.live_memFree, Finset.mem_erase]
  have sep : ∀ j ∈ I, j ≠ i → ∀ a ∈ cell j :: nodes j, a ≠ cell i := by
    rintro j hj hji a ha rfl
    exact o.disjoint j hj i hi hji ha (List.mem_cons_self ..)
  have hcard : (A.live (h.memFree A (cell i)).mem).card + 1 = (A.live h.mem).card := by
    rw [QueueHeap.memFree, A.live_memFree]
    exact Finset.card_erase_add_one ((o.queue i hi).live _ (List.mem_cons_self ..))
  refine ⟨⟨nodes, fun j hj => ?_, fun j hj k hk => o.disjoint j hj.1 k hk.1, fun a => ?_,
    fun j hj => o.other j hj.1⟩, hcard⟩
  · obtain ⟨hj, hji⟩ := hj
    have hq := o.queue j hj
    exact ⟨fun a ha => (hlive a).mpr ⟨sep j hj hji a ha, hq.live a ha⟩, hq.nodup, hq.ne_null,
      hq.head, hq.ring, hq.values⟩
  · rw [hlive, o.live]
    constructor
    · rintro ⟨hai, ha | ⟨j, hj, ha⟩⟩
      · exact .inl ha
      · refine .inr ⟨j, ⟨hj, ?_⟩, ha⟩
        rintro rfl
        rw [hn, List.mem_singleton] at ha
        exact hai ha
    · rintro (ha | ⟨j, ⟨hj, hji⟩, ha⟩)
      · refine ⟨?_, .inl ha⟩
        rintro rfl
        exact o.other i hi _ (List.mem_cons_self ..) ha
      · exact ⟨sep j hj hji a ha, .inr ⟨j, hj, ha⟩⟩

end Family

/-! ### An allocator -/

/-- An allocator that hands out the address above the live ones. -/
def topAllocator : Allocator (Finset Nat) where
  live m := m
  memAlloc m _ := (m.sup id + 1, insert (m.sup id + 1) m)
  memFree m a := m.erase a
  memAlloc_fresh _ _ hm := Nat.not_succ_le_self _ (Finset.le_sup (f := id) hm)
  live_memAlloc _ _ _ := rfl
  live_refused _ _ h := absurd h (Nat.succ_ne_zero _)
  live_memFree _ _ := rfl

end MarioBrOS.Scheduler
