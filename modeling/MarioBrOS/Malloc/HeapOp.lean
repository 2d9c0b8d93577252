import MarioBrOS.Malloc.HeapRun

/-!
# One heap on its own

The operations of `malloc.c` as functions of a single heap: its bytes, its pair of globals and
nothing else. `alloc_pages` passes through the kernel's directory and pair on the way, but what a
call does to the state is what it does to the heap in force (`exec_eq`): the memory of other
directories and the saved pair of the kernel are neither read nor written.
-/

namespace MarioBrOS.Malloc

variable {h : Heap} {s : MallocState} (L : Layout)

namespace Heap

/-- The heap after pages with the bytes `fresh` have been mapped at its end. -/
def mapPages (h : Heap) (len : Nat) (fresh : Bytes) : Heap :=
  { h with
    mem := fun x =>
      if h.unallocatedMem ≤ x ∧ x < h.unallocatedMem + len then fresh x else h.mem x }

/-- `alloc_pages`, on a heap. -/
def allocPages (ext : Option Bytes) (size : Nat) (h : Heap) : Option (Heap × Nat) :=
  if nbPages size h = 0 then
    none
  else
    match ext with
    | some fresh =>
      some (growHeap (h.mapPages (0x1000 * nbPages size h) fresh)
        (0x1000 * nbPages size h % 2 ^ 32))
    | none => some (h, 0)

/-- `mem_alloc_aligned`, on a heap. -/
def memAllocAligned (ext : Option Bytes) (size alignment : Nat) (h : Heap) :
    Option (Heap × Nat) :=
  (findBlock h.mem (blockSize size alignment) WALK_FUEL h.firstFreeBlock).bind fun block =>
  (if block = 0 then h.allocPages ext (blockSize size alignment) else some (h, block)).bind fun r =>
  if r.2 = 0 then
    some (r.1, 0)
  else
    some (takeBlock (blockSize size alignment) alignment r.1 r.2)

/-- `mem_free`, on a heap. -/
def memFree (ptr : Nat) (h : Heap) : Option Heap :=
  (scanBack h.mem (sub32 ptr 1)).map fun maybeHeader =>
  let block := sub32 (add32 maybeHeader 1) 4
  (merge (insertAfter { h with mem := setUsed h.mem block false } block 0) block).1

end Heap

/-- What happens to a heap: an allocation with the outcome of the extension, a release, or writes
by whoever owns its memory. -/
inductive HeapOp where
  | alloc (size alignment : Nat) (ext : Option Bytes)
  | free (ptr : Nat)
  | write (mem : Bytes)

/-- The operation on a heap alone. -/
def HeapOp.run : HeapOp → Heap → Option Heap
  | .alloc size alignment ext, h => (h.memAllocAligned ext size alignment).map Prod.fst
  | .free ptr, h => h.memFree ptr
  | .write mem, h => some { h with mem := mem }

/-- The operation on the state, with the pair and the directory in force. -/
def HeapOp.exec : HeapOp → MallocState → Option MallocState
  | .alloc size alignment ext, s => (memAllocAligned L ext size alignment s).map Prod.fst
  | .free ptr, s => memFree L ptr s
  | .write mem, s => some { s with memory := Function.update s.memory s.currentDirectory mem }

/-! ## The state follows the heap -/

/-- Writing back the heap in force changes nothing. -/
lemma setHeap_heap : s.setHeap (s.heap L) = s := by
  simp [MallocState.setHeap]

/-- The last heap written back counts. -/
lemma setHeap_setHeap (h h' : Heap) : (s.setHeap h).setHeap h' = s.setHeap h' := by
  simp [MallocState.setHeap]

/-- Pages mapped before the heap is written back leave no trace. -/
lemma setHeap_mapPages (um len : Nat) (fresh : Bytes) (h : Heap) :
    (s.mapPages s.currentDirectory um len fresh).setHeap h = s.setHeap h := by
  simp [MallocState.setHeap, MallocState.mapPages]

lemma allocPages_map (ext : Option Bytes) (size : Nat) :
    allocPages L ext size s =
      ((s.heap L).allocPages ext size).map fun r => (s.setHeap r.1, r.2) := by
  rw [allocPages_eq]
  unfold Heap.allocPages
  by_cases h0 : nbPages size (s.heap L) = 0
  · rw [if_pos h0, if_pos h0, Option.map_none]
  · rw [if_neg h0, if_neg h0]
    cases ext with
    | none => simp only [Option.map_some, setHeap_heap]
    | some fresh =>
      simp only [Option.map_some, setHeap_mapPages, heap_mapPages, Heap.mapPages]
      rfl

lemma Heap.allocPages_startOfHeap {ext : Option Bytes} {size : Nat} {r : Heap × Nat}
    (e : h.allocPages ext size = some r) : r.1.startOfHeap = h.startOfHeap := by
  unfold Heap.allocPages at e
  by_cases h0 : nbPages size h = 0
  · rw [if_pos h0] at e; cases e
  · rw [if_neg h0] at e
    cases ext with
    | none =>
      obtain rfl := Option.some.inj e
      rfl
    | some fresh =>
      obtain rfl := Option.some.inj e
      simp [growHeap, Heap.mapPages]

lemma memAllocAligned_map (ext : Option Bytes) (size alignment : Nat) :
    memAllocAligned L ext size alignment s =
      ((s.heap L).memAllocAligned ext size alignment).map fun r => (s.setHeap r.1, r.2) := by
  unfold memAllocAligned Heap.memAllocAligned
  simp only [heap_firstFreeBlock]
  cases findBlock (s.heap L).mem (blockSize size alignment) WALK_FUEL s.firstFreeBlock with
  | none => rfl
  | some block =>
    simp only [Option.bind_some]
    by_cases hb : block = 0
    · rw [if_pos hb, if_pos hb, allocPages_map]
      cases e : (s.heap L).allocPages ext (blockSize size alignment) with
      | none => rfl
      | some r =>
        have hr : r.1.startOfHeap = startOfHeap L s.currentDirectory :=
          Heap.allocPages_startOfHeap e
        simp only [Option.map_some, Option.bind_some, heap_setHeap L hr, setHeap_setHeap]
        by_cases h0 : r.2 = 0
        · rw [if_pos h0, if_pos h0, Option.map_some]
        · rw [if_neg h0, if_neg h0, Option.map_some]
    · rw [if_neg hb, if_neg hb]
      simp only [Option.bind_some]
      rw [if_neg hb, if_neg hb, Option.map_some]

lemma memFree_map (ptr : Nat) :
    memFree L ptr s = ((s.heap L).memFree ptr).map s.setHeap := by
  unfold memFree Heap.memFree
  cases scanBack (s.heap L).mem (sub32 ptr 1) <;> rfl

/-- An operation does to the state what it does to the heap in force. -/
lemma HeapOp.exec_eq (op : HeapOp) (s : MallocState) :
    op.exec L s = (op.run (s.heap L)).map s.setHeap := by
  cases op with
  | alloc size alignment ext =>
    simp only [HeapOp.exec, HeapOp.run, memAllocAligned_map, Option.map_map]
    rfl
  | free ptr => exact memFree_map L ptr
  | write mem => rfl

/-- An operation keeps the start of the heap. -/
lemma HeapOp.run_startOfHeap {op : HeapOp} {h' : Heap} (e : op.run h = some h') :
    h'.startOfHeap = h.startOfHeap := by
  cases op with
  | alloc size alignment ext =>
    simp only [HeapOp.run, Heap.memAllocAligned, Option.map_eq_some_iff, Option.bind_eq_some_iff] at e
    obtain ⟨q, ⟨block, _, r, hr, hq⟩, rfl⟩ := e
    have hstart : r.1.startOfHeap = h.startOfHeap := by
      by_cases hb : block = 0
      · rw [if_pos hb] at hr
        exact Heap.allocPages_startOfHeap hr
      · rw [if_neg hb] at hr
        obtain rfl := Option.some.inj hr
        rfl
    by_cases h0 : r.2 = 0
    · rw [if_pos h0] at hq
      obtain rfl := Option.some.inj hq
      exact hstart
    · rw [if_neg h0] at hq
      obtain rfl := Option.some.inj hq
      rw [takeBlock_startOfHeap, hstart]
  | free ptr =>
    simp only [HeapOp.run, Heap.memFree, Option.map_eq_some_iff] at e
    obtain ⟨_, _, rfl⟩ := e
    simp
  | write mem =>
    obtain rfl := Option.some.inj e
    rfl

end MarioBrOS.Malloc
