import MarioBrOS.Memory

/-!
# The allocator

`malloc.c` at the level of bytes. A block starts with a header word, its half size with the used bit
on top, and ends with a copy of it; a free block keeps the links of the free list behind the first
header. A `Heap` is what the block functions work on: the memory of the current directory, the two
globals and the bound `START_OF_HEAP`. `MallocState` adds what `alloc_pages` switches: the current
directory and the saved pair of the kernel.

Addresses are 32-bit words. A call that throws, or that runs past the end of the address space,
has no result. The outcome of `extend_heap` comes in as an argument: the bytes the new pages hold,
if they could be mapped.
-/

namespace MarioBrOS.Malloc

open Bytes

/-! ## Blocks -/

/-- `malloc.c`, `get_size`. -/
def getSize (m : Bytes) (block : Nat) : Nat := 2 * (m.get32 block % 2 ^ 31)

/-- `malloc.c`, `get_used`. -/
def getUsed (m : Bytes) (block : Nat) : Bool := decide (m.get32 block / 2 ^ 31 = 1)

/-- `block->prev`. -/
def getPrev (m : Bytes) (block : Nat) : Nat := m.get32 (block + 4)

/-- `block->next`. -/
def getNext (m : Bytes) (block : Nat) : Nat := m.get32 (block + 8)

/-- `block->prev = v`. -/
def setPrev (m : Bytes) (block v : Nat) : Bytes := m.set32 (block + 4) v

/-- `block->next = v`. -/
def setNext (m : Bytes) (block v : Nat) : Bytes := m.set32 (block + 8) v

/-- `block->used = used`. -/
def setUsed (m : Bytes) (block : Nat) (used : Bool) : Bytes :=
  m.set32 block (m.get32 block % 2 ^ 31 + if used then 2 ^ 31 else 0)

/-- `malloc.c`, `set_size`. -/
def setSize (m : Bytes) (block size : Nat) : Bytes :=
  m.set32 block (size / 2 % 2 ^ 31 + 2 ^ 31 * (m.get32 block / 2 ^ 31))

/-- `malloc.c`, `get_end_header`. -/
def getEndHeader (m : Bytes) (block : Nat) : Nat := sub32 (add32 block (getSize m block)) 4

/-- `malloc.c`, `set_block`. -/
def setBlock (m : Bytes) (block size : Nat) (used : Bool) : Bytes :=
  let m := setUsed (setSize m block size) block used
  m.set32 (getEndHeader m block) (m.get32 block)

/-- What the block functions work on. -/
structure Heap where
  mem : Bytes
  firstFreeBlock : Nat
  unallocatedMem : Nat
  startOfHeap : Nat

/-- `malloc.c`, `get_prev_block`. -/
def getPrevBlock (h : Heap) (block : Nat) : Nat :=
  if sub32 block 4 < h.startOfHeap then 0 else sub32 block (getSize h.mem (sub32 block 4))

/-- `malloc.c`, `get_next_block`. -/
def getNextBlock (h : Heap) (block : Nat) : Nat :=
  let next := add32 block (getSize h.mem block)
  if next ≥ h.unallocatedMem then 0 else next

/-! ## The free list -/

/-- `malloc.c`, `insert_after`. -/
def insertAfter (h : Heap) (toInsert block : Nat) : Heap :=
  if block ≠ 0 then
    let b := getNext h.mem block
    let m := setNext h.mem block toInsert
    let m := setPrev m toInsert block
    let m := setNext m toInsert b
    { h with mem := if b ≠ 0 then setPrev m b toInsert else m }
  else
    let m := setNext h.mem toInsert h.firstFreeBlock
    let m := setPrev m toInsert 0
    { h with
      mem := if h.firstFreeBlock ≠ 0 then setPrev m h.firstFreeBlock toInsert else m
      firstFreeBlock := toInsert }

/-- `malloc.c`, `remove`. -/
def remove (h : Heap) (c : Nat) : Heap :=
  let a := getPrev h.mem c
  let b := getNext h.mem c
  let h := if a ≠ 0 then { h with mem := setNext h.mem a b } else { h with firstFreeBlock := b }
  if b ≠ 0 then { h with mem := setPrev h.mem b a } else h

/-- `malloc.c`, `merge_with_next`. -/
def mergeWithNext (h : Heap) (a : Nat) : Heap :=
  let b := getNextBlock h a
  if b ≠ 0 ∧ getUsed h.mem b = false then
    let e := getPrev h.mem b
    let f := getNext h.mem b
    let h := if e ≠ 0 then { h with mem := setNext h.mem e f } else { h with firstFreeBlock := f }
    let h := if f ≠ 0 then { h with mem := setPrev h.mem f e } else h
    let newSize := add32 (getSize h.mem a) (getSize h.mem b)
    let m := setSize h.mem a newSize
    { h with mem := setSize m (getEndHeader m a) newSize }
  else
    h

/-- `malloc.c`, `merge`. -/
def merge (h : Heap) (block : Nat) : Heap × Nat :=
  let h := mergeWithNext h block
  let prev := getPrevBlock h block
  if prev ≠ 0 ∧ getUsed h.mem prev = false then
    (mergeWithNext h prev, prev)
  else
    (h, block)

/-! ## Growth -/

/-- The number of pages `alloc_pages` asks for. -/
def nbPages (size : Nat) (h : Heap) : Nat :=
  let lastBlock := getPrevBlock h h.unallocatedMem
  let lastSize := getSize h.mem lastBlock
  let free := !getUsed h.mem lastBlock
  if free then ceilRatio (sub32 size lastSize) 0x1000 else ceilRatio size 0x1000

/-- The part of `alloc_pages` after a successful extension by `len` bytes: the new pages become a
free block, which is merged with the last one. -/
def growHeap (h : Heap) (len : Nat) : Heap × Nat :=
  let block := h.unallocatedMem
  let h := { h with mem := setBlock h.mem h.unallocatedMem len false }
  let h := insertAfter h h.unallocatedMem 0
  let h := { h with unallocatedMem := add32 h.unallocatedMem len }
  merge h block

/-- `malloc.c`, `malloc_new_state`: the memory, `first_free_block` and `unallocated_mem`. -/
def mallocNewState (m : Bytes) (startOfHeap : Nat) : Heap :=
  let m := setBlock m startOfHeap 0x1000 false
  { mem := setNext (setPrev m startOfHeap 0) startOfHeap 0
    firstFreeBlock := startOfHeap
    unallocatedMem := add32 startOfHeap 0x1000
    startOfHeap := startOfHeap }

/-! ## The globals -/

/-- The heap of each directory starts at a page boundary with room for a first page. -/
structure Layout where
  kernelDirectory : Nat
  endOfKernel : Nat
  startOfUserHeap : Nat
  pagingEnabled : Bool
  endOfKernel_pos : 0 < endOfKernel
  endOfKernel_lt : endOfKernel + 0x2000 < 2 ^ 32
  startOfUserHeap_page : startOfUserHeap % 0x1000 = 0
  startOfUserHeap_pos : 0 < startOfUserHeap
  startOfUserHeap_lt : startOfUserHeap + 0x1000 < 2 ^ 32

/-- A saved pair `first_free_block`, `unallocated_mem` (`process.h`, `context_t`). -/
structure HeapPair where
  firstFreeBlock : Nat
  unallocatedMem : Nat
  deriving DecidableEq, Repr

/-- What the allocator works on: what each directory's addresses hold, the pair in force, the
current directory and the kernel's saved pair. -/
structure MallocState where
  memory : Nat → Bytes
  firstFreeBlock : Nat
  unallocatedMem : Nat
  currentDirectory : Nat
  kernelContext : HeapPair

variable (L : Layout)

/-- `malloc.c`, `START_OF_HEAP`. -/
def startOfHeap (dir : Nat) : Nat :=
  if dir = L.kernelDirectory then ceilMultiple L.endOfKernel 0x1000 else L.startOfUserHeap

/-- The heap in force. -/
def MallocState.heap (s : MallocState) : Heap where
  mem := s.memory s.currentDirectory
  firstFreeBlock := s.firstFreeBlock
  unallocatedMem := s.unallocatedMem
  startOfHeap := startOfHeap L s.currentDirectory

/-- Writes the heap in force back. -/
def MallocState.setHeap (s : MallocState) (h : Heap) : MallocState :=
  { s with
    memory := Function.update s.memory s.currentDirectory h.mem
    firstFreeBlock := h.firstFreeBlock
    unallocatedMem := h.unallocatedMem }

/-- The pages `extend_heap` maps at the end of the heap of `dir`, with the bytes they hold. -/
def MallocState.mapPages (s : MallocState) (dir um len : Nat) (fresh : Bytes) : MallocState :=
  { s with
    memory := Function.update s.memory dir fun x =>
      if um ≤ x ∧ x < um + len then fresh x else s.memory dir x }

/-- The switch of `alloc_pages` to the kernel's directory and pair, before the extension. -/
def MallocState.enterKernel (s : MallocState) : MallocState :=
  { s with
    currentDirectory := L.kernelDirectory
    unallocatedMem := s.kernelContext.unallocatedMem
    firstFreeBlock := s.kernelContext.firstFreeBlock }

/-- The switch of `alloc_pages` back to the directory `temp` and its pair. -/
def MallocState.leaveKernel (temp userUm userFfb : Nat) (s : MallocState) : MallocState :=
  { s with currentDirectory := temp, unallocatedMem := userUm, firstFreeBlock := userFfb }

/-- `malloc.c`, `alloc_pages`. `ext` is the outcome of `extend_heap`, which throws on 0 pages. -/
def allocPages (ext : Option Bytes) (size : Nat) (s : MallocState) : Option (MallocState × Nat) :=
  let nbPages := nbPages size (s.heap L)
  let changeDir := L.pagingEnabled && s.currentDirectory != L.kernelDirectory
  let temp := s.currentDirectory
  let userUm := s.unallocatedMem
  let userFfb := s.firstFreeBlock
  let s := if changeDir then s.enterKernel L else s
  if nbPages = 0 then
    none
  else
    match ext with
    | some fresh =>
      let s := s.mapPages temp userUm (0x1000 * nbPages) fresh
      let s := if changeDir then s.leaveKernel temp userUm userFfb else s
      let r := growHeap (s.heap L) (0x1000 * nbPages % 2 ^ 32)
      some (s.setHeap r.1, r.2)
    | none =>
      let s := if changeDir then s.leaveKernel temp userUm userFfb else s
      some (s, 0)

/-! ## Allocation -/

/-- The search of `mem_alloc_aligned` along the free list, in at most `fuel` steps. -/
def findBlock (m : Bytes) (size : Nat) : Nat → Nat → Option Nat
  | 0, _ => none
  | fuel + 1, block =>
    if block ≠ 0 ∧ getSize m block < size then findBlock m size fuel (getNext m block)
    else some block

/-- More steps than a list of different addresses can take. -/
def WALK_FUEL : Nat := 2 ^ 32

/-- The size of the block `mem_alloc_aligned` looks for. -/
def blockSize (size alignment : Nat) : Nat :=
  ceilMultiple (max (add32 (add32 (sub32 (add32 4 alignment) 1) size) 4) (12 + 4)) 2

/-- The part of `mem_alloc_aligned` that marks `size` bytes of an unlinked block as used: the rest
becomes a free block if it is big enough. -/
def useBlock (size : Nat) (h : Heap) (block : Nat) : Heap :=
  let sizeBlock := getSize h.mem block
  if 12 + 4 ≤ sub32 sizeBlock size then
    let h := { h with mem := setBlock h.mem block size true }
    let next := getNextBlock h block
    let h := { h with mem := setBlock h.mem next (sub32 sizeBlock size) false }
    let h := insertAfter h next 0
    mergeWithNext h next
  else
    { h with mem := setBlock h.mem block sizeBlock true }

/-- The part of `mem_alloc_aligned` from `remove(block)` on: takes the block and pads up to the
address it returns. -/
def takeBlock (size alignment : Nat) (h : Heap) (block : Nat) : Heap × Nat :=
  let h := useBlock size (remove h block) block
  let start := block
  let afterHeader := add32 start 4
  let afterPadding := ceilMultiple afterHeader alignment
  ({ h with mem := memSet h.mem afterHeader 0 (sub32 afterPadding afterHeader) }, afterPadding)

/-- `malloc.c`, `mem_alloc_aligned`: the new state and the pointer returned. -/
def memAllocAligned (ext : Option Bytes) (size alignment : Nat) (s : MallocState) :
    Option (MallocState × Nat) :=
  let size := blockSize size alignment
  (findBlock (s.heap L).mem size WALK_FUEL s.firstFreeBlock).bind fun block =>
  (if block = 0 then allocPages L ext size s else some (s, block)).bind fun r =>
  if r.2 = 0 then
    some (r.1, 0)
  else
    let t := takeBlock size alignment (r.1.heap L) r.2
    some (r.1.setHeap t.1, t.2)

/-- `malloc.c`, `mem_alloc`. -/
def memAlloc (ext : Option Bytes) (size : Nat) (s : MallocState) : Option (MallocState × Nat) :=
  memAllocAligned L ext size 1 s

/-! ## Release -/

/-- The scan of `mem_free` for the last byte that is not zero. -/
def scanBack (m : Bytes) : Nat → Option Nat
  | 0 => if m 0 = 0 then none else some 0
  | p + 1 => if m (p + 1) = 0 then scanBack m p else some (p + 1)

/-- `malloc.c`, `mem_free`. -/
def memFree (ptr : Nat) (s : MallocState) : Option MallocState :=
  (scanBack (s.heap L).mem (sub32 ptr 1)).map fun maybeHeader =>
  let block := sub32 (add32 maybeHeader 1) 4
  let h := s.heap L
  let h := { h with mem := setUsed h.mem block false }
  let h := insertAfter h block 0
  s.setHeap (merge h block).1

end MarioBrOS.Malloc
