import MarioBrOS.Malloc.Invariant

/-!
# Runs of the allocator

Any sequence of `mem_alloc_aligned` and `mem_free` on the heap of one directory, from the heap that
`malloc_new_state` builds. Next to the state stands the list of live allocations, as the callers
know it; in between the callers write into their payloads, and everything outside the heap may
change in any way.
-/

namespace MarioBrOS.Malloc

open Bytes

/-- The calls, with the outcome of the extension, and what happens to the memory between them. -/
inductive HeapEvent where
  | alloc (size alignment : Nat) (ext : Option Bytes)
  | free (al : Alloc)
  | write (memory : Nat → Bytes)

/-- The calls and writes that keep to the rules: a positive alignment and a size that does not
overflow, pages that fit below the end of the address space, pointers that are live. -/
inductive HeapStep (L : Layout) :
    MallocState × List Alloc → HeapEvent → MallocState × List Alloc → Prop where
  | alloc {s s' live size alignment ext p} :
    0 < alignment →
    size + alignment + 8 < 2 ^ 32 →
    (∀ fresh, ext = some fresh →
      s.unallocatedMem + 0x1000 * nbPages (blockSize size alignment) (s.heap L) < 2 ^ 32) →
    memAllocAligned L ext size alignment s = some (s', p) →
    HeapStep L (s, live) (.alloc size alignment ext)
      (s', if p = 0 then live else ⟨p, size, alignment⟩ :: live)
  | free {s s' live al} :
    al ∈ live →
    memFree L al.ptr s = some s' →
    HeapStep L (s, live) (.free al) (s', live.erase al)
  | write {s live memory} :
    (∀ x, startOfHeap L s.currentDirectory ≤ x → x < s.unallocatedMem →
      (∀ al ∈ live, ¬(al.ptr ≤ x ∧ x < al.ptr + al.size)) →
      memory s.currentDirectory x = s.memory s.currentDirectory x) →
    HeapStep L (s, live) (.write memory) ({ s with memory := memory }, live)

variable {L : Layout} {s : MallocState} {live : List Alloc} {bs : List Block} {fl : List Nat}

/-- A heap as `malloc_new_state` builds it in the directory `dir`. -/
def newHeap (L : Layout) (dir : Nat) (memory : Nat → Bytes) (kernelContext : HeapPair) :
    MallocState :=
  MallocState.setHeap
    { memory := memory
      firstFreeBlock := 0
      unallocatedMem := 0
      currentDirectory := dir
      kernelContext := kernelContext }
    (mallocNewState (memory dir) (startOfHeap L dir))

/-- The blocks represent the heap and their owners are the live allocations. -/
def Represents (L : Layout) (x : MallocState × List Alloc) (bs : List Block) : Prop :=
  HeapInv (x.1.heap L) bs ∧ (bs.filterMap Block.owner).Perm x.2

/-- The start of each heap leaves room for a first page. -/
lemma startOfHeap_bounds (L : Layout) (dir : Nat) :
    4 ≤ startOfHeap L dir ∧ startOfHeap L dir + 0x1000 < 2 ^ 32 := by
  unfold startOfHeap
  have hk := L.endOfKernel_pos
  have hk2 := L.endOfKernel_lt
  have hu := L.startOfUserHeap_page
  have hu0 := L.startOfUserHeap_pos
  have hu2 := L.startOfUserHeap_lt
  have hc := ceilMultiple_spec (n := L.endOfKernel) (k := 0x1000) (by omega) (by omega)
  split <;> omega

/-- The new heap is one free block. -/
lemma newHeap_represents (dir : Nat) (memory : Nat → Bytes) (k : HeapPair) :
    Represents L (newHeap L dir memory k, []) [⟨startOfHeap L dir, 0x1000, none⟩] := by
  obtain ⟨hlo, hhi⟩ := startOfHeap_bounds L dir
  have hheap : (newHeap L dir memory k).heap L =
      mallocNewState (memory dir) (startOfHeap L dir) := heap_setHeap L rfl
  have hset : BlockOk (setBlock (memory dir) (startOfHeap L dir) 0x1000 false)
      ⟨startOfHeap L dir, 0x1000, none⟩ := setBlock_free (by decide) (by decide) hhi
  generalize startOfHeap L dir = start at *
  have hmem : (mallocNewState (memory dir) start).mem =
      setNext (setPrev (setBlock (memory dir) start 0x1000 false) start 0) start 0 := rfl
  refine ⟨⟨by simp, [start], ?_, ⟨by simp, by simp [NoAdjacent]⟩⟩, by simp⟩
  rw [hheap]
  have hum : (mallocNewState (memory dir) start).unallocatedMem = start + 0x1000 :=
    add32_of_lt hhi
  refine ⟨hlo, by rw [hum]; exact hhi, ⟨rfl, hum.symm⟩, ?_, ⟨rfl, by omega, ?_, ?_⟩, by simp,
    by simp⟩
  · intro b hb
    obtain rfl := List.mem_singleton.mp hb
    refine hset.congr_links rfl fun x _ _ hx => ?_
    simp only at hx
    rw [hmem, setNext_outside (by omega), setPrev_outside (by omega)]
  · rw [hmem, getPrev_setNext (by omega), getPrev_setPrev (by omega) (by decide), if_pos rfl]
  · change getNext _ start = 0
    rw [hmem, getNext_setNext (by omega) (by decide), if_pos rfl]

/-- Every call and every write keeps the correspondence. -/
lemma HeapStep.represents {x e y} (st : HeapStep L x e y) (h : ∃ bs, Represents L x bs) :
    ∃ bs, Represents L y bs := by
  obtain ⟨bs, hinv, hown⟩ := h
  cases st with
  | alloc hal hreq hext hcall =>
    rcases memAllocAligned_spec L hinv hal hreq hext with e | ⟨s', p, bs', e, hp, _, hinv', hown'⟩
    · rw [hcall] at e
      obtain ⟨rfl, rfl⟩ := Prod.mk.inj (Option.some.inj e)
      exact ⟨bs, hinv, hown⟩
    · rw [hcall] at e
      obtain ⟨rfl, rfl⟩ := Prod.mk.inj (Option.some.inj e)
      refine ⟨bs', hinv', ?_⟩
      simp only [if_neg hp]
      exact hown'.trans (hown.cons _)
  | @free s s' live al hal hcall =>
    obtain ⟨b, hb, hba⟩ := List.mem_filterMap.mp (hown.symm.subset hal)
    obtain ⟨s'', bs', e, _, hinv', hown'⟩ := memFree_spec L hinv hb hba
    rw [hcall] at e
    obtain rfl := Option.some.inj e
    exact ⟨bs', hinv', hown'.trans (hown.erase al)⟩
  | @write s live memory hw =>
    obtain ⟨hne, fl, sh, co⟩ := hinv
    refine ⟨bs, ⟨hne, fl, ?_, co⟩, hown⟩
    refine sh.scribble fun x h1 h2 hx => hw x h1 h2 fun al hal => ?_
    obtain ⟨b, hb, hba⟩ := List.mem_filterMap.mp (hown.symm.subset hal)
    exact hx b hb al hba

/-- What the bytes of a heap with the live allocations `live` look like. -/
structure WellFormed (h : Heap) (live : List Alloc) (bs : List Block) (fl : List Nat) : Prop where
  inMemory : h.unallocatedMem < 2 ^ 32
  tiles : Tiles Block.addr Block.size h.startOfHeap bs h.unallocatedMem
  sizes : ∀ b ∈ bs, b.size % 2 = 0 ∧ 16 ≤ b.size ∧ getSize h.mem b.addr = b.size ∧
    getSize h.mem (b.addr + b.size - 4) = b.size
  list : Links 0 (getPrev h.mem) (getNext h.mem) 0 h.firstFreeBlock fl
  once : fl.Nodup
  free : ∀ x, x ∈ fl ↔ ∃ b ∈ bs, b.addr = x ∧ getUsed h.mem b.addr = false
  inverse : ∀ x ∈ fl, (getNext h.mem x ≠ 0 → getPrev h.mem (getNext h.mem x) = x) ∧
    (getPrev h.mem x ≠ 0 → getNext h.mem (getPrev h.mem x) = x)
  apart : bs.IsChain fun b c => getUsed h.mem b.addr = true ∨ getUsed h.mem c.addr = true
  payload : ∀ al ∈ live, ∃ b ∈ bs, getUsed h.mem b.addr = true ∧ b.addr + 4 ≤ al.ptr ∧
    al.ptr + al.size ≤ b.addr + b.size - 4 ∧ al.alignment ∣ al.ptr
  disjoint : live.Pairwise fun a b => a.ptr + a.size < b.ptr ∨ b.ptr + b.size < a.ptr

/-- The abstract heap, read off the bytes. -/
lemma Represents.wellFormed (h : Represents L (s, live) bs) :
    ∃ fl, WellFormed (s.heap L) live bs fl := by
  obtain ⟨⟨_, fl, sh, co⟩, hown⟩ := h
  have hused : ∀ b ∈ bs, getUsed (s.heap L).mem b.addr = b.owner.isSome := fun b hb => sh.getUsed hb
  refine ⟨fl, sh.hi, sh.tiles, fun b hb => ?_, sh.links, sh.nodup, fun x => ⟨fun hx => ?_, ?_⟩,
    fun x hx => ⟨sh.links.prev_next hx, sh.links.next_prev hx⟩, ?_, fun al hal => ?_, ?_⟩
  · have ok := sh.blocks b hb
    have he := ok.even
    refine ⟨ok.even, ok.min, sh.getSize hb, ?_⟩
    rw [getSize, ok.last]
    omega
  · obtain ⟨b, hb, e, hf⟩ := sh.free x hx
    exact ⟨b, hb, e, by rw [hused b hb, hf]; rfl⟩
  · rintro ⟨b, hb, rfl, hf⟩
    rw [hused b hb] at hf
    exact co.complete b hb (by simpa using hf)
  · refine co.chain.imp_of_mem_imp fun b c hb hc hbc => ?_
    rwa [hused b hb, hused c hc]
  · obtain ⟨b, hb, hba⟩ := List.mem_filterMap.mp (hown.symm.subset hal)
    have hok := (sh.blocks b hb).alloc al hba
    exact ⟨b, hb, by rw [hused b hb, hba]; rfl, hok.lo, hok.hi, hok.aligned⟩
  · refine (hown.pairwise_iff fun {a b} h => h.symm).mp ?_
    refine List.pairwise_filterMap.mpr ?_
    refine sh.tiles.pairwise.imp_of_mem fun {b c} hb hc hbc a ha a' ha' => .inl ?_
    have h1 := (sh.blocks b hb).alloc a ha
    have h2 := (sh.blocks c hc).alloc a' ha'
    have h3 := (sh.blocks b hb).min
    have h4 := h1.hi
    have h5 := h2.lo
    omega

/-- The heap invariant, over every run of allocations, releases and writes from a new heap: the heap
is well formed, and the next call returns. -/
theorem heap_wellFormed {dir memory k es}
    (r : Run (HeapStep L) (newHeap L dir memory k, []) es (s, live)) :
    (∃ bs fl, WellFormed (s.heap L) live bs fl) ∧
    (∀ size alignment ext, 0 < alignment → size + alignment + 8 < 2 ^ 32 →
      (∀ fresh, ext = some fresh →
        s.unallocatedMem + 0x1000 * nbPages (blockSize size alignment) (s.heap L) < 2 ^ 32) →
      (memAllocAligned L ext size alignment s).isSome) ∧
    ∀ al ∈ live, (memFree L al.ptr s).isSome := by
  obtain ⟨bs, h⟩ := r.invariant (I := fun x => ∃ bs, Represents L x bs)
    (fun _ _ _ h st => st.represents h) ⟨_, newHeap_represents dir memory k⟩
  refine ⟨⟨bs, h.wellFormed⟩, fun size alignment ext hal hreq hext => ?_, fun al hal => ?_⟩
  · rcases memAllocAligned_spec L h.1 hal hreq hext with e | ⟨_, _, _, e, _⟩ <;> rw [e] <;> rfl
  · obtain ⟨b, hb, hba⟩ := List.mem_filterMap.mp (h.2.symm.subset hal)
    obtain ⟨_, _, e, _⟩ := memFree_spec L h.1 hb hba
    rw [e]; rfl

/-- A kernel that ends at `0x150000`, with user heaps from `0x300000`. -/
def sampleLayout : Layout where
  kernelDirectory := 0
  endOfKernel := 0x150000
  startOfUserHeap := 0x300000
  pagingEnabled := true
  endOfKernel_pos := by decide
  endOfKernel_lt := by decide
  startOfUserHeap_page := by decide
  startOfUserHeap_pos := by decide
  startOfUserHeap_lt := by decide

/-- A new user heap. -/
def sampleHeap : MallocState := newHeap sampleLayout 1 (fun _ _ => 0) ⟨0, 0⟩

/-- 100 bytes with alignment 64 are allocated in a new heap and the heap stays well formed. -/
theorem heap_wellFormed_sample :
    ∃ s bs fl, memAllocAligned sampleLayout none 100 64 sampleHeap = some (s, 0x300040) ∧
      WellFormed (s.heap sampleLayout) [⟨0x300040, 100, 64⟩] bs fl := by
  obtain ⟨⟨s, p⟩, e⟩ := Option.isSome_iff_exists.mp
    ((heap_wellFormed (.nil (s := (sampleHeap, [])))).2.1 100 64 none (by decide) (by decide)
      (by simp))
  have hp : ((memAllocAligned sampleLayout none 100 64 sampleHeap).map Prod.snd) =
      some 0x300040 := by decide +kernel
  obtain rfl : p = 0x300040 := by simpa [e] using hp
  obtain ⟨bs, fl, h⟩ := (heap_wellFormed
    (Run.single (.alloc (by decide) (by decide) (by simp) e))).1
  exact ⟨s, bs, fl, e, h⟩

end MarioBrOS.Malloc
