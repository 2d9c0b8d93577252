import MarioBrOS.Malloc.HeapOp

/-!
# Single requests

What one call promises on a well-formed heap. `mem_free` finds the block of every live pointer
(`free_finds_block`). `mem_alloc` computes the size of its block modulo 2^32 and does not look
whether it wraps (`request_honoured`). `alloc_pages` locates the last block by the end header below
`unallocated_mem`, which the heap that `malloc_install` leaves does not have (`growth`).
-/

namespace MarioBrOS.Malloc

open Bytes

variable {L : Layout} {s : MallocState} {live : List Alloc} {b : Block} {bs : List Block}
  {fl : List Nat} {size : Nat} {ext : Option Bytes}

/-! ## Releasing -/

/-- `mem_free` of the pointer of a block: the scan recovers the address of its header, and the heap
handed to `insert_after` has the used bit of this header cleared. -/
lemma memFree_block {al : Alloc} (sh : Shape (s.heap L) bs fl) (hb : b ∈ bs)
    (hal : b.owner = some al) :
    scanBack (s.heap L).mem (sub32 al.ptr 1) = some (b.addr + 3) ∧
      memFree L al.ptr s = some (s.setHeap (merge (insertAfter
        { s.heap L with mem := setUsed (s.heap L).mem b.addr false } b.addr 0) b.addr).1) := by
  have hbd := sh.bounds hb
  have hhi := sh.hi
  have ok := sh.blocks b hb
  have hlo := (ok.alloc al hal).lo
  have halhi := (ok.alloc al hal).hi
  have hscan : scanBack (s.heap L).mem (sub32 al.ptr 1) = some (b.addr + 3) := by
    rw [sub32_of_le (by omega) (by omega)]
    exact scanBack_header ok hal
  have haddr : sub32 (add32 (b.addr + 3) 1) 4 = b.addr := by
    rw [add32_of_lt (by omega), sub32_of_le (by omega) (by omega)]
    omega
  refine ⟨hscan, ?_⟩
  simp only [memFree, hscan, Option.map_some, haddr]

/-- From every well-formed heap, after every sequence of calls and writes: the scan of `mem_free`
from a live pointer stays in the block of the allocation and ends at the last byte of its first
header, and this block is the one that is freed. -/
theorem free_finds_block {x : MallocState × List Alloc} {es} (h : Represents L x bs)
    (r : Run (HeapStep L) x es (s, live)) {al : Alloc} (hal : al ∈ live) :
    ∃ bs' fl, WellFormed (s.heap L) live bs' fl ∧
      ∃ b ∈ bs', getUsed (s.heap L).mem b.addr = true ∧ b.addr + 4 ≤ al.ptr ∧
        al.ptr + al.size ≤ b.addr + b.size - 4 ∧
        scanBack (s.heap L).mem (sub32 al.ptr 1) = some (b.addr + 3) ∧
        memFree L al.ptr s = some (s.setHeap (merge (insertAfter
          { s.heap L with mem := setUsed (s.heap L).mem b.addr false } b.addr 0) b.addr).1) := by
  obtain ⟨bs', h'⟩ := r.invariant (I := fun x => ∃ bs, Represents L x bs)
    (fun _ _ _ h st => st.represents h) ⟨bs, h⟩
  obtain ⟨fl, wf⟩ := h'.wellFormed
  obtain ⟨⟨_, _, sh, _⟩, hown⟩ := h'
  obtain ⟨b, hb, hba⟩ := List.mem_filterMap.mp (hown.symm.subset hal)
  have hok := (sh.blocks b hb).alloc al hba
  obtain ⟨hscan, hfree⟩ := memFree_block sh hb hba
  refine ⟨bs', fl, wf, b, hb, ?_, hok.lo, hok.hi, hscan, hfree⟩
  rw [sh.getUsed hb, hba]
  rfl

/-- The pointer to 100 bytes with alignment 64 in a new heap: the block is found 60 bytes further
down. -/
theorem free_finds_block_sample :
    ∃ (s : MallocState) (bs' : List Block) (fl : List Nat),
      WellFormed (s.heap sampleLayout) [⟨0x300040, 100, 64⟩] bs' fl ∧
      ∃ b ∈ bs', scanBack (s.heap sampleLayout).mem (sub32 0x300040 1) = some (b.addr + 3) := by
  have hinv := newHeap_represents (L := sampleLayout) 1 (fun _ _ => 0) ⟨0, 0⟩
  have hal : 0 < 64 := by decide
  have hreq : 100 + 64 + 8 < 2 ^ 32 := by decide
  have hext : ∀ fresh : Bytes, none = some fresh → sampleHeap.unallocatedMem +
      0x1000 * nbPages (blockSize 100 64) (sampleHeap.heap sampleLayout) < 2 ^ 32 := by simp
  obtain ⟨⟨s, p⟩, e⟩ : ∃ r, memAllocAligned sampleLayout none 100 64 sampleHeap = some r := by
    rcases memAllocAligned_spec sampleLayout hinv.1 hal hreq hext with e | ⟨_, _, _, e, _⟩ <;>
      exact ⟨_, e⟩
  have hp : ((memAllocAligned sampleLayout none 100 64 sampleHeap).map Prod.snd) =
      some 0x300040 := by decide +kernel
  obtain rfl : p = 0x300040 := by simpa [e] using hp
  have st : HeapStep sampleLayout (sampleHeap, []) (.alloc 100 64 none)
      (s, [⟨0x300040, 100, 64⟩]) := .alloc hal hreq hext e
  obtain ⟨bs', fl, wf, b, hb, _, _, _, hscan, _⟩ :=
    free_finds_block hinv (Run.single st) (List.mem_singleton.mpr rfl)
  exact ⟨s, bs', fl, wf, b, hb, hscan⟩

/-! ## Allocating -/

/-- The `size` bytes at `p` lie between the two headers of a used block of the heap. -/
def Honoured (h : Heap) (p size : Nat) : Prop :=
  ∃ block, h.startOfHeap ≤ block ∧ block + getSize h.mem block ≤ h.unallocatedMem ∧
    getUsed h.mem block = true ∧ block + 4 ≤ p ∧ p + size ≤ block + getSize h.mem block - 4

/-- Live allocations are honoured. -/
lemma HeapInv.honoured {h : Heap} {al : Alloc} (hinv : HeapInv h bs)
    (hal : al ∈ bs.filterMap Block.owner) : Honoured h al.ptr al.size := by
  obtain ⟨_, fl, sh, _⟩ := hinv
  obtain ⟨b, hb, hba⟩ := List.mem_filterMap.mp hal
  have hbd := sh.bounds hb
  have hok := (sh.blocks b hb).alloc al hba
  refine ⟨b.addr, hbd.1, ?_, ?_, hok.lo, ?_⟩
  · rw [sh.getSize hb]
    exact hbd.2.1
  · rw [sh.getUsed hb, hba]
    rfl
  · rw [sh.getSize hb]
    exact hok.hi

/-- No heap honours a request for almost all of the address space. -/
lemma not_honoured {h : Heap} {p : Nat} (hlo : 4 ≤ h.startOfHeap) (hum : h.unallocatedMem < 2 ^ 32)
    (hsize : 2 ^ 32 ≤ size + 9) : ¬ Honoured h p size := by
  rintro ⟨block, h1, h2, _, h4, h5⟩
  omega

/-- The end of the heap is an address. -/
lemma memAlloc_unallocatedMem {s' : MallocState} {p : Nat} (hlt : s.unallocatedMem < 2 ^ 32)
    (e : memAlloc L ext size s = some (s', p)) : s'.unallocatedMem < 2 ^ 32 := by
  rw [memAlloc, memAllocAligned_map] at e
  obtain ⟨r, hr, e⟩ := Option.map_eq_some_iff.mp e
  obtain ⟨rfl, _⟩ := Prod.mk.inj e
  change r.1.unallocatedMem < 2 ^ 32
  unfold Heap.memAllocAligned at hr
  obtain ⟨block, _, hr⟩ := Option.bind_eq_some_iff.mp hr
  obtain ⟨t, ht, hr⟩ := Option.bind_eq_some_iff.mp hr
  have key : t.1.unallocatedMem < 2 ^ 32 := by
    by_cases hb : block = 0
    · rw [if_pos hb] at ht
      unfold Heap.allocPages at ht
      split_ifs at ht with h0
      cases ext with
      | none =>
        obtain rfl := Option.some.inj ht
        exact hlt
      | some fresh =>
        obtain rfl := Option.some.inj ht
        simp only [growHeap, merge_unallocatedMem, insertAfter_unallocatedMem, add32]
        exact Nat.mod_lt _ (by decide)
    · rw [if_neg hb] at ht
      obtain rfl := Option.some.inj ht
      exact hlt
  split_ifs at hr with h0
  · obtain rfl := Option.some.inj hr
    exact key
  · obtain rfl := Option.some.inj hr
    simpa using key

/-- The size of the block for a request that wraps around. -/
lemma blockSize_wraps (hlt : size < 2 ^ 32) (hwrap : 2 ^ 32 ≤ size + 9) :
    blockSize size 1 = if size + 9 = 2 ^ 32 then 0 else 16 := by
  have h4 : sub32 (add32 4 1) 1 = 4 := by decide +kernel
  unfold blockSize
  rw [h4]
  split_ifs with h
  · obtain rfl : size = 2 ^ 32 - 9 := by omega
    decide +kernel
  · have hmod : add32 (add32 4 size) 4 = size + 8 - 2 ^ 32 := by
      unfold add32
      omega
    have hmax : max (size + 8 - 2 ^ 32) (12 + 4) = 16 := by omega
    rw [hmod, hmax]
    decide +kernel

/-- The pointer to a block is not NULL. -/
lemma takeBlock_ne_null {h : Heap} {n block : Nat} (hlt : block + 4 < 2 ^ 32) :
    (takeBlock n 1 h block).2 ≠ 0 := by
  change ceilMultiple (add32 block 4) 1 ≠ 0
  unfold ceilMultiple
  rw [Nat.mod_one, if_neg (by decide), add32_of_lt hlt]
  omega

/-- No pages are asked for behind a used block when the size is 0. -/
lemma Shape.nbPages_zero {h : Heap} (sh : Shape h bs fl) (hne : bs ≠ [])
    (hsmall : ∀ p ∈ bs, p.owner = none → p.size < 0) : Malloc.nbPages 0 h = 0 := by
  obtain ⟨l, p, rfl⟩ : ∃ l p, bs = l ++ [p] := by
    rcases List.eq_nil_or_concat bs with rfl | ⟨l, p, rfl⟩
    · exact absurd rfl hne
    · exact ⟨l, p, by simp⟩
  have hprev : Malloc.getPrevBlock h h.unallocatedMem = p.addr := by
    simpa using getPrevBlock_of_tiles sh.lo sh.hi sh.tiles sh.blocks
  have hused : Malloc.getUsed h.mem p.addr = true := by
    rw [sh.getUsed (by simp), Option.isSome_iff_ne_none]
    exact fun hf => absurd (hsmall p (by simp) hf) (Nat.not_lt_zero _)
  unfold Malloc.nbPages
  simp only [hprev, hused]
  rw [if_neg (by decide)]
  decide

/-- A request that wraps around is refused if and only if no block is free, and the page for the
smallest block there is cannot be had. -/
lemma memAlloc_null_wraps (hinv : HeapInv (s.heap L) bs)
    (hext : ∀ fresh, ext = some fresh →
      s.unallocatedMem + 0x1000 * nbPages (blockSize size 1) (s.heap L) < 2 ^ 32)
    (hlt : size < 2 ^ 32) (hwrap : 2 ^ 32 ≤ size + 9) :
    (∃ s', memAlloc L ext size s = some (s', 0)) ↔
      size + 9 ≠ 2 ^ 32 ∧ s.firstFreeBlock = 0 ∧ ext = none := by
  obtain ⟨hne, fl, sh, co⟩ := hinv
  have hnull := sh.links.ne_null
  have hfuel : fl.length < WALK_FUEL :=
    length_lt_of_nodup sh.nodup hnull (fun x hx => sh.node_lt hx) (by unfold WALK_FUEL; omega)
  have hsize := blockSize_wraps hlt hwrap
  unfold memAlloc memAllocAligned
  rcases findBlock_cases (blockSize size 1) sh.links hfuel with ⟨y, hy, hfind, _⟩ | ⟨hfind, hsmall⟩
  · -- a block is free
    obtain ⟨b, hb, rfl, _⟩ := sh.free y hy
    have hbd := sh.bounds hb
    have hmin := (sh.blocks b hb).min
    have hhi := sh.hi
    have h0 := hnull _ hy
    have hfirst : s.firstFreeBlock ≠ 0 := by
      cases fl with
      | nil => exact absurd hy List.not_mem_nil
      | cons z fl =>
        have hz : z = s.firstFreeBlock := sh.links.1.symm
        exact hz ▸ hnull z List.mem_cons_self
    simp only [heap_firstFreeBlock] at hfind
    simp only [hfind, Option.bind_some, if_neg h0]
    refine iff_of_false ?_ fun h => hfirst h.2.1
    rintro ⟨s', e⟩
    exact takeBlock_ne_null (by omega) (Prod.mk.inj (Option.some.inj e)).2
  · -- no block is free: each one would be big enough
    obtain rfl : fl = [] := by
      refine List.eq_nil_iff_forall_not_mem.mpr fun y hy => ?_
      obtain ⟨b, hb, rfl, _⟩ := sh.free y hy
      have := hsmall _ hy
      rw [sh.getSize hb, hsize] at this
      have := (sh.blocks b hb).min
      split_ifs at * <;> omega
    have hfirst : s.firstFreeBlock = 0 := sh.links
    have hused : ∀ p ∈ bs, p.owner ≠ none := fun p hp hf => List.not_mem_nil (co.complete p hp hf)
    simp only [heap_firstFreeBlock] at hfind
    simp only [hfind, Option.bind_some, if_true]
    by_cases hzero : size + 9 = 2 ^ 32
    · rw [hsize, if_pos hzero, allocPages_eq, sh.nbPages_zero hne fun p hp hf => absurd hf (hused p hp)]
      refine iff_of_false ?_ fun h => h.1 hzero
      rintro ⟨s', e⟩
      cases e
    · rw [hsize, if_neg hzero] at hext ⊢
      rcases allocPages_spec L sh co hne (by decide) (by decide)
        (fun p hp hf => absurd hf (hused p hp)) hext with
        ⟨rfl, e⟩ | ⟨s', l, B, r, fl', e, _, sh', _⟩
      · simp only [e, Option.bind_some, if_true]
        exact iff_of_true ⟨s, rfl⟩ ⟨hzero, hfirst, trivial⟩
      · have hB := sh'.bounds (b := B) (by simp)
        have hmin := (sh'.blocks B (by simp)).min
        have hlo := sh'.lo
        have hhi := sh'.hi
        simp only [e, Option.bind_some, if_neg (show B.addr ≠ 0 by omega)]
        refine iff_of_false ?_ fun h => ?_
        · rintro ⟨s', e⟩
          exact takeBlock_ne_null (by omega) (Prod.mk.inj (Option.some.inj e)).2
        · obtain rfl := h.2.2
          rw [allocPages_eq] at e
          split_ifs at e
          have := (Prod.mk.inj (Option.some.inj e)).2
          omega

/-- For every 32-bit size, on every well-formed heap: `mem_alloc` returns NULL or room for all the
bytes asked for if and only if the size of the block does not wrap around or, where it does, no block
is free and no page can be had for a block. For the one size where the block has size 0 it is not
asked for: `extend_heap` throws. -/
theorem request_honoured (hinv : HeapInv (s.heap L) bs) (hlt : size < 2 ^ 32)
    (hext : ∀ fresh, ext = some fresh →
      s.unallocatedMem + 0x1000 * nbPages (blockSize size 1) (s.heap L) < 2 ^ 32) :
    (∃ s' p, memAlloc L ext size s = some (s', p) ∧ (p = 0 ∨ Honoured (s'.heap L) p size)) ↔
      size + 9 < 2 ^ 32 ∨ size + 9 ≠ 2 ^ 32 ∧ s.firstFreeBlock = 0 ∧ ext = none := by
  have hum : s.unallocatedMem < 2 ^ 32 := by
    obtain ⟨_, _, sh, _⟩ := hinv
    exact sh.hi
  constructor
  · rintro ⟨s', p, e, hp⟩
    by_cases hsize : size + 9 < 2 ^ 32
    · exact .inl hsize
    · rcases hp with rfl | hp
      · exact .inr ((memAlloc_null_wraps hinv hext hlt (not_lt.mp hsize)).mp ⟨s', e⟩)
      · have hlo := (startOfHeap_bounds L s'.currentDirectory).1
        exact absurd hp (not_honoured hlo (memAlloc_unallocatedMem hum e) (by omega))
  · rintro (hsize | hnull)
    · have hal : 0 < 1 := by decide
      have hreq : size + 1 + 8 < 2 ^ 32 := by omega
      rcases memAllocAligned_spec L hinv hal hreq hext with e | ⟨s', p, bs', e, _, _, hinv', hown⟩
      · exact ⟨s, 0, e, .inl rfl⟩
      · exact ⟨s', p, e, .inr (hinv'.honoured (hown.symm.subset (List.mem_cons_self ..)))⟩
    · by_cases hsize : size + 9 < 2 ^ 32
      · rcases memAllocAligned_spec L hinv (by decide) (by omega) hext with
          e | ⟨s', p, bs', e, _, _, hinv', hown⟩
        · exact ⟨s, 0, e, .inl rfl⟩
        · exact ⟨s', p, e, .inr (hinv'.honoured (hown.symm.subset (List.mem_cons_self ..)))⟩
      · obtain ⟨s', e⟩ := (memAlloc_null_wraps hinv hext hlt (not_lt.mp hsize)).mpr hnull
        exact ⟨s', 0, e, .inl rfl⟩

lemma sampleHeap_inv : HeapInv (sampleHeap.heap sampleLayout) [⟨0x300000, 0x1000, none⟩] :=
  (newHeap_represents 1 (fun _ _ => 0) ⟨0, 0⟩).1

/-- A request for `2^32 - 1` bytes is served with the smallest block there is. -/
theorem request_honoured_wraps :
    HeapInv (sampleHeap.heap sampleLayout) [⟨0x300000, 0x1000, none⟩] ∧
      ∃ s p, memAlloc sampleLayout none 0xFFFFFFFF sampleHeap = some (s, p) ∧ p = 0x300004 ∧
        ¬ Honoured (s.heap sampleLayout) p 0xFFFFFFFF := by
  have hp : ((memAlloc sampleLayout none 0xFFFFFFFF sampleHeap).map Prod.snd) =
      some 0x300004 := by decide +kernel
  obtain ⟨⟨s, p⟩, e, rfl⟩ := Option.map_eq_some_iff.mp hp
  have hlt : sampleHeap.unallocatedMem < 2 ^ 32 := by
    obtain ⟨_, _, sh, _⟩ := sampleHeap_inv
    exact sh.hi
  have hlo := (startOfHeap_bounds sampleLayout s.currentDirectory).1
  exact ⟨sampleHeap_inv, s, _, e, rfl,
    not_honoured hlo (memAlloc_unallocatedMem hlt e) (by decide)⟩

/-- A request for 100 bytes in a new heap. -/
theorem request_honoured_sample :
    ∃ s' p, memAlloc sampleLayout none 100 sampleHeap = some (s', p) ∧
      (p = 0 ∨ Honoured (s'.heap sampleLayout) p 100) :=
  (request_honoured sampleHeap_inv (by decide) (by simp)).mpr (.inl (by decide))

/-! ## Growing -/

/-- `malloc.c`, `malloc_install`: `extend_heap` is asked for a page, but no block is made of it. -/
def mallocInstall (L : Layout) (memory : Nat → Bytes) (kernelContext : HeapPair) : MallocState where
  memory := memory
  firstFreeBlock := 0
  unallocatedMem := startOfHeap L L.kernelDirectory
  currentDirectory := L.kernelDirectory
  kernelContext := kernelContext

/-- The heap after `malloc_install` is empty. -/
lemma mallocInstall_shape (L : Layout) (memory : Nat → Bytes) (k : HeapPair) :
    Shape ((mallocInstall L memory k).heap L) [] [] ∧ Coalesced [] [] := by
  obtain ⟨hlo, hhi⟩ := startOfHeap_bounds L L.kernelDirectory
  refine ⟨⟨hlo, ?_, rfl, by simp, rfl, List.nodup_nil, by simp⟩, ⟨by simp, .nil⟩⟩
  exact (Nat.le_add_right _ 0x1000).trans_lt hhi

/-- What `alloc_pages` promises: it asks for a number of pages that is positive and depends on the
heap and the size only, it does not throw, and when the pages are mapped it returns a free block of
that size, on the list of a well-formed heap. -/
def GrowthOk (L : Layout) (s : MallocState) (size : Nat) : Prop :=
  ∃ n, 0 < n ∧ ∀ memory : Nat → Bytes,
    (∀ x, startOfHeap L s.currentDirectory ≤ x → x < s.unallocatedMem →
      memory s.currentDirectory x = s.memory s.currentDirectory x) →
    nbPages size ({ s with memory := memory }.heap L) = n ∧
    allocPages L none size { s with memory := memory } = some ({ s with memory := memory }, 0) ∧
    (s.unallocatedMem + 0x1000 * n < 2 ^ 32 → ∀ fresh, ∃ s' B bs fl,
      allocPages L (some fresh) size { s with memory := memory } = some (s', B.addr) ∧
      Shape (s'.heap L) bs fl ∧ Coalesced bs fl ∧ B ∈ bs ∧ B.addr ∈ fl ∧ B.owner = none ∧
      size ≤ B.size)

/-- The number of pages is found from the heap: the last block and whether it is free. -/
lemma Shape.nbPages_congr {h h' : Heap} (sh : Shape h bs fl) (sh' : Shape h' bs fl) (hne : bs ≠ []) :
    Malloc.nbPages size h' = Malloc.nbPages size h := by
  obtain ⟨l, p, rfl⟩ : ∃ l p, bs = l ++ [p] := by
    rcases List.eq_nil_or_concat bs with rfl | ⟨l, p, rfl⟩
    · exact absurd rfl hne
    · exact ⟨l, p, by simp⟩
  have last : ∀ {k : Heap}, Shape k (l ++ [p]) fl →
      Malloc.getPrevBlock k k.unallocatedMem = p.addr := by
    intro k hk
    simpa using getPrevBlock_of_tiles hk.lo hk.hi hk.tiles hk.blocks
  unfold Malloc.nbPages
  simp only [last sh, last sh', sh.getSize (b := p) (by simp), sh'.getSize (b := p) (by simp),
    sh.getUsed (b := p) (by simp), sh'.getUsed (b := p) (by simp)]

/-- A heap with a block grows. -/
lemma Shape.growthOk (sh : Shape (s.heap L) bs fl) (co : Coalesced bs fl) (hne : bs ≠ [])
    (h0 : 0 < size) (hlt : size < 2 ^ 32) (hsmall : ∀ p ∈ bs, p.owner = none → p.size < size) :
    GrowthOk L s size := by
  have hnb : Malloc.nbPages size (s.heap L) ≠ 0 :=
    (sh.nbPages hne h0 hlt fun p hp => hsmall p (List.mem_of_getLast? hp)).1
  refine ⟨Malloc.nbPages size (s.heap L), Nat.pos_of_ne_zero hnb, fun memory hm => ?_⟩
  have sh' : Shape ({ s with memory := memory }.heap L) bs fl :=
    sh.scribble fun x h1 h2 _ => hm x h1 h2
  have e : Malloc.nbPages size ({ s with memory := memory }.heap L) =
      Malloc.nbPages size (s.heap L) := sh.nbPages_congr sh' hne
  refine ⟨e, ?_, fun hfit fresh => ?_⟩
  · rw [allocPages_eq, e, if_neg hnb]
  · have hext : ∀ f, some fresh = some f → s.unallocatedMem +
        0x1000 * Malloc.nbPages size ({ s with memory := memory }.heap L) < 2 ^ 32 := by
      rw [e]
      exact fun _ _ => hfit
    rcases allocPages_spec L sh' co hne h0 hlt hsmall hext with
      ⟨h, _⟩ | ⟨s', l, B, r, fl', e', _, sh2, co2, hB, hle, _⟩
    · cases h
    · exact ⟨s', B, _, fl', e', sh2, co2, by simp, co2.complete B (by simp) hB, hB, hle⟩

/-- The pages asked for by a heap without blocks: the size is read at address 0. -/
lemma nbPages_nil {h : Heap} (sh : Shape h [] fl) :
    Malloc.nbPages size h =
      if getUsed h.mem 0 then ceilRatio size 0x1000
      else ceilRatio (sub32 size (getSize h.mem 0)) 0x1000 := by
  have hum : h.startOfHeap = h.unallocatedMem := sh.tiles
  have hlo := sh.lo
  have hhi := sh.hi
  have hprev : getPrevBlock h h.unallocatedMem = 0 := by
    rw [getPrevBlock, sub32_of_le (by omega) hhi, if_pos (by omega)]
  unfold Malloc.nbPages
  simp only [hprev]
  cases hu : getUsed h.mem 0 with
  | false => rw [if_pos (by decide), if_neg (by decide)]
  | true => rw [if_neg (by decide), if_pos (by decide)]

/-- A heap without blocks asks for as many pages as the bytes at address 0 make it. -/
lemma not_growthOk_nil (sh : Shape (s.heap L) [] fl) (hlt : size < 2 ^ 31) :
    ¬ GrowthOk L s size := by
  rintro ⟨n, _, h⟩
  have hum : startOfHeap L s.currentDirectory = s.unallocatedMem := sh.tiles
  -- the same heap, with the word `w` at address 0
  have pages : ∀ w, Malloc.nbPages size
      ({ s with memory := fun _ => Bytes.set32 (fun _ => 0) 0 w }.heap L) = n := fun w =>
    (h (fun _ => Bytes.set32 (fun _ => 0) 0 w) fun x h1 h2 => by omega).1
  have sh' : ∀ w, Shape ({ s with memory := fun _ => Bytes.set32 (fun _ => 0) 0 w }.heap L) [] fl :=
    fun w => sh.scribble fun x h1 h2 _ => by
      simp only [heap_startOfHeap, heap_unallocatedMem] at h1 h2
      omega
  have word : ∀ w, w < 2 ^ 32 → Bytes.get32 (Bytes.set32 (fun _ => 0) 0 w) 0 = w := fun w hw =>
    get32_set32 hw
  have used := pages (2 ^ 31)
  have free := pages (size / 2 + 1)
  rw [nbPages_nil (sh' _)] at used free
  simp only [heap_mem, getUsed, getSize, word (2 ^ 31) (by omega)] at used
  simp only [heap_mem, getUsed, getSize, word (size / 2 + 1) (by omega)] at free
  rw [if_pos (by decide)] at used
  have hne : ¬ decide ((size / 2 + 1) / 2 ^ 31 = 1) = true := by simp; omega
  rw [if_neg hne] at free
  have hsub : 2 ^ 32 - 2 ≤ sub32 size (2 * ((size / 2 + 1) % 2 ^ 31)) := by
    unfold sub32
    omega
  have h1 := ceilRatio_spec (a := size) (b := 0x1000) (by omega)
  have h2 := ceilRatio_spec (a := sub32 size (2 * ((size / 2 + 1) % 2 ^ 31))) (b := 0x1000) (by omega)
  omega

/-- For every heap that `malloc.c` can be in, the empty one included, and every size below 2^31 that
no free block can serve: `alloc_pages` keeps what it promises if and only if the heap has a block
and the size is not 0. -/
theorem growth (sh : Shape (s.heap L) bs fl) (co : Coalesced bs fl) (hlt : size < 2 ^ 31)
    (hsmall : ∀ p ∈ bs, p.owner = none → p.size < size) :
    GrowthOk L s size ↔ bs ≠ [] ∧ 0 < size := by
  constructor
  · intro h
    refine ⟨?_, Nat.pos_of_ne_zero ?_⟩
    · rintro rfl
      exact not_growthOk_nil sh hlt h
    · rintro rfl
      by_cases hne : bs = []
      · subst hne
        exact not_growthOk_nil sh hlt h
      · obtain ⟨n, hn, h⟩ := h
        have e := (h s.memory fun _ _ _ => rfl).1
        rw [sh.nbPages_zero hne hsmall] at e
        omega
  · rintro ⟨hne, h0⟩
    exact sh.growthOk co hne h0 (by omega) hsmall

/-- When address 0 holds the number 8, the first allocation of 16 bytes after `malloc_install`
throws: the extension would be by 0 pages. -/
theorem growth_after_install :
    Shape ((mallocInstall sampleLayout (fun _ => Bytes.set32 (fun _ => 0) 0 8) ⟨0, 0⟩).heap
        sampleLayout) [] [] ∧
      (∀ ext, allocPages sampleLayout ext 16
        (mallocInstall sampleLayout (fun _ => Bytes.set32 (fun _ => 0) 0 8) ⟨0, 0⟩) = none) ∧
      ¬ GrowthOk sampleLayout
        (mallocInstall sampleLayout (fun _ => Bytes.set32 (fun _ => 0) 0 8) ⟨0, 0⟩) 16 := by
  obtain ⟨sh, _⟩ := mallocInstall_shape sampleLayout (fun _ => Bytes.set32 (fun _ => 0) 0 8) ⟨0, 0⟩
  refine ⟨sh, fun ext => ?_, not_growthOk_nil sh (by decide)⟩
  rw [allocPages_eq, if_pos]
  decide +kernel

/-- A new heap grows by one page for a block of 8192 bytes, behind a free page. -/
theorem growth_sample : GrowthOk sampleLayout sampleHeap 0x2000 := by
  obtain ⟨_, fl, sh, co⟩ := sampleHeap_inv
  refine (growth sh co (by decide) fun p hp _ => ?_).mpr ⟨by simp, by decide⟩
  rw [List.mem_singleton.mp hp]
  decide

end MarioBrOS.Malloc
