import MarioBrOS.Malloc.HeapRun
import MarioBrOS.Scheduler.Queue

/-!
# The allocator that the queues and lists use

`queue.c` and `list.c` are verified for any `Allocator`. Here `mem_alloc` and `mem_free` are shown
to be one (`allocator_exact`): its states are the heaps in a run, with their live allocations. What
`extend_heap` gets is up to the machine (`Extension`); all that is supposed is that it does not go
around the end of the address space.
-/

namespace MarioBrOS.Malloc

open Scheduler (Allocator)

/-- A heap in a run, with its live allocations. -/
structure RunHeap (L : Layout) where
  state : MallocState
  live : List Alloc
  represents : ∃ bs, Represents L (state, live) bs

/-- The pages that a request gets from `extend_heap`, if it gets any. -/
structure Extension (L : Layout) where
  pages : MallocState → Nat → Option Bytes
  fits : ∀ s size fresh, pages s size = some fresh →
    s.unallocatedMem + 0x1000 * nbPages (blockSize size 1) (s.heap L) < 2 ^ 32

variable {L : Layout} {m : RunHeap L} {size a : Nat} {al al' : Alloc}

namespace RunHeap

lemma wellFormed (m : RunHeap L) : ∃ bs fl, WellFormed (m.state.heap L) m.live bs fl := by
  obtain ⟨bs, h⟩ := m.represents
  exact ⟨bs, h.wellFormed⟩

lemma ptr_ne_zero (hal : al ∈ m.live) : al.ptr ≠ 0 := by
  obtain ⟨bs, fl, w⟩ := m.wellFormed
  obtain ⟨b, _, _, hlo, _⟩ := w.payload al hal
  omega

lemma ptr_nodup (m : RunHeap L) : (m.live.map Alloc.ptr).Nodup := by
  obtain ⟨bs, fl, w⟩ := m.wellFormed
  refine List.pairwise_map.mpr (w.disjoint.imp fun h e => ?_)
  omega

lemma ptr_inj (hal : al ∈ m.live) (hal' : al' ∈ m.live) (e : al.ptr = al'.ptr) : al = al' :=
  List.inj_on_of_nodup_map m.ptr_nodup hal hal' e

/-- The addresses of the live allocations. -/
def addresses (m : RunHeap L) : Finset Nat := (m.live.map Alloc.ptr).toFinset

lemma mem_addresses : a ∈ m.addresses ↔ ∃ al ∈ m.live, al.ptr = a := by
  simp [addresses]

/-- `mem_alloc` returns. -/
lemma allocates (X : Extension L) (m : RunHeap L) (hs : size + 1 + 8 < 2 ^ 32) :
    (Malloc.memAlloc L (X.pages m.state size) size m.state).isSome := by
  obtain ⟨bs, hinv, _⟩ := m.represents
  obtain e | ⟨_, _, _, e, _⟩ := memAllocAligned_spec L hinv Nat.one_pos hs (X.fits m.state size)
  · exact Option.isSome_iff_exists.mpr ⟨_, e⟩
  · exact Option.isSome_iff_exists.mpr ⟨_, e⟩

/-- `mem_free` returns for live pointers. -/
lemma frees (m : RunHeap L) (hal : al ∈ m.live) : (Malloc.memFree L al.ptr m.state).isSome := by
  obtain ⟨bs, hinv, hown⟩ := m.represents
  obtain ⟨b, hb, hba⟩ := List.mem_filterMap.mp (hown.symm.subset hal)
  obtain ⟨s, _, e, _⟩ := memFree_spec L hinv hb hba
  exact Option.isSome_iff_exists.mpr ⟨s, e⟩

/-- `mem_alloc`, of a size that does not overflow. -/
def memAlloc (X : Extension L) (m : RunHeap L) (size : Nat) : Nat × RunHeap L :=
  if hs : size + 1 + 8 < 2 ^ 32 then
    let r := (Malloc.memAlloc L (X.pages m.state size) size m.state).get (allocates X m hs)
    (r.2, ⟨r.1, if r.2 = 0 then m.live else ⟨r.2, size, 1⟩ :: m.live,
      (HeapStep.alloc Nat.one_pos hs (X.fits m.state size)
        (Option.some_get (allocates X m hs)).symm).represents m.represents⟩)
  else
    (0, m)

/-- `mem_free`, of the pointer of a live allocation. -/
def release (m : RunHeap L) (al : Alloc) (hal : al ∈ m.live) : RunHeap L :=
  ⟨(Malloc.memFree L al.ptr m.state).get (m.frees hal), m.live.erase al,
    (HeapStep.free hal (Option.some_get (m.frees hal)).symm).represents m.represents⟩

/-- `mem_free`. A pointer that is not live is not freed. -/
def memFree (m : RunHeap L) (a : Nat) : RunHeap L :=
  (m.live.attach.find? fun al => al.val.ptr = a).elim m fun al => m.release al.val al.property

/-- A request is answered as `malloc.c` does it. -/
lemma memAlloc_eq (X : Extension L) (m : RunHeap L) (hs : size + 1 + 8 < 2 ^ 32) :
    Malloc.memAlloc L (X.pages m.state size) size m.state =
      some ((memAlloc X m size).2.state, (memAlloc X m size).1) := by
  rw [memAlloc, dif_pos hs]
  exact (Option.some_get _).symm

/-- A request is refused, and nothing changes for the callers, or served. -/
lemma memAlloc_cases (X : Extension L) (m : RunHeap L) (size : Nat) :
    ((memAlloc X m size).1 = 0 ∧ (memAlloc X m size).2.live = m.live) ∨
      (memAlloc X m size).1 ≠ 0 ∧
        (memAlloc X m size).2.live = ⟨(memAlloc X m size).1, size, 1⟩ :: m.live := by
  by_cases hs : size + 1 + 8 < 2 ^ 32
  · rw [memAlloc, dif_pos hs]
    dsimp only
    split
    next h0 => exact .inl ⟨h0, rfl⟩
    next h0 => exact .inr ⟨h0, rfl⟩
  · rw [memAlloc, dif_neg hs]
    exact .inl ⟨rfl, rfl⟩

/-- A call of `mem_free` on a live pointer does what `malloc.c` does, and the pointer is not live
afterwards. -/
lemma memFree_eq (hal : al ∈ m.live) :
    Malloc.memFree L al.ptr m.state = some (m.memFree al.ptr).state ∧
      (m.memFree al.ptr).live = m.live.erase al := by
  unfold memFree
  cases h : m.live.attach.find? fun al' => al'.val.ptr = al.ptr with
  | none =>
    have hnone := List.find?_eq_none.mp h ⟨al, hal⟩ (List.mem_attach ..)
    simp at hnone
  | some al' =>
    obtain rfl : al'.val = al := ptr_inj al'.property hal (by simpa using List.find?_some h)
    exact ⟨(Option.some_get (m.frees hal)).symm, rfl⟩

lemma memFree_stale (ha : a ∉ m.addresses) : m.memFree a = m := by
  unfold memFree
  cases h : m.live.attach.find? fun al => al.val.ptr = a with
  | none => rfl
  | some al =>
    have hptr : al.val.ptr = a := by simpa using List.find?_some h
    exact absurd (mem_addresses.mpr ⟨al.val, al.property, hptr⟩) ha

/-- `malloc.c` is an allocator. -/
def allocator (X : Extension L) : Allocator (RunHeap L) where
  live := addresses
  memAlloc := memAlloc X
  memFree := memFree
  memAlloc_fresh m size := by
    intro h
    obtain ⟨al, hal, e⟩ := mem_addresses.mp h
    obtain ⟨h0, _⟩ | ⟨_, hlive⟩ := memAlloc_cases X m size
    · exact ptr_ne_zero hal (e.trans h0)
    · have hnodup := (memAlloc X m size).2.ptr_nodup
      rw [hlive, List.map_cons, List.nodup_cons] at hnodup
      have hmem : al.ptr ∈ m.live.map Alloc.ptr := List.mem_map_of_mem hal
      rw [e] at hmem
      exact hnodup.1 hmem
  live_memAlloc m size h0 := by
    obtain ⟨h, _⟩ | ⟨_, hlive⟩ := memAlloc_cases X m size
    · exact absurd h h0
    · simp only [addresses, hlive, List.map_cons, List.toFinset_cons]
  live_refused m size h0 := by
    obtain ⟨_, hlive⟩ | ⟨h, _⟩ := memAlloc_cases X m size
    · simp only [addresses, hlive]
    · exact absurd h0 h
  live_memFree m a := by
    by_cases ha : a ∈ m.addresses
    · obtain ⟨al, hal, rfl⟩ := mem_addresses.mp ha
      have hnodup : m.live.Nodup := .of_map _ m.ptr_nodup
      ext x
      rw [mem_addresses, (memFree_eq hal).2, Finset.mem_erase, mem_addresses]
      constructor
      · rintro ⟨al', hal', rfl⟩
        obtain ⟨hne, hal'⟩ := (hnodup.mem_erase_iff).mp hal'
        exact ⟨fun e => hne (ptr_inj hal' hal e), al', hal', rfl⟩
      · rintro ⟨hne, al', hal', rfl⟩
        exact ⟨al', (hnodup.mem_erase_iff).mpr ⟨fun e => hne (e ▸ rfl), hal'⟩, rfl⟩
    · rw [memFree_stale ha, Finset.erase_eq_of_notMem ha]

/-- What the allocator does in a run is what `malloc.c` does, for all sizes that do not overflow and
all live pointers. -/
theorem allocator_exact (X : Extension L) (m : RunHeap L) :
    (∀ size, size + 1 + 8 < 2 ^ 32 → Malloc.memAlloc L (X.pages m.state size) size m.state =
      some (((allocator X).memAlloc m size).2.state, ((allocator X).memAlloc m size).1)) ∧
    ∀ a ∈ (allocator X).live m, Malloc.memFree L a m.state =
      some ((allocator X).memFree m a).state := by
  refine ⟨fun size hs => memAlloc_eq X m hs, fun a ha => ?_⟩
  obtain ⟨al, hal, rfl⟩ := mem_addresses.mp ha
  exact (memFree_eq hal).1

end RunHeap

end MarioBrOS.Malloc
