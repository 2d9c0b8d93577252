import MarioBrOS.Malloc.HeapRun
import MarioBrOS.Paging.Frames
import MarioBrOS.Paging.Space

/-!
# Running out of memory

`mem_alloc_aligned` together with the pages it works on, once paging is enabled: `extend_heap` maps
the pages one by one and unmaps them again when it runs out of frames, and `alloc_pages` runs it in
the directory and with the heap of the kernel. The memory the block functions see belongs to the
current directory; the pages that have been mapped bring what their frames hold. The allocation of a
page table is an argument, as in `get_page`.

A request that ends in NULL changes nothing (`failed_request_atomic`). Where the alignment reaches
from the heap up to the end of the address space, the aligned address behind a header can wrap around
to 0, though the block has been taken (`failed_request_wraps`).
-/

namespace MarioBrOS.Malloc

open Bytes Paging

/-- The heaps and the pages. -/
abbrev PagedHeap := Machine MallocState

variable (alloc : MemAllocAligned MallocState)

/-- `switch_page_directory`. -/
def switchPageDirectory (dir : Nat) (m : PagedHeap) : PagedHeap where
  paging := { m.paging with currentDirectory := dir }
  heap := { m.heap with currentDirectory := dir }

/-- The inner loop of `extend_heap`: the `i` pages below `currentEndOfHeap` are unmapped. -/
def rollBack (dir : Nat) : Nat → Nat → PagedHeap → Except String PagedHeap
  | 0, _, m => pure m
  | i + 1, currentEndOfHeap, m => do
    let currentEndOfHeap := sub32 currentEndOfHeap 0x1000
    let m ← freeVirtualSpace alloc dir currentEndOfHeap true m
    rollBack dir i currentEndOfHeap m

/-- The loop of `extend_heap` with `left` pages to go, after `i` pages. -/
def extendLoop (dir : Nat) (isKernel : Bool) :
    Nat → Nat → Nat → PagedHeap → Except String (Bool × PagedHeap)
  | 0, _, _, m => pure (true, m)
  | left + 1, i, currentEndOfHeap, m => do
    let (b, m) ← requestVirtualSpace alloc dir currentEndOfHeap isKernel (!isKernel) m
    if b then
      extendLoop dir isKernel left (i + 1) (add32 currentEndOfHeap 0x1000) m
    else do
      let m ← rollBack alloc dir i currentEndOfHeap m
      pure (false, m)

/-- `malloc.c`, `extend_heap`, once paging is enabled. -/
def extendHeap (nbPages dir userUm : Nat) (m : PagedHeap) : Except String (Bool × PagedHeap) :=
  if nbPages = 0 then
    throw "Extension of heap by 0 pages"
  else
    extendLoop alloc dir (dir = m.paging.kernelDirectory) nbPages 0 userUm m

/-- The bytes in the address space of `dir`. -/
def bytesOf (s : State) (dir : Nat) : Bytes := fun x => s.physical (getPhysicalAddress s dir x)

namespace PagedHeap

variable (L : Layout)

/-- `malloc.c`, `alloc_pages`, once paging is enabled. -/
def allocPages (size : Nat) (m : PagedHeap) : Except String (Nat × PagedHeap) := do
  let nbPages := nbPages size (m.heap.heap L)
  let temp := m.heap.currentDirectory
  let changeDir := temp ≠ L.kernelDirectory
  let userUm := m.heap.unallocatedMem
  let userFfb := m.heap.firstFreeBlock
  let m :=
    if changeDir then
      let m := switchPageDirectory L.kernelDirectory m
      { m with heap := m.heap.enterKernel L }
    else m
  let (b, m) ← extendHeap alloc nbPages temp userUm m
  let m :=
    if changeDir then
      let m := switchPageDirectory temp m
      { m with heap := m.heap.leaveKernel temp userUm userFfb }
    else m
  if b then
    let heap := m.heap.mapPages temp userUm (0x1000 * nbPages) (bytesOf m.paging temp)
    let r := growHeap (heap.heap L) (0x1000 * nbPages % 2 ^ 32)
    pure (r.2, { m with heap := heap.setHeap r.1 })
  else
    pure (0, m)

/-- The block that `mem_alloc_aligned` takes: the first one of the free list that is big enough, or
a new one. -/
def findOrGrow (size : Nat) (m : PagedHeap) : Except String (Nat × PagedHeap) :=
  match findBlock (m.heap.heap L).mem size WALK_FUEL m.heap.firstFreeBlock with
  | none => throw "the free list has no end"
  | some 0 => allocPages alloc L size m
  | some block => pure (block, m)

/-- The bytes from `first` up to `last` are mapped in the current directory. -/
def Mapped (s : State) (first last : Nat) : Prop :=
  ∀ x, first ≤ x → x < last → getPhysicalAddress s s.currentDirectory x ≠ 0

instance (s : State) (first last : Nat) : Decidable (Mapped s first last) :=
  decidable_of_iff (∀ k, k < last - first → getPhysicalAddress s s.currentDirectory (first + k) ≠ 0)
    ⟨fun h x h1 h2 => by
      have := h (x - first) (by omega)
      rwa [Nat.add_sub_cancel' h1] at this,
    fun h k hk => h _ (Nat.le_add_right ..) (by omega)⟩

/-- `malloc.c`, `mem_alloc_aligned`. A division by 0, and `mem_set` on a page that is not mapped,
end in the handlers of the exceptions. -/
def memAllocAligned (size alignment : Nat) (m : PagedHeap) : Except String (Nat × PagedHeap) := do
  let (block, m) ← findOrGrow alloc L (blockSize size alignment) m
  if block = 0 then
    pure (0, m)
  else if alignment = 0 then
    throw "Exception. System Halted"
  else
    let afterHeader := add32 block 4
    let afterPadding := ceilMultiple afterHeader alignment
    if Mapped m.paging afterHeader (afterHeader + sub32 afterPadding afterHeader) then
      let t := takeBlock (blockSize size alignment) alignment (m.heap.heap L) block
      pure (t.2, { m with heap := m.heap.setHeap t.1 })
    else
      throw "PAGE_FAULT"

end PagedHeap

/-! ## Mapping and unmapping pages -/

section Extend

variable {alloc} {s t u : State} {m m' : PagedHeap} {dir x : Nat} {k w : Bool}
  {ps : List (PagePtr × Nat)}

/-- The frames in use are the same. -/
def SameFrames (s t : State) : Prop := ∀ f, t.frameUsed f = s.frameUsed f

/-- `t` is `s` with the pages `ps` on top, the last one first: each was not there and has got a
clear frame. -/
def Added (s : State) : List (PagePtr × Nat) → State → Prop
  | [], t => SameSpaces s t ∧ SameFrames s t
  | (p, f) :: ps, t => ∃ u e, Added s ps u ∧ (u.page p).present = false ∧ u.frameUsed f = false ∧
      f ≠ 0 ∧ e.present = true ∧ e.address = f ∧
      SameSpaces ((u.setFrame f true).setPage p e) t ∧
      SameFrames ((u.setFrame f true).setPage p e) t

lemma SameFrames.trans (h : SameFrames s t) (h' : SameFrames t u) : SameFrames s u :=
  fun f => (h' f).trans (h f)

lemma Added.same (h : Added s ps t) (hs : SameSpaces t u) (hf : SameFrames t u) : Added s ps u := by
  cases ps with
  | nil => exact ⟨h.1.trans hs, h.2.trans hf⟩
  | cons q ps =>
    obtain ⟨v, e, hv, h1, h2, h3, h4, h5, hs', hf'⟩ := h
    exact ⟨v, e, hv, h1, h2, h3, h4, h5, hs'.trans hs, hf'.trans hf⟩

/-- The added pages are there, and were not. -/
lemma Added.mem {q : PagePtr × Nat} (h : Added s ps t) (hq : q ∈ ps) :
    (t.page q.1).present = true ∧ (t.page q.1).address = q.2 ∧ q.2 ≠ 0 := by
  induction ps generalizing t with
  | nil => cases hq
  | cons r ps ih =>
    obtain ⟨u, e, hu, hp, _, h0, he, ha, hs, _⟩ := h
    rcases List.mem_cons.mp hq with rfl | hq
    · have hpage := hs.page_eq (p := q.1) (by rw [page_setPage_self, he])
      rw [hpage, page_setPage_self]
      exact ⟨he, ha, ha ▸ h0⟩
    · obtain ⟨h1, h2, h3⟩ := ih hu hq
      have hne : q.1 ≠ r.1 := by
        rintro e'
        rw [e', hp] at h1
        cases h1
      have hpage := hs.page_eq (p := q.1) (by rw [page_setPage, if_neg hne]; exact h1)
      rw [hpage, page_setPage, if_neg hne]
      exact ⟨h1, h2, h3⟩

/-- The tables and the globals stay. -/
lemma Added.hasTable (h : Added s ps t) (ht : HasTable s dir x) :
    HasTable t dir x ∧ pagePtr t dir x = pagePtr s dir x ∧
      t.kernelDirectory = s.kernelDirectory ∧ t.currentDirectory = s.currentDirectory := by
  induction ps generalizing t with
  | nil => exact ⟨h.1.hasTable ht, h.1.pagePtr dir x, h.1.kernel, h.1.current⟩
  | cons r ps ih =>
    obtain ⟨u, e, hu, _, _, _, _, _, hs, _⟩ := h
    obtain ⟨h1, h2, h3, h4⟩ := ih hu
    exact ⟨hs.hasTable h1, (hs.pagePtr dir x).trans h2, hs.kernel.trans h3, hs.current.trans h4⟩

/-- A request for a page whose table is there. -/
lemma requestVirtualSpace_ok {b : Bool} (ht : HasTable m.paging dir x)
    (h : requestVirtualSpace alloc dir x k w m = .ok (b, m')) :
    m'.heap = m.heap ∧
    ((b = false ∧ Added m.paging [] m'.paging) ∨
      (b = true ∧ ∃ f, Added m.paging [(pagePtr m.paging dir x, f)] m'.paging)) := by
  have hsame : SameSpaces m.paging (ensureRights dir (x / 0x1000 / 1024) k w m.paging) :=
    ensureRights_same
  unfold requestVirtualSpace at h
  rw [getPage_eq alloc ht] at h
  dsimp only [bind, Except.bind] at h
  by_cases hp : ((ensureRights dir (x / 0x1000 / 1024) k w m.paging).page
      (pagePtr m.paging dir x)).present
  · rw [if_pos hp] at h
    cases h
    exact ⟨rfl, .inl ⟨rfl, hsame, fun _ => rfl⟩⟩
  · rw [if_neg hp] at h
    cases hm : mapPage (pagePtr m.paging dir x) k w
        (ensureRights dir (x / 0x1000 / 1024) k w m.paging) with
    | error e => rw [hm] at h; cases h
    | ok r =>
      rw [hm] at h
      cases h
      refine ⟨rfl, ?_⟩
      obtain ⟨b, t⟩ := r
      obtain ⟨hb, _, rfl⟩ | ⟨hb, hne, hto⟩ := mapPage_ok hm
      · exact .inl ⟨hb, hsame, fun _ => rfl⟩
      · obtain ⟨h0, _, _, rfl⟩ := mapPageToFrame_ok hto
        have hclear := (firstFalseBit_spec (m := m.paging.frames) hne).2
        rw [← getBit_eq] at hclear
        refine .inr ⟨hb, m.paging.firstFrame, m.paging, ⟨true, w, !k, m.paging.firstFrame⟩,
          ⟨.refl _, fun _ => rfl⟩, ?_, hclear, h0, rfl, rfl, ?_, fun _ => rfl⟩
        · rw [← Bool.not_eq_true, ← hsame.page_present]
          exact hp
        · exact SameSpaces.setPage (s := m.paging.setFrame _ true) (t := State.setFrame _ _ true)
            ⟨hsame.page, hsame.present, hsame.table, hsame.current, hsame.kernel, hsame.base,
              hsame.length⟩

/-- Releasing the page added last. -/
lemma freeVirtualSpace_ok (alloc : MemAllocAligned MallocState) {f : Nat} (ht : HasTable s dir x)
    (h : Added s ((pagePtr s dir x, f) :: ps) m.paging) :
    ∃ m', freeVirtualSpace alloc dir x true m = .ok m' ∧ m'.heap = m.heap ∧
      Added s ps m'.paging := by
  obtain ⟨ht', hptr, _⟩ := h.hasTable ht
  obtain ⟨hpres, haddr, h0⟩ := h.mem (List.mem_cons_self ..)
  obtain ⟨u, e, hu, hp, hf, _, _, _, hs, hframes⟩ := h
  have hfree : freeVirtualSpace alloc dir x true m = .ok { m with
      paging := freePage (pagePtr m.paging dir x) true
        (ensureRights dir (x / 0x1000 / 1024) true false m.paging) } := by
    unfold freeVirtualSpace
    rw [getPage_eq alloc ht']
    rfl
  refine ⟨_, hfree, rfl, ?_⟩
  have hsame : SameSpaces m.paging (ensureRights dir (x / 0x1000 / 1024) true false m.paging) :=
    ensureRights_same
  have hpage := hsame.page_eq hpres
  dsimp only
  rw [hptr]
  unfold freePage
  dsimp only
  rw [hpage, haddr, if_pos ⟨rfl, h0⟩]
  refine hu.same ?_ ?_
  · refine ⟨fun q => ?_, fun d i => ?_, fun d i => ?_, ?_, ?_, ?_, ?_⟩
    · rw [page_setPage]
      by_cases hq : q = pagePtr s dir x
      · rw [if_pos hq, hq]
        exact .inr ⟨hp, rfl⟩
      · rw [if_neg hq, setFrame_page]
        have := (hs.trans hsame).page q
        rwa [page_setPage, if_neg hq] at this
    · exact (hs.trans hsame).present d i
    · exact (hs.trans hsame).table d i
    · exact (hs.trans hsame).current
    · exact (hs.trans hsame).kernel
    · exact (hs.trans hsame).base
    · exact (hs.trans hsame).length
  · intro g
    rw [setPage_frameUsed, frameUsed_setFrame]
    by_cases hg : g = f
    · rw [if_pos hg, hg, hf]
    · rw [if_neg hg]
      change m.paging.frameUsed g = _
      rw [hframes g, setPage_frameUsed, frameUsed_setFrame, if_neg hg]

/-- The pages of `ps` lie below `currentEndOfHeap`, and have their tables. -/
def Below (s : State) (dir : Nat) : Nat → List (PagePtr × Nat) → Prop
  | _, [] => True
  | currentEndOfHeap, (p, _) :: ps =>
    HasTable s dir (sub32 currentEndOfHeap 0x1000) ∧
      p = pagePtr s dir (sub32 currentEndOfHeap 0x1000) ∧
      Below s dir (sub32 currentEndOfHeap 0x1000) ps

/-- The rollback undoes what has been added. -/
lemma rollBack_ok (alloc : MemAllocAligned MallocState) {currentEndOfHeap : Nat} (hb : Below s dir currentEndOfHeap ps)
    (h : Added s ps m.paging) :
    ∃ m', rollBack alloc dir ps.length currentEndOfHeap m = .ok m' ∧ m'.heap = m.heap ∧
      Added s [] m'.paging := by
  induction ps generalizing m currentEndOfHeap with
  | nil => exact ⟨m, rfl, rfl, h⟩
  | cons q ps ih =>
    obtain ⟨p, f⟩ := q
    obtain ⟨ht, rfl, hb⟩ := hb
    obtain ⟨m₁, e₁, hh₁, h₁⟩ := freeVirtualSpace_ok alloc ht h
    obtain ⟨m₂, e₂, hh₂, h₂⟩ := ih hb h₁
    refine ⟨m₂, ?_, hh₂.trans hh₁, h₂⟩
    rw [List.length_cons, rollBack]
    dsimp only [bind, Except.bind]
    rw [e₁]
    exact e₂

/-- The loop of `extend_heap` adds all the pages or takes them all back. -/
lemma extendLoop_ok {left currentEndOfHeap : Nat} {b : Bool} (hlt : currentEndOfHeap < 2 ^ 32)
    (htab : ∀ i, i < left → HasTable s dir ((currentEndOfHeap + 0x1000 * i) % 2 ^ 32))
    (hb : Below s dir currentEndOfHeap ps) (h : Added s ps m.paging)
    (e : extendLoop alloc dir k left ps.length currentEndOfHeap m = .ok (b, m')) :
    m'.heap = m.heap ∧ ((b = false ∧ Added s [] m'.paging) ∨
      (b = true ∧ ∃ qs, Added s (qs ++ ps) m'.paging ∧ ∀ i, i < left →
        ∃ q ∈ qs, q.1 = pagePtr s dir ((currentEndOfHeap + 0x1000 * i) % 2 ^ 32))) := by
  induction left generalizing m currentEndOfHeap ps with
  | zero =>
    cases e
    exact ⟨rfl, .inr ⟨rfl, [], h, by simp⟩⟩
  | succ left ih =>
    have ht : HasTable s dir currentEndOfHeap := by
      have := htab 0 (Nat.succ_pos _)
      rwa [Nat.mul_zero, Nat.add_zero, Nat.mod_eq_of_lt hlt] at this
    obtain ⟨ht', hptr, _⟩ := h.hasTable ht
    unfold extendLoop at e
    cases hr : requestVirtualSpace alloc dir currentEndOfHeap k (!k) m with
    | error err => rw [hr] at e; cases e
    | ok r =>
      rw [hr] at e
      obtain ⟨c, m₁⟩ := r
      dsimp only [bind, Except.bind] at e
      obtain ⟨hh₁, ⟨rfl, h₁⟩ | ⟨rfl, f, h₁⟩⟩ := requestVirtualSpace_ok ht' hr
      · -- out of frames, or in the way of another page
        have h₁ := h.same h₁.1 h₁.2
        obtain ⟨m₂, e₂, hh₂, h₂⟩ := rollBack_ok alloc hb h₁
        rw [if_neg Bool.false_ne_true, e₂] at e
        cases e
        exact ⟨hh₂.trans hh₁, .inl ⟨rfl, h₂⟩⟩
      · rw [if_pos rfl] at e
        -- a rollback starts at the page that was added last
        have hback : sub32 (add32 currentEndOfHeap 0x1000) 0x1000 = currentEndOfHeap := by
          unfold sub32 add32
          omega
        have hadd : Added s ((pagePtr s dir currentEndOfHeap, f) :: ps) m₁.paging := by
          rw [hptr] at h₁
          obtain ⟨u, e', hu, h₁⟩ := h₁
          exact ⟨u, e', h.same hu.1 hu.2, h₁⟩
        have hb' : Below s dir (add32 currentEndOfHeap 0x1000)
            ((pagePtr s dir currentEndOfHeap, f) :: ps) := by
          unfold Below
          rw [hback]
          exact ⟨ht, rfl, hb⟩
        have hnext : ∀ i, (add32 currentEndOfHeap 0x1000 + 0x1000 * i) % 2 ^ 32 =
            (currentEndOfHeap + 0x1000 * (i + 1)) % 2 ^ 32 := by
          intro i
          unfold add32
          omega
        have htab' : ∀ i, i < left →
            HasTable s dir ((add32 currentEndOfHeap 0x1000 + 0x1000 * i) % 2 ^ 32) := by
          intro i hi
          rw [hnext]
          exact htab (i + 1) (Nat.succ_lt_succ hi)
        obtain ⟨hh₂, h₂⟩ := ih (by unfold add32; omega) htab' hb' hadd e
        refine ⟨hh₂.trans hh₁, ?_⟩
        obtain h₂ | ⟨rfl, qs, h₂, hqs⟩ := h₂
        · exact .inl h₂
        · refine .inr ⟨rfl, qs ++ [(pagePtr s dir currentEndOfHeap, f)], ?_, fun i hi => ?_⟩
          · rwa [List.append_assoc]
          · cases i with
            | zero =>
              refine ⟨_, List.mem_append_right _ (List.mem_singleton.mpr rfl), ?_⟩
              rw [Nat.mul_zero, Nat.add_zero, Nat.mod_eq_of_lt hlt]
            | succ i =>
              obtain ⟨q, hq, e⟩ := hqs i (Nat.lt_of_succ_lt_succ hi)
              exact ⟨q, List.mem_append_left _ hq, hnext i ▸ e⟩

/-- What was there stays. -/
lemma Added.page_eq {p : PagePtr} (h : Added s ps t) (hp : (s.page p).present = true) :
    t.page p = s.page p := by
  induction ps generalizing t with
  | nil => exact h.1.page_eq hp
  | cons r ps ih =>
    obtain ⟨u, e, hu, habs, _, _, _, _, hs, _⟩ := h
    have hpu := ih hu
    have hne : p ≠ r.1 := by
      rintro rfl
      rw [hpu, hp] at habs
      cases habs
    have := hs.page_eq (p := p) (by rw [page_setPage, if_neg hne, setFrame_page, hpu, hp])
    rw [this, page_setPage, if_neg hne, setFrame_page, hpu]

/-- The added pages were not there. -/
lemma Added.absent {q : PagePtr × Nat} (h : Added s ps t) (hq : q ∈ ps) :
    (s.page q.1).present = false := by
  induction ps generalizing t with
  | nil => cases hq
  | cons r ps ih =>
    obtain ⟨u, _, hu, habs, _⟩ := h
    rcases List.mem_cons.mp hq with rfl | hq
    · by_contra hp
      rw [Bool.not_eq_false] at hp
      rw [hu.page_eq hp, hp] at habs
      cases habs
    · exact ih hu hq

end Extend

/-! ## Requests that fail -/

namespace PagedHeap

variable {alloc} {L : Layout} {m m' : PagedHeap} {bs : List Block} {fl : List Nat}
  {size alignment block : Nat}

/-- The heaps with their free lists and saved pairs, the frames, and the translation of every
address. -/
structure Unchanged (m m' : PagedHeap) : Prop where
  heap : m'.heap = m.heap
  frames : SameFrames m.paging m'.paging
  translation : ∀ dir x, getPhysicalAddress m'.paging dir x = getPhysicalAddress m.paging dir x

/-- The directory has tables for the pages that `alloc_pages` asks for. -/
def TablesPresent (L : Layout) (size : Nat) (m : PagedHeap) : Prop :=
  ∀ i, i < nbPages size (m.heap.heap L) →
    HasTable m.paging m.heap.currentDirectory ((m.heap.unallocatedMem + 0x1000 * i) % 2 ^ 32)

/-- The switch of `alloc_pages` to the directory of the kernel. -/
def enter (L : Layout) (m : PagedHeap) : PagedHeap :=
  if m.heap.currentDirectory ≠ L.kernelDirectory then
    ⟨{ m.paging with currentDirectory := L.kernelDirectory }, m.heap.enterKernel L⟩
  else m

/-- The switch of `alloc_pages` back. -/
def leave (L : Layout) (m m' : PagedHeap) : PagedHeap :=
  if m.heap.currentDirectory ≠ L.kernelDirectory then
    ⟨{ m'.paging with currentDirectory := m.heap.currentDirectory },
      m'.heap.leaveKernel m.heap.currentDirectory m.heap.unallocatedMem m.heap.firstFreeBlock⟩
  else m'

/-- `alloc_pages`, in terms of the switches. -/
lemma allocPages_eq : allocPages alloc L size m =
    (extendHeap alloc (nbPages size (m.heap.heap L)) m.heap.currentDirectory m.heap.unallocatedMem
        (enter L m)).bind fun r =>
      let t := leave L m r.2
      if r.1 then
        let heap := t.heap.mapPages m.heap.currentDirectory m.heap.unallocatedMem
          (0x1000 * nbPages size (m.heap.heap L)) (bytesOf t.paging m.heap.currentDirectory)
        let g := growHeap (heap.heap L) (0x1000 * nbPages size (m.heap.heap L) % 2 ^ 32)
        .ok (g.2, { t with heap := heap.setHeap g.1 })
      else
        .ok (0, t) := by
  by_cases h : m.heap.currentDirectory ≠ L.kernelDirectory
  · simp only [allocPages, enter, leave, if_pos h]
    rfl
  · simp only [allocPages, enter, leave, if_neg h]
    rfl

lemma enter_paging : ∃ c, (enter L m).paging = { m.paging with currentDirectory := c } := by
  unfold enter
  by_cases h : m.heap.currentDirectory ≠ L.kernelDirectory
  · rw [if_pos h]
    exact ⟨_, rfl⟩
  · rw [if_neg h]
    exact ⟨_, rfl⟩

lemma leave_paging {t : PagedHeap} :
    ∃ c, (leave L m t).paging = { t.paging with currentDirectory := c } := by
  unfold leave
  by_cases h : m.heap.currentDirectory ≠ L.kernelDirectory
  · rw [if_pos h]
    exact ⟨_, rfl⟩
  · rw [if_neg h]
    exact ⟨_, rfl⟩

/-- There and back. -/
lemma leave_enter {t : PagedHeap} (hcur : m.paging.currentDirectory = m.heap.currentDirectory)
    (hh : t.heap = (enter L m).heap) (h : t.paging.currentDirectory = (enter L m).paging.currentDirectory) :
    (leave L m t).heap = m.heap ∧ (leave L m t).paging.currentDirectory = m.paging.currentDirectory := by
  unfold enter at hh h
  unfold leave
  by_cases hc : m.heap.currentDirectory ≠ L.kernelDirectory
  · rw [if_pos hc] at hh h ⊢
    rw [hh]
    exact ⟨rfl, hcur.symm⟩
  · rw [if_neg hc] at hh h ⊢
    exact ⟨hh, h⟩

lemma merge_ne_null {h : Heap} {b : Nat} (hb : b ≠ 0) : (merge h b).2 ≠ 0 := by
  unfold merge
  extract_lets h' prev
  by_cases hp : prev ≠ 0 ∧ getUsed h'.mem prev = false
  · rw [if_pos hp]
    exact hp.1
  · rw [if_neg hp]
    exact hb

/-- A block that `growHeap` returns is not NULL. -/
lemma growHeap_ne_null {h : Heap} {len : Nat} (h0 : h.unallocatedMem ≠ 0) : (growHeap h len).2 ≠ 0 := by
  unfold growHeap
  extract_lets b h1 h2 h3
  exact merge_ne_null h0

/-- No page is added in the place of one that is mapped. -/
lemma added_ne_mapped {s t : State} {ps : List (PagePtr × Nat)} {dir n x i : Nat} {a : Nat → Nat}
    (h : Added s ps t) (hps : ∀ i, i < n → ∃ q ∈ ps, q.1 = pagePtr s dir (a i))
    (htab : ∀ i, i < n → HasTable s dir (a i)) (hx : getPhysicalAddress s dir x ≠ 0)
    (hi : i < n) : a i / 0x1000 ≠ x / 0x1000 := by
  intro hdiv
  have ht : HasTable s dir x := by
    have := htab i hi
    unfold HasTable at this ⊢
    rwa [hdiv] at this
  obtain ⟨q, hq, e⟩ := hps i hi
  have hptr : q.1 = pagePtr s dir x := by
    rw [e]
    unfold pagePtr
    rw [hdiv]
  rw [getPhysicalAddress_eq ht, ← hptr, h.absent hq] at hx
  exact hx rfl

/-- `alloc_pages` fails and changes nothing, or returns a block that does not lie behind the old end
of the heap. -/
lemma allocPages_cases (hinv : HeapInv (m.heap.heap L) bs)
    (hcur : m.paging.currentDirectory = m.heap.currentDirectory)
    (hmapped : Mapped m.paging (startOfHeap L m.heap.currentDirectory) m.heap.unallocatedMem)
    (htab : TablesPresent L size m) (e : allocPages alloc L size m = .ok (block, m')) :
    (block = 0 ∧ Unchanged m m') ∨ (block ≠ 0 ∧ block ≤ m.heap.unallocatedMem) := by
  obtain ⟨hne, fl, sh, _⟩ := hinv
  have hlo := sh.lo
  have hlt := sh.hi
  obtain ⟨b, hb⟩ := List.exists_mem_of_ne_nil _ hne
  have hbd := sh.bounds hb
  simp only [heap_unallocatedMem, heap_startOfHeap] at hlo hlt hbd
  rw [allocPages_eq] at e
  unfold extendHeap at e
  obtain ⟨c, hc⟩ := enter_paging (L := L) (m := m)
  by_cases hnb : nbPages size (m.heap.heap L) = 0
  · rw [if_pos hnb] at e
    cases e
  rw [if_neg hnb] at e
  cases hx : extendLoop alloc m.heap.currentDirectory
      (m.heap.currentDirectory = (enter L m).paging.kernelDirectory) (nbPages size (m.heap.heap L)) 0
      m.heap.unallocatedMem (enter L m) with
  | error err => rw [hx] at e; cases e
  | ok r =>
    obtain ⟨b, t⟩ := r
    rw [hx] at e
    dsimp only [Except.bind] at e
    have htab' : ∀ i, i < nbPages size (m.heap.heap L) → HasTable (enter L m).paging
        m.heap.currentDirectory ((m.heap.unallocatedMem + 0x1000 * i) % 2 ^ 32) := by
      rw [hc]
      exact htab
    obtain ⟨c', hc'⟩ := leave_paging (L := L) (m := m) (t := t)
    obtain ⟨hh, ⟨rfl, h⟩ | ⟨rfl, qs, h, hqs⟩⟩ :=
      extendLoop_ok hlt htab' (show Below _ _ _ [] from trivial) ⟨.refl _, fun _ => rfl⟩ hx
    · -- rolled back
      rw [if_neg Bool.false_ne_true] at e
      cases e
      obtain ⟨hheap, hdir⟩ := leave_enter hcur hh h.1.current
      refine .inl ⟨rfl, hheap, fun f => ?_, fun dir x => ?_⟩
      · rw [hc']
        exact (h.2 f).trans (by rw [hc]; rfl)
      · rw [hc']
        exact (h.1.getPhysicalAddress dir x).trans (by rw [hc]; rfl)
    · -- the new pages are a block behind the last one
      rw [if_pos rfl] at e
      cases e
      rw [List.append_nil] at h
      have ht' : HasTable (enter L m).paging m.heap.currentDirectory m.heap.unallocatedMem := by
        have := htab' 0 (Nat.pos_of_ne_zero hnb)
        rwa [Nat.mul_zero, Nat.add_zero, Nat.mod_eq_of_lt hlt] at this
      have hheap : (leave L m t).heap = m.heap :=
        (leave_enter hcur hh (h.hasTable ht').2.2.2).1
      -- pages mapped behind the heap do not reach around into it: its own are in the way
      have hreach : m.heap.unallocatedMem + 0x1000 * nbPages size (m.heap.heap L) ≤
          2 ^ 32 + startOfHeap L m.heap.currentDirectory := by
        have hne : ∀ x, startOfHeap L m.heap.currentDirectory ≤ x → x < m.heap.unallocatedMem →
            ∀ i, i < nbPages size (m.heap.heap L) →
              (m.heap.unallocatedMem + 0x1000 * i) % 2 ^ 32 / 0x1000 ≠ x / 0x1000 := by
          intro x h1 h2 i hi
          refine added_ne_mapped (a := fun i => (m.heap.unallocatedMem + 0x1000 * i) % 2 ^ 32) h hqs
            htab' ?_ hi
          rw [hc]
          exact hcur ▸ hmapped x h1 h2
        have hlast := hne (m.heap.unallocatedMem - 1) (by omega) (by omega) 0
          (Nat.pos_of_ne_zero hnb)
        have hfirst := hne (startOfHeap L m.heap.currentDirectory) le_rfl (by omega)
          ((2 ^ 32 + startOfHeap L m.heap.currentDirectory - m.heap.unallocatedMem) / 0x1000)
        by_contra hn
        omega
      have hlen : 0x1000 * nbPages size (m.heap.heap L) % 2 ^ 32 =
          0x1000 * nbPages size (m.heap.heap L) := Nat.mod_eq_of_lt (by omega)
      rw [hheap, hlen]
      refine .inr ⟨growHeap_ne_null ?_, ?_⟩
      · change m.heap.unallocatedMem ≠ 0
        omega
      · have sh' : Shape ((m.heap.mapPages m.heap.currentDirectory m.heap.unallocatedMem
            (0x1000 * nbPages size (m.heap.heap L))
            (bytesOf (leave L m t).paging m.heap.currentDirectory)).heap L) bs fl := by
          rw [heap_mapPages]
          refine sh.scribble fun x _ hx _ => if_neg ?_
          simp only [heap_unallocatedMem] at hx
          omega
        exact sh'.growHeap_le hne (by omega) (by omega) (by omega) hreach

/-- `mem_alloc_aligned`, after a block has been found. -/
lemma memAllocAligned_found {t : PagedHeap}
    (e : findOrGrow alloc L (blockSize size alignment) m = .ok (block, t)) :
    memAllocAligned alloc L size alignment m =
      if block = 0 then .ok (0, t)
      else if alignment = 0 then .error "Exception. System Halted"
      else if Mapped t.paging (add32 block 4) (add32 block 4 +
          sub32 (ceilMultiple (add32 block 4) alignment) (add32 block 4)) then
        let h := (takeBlock (blockSize size alignment) alignment (t.heap.heap L) block).1
        .ok (ceilMultiple (add32 block 4) alignment, { t with heap := t.heap.setHeap h })
      else .error "PAGE_FAULT" := by
  unfold memAllocAligned
  rw [e]
  rfl

/-- The search of the free list, or `alloc_pages`. -/
lemma findOrGrow_cases {n : Nat} {t : PagedHeap} (hinv : HeapInv (m.heap.heap L) bs)
    (e : findOrGrow alloc L n m = .ok (block, t)) :
    (t = m ∧ block ≠ 0 ∧ ∃ b ∈ bs, b.addr = block ∧ b.owner = none) ∨
      allocPages alloc L n m = .ok (block, t) := by
  obtain ⟨_, fl, sh, co⟩ := hinv
  have hnull := sh.links.ne_null
  have hfuel : fl.length < WALK_FUEL :=
    length_lt_of_nodup sh.nodup hnull (fun x hx => sh.node_lt hx) (by unfold WALK_FUEL; omega)
  unfold findOrGrow at e
  rcases findBlock_cases n sh.links hfuel with ⟨y, hy, hfind, _⟩ | ⟨hfind, _⟩
  · have h0 := hnull _ hy
    obtain ⟨b, hb, rfl, hf⟩ := sh.free y hy
    simp only [heap_firstFreeBlock] at hfind
    rw [hfind] at e
    left
    cases hk : b.addr with
    | zero => exact absurd hk h0
    | succ k =>
      rw [hk] at e
      cases e
      exact ⟨rfl, Nat.succ_ne_zero k, b, hb, hk, hf⟩
  · simp only [heap_firstFreeBlock] at hfind
    rw [hfind] at e
    exact .inr e

/-- The zeroes of a wrapped padding reach the end header of the block. -/
lemma takeBlock_zeroes (size : Nat) {b : Block} (sh : Shape (m.heap.heap L) bs fl) (hb : b ∈ bs)
    (hz : ceilMultiple (add32 b.addr 4) alignment = 0) :
    (takeBlock size alignment (m.heap.heap L) b.addr).1.mem ≠ (m.heap.heap L).mem := by
  intro hmem
  have hbd := sh.bounds hb
  have hhi := sh.hi
  have ok := sh.blocks b hb
  have hmin := ok.min
  have hlast := ok.last
  rw [← hmem] at hlast
  unfold takeBlock at hlast
  extract_lets h' start afterHeader afterPadding at hlast
  have hah : afterHeader = b.addr + 4 := add32_of_lt (by omega)
  have hap : afterPadding = 0 := hz
  have hlen : sub32 afterPadding afterHeader = 2 ^ 32 - (b.addr + 4) := by
    rw [hah, hap]
    unfold sub32
    omega
  have hzero : (memSet h'.mem afterHeader 0 (sub32 afterPadding afterHeader)).get32
      (b.addr + b.size - 4) = 0 := by
    have hbytes : ∀ x, b.addr + b.size - 4 ≤ x → x < b.addr + b.size - 4 + 4 →
        memSet h'.mem afterHeader 0 (sub32 afterPadding afterHeader) x = (fun _ => 0 : Bytes) x := by
      intro x h1 h2
      rw [memSet_apply, if_pos (by omega)]
    rw [get32_congr hbytes]
    simp [get32]
  rw [hzero] at hlast
  omega

/-- So the heap is not what it was. -/
lemma takeBlock_changes {b : Block} (sh : Shape (m.heap.heap L) bs fl) (hb : b ∈ bs)
    (hz : ceilMultiple (add32 b.addr 4) alignment = 0) :
    ¬ Unchanged m { m with
      heap := m.heap.setHeap (takeBlock size alignment (m.heap.heap L) b.addr).1 } := by
  intro un
  refine takeBlock_zeroes size sh hb hz ?_
  have := congrArg (fun s : MallocState => s.memory m.heap.currentDirectory) un.heap
  simpa [MallocState.setHeap] using this

/-- A block of the free list is taken and NULL is returned. -/
lemma memAllocAligned_wraps {b : Block} (hinv : HeapInv (m.heap.heap L) bs) (hb : b ∈ bs)
    (e : findOrGrow alloc L (blockSize size alignment) m = .ok (b.addr, m)) (h0 : b.addr ≠ 0)
    (hal : alignment ≠ 0) (hz : ceilMultiple (add32 b.addr 4) alignment = 0)
    (hmapped : Mapped m.paging (add32 b.addr 4) (add32 b.addr 4 + sub32 0 (add32 b.addr 4))) :
    ∃ m', memAllocAligned alloc L size alignment m = .ok (0, m') ∧ ¬ Unchanged m m' := by
  obtain ⟨_, fl, sh, _⟩ := hinv
  have hres := memAllocAligned_found e
  rw [if_neg h0, if_neg hal, hz, if_pos hmapped] at hres
  exact ⟨_, hres, takeBlock_changes sh hb hz⟩

/-- For every well-formed heap, size, alignment and frame bitmap: a request that ends in NULL has
changed nothing, if there is room for the alignment between the heap and the end of the address
space. -/
theorem failed_request_atomic (hinv : HeapInv (m.heap.heap L) bs)
    (hcur : m.paging.currentDirectory = m.heap.currentDirectory)
    (hmapped : Mapped m.paging (startOfHeap L m.heap.currentDirectory) m.heap.unallocatedMem)
    (htab : TablesPresent L (blockSize size alignment) m)
    (hroom : m.heap.unallocatedMem + 4 + alignment ≤ 2 ^ 32)
    (hres : memAllocAligned alloc L size alignment m = .ok (0, m')) : Unchanged m m' := by
  cases e : findOrGrow alloc L (blockSize size alignment) m with
  | error err =>
    unfold memAllocAligned at hres
    rw [e] at hres
    cases hres
  | ok r =>
    obtain ⟨block, t⟩ := r
    have hblock : (block = 0 ∧ Unchanged m t) ∨ (block ≠ 0 ∧ block ≤ m.heap.unallocatedMem) := by
      obtain ⟨_, hne, b, hb, rfl, _⟩ | e := findOrGrow_cases hinv e
      · obtain ⟨_, fl, sh, _⟩ := hinv
        have := sh.bounds hb
        simp only [heap_unallocatedMem] at this
        exact .inr ⟨hne, by omega⟩
      · exact allocPages_cases hinv hcur hmapped htab e
    rw [memAllocAligned_found e] at hres
    obtain ⟨rfl, un⟩ | ⟨hb, hle⟩ := hblock
    · rw [if_pos rfl] at hres
      cases hres
      exact un
    · rw [if_neg hb] at hres
      split_ifs at hres with hal
      -- the aligned address lies behind the header
      have hpos := (ceilMultiple_spec (n := add32 block 4) (Nat.pos_of_ne_zero hal)
        (by rw [add32_of_lt (by omega)]; omega)).1
      rw [add32_of_lt (by omega)] at hpos
      have h0 := (Prod.mk.inj (Except.ok.inj hres)).1
      rw [add32_of_lt (by omega)] at h0
      omega

/-- No page table is ever allocated. -/
def noAlloc : MemAllocAligned MallocState := fun _ _ m => .ok (0, m)

/-- Directories that share all their tables; `pages` are the entries, and all frames are in use. -/
def fullSpace (pages : Nat → PageTableEntry) : State where
  frames := fun _ => 255
  framesLength := 32
  physical := fun _ => 0
  directories := fun _ => ⟨fun _ => ⟨true, true, true, 1⟩, fun i => i, 0⟩
  tables := fun table i => pages (1024 * table + i)
  currentDirectory := 1
  kernelDirectory := 0
  baseDirectory := 2

lemma fullSpace_hasTable (pages : Nat → PageTableEntry) {dir x : Nat} :
    HasTable (fullSpace pages) dir x := rfl

/-- Every page is mapped to the frame of its number. -/
lemma fullSpace_identity (dir x : Nat) :
    getPhysicalAddress (fullSpace fun i => ⟨true, true, true, i⟩) dir x = x := by
  rw [getPhysicalAddress_eq (fullSpace_hasTable _)]
  change 0x1000 * (1024 * (x / 0x1000 / 1024) + x / 0x1000 % 1024) + x % 0x1000 = x
  omega

/-- A heap of one page, in a directory that maps no other page; one frame is left. -/
def lastFrame : PagedHeap where
  paging := { fullSpace fun i => if i = 0x300 then ⟨true, true, true, 0x300⟩ else zeroPage with
    frames := fun i => if i = 3 then 254 else 255 }
  heap := sampleHeap

/-- A request that needs two more pages gives back the frame that it got for the first one. -/
theorem failed_request_atomic_sample :
    ∃ m', memAllocAligned noAlloc sampleLayout 0x2800 0x1000 lastFrame = .ok (0, m') ∧
      Unchanged lastFrame m' := by
  have e : ((findOrGrow noAlloc sampleLayout (blockSize 0x2800 0x1000) lastFrame).map
      Prod.fst).toOption = some 0 := by decide +kernel
  cases hr : findOrGrow noAlloc sampleLayout (blockSize 0x2800 0x1000) lastFrame with
  | error err => rw [hr] at e; cases e
  | ok r =>
    obtain ⟨block, t⟩ := r
    rw [hr] at e
    obtain rfl : block = 0 := Option.some.inj e
    have hres : memAllocAligned noAlloc sampleLayout 0x2800 0x1000 lastFrame = .ok (0, t) := by
      rw [memAllocAligned_found hr, if_pos rfl]
    have hinv : HeapInv (lastFrame.heap.heap sampleLayout) [⟨0x300000, 0x1000, none⟩] :=
      (newHeap_represents 1 (fun _ _ => 0) ⟨0, 0⟩).1
    have htab : ∀ x, HasTable lastFrame.paging 1 x := fun _ => rfl
    have hmapped : Mapped lastFrame.paging (startOfHeap sampleLayout lastFrame.heap.currentDirectory)
        lastFrame.heap.unallocatedMem := by
      intro x h1 h2
      have h1 : 0x300000 ≤ x := h1
      have h2 : x < 0x301000 := h2.trans_eq (by decide +kernel)
      have hpage : (lastFrame.paging.page (pagePtr lastFrame.paging 1 x)) =
          ⟨true, true, true, 0x300⟩ := by
        change (if 1024 * (x / 0x1000 / 1024) + x / 0x1000 % 1024 = 0x300 then _ else _) = _
        rw [if_pos (by omega)]
      change getPhysicalAddress lastFrame.paging 1 x ≠ 0
      rw [getPhysicalAddress_eq (htab x), hpage]
      simp
    exact ⟨t, hres, failed_request_atomic hinv rfl hmapped (fun _ _ => htab _) (by decide +kernel) hres⟩

/-- A layout whose user heaps begin close to the top of the address space. -/
def highLayout : Layout where
  kernelDirectory := 0
  endOfKernel := 0x150000
  startOfUserHeap := 0xFFFEE000
  pagingEnabled := true
  endOfKernel_pos := sampleLayout.endOfKernel_pos
  endOfKernel_lt := sampleLayout.endOfKernel_lt
  startOfUserHeap_page := by decide
  startOfUserHeap_pos := by decide
  startOfUserHeap_lt := by decide

/-- A heap of one page that reaches up to the stack; every page of the address space is mapped. -/
def highHeap : PagedHeap :=
  ⟨fullSpace fun i => ⟨true, true, true, i⟩, newHeap highLayout 1 (fun _ _ => 0) ⟨0, 0⟩⟩

/-- A request of almost all of the address space: the size wraps to 16 bytes, the only block is
taken, and what is returned is NULL. -/
theorem failed_request_wraps :
    HeapInv (highHeap.heap.heap highLayout) [⟨0xFFFEE000, 0x1000, none⟩] ∧
    highHeap.paging.currentDirectory = highHeap.heap.currentDirectory ∧
    Mapped highHeap.paging 0xFFFEE000 highHeap.heap.unallocatedMem ∧
    TablesPresent highLayout (blockSize 0xFFFE0000 0x20000) highHeap ∧
    ∃ m', memAllocAligned noAlloc highLayout 0xFFFE0000 0x20000 highHeap = .ok (0, m') ∧
      ¬ Unchanged highHeap m' := by
  have hinv : HeapInv (highHeap.heap.heap highLayout) [⟨0xFFFEE000, 0x1000, none⟩] :=
    (newHeap_represents 1 (fun _ _ => 0) ⟨0, 0⟩).1
  have hfind : findBlock (highHeap.heap.heap highLayout).mem (blockSize 0xFFFE0000 0x20000) WALK_FUEL
      highHeap.heap.firstFreeBlock = some 0xFFFEE000 := by decide +kernel
  have e : findOrGrow noAlloc highLayout (blockSize 0xFFFE0000 0x20000) highHeap =
      .ok (0xFFFEE000, highHeap) := by
    unfold findOrGrow
    rw [hfind]
    rfl
  have hz : ceilMultiple (add32 0xFFFEE000 4) 0x20000 = 0 := by decide +kernel
  have hmapped : ∀ first last, 0 < first → Mapped highHeap.paging first last := by
    intro first last h0 x hx _
    have := fullSpace_identity highHeap.paging.currentDirectory x
    change getPhysicalAddress (fullSpace fun i => ⟨true, true, true, i⟩) _ x ≠ 0
    rw [this]
    omega
  exact ⟨hinv, rfl, hmapped _ _ (by decide), fun _ _ => fullSpace_hasTable fun i => ⟨true, true, true, i⟩,
    memAllocAligned_wraps (b := ⟨0xFFFEE000, 0x1000, none⟩) hinv (List.mem_singleton.mpr rfl) e
      (by decide) (by decide) hz (hmapped _ _ (by decide +kernel))⟩

end PagedHeap

end MarioBrOS.Malloc
