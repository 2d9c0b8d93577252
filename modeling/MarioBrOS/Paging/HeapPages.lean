import MarioBrOS.Paging.Fork

/-!
# The pages of the heap

What a caller of `mem_alloc_aligned` and `mem_free` knows about memory that is not the heap's: the
allocator works in pages of its own, which it maps to frames that were free, and leaves the bytes of
all other frames in use as they are. Frames that the caller sees through windows in the current
directory are not touched, then (`Opened`).
-/

namespace MarioBrOS.Paging

variable {μ : Type}

/-- No page of the heap is mapped to the frame, which is in use. -/
structure Outside (pages : μ → Set Nat) (m : Machine μ) (frame : Nat) : Prop where
  used : m.paging.frameUsed frame = true
  unmapped : ∀ v ∈ pages m.heap, ∀ e, translate m.paging m.paging.currentDirectory v = some e →
    e.address ≠ frame

/-- What an allocation does with the pages and the bytes. -/
structure HeapWorks (pages : μ → Set Nat) (m m' : Machine μ) : Prop where
  page : ∀ v ∈ pages m'.heap, v ∈ pages m.heap ∨
    translate m.paging m.paging.currentDirectory v = none ∧
      ∃ e, translate m'.paging m.paging.currentDirectory v = some e
  bytes : ∀ x, Outside pages m (x / 0x1000) → m'.paging.physical x = m.paging.physical x

/-- A heap of the kernel that works in pages of its own; what is live can be freed. The memory for a
page table is not in a page that has no table: such a request would ask for the same table again and
would not return. -/
structure PagedKernelHeap (μ : Type) extends KernelHeap μ where
  pages : μ → Set Nat
  works : ∀ {size alignment m p m'}, m.paging.currentDirectory = m.paging.kernelDirectory →
    memAllocAligned size alignment m = .ok (p, m') → HeapWorks pages m m'
  tables : ∀ {m p m'}, memAllocAligned SIZEOF_PAGE_TABLE 0x1000 m = .ok (p, m') →
    ∀ i, (pageEntry m'.paging m.paging.currentDirectory i).present = true →
      (pageEntry m.paging m.paging.currentDirectory i).present = true
  freesLive : ∀ {p m}, p ∈ live m.heap → ∃ m', memFree p m = .ok m'
  freesCurrent : ∀ {p m m'}, p ∈ live m.heap → memFree p m = .ok m' →
    m'.paging.currentDirectory = m.paging.currentDirectory
  freesBytes : ∀ {p m m'}, p ∈ live m.heap → memFree p m = .ok m' →
    ∀ x, Outside pages m (x / 0x1000) → m'.paging.physical x = m.paging.physical x

section Works

variable {pages : μ → Set Nat} {live : μ → Set Nat} {m m' m₁ : Machine μ} {s : State} {dir f x : Nat}
  {e : PageTableEntry}

/-- The heap and the memory are the same. -/
lemma HeapWorks.of_eq (hh : m'.heap = m.heap) (hb : m'.paging.physical = m.paging.physical) :
    HeapWorks pages m m' := by
  refine ⟨fun v hv => .inl ?_, fun x _ => congrFun hb x⟩
  rwa [hh] at hv

/-- More pages are mapped. -/
lemma HeapWorks.map (h : HeapWorks pages m m₁) (hh : m'.heap = m₁.heap)
    (hb : m'.paging.physical = m₁.paging.physical)
    (hk : ∀ v e, translate m₁.paging m.paging.currentDirectory v = some e →
      ∃ e', translate m'.paging m.paging.currentDirectory v = some e') : HeapWorks pages m m' := by
  refine ⟨fun v hv => ?_, fun x hx => (congrFun hb x).trans (h.bytes x hx)⟩
  rw [hh] at hv
  obtain h1 | ⟨h1, e, h2⟩ := h.page v hv
  · exact .inl h1
  · exact .inr ⟨h1, hk v e h2⟩

/-- A frame outside of the heap stays outside. -/
lemma HeapWorks.outside (h : HeapWorks pages m m') (g : Grows live m m') (hf : Outside pages m f) :
    Outside pages m' f := by
  refine ⟨g.frames f hf.used, fun v hv e he => ?_⟩
  rw [g.current] at he
  obtain h1 | ⟨h1, _⟩ := g.adds v e he
  · obtain h2 | ⟨h2, _⟩ := h.page v hv
    · exact hf.unmapped v h2 e h1
    · rw [h2] at h1
      cases h1
  · rintro rfl
    rw [hf.used] at h1
    cases h1

/-- The pages of the heap stay mapped. -/
lemma HeapWorks.mapped (h : HeapWorks pages m m') (g : Grows live m m')
    (hmap : ∀ v ∈ pages m.heap, ∃ e, translate m.paging m.paging.currentDirectory v = some e) :
    ∀ v ∈ pages m'.heap, ∃ e, translate m'.paging m'.paging.currentDirectory v = some e := by
  intro v hv
  rw [g.current]
  obtain h1 | ⟨_, h1⟩ := h.page v hv
  · obtain ⟨e, he⟩ := hmap v h1
    exact ⟨e, g.keeps v e he⟩
  · exact h1

variable (P : PagedKernelHeap μ)

/-- A new page table in the current directory. -/
lemma makePageTable_works {i : Nat} {k w : Bool} (hk : InKernel P.live m)
    (hdir : dir = m.paging.currentDirectory) (habs : (pageEntry m.paging dir i).present = false)
    (h : makePageTable P.memAllocAligned dir i k w m = .ok m') : HeapWorks P.pages m m' := by
  unfold makePageTable at h
  by_cases hold : pageTable m.paging dir i ≠ 0
  · rw [if_pos hold] at h
    cases h
  rw [if_neg hold] at h
  cases ha : P.memAllocAligned SIZEOF_PAGE_TABLE 0x1000 m with
  | error err => rw [ha] at h; cases h
  | ok r =>
    obtain ⟨table, m₁⟩ := r
    rw [ha] at h
    dsimp only [bind, Except.bind] at h
    by_cases h0 : table = 0
    · rw [if_pos h0] at h
      cases h
    rw [if_neg h0] at h
    cases h
    refine (P.works hk.current ha).map rfl rfl fun v e he => ⟨e, ?_⟩
    have hv : v / 1024 ≠ i := by
      rintro rfl
      rw [hdir, P.tables ha _ (translate_eq_some.mp he).1] at habs
      cases habs
    subst hdir
    dsimp only
    rw [translate_newTable v i _ (P.fresh_table hk ha h0), if_neg hv]
    exact he

/-- `get_page` in the current directory. -/
lemma getPage_works {p : PagePtr} {address : Nat} {k w : Bool} (hk : InKernel P.live m)
    (hdir : dir = m.paging.currentDirectory)
    (h : getPage P.memAllocAligned dir address k w m = .ok (p, m')) : HeapWorks P.pages m m' := by
  by_cases ht : HasTable m.paging dir address
  · rw [getPage_eq _ ht] at h
    cases h
    exact .of_eq rfl rfl
  rw [getPage_makes _ ht] at h
  cases hm : makePageTable P.memAllocAligned dir (address / 0x1000 / 1024) k w m with
  | error err => rw [hm] at h; cases h
  | ok m₁ =>
    rw [hm] at h
    cases h
    exact makePageTable_works P hk hdir (Bool.not_eq_true _ ▸ ht) hm

end Works

end MarioBrOS.Paging
