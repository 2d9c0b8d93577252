import MarioBrOS.Paging.Frames
import MarioBrOS.Paging.Space

/-!
# The heap of the kernel

What `mem_alloc_aligned` and `mem_free` are to `paging.c`, which allocates directories and page
tables while it works on directories. It runs in the directory of the kernel. An allocation gives a
block that was not live before, and to make room it may map more pages in the current directory, to
frames that were free, and make page tables there (`Grows`). What else is live, and the frames in
use that the current directory does not map (`Private`), it leaves alone. Windows that
`request_physical_space` opens in the current directory and `free_virtual_space` closes again are
growth of the same kind (`copyPage_spec`).
-/

namespace MarioBrOS.Paging

variable {μ : Type}

/-- What a directory says about page number `v`. -/
def translate (s : State) (dir v : Nat) : Option PageTableEntry :=
  if (pageEntry s dir (v / 1024)).present ∧ (s.page ⟨pageTable s dir (v / 1024), v % 1024⟩).present
  then some (s.page ⟨pageTable s dir (v / 1024), v % 1024⟩)
  else none

/-- The current directory maps no page to the frame, which is in use. -/
structure Private (s : State) (frame : Nat) : Prop where
  used : s.frameUsed frame = true
  unmapped : ∀ v e, translate s s.currentDirectory v = some e → e.address ≠ frame

/-- What an allocation may change. -/
structure Grows (live : μ → Set Nat) (m m' : Machine μ) : Prop where
  alive : live m.heap ⊆ live m'.heap
  current : m'.paging.currentDirectory = m.paging.currentDirectory
  kernel : m'.paging.kernelDirectory = m.paging.kernelDirectory
  base : m'.paging.baseDirectory = m.paging.baseDirectory
  length : m'.paging.framesLength = m.paging.framesLength
  directory : ∀ d ∈ live m.heap, d ≠ m.paging.currentDirectory →
    m'.paging.directories d = m.paging.directories d
  hasTable : ∀ i, (pageEntry m.paging m.paging.currentDirectory i).present = true →
    (pageEntry m'.paging m.paging.currentDirectory i).present = true ∧
      pageTable m'.paging m.paging.currentDirectory i = pageTable m.paging m.paging.currentDirectory i
  newTable : ∀ i, (pageEntry m'.paging m.paging.currentDirectory i).present = true →
    (pageEntry m.paging m.paging.currentDirectory i).present = true ∨
      (pageTable m'.paging m.paging.currentDirectory i ∈ live m'.heap ∧
        pageTable m'.paging m.paging.currentDirectory i ∉ live m.heap)
  table : ∀ p ∈ live m.heap,
    (∀ i, (pageEntry m.paging m.paging.currentDirectory i).present = true →
      pageTable m.paging m.paging.currentDirectory i ≠ p) → m'.paging.tables p = m.paging.tables p
  keeps : ∀ v e, translate m.paging m.paging.currentDirectory v = some e →
    translate m'.paging m.paging.currentDirectory v = some e
  adds : ∀ v e, translate m'.paging m.paging.currentDirectory v = some e →
    translate m.paging m.paging.currentDirectory v = some e ∨
      (m.paging.frameUsed e.address = false ∧ m'.paging.frameUsed e.address = true)
  frames : ∀ f, m.paging.frameUsed f = true → m'.paging.frameUsed f = true
  physical : ∀ x, Private m.paging (x / 0x1000) → m'.paging.physical x = m.paging.physical x

/-- The frames of the current directory are in use. -/
def Counted (s : State) : Prop :=
  ∀ v e, translate s s.currentDirectory v = some e → s.frameUsed e.address = true

/-- The current directory is that of the kernel, with page tables from the heap. -/
structure InKernel (live : μ → Set Nat) (m : Machine μ) : Prop where
  current : m.paging.currentDirectory = m.paging.kernelDirectory
  alive : m.paging.currentDirectory ∈ live m.heap
  table : ∀ i, (pageEntry m.paging m.paging.currentDirectory i).present = true →
    pageTable m.paging m.paging.currentDirectory i ∈ live m.heap
  counted : Counted m.paging

/-- What `mem_free` may change: the block. -/
structure Frees (live : μ → Set Nat) (p : Nat) (m m' : Machine μ) : Prop where
  alive : ∀ x ∈ live m.heap, x ≠ p → x ∈ live m'.heap
  directory : ∀ d ∈ live m.heap, d ≠ p → m'.paging.directories d = m.paging.directories d
  table : ∀ t ∈ live m.heap, t ≠ p → m'.paging.tables t = m.paging.tables t
  base : m'.paging.baseDirectory = m.paging.baseDirectory
  frames : ∀ f, m'.paging.frameUsed f = m.paging.frameUsed f

/-- `mem_alloc_aligned` and `mem_free` in the directory of the kernel, as their callers see them.
The blocks in use that matter here are those that hold directories and page tables. -/
structure KernelHeap (μ : Type) where
  live : μ → Set Nat
  memAllocAligned : MemAllocAligned μ
  memFree : Nat → Machine μ → Except String (Machine μ)
  grows : ∀ {size alignment m p m'}, m.paging.currentDirectory = m.paging.kernelDirectory →
    memAllocAligned size alignment m = .ok (p, m') → Grows live m m'
  fresh : ∀ {size alignment m p m'}, m.paging.currentDirectory = m.paging.kernelDirectory →
    memAllocAligned size alignment m = .ok (p, m') → p ≠ 0 →
      p ∉ live m.heap ∧ p ∈ live m'.heap ∧
        ∀ i, (pageEntry m'.paging m'.paging.currentDirectory i).present = true →
          (pageEntry m.paging m.paging.currentDirectory i).present = true ∨
            pageTable m'.paging m'.paging.currentDirectory i ≠ p
  frees : ∀ {p m m'}, p ∈ live m.heap → memFree p m = .ok m' → Frees live p m m'

section Grows

variable {live : μ → Set Nat} {m m' m'' : Machine μ} {s t : State} {dir v x f : Nat}
  {e : PageTableEntry} {p : PagePtr}

/-! ## Translation -/

lemma translate_eq_some : translate s dir v = some e ↔
    (pageEntry s dir (v / 1024)).present = true ∧ e.present = true ∧
      s.page ⟨pageTable s dir (v / 1024), v % 1024⟩ = e := by
  unfold translate
  constructor
  · intro h
    split_ifs at h with hc
    cases h
    exact ⟨hc.1, hc.2, rfl⟩
  · rintro ⟨h1, h2, rfl⟩
    exact if_pos ⟨h1, h2⟩

/-- `get_physical_address` in terms of the page. -/
lemma getPhysicalAddress_some (h : translate s dir (x / 0x1000) = some e) :
    getPhysicalAddress s dir x = 0x1000 * e.address + x % 0x1000 := by
  obtain ⟨h1, h2, rfl⟩ := translate_eq_some.mp h
  rw [getPhysicalAddress_eq (show HasTable s dir x from h1)]
  exact if_pos h2

lemma getPhysicalAddress_none (h : translate s dir (x / 0x1000) = none) :
    getPhysicalAddress s dir x = 0 := by
  unfold translate at h
  split_ifs at h with hc
  by_cases ht : HasTable s dir x
  · have hp : ¬ (s.page (pagePtr s dir x)).present = true := fun hp => hc ⟨ht, hp⟩
    rw [getPhysicalAddress_eq ht, if_neg hp]
  · exact if_neg ht

lemma SameSpaces.translate (h : SameSpaces s t) (dir v : Nat) :
    translate t dir v = translate s dir v := by
  unfold Paging.translate
  rw [h.present, h.table]
  obtain e | ⟨h1, h2⟩ := h.page ⟨pageTable s dir (v / 1024), v % 1024⟩
  · rw [e]
  · simp [h1, h2]

/-! ## Growth -/

lemma Grows.refl (m : Machine μ) : Grows live m m :=
  ⟨fun _ h => h, rfl, rfl, rfl, rfl, fun _ _ _ => rfl, fun _ h => ⟨h, rfl⟩, fun _ h => .inl h,
    fun _ _ _ => rfl, fun _ _ h => h, fun _ _ h => .inl h, fun _ h => h, fun _ _ => rfl⟩

/-- More blocks are in use. -/
lemma Grows.setHeap (h : Grows live m m') {x : μ} (hx : live m'.heap ⊆ live x) :
    Grows live m { m' with heap := x } :=
  ⟨fun _ hy => hx (h.alive hy), h.current, h.kernel, h.base, h.length, h.directory, h.hasTable,
    fun i hi => (h.newTable i hi).imp_right fun hn => ⟨hx hn.1, hn.2⟩, h.table, h.keeps, h.adds,
    h.frames, h.physical⟩

/-- A frame that was private is so after the growth. -/
lemma Grows.isPrivate (h : Grows live m m') (hf : Private m.paging f) : Private m'.paging f := by
  refine ⟨h.frames f hf.used, fun v e he => ?_⟩
  rw [h.current] at he
  obtain he | ⟨hu, _⟩ := h.adds v e he
  · exact hf.unmapped v e he
  · rintro rfl
    rw [hf.used] at hu
    cases hu

lemma Grows.trans (h : Grows live m m') (h' : Grows live m' m'') : Grows live m m'' := by
  have hc := h.current
  refine ⟨fun _ hx => h'.alive (h.alive hx), h'.current.trans hc, h'.kernel.trans h.kernel,
    h'.base.trans h.base, h'.length.trans h.length, fun d hd hne => ?_, fun i hi => ?_, fun i hi => ?_,
    fun p hp hne => ?_, fun v e he => ?_, fun v e he => ?_, fun f hf => h'.frames f (h.frames f hf),
    fun x hx => (h'.physical x (h.isPrivate hx)).trans (h.physical x hx)⟩
  · rw [h'.directory d (h.alive hd) (hc ▸ hne), h.directory d hd hne]
  · obtain ⟨h1, h2⟩ := h.hasTable i hi
    obtain ⟨h3, h4⟩ := h'.hasTable i (hc.symm ▸ h1)
    rw [hc] at h3 h4
    exact ⟨h3, h4.trans h2⟩
  · obtain h1 | ⟨h1, h2⟩ := h'.newTable i (hc.symm ▸ hi)
    · rw [hc] at h1
      obtain h3 | ⟨h3, h4⟩ := h.newTable i h1
      · exact .inl h3
      · obtain ⟨_, h5⟩ := h'.hasTable i (hc.symm ▸ h1)
        rw [hc] at h5
        rw [h5]
        exact .inr ⟨h'.alive h3, h4⟩
    · rw [hc] at h1 h2
      exact .inr ⟨h1, fun h3 => h2 (h.alive h3)⟩
  · rw [h'.table p (h.alive hp) fun i hi => ?_, h.table p hp hne]
    rw [hc] at hi ⊢
    obtain h1 | ⟨_, h1⟩ := h.newTable i hi
    · rw [(h.hasTable i h1).2]
      exact hne i h1
    · rintro rfl
      exact h1 hp
  · have := h'.keeps v e (hc.symm ▸ h.keeps v e he)
    rwa [hc] at this
  · obtain h1 | ⟨h1, h2⟩ := h'.adds v e (hc.symm ▸ he)
    · rw [hc] at h1
      obtain h3 | ⟨h3, h4⟩ := h.adds v e h1
      · exact .inl h3
      · exact .inr ⟨h3, h'.frames _ h4⟩
    · refine .inr ⟨?_, h2⟩
      by_contra hu
      rw [Bool.not_eq_false] at hu
      rw [h.frames _ hu] at h1
      cases h1

lemma Grows.counted (h : Grows live m m') (hm : Counted m.paging) : Counted m'.paging := by
  intro v e he
  rw [h.current] at he
  obtain he | ⟨_, hu⟩ := h.adds v e he
  · exact h.frames _ (hm v e he)
  · exact hu

lemma Grows.inKernel (h : Grows live m m') (hm : InKernel live m) : InKernel live m' := by
  refine ⟨h.current.trans (hm.current.trans h.kernel.symm), h.current ▸ h.alive hm.alive,
    fun i hi => ?_, h.counted hm.counted⟩
  rw [h.current] at hi ⊢
  obtain h1 | ⟨h1, _⟩ := h.newTable i hi
  · rw [(h.hasTable i h1).2]
    exact h.alive (hm.table i h1)
  · exact h1

/-- Rights are no part of it. -/
lemma ensureRights_grows {i : Nat} {k w : Bool} (hdir : dir = m.paging.currentDirectory) :
    Grows live m { m with paging := ensureRights dir i k w m.paging } := by
  have h : SameSpaces m.paging (ensureRights dir i k w m.paging) := ensureRights_same
  refine ⟨fun _ hx => hx, rfl, rfl, rfl, rfl, fun d _ hne => ?_, fun j hj => ?_, fun j hj => ?_,
    fun _ _ _ => rfl, fun v e he => ?_, fun v e he => ?_, fun _ hf => hf, fun _ _ => rfl⟩
  · rw [← hdir] at hne
    exact Function.update_of_ne hne ..
  · exact ⟨(h.present _ j).trans hj, h.table _ j⟩
  · exact .inl ((h.present _ j).symm.trans hj)
  · exact (h.translate _ v).trans he
  · exact .inl ((h.translate _ v).symm.trans he)

/-- A directory with a new, empty table that it does not have yet. -/
lemma translate_newTable {table : Nat} (v ti : Nat) (en : PageDirectoryEntry)
    (hne : ∀ i, (pageEntry s dir i).present = true → pageTable s dir i ≠ table) :
    translate ((s.setTable table fun _ => zeroPage).setDirectory dir
      (((s.setTable table fun _ => zeroPage).directories dir).setEntry ti en table)) dir v =
        if v / 1024 = ti then none else translate s dir v := by
  have hE := pageEntry_setEntry (s.setTable table fun _ => zeroPage) dir dir ti (v / 1024) table en
  have hT := pageTable_setEntry (s.setTable table fun _ => zeroPage) dir dir ti (v / 1024) table en
  have hP : ∀ p, ((s.setTable table fun _ => zeroPage).setDirectory dir
      (((s.setTable table fun _ => zeroPage).directories dir).setEntry ti en table)).page p =
        if p.table = table then zeroPage else s.page p := fun p => page_setTable s table _ p
  unfold translate
  by_cases h : v / 1024 = ti
  · rw [if_pos ⟨rfl, h⟩] at hE hT
    rw [hE, hT, hP, if_pos rfl, if_pos h]
    simp [zeroPage]
  · rw [if_neg fun hc => h hc.2] at hE hT
    rw [hE, hT, hP, if_neg h]
    by_cases hp : (pageEntry s dir (v / 1024)).present = true
    · rw [if_neg (show pageTable (s.setTable table _) dir (v / 1024) ≠ table from hne _ hp)]
      rfl
    · rw [if_neg fun hc => hp hc.1, if_neg fun hc => hp hc.1]

variable (H : KernelHeap μ) {address : Nat} {k w : Bool}

/-- A block from the allocator is none of the page tables of the current directory. -/
lemma KernelHeap.fresh_table {size alignment q : Nat} (hk : InKernel H.live m)
    (h : H.memAllocAligned size alignment m = .ok (q, m')) (h0 : q ≠ 0) (i : Nat)
    (hi : (pageEntry m'.paging m.paging.currentDirectory i).present = true) :
    pageTable m'.paging m.paging.currentDirectory i ≠ q := by
  have g := H.grows hk.current h
  obtain ⟨hf, _, hnew⟩ := H.fresh hk.current h h0
  rw [g.current] at hnew
  obtain h1 | h1 := hnew i hi
  · rw [(g.hasTable i h1).2]
    rintro rfl
    exact hf (hk.table i h1)
  · exact h1

/-- A new page table in the current directory. -/
lemma makePageTable_grows {tableIndex : Nat} (hk : InKernel H.live m)
    (hdir : dir = m.paging.currentDirectory)
    (habs : (pageEntry m.paging dir tableIndex).present = false)
    (h : makePageTable H.memAllocAligned dir tableIndex k w m = .ok m') :
    Grows H.live m m' ∧ (pageEntry m'.paging dir tableIndex).present = true := by
  unfold makePageTable at h
  by_cases hold : pageTable m.paging dir tableIndex ≠ 0
  · rw [if_pos hold] at h
    cases h
  rw [if_neg hold] at h
  cases ha : H.memAllocAligned SIZEOF_PAGE_TABLE 0x1000 m with
  | error err => rw [ha] at h; cases h
  | ok r =>
    obtain ⟨table, m₁⟩ := r
    rw [ha] at h
    dsimp only [bind, Except.bind] at h
    by_cases h0 : table = 0
    · rw [if_pos h0] at h
      cases h
    rw [if_neg h0] at h
    cases h
    have g := H.grows hk.current ha
    obtain ⟨hf1, hf2, _⟩ := H.fresh hk.current ha h0
    have hf3 := H.fresh_table hk ha h0
    subst hdir
    -- nothing is mapped through the new table, and all else is mapped as before
    have htr := fun v en => translate_newTable v tableIndex en hf3
    have hE := fun i en => pageEntry_setEntry (m₁.paging.setTable table fun _ => zeroPage)
      m.paging.currentDirectory m.paging.currentDirectory tableIndex i table en
    have hT := fun i en => pageTable_setEntry (m₁.paging.setTable table fun _ => zeroPage)
      m.paging.currentDirectory m.paging.currentDirectory tableIndex i table en
    refine ⟨⟨g.alive, g.current, g.kernel, g.base, g.length, fun d hd hne => ?_, fun i hi => ?_,
      fun i hi => ?_, fun p hp hne => ?_, fun v e he => ?_, fun v e he => ?_, g.frames,
      g.physical⟩, ?_⟩
    · exact (Function.update_of_ne hne ..).trans (g.directory d hd hne)
    · have hi' : ¬ (m.paging.currentDirectory = m.paging.currentDirectory ∧ i = tableIndex) := by
        rintro ⟨_, rfl⟩
        rw [habs] at hi
        cases hi
      dsimp only
      rw [hE, hT, if_neg hi', if_neg hi']
      exact g.hasTable i hi
    · dsimp only at hi ⊢
      rw [hE] at hi
      rw [hT]
      by_cases hi' : m.paging.currentDirectory = m.paging.currentDirectory ∧ i = tableIndex
      · rw [if_pos hi']
        exact .inr ⟨hf2, hf1⟩
      · rw [if_neg hi'] at hi ⊢
        exact g.newTable i hi
    · refine (Function.update_of_ne ?_ ..).trans (g.table p hp hne)
      rintro rfl
      exact hf1 hp
    · have hv : v / 1024 ≠ tableIndex := by
        rintro rfl
        rw [(translate_eq_some.mp he).1] at habs
        cases habs
      dsimp only
      rw [htr, if_neg hv]
      exact g.keeps v e he
    · dsimp only at he
      rw [htr] at he
      by_cases hv : v / 1024 = tableIndex
      · rw [if_pos hv] at he
        cases he
      · rw [if_neg hv] at he
        exact g.adds v e he
    · dsimp only
      rw [hE, if_pos ⟨rfl, rfl⟩]

/-- `get_page` in the current directory. -/
lemma getPage_grows {p : PagePtr} (hk : InKernel H.live m) (hdir : dir = m.paging.currentDirectory)
    (h : getPage H.memAllocAligned dir address k w m = .ok (p, m')) :
    Grows H.live m m' ∧ HasTable m'.paging dir address ∧ p = pagePtr m'.paging dir address := by
  by_cases ht : HasTable m.paging dir address
  · rw [getPage_eq _ ht] at h
    cases h
    exact ⟨ensureRights_grows hdir, ensureRights_same.hasTable ht,
      (ensureRights_same.pagePtr dir address).symm⟩
  · rw [getPage_makes _ ht] at h
    cases hm : makePageTable H.memAllocAligned dir (address / 0x1000 / 1024) k w m with
    | error err => rw [hm] at h; cases h
    | ok m₁ =>
      rw [hm] at h
      cases h
      obtain ⟨g, hpres⟩ := makePageTable_grows H hk hdir (Bool.not_eq_true _ ▸ ht) hm
      exact ⟨g, hpres, rfl⟩

/-- `request_physical_space` in the current directory: no page is left, or a page that was not there
is mapped to the frame. -/
lemma requestPhysicalSpace_ok {physical va : Nat} (hk : InKernel H.live m)
    (hdir : dir = m.paging.currentDirectory) (hp : physical % 0x1000 = 0)
    (h : requestPhysicalSpace H.memAllocAligned dir physical k w m = .ok (va, m')) :
    (va = 0 ∧ m' = m) ∨ ∃ m₁,
      getPage H.memAllocAligned dir va k w m = .ok (pagePtr m₁.paging dir va, m₁) ∧
      Grows H.live m m₁ ∧ va ≠ 0 ∧ va % 0x1000 = 0 ∧ HasTable m₁.paging dir va ∧
      (m₁.paging.page (pagePtr m₁.paging dir va)).present = false ∧ physical / 0x1000 ≠ 0 ∧
      m' = { m₁ with
        paging := (m₁.paging.setFrame (physical / 0x1000) true).setPage
          (pagePtr m₁.paging dir va) ⟨true, w, !k, physical / 0x1000⟩ } := by
  unfold requestPhysicalSpace at h
  dsimp only at h
  by_cases hi : findUnmappedPage m.paging dir = 0
  · rw [if_pos hi] at h
    cases h
    exact .inl ⟨rfl, rfl⟩
  rw [if_neg hi, hp, Nat.add_zero] at h
  have hmod : findUnmappedPage m.paging dir * 0x1000 % 0x1000 = 0 := Nat.mul_mod_left ..
  have hne : findUnmappedPage m.paging dir * 0x1000 ≠ 0 := by omega
  generalize findUnmappedPage m.paging dir * 0x1000 = a at h hmod hne
  cases hg : getPage H.memAllocAligned dir a k w m with
  | error err => rw [hg] at h; cases h
  | ok r =>
    obtain ⟨p, m₁⟩ := r
    rw [hg] at h
    dsimp only [bind, Except.bind] at h
    cases hm : mapPageToFrame p (physical / 0x1000) k w m₁.paging with
    | error err => rw [hm] at h; cases h
    | ok t =>
      rw [hm] at h
      cases h
      obtain ⟨g, ht, rfl⟩ := getPage_grows H hk hdir hg
      obtain ⟨h0, _, hpres, rfl⟩ := mapPageToFrame_ok hm
      exact .inr ⟨m₁, hg, g, hne, hmod, ht, hpres, h0, rfl⟩

/-- Marking a frame. -/
lemma setFrame_grows : Grows live m { m with paging := m.paging.setFrame f true } := by
  refine ⟨fun _ h => h, rfl, rfl, rfl, rfl, fun _ _ _ => rfl, fun _ h => ⟨h, rfl⟩, fun _ h => .inl h,
    fun _ _ _ => rfl, fun _ _ h => h, fun _ _ h => .inl h, fun g hg => ?_, fun _ _ => rfl⟩
  dsimp only
  rw [frameUsed_setFrame]
  split
  · rfl
  · exact hg

/-- An entry that changes is seen by the directories that have its table. -/
lemma translate_setPage : translate (s.setPage p e) dir v =
    if (pageEntry s dir (v / 1024)).present = true ∧ ⟨pageTable s dir (v / 1024), v % 1024⟩ = p then
      if e.present then some e else none
    else translate s dir v := by
  unfold translate
  change (if (pageEntry s dir (v / 1024)).present = true ∧
    ((s.setPage p e).page ⟨pageTable s dir (v / 1024), v % 1024⟩).present = true then
      some ((s.setPage p e).page ⟨pageTable s dir (v / 1024), v % 1024⟩) else none) = _
  rw [page_setPage]
  by_cases h1 : (pageEntry s dir (v / 1024)).present = true
  · by_cases h2 : (⟨pageTable s dir (v / 1024), v % 1024⟩ : PagePtr) = p
    · simp [h1, h2]
    · simp [h1, h2]
  · simp [h1]

/-- A page of the current directory that is not there is not one of those it maps. -/
lemma ne_of_translate {q : PagePtr} (h : translate s dir v = some e) (hq : (s.page q).present = false) :
    (⟨pageTable s dir (v / 1024), v % 1024⟩ : PagePtr) ≠ q := by
  obtain ⟨_, h2, h3⟩ := translate_eq_some.mp h
  rintro rfl
  rw [h3, h2] at hq
  cases hq

/-- Entries of the tables of the current directory that were not there change, to frames that were
clear or to nothing. -/
lemma Grows.setPage (h : Grows live m m') (hdir : dir = m.paging.currentDirectory)
    {a : Nat} (ht : HasTable m'.paging dir a)
    (hpre : ∀ v e, translate m.paging dir v = some e →
      (⟨pageTable m'.paging dir (v / 1024), v % 1024⟩ : PagePtr) ≠ pagePtr m'.paging dir a)
    (he : e.present = true →
      m.paging.frameUsed e.address = false ∧ m'.paging.frameUsed e.address = true) :
    Grows live m { m' with paging := m'.paging.setPage (pagePtr m'.paging dir a) e } := by
  subst hdir
  refine ⟨h.alive, h.current, h.kernel, h.base, h.length, h.directory, h.hasTable, h.newTable,
    fun p hp hne => ?_, fun v e' hv => ?_, fun v e' hv => ?_, h.frames, h.physical⟩
  · refine (Function.update_of_ne ?_ ..).trans (h.table p hp hne)
    rintro rfl
    obtain h1 | ⟨_, h1⟩ := h.newTable _ ht
    · exact hne _ h1 (h.hasTable _ h1).2.symm
    · exact h1 hp
  · dsimp only
    rw [translate_setPage, if_neg fun hc => hpre v e' hv hc.2]
    exact h.keeps v e' hv
  · dsimp only at hv
    rw [translate_setPage] at hv
    split_ifs at hv with hc hpr
    · cases hv
      exact .inr (he hpr)
    · exact h.adds v e' hv

/-! ## Other directories -/

/-- A live directory other than the current one, which shares no table with it. -/
structure Apart (live : μ → Set Nat) (m : Machine μ) (dir : Nat) : Prop where
  alive : dir ∈ live m.heap
  ne : dir ≠ m.paging.currentDirectory
  table : ∀ i, (pageEntry m.paging dir i).present = true → pageTable m.paging dir i ∈ live m.heap
  other : ∀ i j, (pageEntry m.paging dir i).present = true →
    (pageEntry m.paging m.paging.currentDirectory j).present = true →
    pageTable m.paging m.paging.currentDirectory j ≠ pageTable m.paging dir i

/-- Such a directory stays as it is. -/
lemma Grows.apart (h : Grows live m m') (ha : Apart live m dir) :
    m'.paging.directories dir = m.paging.directories dir ∧
    (∀ i, (pageEntry m.paging dir i).present = true →
      m'.paging.tables (pageTable m.paging dir i) = m.paging.tables (pageTable m.paging dir i)) ∧
    Apart live m' dir := by
  have hd := h.directory dir ha.alive ha.ne
  have hE : ∀ i, pageEntry m'.paging dir i = pageEntry m.paging dir i := fun i => by
    unfold pageEntry
    rw [hd]
  have hT : ∀ i, pageTable m'.paging dir i = pageTable m.paging dir i := fun i => by
    unfold pageTable
    rw [hd]
  refine ⟨hd, fun i hi => h.table _ (ha.table i hi) fun j hj => ha.other i j hi hj,
    h.alive ha.alive, h.current ▸ ha.ne, fun i hi => ?_, fun i j hi hj => ?_⟩
  · rw [hE] at hi
    rw [hT]
    exact h.alive (ha.table i hi)
  · rw [hE] at hi
    rw [h.current] at hj ⊢
    rw [hT]
    obtain h1 | ⟨_, h1⟩ := h.newTable j hj
    · rw [(h.hasTable j h1).2]
      exact ha.other i j hi h1
    · intro e
      rw [e] at h1
      exact h1 (ha.table i hi)

/-- A directory whose record and tables are the same translates alike. -/
lemma translate_congr (hd : t.directories dir = s.directories dir)
    (ht : ∀ i, (pageEntry s dir i).present = true →
      t.tables (pageTable s dir i) = s.tables (pageTable s dir i)) (v : Nat) :
    translate t dir v = translate s dir v := by
  unfold translate
  have hE : pageEntry t dir (v / 1024) = pageEntry s dir (v / 1024) := by
    unfold pageEntry
    rw [hd]
  have hT : pageTable t dir (v / 1024) = pageTable s dir (v / 1024) := by
    unfold pageTable
    rw [hd]
  rw [hE, hT]
  by_cases hp : (pageEntry s dir (v / 1024)).present = true
  · have : t.page ⟨pageTable s dir (v / 1024), v % 1024⟩ =
        s.page ⟨pageTable s dir (v / 1024), v % 1024⟩ := congrFun (ht _ hp) _
    rw [this]
  · rw [if_neg fun hc => hp hc.1, if_neg fun hc => hp hc.1]

lemma Grows.translate_eq (h : Grows live m m') (ha : Apart live m dir) (v : Nat) :
    translate m'.paging dir v = translate m.paging dir v :=
  translate_congr (h.apart ha).1 (h.apart ha).2.1 v

/-- `get_physical_address` depends on the translation of the page. -/
lemma getPhysicalAddress_congr {d : Nat}
    (h : translate t d (x / 0x1000) = translate s dir (x / 0x1000)) :
    getPhysicalAddress t d x = getPhysicalAddress s dir x := by
  cases hv : translate s dir (x / 0x1000) with
  | none => rw [getPhysicalAddress_none hv, getPhysicalAddress_none (h.trans hv)]
  | some e => rw [getPhysicalAddress_some hv, getPhysicalAddress_some (h.trans hv)]

end Grows

end MarioBrOS.Paging
