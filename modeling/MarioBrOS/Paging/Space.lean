import MarioBrOS.Paging.Model

/-!
# Address spaces

The part of `paging.c` that looks up, makes and releases the pages of a directory. Page tables and
directories are blocks of the kernel heap, so `get_page` may call `mem_alloc_aligned`, which may
itself ask for pages: these functions take it as an argument. A `Machine` is what `paging.c` works
on together with whatever the allocator keeps.

`State.mapping` is what a directory says about a page. The functions are specified by what becomes
of it.
-/

namespace MarioBrOS.Paging

/-- The pages and the heap of the kernel. -/
structure Machine (μ : Type) where
  paging : State
  heap : μ

/-- `mem_alloc_aligned`, for the size and alignment asked for: the address and what is left. -/
abbrev MemAllocAligned (μ : Type) : Type := Nat → Nat → Machine μ → Except String (Nat × Machine μ)

/-- `sizeof(page_table_t)`. -/
def SIZEOF_PAGE_TABLE : Nat := 4 * 1024

/-- `sizeof(page_directory_t)`. -/
def SIZEOF_PAGE_DIRECTORY : Nat := 4 * 1024 + 4 * 1024 + 4

namespace State

/-- `*table = pages`. -/
def setTable (s : State) (table : Nat) (pages : Nat → PageTableEntry) : State :=
  { s with tables := Function.update s.tables table pages }

/-- `*dir = d`. -/
def setDirectory (s : State) (dir : Nat) (d : PageDirectory) : State :=
  { s with directories := Function.update s.directories dir d }

end State

/-- `dir->entries[tableIndex] = e; dir->tables[tableIndex] = table`. -/
def PageDirectory.setEntry (d : PageDirectory) (tableIndex : Nat) (e : PageDirectoryEntry)
    (table : Nat) : PageDirectory :=
  { d with
    entries := Function.update d.entries tableIndex e
    tables := Function.update d.tables tableIndex table }

variable {μ : Type} (alloc : MemAllocAligned μ)

/-- The entry of a page in its directory. -/
def pageEntry (s : State) (dir tableIndex : Nat) : PageDirectoryEntry :=
  (s.directories dir).entries tableIndex

/-- The table of a page. -/
def pageTable (s : State) (dir tableIndex : Nat) : Nat :=
  (s.directories dir).tables tableIndex

/-- `paging.c`, `make_page_table`, once paging is enabled. `mem_set` on a null pointer ends in the
page fault handler. -/
def makePageTable (dir tableIndex : Nat) (isKernel isWritable : Bool) (m : Machine μ) :
    Except String (Machine μ) :=
  if pageTable m.paging dir tableIndex ≠ 0 then
    throw "Page table already made"
  else do
    let (table, m) ← alloc SIZEOF_PAGE_TABLE 0x1000 m
    let physicalAddress := getPhysicalAddress m.paging m.paging.currentDirectory table
    if table = 0 then
      throw "PAGE_FAULT"
    else
      let s := m.paging.setTable table fun _ => zeroPage
      let entry := ⟨true, isWritable, !isKernel, physicalAddress / 0x1000⟩
      pure { m with
        paging := s.setDirectory dir ((s.directories dir).setEntry tableIndex entry table) }

/-- The rights that `get_page` gives to a table that is there. -/
def ensureRights (dir tableIndex : Nat) (isKernel isWritable : Bool) (s : State) : State :=
  let e := pageEntry s dir tableIndex
  let e := { e with user := e.user || !isKernel, rw := e.rw || isWritable }
  s.setDirectory dir ((s.directories dir).setEntry tableIndex e (pageTable s dir tableIndex))

/-- `paging.c`, `get_page`. -/
def getPage (dir address : Nat) (isKernel isWritable : Bool) (m : Machine μ) :
    Except String (PagePtr × Machine μ) :=
  let frameAddress := address / 0x1000
  let pageIndex := frameAddress % 1024
  let tableIndex := frameAddress / 1024
  if (pageEntry m.paging dir tableIndex).present then
    pure (⟨pageTable m.paging dir tableIndex, pageIndex⟩,
      { m with paging := ensureRights dir tableIndex isKernel isWritable m.paging })
  else do
    let m ← makePageTable alloc dir tableIndex isKernel isWritable m
    pure (⟨pageTable m.paging dir tableIndex, pageIndex⟩, m)

/-- The search of `find_unmapped_page` through `n` pages from `page` on. -/
def findUnmappedFrom (s : State) (dir : Nat) : Nat → Nat → Nat
  | 0, _ => 0
  | n + 1, page =>
    if getPhysicalAddress s dir (0x1000 * page) = 0 then page else findUnmappedFrom s dir n (page + 1)

/-- `paging.c`, `find_unmapped_page`. -/
def findUnmappedPage (s : State) (dir : Nat) : Nat := findUnmappedFrom s dir (1024 * 1024 - 1) 1

/-- `paging.c`, `request_virtual_space`. -/
def requestVirtualSpace (dir virtualAddress : Nat) (isKernel isWritable : Bool) (m : Machine μ) :
    Except String (Bool × Machine μ) := do
  let (page, m) ← getPage alloc dir virtualAddress isKernel isWritable m
  if (m.paging.page page).present then
    pure (false, m)
  else
    let (b, s) ← mapPage page isKernel isWritable m.paging
    pure (b, { m with paging := s })

/-- `paging.c`, `request_physical_space`. -/
def requestPhysicalSpace (dir physicalAddress : Nat) (isKernel isWritable : Bool) (m : Machine μ) :
    Except String (Nat × Machine μ) :=
  let index := findUnmappedPage m.paging dir
  if index = 0 then
    pure (0, m)
  else do
    let virtualAddress := index * 0x1000 + physicalAddress % 0x1000
    let (page, m) ← getPage alloc dir virtualAddress isKernel isWritable m
    let s ← mapPageToFrame page (physicalAddress / 0x1000) isKernel isWritable m.paging
    pure (virtualAddress, { m with paging := s })

/-- `paging.c`, `free_virtual_space`. -/
def freeVirtualSpace (dir virtualAddress : Nat) (freeFrame : Bool) (m : Machine μ) :
    Except String (Machine μ) := do
  let (page, m) ← getPage alloc dir virtualAddress true false m
  pure { m with paging := freePage page freeFrame m.paging }

/-- `mem_copy` between two places in the current directory, byte by byte; both are mapped. -/
def copyThrough (s : State) (dest src : Nat) : Nat → Bytes
  | 0 => s.physical
  | len + 1 =>
    let m := copyThrough s dest src len
    Function.update m (getPhysicalAddress s s.currentDirectory (dest + len))
      (m (getPhysicalAddress s s.currentDirectory (src + len)))

/-! ## Fields -/

section Fields

variable (s : State) (dir d i j table : Nat) (e : PageDirectoryEntry) (pages : Nat → PageTableEntry)

lemma pageEntry_setEntry :
    pageEntry (s.setDirectory dir ((s.directories dir).setEntry i e table)) d j =
      if d = dir ∧ j = i then e else pageEntry s d j := by
  unfold pageEntry State.setDirectory PageDirectory.setEntry
  by_cases hd : d = dir
  · subst hd
    by_cases hj : j = i <;> simp [hj]
  · simp [hd]

lemma pageTable_setEntry :
    pageTable (s.setDirectory dir ((s.directories dir).setEntry i e table)) d j =
      if d = dir ∧ j = i then table else pageTable s d j := by
  unfold pageTable State.setDirectory PageDirectory.setEntry
  by_cases hd : d = dir
  · subst hd
    by_cases hj : j = i <;> simp [hj]
  · simp [hd]

lemma page_setTable (p : PagePtr) :
    (s.setTable table pages).page p = if p.table = table then pages p.index else s.page p := by
  unfold State.page State.setTable
  by_cases h : p.table = table <;> simp [h]

end Fields

/-! ## The same spaces -/

/-- The directories translate alike: they differ in the rights of tables and in what pages that are
not present still hold. -/
structure SameSpaces (s t : State) : Prop where
  page : ∀ p, t.page p = s.page p ∨ (s.page p).present = false ∧ (t.page p).present = false
  present : ∀ d i, (pageEntry t d i).present = (pageEntry s d i).present
  table : ∀ d i, pageTable t d i = pageTable s d i
  current : t.currentDirectory = s.currentDirectory
  kernel : t.kernelDirectory = s.kernelDirectory
  base : t.baseDirectory = s.baseDirectory
  length : t.framesLength = s.framesLength

section Same

variable {s t u : State} {dir i : Nat} {k w : Bool} {p : PagePtr} {e : PageTableEntry}

lemma SameSpaces.refl (s : State) : SameSpaces s s :=
  ⟨fun _ => .inl rfl, fun _ _ => rfl, fun _ _ => rfl, rfl, rfl, rfl, rfl⟩

lemma SameSpaces.trans (h : SameSpaces s t) (h' : SameSpaces t u) : SameSpaces s u := by
  refine ⟨fun p => ?_, fun d i => ?_, fun d i => ?_, ?_, ?_, ?_, ?_⟩
  · obtain e | ⟨h1, h2⟩ := h.page p
    · obtain e' | ⟨h1', h2'⟩ := h'.page p
      · exact .inl (e'.trans e)
      · exact .inr ⟨e ▸ h1', h2'⟩
    · obtain e' | ⟨_, h2'⟩ := h'.page p
      · exact .inr ⟨h1, e' ▸ h2⟩
      · exact .inr ⟨h1, h2'⟩
  · rw [h'.present, h.present]
  · rw [h'.table, h.table]
  · rw [h'.current, h.current]
  · rw [h'.kernel, h.kernel]
  · rw [h'.base, h.base]
  · rw [h'.length, h.length]

lemma SameSpaces.page_present (h : SameSpaces s t) (p : PagePtr) :
    (t.page p).present = (s.page p).present := by
  obtain e | ⟨h1, h2⟩ := h.page p
  · rw [e]
  · rw [h1, h2]

/-- A page that is there is the same page. -/
lemma SameSpaces.page_eq (h : SameSpaces s t) (hp : (s.page p).present = true) :
    t.page p = s.page p := by
  obtain e | ⟨h1, _⟩ := h.page p
  · exact e
  · rw [h1] at hp
    cases hp

/-- `get_physical_address` reads nothing else. -/
lemma SameSpaces.getPhysicalAddress (h : SameSpaces s t) (dir x : Nat) :
    getPhysicalAddress t dir x = getPhysicalAddress s dir x := by
  have hpres := h.present dir (x / 0x1000 / 1024)
  have htable := h.table dir (x / 0x1000 / 1024)
  unfold pageEntry at hpres
  unfold pageTable at htable
  unfold Paging.getPhysicalAddress
  dsimp only
  rw [hpres, htable]
  obtain e | ⟨h1, h2⟩ := h.page ⟨(s.directories dir).tables (x / 0x1000 / 1024), x / 0x1000 % 1024⟩
  · rw [e]
  · simp only [h1, h2, Bool.false_eq_true, if_false]

/-- `ensureRights` changes the rights of one entry. -/
lemma ensureRights_same : SameSpaces s (ensureRights dir i k w s) := by
  have key : ∀ d j, (pageEntry (ensureRights dir i k w s) d j).present = (pageEntry s d j).present ∧
      pageTable (ensureRights dir i k w s) d j = pageTable s d j := by
    intro d j
    unfold ensureRights
    dsimp only
    rw [pageEntry_setEntry, pageTable_setEntry]
    by_cases h : d = dir ∧ j = i
    · rw [if_pos h, if_pos h, h.1, h.2]
      exact ⟨rfl, rfl⟩
    · rw [if_neg h, if_neg h]
      exact ⟨rfl, rfl⟩
  exact ⟨fun _ => .inl rfl, fun d j => (key d j).1, fun d j => (key d j).2, rfl, rfl, rfl, rfl⟩

/-- The same entry in both. -/
lemma SameSpaces.setPage (h : SameSpaces s t) : SameSpaces (s.setPage p e) (t.setPage p e) := by
  refine ⟨fun q => ?_, h.present, h.table, h.current, h.kernel, h.base, h.length⟩
  rw [page_setPage, page_setPage]
  by_cases hq : q = p
  · rw [if_pos hq, if_pos hq]
    exact .inl rfl
  · rw [if_neg hq, if_neg hq]
    exact h.page q

end Same

section Pages

variable {m : Machine μ} {dir address : Nat} {k w : Bool}

/-- The entry of an address in a table that is there. -/
def pagePtr (s : State) (dir address : Nat) : PagePtr :=
  ⟨pageTable s dir (address / 0x1000 / 1024), address / 0x1000 % 1024⟩

/-- The directory has a table for the address. -/
def HasTable (s : State) (dir address : Nat) : Prop :=
  (pageEntry s dir (address / 0x1000 / 1024)).present = true

lemma SameSpaces.pagePtr {s t : State} (h : SameSpaces s t) (dir address : Nat) :
    pagePtr t dir address = pagePtr s dir address := by
  unfold Paging.pagePtr
  rw [h.table]

lemma SameSpaces.hasTable {s t : State} (h : SameSpaces s t) (ht : HasTable s dir address) :
    HasTable t dir address := by
  unfold HasTable
  rw [h.present]
  exact ht

/-- `get_page` when the table is there. -/
lemma getPage_eq (h : HasTable m.paging dir address) :
    getPage alloc dir address k w m = .ok (pagePtr m.paging dir address,
      { m with paging := ensureRights dir (address / 0x1000 / 1024) k w m.paging }) := by
  unfold getPage
  exact if_pos h

/-- `get_page` when there is none. -/
lemma getPage_makes (h : ¬ HasTable m.paging dir address) :
    getPage alloc dir address k w m =
      makePageTable alloc dir (address / 0x1000 / 1024) k w m >>= fun m =>
        pure (pagePtr m.paging dir address, m) := by
  unfold getPage
  exact if_neg h

lemma getPhysicalAddress_eq {s : State} (h : HasTable s dir address) :
    getPhysicalAddress s dir address =
      if (s.page (pagePtr s dir address)).present then
        0x1000 * (s.page (pagePtr s dir address)).address + address % 0x1000
      else 0 := if_pos h

/-- Rights for the kernel to read are no change. -/
lemma ensureRights_kernel (s : State) (dir i : Nat) : ensureRights dir i true false s = s := by
  have he : { pageEntry s dir i with
      user := (pageEntry s dir i).user || !true, rw := (pageEntry s dir i).rw || false } =
        pageEntry s dir i := by
    simp
  have hd : (s.directories dir).setEntry i (pageEntry s dir i) (pageTable s dir i) =
      s.directories dir := by
    unfold PageDirectory.setEntry pageEntry pageTable
    simp
  unfold ensureRights
  dsimp only at he ⊢
  rw [he, hd]
  unfold State.setDirectory
  simp

/-- `free_virtual_space` of a page whose table is there. -/
lemma freeVirtualSpace_eq (freeFrame : Bool) (h : HasTable m.paging dir address) :
    freeVirtualSpace alloc dir address freeFrame m =
      .ok { m with paging := freePage (pagePtr m.paging dir address) freeFrame m.paging } := by
  unfold freeVirtualSpace
  rw [getPage_eq alloc h, ensureRights_kernel]
  rfl

end Pages

end MarioBrOS.Paging
