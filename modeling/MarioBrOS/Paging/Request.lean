import MarioBrOS.Paging.Frames
import MarioBrOS.Paging.Space

/-!
# Requesting a page

`request_virtual_space` on an address whose page table is there: either the page gets the first
frame that is free, and nothing else changes, or nothing changes at all.
-/

namespace MarioBrOS.Paging

variable {μ : Type} {alloc : MemAllocAligned μ} {m : Machine μ} {s : State} {dir d a x : Nat}
  {k w : Bool}

/-- The frames are at most those of 4 GiB, and frame 0 is in use. -/
structure FramesInstalled (s : State) : Prop where
  le : s.framesLength ≤ 2 ^ 20
  zero : s.frameUsed 0 = true

/-- Frame `f` is the first one that is free. -/
structure FirstFree (s : State) (f : Nat) : Prop where
  lt : f < s.framesLength
  free : s.frameUsed f = false
  first : ∀ g, g < f → s.frameUsed g = true

/-- The page of the address is mapped. -/
def MappedPage (s : State) (dir address : Nat) : Prop :=
  (s.page (pagePtr s dir address)).present = true

/-- The tables of the directory are different ones. -/
def TablesApart (s : State) (dir : Nat) : Prop :=
  ∀ i j, (pageEntry s dir i).present = true → (pageEntry s dir j).present = true →
    pageTable s dir i = pageTable s dir j → i = j

/-- What is said of a request for the page of `address` that returns TRUE and leaves `t`: the page
was not mapped and there was a free frame; it is mapped to the first one, which is now in use; and
the other translations and the other frames are what they were. -/
structure MapsPage (s : State) (dir address : Nat) (t : State) : Prop where
  unmapped : ¬ MappedPage s dir address
  frame : ∃ f, FirstFree s f ∧ t.frameUsed f = true ∧
    (∀ g, g ≠ f → t.frameUsed g = s.frameUsed g) ∧
      ∀ x, x / 0x1000 = address / 0x1000 → getPhysicalAddress t dir x = 0x1000 * f + x % 0x1000
  others : ∀ d x, pagePtr s d x ≠ pagePtr s dir address →
    getPhysicalAddress t d x = getPhysicalAddress s d x
  pages : TablesApart s dir → ∀ x, x / 0x1000 ≠ address / 0x1000 →
    getPhysicalAddress t dir x = getPhysicalAddress s dir x

/-- What is said of one that returns FALSE; the search looks at whole words of the bitset. -/
structure MapsNothing (s : State) (dir address : Nat) (t : State) : Prop where
  refused : MappedPage s dir address ∨ ∀ f, f < 32 * (s.framesLength / 32) → s.frameUsed f = true
  frames : ∀ f, t.frameUsed f = s.frameUsed f
  pages : ∀ d x, getPhysicalAddress t d x = getPhysicalAddress s d x

/-! ## The first free frame -/

/-- `first_false_bit(frames)` finds the first free frame. -/
lemma firstFrame_cases (s : State) :
    (s.firstFrame = 2 ^ 32 - 1 ∧ ∀ f, f < 32 * (s.framesLength / 32) → s.frameUsed f = true) ∨
      FirstFree s s.firstFrame := by
  have hbit : ∀ f, s.frameUsed f = s.frames.bit 0 f := getBit_eq s.frames
  have hfirst := ffbLoop_first (m := s.frames) (n := s.framesLength / 32) (i := 0) rfl
  rw [Nat.zero_add] at hfirst
  obtain ⟨e, hall⟩ | ⟨_, h1, h2, h3⟩ := hfirst
  · exact .inl ⟨e, fun f hf => (hbit f).trans (hall f (Nat.zero_le f) hf)⟩
  · exact .inr ⟨h1.trans_le (Nat.mul_div_le ..), (hbit _).trans h2,
      fun g hg => (hbit g).trans (h3 g (Nat.zero_le g) hg)⟩

/-- It is a frame that `map_page_to_frame` accepts. -/
lemma FirstFree.valid {f : Nat} (h : FirstFree s f) (hs : FramesInstalled s) :
    ¬ (f = 0 ∨ f ≥ 0x100000) := by
  have hlt := h.lt
  have hle := hs.le
  rintro (rfl | hge)
  · exact absurd (hs.zero.symm.trans h.free) (by decide)
  · omega

/-! ## One page -/

/-- An address is translated through the entries of its table and of its page. -/
lemma getPhysicalAddress_pagePtr (s : State) (d x : Nat) :
    getPhysicalAddress s d x =
      if (pageEntry s d (x / 0x1000 / 1024)).present then
        if (s.page (pagePtr s d x)).present then
          0x1000 * (s.page (pagePtr s d x)).address + x % 0x1000
        else 0
      else 0 := rfl

/-- A page that gets a frame, and a right of its table. -/
lemma setPage_translations {t u : State} {e : PageTableEntry} {f : Nat} (hs : SameSpaces s t)
    (he : e.present = true) (ht : HasTable s dir a)
    (hu : u = (t.setFrame f true).setPage (pagePtr s dir a) e) :
    (∀ x, x / 0x1000 = a / 0x1000 →
      getPhysicalAddress u dir x = 0x1000 * e.address + x % 0x1000) ∧
    ∀ d x, pagePtr s d x ≠ pagePtr s dir a →
      getPhysicalAddress u d x = getPhysicalAddress s d x := by
  have hptr : ∀ d x, pagePtr u d x = pagePtr s d x := by
    intro d x
    rw [hu]
    exact hs.pagePtr d x
  have hentry : ∀ d i, (pageEntry u d i).present = (pageEntry s d i).present := by
    intro d i
    rw [hu]
    exact hs.present d i
  refine ⟨fun x hx => ?_, fun d x hne => ?_⟩
  · have hp : pagePtr s dir x = pagePtr s dir a := by
      unfold pagePtr
      rw [hx]
    have hpage : u.page (pagePtr s dir a) = e := by rw [hu, page_setPage_self]
    have htable : HasTable u dir x := by
      unfold HasTable
      rw [hentry, hx]
      exact ht
    rw [getPhysicalAddress_eq htable, hptr, hp, hpage, if_pos he]
  · have hpage : u.page (pagePtr s d x) = t.page (pagePtr s d x) := by
      rw [hu, page_setPage, if_neg hne, setFrame_page]
    rw [← hs.getPhysicalAddress, getPhysicalAddress_pagePtr, getPhysicalAddress_pagePtr, hptr,
      hentry, hs.present, hs.pagePtr, hpage]

/-- **Mapping a page.** A request for a page whose table is there returns TRUE exactly if the page
is not mapped and there is a free frame. Then it changes the translation of this page and the first
free frame; otherwise it changes nothing. -/
theorem request_maps_one (alloc : MemAllocAligned μ) (m : Machine μ) (dir address : Nat)
    (isKernel isWritable : Bool) (ht : HasTable m.paging dir address)
    (hf : FramesInstalled m.paging) :
    ∃ b t, requestVirtualSpace alloc dir address isKernel isWritable m =
        .ok (b, { m with paging := t }) ∧
      (b = true → MapsPage m.paging dir address t) ∧
      (b = false → MapsNothing m.paging dir address t) := by
  have hsame : SameSpaces m.paging
      (ensureRights dir (address / 0x1000 / 1024) isKernel isWritable m.paging) :=
    ensureRights_same
  unfold requestVirtualSpace
  rw [getPage_eq alloc ht]
  generalize hs : ensureRights dir (address / 0x1000 / 1024) isKernel isWritable m.paging = s
    at hsame
  have hframes : ∀ f, s.frameUsed f = m.paging.frameUsed f := by
    intro f
    rw [← hs]
    rfl
  have hpage := hsame.page_present (pagePtr m.paging dir address)
  dsimp only [bind, Except.bind]
  by_cases hp : (s.page (pagePtr m.paging dir address)).present
  · -- the page is mapped
    rw [if_pos hp]
    exact ⟨false, s, rfl, nofun, fun _ =>
      ⟨.inl (hpage.symm.trans hp), hframes, hsame.getPhysicalAddress⟩⟩
  · rw [if_neg hp]
    have hunmapped : ¬ MappedPage m.paging dir address := fun h => hp (hpage.trans h)
    unfold mapPage
    have hfirst : s.firstFrame = m.paging.firstFrame := by
      rw [← hs]
      rfl
    obtain ⟨e, hall⟩ | hfree := firstFrame_cases m.paging
    · -- no frame is free
      rw [if_pos (hfirst.trans e)]
      exact ⟨false, s, rfl, nofun, fun _ => ⟨.inr hall, hframes, hsame.getPhysicalAddress⟩⟩
    · have hvalid := hfree.valid hf
      have hlt : m.paging.firstFrame ≠ 2 ^ 32 - 1 := by omega
      unfold mapPageToFrame
      rw [hfirst, if_neg hlt, if_neg hvalid, if_neg hp]
      generalize ht' : (s.setFrame m.paging.firstFrame true).setPage
        (pagePtr m.paging dir address) ⟨true, isWritable, !isKernel, m.paging.firstFrame⟩ = t
      obtain ⟨hself, hothers⟩ := setPage_translations hsame rfl ht ht'.symm
      have hused : ∀ g, t.frameUsed g = if g = m.paging.firstFrame then true
          else m.paging.frameUsed g := by
        intro g
        rw [← ht', setPage_frameUsed, frameUsed_setFrame, hframes]
      refine ⟨true, t, rfl, fun _ => ⟨hunmapped, ⟨_, hfree, ?_, fun g hg => ?_, hself⟩, hothers,
        fun hapart x hx => ?_⟩, nofun⟩
      · rw [hused, if_pos rfl]
      · rw [hused, if_neg hg]
      · by_cases htx : HasTable m.paging dir x
        · refine hothers dir x fun e => hx ?_
          obtain ⟨h1, h2⟩ := PagePtr.mk.inj e
          have h3 := hapart _ _ htx ht h1
          omega
        · have htx' : ¬ HasTable t dir x := by
            unfold HasTable at htx ⊢
            rw [← ht']
            exact fun h => htx ((hsame.present dir _).symm.trans h)
          unfold getPhysicalAddress
          exact (if_neg htx').trans (if_neg htx).symm

/-! ### A directory with one table -/

/-- A directory with one table, and no page; all frames but frame 0 are free. -/
def oneTable : Machine Unit where
  paging :=
    { frames := Bytes.ofWords fun i => if i = 0 then 1 else 0
      framesLength := 64
      physical := fun _ => 0
      directories := fun _ =>
        { entries := fun i => if i = 0 then ⟨true, true, false, 2⟩ else zeroEntry
          tables := fun i => if i = 0 then 0x2000 else 0
          physicalAddress := 0x1000 }
      tables := fun _ _ => zeroPage
      currentDirectory := 0x1000
      kernelDirectory := 0x1000
      baseDirectory := 0x1000 }
  heap := ()

/-- The page of address 0x3000 is asked for. -/
theorem request_maps_one_table : ∃ b t,
    requestVirtualSpace (fun _ _ _ => throw "no page table") 0x1000 0x3000 true true oneTable =
        .ok (b, { oneTable with paging := t }) ∧
      (b = true → MapsPage oneTable.paging 0x1000 0x3000 t) ∧
      (b = false → MapsNothing oneTable.paging 0x1000 0x3000 t) :=
  request_maps_one _ oneTable 0x1000 0x3000 true true rfl ⟨by decide, by decide +kernel⟩

end MarioBrOS.Paging
