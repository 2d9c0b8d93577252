import MarioBrOS.Bitset
import MarioBrOS.Memory

/-!
# Pages and frames

`paging.c` on page tables and directories as such: a directory is found by the address of its
structure, a page table by its own, and a page is an entry of a table. `frames` is the bitset of the
physical frames in use, `physical` what they hold. A call that throws ends with the text it throws.

The TLB is not modelled: every change of an entry is followed by a flush of all of it.
-/

namespace MarioBrOS.Paging

/-- An entry of a page table (`paging.h`, `page_table_entry_t`): the bits that `paging.c` sets. -/
structure PageTableEntry where
  present : Bool
  rw : Bool
  user : Bool
  address : Nat
  deriving DecidableEq, Repr

/-- An entry of a page directory (`paging.h`, `page_directory_entry_t`). -/
structure PageDirectoryEntry where
  present : Bool
  rw : Bool
  user : Bool
  address : Nat
  deriving DecidableEq, Repr

/-- `paging.h`, `page_directory_t`. -/
structure PageDirectory where
  entries : Nat → PageDirectoryEntry
  tables : Nat → Nat
  physicalAddress : Nat

/-- A `page_table_entry_t *`: a table and an index in it. -/
structure PagePtr where
  table : Nat
  index : Nat
  deriving DecidableEq, Repr

/-- What `paging.c` works on. -/
structure State where
  frames : Bytes
  framesLength : Nat
  physical : Bytes
  directories : Nat → PageDirectory
  tables : Nat → Nat → PageTableEntry
  currentDirectory : Nat
  kernelDirectory : Nat
  baseDirectory : Nat

/-- An entry filled with zeroes. -/
def zeroPage : PageTableEntry := ⟨false, false, false, 0⟩

/-- A directory entry filled with zeroes. -/
def zeroEntry : PageDirectoryEntry := ⟨false, false, false, 0⟩

/-- A directory filled with zeroes. -/
def zeroDirectory : PageDirectory := ⟨fun _ => zeroEntry, fun _ => 0, 0⟩

namespace State

/-- `*page`. -/
def page (s : State) (p : PagePtr) : PageTableEntry := s.tables p.table p.index

/-- `*page = e`. -/
def setPage (s : State) (p : PagePtr) (e : PageTableEntry) : State :=
  { s with tables := Function.update s.tables p.table (Function.update (s.tables p.table) p.index e) }

/-- `set_bit(frames, frame, value)`. -/
def setFrame (s : State) (frame : Nat) (value : Bool) : State :=
  { s with frames := setBit s.frames frame value }

/-- `get_bit(frames, frame)`. -/
def frameUsed (s : State) (frame : Nat) : Bool := getBit s.frames frame

/-- `first_false_bit(frames)`. -/
def firstFrame (s : State) : Nat := firstFalseBit s.frames s.framesLength

end State

/-- `paging.c`, `get_physical_address`. -/
def getPhysicalAddress (s : State) (dir virtualAddress : Nat) : Nat :=
  let frameAddress := virtualAddress / 0x1000
  let pageIndex := frameAddress % 1024
  let tableIndex := frameAddress / 1024
  if ((s.directories dir).entries tableIndex).present then
    let page := s.page ⟨(s.directories dir).tables tableIndex, pageIndex⟩
    if page.present then 0x1000 * page.address + virtualAddress % 0x1000 else 0
  else
    0

/-- `paging.c`, `map_page_to_frame`. -/
def mapPageToFrame (page : PagePtr) (frame : Nat) (isKernel isWritable : Bool) (s : State) :
    Except String State :=
  if frame = 0 ∨ frame ≥ 0x100000 then
    throw "Invalid frame"
  else if (s.page page).present then
    throw "Page already mapped"
  else
    pure ((s.setFrame frame true).setPage page ⟨true, isWritable, !isKernel, frame⟩)

/-- `paging.c`, `map_page`. -/
def mapPage (page : PagePtr) (isKernel isWritable : Bool) (s : State) :
    Except String (Bool × State) :=
  let frame := s.firstFrame
  if frame = 2 ^ 32 - 1 then
    pure (false, s)
  else do
    let s ← mapPageToFrame page frame isKernel isWritable s
    pure (true, s)

/-- The frame search of `fork_page_dir`: a clear frame is marked as used. -/
def takeFrame (s : State) : Option (Nat × State) :=
  let physical := s.firstFrame
  if physical = 2 ^ 32 - 1 then none else some (physical, s.setFrame physical true)

/-- `paging.c`, `free_page`. -/
def freePage (page : PagePtr) (setFrameFree : Bool) (s : State) : State :=
  let e := s.page page
  let s := if setFrameFree ∧ e.address ≠ 0 then s.setFrame e.address false else s
  s.setPage page { e with present := false }

/-! ## Fields -/

section Fields

variable (s : State) (p q : PagePtr) (e : PageTableEntry) (f : Nat) (v : Bool)

lemma page_setPage : (s.setPage p e).page q = if q = p then e else s.page q := by
  obtain ⟨t, i⟩ := p
  obtain ⟨t', i'⟩ := q
  simp only [State.page, State.setPage, PagePtr.mk.injEq]
  by_cases ht : t' = t
  · subst ht
    by_cases hi : i' = i <;> simp [hi]
  · simp [ht]

@[simp] lemma page_setPage_self : (s.setPage p e).page p = e := by
  rw [page_setPage, if_pos rfl]

@[simp] lemma setPage_setPage (e' : PageTableEntry) :
    (s.setPage p e).setPage p e' = s.setPage p e' := by
  simp [State.setPage]

@[simp] lemma setPage_frames : (s.setPage p e).frames = s.frames := rfl

@[simp] lemma setPage_framesLength : (s.setPage p e).framesLength = s.framesLength := rfl

@[simp] lemma setPage_directories : (s.setPage p e).directories = s.directories := rfl

@[simp] lemma setPage_physical : (s.setPage p e).physical = s.physical := rfl

@[simp] lemma setPage_currentDirectory : (s.setPage p e).currentDirectory = s.currentDirectory := rfl

@[simp] lemma setPage_kernelDirectory : (s.setPage p e).kernelDirectory = s.kernelDirectory := rfl

@[simp] lemma setPage_baseDirectory : (s.setPage p e).baseDirectory = s.baseDirectory := rfl

@[simp] lemma setFrame_framesLength : (s.setFrame f v).framesLength = s.framesLength := rfl

@[simp] lemma setFrame_directories : (s.setFrame f v).directories = s.directories := rfl

@[simp] lemma setFrame_tables : (s.setFrame f v).tables = s.tables := rfl

@[simp] lemma setFrame_page : (s.setFrame f v).page q = s.page q := rfl

@[simp] lemma setFrame_physical : (s.setFrame f v).physical = s.physical := rfl

@[simp] lemma setFrame_currentDirectory :
    (s.setFrame f v).currentDirectory = s.currentDirectory := rfl

@[simp] lemma setFrame_kernelDirectory : (s.setFrame f v).kernelDirectory = s.kernelDirectory := rfl

@[simp] lemma setFrame_baseDirectory : (s.setFrame f v).baseDirectory = s.baseDirectory := rfl

@[simp] lemma setPage_frameUsed : (s.setPage p e).frameUsed f = s.frameUsed f := rfl

/-- `set_bit` on the frames changes one frame. -/
lemma frameUsed_setFrame (g : Nat) :
    (s.setFrame f v).frameUsed g = if g = f then v else s.frameUsed g := by
  rw [State.frameUsed, State.frameUsed, getBit_eq, getBit_eq]
  exact bit_setBit s.frames f v g

end Fields

end MarioBrOS.Paging
