import MarioBrOS.Paging.Space

/-!
# Loading an ELF file

`elf.c` on the bytes of a file of `size` bytes and the windows `virtuals` to the code pages of a
process. A read behind the end of the file and an index behind the end of `virtuals` end the run. As
`size` is a 32-bit number, an access to the file that wraps around is behind its end.

`check_and_load` looks at the header only: `checkAndLoad_contained` says which files it loads
without leaving the file and the code pages.
-/

namespace MarioBrOS.Loader

open Paging (State getPhysicalAddress)

/-- Where the code of a process starts. -/
def START_OF_USER_CODE : Nat := 0xFFFF0000

/-- The number of code pages, `nb_pages` in `load_code`. -/
def NB_PAGES : Nat := (0xFFFFFFFF - START_OF_USER_CODE + 1) / 0x1000

/-- `elf.h`, `Load`. -/
def LOAD : Nat := 1

/-- How a run ends that does not return. -/
inductive LoadError where
  | thrown (text : String)
  | outsideFile
  | outsideVirtuals
  | noFile
  | machine (text : String)
  deriving DecidableEq

variable (file : Bytes) (size : Nat) (virtuals : Nat → Nat)

/-- The byte at `elf_file + offset`. -/
def fileByte (offset : Nat) : Except LoadError UInt8 :=
  if offset < size then pure (file offset) else throw .outsideFile

/-- The 16-bit field at `elf_file + offset`. -/
def fileField16 (offset : Nat) : Except LoadError Nat :=
  if offset + 2 ≤ size then pure (file.get16 offset) else throw .outsideFile

/-- The 32-bit field at `elf_file + offset`. -/
def fileField32 (offset : Nat) : Except LoadError Nat :=
  if offset + 4 ≤ size then pure (file.get32 offset) else throw .outsideFile

/-- `elf.c`, `ADR`. -/
def adr (v : Nat) : Except LoadError Nat :=
  let page := sub32 v START_OF_USER_CODE / 0x1000
  if page < NB_PAGES then
    pure (virtuals page + sub32 v START_OF_USER_CODE % 0x1000)
  else
    throw .outsideVirtuals

/-- `*a = c`. -/
def storeByte (a : Nat) (c : UInt8) (s : State) : State :=
  { s with physical := Function.update s.physical (getPhysicalAddress s s.currentDirectory a) c }

/-- `elf.c`, `mem_set_page`. -/
def memSetPage (str : Nat) (c : UInt8) : Nat → State → Except LoadError State
  | 0, s => pure s
  | i + 1, s => do
    let s ← memSetPage str c i s
    let a ← adr virtuals (add32 str i)
    pure (storeByte a c s)

/-- `elf.c`, `mem_copy_page`, from `elf_file + src`. -/
def memCopyPage (dest src : Nat) : Nat → State → Except LoadError State
  | 0, s => pure s
  | i + 1, s => do
    let s ← memCopyPage dest src i s
    let a ← adr virtuals (add32 dest i)
    let c ← fileByte file size (add32 src i)
    pure (storeByte a c s)

/-- `magic_number[0] == … && magic_number[1] == …`, from `offset` on. -/
def magicMatches : Nat → List UInt8 → Except LoadError Bool
  | _, [] => pure true
  | offset, b :: bs => do
    let c ← fileByte file size offset
    if c = b then magicMatches (offset + 1) bs else pure false

/-- The checks of `check_and_load`. -/
def checkHeader : Except LoadError Unit := do
  if (← magicMatches file size 0 [0x7F, 0x45, 0x4C, 0x46]) = false then
    throw (.thrown "Not a ELF file")
  if (← fileByte file size 4) ≠ 1 then throw (.thrown "Not a 32 bits executable")
  if (← fileByte file size 5) ≠ 1 then throw (.thrown "Not a little endian executable")
  if (← fileField16 file size 16) ≠ 2 then throw (.thrown "Not an executable")
  if (← fileField16 file size 18) ≠ 3 then throw (.thrown "Not a x86 executable")
  if (← fileField32 file size 24) < START_OF_USER_CODE then throw (.thrown "Wrong entry point")

/-- The body of the loop of `check_and_load`. -/
def loadSegment (segmentNumber : Nat) (s : State) : Except LoadError State := do
  let pht ← fileField32 file size 28
  let entrySize ← fileField16 file size 42
  let segment := add32 pht (segmentNumber * entrySize)
  let type ← fileField32 file size segment
  if type = LOAD then do
    let address ← fileField32 file size (segment + 8)
    let sizeInMemory ← fileField32 file size (segment + 20)
    let s ← memSetPage virtuals address 0 sizeInMemory s
    let offset ← fileField32 file size (segment + 4)
    let sizeInFile ← fileField32 file size (segment + 16)
    memCopyPage file size virtuals address offset sizeInFile s
  else
    pure s

/-- The loop of `check_and_load`, up to the segment number `n`. -/
def loadSegments : Nat → State → Except LoadError State
  | 0, s => pure s
  | n + 1, s => do
    let s ← loadSegments n s
    loadSegment file size virtuals n s

/-- `elf.c`, `check_and_load`: the entry point, and the memory. -/
def checkAndLoad (s : State) : Except LoadError (Nat × State) := do
  checkHeader file size
  let nb ← fileField16 file size 44
  let s ← loadSegments file size virtuals nb s
  let entryPoint ← fileField32 file size 24
  pure (entryPoint, s)

/-! ## Files -/

/-- The bytes at the start of the file pass the checks. -/
structure HeaderOk : Prop where
  magic : file 0 = 0x7F ∧ file 1 = 0x45 ∧ file 2 = 0x4C ∧ file 3 = 0x46
  nbBits : file 4 = 1
  endian : file 5 = 1
  elfType : file.get16 16 = 2
  instructionSet : file.get16 18 = 3
  entryPoint : START_OF_USER_CODE ≤ file.get32 24

/-- `elf_header->pht_entry_nb`. -/
def phtEntryNb : Nat := file.get16 44

/-- The offset of an entry of the program header table. -/
def segmentAt (n : Nat) : Nat := add32 (file.get32 28) (n * file.get16 42)

/-- A program header. -/
structure ProgramHeader where
  type : Nat
  offset : Nat
  virtualAddress : Nat
  sizeInFile : Nat
  sizeInMemory : Nat
  deriving DecidableEq

/-- The entry `n` of the program header table. -/
def programHeader (n : Nat) : ProgramHeader where
  type := file.get32 (segmentAt file n)
  offset := file.get32 (segmentAt file n + 4)
  virtualAddress := file.get32 (segmentAt file n + 8)
  sizeInFile := file.get32 (segmentAt file n + 16)
  sizeInMemory := file.get32 (segmentAt file n + 20)

/-- The `n` bytes from `v` on are in the code pages. -/
def InCode (v n : Nat) : Prop :=
  n = 0 ∨ START_OF_USER_CODE ≤ v ∧ v + n ≤ 2 ^ 32

/-- A segment that is loaded to the code pages, from the file. -/
structure SegmentFits (p : ProgramHeader) : Prop where
  memory : InCode p.virtualAddress p.sizeInMemory
  code : InCode p.virtualAddress p.sizeInFile
  file : p.sizeInFile = 0 ∨ p.offset + p.sizeInFile ≤ size

/-- The header, the program header table and the segments are in the file, and the segments that are
loaded fit into the code pages. -/
structure Fits : Prop where
  header : 46 ≤ size
  entry : ∀ n < phtEntryNb file, segmentAt file n + 4 ≤ size
  load : ∀ n < phtEntryNb file, (programHeader file n).type = LOAD →
    segmentAt file n + 24 ≤ size ∧ SegmentFits size (programHeader file n)

/-- The other bytes than those that the windows show are as they were. -/
structure Within (s t : State) : Prop where
  paging : t = { s with physical := t.physical }
  physical : ∀ x, (∀ i < NB_PAGES, ∀ j < 0x1000,
    x ≠ getPhysicalAddress s s.currentDirectory (virtuals i + j)) → t.physical x = s.physical x

/-- The run returns without having left the file and the code pages. -/
def Contained (s : State) (r : Except LoadError (Nat × State)) : Prop :=
  ∃ entryPoint t, r = .ok (entryPoint, t) ∧ Within virtuals s t

variable {file : Bytes} {size : Nat} {virtuals : Nat → Nat} {s t u : State} {v n : Nat}

/-! ## Addresses -/

lemma add32_lt (a b : Nat) : add32 a b < 2 ^ 32 := by
  unfold add32
  exact Nat.mod_lt _ (by decide)

/-- `ADR` of an address in the code pages. -/
lemma adr_eq (virtuals : Nat → Nat) (h : START_OF_USER_CODE ≤ v) (hv : v < 2 ^ 32) :
    adr virtuals v = .ok (virtuals ((v - START_OF_USER_CODE) / 0x1000) +
      (v - START_OF_USER_CODE) % 0x1000) := by
  unfold adr
  rw [sub32_of_le h hv]
  refine if_pos ?_
  unfold NB_PAGES START_OF_USER_CODE at *
  omega

/-- `ADR` stays in `virtuals` for the addresses in the code pages only. -/
lemma adr_ok (virtuals : Nat → Nat) (hv : v < 2 ^ 32) :
    (∃ a, adr virtuals v = .ok a) ↔ START_OF_USER_CODE ≤ v := by
  constructor
  · rintro ⟨a, h⟩
    by_contra hlt
    have hpage : ¬ sub32 v START_OF_USER_CODE / 0x1000 < NB_PAGES := by
      unfold sub32 NB_PAGES START_OF_USER_CODE at *
      omega
    rw [adr, if_neg hpage] at h
    cases h
  · intro h
    exact ⟨_, adr_eq virtuals h hv⟩

lemma InCode.of_succ (hv : v < 2 ^ 32) :
    InCode v (n + 1) ↔ InCode v n ∧ START_OF_USER_CODE ≤ add32 v n := by
  unfold InCode add32 START_OF_USER_CODE
  omega

lemma fileByte_ok (file : Bytes) {offset : Nat} :
    (∃ c, fileByte file size offset = .ok c) ↔ offset < size := by
  unfold fileByte
  constructor
  · rintro ⟨c, h⟩
    by_contra hn
    rw [if_neg hn] at h
    cases h
  · intro h
    exact ⟨_, if_pos h⟩

lemma fileField16_ok {offset x : Nat} :
    fileField16 file size offset = .ok x ↔ offset + 2 ≤ size ∧ file.get16 offset = x := by
  unfold fileField16
  constructor
  · intro h
    split_ifs at h with hs
    · cases h
      exact ⟨hs, rfl⟩
  · rintro ⟨h, rfl⟩
    exact if_pos h

lemma fileField32_ok {offset x : Nat} :
    fileField32 file size offset = .ok x ↔ offset + 4 ≤ size ∧ file.get32 offset = x := by
  unfold fileField32
  constructor
  · intro h
    split_ifs at h with hs
    · cases h
      exact ⟨hs, rfl⟩
  · rintro ⟨h, rfl⟩
    exact if_pos h

/-- A computation that ends normally, and what it does then. -/
lemma bind_ok {α β : Type} {x : Except LoadError α} {f : α → Except LoadError β} {r : β} :
    (x >>= f) = .ok r ↔ ∃ a, x = .ok a ∧ f a = .ok r := by
  cases x with
  | error e => exact ⟨nofun, nofun⟩
  | ok a =>
    constructor
    · intro h
      exact ⟨a, rfl, h⟩
    · rintro ⟨_, e, h⟩
      cases e
      exact h

/-! ## The loops -/

/-- `mem_set_page` returns if and only if its bytes are in the code pages. -/
lemma memSetPage_ok (virtuals : Nat → Nat) (c : UInt8) (s : State) {str : Nat}
    (hv : str < 2 ^ 32) : (∃ t, memSetPage virtuals str c n s = .ok t) ↔ InCode str n := by
  induction n with
  | zero => exact iff_of_true ⟨s, rfl⟩ (.inl rfl)
  | succ i ih =>
    rw [InCode.of_succ hv, ← ih, ← adr_ok virtuals (add32_lt str i)]
    constructor
    · rintro ⟨t, h⟩
      obtain ⟨u, h1, h2⟩ := bind_ok.mp h
      obtain ⟨a, h3, _⟩ := bind_ok.mp h2
      exact ⟨⟨u, h1⟩, a, h3⟩
    · rintro ⟨⟨u, h1⟩, a, h2⟩
      exact ⟨storeByte a c u, bind_ok.mpr ⟨u, h1, bind_ok.mpr ⟨a, h2, rfl⟩⟩⟩

/-- `mem_copy_page` returns if and only if its bytes are in the file and in the code pages. -/
lemma memCopyPage_ok (file : Bytes) (virtuals : Nat → Nat) (s : State) {dest src : Nat}
    (hsize : size < 2 ^ 32) (hv : dest < 2 ^ 32) (hs : src < 2 ^ 32) :
    (∃ t, memCopyPage file size virtuals dest src n s = .ok t) ↔
      InCode dest n ∧ (n = 0 ∨ src + n ≤ size) := by
  induction n with
  | zero => exact iff_of_true ⟨s, rfl⟩ ⟨.inl rfl, .inl rfl⟩
  | succ i ih =>
    have hsrc : i + 1 = 0 ∨ src + (i + 1) ≤ size ↔
        (i = 0 ∨ src + i ≤ size) ∧ add32 src i < size := by
      unfold add32
      omega
    rw [InCode.of_succ hv, hsrc, and_and_and_comm, ← ih,
      ← adr_ok virtuals (add32_lt dest i), ← fileByte_ok file]
    constructor
    · rintro ⟨t, h⟩
      obtain ⟨u, h1, h2⟩ := bind_ok.mp h
      obtain ⟨a, h3, h4⟩ := bind_ok.mp h2
      obtain ⟨c, h5, _⟩ := bind_ok.mp h4
      exact ⟨⟨u, h1⟩, ⟨a, h3⟩, c, h5⟩
    · rintro ⟨⟨u, h1⟩, ⟨a, h2⟩, c, h3⟩
      exact ⟨storeByte a c u, bind_ok.mpr ⟨u, h1, bind_ok.mpr ⟨a, h2, bind_ok.mpr ⟨c, h3, rfl⟩⟩⟩⟩

lemma Within.refl (s : State) : Within virtuals s s := ⟨rfl, fun _ _ => rfl⟩

lemma Within.trans (h : Within virtuals s t) (h' : Within virtuals t u) : Within virtuals s u := by
  have e : ∀ x, getPhysicalAddress t t.currentDirectory x =
      getPhysicalAddress s s.currentDirectory x := by
    intro x
    rw [h.paging]
    rfl
  refine ⟨?_, fun x hx => ?_⟩
  · rw [h'.paging, h.paging]
  · rw [h'.physical x fun i hi j hj => e _ ▸ hx i hi j hj, h.physical x hx]

/-- A store through a window. -/
lemma Within.store {a : Nat} {c : UInt8} (ha : adr virtuals v = .ok a) :
    Within virtuals s (storeByte a c s) := by
  unfold adr at ha
  dsimp only at ha
  split_ifs at ha with hp
  · cases ha
    refine ⟨rfl, fun x hx => Function.update_of_ne ?_ ..⟩
    exact hx _ hp _ (Nat.mod_lt _ (by decide))

lemma memSetPage_within {str : Nat} {c : UInt8} (h : memSetPage virtuals str c n s = .ok t) :
    Within virtuals s t := by
  induction n generalizing t with
  | zero =>
    cases h
    exact .refl s
  | succ i ih =>
    obtain ⟨u, h1, h2⟩ := bind_ok.mp h
    obtain ⟨a, h3, h4⟩ := bind_ok.mp h2
    cases h4
    exact (ih h1).trans (.store h3)

lemma memCopyPage_within {dest src : Nat}
    (h : memCopyPage file size virtuals dest src n s = .ok t) : Within virtuals s t := by
  induction n generalizing t with
  | zero =>
    cases h
    exact .refl s
  | succ i ih =>
    obtain ⟨u, h1, h2⟩ := bind_ok.mp h
    obtain ⟨a, h3, h4⟩ := bind_ok.mp h2
    obtain ⟨c, _, h5⟩ := bind_ok.mp h4
    cases h5
    exact (ih h1).trans (.store h3)

/-! ## Segments -/

/-- A header that passes the checks passes them in the code, if it is in the file. -/
lemma checkHeader_eq (h : HeaderOk file) (hs : 28 ≤ size) : checkHeader file size = .ok () := by
  have hbyte : ∀ i, i < 28 → fileByte file size i = .ok (file i) := fun i hi => if_pos (by omega)
  have h16 : ∀ i, i < 20 → fileField16 file size i = .ok (file.get16 i) := fun i hi =>
    if_pos (by omega)
  have h32 : fileField32 file size 24 = .ok (file.get32 24) := if_pos hs
  obtain ⟨m0, m1, m2, m3⟩ := h.magic
  have hmagic : magicMatches file size 0 [0x7F, 0x45, 0x4C, 0x46] = .ok true := by
    simp [magicMatches, hbyte, m0, m1, m2, m3, bind, Except.bind, pure, Except.pure]
  unfold checkHeader
  rw [hmagic, hbyte 4 (by decide), hbyte 5 (by decide), h16 16 (by decide), h16 18 (by decide), h32,
    h.nbBits, h.endian, h.elfType, h.instructionSet]
  simp [bind, Except.bind, pure, Except.pure, h.entryPoint]

/-- What `loadSegment` does when it returns. -/
lemma loadSegment_eq_ok (hh : 46 ≤ size) : loadSegment file size virtuals n s = .ok t ↔
    segmentAt file n + 4 ≤ size ∧ ((programHeader file n).type ≠ LOAD ∧ t = s ∨
      (programHeader file n).type = LOAD ∧ segmentAt file n + 24 ≤ size ∧ ∃ u,
        memSetPage virtuals (programHeader file n).virtualAddress 0
          (programHeader file n).sizeInMemory s = .ok u ∧
        memCopyPage file size virtuals (programHeader file n).virtualAddress
          (programHeader file n).offset (programHeader file n).sizeInFile u = .ok t) := by
  have hpht : fileField32 file size 28 = .ok (file.get32 28) := if_pos (by omega)
  have hentry : fileField16 file size 42 = .ok (file.get16 42) := if_pos (by omega)
  have hf : ∀ k, segmentAt file n + k + 4 ≤ size → fileField32 file size (segmentAt file n + k) =
      .ok (file.get32 (segmentAt file n + k)) := fun k hk => if_pos hk
  unfold loadSegment
  constructor
  · intro h
    obtain ⟨_, hp, h⟩ := bind_ok.mp h
    obtain ⟨_, rfl⟩ := fileField32_ok.mp hp
    obtain ⟨_, he, h⟩ := bind_ok.mp h
    obtain ⟨_, rfl⟩ := fileField16_ok.mp he
    obtain ⟨type, ht, h⟩ := bind_ok.mp h
    obtain ⟨htype, e⟩ := fileField32_ok.mp ht
    have e : (programHeader file n).type = type := e
    subst e
    refine ⟨htype, ?_⟩
    by_cases hl : (programHeader file n).type = LOAD
    · rw [if_pos hl] at h
      obtain ⟨_, hfield, h⟩ := bind_ok.mp h
      obtain ⟨_, rfl⟩ := fileField32_ok.mp hfield
      obtain ⟨_, hfield, h⟩ := bind_ok.mp h
      obtain ⟨hlast, rfl⟩ := fileField32_ok.mp hfield
      obtain ⟨u, hset, h⟩ := bind_ok.mp h
      obtain ⟨_, hfield, h⟩ := bind_ok.mp h
      obtain ⟨_, rfl⟩ := fileField32_ok.mp hfield
      obtain ⟨_, hfield, h⟩ := bind_ok.mp h
      obtain ⟨_, rfl⟩ := fileField32_ok.mp hfield
      exact .inr ⟨hl, hlast, u, hset, h⟩
    · rw [if_neg hl] at h
      cases h
      exact .inl ⟨hl, rfl⟩
  · rintro ⟨htype, hr⟩
    refine bind_ok.mpr ⟨_, hpht, bind_ok.mpr ⟨_, hentry, bind_ok.mpr ⟨_, hf 0 htype, ?_⟩⟩⟩
    obtain ⟨hl, rfl⟩ | ⟨hl, hlast, u, hset, hcopy⟩ := hr
    · exact if_neg hl
    · refine (if_pos hl).trans ?_
      exact bind_ok.mpr ⟨_, hf 8 (by omega), bind_ok.mpr ⟨_, hf 20 hlast, bind_ok.mpr ⟨u, hset,
        bind_ok.mpr ⟨_, hf 4 (by omega), bind_ok.mpr ⟨_, hf 16 (by omega), hcopy⟩⟩⟩⟩⟩

/-- The accesses for the entry `n`. -/
def EntryFits (file : Bytes) (size n : Nat) : Prop :=
  segmentAt file n + 4 ≤ size ∧ ((programHeader file n).type = LOAD →
    segmentAt file n + 24 ≤ size ∧ SegmentFits size (programHeader file n))

/-- One segment is loaded if and only if it fits. -/
lemma loadSegment_ok (virtuals : Nat → Nat) (s : State) (hsize : size < 2 ^ 32) (hh : 46 ≤ size) :
    (∃ t, loadSegment file size virtuals n s = .ok t) ↔ EntryFits file size n := by
  have hv : (programHeader file n).virtualAddress < 2 ^ 32 := file.get32_lt _
  have ho : (programHeader file n).offset < 2 ^ 32 := file.get32_lt _
  constructor
  · rintro ⟨t, h⟩
    obtain ⟨htype, hr⟩ := (loadSegment_eq_ok hh).mp h
    refine ⟨htype, fun hl => ?_⟩
    obtain ⟨hn, _⟩ | ⟨_, hlast, u, hset, hcopy⟩ := hr
    · exact absurd hl hn
    · obtain ⟨hcode, hfile⟩ := (memCopyPage_ok file virtuals u hsize hv ho).mp ⟨t, hcopy⟩
      exact ⟨hlast, (memSetPage_ok virtuals 0 s hv).mp ⟨u, hset⟩, hcode, hfile⟩
  · rintro ⟨htype, hload⟩
    by_cases hl : (programHeader file n).type = LOAD
    · obtain ⟨hlast, hfits⟩ := hload hl
      obtain ⟨u, hset⟩ := (memSetPage_ok virtuals 0 s hv).mpr hfits.memory
      obtain ⟨t, hcopy⟩ := (memCopyPage_ok file virtuals u hsize hv ho).mpr ⟨hfits.code, hfits.file⟩
      exact ⟨t, (loadSegment_eq_ok hh).mpr ⟨htype, .inr ⟨hl, hlast, u, hset, hcopy⟩⟩⟩
    · exact ⟨s, (loadSegment_eq_ok hh).mpr ⟨htype, .inl ⟨hl, rfl⟩⟩⟩

lemma loadSegment_within (hh : 46 ≤ size) (h : loadSegment file size virtuals n s = .ok t) :
    Within virtuals s t := by
  obtain ⟨_, ⟨_, rfl⟩ | ⟨_, _, u, hset, hcopy⟩⟩ := (loadSegment_eq_ok hh).mp h
  · exact .refl t
  · exact (memSetPage_within hset).trans (memCopyPage_within hcopy)

/-- The segments are loaded if and only if they all fit. -/
lemma loadSegments_ok (virtuals : Nat → Nat) (s : State) (hsize : size < 2 ^ 32) (hh : 46 ≤ size) :
    (∃ t, loadSegments file size virtuals n s = .ok t) ↔ ∀ k < n, EntryFits file size k := by
  induction n with
  | zero => exact iff_of_true ⟨s, rfl⟩ nofun
  | succ n ih =>
    rw [Nat.forall_lt_succ_right, ← ih]
    constructor
    · rintro ⟨t, h⟩
      obtain ⟨u, h1, h2⟩ := bind_ok.mp h
      exact ⟨⟨u, h1⟩, (loadSegment_ok virtuals u hsize hh).mp ⟨t, h2⟩⟩
    · rintro ⟨⟨u, h1⟩, h2⟩
      obtain ⟨t, h3⟩ := (loadSegment_ok virtuals u hsize hh).mpr h2
      exact ⟨t, bind_ok.mpr ⟨u, h1, h3⟩⟩

lemma loadSegments_within (hh : 46 ≤ size) (h : loadSegments file size virtuals n s = .ok t) :
    Within virtuals s t := by
  induction n generalizing t with
  | zero =>
    cases h
    exact .refl s
  | succ n ih =>
    obtain ⟨u, h1, h2⟩ := bind_ok.mp h
    exact (ih h1).trans (loadSegment_within hh h2)

/-- What `check_and_load` does with a header that passes the checks. -/
lemma checkAndLoad_eq_ok {entryPoint : Nat} (h : HeaderOk file) :
    checkAndLoad file size virtuals s = .ok (entryPoint, t) ↔ 46 ≤ size ∧
      loadSegments file size virtuals (phtEntryNb file) s = .ok t ∧ entryPoint = file.get32 24 := by
  constructor
  · intro e
    obtain ⟨_, _, e⟩ := bind_ok.mp e
    obtain ⟨nb, hnb, e⟩ := bind_ok.mp e
    obtain ⟨hh, rfl⟩ := fileField16_ok.mp hnb
    obtain ⟨u, hu, e⟩ := bind_ok.mp e
    obtain ⟨_, hentry, e⟩ := bind_ok.mp e
    obtain ⟨_, rfl⟩ := fileField32_ok.mp hentry
    cases e
    exact ⟨hh, hu, rfl⟩
  · rintro ⟨hh, ht, rfl⟩
    have hentry : fileField32 file size 24 = .ok (file.get32 24) := if_pos (by omega)
    exact bind_ok.mpr ⟨_, checkHeader_eq h (by omega), bind_ok.mpr ⟨_, if_pos hh,
      bind_ok.mpr ⟨t, ht, bind_ok.mpr ⟨_, hentry, rfl⟩⟩⟩⟩

/-- `check_and_load` stays in the file and in the code pages if and only if the file fits. -/
theorem checkAndLoad_contained (h : HeaderOk file) (hsize : size < 2 ^ 32) :
    Contained virtuals s (checkAndLoad file size virtuals s) ↔ Fits file size := by
  constructor
  · rintro ⟨entryPoint, t, e, _⟩
    obtain ⟨hh, ht, _⟩ := (checkAndLoad_eq_ok h).mp e
    have hall := (loadSegments_ok virtuals s hsize hh).mp ⟨t, ht⟩
    exact ⟨hh, fun k hk => (hall k hk).1, fun k hk => (hall k hk).2⟩
  · intro hf
    obtain ⟨t, ht⟩ := (loadSegments_ok virtuals s hsize hf.header).mpr fun k hk =>
      ⟨hf.entry k hk, hf.load k hk⟩
    exact ⟨_, t, (checkAndLoad_eq_ok h).mpr ⟨hf.header, ht, rfl⟩, loadSegments_within hf.header ht⟩

/-! ## A file -/

/-- A file of 88 bytes: the header, one program header and the four bytes of the segment, which is
to be loaded to `address`, with two more bytes in memory. -/
def sampleElf (address : Nat) : Bytes :=
  Bytes.set32 (fun i => [
    0x7F, 0x45, 0x4C, 0x46, 1, 1, 1, 0, 0, 0, 0, 0, 0, 0, 0, 0,
    2, 0, 3, 0, 1, 0, 0, 0, 0, 0, 0xFF, 0xFF, 52, 0, 0, 0,
    0, 0, 0, 0, 0, 0, 0, 0, 52, 0, 32, 0, 1, 0, 0, 0, 0, 0, 0, 0,
    1, 0, 0, 0, 84, 0, 0, 0, 0, 0, 0, 0, 0, 0, 0, 0, 4, 0, 0, 0,
    6, 0, 0, 0, 5, 0, 0, 0, 0, 0x10, 0, 0,
    0xEB, 0xFE, 0x90, 0x90].getD i 0) 60 address

/-- A machine without pages. -/
def sampleState : State where
  frames := fun _ => 0
  framesLength := 32
  physical := fun _ => 0
  directories := fun _ => Paging.zeroDirectory
  tables := fun _ _ => Paging.zeroPage
  currentDirectory := 0x1000
  kernelDirectory := 0x1000
  baseDirectory := 0x3000

/-- Windows one after the other. -/
def sampleWindows (page : Nat) : Nat := 0x100000 + 0x1000 * page

lemma sampleElf_headerOk {address : Nat} (h : address = 0xFFFF0000 ∨ address = 0xFFFE0000) :
    HeaderOk (sampleElf address) := by
  obtain rfl | rfl := h
  · exact ⟨by decide +kernel, by decide +kernel, by decide +kernel, by decide +kernel,
      by decide +kernel, by decide +kernel⟩
  · exact ⟨by decide +kernel, by decide +kernel, by decide +kernel, by decide +kernel,
      by decide +kernel, by decide +kernel⟩

/-- A file that fits. -/
theorem checkAndLoad_contained_sample : Contained sampleWindows sampleState
    (checkAndLoad (sampleElf 0xFFFF0000) 88 sampleWindows sampleState) := by
  have hnb : phtEntryNb (sampleElf 0xFFFF0000) = 1 := by decide +kernel
  have hat : segmentAt (sampleElf 0xFFFF0000) 0 = 52 := by decide +kernel
  have hp : programHeader (sampleElf 0xFFFF0000) 0 = ⟨1, 84, 0xFFFF0000, 4, 6⟩ := by decide +kernel
  refine (checkAndLoad_contained (sampleElf_headerOk (.inl rfl)) (by decide)).mpr
    ⟨by decide, fun n hn => ?_, fun n hn _ => ?_⟩
  · obtain rfl : n = 0 := by omega
    rw [hat]
    decide
  · obtain rfl : n = 0 := by omega
    rw [hat, hp]
    exact ⟨by decide, .inr (by decide), .inr (by decide), .inr (by decide)⟩

/-- A segment below the code pages: the index into `virtuals` is far behind its end. -/
theorem checkAndLoad_contained_below : HeaderOk (sampleElf 0xFFFE0000) ∧
    ¬ Contained sampleWindows sampleState
      (checkAndLoad (sampleElf 0xFFFE0000) 88 sampleWindows sampleState) := by
  have hrun : (checkAndLoad (sampleElf 0xFFFE0000) 88 sampleWindows sampleState).map Prod.fst =
      .error .outsideVirtuals := by decide +kernel
  refine ⟨sampleElf_headerOk (.inr rfl), ?_⟩
  rintro ⟨entryPoint, t, e, _⟩
  rw [e] at hrun
  cases hrun

end MarioBrOS.Loader
