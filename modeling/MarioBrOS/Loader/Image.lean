import MarioBrOS.Loader.Elf

/-!
# The image of an ELF file

What `check_and_load` leaves in the code pages, when the windows show them: frames that are all
different. The addresses of a process from `START_OF_USER_CODE` on are then places of their own in
the memory of the machine, and each loop writes one range of them.
-/

namespace MarioBrOS.Loader

open Paging (State getPhysicalAddress)

/-- The place of the address `v`, when `frames` are the frames of the code pages. -/
def codeAddress (frames : Nat → Nat) (v : Nat) : Nat :=
  0x1000 * frames ((v - START_OF_USER_CODE) / 0x1000) + (v - START_OF_USER_CODE) % 0x1000

/-- The byte at the address `v`. -/
def codeByte (frames : Nat → Nat) (s : State) (v : Nat) : UInt8 :=
  s.physical (codeAddress frames v)

/-- `virtuals` are windows to `frames`, in the current directory. -/
def Shows (s : State) (virtuals frames : Nat → Nat) : Prop :=
  ∀ i < NB_PAGES, ∀ j < 0x1000,
    getPhysicalAddress s s.currentDirectory (virtuals i + j) = 0x1000 * frames i + j

/-- Each code page has a frame of its own. -/
def Distinct (frames : Nat → Nat) : Prop :=
  ∀ i < NB_PAGES, ∀ j < NB_PAGES, frames i = frames j → i = j

/-- The addresses of the segment. -/
def ProgramHeader.Covers (p : ProgramHeader) (v : Nat) : Prop :=
  p.virtualAddress ≤ v ∧ v < p.virtualAddress + p.sizeInMemory

/-- The byte of the segment at `v`. -/
def ProgramHeader.byteAt (p : ProgramHeader) (file : Bytes) (v : Nat) : UInt8 :=
  if v - p.virtualAddress < p.sizeInFile then file (p.offset + (v - p.virtualAddress)) else 0

/-- A file that can be loaded: the tables are in the file, and what is to be loaded does not overlap
and lies in the file and in the code pages. -/
structure ValidElf (file : Bytes) (size : Nat) : Prop where
  header : HeaderOk file
  table : 46 ≤ size ∧ ∀ n < phtEntryNb file, segmentAt file n + 24 ≤ size
  segment : ∀ n < phtEntryNb file, (programHeader file n).type = LOAD →
    InCode (programHeader file n).virtualAddress (programHeader file n).sizeInMemory ∧
    (programHeader file n).sizeInFile ≤ (programHeader file n).sizeInMemory ∧
    ((programHeader file n).sizeInFile = 0 ∨
      (programHeader file n).offset + (programHeader file n).sizeInFile ≤ size)
  disjoint : ∀ k < phtEntryNb file, ∀ n < phtEntryNb file, k ≠ n →
    (programHeader file k).type = LOAD → (programHeader file n).type = LOAD →
    ∀ v, (programHeader file k).Covers v → ¬ (programHeader file n).Covers v

/-- The code pages after the load: the bytes of the segments, and elsewhere what was there. -/
structure Image (file : Bytes) (before after : Nat → UInt8) : Prop where
  segment : ∀ n < phtEntryNb file, (programHeader file n).type = LOAD →
    ∀ v, (programHeader file n).Covers v → after v = (programHeader file n).byteAt file v
  other : ∀ v, START_OF_USER_CODE ≤ v → v < 2 ^ 32 →
    (∀ n < phtEntryNb file, (programHeader file n).type = LOAD →
      ¬ (programHeader file n).Covers v) → after v = before v

variable {file : Bytes} {size n v : Nat} {virtuals frames : Nat → Nat} {s t : State}

/-! ## Stores -/

lemma codeAddress_inj {w : Nat} (hd : Distinct frames) (hv : START_OF_USER_CODE ≤ v)
    (hv' : v < 2 ^ 32) (hw : START_OF_USER_CODE ≤ w) (hw' : w < 2 ^ 32)
    (e : codeAddress frames v = codeAddress frames w) : v = w := by
  unfold codeAddress at e
  have hpage : (v - START_OF_USER_CODE) / 0x1000 = (w - START_OF_USER_CODE) / 0x1000 := by
    apply hd
    · unfold NB_PAGES START_OF_USER_CODE at *
      omega
    · unfold NB_PAGES START_OF_USER_CODE at *
      omega
    · omega
  omega

lemma Within.shows (h : Within virtuals s t) (hs : Shows s virtuals frames) :
    Shows t virtuals frames := by
  rw [h.paging]
  exact hs

/-- A store through `ADR`. -/
lemma codeByte_store {a w : Nat} {c : UInt8} (hs : Shows s virtuals frames) (hd : Distinct frames)
    (hw : w < 2 ^ 32) (ha : adr virtuals w = .ok a) (hv : START_OF_USER_CODE ≤ v)
    (hv' : v < 2 ^ 32) :
    codeByte frames (storeByte a c s) v = if v = w then c else codeByte frames s v := by
  have hstart := (adr_ok virtuals hw).mp ⟨a, ha⟩
  have ea := Except.ok.inj ((adr_eq virtuals hstart hw).symm.trans ha)
  rw [← ea]
  have hpage : (w - START_OF_USER_CODE) / 0x1000 < NB_PAGES := by
    unfold NB_PAGES START_OF_USER_CODE at *
    omega
  unfold codeByte storeByte
  dsimp only
  rw [hs _ hpage _ (Nat.mod_lt _ (by decide)), Function.update_apply]
  refine if_congr ?_ rfl rfl
  constructor
  · intro e
    exact codeAddress_inj hd hv hv' hstart hw e
  · rintro rfl
    rfl

/-- What `mem_set_page` leaves. -/
lemma memSetPage_codeByte {str : Nat} {c : UInt8} (hs : Shows s virtuals frames)
    (hd : Distinct frames) (hn : InCode str n) (h : memSetPage virtuals str c n s = .ok t)
    (hv : START_OF_USER_CODE ≤ v) (hv' : v < 2 ^ 32) :
    codeByte frames t v = if str ≤ v ∧ v < str + n then c else codeByte frames s v := by
  induction n generalizing t with
  | zero =>
    cases h
    rw [if_neg (by omega)]
  | succ i ih =>
    obtain ⟨u, h1, h2⟩ := bind_ok.mp h
    obtain ⟨a, h3, h4⟩ := bind_ok.mp h2
    cases h4
    have hi : InCode str i ∧ str + i < 2 ^ 32 := by
      unfold InCode at *
      omega
    rw [add32_of_lt hi.2] at h3
    rw [codeByte_store ((memSetPage_within h1).shows hs) hd hi.2 h3 hv hv', ih hi.1 h1]
    split_ifs <;> first | rfl | omega

/-- What `mem_copy_page` leaves. -/
lemma memCopyPage_codeByte {dest src : Nat} (hs : Shows s virtuals frames) (hd : Distinct frames)
    (hn : InCode dest n) (hsize : size < 2 ^ 32) (hsrc : n = 0 ∨ src + n ≤ size)
    (h : memCopyPage file size virtuals dest src n s = .ok t) (hv : START_OF_USER_CODE ≤ v)
    (hv' : v < 2 ^ 32) : codeByte frames t v =
      if dest ≤ v ∧ v < dest + n then file (src + (v - dest)) else codeByte frames s v := by
  induction n generalizing t with
  | zero =>
    cases h
    rw [if_neg (by omega)]
  | succ i ih =>
    obtain ⟨u, h1, h2⟩ := bind_ok.mp h
    obtain ⟨a, h3, h4⟩ := bind_ok.mp h2
    obtain ⟨c, h5, h6⟩ := bind_ok.mp h4
    cases h6
    have hi : InCode dest i ∧ dest + i < 2 ^ 32 := by
      unfold InCode at *
      omega
    rw [add32_of_lt hi.2] at h3
    rw [add32_of_lt (by omega), fileByte, if_pos (by omega)] at h5
    cases h5
    rw [codeByte_store ((memCopyPage_within h1).shows hs) hd hi.2 h3 hv hv', ih hi.1 (by omega) h1]
    by_cases hlast : v = dest + i
    · rw [if_pos hlast, if_pos (by omega), hlast, Nat.add_sub_cancel_left]
    · rw [if_neg hlast]
      refine if_congr ?_ rfl rfl
      omega

/-! ## Segments -/

/-- What one segment leaves. -/
lemma loadSegment_codeByte (hf : ValidElf file size) (hsize : size < 2 ^ 32)
    (hs : Shows s virtuals frames) (hd : Distinct frames) (hn : n < phtEntryNb file)
    (h : loadSegment file size virtuals n s = .ok t) (hv : START_OF_USER_CODE ≤ v)
    (hv' : v < 2 ^ 32) :
    ((programHeader file n).type = LOAD → (programHeader file n).Covers v →
      codeByte frames t v = (programHeader file n).byteAt file v) ∧
    (((programHeader file n).type = LOAD → ¬ (programHeader file n).Covers v) →
      codeByte frames t v = codeByte frames s v) := by
  obtain ⟨_, ⟨hl, rfl⟩ | ⟨hl, _, u, hset, hcopy⟩⟩ := (loadSegment_eq_ok hf.table.1).mp h
  · exact ⟨fun hc => absurd hc hl, fun _ => rfl⟩
  obtain ⟨hcode, hle, hfile⟩ := hf.segment n hn hl
  have hcode' : InCode (programHeader file n).virtualAddress (programHeader file n).sizeInFile := by
    unfold InCode at *
    omega
  have e1 := memSetPage_codeByte hs hd hcode hset hv hv'
  have hs' := (memSetPage_within hset).shows hs
  have e2 := memCopyPage_codeByte hs' hd hcode' hsize hfile hcopy hv hv'
  rw [e2, e1]
  constructor
  · rintro _ ⟨h1, h2⟩
    unfold ProgramHeader.byteAt
    rw [if_pos (c := _ ∧ v < _ + (programHeader file n).sizeInMemory) ⟨h1, h2⟩]
    refine if_congr ?_ rfl rfl
    omega
  · intro hc
    have hout := hc hl
    unfold ProgramHeader.Covers at hout
    rw [if_neg (by omega), if_neg hout]

/-- What the first `n` segments leave. -/
lemma loadSegments_codeByte (hf : ValidElf file size) (hsize : size < 2 ^ 32)
    (hs : Shows s virtuals frames) (hd : Distinct frames) (hn : n ≤ phtEntryNb file)
    (h : loadSegments file size virtuals n s = .ok t) (hv : START_OF_USER_CODE ≤ v)
    (hv' : v < 2 ^ 32) :
    (∀ k < n, (programHeader file k).type = LOAD → (programHeader file k).Covers v →
      codeByte frames t v = (programHeader file k).byteAt file v) ∧
    ((∀ k < n, (programHeader file k).type = LOAD → ¬ (programHeader file k).Covers v) →
      codeByte frames t v = codeByte frames s v) := by
  induction n generalizing t with
  | zero =>
    cases h
    exact ⟨nofun, fun _ => rfl⟩
  | succ n ih =>
    obtain ⟨u, h1, h2⟩ := bind_ok.mp h
    obtain ⟨i1, i2⟩ := ih (by omega) h1
    have hs' := (loadSegments_within hf.table.1 h1).shows hs
    obtain ⟨j1, j2⟩ := loadSegment_codeByte hf hsize hs' hd (by omega) h2 hv hv'
    constructor
    · intro k hk hl hc
      obtain hlt | rfl := Nat.lt_succ_iff_lt_or_eq.mp hk
      · -- the segments before are not overwritten
        rw [j2 fun hl' => hf.disjoint k (by omega) n (by omega) (by omega) hl hl' v hc]
        exact i1 k hlt hl hc
      · exact j1 hl hc
    · intro hc
      rw [j2 (hc n (by omega)), i2 fun k hk => hc k (by omega)]

/-- `check_and_load` on a file that can be loaded. -/
lemma checkAndLoad_image (hf : ValidElf file size) (hsize : size < 2 ^ 32)
    (hs : Shows s virtuals frames) (hd : Distinct frames) :
    ∃ t, checkAndLoad file size virtuals s = .ok (file.get32 24, t) ∧ Within virtuals s t ∧
      Image file (codeByte frames s) (codeByte frames t) := by
  have hfits : ∀ k < phtEntryNb file, EntryFits file size k := by
    intro k hk
    have htable := hf.table.2 k hk
    refine ⟨by omega, fun hl => ⟨htable, ?_⟩⟩
    obtain ⟨hcode, hle, hfile⟩ := hf.segment k hk hl
    refine ⟨hcode, ?_, hfile⟩
    unfold InCode at *
    omega
  obtain ⟨t, ht⟩ := (loadSegments_ok virtuals s hsize hf.table.1).mpr hfits
  refine ⟨t, (checkAndLoad_eq_ok hf.header).mpr ⟨hf.table.1, ht, rfl⟩,
    loadSegments_within hf.table.1 ht, fun n hn hl v hc => ?_, fun v hv hv' hc => ?_⟩
  · have hcode := (hf.segment n hn hl).1
    have hc' := hc
    unfold InCode at hcode
    unfold ProgramHeader.Covers at hc'
    exact (loadSegments_codeByte hf hsize hs hd le_rfl ht (by omega) (by omega)).1 n hn hl hc
  · exact (loadSegments_codeByte hf hsize hs hd le_rfl ht hv hv').2 hc

lemma Image.congr {before before' after after' : Nat → UInt8} (hf : ValidElf file size)
    (h : Image file before after)
    (hb : ∀ v, START_OF_USER_CODE ≤ v → v < 2 ^ 32 → before' v = before v)
    (ha : ∀ v, START_OF_USER_CODE ≤ v → v < 2 ^ 32 → after' v = after v) :
    Image file before' after' := by
  refine ⟨fun n hn hl v hc => ?_, fun v hv hv' hc => ?_⟩
  · have hcode := (hf.segment n hn hl).1
    have hc' := hc
    unfold InCode at hcode
    unfold ProgramHeader.Covers at hc'
    rw [ha v (by omega) (by omega), h.segment n hn hl v hc]
  · rw [ha v hv hv', hb v hv hv', h.other v hv hv' hc]

/-! ## The bytes of the file -/

variable {f g : Bytes}

/-- Only the bytes of the file are read. -/
lemma checkAndLoad_congr (h : ∀ i < size, f i = g i) (s : State) :
    checkAndLoad f size virtuals s = checkAndLoad g size virtuals s := by
  have hbyte : fileByte f size = fileByte g size := by
    funext i
    unfold fileByte
    split_ifs with hi
    · rw [h i hi]
    · rfl
  have h16 : fileField16 f size = fileField16 g size := by
    funext i
    unfold fileField16
    split_ifs with hi
    · rw [Bytes.get16_congr fun x _ hx => h x (by omega)]
    · rfl
  have h32 : fileField32 f size = fileField32 g size := by
    funext i
    unfold fileField32
    split_ifs with hi
    · rw [Bytes.get32_congr fun x _ hx => h x (by omega)]
    · rfl
  have hmagic : ∀ offset bs, magicMatches f size offset bs = magicMatches g size offset bs := by
    intro offset bs
    induction bs generalizing offset with
    | nil => rfl
    | cons b bs ih => simp only [magicMatches, hbyte, ih]
  have hheader : checkHeader f size = checkHeader g size := by
    simp only [checkHeader, hmagic, hbyte, h16, h32]
  have hcopy : ∀ dest src n s,
      memCopyPage f size virtuals dest src n s = memCopyPage g size virtuals dest src n s := by
    intro dest src n s
    induction n generalizing s with
    | zero => rfl
    | succ n ih => simp only [memCopyPage, hbyte, ih]
  have hsegments : ∀ n s, loadSegments f size virtuals n s = loadSegments g size virtuals n s := by
    intro n s
    induction n generalizing s with
    | zero => rfl
    | succ n ih => simp only [loadSegments, loadSegment, h16, h32, hcopy, ih]
  simp only [checkAndLoad, hheader, h16, h32, hsegments]

end MarioBrOS.Loader
