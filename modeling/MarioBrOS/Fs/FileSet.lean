import MarioBrOS.Fs.Creation
import MarioBrOS.Fs.FailedWrite
import MarioBrOS.Fs.Position

/-!
# A set of files

Regular files within their direct blocks, which have no block in common (`FileSet`). A call that
changes one of them, and what the allocator keeps, leaves the others as they are (`FileSet.same`)
and keeps the set well formed (`FileSet.change`): writing (`Written.fileSet`), erasing
(`FileSet.erase`) and creating a file (`FileSet.createFile`) are of this kind.
-/

namespace MarioBrOS.Fs

namespace Volume

variable {v w u : Volume} {files : Set Nat} {i j k n n' x : Nat}

/-! ## Reading -/

/-- At most the inode in `std_inode` and the bytes of `std_buf` have changed. -/
def OnlyRead (v w : Volume) : Prop := w = { v with stdBuf := w.stdBuf, stdInode := w.stdInode }

lemma OnlyRead.refl (v : Volume) : v.OnlyRead v := rfl

lemma OnlyRead.trans (h : v.OnlyRead w) (h' : w.OnlyRead u) : v.OnlyRead u := by
  unfold OnlyRead at *
  rw [h', h]

lemma OnlyRead.disk (h : v.OnlyRead w) : w.disk = v.disk := by rw [h]

lemma OnlyRead.geometry (h : v.OnlyRead w) : w.geometry = v.geometry := by
  rw [h]
  rfl

lemma OnlyRead.blockFree (h : v.OnlyRead w) (b : Nat) : w.BlockFree b ↔ v.BlockFree b := by
  rw [h]
  rfl

lemma setInode_onlyRead (h : v.setInode i = some w) : v.OnlyRead w := by
  have e := setInode_eq h
  unfold OnlyRead
  rw [e]

/-- After `set_inode`, `std_inode` is as the inode is on the disk. -/
lemma setInode_loaded (L : v.geometry.Layout) (hi : v.HasInode i) :
    ∃ w, v.setInode i = some w ∧ v.OnlyRead w ∧ w.InodeLoaded i := by
  refine ⟨_, setInode_inode L hi, rfl, fun x hx => ?_⟩
  refine (Bytes.blit_apply_of_inside (by omega)).trans ?_
  rw [Nat.sub_zero]
  rfl

lemma readInodeData_onlyRead {buffer buffer' : Bytes} {start offset length done : Nat}
    (h : v.readInodeData i buffer start offset length = some (w, buffer', done)) :
    v.OnlyRead w := by
  unfold readInodeData at h
  obtain ⟨u, hu, h⟩ := Option.bind_eq_some_iff.mp h
  obtain ⟨slot, _, h⟩ := Option.bind_eq_some_iff.mp h
  obtain ⟨found, _, h⟩ := Option.bind_eq_some_iff.mp h
  obtain ⟨b, _, h⟩ := Option.bind_eq_some_iff.mp h
  cases h
  exact (setInode_onlyRead hu).trans rfl

lemma readInodeData_loaded {buffer buffer' : Bytes} {start offset length done : Nat}
    (L : v.geometry.Layout) (hi : v.HasInode i)
    (h : v.readInodeData i buffer start offset length = some (w, buffer', done)) :
    w.InodeLoaded i := by
  obtain ⟨u, hu, _, hl⟩ := setInode_loaded L hi
  unfold readInodeData at h
  rw [hu, Option.bind_eq_bind, Option.bind_some] at h
  obtain ⟨slot, _, h⟩ := Option.bind_eq_some_iff.mp h
  obtain ⟨found, _, h⟩ := Option.bind_eq_some_iff.mp h
  obtain ⟨b, _, h⟩ := Option.bind_eq_some_iff.mp h
  cases h
  exact hl

lemma readDir_onlyRead {dir : Nat} (h : v.readDir dir = some w) : v.OnlyRead w := by
  unfold readDir at h
  obtain ⟨⟨u, b, d⟩, hu, rfl⟩ := Option.map_eq_some_iff.mp h
  exact (readInodeData_onlyRead hu).trans rfl

/-- Looking for a path only reads. -/
lemma findLoop_onlyRead {path : List (List UInt8)} (h : findLoop path v i = some (w, j)) :
    v.OnlyRead w := by
  induction path generalizing v i with
  | nil =>
    cases h
    exact .refl _
  | cons name path ih =>
    by_cases hnil : name = [] ∧ path = []
    · obtain ⟨rfl, rfl⟩ := hnil
      cases h
      exact .refl _
    · rw [findLoop_cons hnil] at h
      obtain ⟨u, hu, h⟩ := Option.bind_eq_some_iff.mp h
      obtain ⟨stop, _, h⟩ := Option.bind_eq_some_iff.mp h
      have hread := readDir_onlyRead hu
      split at h
      · cases h
        exact hread
      split at h
      · cases h
        exact hread
      · exact hread.trans (ih h)

lemma findInode_onlyRead {path : List UInt8} {root : Nat}
    (h : v.findInode path root = some (w, j)) : v.OnlyRead w := findLoop_onlyRead h

/-- A read within a file: it ends with the block, or before. -/
lemma DirectFile.read (h : v.DirectFile i n) (hx : x < n * v.blockSize) (buffer : Bytes)
    (start length : Nat) : ∃ w, v.readInodeData i buffer start x length =
      some (w, buffer.blit start v.disk (v.fileAddr i x)
        (min length (v.blockSize - x % v.blockSize)),
        min length (v.blockSize - x % v.blockSize)) ∧ v.OnlyRead w ∧ w.InodeLoaded i := by
  obtain ⟨u, hset, hread, hloaded⟩ := setInode_loaded h.layout h.inode
  have hslot := slot_lt hx
  have hk : x / v.blockSize < 12 := hslot.trans_le h.slots
  have hdata := h.data _ hslot
  have hbs := blockSize_congr hread.geometry
  have hdbp : u.dbp (x / v.blockSize) = v.diskDbp i (x / v.blockSize) := by
    have e := hloaded.get32 (j := 40 + 4 * (x / v.blockSize)) (by omega)
    rw [hread.disk, inodeByte_congr hread.geometry] at e
    exact e.symm
  have hmod := Nat.mod_lt x v.blockSize_pos
  have hle := blockSize_le h.layout.supported
  have hblock : u.block (v.diskDbp i (x / v.blockSize)) =
      v.blockFactor * v.diskDbp i (x / v.blockSize) := by
    have hr : v.blockFactor * v.spb.blockNum + 0x800 ≤ 2 ^ 28 := h.layout.reach
    have hm := Nat.mul_le_mul_left v.blockFactor (show _ ≤ v.spb.blockNum from hdata.1.le)
    unfold block
    have hf : u.blockFactor = v.blockFactor := by rw [hread]; rfl
    rw [hf, Nat.mod_eq_of_lt (by omega)]
  have hbyte : lbaByte (u.block (v.diskDbp i (x / v.blockSize))) + x % v.blockSize =
      v.fileAddr i x := by
    have e : u.blockByte (v.diskDbp i (x / v.blockSize)) =
        u.geometry.blockByte (v.diskDbp i (x / v.blockSize)) :=
      blockByte_eq (hread.geometry.symm ▸ h.layout) (hread.geometry.symm ▸ hdata).1
    rw [hread.geometry] at e
    unfold fileAddr
    rw [← e]
    rfl
  -- the sectors read can be named with 28 bits
  have hreach : v.blockFactor * v.diskDbp i (x / v.blockSize) + 0x800 + x % v.blockSize / 512 <
      2 ^ 28 := by
    have hr : v.blockFactor * v.spb.blockNum + 0x800 ≤ 2 ^ 28 := h.layout.reach
    have hm := Nat.mul_le_mul_left v.blockFactor (show _ + 1 ≤ v.spb.blockNum from hdata.1)
    have hd : x % v.blockSize / 512 < v.blockFactor :=
      (Nat.div_lt_iff_lt_mul (by omega)).mpr (by rw [blockSize_eq] at hmod ⊢; omega)
    rw [Nat.mul_add, Nat.mul_one] at hm
    omega
  refine ⟨u.setStdBuf u.stdBuf, ?_, hread.trans rfl, hloaded⟩
  unfold readInodeData
  rw [hset, Option.bind_eq_bind, Option.bind_some, hbs, inodeSlot_direct hk, Option.bind_eq_bind,
    Option.bind_some]
  unfold slotBlock
  rw [Option.bind_eq_bind, Option.bind_some, hdbp, width_eq, hbs]
  dsimp only
  rw [hread.disk, readPio_eq (by omega) (by rw [hblock]; exact hreach), Option.bind_eq_bind,
    Option.bind_some, hbyte]

/-! ## Files -/

/-- The files have different inodes and blocks, which are not free; free blocks hold no data of the
driver. -/
structure FileSet (v : Volume) (files : Set Nat) : Prop where
  file : ∀ i ∈ files, v.DirectFile i (v.sizeBlocks (v.diskSize i))
  taken : ∀ i ∈ files, ∀ k, k < v.sizeBlocks (v.diskSize i) → ¬ v.BlockFree (v.diskDbp i k)
  apart : ∀ i ∈ files, ∀ j ∈ files, i ≠ j → ∀ k, k < v.sizeBlocks (v.diskSize i) →
    ∀ l, l < v.sizeBlocks (v.diskSize j) → v.diskDbp i k ≠ v.diskDbp j l
  free : ∀ b, v.BlockFree b → v.geometry.IsData b

/-- The inode and the bytes of the file are as before. -/
structure SameFile (v w : Volume) (i : Nat) : Prop where
  inode : SameInode v w i
  bytes : ∀ x, x < v.diskSize i → w.fileByte i x = v.fileByte i x

lemma SameFile.refl (v : Volume) (i : Nat) : SameFile v v i :=
  ⟨⟨rfl, fun _ _ => rfl⟩, fun _ _ => rfl⟩

lemma OnlyRead.sameFile (h : v.OnlyRead w) (i : Nat) : SameFile v w i where
  inode := ⟨h.geometry, fun _ _ => by rw [h.disk]⟩
  bytes x _ := by
    unfold fileByte fileAddr diskDbp
    rw [h.disk, blockSize_congr h.geometry, h.geometry, inodeByte_congr h.geometry]

lemma SameInode.sizeBlocks (h : SameInode v w i) :
    w.sizeBlocks (w.diskSize i) = v.sizeBlocks (v.diskSize i) := by
  rw [h.size]
  unfold Volume.sizeBlocks
  rw [blockSize_congr h.geometry]

/-- The set is as it was if the inodes and the free blocks are. -/
lemma FileSet.congr (F : FileSet v files) (hg : w.geometry = v.geometry)
    (hsame : ∀ i ∈ files, SameInode v w i) (hfree : ∀ c, w.BlockFree c ↔ v.BlockFree c) :
    FileSet w files := by
  have hd : ∀ i ∈ files, ∀ k, k < v.sizeBlocks (v.diskSize i) →
      w.diskDbp i k = v.diskDbp i k := fun i hi k hk =>
    (hsame i hi).dbp (hk.trans_le (F.file i hi).slots)
  refine ⟨fun i hi => ?_, fun i hi k hk => ?_, fun i hi j hj hij k hk l hl => ?_, fun b hb => ?_⟩
  · rw [(hsame i hi).sizeBlocks]
    exact (F.file i hi).same (hsame i hi)
  · rw [(hsame i hi).sizeBlocks] at hk
    rw [hd i hi k hk, hfree]
    exact F.taken i hi k hk
  · rw [(hsame i hi).sizeBlocks] at hk
    rw [(hsame j hj).sizeBlocks] at hl
    rw [hd i hi k hk, hd j hj l hl]
    exact F.apart i hi j hj hij k hk l hl
  · rw [hg]
    exact F.free b ((hfree b).mp hb)

lemma OnlyRead.fileSet (h : v.OnlyRead w) (F : FileSet v files) : FileSet w files :=
  F.congr h.geometry (fun i _ => (h.sameFile i).inode) h.blockFree

/-- Some of the files. -/
lemma FileSet.mono {some : Set Nat} (F : FileSet v files) (h : some ⊆ files) : FileSet v some where
  file i hi := F.file i (h hi)
  taken i hi := F.taken i (h hi)
  apart i hi j hj := F.apart i (h hi) j (h hj)
  free := F.free

/-- A file without blocks can be added. -/
lemma FileSet.insert (F : FileSet v files) (D : v.DirectFile i 0) (h : v.diskSize i = 0) :
    FileSet v (Insert.insert i files) := by
  have h0 : v.sizeBlocks (v.diskSize i) = 0 := by
    rw [h]
    rfl
  refine ⟨fun j hj => ?_, fun j hj k hk => ?_, fun j hj l hl hne k hk m hm => ?_, F.free⟩
  · obtain rfl | hj := hj
    · rw [h0]
      exact D
    · exact F.file j hj
  · obtain rfl | hj := hj
    · rw [h0] at hk
      exact absurd hk (Nat.not_lt_zero k)
    · exact F.taken j hj k hk
  · obtain rfl | hj := hj
    · rw [h0] at hk
      exact absurd hk (Nat.not_lt_zero k)
    obtain rfl | hl := hl
    · rw [h0] at hm
      exact absurd hm (Nat.not_lt_zero m)
    · exact F.apart j hj l hl hne k hk m hm

/-- A byte of a file lies in one of its blocks. -/
lemma lt_sizeBlocks {size : Nat} (hx : x < size) : x < v.sizeBlocks size * v.blockSize := by
  have hp := v.blockSize_pos
  have hmul := Nat.lt_mul_div_succ (size - 1) hp
  unfold sizeBlocks
  rw [if_pos (by omega), Nat.mul_comm, Nat.add_comm 1]
  omega

lemma le_sizeBlocks (v : Volume) (size : Nat) : size ≤ v.sizeBlocks size * v.blockSize := by
  cases size with
  | zero => exact Nat.zero_le _
  | succ n => exact lt_sizeBlocks (Nat.lt_succ_self n)

lemma sizeBlocks_mono {size size' : Nat} (h : size ≤ size') :
    v.sizeBlocks size ≤ v.sizeBlocks size' := by
  have hd := Nat.div_le_div_right (c := v.blockSize) (show size - 1 ≤ size' - 1 by omega)
  unfold sizeBlocks
  generalize (size - 1) / v.blockSize = a at hd ⊢
  generalize (size' - 1) / v.blockSize = b at hd ⊢
  split <;> split <;> omega

/-- The blocks of file `i` are `bs` now; otherwise only its inode and what the allocator keeps have
changed. -/
structure ChangedOnly (v w : Volume) (i : Nat) (bs : Nat → Prop) : Prop where
  geometry : w.geometry = v.geometry
  outside : ∀ m x, v.geometry.InBlock m x → ¬ v.geometry.AllocByte x →
    (∀ y, y < 128 → x ≠ v.inodeByte i + y) → (∀ b, bs b → ¬ v.geometry.InBlock b x) →
      w.disk x = v.disk x

/-- The other files are as before, if their blocks are others. -/
lemma FileSet.same (F : FileSet v files) {bs : Nat → Prop} (h : ChangedOnly v w i bs)
    (L : v.geometry.Layout) (Hi : v.HasInode i) (hj : j ∈ files) (hij : j ≠ i)
    (hbs : ∀ b, bs b → v.geometry.IsData b)
    (hne : ∀ k, k < v.sizeBlocks (v.diskSize j) → ¬ bs (v.diskDbp j k)) : SameFile v w j := by
  have Hj := (F.file j hj).inode
  have hinode : SameInode v w j := by
    refine ⟨h.geometry, fun x hx => h.outside _ _ (inBlock_inode hx)
      (inode_not_allocByte L Hj hx) ?_ ?_⟩
    · intro y hy e
      have := inodeByte_apart L Hj Hi hij
      omega
    · intro b hb hin
      have := data_apart L (hbs b hb) Hj
      unfold Geometry.InBlock at hin
      rw [geometry_bytes] at hin
      omega
  refine ⟨hinode, fun x hx => ?_⟩
  have hx' := lt_sizeBlocks (v := v) hx
  have h12 := Nat.mul_le_mul_right v.blockSize (F.file j hj).slots
  unfold fileByte
  rw [hinode.addr (by omega)]
  have hk := slot_lt hx'
  have hin := inBlock_fileAddr (v := v) (i := j) (x := x)
  refine h.outside _ _ hin (not_allocByte ((F.file j hj).data _ hk) hin) ?_ ?_
  · exact fun y hy e => (F.file j hj).addr_inode hx' Hi hy e.symm
  · intro b hb hin'
    exact hne _ hk (Geometry.inBlock_unique hin hin' ▸ hb)

/-- The set after one file has changed: its blocks were its own or free, and no block of another
file has been freed. -/
lemma FileSet.change (F : FileSet v files) (hi : i ∈ files) (hg : w.geometry = v.geometry)
    (hsame : ∀ j ∈ files, j ≠ i → SameInode v w j)
    (hfile : w.DirectFile i (w.sizeBlocks (w.diskSize i)))
    (htaken : ∀ k, k < w.sizeBlocks (w.diskSize i) → ¬ w.BlockFree (w.diskDbp i k))
    (horigin : ∀ k, k < w.sizeBlocks (w.diskSize i) → v.BlockFree (w.diskDbp i k) ∨
      ∃ l, l < v.sizeBlocks (v.diskSize i) ∧ w.diskDbp i k = v.diskDbp i l)
    (hfreed : ∀ c, w.BlockFree c → v.BlockFree c ∨
      ∃ l, l < v.sizeBlocks (v.diskSize i) ∧ c = v.diskDbp i l) : FileSet w files := by
  have hs : ∀ j ∈ files, j ≠ i → w.sizeBlocks (w.diskSize j) = v.sizeBlocks (v.diskSize j) :=
    fun j hj hij => (hsame j hj hij).sizeBlocks
  have hd : ∀ j ∈ files, j ≠ i → ∀ k, k < v.sizeBlocks (v.diskSize j) →
      w.diskDbp j k = v.diskDbp j k := fun j hj hij k hk =>
    (hsame j hj hij).dbp (hk.trans_le (F.file j hj).slots)
  -- a block of the changed file was its own before, or free
  have hne : ∀ j ∈ files, j ≠ i → ∀ k, k < w.sizeBlocks (w.diskSize i) →
      ∀ l, l < w.sizeBlocks (w.diskSize j) → w.diskDbp i k ≠ w.diskDbp j l := by
    intro j hj hij k hk l hl e
    rw [hs j hj hij] at hl
    rw [hd j hj hij l hl] at e
    rcases horigin k hk with h | ⟨m, hm, h⟩
    · exact F.taken j hj l hl (e ▸ h)
    · exact F.apart i hi j hj hij.symm m hm l hl (h.symm.trans e)
  refine ⟨fun j hj => ?_, fun j hj k hk => ?_, fun j hj j' hj' hjj k hk l hl => ?_, fun b hb => ?_⟩
  · by_cases hij : j = i
    · rw [hij]
      exact hfile
    · rw [hs j hj hij]
      exact (F.file j hj).same (hsame j hj hij)
  · by_cases hij : j = i
    · subst hij
      exact htaken k hk
    · rw [hs j hj hij] at hk
      rw [hd j hj hij k hk]
      intro h
      rcases hfreed _ h with h | ⟨l, hl, e⟩
      · exact F.taken j hj k hk h
      · exact F.apart i hi j hj (Ne.symm hij) l hl k hk e.symm
  · by_cases hij : j = i
    · subst hij
      exact hne j' hj' hjj.symm k hk l hl
    · by_cases hij' : j' = i
      · subst hij'
        exact (hne j hj hij l hl k hk).symm
      · rw [hs j hj hij] at hk
        rw [hs j' hj' hij'] at hl
        rw [hd j hj hij k hk, hd j' hj' hij' l hl]
        exact F.apart j hj j' hj' hjj k hk l hl
  · rw [hg]
    rcases hfreed b hb with h | ⟨l, hl, rfl⟩
    · exact F.free b h
    · exact (F.file i hi).data l hl

/-- Erasing one of the files. -/
lemma FileSet.erase (F : FileSet v files) (hi : i ∈ files) :
    ∃ w, v.eraseFileData i = some w ∧ FileSet w files ∧ w.diskSize i = 0 ∧
      w.geometry = v.geometry ∧ ∀ j ∈ files, j ≠ i → SameFile v w j := by
  have D := F.file i hi
  obtain ⟨u, herase, S, hout, hsize, hdbp⟩ := D.erase (le_refl _)
  have Lu : u.geometry.Layout := S.geometry.symm ▸ D.layout
  have h12 := D.slots
  have hnum : u.spb.blockNum = v.spb.blockNum := congrArg Geometry.blockNum S.geometry
  obtain ⟨hg, _, hw⟩ := freeDirect_outside (n := v.sizeBlocks (v.diskSize i)) (i := 0) Lu
    fun k _ hk => by rw [hdbp k (by omega), hnum]; exact (D.data k (by omega)).1
  have hfree : ∀ c, (u.freeDirect (v.sizeBlocks (v.diskSize i)) 0).BlockFree c → v.BlockFree c ∨
      ∃ l, l < v.sizeBlocks (v.diskSize i) ∧ c = v.diskDbp i l := by
    intro c hc
    by_contra h
    obtain ⟨h1, h2⟩ := not_or.mp h
    have ⟨w, hw', hw⟩ := eraseFileData_taken D (le_refl _) (fun k hk e => h2 ⟨k, hk, e⟩) h1
    rw [herase] at hw'
    cases hw'
    exact hw hc
  generalize u.freeDirect (v.sizeBlocks (v.diskSize i)) 0 = w at herase hg hw hfree
  rw [S.geometry] at hg hw
  have hC : ChangedOnly v w i fun _ => False :=
    ⟨hg, fun m x hin hx h _ => (hw m x hin hx).trans (hout x h)⟩
  have hsame : ∀ j ∈ files, j ≠ i → SameFile v w j := fun j hj hij =>
    F.same hC (F.file _ hi).layout (F.file _ hi).inode hj hij (fun _ => False.elim) fun _ _ => id
  have hzero : w.diskSize i = 0 := by
    rw [← hsize]
    unfold diskSize
    rw [inodeByte_congr hg, inodeByte_congr S.geometry]
    refine Bytes.get32_congr fun x h1 h2 => ?_
    have hx : x = v.inodeByte i + (x - v.inodeByte i) := by omega
    rw [hx]
    exact hw _ _ (inBlock_inode (by omega)) (inode_not_allocByte D.layout D.inode (by omega))
  have h0 : w.sizeBlocks (w.diskSize i) = 0 := by
    rw [hzero]
    rfl
  refine ⟨w, herase, F.change hi hg (fun j hj hij => (hsame j hj hij).inode) ?_ ?_ ?_ hfree, hzero,
    hg, hsame⟩
  · rw [h0]
    exact ⟨hg.symm ▸ D.layout, D.inode.congr hg, Nat.zero_le _, fun k hk => absurd hk k.not_lt_zero,
      fun k _ hk => absurd hk k.not_lt_zero⟩
  · rw [h0]
    exact fun k hk => absurd hk k.not_lt_zero
  · rw [h0]
    exact fun k hk => absurd hk k.not_lt_zero

/-! ## Creating a file -/

/-- The files are as before, and so are the free blocks. -/
structure FilesKept (v w : Volume) (files : Set Nat) : Prop where
  geometry : w.geometry = v.geometry
  file : ∀ i ∈ files, SameFile v w i
  free : ∀ c, w.BlockFree c ↔ v.BlockFree c

lemma SameFile.trans (h : SameFile v w i) (h' : SameFile w u i) : SameFile v u i where
  inode := h.inode.trans h'.inode
  bytes x hx := (h'.bytes x (by rwa [h.inode.size])).trans (h.bytes x hx)

lemma FilesKept.trans (h : FilesKept v w files) (h' : FilesKept w u files) :
    FilesKept v u files where
  geometry := h'.geometry.trans h.geometry
  file i hi := (h.file i hi).trans (h'.file i hi)
  free c := (h'.free c).trans (h.free c)

lemma FileSet.kept (F : FileSet v files) (h : FilesKept v w files) : FileSet w files :=
  F.congr h.geometry (fun i hi => (h.file i hi).inode) h.free

lemma OnlyRead.kept (h : v.OnlyRead w) (files : Set Nat) : FilesKept v w files :=
  ⟨h.geometry, fun i _ => h.sameFile i, h.blockFree⟩

/-- The bitmaps of the blocks are as before. -/
lemma Bitmaps.blockFree {bits : Nat → Nat → Bool} (h : Bitmaps v w bits) (L : v.geometry.Layout)
    (hg : w.geometry = v.geometry) (c : Nat) : w.BlockFree c ↔ v.BlockFree c := by
  have hnum : w.spb.blockNum = v.spb.blockNum := congrArg Geometry.blockNum hg
  have hgroup : w.spb.blockPerGroup = v.spb.blockPerGroup := congrArg Geometry.blockPerGroup hg
  have hper : v.spb.blockPerGroup ≤ 8 * v.geometry.bytes := L.blockPerGroup_le
  unfold BlockFree
  rw [hnum, hgroup]
  refine and_congr_right fun hc => ?_
  have hlt := Nat.mod_lt c (show 0 < v.spb.blockPerGroup from L.blockPerGroup_pos)
  have hbit := h.blocks (c / v.spb.blockPerGroup) _ (L.group_lt hc) (hlt.trans_le hper)
  rw [hbit]

/-- The bytes of the files are bytes of data blocks. -/
lemma FileSet.treeKept (F : FileSet v files) (L : v.geometry.Layout) (h : TreeKept v w)
    {bits : Nat → Nat → Bool} (hb : Bitmaps v w bits) : FilesKept v w files where
  geometry := h.geometry
  free := hb.blockFree L h.geometry
  file i hi := by
    have D := F.file i hi
    have hinode : SameInode v w i := ⟨h.geometry, fun x hx => h.inode i x D.inode hx⟩
    refine ⟨hinode, fun x hx => ?_⟩
    have hx' := lt_sizeBlocks (v := v) hx
    have h12 := Nat.mul_le_mul_right v.blockSize D.slots
    unfold fileByte
    rw [hinode.addr (by omega)]
    exact h.data _ _ (D.data _ (slot_lt hx')) inBlock_fileAddr

/-- Changes to something that is not one of the files. -/
lemma FileSet.changed (F : FileSet v files) {bs : Nat → Prop} (h : ChangedOnly v w i bs)
    (S : Spoiled v w) (L : v.geometry.Layout) (Hi : v.HasInode i) (hi : i ∉ files)
    (hbs : ∀ b, bs b → v.geometry.IsData b)
    (hne : ∀ j ∈ files, ∀ k, k < v.sizeBlocks (v.diskSize j) → ¬ bs (v.diskDbp j k)) :
    FilesKept v w files :=
  ⟨h.geometry, fun j hj => F.same h L Hi hj (fun e => hi (e ▸ hj)) hbs (hne j hj), S.blockFree L⟩

/-- A file can be created: its father is a directory apart from the files, and the inode that is to
be taken is none of theirs. -/
structure NewFile (v : Volume) (files : Set Nat) (father b : Nat) : Prop where
  dir : v.IsDir father b
  other : father ∉ files
  apart : ∀ i ∈ files, ∀ k, k < v.sizeBlocks (v.diskSize i) → v.diskDbp i k ≠ b
  first : v.spb.unallocInodeNum ≠ 0 → v.FirstValid ∧ v.spb.firstFreeInode ∉ files

/-- Storing the block of a directory leaves the files. -/
lemma FileSet.dirStored (F : FileSet v files) {d b links : Nat} {buf : Bytes} (hd : v.IsDir d b)
    (ho : d ∉ files) (hap : ∀ i ∈ files, ∀ k, k < v.sizeBlocks (v.diskSize i) → v.diskDbp i k ≠ b)
    (hg : w.geometry = v.geometry) (hw : w.disk = v.dirDisk d b buf links) :
    FilesKept v w files := by
  have hout : ∀ x, ¬ v.geometry.InBlock b x → (∀ y, y < 128 → x ≠ v.inodeByte d + y) →
      w.disk x = v.disk x := by
    intro x hx hy
    rw [hw]
    unfold dirDisk
    unfold Geometry.InBlock at hx
    rw [geometry_bytes] at hx
    have := hy (x - v.inodeByte d)
    rw [Bytes.set16_apply_of_outside (by omega), Bytes.blit_apply_of_outside (by omega)]
  have hC : ChangedOnly v w d (· = b) := ⟨hg, fun _ x _ _ h1 h2 => hout x (h2 b rfl) h1⟩
  refine F.changed hC ⟨hg, fun k x hk hx => hout x ?_ ?_⟩ hd.layout hd.inode ho ?_ hap
  · exact fun hin => not_allocByte hd.data hin (.inl ⟨k, hk, hx⟩)
  · exact bitmap_ne_inode hd.layout hd.inode hk hx
  · rintro _ rfl
    exact hd.data

/-- Writing the inode of something that is not one of the files leaves them. -/
lemma FileSet.updateInode (F : FileSet v files) (L : v.geometry.Layout) (hi : v.HasInode i)
    (ho : i ∉ files) : FilesKept v (v.updateInode i) files := by
  obtain ⟨hg, _, _, hd⟩ := updateInode_spec L hi
  have hC : ChangedOnly v (v.updateInode i) i fun _ => False := by
    refine ⟨hg, fun _ x _ _ h1 _ => ?_⟩
    rw [hd]
    have := h1 (x - v.inodeByte i)
    exact Bytes.blit_apply_of_outside (by omega)
  exact F.changed hC (.updateInode (.refl v) L hi) L hi ho (fun _ => False.elim) fun _ _ _ _ => id

lemma freshInode_onlyRead (v : Volume) (type : Nat) : v.OnlyRead (v.freshInode type) := rfl

/-- The inode of a new regular file has no size. -/
lemma freshInode_sizeLow {type : Nat} (h : type &&& TYPE_DIR = 0) :
    (v.freshInode type).sizeLow = 0 := by
  unfold freshInode sizeLow
  dsimp only
  rw [if_neg (not_not.mpr h), Nat.mul_zero, Bytes.get32_blit_of_outside (.inl (by omega)),
    Nat.mul_zero, Bytes.get32_set32 (by omega)]

lemma FilesKept.of_disk (F : FileSet v files) (L : v.geometry.Layout)
    (hg : w.geometry = v.geometry) (hd : w.disk = v.disk) : FilesKept v w files :=
  F.treeKept L (.of_disk hg hd) (.of_disk hg hd)

/-- A call of `create_file` for a regular file leaves the files, and gives the new one no blocks. -/
lemma FileSet.createFile (F : FileSet v files) {father b type : Nat} {name : List UInt8}
    {ftype : UInt8} (N : NewFile v files father b) (htype : type &&& TYPE_DIR = 0)
    (h : v.createFile father name type ftype = some (w, i)) :
    FilesKept v w files ∧ (i ≠ 0 → i ∉ files ∧ w.DirectFile i 0 ∧ w.diskSize i = 0) := by
  have L := N.dir.layout
  unfold Volume.createFile at h
  rw [if_neg N.dir.ne_zero] at h
  by_cases h0 : v.spb.unallocInodeNum = 0
  · obtain ⟨buf, ha⟩ := allocateInode_none h0
    rw [ha] at h
    dsimp only at h
    rw [if_pos rfl] at h
    cases h
    exact ⟨.of_disk F L rfl rfl, fun h => absurd rfl h⟩
  obtain ⟨hf, hnew⟩ := N.first h0
  obtain ⟨u, T, ⟨_, ha⟩ | ⟨_, ha⟩⟩ := allocateInode_cases L h0 hf
  · -- an inode is returned
    have Fu := F.treeKept L T.tree T.bitmaps
    have Lu : u.geometry.Layout := T.tree.geometry.symm ▸ L
    rw [ha] at h
    dsimp only at h
    rw [if_neg (Nat.ne_of_gt hf.1)] at h
    obtain ⟨⟨t, r⟩, hadd, h⟩ := Option.bind_eq_some_iff.mp h
    have O := (T.tree.isDir N.dir).addFile_cases (Nat.ne_of_gt hf.1) hadd
    have hg : t.geometry = u.geometry := geometry_congr O.spb O.bgpt
    have Lt : t.geometry.Layout := hg.symm ▸ Lu
    have Ht : t.HasInode v.spb.firstFreeInode :=
      (show v.HasInode v.spb.firstFreeInode from hf).congr (hg.trans T.tree.geometry)
    dsimp only at h
    split at h
    · -- the entry is refused, and the inode given back
      rename_i hr
      have Kt : FilesKept v t files := Fu.trans (.of_disk (F.kept Fu) Lu hg (O.kept hr))
      obtain ⟨hk, hb⟩ := unallocateInode_bitmaps Lt (Ht.group_lt Lt)
      cases h
      exact ⟨Kt.trans ((F.kept Kt).treeKept Lt hk hb), fun h => absurd rfl h⟩
    · rename_i hr
      obtain ⟨buf, hdisk⟩ := O.stored (not_not.mp hr)
      have hap : ∀ i ∈ files, ∀ k, k < u.sizeBlocks (u.diskSize i) → u.diskDbp i k ≠ b := by
        intro i hi k hk
        rw [(Fu.file i hi).inode.sizeBlocks] at hk
        rw [(Fu.file i hi).inode.dbp (hk.trans_le (F.file i hi).slots)]
        exact N.apart i hi k hk
      have Kt : FilesKept v t files :=
        Fu.trans ((F.kept Fu).dirStored (T.tree.isDir N.dir) N.other hap hg hdisk)
      have hfresh := t.freshInode_onlyRead type
      have hsize := freshInode_sizeLow (v := t) htype
      have Kf := Kt.trans (hfresh.kept files)
      generalize t.freshInode type = x at h hfresh hsize Kf
      cases h
      have Lx : x.geometry.Layout := hfresh.geometry.symm ▸ Lt
      have Hx := Ht.congr hfresh.geometry
      obtain ⟨hgx, _, _, hdx⟩ := updateInode_spec Lx Hx
      refine ⟨Kf.trans ((F.kept Kf).updateInode Lx Hx hnew), fun _ => ⟨hnew, ?_, ?_⟩⟩
      · exact ⟨hgx.symm ▸ Lx, Hx.congr hgx, Nat.zero_le _, fun k hk => absurd hk k.not_lt_zero,
          fun k _ hk => absurd hk k.not_lt_zero⟩
      · unfold diskSize
        rw [inodeByte_congr hgx, hdx, Bytes.get32_blit_of_inside (by omega), Nat.zero_add]
        exact hsize
  · -- the last free inode is taken, but 0 is returned
    rw [ha] at h
    dsimp only at h
    rw [if_pos rfl] at h
    cases h
    exact ⟨F.treeKept L T.tree T.bitmaps, fun h => absurd rfl h⟩

end Volume

namespace Inter

variable {s t : Inter} {e : FdtEntry} {f i j k n n' length offset : Nat} {files : Set Nat}
  {buffer : Bytes}

/-- Writing to one of the files. -/
lemma Written.fileSet (W : Written s t f e buffer offset length n n')
    (F : s.volume.FileSet files) (hi : e.inode ∈ files)
    (hn : s.volume.sizeBlocks (s.volume.diskSize e.inode) = n)
    (hn' : t.volume.sizeBlocks (t.volume.diskSize e.inode) = n') :
    t.volume.FileSet files ∧
      ∀ j ∈ files, j ≠ e.inode → s.volume.SameFile t.volume j := by
  have hnew : ∀ k, k < n' → s.volume.BlockFree (t.volume.diskDbp e.inode k) ∨
      ∃ l, l < n ∧ t.volume.diskDbp e.inode k = s.volume.diskDbp e.inode l := by
    intro k hk
    rcases Nat.lt_or_ge k n with h | h
    · exact .inr ⟨k, h, W.slots k h⟩
    · exact .inl (W.fresh k h hk)
  have hC : s.volume.ChangedOnly t.volume e.inode
      fun b => ∃ k, k < n' ∧ b = t.volume.diskDbp e.inode k :=
    ⟨W.geometry, fun _ x _ h1 h2 h3 => W.outside x h1 h2 fun k hk => h3 _ ⟨k, hk, rfl⟩⟩
  have hsame : ∀ j ∈ files, j ≠ e.inode → s.volume.SameFile t.volume j := by
    intro j hj hij
    apply F.same hC (F.file _ hi).layout (F.file _ hi).inode hj hij
    · rintro b ⟨k, hk, rfl⟩
      rw [← W.geometry]
      exact W.file.data k hk
    · rintro l hl ⟨k, hk, h⟩
      obtain h' | ⟨m, hm, h'⟩ := hnew k hk
      · exact F.taken j hj l hl (h ▸ h')
      · exact F.apart j hj e.inode hi hij l hl m (hn ▸ hm) (h.trans h')
  refine ⟨?_, hsame⟩
  apply F.change hi W.geometry fun j hj hij => (hsame j hj hij).inode
  · rw [hn']
    exact W.file
  · rw [hn']
    intro k hk hfree
    have h := (W.taken _).mp hfree
    rcases Nat.lt_or_ge k n with hk' | hk'
    · rw [W.slots k hk'] at h
      exact F.taken _ hi k (hn ▸ hk') h.1
    · exact h.2 k hk' hk rfl
  · rw [hn', hn]
    exact hnew
  · exact fun c hc => .inl ((W.taken c).mp hc).1

/-- The blocks of a file that has grown to the end of the range written. -/
lemma sizeBlocks_max (size : Nat) (L : s.volume.geometry.Layout)
    (hg : t.volume.geometry = s.volume.geometry) (hl : 1 ≤ length)
    (hm : e.pos + length ≤ 12 * s.volume.blockSize) :
    t.volume.sizeBlocks (max size (e.pos + length)) =
      max (s.volume.sizeBlocks size) (s.blocksToUse e length) := by
  obtain ⟨huse, _, _⟩ := blocksToUse_spec L hl hm
  have hmono := Nat.div_le_div_right (c := s.volume.blockSize)
    (show size - 1 ≤ max size (e.pos + length) - 1 by omega)
  have hmono' := Nat.div_le_div_right (c := s.volume.blockSize)
    (show e.pos + length - 1 ≤ max size (e.pos + length) - 1 by omega)
  rw [huse]
  unfold Volume.sizeBlocks
  rw [Volume.blockSize_congr hg, if_pos (by omega)]
  rcases Nat.le_total size (e.pos + length) with h | h
  · rw [Nat.max_eq_right h] at hmono hmono' ⊢
    split <;> omega
  · rw [Nat.max_eq_left h] at hmono hmono' ⊢
    rw [if_pos (by omega)]
    omega

/-- A `read` returns the bytes of the file from the position on, as far as the block reaches. -/
lemma read_direct {x : Nat} (hc : s.checkFd f = some (some e)) (hr : e.mode &&& O_RDONLY ≠ 0)
    (D : s.volume.DirectFile e.inode n) (hn : e.size ≤ n * s.volume.blockSize)
    (h32 : e.size < 2 ^ 32) (hpos : e.pos ≤ x) (hin : x < e.size)
    (hx : x < e.pos + min length (s.volume.blockSize - e.pos % s.volume.blockSize))
    (buffer : Bytes) (offset : Nat) :
    ∃ t b done, s.read f buffer offset length = some (t, b, done) ∧ x < e.pos + done ∧
      b (offset + (x - e.pos)) = s.volume.fileByte e.inode x := by
  obtain ⟨w, hread, _, _⟩ := D.read (x := e.pos) (by omega) buffer offset (readLength e length)
  have hlen : x < e.pos + readLength e length := by
    unfold readLength
    split
    · rw [sub32_of_le (by omega) h32]
      omega
    · omega
  generalize hd : min (readLength e length)
    (s.volume.blockSize - e.pos % s.volume.blockSize) = done at hread
  have hdone : x < e.pos + done := by omega
  have heq : s.read f buffer offset length = some ((s.withVolume w).setPos (s.deref f)
      (add32 e.pos done),
        buffer.blit offset s.volume.disk (s.volume.fileAddr e.inode e.pos) done, done) := by
    rw [read_eq hc hr, if_neg (by omega), hread]
    rfl
  refine ⟨_, _, done, heq, hdone, ?_⟩
  rw [Bytes.blit_apply_of_inside (by omega), Nat.add_sub_cancel_left]
  unfold Volume.fileByte
  have hmod : e.pos % s.volume.blockSize + (x - e.pos) < s.volume.blockSize := by omega
  rw [← Volume.fileAddr_add hmod, Nat.add_sub_cancel' hpos]

end Inter

end MarioBrOS.Fs
