import MarioBrOS.Fs.Entries
import MarioBrOS.Fs.InodeTable

/-!
# Directories on the disk

`add_file` and `remove_file` read the block of a directory, change it in `std_buf` and write it
back; for a subdirectory they also change `hard_links` of the directory. So each leaves the disk as
it was but for one data block and one half word of an inode (`storeDir_eq`, `unlinkEntry_eq`), and a
later read of the directory finds the block that was written (`IsDir.stored`).
-/

namespace MarioBrOS.Fs

namespace Volume

variable (v : Volume)

/-- The inode `dir` exists, and its first block is the data block `b`. -/
structure IsDir (dir b : Nat) : Prop where
  layout : v.geometry.Layout
  inode : v.HasInode dir
  block : v.diskDbp dir 0 = b
  data : v.geometry.IsData b

/-- The volume once the directory `dir` in block `b` has been read. -/
def dirRead (dir b : Nat) : Volume :=
  { v with
    stdInode := v.stdInode.blit 0 v.disk (v.inodeByte dir) 128
    stdBuf := v.stdBuf.blit 0 v.disk (v.geometry.blockByte b) v.blockSize }

/-- The disk once the block `b` of the directory `dir` holds `buf` and `hard_links` is `links`. -/
def dirDisk (dir b : Nat) (buf : Bytes) (links : Nat) : Bytes :=
  (v.disk.blit (v.geometry.blockByte b) buf 0 v.blockSize).set16 (v.inodeByte dir + 26) links

variable {v} {dir b x : Nat}

/-- Inode 2 of the small volume is a directory if its first block is block 14. -/
lemma sampleVolume_isDir {word : Nat → Nat → Nat} {counts : Nat → Nat} {blocks inodes first : Nat}
    (h : (sampleVolume word counts blocks inodes first).diskDbp 2 0 = 14) :
    (sampleVolume word counts blocks inodes first).IsDir 2 14 where
  layout := (sampleVolume_geometry _ _ _ _ _).symm ▸ sampleGeometry_layout
  inode := by
    unfold HasInode
    rw [sampleVolume_geometry, sampleGeometry_groups]
    exact ⟨by decide, by show 2 ≤ 2 * 32; decide⟩
  block := h
  data := (sampleVolume_geometry _ _ _ _ _).symm ▸ sampleGeometry_isData (by decide) (by decide)

lemma setInode_dbp {w : Volume} (L : v.geometry.Layout) (hi : v.HasInode dir)
    (hw : v.setInode dir = some w) (k : Nat) (hk : k < 12) : w.dbp k = v.diskDbp dir k :=
  setInode_word L hi hw (by omega)

/-- Reading a directory. -/
lemma IsDir.readDir (h : v.IsDir dir b) : v.readDir dir = some (v.dirRead dir b) := by
  have hw := setInode_inode h.layout h.inode
  have hslot : inodeSlot v.blockSize (0 / v.blockSize) = some (.direct 0) := by
    rw [Nat.zero_div]
    rfl
  rcases readInodeData_of_slot v.stdBuf 0 v.blockSize h.layout.supported hw (Nat.dvd_zero _) hslot
    (Nat.succ_pos 11) with ⟨buf, hread⟩
  have hdbp : ∀ w : Volume, v.setInode dir = some w → w.storedBlock (.direct 0) = b := fun w hw =>
    (setInode_dbp h.layout h.inode hw 0 (by omega)).trans h.block
  rw [hdbp _ hw, Nat.min_self, blockByte_eq h.layout h.data.1] at hread
  unfold Volume.readDir
  rw [hread]
  rfl

/-- The block of the directory, as read. -/
lemma dirRead_stdBuf (hx : x < v.blockSize) :
    (v.dirRead dir b).stdBuf x = v.disk (v.geometry.blockByte b + x) := by
  refine (Bytes.blit_apply_of_inside (by omega)).trans ?_
  rw [Nat.sub_zero]

/-- The inode of the directory, as read. -/
lemma dirRead_stdInode (hx : x < 128) :
    (v.dirRead dir b).stdInode x = v.disk (v.inodeByte dir + x) := by
  refine (Bytes.blit_apply_of_inside (by omega)).trans ?_
  rw [Nat.sub_zero]

lemma IsDir.dirRead_dbp (h : v.IsDir dir b) : (v.dirRead dir b).dbp 0 = b := by
  rw [← h.block]
  exact Bytes.get32_blit_of_inside (m := v.stdInode) (b := v.disk) (d := 0)
    (s := v.inodeByte dir) (n := 128) (i := 40) (by omega)

lemma dirRead_links : (v.dirRead dir b).stdInode.get16 26 = v.diskLinks dir := by
  unfold Bytes.get16 diskLinks Bytes.get16
  rw [dirRead_stdInode (by omega), dirRead_stdInode (by omega), Nat.add_assoc]

/-- Writing back an inode of which a half word has changed. -/
lemma blit_set16 {d m : Bytes} {a o n : Nat} (ho : o + 2 ≤ 128)
    (h : ∀ x, x < 128 → m x = d (a + x)) : d.blit a (m.set16 o n) 0 128 = d.set16 (a + o) n := by
  funext x
  by_cases hx : a ≤ x ∧ x < a + 128
  · rw [Bytes.blit_apply_of_inside hx, Nat.zero_add]
    unfold Bytes.set16
    by_cases hf : a + o ≤ x ∧ x < a + o + 2
    · rw [if_pos (by omega), if_pos hf]
      congr 1
      omega
    · rw [if_neg (by omega), if_neg hf, h _ (by omega)]
      congr 1
      omega
  · rw [Bytes.blit_apply_of_outside (by omega), Bytes.set16_apply_of_outside (by omega)]

/-- A half word that is stored where it was read. -/
lemma set16_get16 (m : Bytes) (a : Nat) : m.set16 a (m.get16 a) = m := by
  funext x
  unfold Bytes.set16 Bytes.get16 Bytes.byteOf
  have h0 := (m a).toNat_lt
  have h1 := (m (a + 1)).toNat_lt
  split
  · apply UInt8.toNat_inj.mp
    rw [UInt8.toNat_ofNat']
    rcases (by omega : x = a ∨ x = a + 1) with rfl | rfl
    · rw [Nat.sub_self, Nat.mul_zero, Nat.pow_zero, Nat.div_one]
      omega
    · rw [Nat.add_sub_cancel_left]
      omega
  · rfl

/-- Writing the block of a directory. -/
lemma IsDir.storeBlock (h : v.IsDir dir b) (buf : Bytes) :
    ((v.dirRead dir b).setStdBuf buf).storeBlock ((v.dirRead dir b).dbp 0) =
      { v.dirRead dir b with
        stdBuf := buf, disk := v.disk.blit (v.geometry.blockByte b) buf 0 v.blockSize } := by
  have hd : writeLBA v.disk (v.block b) v.blockFactor buf =
      v.disk.blit (v.geometry.blockByte b) buf 0 v.blockSize := by
    have hb : lbaByte (v.block b) = v.geometry.blockByte b := blockByte_eq h.layout h.data.1
    unfold writeLBA
    rw [sectors_blockFactor h.layout.supported, hb]
  rw [h.dirRead_dbp, ← hd]
  rfl

/-- `update_inode`, whatever the disk and the buffers hold. -/
lemma updateInode_fields (disk stdBuf stdInode : Bytes) (L : v.geometry.Layout)
    (hi : v.HasInode dir) : ∃ buf,
      ({ v with disk := disk, stdBuf := stdBuf, stdInode := stdInode } : Volume).updateInode dir =
        { v with
          disk := disk.blit (v.inodeByte dir) stdInode 0 128
          stdBuf := buf, stdInode := stdInode } :=
  updateInode_inode (v := { v with disk := disk, stdBuf := stdBuf, stdInode := stdInode }) L hi

/-- Writing back the inode of a directory whose `hard_links` has changed. -/
lemma IsDir.updateLinks (h : v.IsDir dir b) (buf : Bytes) (n : Nat) : ∃ buf' inode',
    ({ v.dirRead dir b with
      stdBuf := buf, disk := v.disk.blit (v.geometry.blockByte b) buf 0 v.blockSize
      stdInode := (v.dirRead dir b).stdInode.set16 26 n } : Volume).updateInode dir =
      { v with disk := v.dirDisk dir b buf n, stdBuf := buf', stdInode := inode' } := by
  rcases updateInode_fields (v.disk.blit (v.geometry.blockByte b) buf 0 v.blockSize) buf
    ((v.dirRead dir b).stdInode.set16 26 n) h.layout h.inode with
    ⟨buf', hupd⟩
  refine ⟨buf', (v.dirRead dir b).stdInode.set16 26 n, ?_⟩
  have hdisk : (v.disk.blit (v.geometry.blockByte b) buf 0 v.blockSize).blit (v.inodeByte dir)
      ((v.dirRead dir b).stdInode.set16 26 n) 0 128 = v.dirDisk dir b buf n := by
    refine blit_set16 (by omega) fun x hx => ?_
    have hap := data_apart h.layout h.data h.inode
    rw [dirRead_stdInode hx, Bytes.blit_apply_of_outside (by omega)]
  rw [← hdisk]
  exact hupd

/-- The links of a directory after an entry of the given type has been added. -/
def linksAdded (type : UInt8) (links : Nat) : Nat :=
  if type &&& FILE_DIR ≠ 0 then (links + 1) % 2 ^ 16 else links

/-- The links of a directory after an entry of the given type has been removed. -/
def linksRemoved (type : UInt8) (links : Nat) : Nat :=
  if type &&& FILE_DIR ≠ 0 then (links + 2 ^ 16 - 1) % 2 ^ 16 else links

/-- Writing back a directory block leaves the inode alone. -/
lemma IsDir.dirDisk_same (h : v.IsDir dir b) (buf : Bytes) :
    v.dirDisk dir b buf (v.diskLinks dir) =
      v.disk.blit (v.geometry.blockByte b) buf 0 v.blockSize := by
  have hap := data_apart h.layout h.data h.inode
  have hg : v.diskLinks dir =
      (v.disk.blit (v.geometry.blockByte b) buf 0 v.blockSize).get16 (v.inodeByte dir + 26) :=
    (Bytes.get16_congr fun x h1 h2 => Bytes.blit_apply_of_outside (by omega)).symm
  unfold dirDisk
  rw [hg, set16_get16]

/-- The end of `add_file`. -/
lemma IsDir.storeDir (h : v.IsDir dir b) (type : UInt8) (buf : Bytes) : ∃ buf' inode',
    (v.dirRead dir b).storeDir dir type buf =
      { v with
        disk := v.dirDisk dir b buf (linksAdded type (v.diskLinks dir))
        stdBuf := buf', stdInode := inode' } := by
  unfold Volume.storeDir linksAdded
  rw [h.storeBlock]
  dsimp only
  split
  · rw [dirRead_links]
    exact h.updateLinks buf _
  · rw [h.dirDisk_same]
    exact ⟨_, _, rfl⟩

/-- The end of `remove_file`. -/
lemma IsDir.unlinkEntry (h : v.IsDir dir b) (prec entry : Nat) : ∃ buf' inode',
    (v.dirRead dir b).unlinkEntry dir prec entry =
      { v with
        disk := v.dirDisk dir b (mergedBlock (v.dirRead dir b).stdBuf prec entry)
          (linksRemoved (fileType (mergedBlock (v.dirRead dir b).stdBuf prec entry) entry)
            (v.diskLinks dir))
        stdBuf := buf', stdInode := inode' } := by
  unfold Volume.unlinkEntry linksRemoved
  dsimp only
  rw [show (v.dirRead dir b).stdBuf.set16 (prec + 4) ((entrySize (v.dirRead dir b).stdBuf prec +
    entrySize (v.dirRead dir b).stdBuf entry) % 2 ^ 16) =
      mergedBlock (v.dirRead dir b).stdBuf prec entry from rfl, h.storeBlock]
  generalize mergedBlock (v.dirRead dir b).stdBuf prec entry = buf
  dsimp only
  split
  · rw [dirRead_links]
    exact h.updateLinks buf _
  · rw [h.dirDisk_same]
    exact ⟨_, _, rfl⟩

/-- A directory whose block has been written is still one; a read finds what was written. -/
lemma IsDir.stored (h : v.IsDir dir b) {v' : Volume} {buf : Bytes} {links : Nat}
    (hs : v'.spb = v.spb) (hb : v'.bgpt = v.bgpt) (hd : v'.disk = v.dirDisk dir b buf links) :
    v'.IsDir dir b ∧ (links < 2 ^ 16 → v'.diskLinks dir = links) ∧
      ∀ x, x < v.blockSize → (v'.dirRead dir b).stdBuf x = buf x := by
  have hg := geometry_congr hs hb
  have hbyte : v'.inodeByte dir = v.inodeByte dir := by
    unfold inodeByte inodeGroup inodeIndex inodeTableAddress
    rw [hg, hs, hb]
  have hbs : v'.blockSize = v.blockSize := by
    unfold blockSize
    rw [hs]
  have hap := data_apart h.layout h.data h.inode
  refine ⟨⟨hg.symm ▸ h.layout, ?_, ?_, hg.symm ▸ h.data⟩, fun hl => ?_, fun x hx => ?_⟩
  · have := h.inode
    unfold HasInode at this ⊢
    rwa [hg, hs]
  · rw [← h.block]
    unfold diskDbp
    rw [hbyte, hd]
    unfold dirDisk
    rw [Bytes.get32_set16_of_disjoint (by omega)]
    exact Bytes.get32_congr fun x h1 h2 => Bytes.blit_apply_of_outside (by omega)
  · unfold diskLinks
    rw [hbyte, hd]
    exact Bytes.get16_set16 hl
  · rw [dirRead_stdBuf (hbs ▸ hx), hg, hd]
    unfold dirDisk
    rw [Bytes.set16_apply_of_outside (by omega), Bytes.blit_apply_of_inside (by omega), Nat.zero_add,
      Nat.add_sub_cancel_left]

/-! ## `add_file` -/

variable {inode e : Nat} {type : UInt8} {name : List UInt8} {ps : List Nat}

lemma IsDir.ne_zero (h : v.IsDir dir b) : dir ≠ 0 := by
  have := h.inode.1
  omega

variable (type) in
/-- `add_file` looks through the whole directory for the name, and then for room behind the last
entry. -/
lemma IsDir.addFile (h : v.IsDir dir b) (hi : inode ≠ 0) (hn : NewName name)
    (ht : Tiled (v.dirRead dir b).stdBuf v.blockSize 0 (ps ++ [e])) :
    v.addFile dir inode type name =
      if ∃ p ∈ ps ++ [e], nameMatches (v.dirRead dir b).stdBuf p name = true then
        some (v.dirRead dir b, 1)
      else (v.dirRead dir b).addEntry dir inode type name e v.blockSize := by
  have hlen : ¬ name.length / 2 ^ 8 ≠ 0 := by
    have := hn.length_lt
    omega
  unfold Volume.addFile
  rw [if_neg h.ne_zero, if_neg hi, if_neg hlen, if_neg hn.no_dash, if_neg hn.no_slash, h.readDir,
    Option.bind_eq_bind, Option.bind_some]
  have hbs : (v.dirRead dir b).blockSize = v.blockSize := rfl
  rw [hbs]
  generalize v.dirRead dir b = w at *
  have hsearch : ∃ p qs, ps ++ [e] = p :: qs ∧ p = 0 := by
    cases ps with
    | nil => exact ⟨e, [], rfl, ht.1⟩
    | cons p ps => exact ⟨p, ps ++ [e], rfl, ht.1⟩
  rcases hsearch with ⟨p, qs, hqs, rfl⟩
  have hroom := findRoom_tiled (a := name) (n := v.blockSize + 2) (hqs ▸ ht) (by omega)
  rw [Nat.zero_add] at hroom
  by_cases hm : ∃ p ∈ ps ++ [e], nameMatches w.stdBuf p name = true
  · rw [if_pos hm]
    rw [hqs, List.exists_mem_cons_iff] at hm
    split
    · rfl
    · rename_i h0
      rw [hroom.mpr (hm.resolve_left h0)]
      rfl
  · rw [if_neg hm]
    have hno : ∀ q ∈ ps ++ [e], nameMatches w.stdBuf q name = false := fun q hq =>
      Bool.eq_false_iff.mpr fun hq' => hm ⟨q, hq, hq'⟩
    have hlast := findRoom_last (n := v.blockSize + 2) ht hno (by omega)
    rw [Nat.zero_add] at hlast
    rw [if_neg (by rw [hno 0 (hqs ▸ List.mem_cons_self)]; exact Bool.false_ne_true), hlast,
      Option.bind_eq_bind, Option.bind_some]

/-- `add_file` where the new entry fits behind the last one. -/
lemma addEntry_fits {w : Volume} (hend : e + entrySize w.stdBuf e = w.blockSize)
    (hb : w.blockSize < 2 ^ 32)
    (hroom : e + naturalSize (nameLength w.stdBuf e) + DIR_ENTRY + name.length ≤ w.blockSize) :
    w.addEntry dir inode type name e w.blockSize =
      some (w.storeDir dir type (addedBlock w.stdBuf e inode type name w.blockSize), 0) := by
  have h16 : entrySize w.stdBuf e < 2 ^ 16 := Bytes.get16_lt _ _
  unfold addEntry addedBlock
  dsimp only
  generalize naturalSize (nameLength w.stdBuf e) = r at *
  unfold DIR_ENTRY at hroom
  have hsum : add32 (sub32 w.blockSize (entrySize w.stdBuf e)) r = e + r := by
    rw [sub32_of_le (by omega) hb, add32_of_lt (by omega)]
    omega
  rw [hsum, sub32_of_le (by omega) hb, Nat.mod_eq_of_lt (by omega), if_neg]
  unfold DIR_ENTRY
  omega

end Volume

end MarioBrOS.Fs
