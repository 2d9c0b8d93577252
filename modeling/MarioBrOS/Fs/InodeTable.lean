import MarioBrOS.Fs.BlockMap
import MarioBrOS.Fs.InodeRun

/-!
# Inodes on the disk

An inode is 128 bytes of the table of its group. `set_inode` copies them to `std_inode` and
`update_inode` copies them back; neither reaches another inode or a data block. The fields of an
inode are read off its bytes on the disk, so what a function leaves of them is what a later
`set_inode` finds.
-/

namespace MarioBrOS.Fs

namespace Volume

variable (v : Volume)

/-- The block in which inode `i` lies. -/
def inodeBlock (i : Nat) : Nat :=
  v.inodeTableAddress (v.inodeGroup i) + 128 * v.inodeIndex i / v.blockSize

/-- The first byte of inode `i`. -/
def inodeByte (i : Nat) : Nat :=
  v.geometry.blockByte (v.inodeTableAddress (v.inodeGroup i)) + 128 * v.inodeIndex i

/-- `dbp[k]` of inode `i`, on the disk. -/
def diskDbp (i k : Nat) : Nat := v.disk.get32 (v.inodeByte i + (40 + 4 * k))

/-- `size_low` of inode `i`, on the disk. -/
def diskSize (i : Nat) : Nat := v.disk.get32 (v.inodeByte i + 4)

/-- `hard_links` of inode `i`, on the disk. -/
def diskLinks (i : Nat) : Nat := v.disk.get16 (v.inodeByte i + 26)

variable {v} {i j k n x : Nat}

/-- Inodes do not straddle blocks. -/
lemma inodeByte_eq : v.inodeByte i = v.geometry.blockByte (v.inodeBlock i) +
    128 * v.inodeIndex i % v.blockSize := by
  have h := Nat.div_add_mod (128 * v.inodeIndex i) v.blockSize
  unfold inodeByte inodeBlock Geometry.blockByte
  rw [geometry_bytes, Nat.mul_add]
  omega

/-- Where things lie depends on the fixed data of the volume. -/
lemma blockSize_congr {w : Volume} (h : w.geometry = v.geometry) : w.blockSize = v.blockSize :=
  congrArg Geometry.bytes h

lemma inodeByte_congr {w : Volume} (h : w.geometry = v.geometry) :
    w.inodeByte i = v.inodeByte i :=
  congrArg (fun g : Geometry => g.blockByte (g.inodeTable (sub32 i 1 / g.inodePerGroup)) +
    128 * (sub32 i 1 % g.inodePerGroup)) h

lemma HasInode.congr {w : Volume} (hi : v.HasInode i) (h : w.geometry = v.geometry) :
    w.HasInode i := by
  have e : w.geometry.groups * w.geometry.inodePerGroup =
      v.geometry.groups * v.geometry.inodePerGroup := by rw [h]
  exact ⟨hi.1, hi.2.trans_eq e.symm⟩

lemma dvd_blockSize : 128 ∣ v.blockSize := ⟨8 * 2 ^ v.spb.blockSize, by unfold blockSize; omega⟩

lemma inodeByte_room : 128 * v.inodeIndex i % v.blockSize + 128 ≤ v.blockSize := by
  have hlt := Nat.mod_lt (128 * v.inodeIndex i) v.blockSize_pos
  rcases v.dvd_blockSize with ⟨c, hc⟩
  have hm : 128 * v.inodeIndex i % v.blockSize = 128 * (v.inodeIndex i % c) := by
    rw [hc, Nat.mul_mod_mul_left]
  rw [hm, hc] at hlt ⊢
  have := Nat.lt_of_mul_lt_mul_left hlt
  omega

/-- The bytes of an inode lie in its block. -/
lemma inBlock_inode (hx : x < 128) : v.geometry.InBlock (v.inodeBlock i) (v.inodeByte i + x) := by
  have h := inodeByte_room (v := v) (i := i)
  unfold Geometry.InBlock
  rw [inodeByte_eq, geometry_bytes]
  omega

/-- The block of an inode belongs to the inode table of its group. -/
lemma inodeBlock_inRegion (L : v.geometry.Layout) :
    v.geometry.InRegion (.inodeTable (v.inodeGroup i)) (v.inodeBlock i) := by
  have hi := inodeIndex_lt L i
  refine ⟨Nat.le_add_right _ _, Nat.add_lt_add_left ?_ _⟩
  show _ < (v.spb.inodePerGroup * 128 + v.blockSize - 1) / v.blockSize
  have hp := v.blockSize_pos
  rw [Nat.div_lt_iff_lt_mul hp]
  have h := Nat.div_add_mod (v.spb.inodePerGroup * 128 + v.blockSize - 1) v.blockSize
  have hm := Nat.mod_lt (v.spb.inodePerGroup * 128 + v.blockSize - 1) hp
  rw [Nat.mul_comm] at h
  omega

lemma inodeBlock_lt (L : v.geometry.Layout) (h : v.HasInode i) :
    v.inodeBlock i < v.spb.blockNum := by
  have hr := inodeBlock_inRegion (i := i) L
  exact hr.2.trans_le (L.inside (.inodeTable _) (h.group_lt L))

/-- Different inodes have no byte in common. -/
lemma inodeByte_apart (L : v.geometry.Layout) (hi : v.HasInode i) (hj : v.HasInode j)
    (hne : i ≠ j) : v.inodeByte i + 128 ≤ v.inodeByte j ∨ v.inodeByte j + 128 ≤ v.inodeByte i := by
  by_cases hg : v.inodeGroup i = v.inodeGroup j
  · have hx : v.inodeIndex i ≠ v.inodeIndex j := fun e => hne (inode_eq L hi hj hg e)
    unfold inodeByte
    rw [hg]
    omega
  · by_contra hover
    -- a common byte would lie in the tables of two groups
    have hcommon : ∃ x y, x < 128 ∧ y < 128 ∧ v.inodeByte i + x = v.inodeByte j + y := by
      by_cases h : v.inodeByte i ≤ v.inodeByte j
      · exact ⟨v.inodeByte j - v.inodeByte i, 0, by omega, by omega, by omega⟩
      · exact ⟨0, v.inodeByte i - v.inodeByte j, by omega, by omega, by omega⟩
    rcases hcommon with ⟨x, y, hx, hy, e⟩
    have hb : v.inodeBlock i = v.inodeBlock j :=
      Geometry.inBlock_unique (inBlock_inode hx) (e ▸ inBlock_inode hy)
    have hr : Region.inodeTable _ = Region.inodeTable _ := L.region_unique (hi.group_lt L)
      (hj.group_lt L) (inodeBlock_inRegion L) (hb ▸ inodeBlock_inRegion L)
    exact hg (Region.inodeTable.inj hr)

/-- A data block and an inode have no byte in common. -/
lemma data_apart (L : v.geometry.Layout) (hn : v.geometry.IsData n) (hi : v.HasInode i) :
    v.geometry.blockByte n + v.blockSize ≤ v.inodeByte i ∨
      v.inodeByte i + 128 ≤ v.geometry.blockByte n := by
  by_contra hover
  have hp : 128 ≤ v.blockSize := Nat.le_of_dvd v.blockSize_pos dvd_blockSize
  have hcommon : ∃ x, x < 128 ∧ v.geometry.InBlock n (v.inodeByte i + x) := by
    unfold Geometry.InBlock
    rw [geometry_bytes]
    by_cases h : v.geometry.blockByte n ≤ v.inodeByte i
    · exact ⟨0, by omega, by omega⟩
    · exact ⟨v.geometry.blockByte n - v.inodeByte i, by omega, by omega⟩
  rcases hcommon with ⟨x, hx, hb⟩
  have hr := inodeBlock_inRegion (i := i) L
  rw [← Geometry.inBlock_unique hb (inBlock_inode hx)] at hr
  exact hn.2 (.inodeTable _) (hi.group_lt L) hr

/-- The offset of an inode in its table is a 32-bit number. -/
lemma inodeOffset_lt (L : v.geometry.Layout) : v.inodeIndex i * 128 < 2 ^ 32 := by
  have hi := inodeIndex_lt L i
  have hp : v.spb.inodePerGroup ≤ 8 * v.blockSize := L.inodePerGroup_le
  have hs := blockSize_le L.supported
  omega

/-- The block of inode `i` is within reach of the driver. -/
structure InodeReach (v : Volume) (i : Nat) : Prop where
  supported : v.spb.blockSize ≤ 7
  offset : v.inodeIndex i * 128 < 2 ^ 32
  reach : v.blockFactor * (v.inodeBlock i + 1) + 0x800 ≤ 2 ^ 28

/-- The inodes of a volume are. -/
lemma inodeReach (L : v.geometry.Layout) (hi : v.HasInode i) : v.InodeReach i :=
  ⟨L.supported, inodeOffset_lt L, reach_of_lt L (inodeBlock_lt L hi)⟩

/-- `set_inode` copies the bytes of the inode. -/
lemma InodeReach.setInode (R : v.InodeReach i) :
    v.setInode i = some { v with stdInode := v.stdInode.blit 0 v.disk (v.inodeByte i) 128 } := by
  have hr := R.reach
  have hp := v.blockFactor_pos
  have ht : v.blockFactor * v.inodeTableAddress (v.inodeGroup i) ≤
      v.blockFactor * v.inodeBlock i := Nat.mul_le_mul_left _ (Nat.le_add_right _ _)
  rw [Nat.mul_succ] at hr
  have hbyte : lbaByte (v.block (v.inodeTableAddress (v.inodeGroup i))) =
      v.geometry.blockByte (v.inodeTableAddress (v.inodeGroup i)) :=
    blockByte_of_reach (by omega)
  have hsector : v.blockFactor * v.inodeTableAddress (v.inodeGroup i) +
      v.inodeIndex i * 128 / 512 < v.blockFactor * v.inodeBlock i + v.blockFactor := by
    have h1 : v.inodeIndex i * 128 / 512 < v.blockFactor *
        (128 * v.inodeIndex i / v.blockSize + 1) := by
      refine Nat.div_lt_of_lt_mul ?_
      rw [← Nat.mul_assoc, ← blockSize_eq, Nat.mul_comm (v.inodeIndex i)]
      exact Nat.lt_mul_div_succ _ v.blockSize_pos
    rw [Nat.mul_succ v.blockFactor] at h1
    unfold inodeBlock
    rw [Nat.mul_add]
    omega
  unfold Volume.setInode
  rw [Nat.mod_eq_of_lt R.offset]
  have hblock : v.block (v.inodeTableAddress (v.inodeGroup i)) ≤
      v.blockFactor * v.inodeTableAddress (v.inodeGroup i) := Nat.mod_le _ _
  rw [readPio_eq (by omega) (by omega), hbyte, Option.map_some, Nat.mul_comm (v.inodeIndex i)]
  rfl

lemma setInode_inode (L : v.geometry.Layout) (hi : v.HasInode i) :
    v.setInode i = some { v with stdInode := v.stdInode.blit 0 v.disk (v.inodeByte i) 128 } :=
  (inodeReach L hi).setInode

/-- Loading an inode leaves the layout and the disk. -/
lemma setInode_kept {w : Volume} (hw : v.setInode i = some w) :
    w.geometry = v.geometry ∧ w.disk = v.disk := by
  have h := setInode_eq hw
  rw [h]
  exact ⟨geometry_congr rfl rfl, rfl⟩

/-- A word of an inode just loaded. -/
lemma setInode_word {w : Volume} (L : v.geometry.Layout) (hi : v.HasInode i)
    (hw : v.setInode i = some w) (hn : n + 4 ≤ 128) :
    w.stdInode.get32 n = v.disk.get32 (v.inodeByte i + n) := by
  rw [setInode_inode L hi] at hw
  cases hw
  have h := Bytes.get32_blit_of_inside (m := v.stdInode) (b := v.disk) (d := 0)
    (s := v.inodeByte i) hn
  rwa [Nat.zero_add] at h

/-- An update only depends on the block it falls into and the offset there. -/
lemma updateBlock_normal {buffer : Bytes} {start ofs length address address' : Nat}
    (h : add32 address (v.blockFactor * (ofs / v.blockSize) % 2 ^ 32) = address')
    (h' : address' < 2 ^ 32) : v.updateBlock buffer start ofs length address =
      v.updateBlock buffer start (ofs % v.blockSize) length address' := by
  have hself : add32 address' (v.blockFactor * (ofs % v.blockSize / v.blockSize) % 2 ^ 32) =
      address' := by
    rw [Nat.div_eq_of_lt (Nat.mod_lt _ v.blockSize_pos), Nat.mul_zero, Nat.zero_mod,
      add32_of_lt h', Nat.add_zero]
  unfold updateBlock
  rw [h, hself]
  dsimp only
  rw [Nat.mod_mod]

/-- `update_inode` copies them back. -/
lemma InodeReach.updateInode (R : v.InodeReach i) :
    ∃ buf, v.updateInode i =
      { v with stdBuf := buf, disk := v.disk.blit (v.inodeByte i) v.stdInode 0 128 } := by
  have hr := R.reach
  have hp := v.blockFactor_pos
  rw [Nat.mul_succ] at hr
  have hbyte : lbaByte (v.block (v.inodeBlock i)) = v.geometry.blockByte (v.inodeBlock i) :=
    blockByte_of_reach (by omega)
  have haddr : add32 (v.block (v.inodeTableAddress (v.inodeGroup i)))
      (v.blockFactor * (128 * v.inodeIndex i / v.blockSize) % 2 ^ 32) =
        v.block (v.inodeBlock i) := by
    unfold add32 block inodeBlock
    rw [← Nat.add_mod, Nat.mul_add]
  have hmove : v.updateInode i = v.updateBlock v.stdInode 0
      (128 * v.inodeIndex i % v.blockSize) 128 (v.block (v.inodeBlock i)) := by
    unfold Volume.updateInode
    rw [Nat.mod_eq_of_lt R.offset, Nat.mul_comm (v.inodeIndex i)]
    exact updateBlock_normal haddr (v.block_lt _)
  rcases updateBlock_eq R.supported v.stdInode 0 (v.block_lt (v.inodeBlock i))
    (Nat.mod_lt _ v.blockSize_pos) inodeByte_room with ⟨buf, hbuf⟩
  refine ⟨buf, ?_⟩
  rw [hmove, hbuf, hbyte, ← inodeByte_eq]

lemma updateInode_inode (L : v.geometry.Layout) (hi : v.HasInode i) :
    ∃ buf, v.updateInode i =
      { v with stdBuf := buf, disk := v.disk.blit (v.inodeByte i) v.stdInode 0 128 } :=
  (inodeReach L hi).updateInode

/-- What `update_inode` changes, field by field. -/
lemma updateInode_spec (L : v.geometry.Layout) (hi : v.HasInode i) :
    (v.updateInode i).geometry = v.geometry ∧ (v.updateInode i).spb = v.spb ∧
      (v.updateInode i).stdInode = v.stdInode ∧
      (v.updateInode i).disk = v.disk.blit (v.inodeByte i) v.stdInode 0 128 := by
  obtain ⟨buf, h⟩ := updateInode_inode L hi
  rw [h]
  exact ⟨geometry_congr rfl rfl, rfl, rfl, rfl⟩

end Volume

end MarioBrOS.Fs
