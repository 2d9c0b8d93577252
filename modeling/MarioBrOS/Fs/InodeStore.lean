import MarioBrOS.Fs.InodeTable

/-!
# The store of the inodes

`set_inode` addresses an inode by its sector and the offset in it, counted from the start of the
table of its group; `update_inode` by its block and the offset there, and it writes the whole block
back. Both end up at the same 128 bytes, which are those of no other inode.
-/

namespace MarioBrOS.Fs

namespace Volume

variable {v : Volume} {i j k l : Nat} {x : Bytes}

/-- The number of blocks of an inode table. -/
def tableBlocks (v : Volume) : Nat := 128 * v.spb.inodePerGroup / v.blockSize

/-- A volume whose inode tables are whole blocks, within reach of the driver and apart from each
other. The bitmap of the inodes of a group is a block. -/
structure InodeTables (v : Volume) : Prop where
  supported : v.spb.blockSize ≤ 7
  inodePerGroup_pos : 0 < v.spb.inodePerGroup
  inodePerGroup_le : v.spb.inodePerGroup ≤ 8 * v.blockSize
  whole : v.blockSize ∣ 128 * v.spb.inodePerGroup
  reach : ∀ k, k < v.geometry.groups →
    v.blockFactor * (v.inodeTableAddress k + v.tableBlocks) + 0x800 ≤ 2 ^ 28
  apart : ∀ k l, k < v.geometry.groups → l < v.geometry.groups → k ≠ l →
    v.inodeTableAddress k + v.tableBlocks ≤ v.inodeTableAddress l ∨
      v.inodeTableAddress l + v.tableBlocks ≤ v.inodeTableAddress k

/-- A valid inode number. -/
def ValidInode (v : Volume) (i : Nat) : Prop := v.HasInode i ∧ i < 2 ^ 32

/-- The 128 bytes of inode `i`. -/
def InSlot (v : Volume) (i a : Nat) : Prop := v.inodeByte i ≤ a ∧ a < v.inodeByte i + 128

/-- An inode is a position in a group. -/
lemma inode_ext (hi : v.ValidInode i) (hj : v.ValidInode j) (hg : v.inodeGroup i = v.inodeGroup j)
    (hx : v.inodeIndex i = v.inodeIndex j) : i = j := by
  obtain ⟨⟨h1, _⟩, hi⟩ := hi
  obtain ⟨⟨h2, _⟩, hj⟩ := hj
  unfold inodeGroup at hg
  unfold inodeIndex at hx
  rw [sub32_of_le h1 hi, sub32_of_le h2 hj] at hg hx
  have e1 := Nat.div_add_mod (i - 1) v.spb.inodePerGroup
  have e2 := Nat.div_add_mod (j - 1) v.spb.inodePerGroup
  rw [hg, hx, e2] at e1
  omega

namespace InodeTables

variable (T : v.InodeTables)
include T

lemma index_lt : v.inodeIndex i < v.spb.inodePerGroup := Nat.mod_lt _ T.inodePerGroup_pos

lemma group_lt (hi : v.ValidInode i) : v.inodeGroup i < v.geometry.groups := by
  obtain ⟨⟨h0, hle⟩, h32⟩ := hi
  unfold inodeGroup
  rw [sub32_of_le h0 h32, Nat.div_lt_iff_lt_mul T.inodePerGroup_pos]
  omega

/-- The table takes up its blocks. -/
lemma table_bytes : v.blockSize * v.tableBlocks = 128 * v.spb.inodePerGroup :=
  Nat.mul_div_cancel' T.whole

lemma inodeReach (hi : v.ValidInode i) : v.InodeReach i := by
  have hx := T.index_lt (i := i)
  have hp := T.inodePerGroup_le
  have hb := blockSize_le T.supported
  refine ⟨T.supported, by omega, ?_⟩
  have hin : 128 * v.inodeIndex i / v.blockSize < v.tableBlocks := by
    rw [Nat.div_lt_iff_lt_mul v.blockSize_pos, Nat.mul_comm v.tableBlocks, T.table_bytes]
    omega
  have hm : v.blockFactor * (v.inodeBlock i + 1) ≤
      v.blockFactor * (v.inodeTableAddress (v.inodeGroup i) + v.tableBlocks) := by
    refine Nat.mul_le_mul_left _ ?_
    unfold inodeBlock
    omega
  have hr := T.reach _ (T.group_lt hi)
  omega

/-- Different inodes have no byte in common. -/
lemma slots_apart (hi : v.ValidInode i) (hj : v.ValidInode j) (hne : i ≠ j) :
    v.inodeByte i + 128 ≤ v.inodeByte j ∨ v.inodeByte j + 128 ≤ v.inodeByte i := by
  have hx := T.index_lt (i := i)
  have hy := T.index_lt (i := j)
  by_cases hg : v.inodeGroup i = v.inodeGroup j
  · have hxy : v.inodeIndex i ≠ v.inodeIndex j := fun e => hne (inode_ext hi hj hg e)
    unfold inodeByte
    rw [hg]
    omega
  · have htable := T.table_bytes
    have key : ∀ k l, v.inodeTableAddress k + v.tableBlocks ≤ v.inodeTableAddress l →
        v.geometry.blockByte (v.inodeTableAddress k) + 128 * v.spb.inodePerGroup ≤
          v.geometry.blockByte (v.inodeTableAddress l) := by
      intro k l hkl
      have hm := Nat.mul_le_mul_left v.blockSize hkl
      rw [Nat.mul_add, htable] at hm
      unfold Geometry.blockByte
      rw [geometry_bytes]
      omega
    unfold inodeByte
    obtain h | h := T.apart _ _ (T.group_lt hi) (T.group_lt hj) hg
    · have := key _ _ h
      omega
    · have := key _ _ h
      omega

end InodeTables

/-- The volumes of `Layout` have such tables, if those are whole blocks. -/
lemma inodeTables (L : v.geometry.Layout) (h : v.blockSize ∣ 128 * v.spb.inodePerGroup) :
    v.InodeTables := by
  have hlen : ∀ k, v.tableBlocks ≤ v.geometry.length (.inodeTable k) := by
    intro k
    show 128 * v.spb.inodePerGroup / v.blockSize ≤
      (v.spb.inodePerGroup * 128 + v.blockSize - 1) / v.blockSize
    exact Nat.div_le_div_right (by have := v.blockSize_pos; omega)
  refine ⟨L.supported, L.inodePerGroup_pos, L.inodePerGroup_le, h, fun k hk => ?_,
    fun k l hk hl hne => ?_⟩
  · have hin : v.inodeTableAddress k + v.geometry.length (.inodeTable k) ≤ v.spb.blockNum :=
      L.inside (.inodeTable k) hk
    have hr : v.blockFactor * v.spb.blockNum + 0x800 ≤ 2 ^ 28 := L.reach
    have hm := Nat.mul_le_mul_left v.blockFactor (Nat.add_le_add_left (hlen k) _ |>.trans hin)
    omega
  · by_contra hover
    have hk' := hlen k
    have hl' := hlen l
    have hne' : Region.inodeTable k ≠ .inodeTable l := fun e => hne (Region.inodeTable.inj e)
    refine L.apart (.inodeTable k) (.inodeTable l) hk hl hne'
      (max (v.inodeTableAddress k) (v.inodeTableAddress l)) ⟨?_, ?_⟩
    · refine ⟨Nat.le_max_left .., ?_⟩
      show _ < v.inodeTableAddress k + v.geometry.length (.inodeTable k)
      omega
    · refine ⟨Nat.le_max_right .., ?_⟩
      show _ < v.inodeTableAddress l + v.geometry.length (.inodeTable l)
      omega

/-- What is said of `update_inode(i, x)`, which leaves the volume `w`: `set_inode` reads `x` from
`i`, and what it read before from the others; and only the bytes of `i` change. -/
structure StoresInode (v : Volume) (i : Nat) (x : Bytes) (w : Volume) : Prop where
  same : ∀ buffer : Bytes, ∃ u, ({ w with stdInode := buffer } : Volume).setInode i = some u ∧
    ∀ a, a < 128 → u.stdInode a = x a
  other : ∀ j, v.ValidInode j → j ≠ i → ∀ buffer : Bytes, ∃ u u',
    ({ v with stdInode := buffer } : Volume).setInode j = some u ∧
      ({ w with stdInode := buffer } : Volume).setInode j = some u' ∧ u'.stdInode = u.stdInode
  outside : ∀ a, ¬ v.InSlot i a → w.disk a = v.disk a

/-- What is copied out again from where it was copied in. -/
lemma blit_back (buffer disk x : Bytes) (s : Nat) {a n : Nat} (ha : a < n) :
    buffer.blit 0 (disk.blit s x 0 n) s n a = x a := by
  rw [Bytes.blit_apply_of_inside ⟨Nat.zero_le a, by omega⟩, Nat.sub_zero,
    Bytes.blit_apply_of_inside ⟨Nat.le_add_right .., by omega⟩, Nat.add_sub_cancel_left,
    Nat.zero_add]

/-- What is copied out from elsewhere. -/
lemma blit_elsewhere (buffer disk x : Bytes) {s t n : Nat} (h : s + n ≤ t ∨ t + n ≤ s) :
    buffer.blit 0 (disk.blit s x 0 n) t n = buffer.blit 0 disk t n := by
  funext a
  by_cases ha : a < n
  · have hin : 0 ≤ a ∧ a < 0 + n := ⟨Nat.zero_le a, by omega⟩
    rw [Bytes.blit_apply_of_inside hin, Bytes.blit_apply_of_inside hin,
      Bytes.blit_apply_of_outside (by omega)]
  · rw [Bytes.blit_apply_of_outside (by omega), Bytes.blit_apply_of_outside (by omega)]

/-- Whether an inode is within reach does not depend on the contents of the disk. -/
lemma InodeReach.congr {w : Volume} (R : v.InodeReach i) (h : w.geometry = v.geometry) :
    w.InodeReach i := by
  have hs : w.spb.blockSize = v.spb.blockSize := congrArg Geometry.blockSize h
  have hp : w.spb.inodePerGroup = v.spb.inodePerGroup := congrArg Geometry.inodePerGroup h
  have ht : w.inodeTableAddress = v.inodeTableAddress := congrArg Geometry.inodeTable h
  have hx : w.inodeIndex i = v.inodeIndex i := by
    unfold inodeIndex
    rw [hp]
  have hf : w.blockFactor = v.blockFactor := by
    unfold blockFactor
    rw [hs]
  have hb : w.inodeBlock i = v.inodeBlock i := by
    unfold inodeBlock inodeGroup
    rw [hp, ht, hx, blockSize_congr h]
  exact ⟨hs ▸ R.supported, hx ▸ R.offset, by rw [hf, hb]; exact R.reach⟩

/-- `set_inode` into a buffer. -/
lemma setInode_buffer {w : Volume} (T : v.InodeTables) (hi : v.ValidInode i)
    (h : w.geometry = v.geometry) (buffer : Bytes) :
    ∃ u, ({ w with stdInode := buffer } : Volume).setInode i = some u ∧
      u.stdInode = buffer.blit 0 w.disk (v.inodeByte i) 128 := by
  generalize ht : ({ w with stdInode := buffer } : Volume) = t
  have hg : t.geometry = v.geometry := by
    rw [← ht]
    exact (geometry_congr rfl rfl).trans h
  refine ⟨_, ((T.inodeReach hi).congr hg).setInode, ?_⟩
  rw [inodeByte_congr hg, ← ht]

/-- **Inode store.** On every volume with such tables, `update_inode` stores an inode and nothing
else. -/
theorem inode_store (v : Volume) (T : v.InodeTables) (i : Nat) (hi : v.ValidInode i) (x : Bytes) :
    StoresInode v i x (({ v with stdInode := x } : Volume).updateInode i) := by
  have hg : ({ v with stdInode := x } : Volume).geometry = v.geometry := geometry_congr rfl rfl
  obtain ⟨buf, hw⟩ := ((T.inodeReach hi).congr hg).updateInode
  rw [inodeByte_congr hg] at hw
  generalize ({ v with stdInode := x } : Volume).updateInode i = w at hw
  have hgw : w.geometry = v.geometry := by
    rw [hw]
    exact geometry_congr rfl rfl
  have hd : w.disk = v.disk.blit (v.inodeByte i) x 0 128 := by rw [hw]
  refine ⟨fun buffer => ?_, fun j hj hne buffer => ?_, fun a ha => ?_⟩
  · obtain ⟨u, hu, e⟩ := setInode_buffer T hi hgw buffer
    refine ⟨u, hu, fun a ha => ?_⟩
    rw [e, hd]
    exact blit_back _ _ _ _ ha
  · obtain ⟨u, hu, e⟩ := setInode_buffer T hj rfl buffer
    obtain ⟨u', hu', e'⟩ := setInode_buffer T hj hgw buffer
    refine ⟨u, u', hu, hu', ?_⟩
    rw [e, e', hd]
    exact blit_elsewhere _ _ _ (T.slots_apart hi hj hne.symm)
  · unfold InSlot at ha
    rw [hd]
    exact Bytes.blit_apply_of_outside (by omega)

/-- Inode 40 lies in the second group. -/
theorem inode_store_sample :
    StoresInode (sampleVolume (fun _ _ => 0) (fun _ => 0) 0 0 65) 40 (fun a => UInt8.ofNat a)
      (({ sampleVolume (fun _ _ => 0) (fun _ => 0) 0 0 65 with stdInode := fun a => UInt8.ofNat a } :
        Volume).updateInode 40) := by
  have hg := sampleVolume_geometry (fun _ _ => 0) (fun _ => 0) 0 0 65
  refine inode_store _ (inodeTables (hg ▸ sampleGeometry_layout) ⟨4, rfl⟩) 40 ⟨?_, by decide⟩ _
  unfold HasInode
  rw [hg, sampleGeometry_groups]
  decide

end Volume

end MarioBrOS.Fs
