import MarioBrOS.Fs.FailedWrite
import MarioBrOS.Fs.OneBlockMap

/-!
# Erasing a file

`erase_file_data` is to free the data blocks of a file and the tables that lead to them. It does so
for the blocks that the inode names itself. Behind them it hands a sector number to
`unallocate_block` where it frees a table, and goes on reading entries from `std_buf` after
`unallocate_block` has loaded a bitmap there. `erase_clears` is the first half of this; a file of
thirteen blocks is enough for the second (`FileTree.keeps_table`).
-/

namespace MarioBrOS.Fs

namespace Volume

variable {v u w : Volume} {b c i k n pos : Nat}

/-! ## The tree of an inode -/

/-- The data blocks of the inode in `std_inode`, which has `n` of them. -/
def dataBlocks (v : Volume) (n : Nat) : List Nat :=
  (List.range n).map fun k => v.storedBlock (prepareSlot v.addrPerBlock k)

/-- The tables below `dibp`, or below an entry of `tibp`, that lead to `n` blocks: the one in block
`root` and those it names. -/
def doubleTables (v : Volume) (root n : Nat) : List Nat :=
  let a := v.addrPerBlock
  if n = 0 then [] else root :: (List.range (min a ((n + a - 1) / a))).map (v.entry root)

/-- The tables below `tibp` that lead to `n` blocks. -/
def tripleTables (v : Volume) (root n : Nat) : List Nat :=
  let a := v.addrPerBlock
  if n = 0 then []
  else root :: (List.range ((n + a * a - 1) / (a * a))).flatMap fun i =>
    v.doubleTables (v.entry root i) (n - i * (a * a))

/-- The tables of the inode in `std_inode`, which has `n` data blocks. -/
def treeTables (v : Volume) (n : Nat) : List Nat :=
  let a := v.addrPerBlock
  (if n ≤ 12 then [] else [v.sibp]) ++ v.doubleTables v.dibp (n - 12 - a) ++
    v.tripleTables v.tibp (n - 12 - a - a * a)

/-- The data blocks and the tables of the inode in `std_inode`, which has `n` data blocks. -/
def treeBlocks (v : Volume) (n : Nat) : List Nat := v.dataBlocks n ++ v.treeTables n

/-- Inode `i`, in `std_inode` of `u` once it is loaded, has data, and its data blocks and tables are
different allocated blocks. -/
structure FileTree (v u : Volume) (i : Nat) : Prop where
  layout : v.geometry.Layout
  inode : v.HasInode i
  loaded : v.setInode i = some u
  size : 0 < u.sizeLow
  apart : (u.treeBlocks (v.sizeBlocks u.sizeLow)).Nodup
  allocated : ∀ b ∈ u.treeBlocks (v.sizeBlocks u.sizeLow),
    b < v.spb.blockNum ∧ ¬ v.BlockFree b

/-- `erase_file_data` returns with the size of the file `i` set to 0, and in the block bitmaps the
bits of `blocks` cleared and no other. Since it sets no bit, each is cleared once. -/
def Erases (v : Volume) (i : Nat) (blocks : List Nat) : Prop :=
  ∃ w, v.eraseFileData i = some w ∧ w.diskSize i = 0 ∧
    ∀ k pos, k < v.geometry.groups → pos < 8 * v.blockSize →
      (w.bitmapBit (.blockBitmap k) pos = true ↔ v.bitmapBit (.blockBitmap k) pos = true ∧
        ∀ b ∈ blocks, ¬ (b / v.spb.blockPerGroup = k ∧ b % v.spb.blockPerGroup = pos))

/-! ## Within the direct blocks -/

/-- `unallocate_block` clears the bit of its block and no other. -/
lemma unallocateBlock_bit (L : v.geometry.Layout) (hb : b < v.spb.blockNum)
    (hk : k < v.geometry.groups) (hpos : pos < 8 * v.blockSize) :
    (v.unallocateBlock b).1.bitmapBit (.blockBitmap k) pos = true ↔
      v.bitmapBit (.blockBitmap k) pos = true ∧
        ¬ (b / v.spb.blockPerGroup = k ∧ b % v.spb.blockPerGroup = pos) := by
  obtain ⟨hclear, buf, e⟩ | ⟨hset, w, e, hm, _, _⟩ := unallocateBlock_spec L hb
  · rw [e]
    refine ⟨fun h => ⟨h, fun he => ?_⟩, fun h => h.1⟩
    rw [he.1, he.2] at hclear
    exact absurd (hclear.symm.trans h) (by decide)
  · rw [e]
    by_cases hg : b / v.spb.blockPerGroup = k
    · subst hg
      rw [hm.bit pos hpos]
      by_cases hp : pos = b % v.spb.blockPerGroup
      · rw [if_pos hp]
        exact ⟨fun h => absurd h (by decide), fun h => absurd ⟨rfl, hp.symm⟩ h.2⟩
      · rw [if_neg hp]
        exact ⟨fun h => ⟨h, fun he => hp he.2.symm⟩, fun h => h.1⟩
    · have hne : v.geometry.start (.blockBitmap k) ≠
          v.geometry.start (.blockBitmap (b / v.spb.blockPerGroup)) :=
        L.start_ne hk (L.group_lt hb) rfl rfl fun e => hg (Region.blockBitmap.inj e).symm
      rw [hm.bit_of_ne hne (L.blockBitmap_not_descriptors hk) hpos]
      exact ⟨fun h => ⟨h, fun he => hg he.1⟩, fun h => h.1⟩

/-- The loop over the direct slots clears the bits of their blocks and no others. -/
lemma freeDirect_bit (L : v.geometry.Layout)
    (hs : ∀ j, i ≤ j → j < i + n → v.dbp j < v.spb.blockNum)
    (hk : k < v.geometry.groups) (hpos : pos < 8 * v.blockSize) :
    (v.freeDirect n i).bitmapBit (.blockBitmap k) pos = true ↔
      v.bitmapBit (.blockBitmap k) pos = true ∧ ∀ j, i ≤ j → j < i + n →
        ¬ (v.dbp j / v.spb.blockPerGroup = k ∧ v.dbp j % v.spb.blockPerGroup = pos) := by
  induction n generalizing v i with
  | zero => exact ⟨fun h => ⟨h, fun j h1 h2 => by omega⟩, fun h => h.1⟩
  | succ n ih =>
    have hb := hs i (le_refl i) (by omega)
    obtain ⟨hg, hi, _, _⟩ := unallocateBlock_free L hb
    have hnum : (v.unallocateBlock (v.dbp i)).1.spb.blockNum = v.spb.blockNum :=
      congrArg Geometry.blockNum hg
    have hper : (v.unallocateBlock (v.dbp i)).1.spb.blockPerGroup = v.spb.blockPerGroup :=
      congrArg Geometry.blockPerGroup hg
    have hdbp : ∀ k, (v.unallocateBlock (v.dbp i)).1.dbp k = v.dbp k := fun k =>
      congrArg (Bytes.get32 · (40 + 4 * k)) hi
    have hrest := ih (v := (v.unallocateBlock (v.dbp i)).1) (i := i + 1) (hg.symm ▸ L)
      (fun j h1 h2 => by rw [hnum, hdbp]; exact hs j (by omega) (by omega)) (hg.symm ▸ hk)
      (by rwa [blockSize_congr hg])
    rw [freeDirect, hrest, unallocateBlock_bit L hb hk hpos, hper]
    constructor
    · rintro ⟨⟨h, hfirst⟩, hall⟩
      refine ⟨h, fun j h1 h2 => ?_⟩
      by_cases hj : j = i
      · exact hj ▸ hfirst
      · have := hall j (by omega) (by omega)
        rwa [hdbp] at this
    · rintro ⟨h, hall⟩
      refine ⟨⟨h, hall i (le_refl i) (by omega)⟩, fun j h1 h2 => ?_⟩
      rw [hdbp]
      exact hall j (by omega) (by omega)

/-- The file whose tree it is. -/
lemma FileTree.diskSize (T : FileTree v u i) : v.diskSize i = u.sizeLow :=
  (setInode_word T.layout T.inode T.loaded (by omega)).symm

/-- The first blocks of a file are those of its direct slots. -/
lemma dbp_mem (hk : k < n) (h12 : k < 12) : v.dbp k ∈ v.dataBlocks n := by
  refine List.mem_map.mpr ⟨k, List.mem_range.mpr hk, ?_⟩
  unfold prepareSlot
  rw [if_pos h12]
  rfl

/-- A file within the direct slots has no other blocks. -/
lemma mem_tree_of_direct (h12 : n ≤ 12) :
    b ∈ v.treeBlocks n ↔ ∃ k, k < n ∧ v.dbp k = b := by
  have ht : v.treeTables n = [] := by
    unfold treeTables doubleTables tripleTables
    dsimp only
    rw [if_pos h12, if_pos (by omega), if_pos (by omega)]
    rfl
  unfold treeBlocks
  rw [ht, List.append_nil]
  constructor
  · intro h
    obtain ⟨k, hk, rfl⟩ := List.mem_map.mp h
    have hk := List.mem_range.mp hk
    refine ⟨k, hk, ?_⟩
    unfold prepareSlot
    rw [if_pos (by omega)]
    rfl
  · rintro ⟨k, hk, rfl⟩
    exact dbp_mem hk (by omega)

/-- A file within the direct slots is erased as it should be. -/
lemma FileTree.erases (T : FileTree v u i) (h12 : v.sizeBlocks u.sizeLow ≤ 12) :
    v.Erases i (u.treeBlocks (v.sizeBlocks u.sizeLow)) := by
  have h0 : v.diskSize i ≠ 0 := by
    rw [T.diskSize]
    exact Nat.ne_of_gt T.size
  obtain ⟨x, herase, S, hout, hsize, hword⟩ := eraseFileData_split T.layout T.inode h0
  rw [T.diskSize, if_pos h12] at herase
  have Lx : x.geometry.Layout := S.geometry.symm ▸ T.layout
  have hnum : x.spb.blockNum = v.spb.blockNum := congrArg Geometry.blockNum S.geometry
  have hper : x.spb.blockPerGroup = v.spb.blockPerGroup :=
    congrArg Geometry.blockPerGroup S.geometry
  have hdbp : ∀ k, k < 12 → x.dbp k = u.dbp k := fun k hk =>
    (hword _ (by omega) (by omega)).trans
      (setInode_word T.layout T.inode T.loaded (by omega)).symm
  have hs : ∀ j, 0 ≤ j → j < 0 + v.sizeBlocks u.sizeLow → x.dbp j < x.spb.blockNum := by
    intro j _ hj
    rw [hdbp j (by omega), hnum]
    exact (T.allocated _ (List.mem_append_left _ (dbp_mem (by omega) (by omega)))).1
  refine ⟨_, herase, ?_, fun k pos hk hpos => ?_⟩
  · obtain ⟨hg, _, hkept⟩ := freeDirect_outside Lx hs
    refine Eq.trans ?_ hsize
    unfold Volume.diskSize
    rw [inodeByte_congr hg]
    refine Bytes.get32_congr fun y h1 h2 => ?_
    have hy : y = x.inodeByte i + (y - x.inodeByte i) := by omega
    rw [hy]
    exact hkept _ _ (inBlock_inode (by omega))
      (inode_not_allocByte Lx (T.inode.congr S.geometry) (by omega))
  · rw [freeDirect_bit Lx hs (S.geometry.symm ▸ hk) (by rwa [blockSize_congr S.geometry]),
      S.bit hk hpos, hper]
    refine and_congr_right fun _ => ⟨fun h b hb => ?_, fun h j _ hj => ?_⟩
    · obtain ⟨j, hj, rfl⟩ := (mem_tree_of_direct h12).mp hb
      rw [← hdbp j (by omega)]
      exact h j (Nat.zero_le j) (by omega)
    · rw [hdbp j (by omega)]
      exact h _ ((mem_tree_of_direct h12).mpr ⟨j, by omega, rfl⟩)

/-! ## The first block behind them -/

/-- An entry of the table just loaded. -/
lemma loadBlock_bufEntry (hs : v.spb.blockSize ≤ 7) (hk : k < v.addrPerBlock) :
    (v.loadBlock n).bufEntry k = v.entry n k := by
  have hle : v.addrPerBlock * 4 ≤ v.blockSize := Nat.div_mul_le_self _ _
  have hsectors := sectors_blockFactor hs
  have h := Bytes.get32_blit_of_inside (m := v.stdBuf) (b := v.disk) (d := 0)
    (s := lbaByte (v.block n)) (n := 512 * sectors v.blockFactor) (i := 4 * k) (by omega)
  rwa [Nat.zero_add] at h

/-- Below `sibp`, with one block left: the block of the first entry, then the one whose number is
the sector of the table. -/
lemma freeIndirect_one (hs : v.spb.blockSize ≤ 7) :
    ∃ x, x = ((v.loadBlock v.sibp).unallocateBlock (v.entry v.sibp 0)).1 ∧
      v.freeIndirect 1 = (x.unallocateBlock (x.block x.sibp)).1 := by
  refine ⟨_, rfl, ?_⟩
  rw [← loadBlock_bufEntry hs v.addrPerBlock_pos]
  unfold freeIndirect
  dsimp only
  rw [if_pos (show 1 ≤ (v.loadBlock v.sibp).addrPerBlock from v.addrPerBlock_pos)]
  rfl

/-- Unless the sector number of a block wraps around, it is the number of a different block. -/
lemma block_ne (L : v.geometry.Layout) (hn : n < v.spb.blockNum) (h0 : 0 < n) : v.block n ≠ n := by
  have hr := reach_of_lt L hn
  have hf : 2 ≤ v.blockFactor := by
    have := Nat.two_pow_pos v.spb.blockSize
    unfold blockFactor
    omega
  have hle : 2 * n ≤ v.blockFactor * n := Nat.mul_le_mul_right n hf
  rw [Nat.mul_succ] at hr
  unfold block
  rw [Nat.mod_eq_of_lt (by omega)]
  omega

/-- A file with one block behind the direct ones has a table. -/
lemma sibp_mem : v.sibp ∈ v.treeTables 13 := by
  unfold treeTables
  dsimp only
  rw [if_neg (by omega)]
  exact List.mem_append_left _ (List.mem_append_left _ (List.mem_singleton_self _))

/-- With one block behind the direct ones, the table that leads to it stays allocated. -/
lemma FileTree.keeps_table (T : FileTree v u i) (hn : v.sizeBlocks u.sizeLow = 13)
    (hd : v.geometry.IsData u.sibp) (h0 : 0 < u.sibp) (hb : v.block u.sibp < v.spb.blockNum)
    (hw : v.eraseFileData i = some w) : w.geometry = v.geometry ∧ ¬ w.BlockFree u.sibp := by
  have hsize : v.diskSize i ≠ 0 := by
    rw [T.diskSize]
    exact Nat.ne_of_gt T.size
  obtain ⟨x, herase, S, hout, _, hword⟩ := eraseFileData_split T.layout T.inode hsize
  rw [T.diskSize, hn, if_neg (by omega), hw] at herase
  have hw : w = (x.freeDirect 12 0).freeIndirect 1 := Option.some.inj herase
  obtain ⟨hu1, hu2⟩ := setInode_kept T.loaded
  have hpos : 0 < v.addrPerBlock := v.addrPerBlock_pos
  have hword : ∀ j, 8 ≤ j → j + 4 ≤ 128 → x.stdInode.get32 j = u.stdInode.get32 j :=
    fun j h8 hj => (hword j h8 hj).trans (setInode_word T.layout T.inode T.loaded hj).symm
  have hdbp : ∀ k, k < 12 → x.dbp k = u.dbp k := fun k hk => hword _ (by omega) (by omega)
  -- the blocks of the tree: twelve direct ones, the last one and the table
  have hap : u.addrPerBlock = v.addrPerBlock := congrArg (· / 4) (blockSize_congr hu1)
  have hlast : u.entry u.sibp 0 ∈ u.dataBlocks 13 := by
    refine List.mem_map.mpr ⟨12, List.mem_range.mpr (by omega), ?_⟩
    unfold prepareSlot
    rw [if_neg (by omega), if_pos (by omega)]
    rfl
  have htable : u.sibp ∈ u.treeTables 13 := sibp_mem
  have halloc := T.allocated
  have hne := List.disjoint_of_nodup_append T.apart
  rw [hn] at halloc hne
  -- before the table is reached
  have Lx : x.geometry.Layout := S.geometry.symm ▸ T.layout
  have hnum : x.spb.blockNum = v.spb.blockNum := congrArg Geometry.blockNum S.geometry
  have hs : ∀ j, 0 ≤ j → j < 0 + 12 → x.dbp j < x.spb.blockNum ∧ u.sibp ≠ x.dbp j := by
    intro j _ hj
    have hmem : u.dbp j ∈ u.dataBlocks 13 := dbp_mem (by omega) (by omega)
    rw [hdbp j (by omega), hnum]
    exact ⟨(halloc _ (List.mem_append_left _ hmem)).1, fun e => hne hmem (e ▸ htable)⟩
  obtain ⟨hg, hi, hkept⟩ := freeDirect_outside Lx fun j h1 h2 => (hs j h1 h2).1
  have htaken : ¬ (x.freeDirect 12 0).BlockFree u.sibp := freeDirect_taken Lx hs fun h =>
    (halloc _ (List.mem_append_right _ htable)).2 ((S.blockFree T.layout _).mp h)
  generalize x.freeDirect 12 0 = y at hw hg hi hkept htaken
  have hgy : y.geometry = v.geometry := hg.trans S.geometry
  have Ly : y.geometry.Layout := hgy.symm ▸ T.layout
  have hsibp : y.sibp = u.sibp := (congrArg (Bytes.get32 · 88) hi).trans
    (hword 88 (by omega) (by omega))
  have hentry : y.entry u.sibp 0 = u.entry u.sibp 0 := by
    have hlt : u.sibp < u.geometry.blockNum := hu1.symm ▸ hd.1
    have hgu : y.geometry = u.geometry := hgy.trans hu1.symm
    refine entry_congr (hu1.symm ▸ T.layout) hlt hgu (hap.symm ▸ hpos) fun z hz => ?_
    rw [hu1] at hz
    rw [hu2, ← hout z (data_ne_inode T.layout T.inode hd hz)]
    exact hkept u.sibp z (S.geometry.symm ▸ hz) (S.geometry.symm ▸ not_allocByte hd hz)
  -- the entry of the table, then the table
  obtain ⟨z, hz, hone⟩ := freeIndirect_one (v := y) Ly.supported
  rw [hsibp, hentry] at hz
  have hgl : (y.loadBlock u.sibp).geometry = v.geometry := (geometry_congr rfl rfl).trans hgy
  obtain ⟨hz1, hz2, _, hz3⟩ := unallocateBlock_free (v := y.loadBlock u.sibp) (hgl.symm ▸ T.layout)
    (show u.entry u.sibp 0 < (y.loadBlock u.sibp).geometry.blockNum from
      hgl.symm ▸ (halloc _ (List.mem_append_left _ hlast)).1)
  rw [← hz] at hz1 hz2 hz3
  have hgz : z.geometry = v.geometry := hz1.trans hgl
  have hzsibp : z.sibp = u.sibp := (congrArg (Bytes.get32 · 88) hz2).trans hsibp
  have hzblock : z.block u.sibp = v.block u.sibp := block_congr hgz
  rw [hone, hzsibp, hzblock] at hw
  obtain ⟨hgw, _, _, hfree⟩ := unallocateBlock_free (v := z) (hgz.symm ▸ T.layout)
    (show v.block u.sibp < z.geometry.blockNum from hgz.symm ▸ hb)
  have hne1 : u.sibp ≠ v.block u.sibp := (block_ne T.layout hd.1 h0).symm
  have hne2 : u.sibp ≠ u.entry u.sibp 0 := fun e => hne hlast (e ▸ htable)
  rw [hw]
  exact ⟨hgw.trans hgz, fun h => htaken ((hz3 _ hne2).mp ((hfree _ hne1).mp h))⟩

/-- So it is not erased as it should be. -/
lemma FileTree.not_erases (T : FileTree v u i) (hn : v.sizeBlocks u.sizeLow = 13)
    (hd : v.geometry.IsData u.sibp) (h0 : 0 < u.sibp) (hb : v.block u.sibp < v.spb.blockNum) :
    ¬ v.Erases i (u.treeBlocks (v.sizeBlocks u.sizeLow)) := by
  rintro ⟨w, hw, _, hbits⟩
  obtain ⟨hg, hkeeps⟩ := T.keeps_table hn hd h0 hb hw
  have hmem : u.sibp ∈ u.treeBlocks (v.sizeBlocks u.sizeLow) := by
    rw [hn]
    exact List.mem_append_right _ sibp_mem
  have hper : v.spb.blockPerGroup ≤ 8 * v.blockSize := T.layout.blockPerGroup_le
  have hlt := Nat.mod_lt u.sibp (show 0 < v.spb.blockPerGroup from T.layout.blockPerGroup_pos)
  have hiff := hbits _ _ (T.layout.group_lt hd.1) (hlt.trans_le hper)
  apply hkeeps
  unfold BlockFree
  rw [show w.spb.blockNum = v.spb.blockNum from congrArg Geometry.blockNum hg,
    show w.spb.blockPerGroup = v.spb.blockPerGroup from congrArg Geometry.blockPerGroup hg]
  refine ⟨hd.1, Bool.eq_false_iff.mpr fun h => ?_⟩
  exact (hiff.mp h).2 _ hmem ⟨rfl, rfl⟩

/-- A file that has its blocks in its direct slots is erased as it should be. One with a single
block behind them is not, as long as the sector number of its table is the number of a block. The
function returns for every file. -/
theorem erase_within_direct (v u : Volume) (i : Nat) (T : FileTree v u i) :
    (∃ w, v.eraseFileData i = some w) ∧
      (v.sizeBlocks u.sizeLow ≤ 12 → v.Erases i (u.treeBlocks (v.sizeBlocks u.sizeLow))) ∧
      (v.sizeBlocks u.sizeLow = 13 → v.geometry.IsData u.sibp → 0 < u.sibp →
        v.block u.sibp < v.spb.blockNum →
          ¬ v.Erases i (u.treeBlocks (v.sizeBlocks u.sizeLow))) := by
  have h0 : v.diskSize i ≠ 0 := by
    rw [T.diskSize]
    exact Nat.ne_of_gt T.size
  obtain ⟨x, herase, _⟩ := eraseFileData_split T.layout T.inode h0
  exact ⟨⟨_, herase⟩, T.erases, T.not_erases⟩

end Volume

/-! ### Thirteen blocks -/

/-- The words of a volume on which all blocks are allocated. Inode 12, of `size` bytes, has blocks
44 to 55 in its direct slots, and block 20 is its table, with block 21 as the only entry. -/
def eraseWord (size n i : Nat) : Nat :=
  if n = 2 ∨ n = 3 then
    if i = 0 then 2 ^ 32 - 1 else 0
  else if n = 7 then
    if i = 97 then size % 2 ^ 32 else if 106 ≤ i ∧ i < 118 then 44 + (i - 106)
    else if i = 118 then 20 else 0
  else if n = 20 ∧ i = 0 then 21
  else 0

def eraseVolume (size : Nat) : Volume := sampleVolume (eraseWord size) (fun _ => 0) 0 0 65

lemma eraseVolume_layout (size : Nat) : (eraseVolume size).geometry.Layout :=
  (sampleVolume_geometry _ _ _ _ _).symm ▸ sampleGeometry_layout

lemma eraseVolume_inode (size : Nat) : (eraseVolume size).HasInode 12 := by
  unfold Volume.HasInode eraseVolume
  rw [sampleVolume_geometry, sampleGeometry_groups]
  exact ⟨by decide, by show 12 ≤ 2 * 32; decide⟩

/-- The inode once it is loaded. -/
def eraseLoaded (size : Nat) : Volume :=
  { eraseVolume size with
    stdInode := (eraseVolume size).stdInode.blit 0 (eraseVolume size).disk
      ((eraseVolume size).inodeByte 12) 128 }

lemma eraseTree {size : Nat} (hs : size = 12288 ∨ size = 12289) :
    (eraseVolume size).FileTree (eraseLoaded size) 12 := by
  refine ⟨eraseVolume_layout size, eraseVolume_inode size,
    Volume.setInode_inode (eraseVolume_layout size) (eraseVolume_inode size), ?_, ?_, ?_⟩
  · rcases hs with rfl | rfl <;> decide +kernel
  · rcases hs with rfl | rfl <;> decide +kernel
  · rcases hs with rfl | rfl <;> decide +kernel

/-- A file of twelve blocks, all of them in direct slots. -/
theorem erase_within_direct_sample : (eraseVolume 12288).Erases 12 (List.range' 44 12) := by
  have hblocks : (eraseLoaded 12288).treeBlocks
      ((eraseVolume 12288).sizeBlocks (eraseLoaded 12288).sizeLow) = List.range' 44 12 := by
    decide +kernel
  rw [← hblocks]
  exact (Volume.erase_within_direct _ _ 12 (eraseTree (.inl rfl))).2.1 (by decide +kernel)

/-- The table in block 20 starts at sector 40: bit 40 is cleared, which is that of another file, and
the table stays allocated. -/
theorem erase_keeps_table : ¬ ∀ v u i, Volume.FileTree v u i →
    v.Erases i (u.treeBlocks (v.sizeBlocks u.sizeLow)) := by
  intro h
  have hs : (eraseLoaded 12289).sibp = 20 := by decide +kernel
  refine (eraseTree (.inr rfl)).not_erases (by decide +kernel) ?_ ?_ ?_
    (h _ _ 12 (eraseTree (.inr rfl)))
  · rw [hs]
    exact (sampleVolume_geometry _ _ _ _ _).symm ▸ sampleGeometry_isData (by decide) (by decide)
  · rw [hs]
    decide
  · rw [hs]
    decide

end MarioBrOS.Fs
