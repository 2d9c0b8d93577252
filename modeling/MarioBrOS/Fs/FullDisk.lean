import MarioBrOS.Fs.DirectBlocks

/-!
# Growing a file on a full disk

`prepare_blocks` when no block is left: whichever part of the tree it has reached, its first call of
`allocate_block` fails. Until then it only writes the inode (`Kept`). What it stores after that
failure is a table it had loaded, into whose buffer `allocate_block` has read a bitmap; the table is
lost, but no bitmap is written (`Spoiled`).
-/

namespace MarioBrOS.Fs

namespace Volume

variable {v w : Volume} {i n m x addr count prec used toUse : Nat}

/-- No block is left, as far as the superblock knows. -/
def Full (v : Volume) : Prop := v.spb.unallocBlockNum = 0

lemma allocateBlock_full (h : v.Full) : v.allocateBlock prec =
    some (v.loadBlock (v.blockAddressBitmap (v.searchStart prec / v.spb.blockPerGroup)), 0) := by
  unfold allocateBlock allocatePass
  dsimp only
  rw [if_pos (show (v.loadBlock _).spb.unallocBlockNum = 0 from h)]

/-- When `allocate_block` returns 0, no block is left. -/
lemma allocateBlock_zero (L : v.geometry.Layout)
    (h : v.allocateBlock prec = some (w, 0)) : v.Full ∧ ∃ buf, w = v.setStdBuf buf := by
  obtain ⟨h0, buf, e⟩ | ⟨_, _, buf, k, pos, hf, _, e⟩ | ⟨_, _, _, e⟩ | ⟨_, _, _, buf, e⟩ :=
    allocateBlock_cases L prec
  · rw [h] at e
    exact ⟨h0, buf, (Prod.mk.inj (Option.some.inj e)).1⟩
  · rw [h] at e
    exact absurd (Prod.mk.inj (Option.some.inj e)).2.symm hf.ne_zero
  · rw [h] at e
    cases e
  · rw [h] at e
    have hz := (Prod.mk.inj (Option.some.inj e)).2
    have := Nat.mul_pos L.groups_pos (show 0 < v.spb.blockPerGroup from L.blockPerGroup_pos)
    omega

/-- On a full disk an allocation has no result. -/
lemma post_allocateOr_full {full : Volume → Volume} {early : Volume × Nat → Prop}
    {done : Volume × Nat → Prop} (h : v.Full) (he : ∀ m, early (full (v.loadBlock m), count)) :
    Growing.Post (v.allocateOr addr count full) early done := by
  apply post_allocateOr
  intro v' b hb
  rw [allocateBlock_full h] at hb
  obtain ⟨rfl, rfl⟩ := Prod.mk.inj (Option.some.inj hb)
  exact ⟨fun _ => he _, fun h => absurd rfl h⟩

/-- Nothing has been written but inode `i`. -/
structure Kept (v w : Volume) (i : Nat) : Prop where
  geometry : w.geometry = v.geometry
  stdInode : w.stdInode = v.stdInode
  full : w.Full
  disk : ∀ x, (∀ y, y < 128 → x ≠ v.inodeByte i + y) → w.disk x = v.disk x

/-- No block bitmap has been written. -/
structure Spoiled (v w : Volume) : Prop where
  geometry : w.geometry = v.geometry
  bitmaps : ∀ k x, k < v.geometry.groups →
    v.geometry.InBlock (v.geometry.blockBitmap k) x → w.disk x = v.disk x

lemma Kept.refl (h : v.Full) (i : Nat) : Kept v v i := ⟨rfl, rfl, h, fun _ _ => rfl⟩

lemma Kept.setStdBuf (K : Kept v w i) (buf : Bytes) : Kept v (w.setStdBuf buf) i :=
  ⟨K.geometry, K.stdInode, K.full, K.disk⟩

lemma Kept.loadBlock (K : Kept v w i) (m : Nat) : Kept v (w.loadBlock m) i := K.setStdBuf _

lemma Kept.loadSectors (K : Kept v w i) (lba m : Nat) : Kept v (w.loadSectors lba m) i :=
  K.setStdBuf _

lemma Kept.updateInode (K : Kept v w i) (L : v.geometry.Layout) (hi : v.HasInode i) :
    Kept v (w.updateInode i) i := by
  obtain ⟨h1, h2, h3, h4⟩ := updateInode_spec (K.geometry.symm ▸ L) (hi.congr K.geometry)
  rw [inodeByte_congr K.geometry] at h4
  refine ⟨h1.trans K.geometry, h3.trans K.stdInode, ?_, fun x hx => ?_⟩
  · unfold Full
    rw [h2]
    exact K.full
  · rw [h4]
    have := hx (x - v.inodeByte i)
    exact (Bytes.blit_apply_of_outside (by omega)).trans (K.disk x hx)

/-- A byte of a bitmap is none of an inode. -/
lemma bitmap_ne_inode (L : v.geometry.Layout) (hi : v.HasInode i) (hk : n < v.geometry.groups)
    (hx : v.geometry.InBlock (v.geometry.blockBitmap n) x) :
    ∀ y, y < 128 → x ≠ v.inodeByte i + y := by
  intro y hy e
  exact inode_not_allocByte L hi hy (e ▸ .inl ⟨n, hk, hx⟩)

lemma Spoiled.refl (v : Volume) : Spoiled v v := ⟨rfl, fun _ _ _ _ => rfl⟩

/-- `update_inode` writes no bitmap. -/
lemma Spoiled.updateInode (S : Spoiled v w) (L : v.geometry.Layout) (hi : v.HasInode i) :
    Spoiled v (w.updateInode i) := by
  obtain ⟨h1, _, _, h4⟩ := updateInode_spec (S.geometry.symm ▸ L) (hi.congr S.geometry)
  refine ⟨h1.trans S.geometry, fun k x hk hx => ?_⟩
  rw [h4, inodeByte_congr S.geometry]
  have hne := bitmap_ne_inode L hi hk hx (x - v.inodeByte i)
  exact (Bytes.blit_apply_of_outside (by omega)).trans (S.bitmaps k x hk hx)

lemma Kept.spoiled (K : Kept v w i) (L : v.geometry.Layout) (hi : v.HasInode i) : Spoiled v w :=
  ⟨K.geometry, fun _ x hk hx => K.disk x (bitmap_ne_inode L hi hk hx)⟩

/-- The bits of the blocks are the same. -/
lemma Spoiled.bit (S : Spoiled v w) {k pos : Nat} (hk : k < v.geometry.groups)
    (hpos : pos < 8 * v.blockSize) :
    w.bitmapBit (.blockBitmap k) pos = v.bitmapBit (.blockBitmap k) pos := by
  unfold bitmapBit
  rw [S.geometry]
  exact Bytes.bit_congr (S.bitmaps _ _ hk (inBlock_bit hpos))

/-- The free blocks are the same. -/
lemma Spoiled.blockFree (S : Spoiled v w) (L : v.geometry.Layout) (b : Nat) :
    w.BlockFree b ↔ v.BlockFree b := by
  have hnum : w.spb.blockNum = v.spb.blockNum := congrArg Geometry.blockNum S.geometry
  have hgroup : w.spb.blockPerGroup = v.spb.blockPerGroup :=
    congrArg Geometry.blockPerGroup S.geometry
  have hper : v.spb.blockPerGroup ≤ 8 * v.geometry.bytes := L.blockPerGroup_le
  unfold BlockFree
  rw [hnum, hgroup]
  refine and_congr_right fun hb => ?_
  have hg : b / v.spb.blockPerGroup < v.geometry.groups := L.group_lt hb
  have hlt := Nat.mod_lt b (show 0 < v.spb.blockPerGroup from L.blockPerGroup_pos)
  rw [S.bit hg (hlt.trans_le hper)]

/-! ## Tables -/

/-- The tables of a file of `used` blocks, whose inode is in `std_inode`, are data blocks. -/
structure TreeData (v : Volume) (used : Nat) : Prop where
  single : 12 < used → v.geometry.IsData v.sibp
  double : 12 + v.addrPerBlock < used → v.geometry.IsData v.dibp
  doubleTable : ∀ j, j < v.addrPerBlock → 12 + v.addrPerBlock + j * v.addrPerBlock < used →
    v.geometry.IsData (v.entry v.dibp j)
  triple : 12 + v.addrPerBlock + v.addrPerBlock * v.addrPerBlock < used →
    v.geometry.IsData v.tibp
  middle : ∀ j, j < v.addrPerBlock → 12 + v.addrPerBlock + v.addrPerBlock * v.addrPerBlock +
    j * (v.addrPerBlock * v.addrPerBlock) < used → v.geometry.IsData (v.entry v.tibp j)
  tripleTable : ∀ j k, j < v.addrPerBlock → k < v.addrPerBlock →
    12 + v.addrPerBlock + v.addrPerBlock * v.addrPerBlock +
      j * (v.addrPerBlock * v.addrPerBlock) + k * v.addrPerBlock < used →
    v.geometry.IsData (v.entry (v.entry v.tibp j) k)

lemma block_congr (h : w.geometry = v.geometry) : w.block n = v.block n :=
  congrArg (fun g : Geometry => 2 * 2 ^ g.blockSize * n % 2 ^ 32) h

lemma addrPerBlock_pos (v : Volume) : 0 < v.addrPerBlock := by
  have h := v.blockSize_pos
  have hd : 4 ∣ v.blockSize := Geometry.four_dvd_bytes (g := v.geometry)
  unfold addrPerBlock
  omega

/-- Entries of a block depend on the bytes of the block. -/
lemma entry_congr (L : v.geometry.Layout) (hn : n < v.spb.blockNum)
    (hg : w.geometry = v.geometry) (hk : m < v.addrPerBlock)
    (h : ∀ x, v.geometry.InBlock n x → w.disk x = v.disk x) : w.entry n m = v.entry n m := by
  have hnum : w.spb.blockNum = v.spb.blockNum := congrArg Geometry.blockNum hg
  have hle : v.addrPerBlock * 4 ≤ v.blockSize := Nat.div_mul_le_self _ _
  unfold entry
  rw [blockByte_eq L hn, blockByte_eq (hg.symm ▸ L) (by rwa [hnum]), hg]
  refine Bytes.get32_congr fun x h1 h2 => h x ?_
  unfold Geometry.InBlock
  rw [geometry_bytes]
  omega

/-- A byte of a data block is none of an inode. -/
lemma data_ne_inode (L : v.geometry.Layout) (hi : v.HasInode i) (hn : v.geometry.IsData n)
    (hx : v.geometry.InBlock n x) : ∀ y, y < 128 → x ≠ v.inodeByte i + y := by
  have hap := data_apart L hn hi
  unfold Geometry.InBlock at hx
  rw [geometry_bytes] at hx
  omega

/-- An entry of a table that has been loaded in four sectors. -/
lemma Kept.bufEntry (K : Kept v w i) (L : v.geometry.Layout) (hi : v.HasInode i)
    (hn : v.geometry.IsData n) (hm : m < v.addrPerBlock) (h512 : m < 512) :
    (w.loadSectors (w.block n) 4).bufEntry m = v.entry n m := by
  have hfour : 4 * v.addrPerBlock = v.blockSize :=
    Nat.mul_div_cancel' (Geometry.four_dvd_bytes (g := v.geometry))
  have hbyte : lbaByte (v.block n) = v.geometry.blockByte n := blockByte_eq L hn.1
  have hread := Bytes.get32_blit_of_inside (m := w.stdBuf) (b := w.disk) (d := 0)
    (s := lbaByte (w.block n)) (n := 512 * sectors 4) (i := 4 * m)
    (by have : sectors 4 = 4 := rfl; omega)
  rw [Nat.zero_add, block_congr K.geometry] at hread
  unfold Volume.bufEntry Volume.loadSectors readLBA entry Volume.blockByte
  dsimp only
  rw [block_congr K.geometry, hread, hbyte]
  refine Bytes.get32_congr fun x h1 h2 => K.disk x (data_ne_inode L hi hn ?_)
  unfold Geometry.InBlock
  rw [geometry_bytes]
  omega

/-- The four sectors of a table written back after a bitmap has been read over them. -/
lemma Kept.storeSectors (K : Kept v w i) (L : v.geometry.Layout) (hi : v.HasInode i)
    (hn : v.geometry.IsData n) (m : Nat) :
    Spoiled v (((w.loadSectors (v.block n) 4).loadBlock m).storeSectors (v.block n) 4) := by
  refine ⟨(geometry_congr rfl rfl).trans K.geometry, fun k x hk hx => ?_⟩
  have hsame : w.disk x = v.disk x := K.disk x (bitmap_ne_inode L hi hk hx)
  have hbyte : lbaByte (v.block n) = v.geometry.blockByte n := blockByte_eq L hn.1
  have hout : ¬ v.geometry.InBlock n x := fun hin =>
    not_allocByte hn hin (.inl ⟨k, hk, hx⟩)
  unfold Geometry.InBlock at hout
  rw [geometry_bytes] at hout
  rw [← hsame]
  have hbs := blockSize_congr K.geometry
  have hread : 512 * sectors w.blockFactor = v.blockSize := by
    rw [sectors_blockFactor (K.geometry.symm ▸ L : w.geometry.Layout).supported, hbs]
  show (w.disk.blit (lbaByte (v.block n)) (((w.stdBuf.blit 0 w.disk (lbaByte (v.block n))
    (512 * sectors 4)).blit 0 w.disk (lbaByte (w.block m)) (512 * sectors w.blockFactor))) 0
      (512 * sectors 4)) x = w.disk x
  rw [hbyte]
  by_cases hin : v.geometry.blockByte n ≤ x ∧ x < v.geometry.blockByte n + 512 * sectors 4
  · -- behind the end of the block, the sectors are those that were loaded
    rw [Bytes.blit_apply_of_inside hin, Nat.zero_add, Bytes.blit_apply_of_outside (by omega),
      Bytes.blit_apply_of_inside (by omega), Nat.sub_zero, Nat.add_sub_cancel' hin.1]
  · exact Bytes.blit_apply_of_outside (by omega)

/-- The table below `sibp` written back likewise. -/
lemma Kept.storeBlock (K : Kept v w i) (L : v.geometry.Layout) (hi : v.HasInode i)
    (hn : v.geometry.IsData n) : Spoiled v (w.storeBlock n) := by
  refine ⟨(geometry_congr rfl rfl).trans K.geometry, fun k x hk hx => ?_⟩
  have hout : ¬ v.geometry.InBlock n x := fun hin => not_allocByte hn hin (.inl ⟨k, hk, hx⟩)
  refine (writeBlock_outside (K.geometry.symm ▸ L) ?_ ?_ _ _).trans
    (K.disk x (bitmap_ne_inode L hi hk hx))
  · have := congrArg Geometry.blockNum K.geometry
    exact hn.1.trans_eq this.symm
  · rwa [K.geometry]

/-! ## The loops -/

section Loops

variable {g : Growth} {lba span rounds inode j : Nat}

lemma addrPerBlock_congr (h : w.geometry = v.geometry) : w.addrPerBlock = v.addrPerBlock :=
  congrArg (fun g : Geometry => g.bytes / 4) h

/-- A table with an unfilled entry is left as the buffer then is. -/
lemma post_growTable_full {store : Volume → Volume} {early : Volume × Nat → Prop}
    {done : Growth → Prop} (h : g.volume.Full) (hr : rounds ≠ 0)
    (he : ∀ m, early (store (g.volume.loadBlock m), g.count)) :
    Growing.Post (growTable store toUse rounds j g) early done := by
  cases rounds with
  | zero => exact absurd rfl hr
  | succ rounds =>
    rw [growTable]
    refine .bind (fun _ => False) ?_ fun _ hf => hf.elim
    exact post_allocateOr_full h he

/-- A table is entered if it is there. -/
lemma post_enterTable_full {early : Volume × Nat → Prop} {done : Growth × Nat → Prop}
    (h : g.volume.Full) (he : ∀ m, early (g.volume.loadBlock m, g.count))
    (hd : g.used % span ≠ 0 → done ({ g with
      volume := g.volume.loadSectors (g.volume.block (g.volume.bufEntry j)) 4 },
        g.volume.block (g.volume.bufEntry j))) :
    Growing.Post (enterTable lba j span g) early done := by
  unfold enterTable
  dsimp only
  split
  · refine .bind (fun _ => False) ?_ fun _ hf => hf.elim
    exact post_allocateOr_full h he
  · rename_i hs
    exact .pure (hd hs)

/-- A lowest table is entered and not filled. -/
lemma post_fill_full {k : Growth → Growing Growth} (K : Kept v g.volume i) (L : v.geometry.Layout)
    (hi : v.HasInode i) (ha : 0 < v.addrPerBlock)
    (hdata : g.used % v.addrPerBlock ≠ 0 → v.geometry.IsData (g.volume.bufEntry j)) :
    Growing.Post (enterTable lba j v.addrPerBlock g >>= fun r =>
        growTable (fun w => w.storeSectors r.2 4) toUse (v.addrPerBlock - r.1.used % v.addrPerBlock)
          (r.1.used % v.addrPerBlock) r.1 >>= k)
      (fun r => Spoiled v r.1) (fun _ => False) := by
  refine .bind (fun r => r.2 = v.block (g.volume.bufEntry j) ∧
    v.geometry.IsData (g.volume.bufEntry j) ∧
      r.1.volume = g.volume.loadSectors (v.block (g.volume.bufEntry j)) 4) ?_ ?_
  · refine post_enterTable_full K.full (fun m => (K.loadBlock m).spoiled L hi) fun hs => ?_
    rw [block_congr K.geometry]
    exact ⟨rfl, hdata hs, rfl⟩
  · rintro ⟨g', lba'⟩ ⟨rfl, hd, hu⟩
    have hmod := Nat.mod_lt g'.used ha
    refine .bind (fun _ => False) ?_ fun _ hf => hf.elim
    refine post_growTable_full ?_ (by dsimp only; omega) fun m => ?_
    · rw [hu]
      exact (K.loadSectors _ _).full
    · dsimp only
      rw [hu]
      exact K.storeSectors L hi hd m

/-- Below `dibp`. -/
lemma post_growDouble_full (K : Kept v g.volume i) (L : v.geometry.Layout) (hi : v.HasInode i)
    (hr : rounds ≠ 0) (hj : j < v.addrPerBlock) (hroot : v.geometry.IsData v.dibp)
    (hdata : g.used % v.addrPerBlock ≠ 0 → j < 512 ∧ v.geometry.IsData (v.entry v.dibp j)) :
    Growing.Post (growDouble toUse rounds j g) (fun r => Spoiled v r.1) (fun _ => False) := by
  cases rounds with
  | zero => exact absurd rfl hr
  | succ rounds =>
    have hdibp : g.volume.dibp = v.dibp := congrArg (Bytes.get32 · 92) K.stdInode
    rw [growDouble]
    dsimp only
    rw [addrPerBlock_congr K.geometry, hdibp]
    refine post_fill_full (K.loadSectors _ _) L hi (Nat.zero_lt_of_lt hj) fun hs => ?_
    obtain ⟨h512, hd⟩ := hdata hs
    dsimp only
    rwa [K.bufEntry L hi hroot hj h512]

/-- Below an entry of `tibp`, whose table is in `std_buf`. -/
lemma post_growMiddle_full (K : Kept v g.volume i) (L : v.geometry.Layout) (hi : v.HasInode i)
    (hr : rounds ≠ 0) (ha : 0 < v.addrPerBlock)
    (hdata : g.used % v.addrPerBlock ≠ 0 → v.geometry.IsData (g.volume.bufEntry j)) :
    Growing.Post (growMiddle toUse lba rounds j g) (fun r => Spoiled v r.1) (fun _ => False) := by
  cases rounds with
  | zero => exact absurd rfl hr
  | succ rounds =>
    rw [growMiddle]
    dsimp only
    rw [addrPerBlock_congr K.geometry]
    exact post_fill_full K L hi ha hdata

/-- Below `tibp`. -/
lemma post_growTriple_full (K : Kept v g.volume i) (L : v.geometry.Layout) (hi : v.HasInode i)
    (hr : rounds ≠ 0) (hj : j < v.addrPerBlock) (h512 : v.addrPerBlock ≤ 512)
    (hroot : v.geometry.IsData v.tibp)
    (hmid : g.used % (v.addrPerBlock * v.addrPerBlock) ≠ 0 →
      v.geometry.IsData (v.entry v.tibp j) ∧ (g.used % v.addrPerBlock ≠ 0 →
        v.geometry.IsData (v.entry (v.entry v.tibp j)
          (g.used % (v.addrPerBlock * v.addrPerBlock) / v.addrPerBlock)))) :
    Growing.Post (growTriple toUse rounds j g) (fun r => Spoiled v r.1) (fun _ => False) := by
  cases rounds with
  | zero => exact absurd rfl hr
  | succ rounds =>
    have htibp : g.volume.tibp = v.tibp := congrArg (Bytes.get32 · 96) K.stdInode
    have ha : 0 < v.addrPerBlock := Nat.zero_lt_of_lt hj
    have hlt : g.used % (v.addrPerBlock * v.addrPerBlock) / v.addrPerBlock < v.addrPerBlock :=
      (Nat.div_lt_iff_lt_mul ha).mpr (Nat.mod_lt _ (Nat.mul_pos ha ha))
    have K' := K.loadSectors (g.volume.block v.tibp) 4
    rw [growTriple]
    dsimp only
    rw [addrPerBlock_congr K.geometry, htibp]
    refine .bind (fun r => v.geometry.IsData (v.entry v.tibp j) ∧ r.1.used = g.used ∧
      (g.used % v.addrPerBlock ≠ 0 → v.geometry.IsData (v.entry (v.entry v.tibp j)
        (g.used % (v.addrPerBlock * v.addrPerBlock) / v.addrPerBlock))) ∧
      ∃ u, Kept v u i ∧ r.1.volume = u.loadSectors (u.block (v.entry v.tibp j)) 4) ?_ ?_
    · refine post_enterTable_full K'.full (fun m => (K'.loadBlock m).spoiled L hi) fun hs => ?_
      obtain ⟨hd, hlow⟩ := hmid hs
      dsimp only
      rw [K.bufEntry L hi hroot hj (by omega)]
      exact ⟨hd, rfl, hlow, _, K', rfl⟩
    · rintro ⟨g', lba'⟩ ⟨hd, hused, hlow, u, Ku, hu⟩
      dsimp only at hused hu ⊢
      refine .bind (fun _ => False) ?_ fun _ hf => hf.elim
      rw [hused]
      refine post_growMiddle_full (i := i) ?_ L hi (by omega) ha fun hs => ?_
      · rw [hu]
        exact Ku.loadSectors _ _
      · rw [hused] at hs
        rw [hu, Ku.bufEntry L hi hd hlt (by omega)]
        exact hlow hs

/-! ## The parts of the tree -/

/-- A block written back as it was loaded. -/
lemma restore_disk (hs : v.spb.blockSize ≤ 7) : ((v.loadBlock n).storeBlock n).disk = v.disk := by
  have hread : 512 * sectors v.blockFactor = v.blockSize := sectors_blockFactor hs
  funext x
  show (v.disk.blit (lbaByte (v.block n)) (v.stdBuf.blit 0 v.disk (lbaByte (v.block n))
    (512 * sectors v.blockFactor)) 0 (512 * sectors v.blockFactor)) x = v.disk x
  by_cases hin : lbaByte (v.block n) ≤ x ∧ x < lbaByte (v.block n) + 512 * sectors v.blockFactor
  · rw [Bytes.blit_apply_of_inside hin, Nat.zero_add, Bytes.blit_apply_of_inside (by omega),
      Nat.sub_zero, Nat.add_sub_cancel' hin.1]
  · exact Bytes.blit_apply_of_outside (by omega)

lemma Kept.restore (K : Kept v w i) (L : v.geometry.Layout) :
    Kept v ((w.loadBlock n).storeBlock n) i := by
  have hw : w.geometry.Layout := K.geometry.symm ▸ L
  refine ⟨(geometry_congr rfl rfl).trans K.geometry, K.stdInode, K.full, fun x hx => ?_⟩
  rw [restore_disk hw.supported]
  exact K.disk x hx

/-- Below `sibp`. -/
lemma post_growSingle_full (K : Kept v g.volume i) (L : v.geometry.Layout) (hi : v.HasInode i)
    (hdata : g.used ≠ 0 → v.geometry.IsData v.sibp) :
    Growing.Post (growSingle i toUse g) (fun r => Spoiled v r.1)
      (fun g' => Kept v g'.volume i ∧ g'.used = g.used ∧ v.addrPerBlock ≤ g.used) := by
  have hsibp : g.volume.sibp = v.sibp := congrArg (Bytes.get32 · 88) K.stdInode
  unfold growSingle
  dsimp only
  split
  · refine .bind (fun _ => False) ?_ fun _ hf => hf.elim
    exact post_allocateOr_full K.full fun m => (K.loadBlock m).spoiled L hi
  · rename_i h0
    have K' := K.loadBlock v.sibp
    rw [pure_bind, hsibp, addrPerBlock_congr K'.geometry]
    by_cases hle : v.addrPerBlock ≤ g.used
    · rw [Nat.sub_eq_zero_of_le hle, growTable]
      refine .pure ⟨?_, rfl, hle⟩
      dsimp only
      rw [show (g.volume.loadBlock v.sibp).sibp = v.sibp from hsibp]
      exact K.restore L
    · refine post_growTable_full K'.full (by omega) fun m => ?_
      dsimp only
      rw [show ((g.volume.loadBlock v.sibp).loadBlock m).sibp = v.sibp from hsibp]
      exact (K'.loadBlock m).storeBlock L hi (hdata h0)

/-- Below `dibp`, from its first block on. -/
lemma post_growBelowDibp_full (K : Kept v g.volume i) (L : v.geometry.Layout) (hi : v.HasInode i)
    (hroot : g.used ≠ 0 → v.geometry.IsData v.dibp)
    (hdata : ∀ j, j < v.addrPerBlock → j * v.addrPerBlock < g.used →
      v.geometry.IsData (v.entry v.dibp j))
    (h512 : v.addrPerBlock ≤ 512 ∨ g.used ≤ 512 * v.addrPerBlock) :
    Growing.Post (growBelowDibp i toUse g) (fun r => Spoiled v r.1)
      (fun g' => Kept v g'.volume i ∧ g'.used = g.used ∧
        v.addrPerBlock * v.addrPerBlock ≤ g.used) := by
  unfold growBelowDibp
  dsimp only
  rw [addrPerBlock_congr K.geometry]
  split
  · rename_i hlt
    have ha : 0 < v.addrPerBlock := Nat.pos_of_mul_pos_right (Nat.zero_lt_of_lt hlt)
    split
    · refine .bind (fun _ => False) ?_ fun _ hf => hf.elim
      exact post_allocateOr_full K.full fun m => (K.loadBlock m).spoiled L hi
    · rename_i h0
      rw [pure_bind]
      have hj : g.used / v.addrPerBlock < v.addrPerBlock := (Nat.div_lt_iff_lt_mul ha).mpr hlt
      refine .of_false (post_growDouble_full (K.updateInode L hi) L hi (by omega) hj (hroot h0) ?_)
      intro hs
      have hd := Nat.div_add_mod g.used v.addrPerBlock
      rw [Nat.mul_comm] at hd
      refine ⟨h512.elim (by omega) fun h => ?_, hdata _ hj (by dsimp only at hs; omega)⟩
      exact (Nat.div_lt_iff_lt_mul ha).mpr (Nat.lt_of_le_of_ne h fun e => hs (by
        dsimp only
        rw [e, Nat.mul_mod_left]))
  · rename_i hlt
    exact .pure ⟨K, rfl, Nat.not_lt.mp hlt⟩

/-- Below `tibp`, from its first block on. -/
lemma post_growBelowTibp_full (K : Kept v g.volume i) (L : v.geometry.Layout) (hi : v.HasInode i)
    (hroot : g.used ≠ 0 → v.geometry.IsData v.tibp)
    (hmid : ∀ j, j < v.addrPerBlock → j * (v.addrPerBlock * v.addrPerBlock) < g.used →
      v.geometry.IsData (v.entry v.tibp j))
    (hdata : ∀ j k, j < v.addrPerBlock → k < v.addrPerBlock →
      j * (v.addrPerBlock * v.addrPerBlock) + k * v.addrPerBlock < g.used →
        v.geometry.IsData (v.entry (v.entry v.tibp j) k))
    (h512 : g.used ≠ 0 → v.addrPerBlock ≤ 512) (ha : 0 < v.addrPerBlock) :
    Growing.Post (growBelowTibp i toUse g) (fun r => Spoiled v r.1)
      (fun g' => Spoiled v g'.volume) := by
  unfold growBelowTibp
  dsimp only
  rw [addrPerBlock_congr K.geometry]
  split
  · refine .bind (fun _ => False) ?_ fun _ hf => hf.elim
    exact post_allocateOr_full K.full fun m => ((K.loadBlock m).updateInode L hi).spoiled L hi
  · rename_i h0
    have K' := K.updateInode L hi
    rw [pure_bind]
    by_cases hr : v.addrPerBlock - g.used / (v.addrPerBlock * v.addrPerBlock) = 0
    · rw [hr]
      exact .pure (K'.spoiled L hi)
    · have hj : g.used / (v.addrPerBlock * v.addrPerBlock) < v.addrPerBlock := by omega
      refine .of_false (post_growTriple_full K' L hi hr hj (h512 h0) (hroot h0) fun hs => ?_)
      dsimp only at hs ⊢
      have hd := Nat.div_add_mod g.used (v.addrPerBlock * v.addrPerBlock)
      rw [Nat.mul_comm] at hd
      refine ⟨hmid _ hj (by omega), fun hlow => hdata _ _ hj ?_ ?_⟩
      · exact (Nat.div_lt_iff_lt_mul ha).mpr (Nat.mod_lt _ (Nat.mul_pos ha ha))
      · have hd' := Nat.div_add_mod (g.used % (v.addrPerBlock * v.addrPerBlock)) v.addrPerBlock
        rw [Nat.mod_mod_of_dvd _ (Nat.dvd_mul_left ..), Nat.mul_comm] at hd'
        omega

end Loops

/-- On a full disk `prepare_blocks` writes no bitmap. -/
lemma grow_full (h : v.Full) (L : v.geometry.Layout) (hi : v.HasInode i) (T : TreeData v used)
    (h512 : v.addrPerBlock ≤ 512 ∨ used ≤ 12 + v.addrPerBlock + 512 * v.addrPerBlock) :
    Growing.Post (v.grow i used toUse) (fun r => Spoiled v r.1) (fun r => Spoiled v r.1) := by
  have K := Kept.refl h i
  have ha : 0 < v.addrPerBlock := v.addrPerBlock_pos
  unfold grow
  dsimp only
  refine .bind (fun g => Kept v g.volume i ∧ g.used = used ∧ 12 ≤ used) ?_ ?_
  · by_cases hlt : used < 12
    · -- the first request is refused, and the loop throws
      obtain ⟨n, hn⟩ : ∃ n, 12 - used = n + 1 := ⟨11 - used, by omega⟩
      rw [hn, growDirect]
      refine .bind (fun _ => False) ?_ fun _ hf => hf.elim
      exact post_allocateOr_full h fun m => ((K.loadBlock m).updateInode L hi).spoiled L hi
    · rw [Nat.sub_eq_zero_of_le (Nat.not_lt.mp hlt), growDirect]
      exact .pure ⟨K, rfl, Nat.not_lt.mp hlt⟩
  · rintro g ⟨K, hused, h12⟩
    refine .bind _ (post_growSingle_full (K.updateInode L hi) L hi ?_) ?_
    · dsimp only
      intro h0
      exact T.single (by omega)
    · rintro g1 ⟨K1, hused1, hle1⟩
      dsimp only at hused1 hle1
      refine .bind _ (post_growBelowDibp_full K1 L hi ?_ ?_ ?_) ?_
      · dsimp only
        intro h0
        exact T.double (by omega)
      · dsimp only
        intro j hj hlt
        exact T.doubleTable j hj (by omega)
      · dsimp only
        omega
      · rintro g2 ⟨K2, hused2, hle2⟩
        dsimp only at hused2 hle2
        refine .bind _ (post_growBelowTibp_full K2 L hi ?_ ?_ ?_ ?_ ha) fun g3 hg3 => .pure hg3
        · dsimp only
          intro h0
          exact T.triple (by omega)
        · dsimp only
          intro j hj hlt
          exact T.middle j hj (by omega)
        · dsimp only
          intro j k hj hk hlt
          exact T.tripleTable j k hj hk (by omega)
        · dsimp only
          intro h0
          refine h512.elim id fun hle => ?_
          by_contra hgt
          have := Nat.mul_le_mul_right v.addrPerBlock (Nat.le_of_lt (Nat.not_le.mp hgt))
          omega

end Volume

end MarioBrOS.Fs
