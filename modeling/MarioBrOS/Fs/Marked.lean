import MarioBrOS.Fs.Alloc

/-!
# What the allocators do to the disk

`Marked` says that one bit of one bitmap changed and that otherwise only the descriptor blocks were
written. Each allocator operation is characterised by it and by its effect on the counters; the
accounting, the allocators' claims and the file operations use these lemmas only.
-/

namespace MarioBrOS.Fs

namespace Volume

variable {v v' : Volume} {n k j i x : Nat}

/-! ## Counters -/

/-- The geometry does not depend on the counters, neither those of the superblock nor those of the
descriptor table. -/
lemma geometry_of_counters {a b c d n k : Nat} (hd : d = 12 ∨ d = 14)
    (hs : v'.spb = { v.spb with unallocBlockNum := a, unallocInodeNum := b, firstFreeInode := c })
    (hb : v'.bgpt = v.bgpt.set16 (32 * k + d) n) : v'.geometry = v.geometry := by
  have key : ∀ e, e ≤ 8 → ∀ j, v'.bgpt.get32 (32 * j + e) = v.bgpt.get32 (32 * j + e) := by
    intro e he j
    rw [hb]
    exact Bytes.get32_set16_of_disjoint (by omega)
  unfold geometry blockAddressBitmap inodeAddressBitmap inodeTableAddress
  rw [hs]
  congr 1
  · exact funext fun j => key 0 (by omega) j
  · exact funext fun j => key 4 (by omega) j
  · exact funext fun j => key 8 (by omega) j

lemma geometry_congr (hs : v'.spb = v.spb) (hb : v'.bgpt = v.bgpt) : v'.geometry = v.geometry := by
  unfold geometry blockAddressBitmap inodeAddressBitmap inodeTableAddress
  rw [hs, hb]

/-- A table in which the counter at `c` of group `k` is set. -/
lemma counter_set16 {c d : Nat} {m : Bytes} (hc : c = 12 ∨ c = 14) (hd : d = 12 ∨ d = 14)
    (hn : n < 2 ^ 16) :
    (m.set16 (32 * k + c) n).get16 (32 * j + d) =
      if j = k ∧ d = c then n else m.get16 (32 * j + d) := by
  by_cases h : j = k ∧ d = c
  · rw [if_pos h, h.1, h.2]
    exact Bytes.get16_set16 hn
  · rw [if_neg h]
    exact Bytes.get16_set16_of_disjoint (by omega)

/-! ## Bitmaps -/

/-- Bit `i` of the bitmap in area `r`. -/
def bitmapBit (v : Volume) (r : Region) (i : Nat) : Bool :=
  v.disk.bit (v.geometry.blockByte (v.geometry.start r)) i

/-- A bit of a bitmap lies in its block. -/
lemma inBlock_bit (hi : i < 8 * v.geometry.bytes) :
    v.geometry.InBlock n (v.geometry.blockByte n + i / 8) :=
  ⟨by omega, by omega⟩

/-- `std_buf` holds block `n`. -/
def Loaded (v : Volume) (n : Nat) : Prop :=
  ∀ x, x < v.blockSize → v.stdBuf x = v.disk (v.geometry.blockByte n + x)

lemma loaded_loadBlock (L : v.geometry.Layout) (hn : n < v.spb.blockNum) :
    (v.loadBlock n).Loaded n := fun _ hx => loadBlock_stdBuf L hn hx

/-- The bits of a bitmap, once it is in `std_buf`. -/
lemma Loaded.bit {r : Region} (h : v.Loaded (v.geometry.start r)) (hi : i < 8 * v.blockSize) :
    v.stdBuf.bit 0 i = v.bitmapBit r i := by
  refine Bytes.bit_congr ?_
  rw [Nat.zero_add, h _ (by omega)]

/-- Bit `i` of the bitmap `r` becomes `value`; besides, only descriptors are written. -/
structure Marked (v v' : Volume) (r : Region) (i : Nat) (value : Bool) : Prop where
  geometry : v'.geometry = v.geometry
  stdInode : v'.stdInode = v.stdInode
  bit : ∀ j, j < 8 * v.geometry.bytes →
    v'.bitmapBit r j = if j = i then value else v.bitmapBit r j
  other : ∀ m x, v.geometry.InBlock m x → m ≠ v.geometry.start r →
    ¬ v.geometry.InRegion .descriptors m → v'.disk x = v.disk x

/-- What `std_buf` holds before and after does not matter. -/
lemma Marked.of_setStdBuf {r : Region} {value : Bool} {buf : Bytes}
    (h : Marked (v.setStdBuf buf) v' r i value) : Marked v v' r i value :=
  ⟨h.geometry, h.stdInode, h.bit, h.other⟩

lemma Marked.setStdBuf {r : Region} {value : Bool} (h : Marked v v' r i value) (buf : Bytes) :
    Marked v (v'.setStdBuf buf) r i value :=
  ⟨h.geometry, h.stdInode, h.bit, h.other⟩

lemma Marked.setFirstFreeInode {r : Region} {value : Bool} (h : Marked v v' r i value) (n : Nat) :
    Marked v (v'.setFirstFreeInode n) r i value :=
  ⟨h.geometry, h.stdInode, h.bit, h.other⟩

/-- A bitmap other than the marked one keeps its bits. -/
lemma Marked.bit_of_ne {r r' : Region} {value : Bool} (h : Marked v v' r i value)
    (hn : v.geometry.start r' ≠ v.geometry.start r)
    (hd : ¬ v.geometry.InRegion .descriptors (v.geometry.start r'))
    (hj : j < 8 * v.geometry.bytes) : v'.bitmapBit r' j = v.bitmapBit r' j := by
  unfold bitmapBit
  rw [h.geometry]
  exact Bytes.bit_congr (h.other _ _ (inBlock_bit hj) hn hd)

/-- Writing back a bitmap with one bit changed marks the bit. -/
lemma marked_commit {r : Region} {value : Bool} {buf bgpt : Bytes}
    (L : v.geometry.Layout) (hn : v.geometry.start r < v.spb.blockNum)
    (hd : ¬ v.geometry.InRegion .descriptors (v.geometry.start r))
    (hbit : ∀ j, j < 8 * v.geometry.bytes →
      buf.bit 0 j = if j = i then value else v.bitmapBit r j)
    (hg : v'.geometry = v.geometry) (hi : v'.stdInode = v.stdInode)
    (hdisk : v'.disk = (v.commitBitmap (v.geometry.start r) buf bgpt).disk) :
    Marked v v' r i value := by
  have hc : ∀ x, (∀ m, v.geometry.InBlock m x → ¬ v.geometry.InRegion .descriptors m) →
      v'.disk x = writeLBA v.disk (v.block (v.geometry.start r)) v.blockFactor buf x := by
    intro x hx
    rw [hdisk]
    exact writeDescriptors_outside L hx _ _
  refine ⟨hg, hi, fun j hj => ?_, fun m x hx hm hmd => ?_⟩
  · have hx := inBlock_bit (v := v) (n := v.geometry.start r) hj
    rw [← hbit j hj]
    refine Bytes.bit_congr ?_
    rw [hg, hc _ fun m hm => Geometry.inBlock_unique hx hm ▸ hd, writeBlock_inside L hn hx,
      Nat.add_sub_cancel_left, Nat.zero_add]
  · rw [hc _ fun m' hm' => Geometry.inBlock_unique hx hm' ▸ hmd]
    exact writeBlock_outside L hn (fun h => hm (Geometry.inBlock_unique hx h)) _ _

end Volume

namespace Geometry.Layout

variable {g : Geometry} {k : Nat}

lemma blockBitmap_not_descriptors (L : g.Layout) (hk : k < g.groups) :
    ¬ g.InRegion .descriptors (g.start (.blockBitmap k)) := fun h =>
  L.apart .descriptors (.blockBitmap k) trivial hk (by simp) _ ⟨h, le_refl _, Nat.lt_succ_self _⟩

lemma inodeBitmap_not_descriptors (L : g.Layout) (hk : k < g.groups) :
    ¬ g.InRegion .descriptors (g.start (.inodeBitmap k)) := fun h =>
  L.apart .descriptors (.inodeBitmap k) trivial hk (by simp) _ ⟨h, le_refl _, Nat.lt_succ_self _⟩

/-- Different bitmaps lie in different blocks. -/
lemma start_ne (L : g.Layout) {r r' : Region} (hr : r.Valid g.groups) (hr' : r'.Valid g.groups)
    (h1 : g.length r = 1) (h2 : g.length r' = 1) (h : r ≠ r') : g.start r ≠ g.start r' := by
  intro e
  refine L.apart r r' hr hr' h (g.start r) ⟨⟨le_refl _, by omega⟩, ⟨e.ge, by omega⟩⟩

end Geometry.Layout

namespace Volume

variable {v : Volume} {n k j i x : Nat}

/-! ## Taking and freeing -/

/-- Taking an inode sets its bit. -/
lemma takeInode_marked (L : v.geometry.Layout)
    (hk : v.inodeGroup i < v.geometry.groups)
    (hl : v.Loaded (v.inodeAddressBitmap (v.inodeGroup i))) :
    Marked v (v.takeInode i) (.inodeBitmap (v.inodeGroup i)) (v.inodeIndex i) true := by
  refine marked_commit L (L.inodeBitmap_lt hk) (L.inodeBitmap_not_descriptors hk) (fun j hj => ?_)
    (geometry_of_counters (.inr rfl) rfl rfl) rfl rfl
  rw [← Loaded.bit hl hj]
  exact bit_setBit v.stdBuf (v.inodeIndex i) true j

/-- Taking a block sets its bit. -/
lemma takeBlock_marked (L : v.geometry.Layout) (hk : k < v.geometry.groups)
    (hl : v.Loaded (v.blockAddressBitmap k)) :
    Marked v (v.takeBlock k i) (.blockBitmap k) i true := by
  refine marked_commit L (L.bitmap_lt hk) (L.blockBitmap_not_descriptors hk) (fun j hj => ?_)
    (geometry_of_counters (.inl rfl) rfl rfl) rfl rfl
  rw [← Loaded.bit hl hj]
  exact bit_setBit v.stdBuf i true j

/-! ## The searches -/

/-- The bitmap of the inodes of group `k`, as it stands on the disk. -/
def inodeBits (v : Volume) (k : Nat) : Bytes :=
  fun x => v.disk (v.geometry.blockByte (v.inodeAddressBitmap k) + x)

/-- The bitmap of the blocks of group `k`, as it stands on the disk. -/
def blockBits (v : Volume) (k : Nat) : Bytes :=
  fun x => v.disk (v.geometry.blockByte (v.blockAddressBitmap k) + x)

lemma inodeBits_bit (v : Volume) (k i : Nat) :
    (v.inodeBits k).bit 0 i = v.bitmapBit (.inodeBitmap k) i := by
  unfold Bytes.bit inodeBits bitmapBit
  rw [Nat.zero_add]
  rfl

lemma blockBits_bit (v : Volume) (k i : Nat) :
    (v.blockBits k).bit 0 i = v.bitmapBit (.blockBitmap k) i := by
  unfold Bytes.bit blockBits bitmapBit
  rw [Nat.zero_add]
  rfl

/-- Replacing `std_buf` before a block is loaded makes no difference. -/
lemma loadBlock_setStdBuf (buf : Bytes) (n : Nat) :
    ∃ buf', (v.setStdBuf buf).loadBlock n = v.setStdBuf buf' := ⟨_, rfl⟩

/-- A search in a bitmap just loaded is a search in the bitmap on the disk. -/
lemma paramFfb_loaded {w : Volume} {bits : Bytes} {length : Nat} (hl : length ≤ 8 * w.blockSize)
    (h : ∀ x, x < w.blockSize → w.stdBuf x = bits x) (first : Nat) :
    paramFfb w.stdBuf length first = paramFfb bits length first :=
  paramFfb_congr fun x hx => h x (by omega)

/-- One group of the search of `allocate_inode`. -/
lemma inodeSearch_succ (L : v.geometry.Layout) (hk : k < v.geometry.groups) (n pos : Nat)
    (buf : Bytes) :
    ∃ buf', inodeSearch (v.setStdBuf buf) (n + 1) k pos =
      if v.unallocInode k = 0 ∨
          paramFfb (v.inodeBits k) v.spb.inodePerGroup (add32 pos 1) = NONE then
        inodeSearch (v.setStdBuf buf') n (k + 1) NONE
      else
        (v.setStdBuf buf', k, paramFfb (v.inodeBits k) v.spb.inodePerGroup (add32 pos 1)) := by
  rcases loadBlock_setStdBuf (v := v) buf (v.inodeAddressBitmap k) with ⟨buf', hbuf⟩
  have hload := loaded_loadBlock (v := v.setStdBuf buf) L (L.inodeBitmap_lt hk)
  have hffb : paramFfb buf' v.spb.inodePerGroup (add32 pos 1) =
      paramFfb (v.inodeBits k) v.spb.inodePerGroup (add32 pos 1) := by
    change ((v.setStdBuf buf).loadBlock (v.inodeAddressBitmap k)).Loaded _ at hload
    rw [hbuf] at hload
    exact paramFfb_loaded (w := v.setStdBuf buf') L.inodePerGroup_le hload _
  refine ⟨buf', ?_⟩
  rw [← hffb]
  have hbuf' : (v.setStdBuf buf).loadBlock ((v.setStdBuf buf).inodeAddressBitmap k) =
    v.setStdBuf buf' := hbuf
  rw [inodeSearch]
  dsimp only
  rw [hbuf']
  change (if v.unallocInode k = 0 then inodeSearch (v.setStdBuf buf') n (k + 1) NONE else
    if paramFfb buf' v.spb.inodePerGroup (add32 pos 1) ≠ NONE then
      (v.setStdBuf buf', k, paramFfb buf' v.spb.inodePerGroup (add32 pos 1)) else
      inodeSearch (v.setStdBuf buf') n (k + 1) (paramFfb buf' v.spb.inodePerGroup (add32 pos 1)))
    = _
  by_cases hu : v.unallocInode k = 0
  · rw [if_pos hu, if_pos (.inl hu)]
  by_cases hp : paramFfb buf' v.spb.inodePerGroup (add32 pos 1) = NONE
  · rw [if_neg hu, if_neg (not_not.mpr hp), if_pos (.inr hp), hp]
  · rw [if_neg hu, if_pos hp, if_neg (not_or.mpr ⟨hu, hp⟩)]

/-- One group of the search of `allocate_block`. -/
lemma blockSearch_succ (L : v.geometry.Layout) (hk : k < v.geometry.groups) (n pos : Nat)
    (buf : Bytes) :
    ∃ buf', (v.setStdBuf buf').Loaded (v.blockAddressBitmap k) ∧
      blockSearch (v.setStdBuf buf) (n + 1) k pos =
        if v.unallocBlock k = 0 then
          blockSearch (v.setStdBuf buf') n (k + 1) NONE
        else if paramFfb (v.blockBits k) v.spb.blockPerGroup pos = NONE then
          blockSearch (v.setStdBuf buf') n (k + 1) 0
        else
          (v.setStdBuf buf', k, paramFfb (v.blockBits k) v.spb.blockPerGroup pos) := by
  rcases loadBlock_setStdBuf (v := v) buf (v.blockAddressBitmap k) with ⟨buf', hbuf⟩
  have hload := loaded_loadBlock (v := v.setStdBuf buf) L (L.bitmap_lt hk)
  change ((v.setStdBuf buf).loadBlock (v.blockAddressBitmap k)).Loaded _ at hload
  rw [hbuf] at hload
  have hffb : paramFfb buf' v.spb.blockPerGroup pos =
      paramFfb (v.blockBits k) v.spb.blockPerGroup pos :=
    paramFfb_loaded (w := v.setStdBuf buf') L.blockPerGroup_le hload _
  refine ⟨buf', hload, ?_⟩
  rw [← hffb]
  have hbuf' : (v.setStdBuf buf).loadBlock ((v.setStdBuf buf).blockAddressBitmap k) =
    v.setStdBuf buf' := hbuf
  rw [blockSearch]
  dsimp only
  rw [hbuf']
  change (if v.unallocBlock k = 0 then blockSearch (v.setStdBuf buf') n (k + 1) NONE else
    if paramFfb buf' v.spb.blockPerGroup pos ≠ NONE then
      (v.setStdBuf buf', k, paramFfb buf' v.spb.blockPerGroup pos) else
      blockSearch (v.setStdBuf buf') n (k + 1) 0) = _
  by_cases hu : v.unallocBlock k = 0
  · rw [if_pos hu, if_pos hu]
  by_cases hp : paramFfb buf' v.spb.blockPerGroup pos = NONE
  · rw [if_neg hu, if_neg (not_not.mpr hp), if_neg hu, if_pos hp]
  · rw [if_neg hu, if_pos hp, if_neg hu, if_neg hp]

end Volume

end MarioBrOS.Fs
