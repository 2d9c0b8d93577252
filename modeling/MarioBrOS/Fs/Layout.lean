import MarioBrOS.Fs.Volume

/-!
# The layout of a volume

What never changes on a mounted volume: the sizes in the superblock and the addresses in the table
of group descriptors. `Layout` says that these describe a disk the driver can work with: the blocks
are within reach of 28-bit sector numbers, the bitmaps fit a block, there are as many groups of
blocks as of inodes (`filesystem_install` checks it), and the areas of the driver are apart from
each other. Every other block is a data block.
-/

namespace MarioBrOS.Fs

/-- The fixed data of a volume. -/
structure Geometry where
  blockSize : Nat
  inodeNum : Nat
  blockNum : Nat
  blockPerGroup : Nat
  inodePerGroup : Nat
  blockBitmap : Nat → Nat
  inodeBitmap : Nat → Nat
  inodeTable : Nat → Nat

/-- The areas of the driver on the disk. -/
inductive Region where
  | descriptors
  | blockBitmap (k : Nat)
  | inodeBitmap (k : Nat)
  | inodeTable (k : Nat)
  deriving DecidableEq

/-- The areas of a volume of `n` groups. -/
def Region.Valid (n : Nat) : Region → Prop
  | descriptors => True
  | blockBitmap k => k < n
  | inodeBitmap k => k < n
  | inodeTable k => k < n

namespace Geometry

variable (g : Geometry)

/-- The size of a block in bytes. -/
def bytes : Nat := 1024 * 2 ^ g.blockSize

/-- The number of block groups. -/
def groups : Nat := (g.blockNum + g.blockPerGroup - 1) / g.blockPerGroup

/-- The first byte of a block. -/
def blockByte (n : Nat) : Nat := 2 ^ 20 + g.bytes * n

/-- The first block of an area. -/
def start : Region → Nat
  | .descriptors => 1
  | .blockBitmap k => g.blockBitmap k
  | .inodeBitmap k => g.inodeBitmap k
  | .inodeTable k => g.inodeTable k

/-- The number of blocks of an area. -/
def length : Region → Nat
  | .descriptors => 1 + (g.groups * 32 - 1) / g.bytes
  | .blockBitmap _ => 1
  | .inodeBitmap _ => 1
  | .inodeTable _ => (g.inodePerGroup * 128 + g.bytes - 1) / g.bytes

/-- Block `n` lies in the area `r`. -/
def InRegion (r : Region) (n : Nat) : Prop := g.start r ≤ n ∧ n < g.start r + g.length r

/-- Block `n` holds neither bitmaps nor tables. -/
def IsData (n : Nat) : Prop := n < g.blockNum ∧ ∀ r, r.Valid g.groups → ¬ g.InRegion r n

/-- Byte `x` of the disk lies in block `n`. -/
def InBlock (n x : Nat) : Prop := g.blockByte n ≤ x ∧ x < g.blockByte n + g.bytes

/-- A volume the driver can work with. -/
structure Layout : Prop where
  supported : g.blockSize ≤ 7
  reach : 2 * 2 ^ g.blockSize * g.blockNum + 0x800 ≤ 2 ^ 28
  two_le_blockNum : 2 ≤ g.blockNum
  blockPerGroup_pos : 0 < g.blockPerGroup
  blockPerGroup_le : g.blockPerGroup ≤ 8 * g.bytes
  inodeNum_pos : 0 < g.inodeNum
  inodePerGroup_pos : 0 < g.inodePerGroup
  inodePerGroup_le : g.inodePerGroup ≤ 8 * g.bytes
  inodes_lt : g.inodeNum + g.inodePerGroup ≤ 2 ^ 32
  coherent : (g.inodeNum + g.inodePerGroup - 1) / g.inodePerGroup = g.groups
  inside : ∀ r, r.Valid g.groups → g.start r + g.length r ≤ g.blockNum
  apart : ∀ r r', r.Valid g.groups → r'.Valid g.groups → r ≠ r' → ∀ n,
    ¬ (g.InRegion r n ∧ g.InRegion r' n)

variable {g}

lemma four_dvd_bytes : 4 ∣ g.bytes := ⟨256 * 2 ^ g.blockSize, by unfold bytes; omega⟩

/-- Different blocks have no byte in common. -/
lemma inBlock_unique {n m x : Nat} (h : g.InBlock n x) (h' : g.InBlock m x) : n = m := by
  unfold InBlock blockByte at h h'
  have hn : (x - 2 ^ 20) / g.bytes = n :=
    Nat.div_eq_of_lt_le (by rw [Nat.mul_comm]; omega)
      (by rw [Nat.add_mul, Nat.one_mul, Nat.mul_comm n]; omega)
  have hm : (x - 2 ^ 20) / g.bytes = m :=
    Nat.div_eq_of_lt_le (by rw [Nat.mul_comm]; omega)
      (by rw [Nat.add_mul, Nat.one_mul, Nat.mul_comm m]; omega)
  exact hn.symm.trans hm

namespace Layout

lemma bitmap_lt (L : g.Layout) {k : Nat} (hk : k < g.groups) : g.blockBitmap k < g.blockNum :=
  Nat.lt_of_succ_le (L.inside (.blockBitmap k) hk)

lemma inodeBitmap_lt (L : g.Layout) {k : Nat} (hk : k < g.groups) :
    g.inodeBitmap k < g.blockNum :=
  Nat.lt_of_succ_le (L.inside (.inodeBitmap k) hk)

lemma groups_pos (L : g.Layout) : 0 < g.groups := by
  have h1 := L.two_le_blockNum
  have h2 := L.blockPerGroup_pos
  exact Nat.div_pos (by omega) h2

/-- A block lies in one area at most. -/
lemma region_unique (L : g.Layout) {r r' : Region} {n : Nat} (hr : r.Valid g.groups)
    (hr' : r'.Valid g.groups) (h : g.InRegion r n) (h' : g.InRegion r' n) : r = r' := by
  by_contra hne
  exact L.apart r r' hr hr' hne n ⟨h, h'⟩

/-- The groups hold all blocks. -/
lemma blockNum_le (L : g.Layout) : g.blockNum ≤ g.groups * g.blockPerGroup := by
  have hp := L.blockPerGroup_pos
  have h := Nat.div_add_mod (g.blockNum + g.blockPerGroup - 1) g.blockPerGroup
  have hm := Nat.mod_lt (g.blockNum + g.blockPerGroup - 1) hp
  rw [Nat.mul_comm] at h
  show g.blockNum ≤ (g.blockNum + g.blockPerGroup - 1) / g.blockPerGroup * g.blockPerGroup
  omega

/-- The group of an existing block exists. -/
lemma group_lt (L : g.Layout) {n : Nat} (hn : n < g.blockNum) :
    n / g.blockPerGroup < g.groups :=
  (Nat.div_lt_iff_lt_mul L.blockPerGroup_pos).mpr (hn.trans_le L.blockNum_le)

/-- The group of an existing inode exists. -/
lemma inodeGroup_lt (L : g.Layout) {i : Nat} (hi : i < g.inodeNum) :
    i / g.inodePerGroup < g.groups := by
  have hp := L.inodePerGroup_pos
  refine (Nat.div_lt_iff_lt_mul hp).mpr (hi.trans_le ?_)
  have h := Nat.div_add_mod (g.inodeNum + g.inodePerGroup - 1) g.inodePerGroup
  have hm := Nat.mod_lt (g.inodeNum + g.inodePerGroup - 1) hp
  rw [← L.coherent]
  rw [Nat.mul_comm] at h
  omega

end Layout

end Geometry

namespace Volume

/-- The fixed data of a volume. -/
def geometry (v : Volume) : Geometry where
  blockSize := v.spb.blockSize
  inodeNum := v.spb.inodeNum
  blockNum := v.spb.blockNum
  blockPerGroup := v.spb.blockPerGroup
  inodePerGroup := v.spb.inodePerGroup
  blockBitmap := v.blockAddressBitmap
  inodeBitmap := v.inodeAddressBitmap
  inodeTable := v.inodeTableAddress

variable {v v' : Volume} {n k i x : Nat}

/-- A block within reach of the driver lies where its number says. -/
lemma blockByte_of_reach (hr : v.blockFactor * n + 0x800 < 2 ^ 28) :
    v.blockByte n = v.geometry.blockByte n := by
  show lbaByte (v.blockFactor * n % 2 ^ 32) = 2 ^ 20 + 1024 * 2 ^ v.spb.blockSize * n
  rw [Nat.mod_eq_of_lt (by omega)]
  unfold lbaByte
  have e : 1024 * 2 ^ v.spb.blockSize * n = 512 * (v.blockFactor * n) := by
    unfold blockFactor
    rw [← Nat.mul_assoc]
    congr 1
    omega
  rw [add32_of_lt (by omega), Nat.mod_eq_of_lt (by omega), e]
  omega

lemma reach_of_lt (L : v.geometry.Layout) (hn : n < v.spb.blockNum) :
    v.blockFactor * (n + 1) + 0x800 ≤ 2 ^ 28 := by
  have hr : v.blockFactor * v.spb.blockNum + 0x800 ≤ 2 ^ 28 := L.reach
  have hm : v.blockFactor * (n + 1) ≤ v.blockFactor * v.spb.blockNum :=
    Nat.mul_le_mul_left _ hn
  omega

/-- A block of the volume lies where its number says. -/
lemma blockByte_eq (L : v.geometry.Layout) (hn : n < v.spb.blockNum) :
    v.blockByte n = v.geometry.blockByte n := by
  have hr := reach_of_lt L hn
  have hp := v.blockFactor_pos
  rw [Nat.mul_succ] at hr
  exact blockByte_of_reach (by omega)

lemma geometry_bytes : v.geometry.bytes = v.blockSize := rfl

/-- Loading a block copies it to `std_buf`. -/
lemma loadBlock_stdBuf (L : v.geometry.Layout) (hn : n < v.spb.blockNum) (hx : x < v.blockSize) :
    (v.loadBlock n).stdBuf x = v.disk (v.geometry.blockByte n + x) := by
  show readLBA _ _ _ _ _ = _
  unfold readLBA
  rw [sectors_blockFactor L.supported, Bytes.blit_apply_of_inside ⟨by omega, by omega⟩,
    ← blockByte_eq L hn]
  rfl

/-- Writing a block writes its bytes. -/
lemma writeBlock_inside (L : v.geometry.Layout) (hn : n < v.spb.blockNum)
    (hx : v.geometry.InBlock n x) (disk buf : Bytes) :
    writeLBA disk (v.block n) v.blockFactor buf x = buf (x - v.geometry.blockByte n) := by
  have hb : lbaByte (v.block n) = v.geometry.blockByte n := blockByte_eq L hn
  unfold writeLBA
  rw [sectors_blockFactor L.supported, hb, ← geometry_bytes, Bytes.blit_apply_of_inside hx,
    Nat.zero_add]

/-- Writing a block leaves the other blocks. -/
lemma writeBlock_outside (L : v.geometry.Layout) (hn : n < v.spb.blockNum)
    (hx : ¬ v.geometry.InBlock n x) (disk buf : Bytes) :
    writeLBA disk (v.block n) v.blockFactor buf x = disk x := by
  have hb : lbaByte (v.block n) = v.geometry.blockByte n := blockByte_eq L hn
  unfold Geometry.InBlock at hx
  rw [geometry_bytes] at hx
  unfold writeLBA
  rw [sectors_blockFactor L.supported, hb, Bytes.blit_apply_of_outside (by omega)]

/-- Writing back the descriptors leaves the blocks outside their area. -/
lemma writeDescriptors_outside (L : v.geometry.Layout)
    (hx : ∀ m, v.geometry.InBlock m x → ¬ v.geometry.InRegion .descriptors m)
    (disk bgpt : Bytes) :
    writeLBA disk (v.block 1) (v.blockFactor * (v.bgptSize / v.blockSize)) bgpt x = disk x := by
  unfold writeLBA
  have h1 : 1 < v.spb.blockNum := L.two_le_blockNum
  have hb : lbaByte (v.block 1) = v.geometry.blockByte 1 := blockByte_eq L h1
  rw [hb]
  have hp := v.blockSize_pos
  have hcount : v.bgptSize / v.blockSize = 1 + (v.blockGroupNum * 32 - 1) / v.blockSize :=
    Nat.mul_div_cancel_left _ hp
  have hs : ∀ c, 0 < c → sectors c ≤ c := by
    intro c hc
    unfold sectors
    omega
  have hc : 0 < v.blockFactor * (v.bgptSize / v.blockSize) :=
    Nat.mul_pos v.blockFactor_pos (hcount ▸ Nat.add_pos_left Nat.one_pos _)
  have hle := hs _ hc
  have hlen : 512 * (v.blockFactor * (v.bgptSize / v.blockSize)) =
      v.blockSize * (v.bgptSize / v.blockSize) := by
    rw [← Nat.mul_assoc, ← blockSize_eq]
  by_contra hne
  have hin : v.geometry.blockByte 1 ≤ x ∧ x < v.geometry.blockByte 1 +
      512 * sectors (v.blockFactor * (v.bgptSize / v.blockSize)) := by
    by_contra hout
    exact hne (Bytes.blit_apply_of_outside (by omega))
  -- the written byte lies in a block of the table
  have hq := Nat.div_add_mod (x - 2 ^ 20) v.blockSize
  have hr := Nat.mod_lt (x - 2 ^ 20) hp
  have hx0 : 2 ^ 20 + v.blockSize * 1 ≤ x := hin.1
  have hx1 : x < 2 ^ 20 + v.blockSize * 1 + 512 * sectors (v.blockFactor *
    (v.bgptSize / v.blockSize)) := hin.2
  refine hx ((x - 2 ^ 20) / v.blockSize) ⟨?_, ?_⟩ ⟨?_, ?_⟩
  · show 2 ^ 20 + v.blockSize * _ ≤ x
    omega
  · show x < 2 ^ 20 + v.blockSize * _ + v.blockSize
    omega
  · show 1 ≤ _
    exact (Nat.le_div_iff_mul_le hp).mpr (by omega)
  · show _ < 1 + (1 + (v.blockGroupNum * 32 - 1) / v.blockSize)
    rw [← hcount]
    refine (Nat.div_lt_iff_lt_mul hp).mpr ?_
    rw [Nat.mul_comm, Nat.mul_add]
    omega

end Volume

end MarioBrOS.Fs
