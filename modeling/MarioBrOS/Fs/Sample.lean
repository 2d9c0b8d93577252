import MarioBrOS.Fs.Layout
import Mathlib.Tactic.IntervalCases

/-!
# A small volume

Two groups of 32 blocks of 1024 bytes and 32 inodes each: the descriptors in block 1, the block
bitmaps in blocks 2 and 3, the inode bitmaps in blocks 4 and 5, the inode tables from blocks 6 and
10 on; blocks 14 to 63 are data blocks. The contents and the counters are arguments.
-/

namespace MarioBrOS.Fs

/-- The fixed data of the small volume. -/
def sampleGeometry : Geometry where
  blockSize := 0
  inodeNum := 64
  blockNum := 64
  blockPerGroup := 32
  inodePerGroup := 32
  blockBitmap k := (2 + k) % 2 ^ 32
  inodeBitmap k := (4 + k) % 2 ^ 32
  inodeTable k := (6 + 4 * k) % 2 ^ 32

/-- The descriptors of the small volume: word `i`, with the counters of group `k` in `counts k`. -/
def sampleDescriptor (counts : Nat → Nat) (i : Nat) : Nat :=
  if i % 8 = 0 then (2 + i / 8) % 2 ^ 32
  else if i % 8 = 1 then (4 + i / 8) % 2 ^ 32
  else if i % 8 = 2 then (6 + 4 * (i / 8)) % 2 ^ 32
  else if i % 8 = 3 then counts (i / 8)
  else 0

/-- The words of a disk on which `word n i` is the word `i` of block `n`. -/
def sampleWord (word : Nat → Nat → Nat) (k : Nat) : Nat :=
  if k < 2 ^ 18 then 0 else word ((k - 2 ^ 18) / 256) ((k - 2 ^ 18) % 256)

/-- The small volume whose block `n` holds the words `word n`; `counts k` is the word with the two
counters of group `k`, that of its blocks in the lower half. -/
def sampleVolume (word : Nat → Nat → Nat) (counts : Nat → Nat) (blocks inodes first : Nat) :
    Volume where
  disk := Bytes.ofWords (sampleWord word)
  spb :=
    { inodeNum := 64, blockNum := 64, unallocBlockNum := blocks, unallocInodeNum := inodes
      blockSize := 0, blockPerGroup := 32, inodePerGroup := 32, firstFreeInode := first }
  bgpt := Bytes.ofWords (sampleDescriptor counts)
  stdBuf := fun _ => 0
  stdInode := fun _ => 0

lemma sampleVolume_geometry (word : Nat → Nat → Nat) (counts : Nat → Nat)
    (blocks inodes first : Nat) :
    (sampleVolume word counts blocks inodes first).geometry = sampleGeometry := by
  have key : ∀ k d, d < 3 → (Bytes.ofWords (sampleDescriptor counts)).get32 (32 * k + 4 * d) =
      sampleDescriptor counts (8 * k + d) := by
    intro k d hd
    rw [show 32 * k + 4 * d = 4 * (8 * k + d) by omega, Bytes.get32_ofWords]
    unfold sampleDescriptor
    split_ifs <;> omega
  unfold Volume.geometry sampleGeometry Volume.blockAddressBitmap Volume.inodeAddressBitmap
    Volume.inodeTableAddress
  congr 1 <;> funext k
  · refine (key k 0 (by omega)).trans ?_
    unfold sampleDescriptor
    rw [if_pos (by omega)]
    congr 1
    omega
  · refine (key k 1 (by omega)).trans ?_
    unfold sampleDescriptor
    rw [if_neg (by omega), if_pos (by omega)]
    congr 1
    omega
  · refine (key k 2 (by omega)).trans ?_
    unfold sampleDescriptor
    rw [if_neg (by omega), if_neg (by omega), if_pos (by omega)]
    congr 1
    omega

lemma sampleGeometry_groups : sampleGeometry.groups = 2 := rfl

/-- Where the areas of the driver lie. -/
def sampleArea (n : Nat) : Region → Prop
  | .descriptors => n = 1
  | .blockBitmap k => n = 2 + k
  | .inodeBitmap k => n = 4 + k
  | .inodeTable k => 6 + 4 * k ≤ n ∧ n < 10 + 4 * k

lemma sampleGeometry_area {n : Nat} {r : Region} (hv : r.Valid 2)
    (hr : sampleGeometry.InRegion r n) : sampleArea n r := by
  unfold sampleArea
  cases r with
  | descriptors => exact Nat.le_antisymm (Nat.lt_succ_iff.mp hr.2) hr.1
  | blockBitmap k =>
    have hk : k < 2 := hv
    have h1 : (2 + k) % 2 ^ 32 ≤ n := hr.1
    have h2 : n < (2 + k) % 2 ^ 32 + 1 := hr.2
    dsimp only
    omega
  | inodeBitmap k =>
    have hk : k < 2 := hv
    have h1 : (4 + k) % 2 ^ 32 ≤ n := hr.1
    have h2 : n < (4 + k) % 2 ^ 32 + 1 := hr.2
    dsimp only
    omega
  | inodeTable k =>
    have hk : k < 2 := hv
    have h1 : (6 + 4 * k) % 2 ^ 32 ≤ n := hr.1
    have h2 : n < (6 + 4 * k) % 2 ^ 32 + 4 := hr.2
    dsimp only
    omega

lemma sampleGeometry_layout : sampleGeometry.Layout where
  supported := by decide
  reach := by decide
  two_le_blockNum := by decide
  blockPerGroup_pos := by decide
  blockPerGroup_le := by decide
  inodeNum_pos := by decide
  inodePerGroup_pos := by decide
  inodePerGroup_le := by decide
  inodes_lt := by decide
  coherent := by decide
  inside r hr := by
    cases r with
    | descriptors => decide
    | blockBitmap k =>
      have hk : k < 2 := hr
      interval_cases k <;> decide
    | inodeBitmap k =>
      have hk : k < 2 := hr
      interval_cases k <;> decide
    | inodeTable k =>
      have hk : k < 2 := hr
      interval_cases k <;> decide
  apart r r' hr hr' hne n h := by
    have h1 := sampleGeometry_area hr h.1
    have h2 := sampleGeometry_area hr' h.2
    unfold sampleArea at h1 h2
    cases r <;> cases r' <;> simp only [Region.Valid, sampleGeometry_groups] at hr hr' <;>
      first
        | exact hne rfl
        | omega
        | (refine hne (congrArg _ ?_); omega)

/-- The blocks behind the areas of the driver hold data. -/
lemma sampleGeometry_isData {n : Nat} (h0 : 14 ≤ n) (h : n < 64) : sampleGeometry.IsData n := by
  refine ⟨h, fun r hr hn => ?_⟩
  rw [sampleGeometry_groups] at hr
  cases r with
  | descriptors =>
    have h2 : n < 1 + 1 := hn.2
    omega
  | blockBitmap k =>
    have hk : k < 2 := hr
    have h2 : n < (2 + k) % 2 ^ 32 + 1 := hn.2
    omega
  | inodeBitmap k =>
    have hk : k < 2 := hr
    have h2 : n < (4 + k) % 2 ^ 32 + 1 := hn.2
    omega
  | inodeTable k =>
    have hk : k < 2 := hr
    have h2 : n < (6 + 4 * k) % 2 ^ 32 + 4 := hn.2
    omega

end MarioBrOS.Fs
