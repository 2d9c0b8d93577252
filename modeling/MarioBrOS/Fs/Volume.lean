import MarioBrOS.Fs.Disk

/-!
# The volume

The globals of `filesystem.c` and its elementary accesses. The disk, the table of group descriptors
and the two standard buffers are byte memories, read and written through the fields of
`fs_types.h`; only the superblock, which is never written back, is a record. The bytes of `std_buf`
from `block_size` on stand for the memory behind the buffer.
-/

namespace MarioBrOS.Fs

/-- The fields of the superblock the driver uses (`fs_types.h`, `superblock_t`). -/
structure Superblock where
  inodeNum : Nat
  blockNum : Nat
  unallocBlockNum : Nat
  unallocInodeNum : Nat
  blockSize : Nat
  blockPerGroup : Nat
  inodePerGroup : Nat
  firstFreeInode : Nat
  deriving DecidableEq, Repr

/-- The disk and the globals of `filesystem.c`. -/
structure Volume where
  disk : Bytes
  spb : Superblock
  bgpt : Bytes
  stdBuf : Bytes
  stdInode : Bytes

namespace Volume

variable (v : Volume)

/-! ## Sizes -/

/-- `block_size`: the size of a block in bytes. -/
def blockSize : Nat := 1024 * 2 ^ v.spb.blockSize

/-- `block_factor`: the size of a block in sectors. -/
def blockFactor : Nat := 2 * 2 ^ v.spb.blockSize

/-- The number of block groups (`filesystem_install`, `block_group_num`). -/
def blockGroupNum : Nat := (v.spb.blockNum + v.spb.blockPerGroup - 1) / v.spb.blockPerGroup

/-- `bgpt_size`: the size of the descriptor table, in whole blocks (`filesystem_install`). -/
def bgptSize : Nat := v.blockSize * (1 + (v.blockGroupNum * 32 - 1) / v.blockSize)

/-- `filesystem.c`, `BLOCK`. -/
def block (n : Nat) : Nat := v.blockFactor * n % 2 ^ 32

/-- The first byte of block `n` on the disk. -/
def blockByte (n : Nat) : Nat := lbaByte (v.block n)

/-! ## The descriptor table (`fs_types.h`, `bgp_t`) -/

def blockAddressBitmap (k : Nat) : Nat := v.bgpt.get32 (32 * k)

def inodeAddressBitmap (k : Nat) : Nat := v.bgpt.get32 (32 * k + 4)

def inodeTableAddress (k : Nat) : Nat := v.bgpt.get32 (32 * k + 8)

def unallocBlock (k : Nat) : Nat := v.bgpt.get16 (32 * k + 12)

def unallocInode (k : Nat) : Nat := v.bgpt.get16 (32 * k + 14)

/-! ## Blocks, inodes and the tables -/

/-- Replaces the contents of `std_buf`. -/
def setStdBuf (buf : Bytes) : Volume := { v with stdBuf := buf }

/-- `readLBA(BLOCK(n), block_factor, std_buf)`. -/
def loadBlock (n : Nat) : Volume :=
  { v with stdBuf := readLBA v.disk (v.block n) v.blockFactor v.stdBuf }

/-- `writeLBA(BLOCK(n), block_factor, std_buf)`. -/
def storeBlock (n : Nat) : Volume :=
  { v with disk := writeLBA v.disk (v.block n) v.blockFactor v.stdBuf }

/-- `filesystem.c`, `update_block`, from the bytes of `buffer` at `start` on. -/
def updateBlock (buffer : Bytes) (start ofs length address : Nat) : Volume :=
  let address := add32 address (v.blockFactor * (ofs / v.blockSize) % 2 ^ 32)
  let ofs := ofs % v.blockSize
  let buf := (readLBA v.disk address v.blockFactor v.stdBuf).blit ofs buffer start length
  { v with stdBuf := buf, disk := writeLBA v.disk address v.blockFactor buf }

/-- `(inode-1) / spb.inode_per_group`. -/
def inodeGroup (inode : Nat) : Nat := sub32 inode 1 / v.spb.inodePerGroup

/-- `(inode-1) % spb.inode_per_group`. -/
def inodeIndex (inode : Nat) : Nat := sub32 inode 1 % v.spb.inodePerGroup

/-- `filesystem.c`, `set_inode`, whose buffer is always `std_inode`. -/
def setInode (inode : Nat) : Option Volume :=
  (readPio v.disk (v.block (v.inodeTableAddress (v.inodeGroup inode)))
    (v.inodeIndex inode * 128 % 2 ^ 32) 128 v.stdInode 0).map
      fun buffer => { v with stdInode := buffer }

/-- `filesystem.c`, `update_inode`, whose buffer is always `std_inode`. -/
def updateInode (inode : Nat) : Volume :=
  v.updateBlock v.stdInode 0 (v.inodeIndex inode * 128 % 2 ^ 32) 128
    (v.block (v.inodeTableAddress (v.inodeGroup inode)))

/-! ## The inode in `std_inode` (`fs_types.h`, `inode_t`) -/

/-- `std_inode->type`. -/
def type : Nat := v.stdInode.get16 0

/-- `std_inode->size_low`. -/
def sizeLow : Nat := v.stdInode.get32 4

/-- `std_inode->dbp[i]`. -/
def dbp (i : Nat) : Nat := v.stdInode.get32 (40 + 4 * i)

/-- `std_inode->sibp`. -/
def sibp : Nat := v.stdInode.get32 88

/-- `std_inode->dibp`. -/
def dibp : Nat := v.stdInode.get32 92

/-- `std_inode->tibp`. -/
def tibp : Nat := v.stdInode.get32 96

/-- Stores a word into `std_inode`. -/
def setField (offset n : Nat) : Volume := { v with stdInode := v.stdInode.set32 offset n }

/-- `std_inode->size_low = n`. -/
def setSizeLow (n : Nat) : Volume := v.setField 4 n

/-- `std_inode->dbp[i] = n`. -/
def setDbp (i n : Nat) : Volume := v.setField (40 + 4 * i) n

/-! ## What the accesses do -/

variable {v}

@[simp] lemma setStdBuf_blockSize {buf : Bytes} : (v.setStdBuf buf).blockSize = v.blockSize := rfl

@[simp] lemma setStdBuf_block {buf : Bytes} : (v.setStdBuf buf).block = v.block := rfl

lemma blockSize_eq : v.blockSize = 512 * v.blockFactor := by
  unfold blockSize blockFactor
  omega

/-- A block of a supported size is at most 256 sectors long. -/
lemma blockFactor_le (hs : v.spb.blockSize ≤ 7) : v.blockFactor ≤ 256 := by
  have h := Nat.pow_le_pow_right (n := 2) (by omega) hs
  unfold blockFactor
  omega

lemma blockFactor_pos (v : Volume) : 0 < v.blockFactor := by
  have h := Nat.two_pow_pos v.spb.blockSize
  unfold blockFactor
  omega

lemma blockSize_pos (v : Volume) : 0 < v.blockSize := by
  rw [blockSize_eq]
  have := v.blockFactor_pos
  omega

lemma sectors_blockFactor (hs : v.spb.blockSize ≤ 7) :
    512 * sectors v.blockFactor = v.blockSize := by
  rw [sectors_of_le v.blockFactor_pos (blockFactor_le hs), blockSize_eq]

/-- An update inside one block changes its own bytes and no others. -/
lemma updateBlock_disk (hs : v.spb.blockSize ≤ 7) {buffer : Bytes} {start ofs length address : Nat}
    (ha : address < 2 ^ 32) (ho : ofs < v.blockSize) (hl : ofs + length ≤ v.blockSize) :
    (v.updateBlock buffer start ofs length address).disk =
      v.disk.blit (lbaByte address + ofs) buffer start length := by
  unfold updateBlock
  rw [Nat.div_eq_of_lt ho, Nat.mod_eq_of_lt ho, Nat.mul_zero, Nat.zero_mod, add32_of_lt (by omega),
    Nat.add_zero]
  dsimp only
  unfold writeLBA readLBA
  rw [sectors_blockFactor hs]
  funext x
  by_cases hx : lbaByte address ≤ x ∧ x < lbaByte address + v.blockSize
  · rw [Bytes.blit_apply_of_inside hx, Nat.zero_add]
    by_cases hy : lbaByte address + ofs ≤ x ∧ x < lbaByte address + ofs + length
    · rw [Bytes.blit_apply_of_inside hy, Bytes.blit_apply_of_inside (by omega)]
      congr 1
      omega
    · rw [Bytes.blit_apply_of_outside (by omega), Bytes.blit_apply_of_inside (by omega),
        Bytes.blit_apply_of_outside (by omega)]
      congr 1
      omega
  · rw [Bytes.blit_apply_of_outside (by omega), Bytes.blit_apply_of_outside (by omega)]

lemma updateBlock_eq (hs : v.spb.blockSize ≤ 7) (buffer : Bytes) (start : Nat)
    {ofs length address : Nat} (ha : address < 2 ^ 32) (ho : ofs < v.blockSize) (hl : ofs + length ≤ v.blockSize) :
    ∃ buf, v.updateBlock buffer start ofs length address =
      { v with stdBuf := buf, disk := v.disk.blit (lbaByte address + ofs) buffer start length } := by
  rw [← updateBlock_disk hs ha ho hl]
  exact ⟨_, rfl⟩

lemma block_lt (v : Volume) (n : Nat) : v.block n < 2 ^ 32 := Nat.mod_lt _ (by omega)

/-- Loading an inode touches `std_inode` only. -/
lemma setInode_eq {inode : Nat} {v' : Volume} (h : v.setInode inode = some v') :
    v' = { v with stdInode := v'.stdInode } := by
  unfold setInode at h
  rcases Option.map_eq_some_iff.mp h with ⟨_, _, rfl⟩
  rfl

/-- An inode can always be loaded. -/
lemma setInode_isSome (v : Volume) (inode : Nat) : ∃ v', v.setInode inode = some v' := by
  unfold setInode readPio
  rw [if_neg (by omega)]
  dsimp only
  rw [if_neg (by omega)]
  exact ⟨_, rfl⟩

end Volume

end MarioBrOS.Fs
