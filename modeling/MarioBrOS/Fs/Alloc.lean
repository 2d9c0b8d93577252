import MarioBrOS.Bitset
import MarioBrOS.Fs.Layout

/-!
# Allocating inodes and blocks

`allocate_inode`, `unallocate_inode`, `allocate_block` and `unallocate_block` of `filesystem.c`, as
the code has them: the search of `allocate_block` starts the group after a full one at `-1`, where
nothing is found, and ends one group too far when it finds nothing in the last one;
`unallocate_block` leaves the counters alone; `unallocate_inode` takes the bit of an inode modulo
2048. `flush_spb` writes nothing.

`Marked` is what all four do to the disk: one bit of one bitmap changes, and the descriptors are
written back.
-/

namespace MarioBrOS.Fs

/-- Difference of 16-bit words. -/
def sub16 (n m : Nat) : Nat := (n + 2 ^ 16 - m) % 2 ^ 16

/-- `(u_int32) (-1)`, the position that stands for none. -/
def NONE : Nat := 2 ^ 32 - 1

namespace Volume

variable (v : Volume)

/-- `spb.first_free_inode = n`. -/
def setFirstFreeInode (n : Nat) : Volume := { v with spb := { v.spb with firstFreeInode := n } }

/-- Writes the changed bitmap `buf` to block `address` and the changed descriptors `bgpt` to their
blocks: `writeLBA(BLOCK(address), block_factor, std_buf)` and `flush_bgpt()`. -/
def commitBitmap (address : Nat) (buf bgpt : Bytes) : Volume :=
  { v with
    stdBuf := buf
    bgpt := bgpt
    disk := writeLBA (writeLBA v.disk (v.block address) v.blockFactor buf) (v.block 1)
      (v.blockFactor * (v.bgptSize / v.blockSize)) bgpt }

/-! ## Inodes -/

/-- The forward search of `allocate_inode` through `n` groups from group `k` on: the volume, the
group it stops at and the position found. -/
def inodeSearch : Volume → Nat → Nat → Nat → Volume × Nat × Nat
  | v, 0, k, pos => (v, k, pos)
  | v, n + 1, k, pos =>
    let v := v.loadBlock (v.inodeAddressBitmap k)
    if v.unallocInode k = 0 then
      inodeSearch v n (k + 1) NONE
    else
      let pos := paramFfb v.stdBuf v.spb.inodePerGroup (add32 pos 1)
      if pos ≠ NONE then (v, k, pos) else inodeSearch v n (k + 1) pos

/-- `1 + (spb.inode_num - 1) / spb.inode_per_group`. -/
def inodeGroups : Nat := 1 + sub32 v.spb.inodeNum 1 / v.spb.inodePerGroup

/-- `filesystem.c`, `allocate_inode`, up to the search for the next free inode. -/
def takeInode (inode : Nat) : Volume :=
  let k := v.inodeGroup inode
  { v.commitBitmap (v.inodeAddressBitmap k) (setBit v.stdBuf (v.inodeIndex inode) true)
      (v.bgpt.set16 (32 * k + 14) (sub16 (v.unallocInode k) 1)) with
    spb := { v.spb with unallocInodeNum := sub32 v.spb.unallocInodeNum 1 } }

/-- `filesystem.c`, `allocate_inode`: the volume afterwards and the inode. -/
def allocateInode : Volume × Nat :=
  let ret := v.spb.firstFreeInode
  let k := v.inodeGroup ret
  let v := v.loadBlock (v.inodeAddressBitmap k)
  if v.spb.unallocInodeNum = 0 then
    (v, 0)
  else
    let v := v.takeInode ret
    let found := v.inodeSearch (v.inodeGroups - k) k (v.inodeIndex ret)
    if found.2.2 = NONE then
      -- the last free inode has been taken, but is not returned
      (found.1, 0)
    else
      (found.1.setFirstFreeInode ((found.2.1 * v.spb.inodePerGroup + found.2.2 + 1) % 2 ^ 32), ret)

/-- The position in the bitmap of its group at which `unallocate_inode` looks for an inode. -/
def freedIndex (inode : Nat) : Nat := sub32 inode 1 % 2048

/-- `filesystem.c`, `unallocate_inode`, where the bitmap of group `k` becomes `buf`. -/
def freeInode (k : Nat) (buf : Bytes) : Volume :=
  { v.commitBitmap (v.inodeAddressBitmap k) buf
      (v.bgpt.set16 (32 * k + 14) ((v.unallocInode k + 1) % 2 ^ 16)) with
    spb := { v.spb with unallocInodeNum := add32 v.spb.unallocInodeNum 1 } }

/-- `filesystem.c`, `unallocate_inode`: the volume afterwards and the error. -/
def unallocateInode (inode : Nat) : Volume × Nat :=
  -- the hint is lowered also for an inode that is not allocated
  let v := if inode < v.spb.firstFreeInode then v.setFirstFreeInode inode else v
  let k := v.inodeGroup inode
  let v := v.loadBlock (v.inodeAddressBitmap k)
  let word := 2 * (freedIndex inode / 16)
  let mask := 1 <<< (sub32 inode 1 % 16)
  if v.stdBuf.get16 word &&& mask = 0 then
    (v, 1)
  else
    (v.freeInode k (v.stdBuf.set16 word (v.stdBuf.get16 word &&& ((2 ^ 16 - 1) ^^^ mask))), 0)

/-! ## Blocks -/

/-- The search of `allocate_block` through `n` groups from position `pos` of group `k` on: the
volume, the group it stops at and the position found. -/
def blockSearch : Volume → Nat → Nat → Nat → Volume × Nat × Nat
  | v, 0, k, pos => (v, k, pos)
  | v, n + 1, k, pos =>
    let v := v.loadBlock (v.blockAddressBitmap k)
    if v.unallocBlock k = 0 then
      blockSearch v n (k + 1) NONE
    else
      let pos := paramFfb v.stdBuf v.spb.blockPerGroup pos
      if pos ≠ NONE then (v, k, pos) else blockSearch v n (k + 1) 0

/-- `filesystem.c`, `allocate_block`, where the search has found position `pos` of group `k`. -/
def takeBlock (k pos : Nat) : Volume :=
  { v.commitBitmap (v.blockAddressBitmap k) (setBit v.stdBuf pos true)
      (v.bgpt.set16 (32 * k + 12) (sub16 (v.unallocBlock k) 1)) with
    spb := { v.spb with unallocBlockNum := sub32 v.spb.unallocBlockNum 1 } }

/-- The last group the search of `allocate_block` looks at. -/
def lastGroup : Nat := sub32 v.spb.blockNum 1 / v.spb.blockPerGroup

/-- One run of the body of `allocate_block` from block `prec` on: the volume afterwards, and the
result unless no position was found. -/
def allocatePass (prec : Nat) : Volume × Option Nat :=
  let k := prec / v.spb.blockPerGroup
  let v := v.loadBlock (v.blockAddressBitmap k)
  if v.spb.unallocBlockNum = 0 then
    (v, some 0)
  else
    let found := v.blockSearch (v.lastGroup + 1 - k) k (prec % v.spb.blockPerGroup)
    if found.2.2 ≠ NONE then
      (found.1.takeBlock found.2.1 found.2.2,
        some ((found.2.1 * v.spb.blockPerGroup + found.2.2) % 2 ^ 32))
    else
      (found.1, none)

/-- The block at which `allocate_block` starts when asked for one after `prec`. -/
def searchStart (prec : Nat) : Nat :=
  if prec = 0 ∨ sub32 v.spb.blockNum 1 ≤ prec then 1 else prec

/-- `filesystem.c`, `allocate_block`: the volume afterwards and the block. The search starts over at
block 1 once; it throws when that fails too. -/
def allocateBlock (prec : Nat) : Option (Volume × Nat) :=
  let prec := v.searchStart prec
  let first := v.allocatePass prec
  match first.2 with
  | some block => some (first.1, block)
  | none =>
    if prec = 1 then
      none
    else
      let second := first.1.allocatePass 1
      match second.2 with
      | some block => some (second.1, block)
      | none => none

/-- `filesystem.c`, `unallocate_block`: the volume afterwards and the error. -/
def unallocateBlock (block : Nat) : Volume × Nat :=
  let address := v.blockAddressBitmap (block / v.spb.blockPerGroup)
  let v := v.loadBlock address
  let pos := block % v.spb.blockPerGroup
  if getBit v.stdBuf pos = false then
    (v, 1)
  else
    (v.commitBitmap address (setBit v.stdBuf pos false) v.bgpt, 0)

end Volume

end MarioBrOS.Fs
