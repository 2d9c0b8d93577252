import MarioBrOS.Fs.Alloc
import MarioBrOS.Fs.Dir

/-!
# Files

`erase_file_data`, `prepare_blocks` and `create_file` of `filesystem.c`. The first two walk through
the tree of an inode with `std_buf` as the only buffer, which `allocate_block` and
`unallocate_block` overwrite with a bitmap at every call; the tables below `dibp` and `tibp` are
transferred in four sectors whatever the size of a block, and `erase_file_data` passes sector
numbers to `unallocate_block` where it frees a table.
-/

namespace MarioBrOS.Fs

namespace Volume

variable (v : Volume)

/-- `readLBA(lba, n, std_buf)`. -/
def loadSectors (lba n : Nat) : Volume := { v with stdBuf := readLBA v.disk lba n v.stdBuf }

/-- `writeLBA(lba, n, std_buf)`. -/
def storeSectors (lba n : Nat) : Volume := { v with disk := writeLBA v.disk lba n v.stdBuf }

/-- `((u_int32*) std_buf)[i]`. -/
def bufEntry (i : Nat) : Nat := v.stdBuf.get32 (4 * i)

/-- `((u_int32*) std_buf)[i] = n`. -/
def setBufEntry (i n : Nat) : Volume := { v with stdBuf := v.stdBuf.set32 (4 * i) n }

/-- `addr_per_block`. -/
def addrPerBlock : Nat := v.blockSize / 4

/-! ## Erasing -/

/-- `for(...) unallocate_block(((u_int32*) std_buf)[i])`, for `n` entries from `i` on. -/
def freeEntries : Volume → Nat → Nat → Volume
  | v, 0, _ => v
  | v, n + 1, i => freeEntries (v.unallocateBlock (v.bufEntry i)).1 n (i + 1)

/-- The innermost loop of `erase_file_data`, over `n` entries from `j` on: the volume afterwards and
the number of blocks left, 0 if the loop ends early. -/
def freeTable : Volume → Nat → Nat → Nat → Volume × Nat
  | v, 0, _, blocks => (v, blocks)
  | v, n + 1, j, blocks =>
    let v := (v.unallocateBlock (v.bufEntry j)).1
    let blocks := sub32 blocks 1
    if blocks = 0 then (v, 0) else freeTable v n (j + 1) blocks

/-- The loop of `erase_file_data` over `n` tables from entry `i` of the table in block `root` on. -/
def freeDouble (root : Nat) : Volume → Nat → Nat → Nat → Volume × Nat
  | v, 0, _, blocks => (v, blocks)
  | v, n + 1, i, blocks =>
    let v := v.loadSectors (v.block root) 4
    let currBlock := v.block (v.bufEntry i)
    let v := v.loadSectors currBlock 4
    let left := freeTable v v.addrPerBlock 0 blocks
    let v := (left.1.unallocateBlock currBlock).1
    if left.2 = 0 then (v, 0) else freeDouble root v n (i + 1) left.2

/-- The middle loop of `erase_file_data` below `tibp`, over `n` tables from entry `j` of the table
in `std_buf` on. -/
def freeMiddle : Volume → Nat → Nat → Nat → Volume × Nat
  | v, 0, _, blocks => (v, blocks)
  | v, n + 1, j, blocks =>
    let currBlock := v.block (v.bufEntry j)
    let v := v.loadSectors currBlock 4
    let left := freeTable v v.addrPerBlock 0 blocks
    let v := (left.1.unallocateBlock currBlock).1
    if left.2 = 0 then (v, 0) else freeMiddle v n (j + 1) left.2

/-- The outer loop of `erase_file_data` below `tibp`. -/
def freeTriple (root : Nat) : Volume → Nat → Nat → Nat → Volume × Nat
  | v, 0, _, blocks => (v, blocks)
  | v, n + 1, i, blocks =>
    let v := v.loadSectors (v.block root) 4
    let currSqBlock := v.block (v.bufEntry i)
    let v := v.loadSectors currSqBlock 4
    let left := freeMiddle v v.addrPerBlock 0 blocks
    let v := (left.1.unallocateBlock currSqBlock).1
    if left.2 = 0 then (v, 0) else freeTriple root v n (i + 1) left.2

/-- `for(...) unallocate_block(std_inode->dbp[i])`, for `n` blocks from `i` on. -/
def freeDirect : Volume → Nat → Nat → Volume
  | v, 0, _ => v
  | v, n + 1, i => freeDirect (v.unallocateBlock (v.dbp i)).1 n (i + 1)

/-- `erase_file_data` below `sibp`, with `blocks` blocks left. -/
def freeIndirect (blocks : Nat) : Volume :=
  let v := v.loadBlock v.sibp
  if blocks ≤ v.addrPerBlock then
    let v := v.freeEntries blocks 0
    (v.unallocateBlock (v.block v.sibp)).1
  else
    let v := (v.unallocateBlock (v.block v.sibp)).1
    let v := v.freeEntries v.addrPerBlock 0
    let left := freeDouble v.dibp v v.addrPerBlock 0 (sub32 blocks v.addrPerBlock)
    let v := (left.1.unallocateBlock (v.block v.dibp)).1
    if left.2 = 0 then v
    else
      let left := freeTriple v.tibp v v.addrPerBlock 0 left.2
      (left.1.unallocateBlock (v.block v.tibp)).1

/-- `filesystem.c`, `erase_file_data`. -/
def eraseFileData (inode : Nat) : Option Volume :=
  if inode = 0 then some v
  else do
    let v ← v.setInode inode
    if v.sizeLow = 0 then
      some v
    else
      let blocks := 1 + (v.sizeLow - 1) / v.blockSize
      let v := (v.setSizeLow 0).updateInode inode
      if blocks ≤ 12 then
        some (v.freeDirect blocks 0)
      else
        some ((v.freeDirect 12 0).freeIndirect (blocks - 12))

/-! ## Growing -/

/-- The body of a function that may return early, with the volume and the number of blocks. -/
abbrev Growing := ExceptT (Volume × Nat) Option

/-- `addr = allocate_block(addr); if(!addr) { full; return count; }`. -/
def allocateOr (addr count : Nat) (full : Volume → Volume) : Growing (Volume × Nat) := do
  let r ← (v.allocateBlock addr : Option (Volume × Nat))
  if r.2 = 0 then throw (full r.1, count) else pure r

/-- What the loops of `prepare_blocks` carry along. -/
structure Growth where
  volume : Volume
  addr : Nat
  used : Nat
  count : Nat

/-- The loop over the direct slots, in `n` rounds. -/
def growDirect (inode toUse : Nat) : Nat → Growth → Growing Growth
  | 0, g => pure g
  | n + 1, g => do
    let (v, addr) ← g.volume.allocateOr g.addr g.count (fun v => v.updateInode inode)
    let v := v.setDbp g.used addr
    if g.used + 1 = toUse then
      throw (v.updateInode inode, g.count + 1)
    growDirect inode toUse n ⟨v, addr, g.used + 1, g.count + 1⟩

/-- The innermost loop: fills the table in `std_buf` from entry `j` on, in `n` rounds; `store`
writes it back. -/
def growTable (store : Volume → Volume) (toUse : Nat) : Nat → Nat → Growth → Growing Growth
  | 0, _, g => pure { g with volume := store g.volume }
  | n + 1, j, g => do
    let (v, addr) ← g.volume.allocateOr g.addr g.count store
    let v := v.setBufEntry j addr
    if g.used + 1 = toUse then
      throw (store v, g.count + 1)
    growTable store toUse n (j + 1) ⟨v, addr, g.used + 1, g.count + 1⟩

/-- The table below entry `i` of the table in `std_buf`, which is at sector `lba`: created if the
block to come is a multiple of `span`, and loaded. -/
def enterTable (lba i span : Nat) (g : Growth) : Growing (Growth × Nat) := do
  let g ←
    if g.used % span = 0 then do
      let (v, addr) ← g.volume.allocateOr g.addr g.count id
      pure { g with volume := (v.setBufEntry i addr).storeSectors lba 4, addr := addr }
    else pure g
  let currBlock := g.volume.block (g.volume.bufEntry i)
  pure ({ g with volume := g.volume.loadSectors currBlock 4 }, currBlock)

/-- The loop over the tables below `dibp`, from entry `i` on, in `n` rounds. -/
def growDouble (toUse : Nat) : Nat → Nat → Growth → Growing Growth
  | 0, _, g => pure g
  | n + 1, i, g => do
    let a := g.volume.addrPerBlock
    let lba := g.volume.block g.volume.dibp
    let (g, currBlock) ← enterTable lba i a { g with volume := g.volume.loadSectors lba 4 }
    let g ← growTable (fun v => v.storeSectors currBlock 4) toUse (a - g.used % a) (g.used % a) g
    growDouble toUse n (i + 1) g

/-- The middle loop below `tibp`: over the tables below the one in `std_buf`, at sector
`currSqBlock`, from entry `j` on, in `n` rounds. The table is not loaded again. -/
def growMiddle (toUse currSqBlock : Nat) : Nat → Nat → Growth → Growing Growth
  | 0, _, g => pure g
  | n + 1, j, g => do
    let a := g.volume.addrPerBlock
    let (g, currBlock) ← enterTable currSqBlock j a g
    let g ← growTable (fun v => v.storeSectors currBlock 4) toUse (a - g.used % a) (g.used % a) g
    growMiddle toUse currSqBlock n (j + 1) g

/-- The outer loop below `tibp`, from entry `i` on, in `n` rounds. -/
def growTriple (toUse : Nat) : Nat → Nat → Growth → Growing Growth
  | 0, _, g => pure g
  | n + 1, i, g => do
    let a := g.volume.addrPerBlock
    let lba := g.volume.block g.volume.tibp
    let (g, currSqBlock) ← enterTable lba i (a * a) { g with volume := g.volume.loadSectors lba 4 }
    let j := g.used % (a * a) / a
    let g ← growMiddle toUse currSqBlock (a - j) j g
    growTriple toUse n (i + 1) g

/-- The part of `prepare_blocks` below `sibp`, which is created for its first block. -/
def growSingle (inode toUse : Nat) (g : Growth) : Growing Growth := do
  let g ←
    if g.used = 0 then do
      let (v, addr) ← g.volume.allocateOr g.addr g.count id
      pure { g with volume := (v.setField 88 addr).updateInode inode, addr := addr }
    else pure g
  let v := g.volume.loadBlock g.volume.sibp
  growTable (fun v => v.storeBlock v.sibp) toUse (v.addrPerBlock - g.used) g.used
    { g with volume := v }

/-- The part of `prepare_blocks` below `dibp`. -/
def growBelowDibp (inode toUse : Nat) (g : Growth) : Growing Growth := do
  let a := g.volume.addrPerBlock
  if g.used < a * a then
    let g ←
      if g.used = 0 then do
        let (v, addr) ← g.volume.allocateOr g.addr g.count id
        pure { g with volume := v.setField 92 addr, addr := addr }
      else pure g
    growDouble toUse (a - g.used / a) (g.used / a)
      { g with volume := g.volume.updateInode inode }
  else pure g

/-- The part of `prepare_blocks` below `tibp`. -/
def growBelowTibp (inode toUse : Nat) (g : Growth) : Growing Growth := do
  let a := g.volume.addrPerBlock
  let g ←
    if g.used = 0 then do
      let (v, addr) ← g.volume.allocateOr g.addr g.count fun v => v.updateInode inode
      pure { g with volume := v.setField 96 addr, addr := addr }
    else pure g
  growTriple toUse (a - g.used / (a * a)) (g.used / (a * a))
    { g with volume := g.volume.updateInode inode }

/-- The body of `prepare_blocks` after its tests. The counters `used` and `to_use` go down by the
size of each part of the tree that is left behind. -/
def grow (inode used toUse : Nat) : Growing (Volume × Nat) := do
  let a := v.addrPerBlock
  let g ← growDirect inode toUse (12 - used) ⟨v, 1, used, 0⟩
  let g ← growSingle inode (toUse - 12)
    { g with volume := g.volume.updateInode inode, used := g.used - 12 }
  let g ← growBelowDibp inode (toUse - 12 - a) { g with used := g.used - a }
  let g ← growBelowTibp inode (toUse - 12 - a - a * a) { g with used := g.used - a * a }
  pure (g.volume, g.count)

/-- `filesystem.c`, `prepare_blocks`: the volume afterwards and the number of blocks allocated. -/
def prepareBlocks (inode used toUse : Nat) : Option (Volume × Nat) :=
  let a := v.addrPerBlock
  if inode = 0 ∨ toUse ≤ used then
    some (v, 0)
  else if (a * a * a + a * a + a + 12) % 2 ^ 32 < toUse then
    some (v, 0)
  else do
    match ← (v.grow inode used toUse).run with
    | .error r => some r
    | .ok r => some r

/-! ## Creating -/

/-- `TYPE_DIR`. -/
def TYPE_DIR : Nat := 0x4000

/-- `"."` and `".."`. -/
def DOT : UInt8 := 46

/-- The inode that `create_file` fills in `std_inode`. -/
def freshInode (type : Nat) : Volume :=
  let isADir := if type &&& TYPE_DIR ≠ 0 then 1 else 0
  let inode := (v.stdInode.set16 0 type).set16 26 (1 + isADir)
  let inode := (inode.set32 28 (v.blockFactor * isADir)).set32 4 (v.blockSize * isADir)
  { v with stdInode := inode.blit 40 (fun _ => 0) 0 (4 * 15) }

/-- `filesystem.c`, `create_file`: the volume afterwards and the inode. -/
def createFile (father : Nat) (name : List UInt8) (type : Nat) (ftype : UInt8) :
    Option (Volume × Nat) :=
  if father = 0 then some (v, 0)
  else do
    let (v, num) := v.allocateInode
    if num = 0 then
      some (v, 0)
    else
      let (v, error) ← v.addFile father num ftype name
      if error ≠ 0 then
        some ((v.unallocateInode num).1, 0)
      else
        let v := v.freshInode type
        if type &&& TYPE_DIR = 0 then
          some (v.updateInode num, num)
        else
          let (v, block) ← v.allocateBlock 1
          if block = 0 then
            some ((v.unallocateInode num).1, 0)
          else
            let v := v.setDbp 0 block
            let first := setDirEntry v.stdBuf 0 num FILE_DIR [DOT] 0
            let second := setDirEntry first.1 first.2 father FILE_DIR [DOT, DOT]
              (sub32 v.blockSize first.2 % 2 ^ 16)
            let v := (v.setStdBuf second.1).storeSectors (v.block block) 1
            some (v.updateInode num, num)

end Volume

end MarioBrOS.Fs
