import MarioBrOS.Fs.Volume

/-!
# The block map

Where `read_inode_data` and `write_inode_data` look up the block of a file offset. Both first
compute a position in the tree of the inode (`inodeSlot`), then read the block number there, one
table after the other into `std_buf` (`slotBlock`).
-/

namespace MarioBrOS.Fs

/-- A position of a block number in the tree of an inode: the indices from the root down. -/
inductive Slot where
  | direct (i : Nat)
  | single (i : Nat)
  | double (i j : Nat)
  | triple (i j k : Nat)
  deriving DecidableEq, Repr

/-- The indices of a slot exist: 12 direct slots, and tables of `a` entries. -/
def Slot.Below (a : Nat) : Slot → Prop
  | .direct i => i < 12
  | .single i => i < a
  | .double i j => i < a ∧ j < a
  | .triple i j k => i < a ∧ j < a ∧ k < a

/-- The indices that `read_inode_data` and `write_inode_data` compute from the block number
`toRead`; they throw beyond the last table. -/
def inodeSlot (blockSize toRead : Nat) : Option Slot :=
  if toRead < 12 then
    some (.direct toRead)
  else
    let toRead := toRead - 12
    if toRead < blockSize / 4 then
      some (.single toRead)
    else
      let toRead := toRead - blockSize / 4
      let dbsize := blockSize * blockSize % 2 ^ 32
      if toRead < dbsize / 16 then
        some (.double (toRead / blockSize) (toRead % blockSize))
      else
        let toRead := toRead - dbsize / 16
        if dbsize * blockSize % 2 ^ 32 / 64 ≤ toRead then
          none
        else
          some (.triple (toRead / dbsize) (toRead % dbsize / blockSize) (toRead % blockSize))

namespace Volume

variable (v : Volume)

/-- `readPIO(BLOCK(n), 0, block_size, std_buf)`. -/
def readTable (n : Nat) (stdBuf : Bytes) : Option Bytes :=
  readPio v.disk (v.block n) 0 v.blockSize stdBuf 0

/-- Follows the tables of the inode in `std_inode` down to a slot: `std_buf` afterwards and the
block number found. -/
def slotBlock : Slot → Option (Bytes × Nat)
  | .direct i => some (v.stdBuf, v.dbp i)
  | .single i => do
    let buf ← v.readTable v.sibp v.stdBuf
    some (buf, buf.get32 (4 * i))
  | .double i j => do
    let buf ← v.readTable v.dibp v.stdBuf
    let buf ← v.readTable (buf.get32 (4 * i)) buf
    some (buf, buf.get32 (4 * j))
  | .triple i j k => do
    let buf ← v.readTable v.tibp v.stdBuf
    let buf ← v.readTable (buf.get32 (4 * i)) buf
    let buf ← v.readTable (buf.get32 (4 * j)) buf
    some (buf, buf.get32 (4 * k))

/-- The part of a transfer that lies in the block of its offset. -/
def width (offset length : Nat) : Nat :=
  let ofs := offset % v.blockSize
  if length > v.blockSize - ofs then v.blockSize - ofs else length

/-- `filesystem.c`, `read_inode_data`: the volume afterwards, the buffer and the length read. -/
def readInodeData (inode : Nat) (buffer : Bytes) (start offset length : Nat) :
    Option (Volume × Bytes × Nat) := do
  let v ← v.setInode inode
  let slot ← inodeSlot v.blockSize (offset / v.blockSize)
  let found ← v.slotBlock slot
  let width := v.width offset length
  let buffer ← readPio v.disk (v.block found.2) (offset % v.blockSize) width buffer start
  some (v.setStdBuf found.1, buffer, width)

/-- `filesystem.c`, `write_inode_data`: the volume afterwards and the length written. -/
def writeInodeData (inode : Nat) (buffer : Bytes) (start offset length : Nat) :
    Option (Volume × Nat) := do
  let v ← v.setInode inode
  let slot ← inodeSlot v.blockSize (offset / v.blockSize)
  let found ← v.slotBlock slot
  let width := v.width offset length
  let v := v.setStdBuf found.1
  some (v.updateBlock buffer start (offset % v.blockSize) width (v.block found.2), width)

/-! ## The tables on the disk -/

/-- Entry `i` of the address table in block `n`. -/
def entry (n i : Nat) : Nat := v.disk.get32 (v.blockByte n + 4 * i)

/-- The block number that the tree of the inode in `std_inode` holds in a slot. -/
def storedBlock : Slot → Nat
  | .direct i => v.dbp i
  | .single i => v.entry v.sibp i
  | .double i j => v.entry (v.entry v.dibp i) j
  | .triple i j k => v.entry (v.entry (v.entry v.tibp i) j) k

variable {v}

lemma blockSize_le (hs : v.spb.blockSize ≤ 7) : v.blockSize ≤ 2 ^ 17 := by
  have h := blockFactor_le hs
  rw [blockSize_eq]
  omega

/-- A table is read into `std_buf` with all its entries. -/
lemma readTable_eq (hs : v.spb.blockSize ≤ 7) (n : Nat) (stdBuf : Bytes) :
    ∃ buf, v.readTable n stdBuf = some buf ∧
      ∀ i, i < v.blockSize / 4 → buf.get32 (4 * i) = v.entry n i := by
  refine ⟨_, readPio_zero (blockSize_le hs), fun i hi => ?_⟩
  have h := Bytes.get32_blit_of_inside (m := stdBuf) (b := v.disk) (d := 0)
    (s := lbaByte (v.block n)) (n := v.blockSize) (i := 4 * i) (by omega)
  rwa [Nat.zero_add] at h

/-- Following the tables down to a slot in range finds the number stored there. -/
lemma slotBlock_eq (hs : v.spb.blockSize ≤ 7) (slot : Slot) (h : slot.Below (v.blockSize / 4)) :
    ∃ buf, v.slotBlock slot = some (buf, v.storedBlock slot) := by
  cases slot with
  | direct i => exact ⟨_, rfl⟩
  | single i =>
    rcases readTable_eq hs v.sibp v.stdBuf with ⟨buf, e, hbuf⟩
    exact ⟨buf, by rw [slotBlock, e, Option.bind_eq_bind, Option.bind_some, hbuf i h]; rfl⟩
  | double i j =>
    rcases readTable_eq hs v.dibp v.stdBuf with ⟨buf1, e1, h1⟩
    rcases readTable_eq hs (v.entry v.dibp i) buf1 with ⟨buf2, e2, h2⟩
    refine ⟨buf2, ?_⟩
    simp only [slotBlock, e1, Option.bind_eq_bind, Option.bind_some, h1 i h.1, e2, h2 j h.2]
    rfl
  | triple i j k =>
    rcases readTable_eq hs v.tibp v.stdBuf with ⟨buf1, e1, h1⟩
    rcases readTable_eq hs (v.entry v.tibp i) buf1 with ⟨buf2, e2, h2⟩
    rcases readTable_eq hs (v.entry (v.entry v.tibp i) j) buf2 with ⟨buf3, e3, h3⟩
    refine ⟨buf3, ?_⟩
    simp only [slotBlock, e1, Option.bind_eq_bind, Option.bind_some, h1 i h.1, e2, h2 j h.2.1, e3,
      h3 k h.2.2]
    rfl

lemma width_le (v : Volume) (offset length : Nat) :
    v.width offset length ≤ length ∧ v.width offset length ≤ v.blockSize := by
  unfold width
  dsimp only
  split <;> omega

lemma width_eq (v : Volume) (offset length : Nat) :
    v.width offset length = min length (v.blockSize - offset % v.blockSize) := by
  unfold width
  dsimp only
  split <;> omega

/-- Following the tables down always finds a number. -/
lemma slotBlock_isSome (hs : v.spb.blockSize ≤ 7) (slot : Slot) : ∃ r, v.slotBlock slot = some r := by
  have h : ∀ n buf, ∃ buf', v.readTable n buf = some buf' := fun n buf =>
    ⟨_, readPio_zero (blockSize_le hs)⟩
  cases slot with
  | direct i => exact ⟨_, rfl⟩
  | single i =>
    rcases h v.sibp v.stdBuf with ⟨buf, e⟩
    exact ⟨(buf, buf.get32 (4 * i)), by rw [slotBlock, e]; rfl⟩
  | double i j =>
    rcases h v.dibp v.stdBuf with ⟨buf1, e1⟩
    rcases h (buf1.get32 (4 * i)) buf1 with ⟨buf2, e2⟩
    refine ⟨(buf2, buf2.get32 (4 * j)), ?_⟩
    simp only [slotBlock, e1, Option.bind_eq_bind, Option.bind_some, e2]
  | triple i j k =>
    rcases h v.tibp v.stdBuf with ⟨buf1, e1⟩
    rcases h (buf1.get32 (4 * i)) buf1 with ⟨buf2, e2⟩
    rcases h (buf2.get32 (4 * j)) buf2 with ⟨buf3, e3⟩
    refine ⟨(buf3, buf3.get32 (4 * k)), ?_⟩
    simp only [slotBlock, e1, Option.bind_eq_bind, Option.bind_some, e2, e3]

/-- A read moves the part of the range that lies in the block of its offset, from somewhere on the
disk, unless the offset is out of reach. -/
lemma readInodeData_some (hs : v.spb.blockSize ≤ 7) (inode : Nat) (buffer : Bytes)
    (start length : Nat) {offset : Nat} {slot : Slot}
    (hi : inodeSlot v.blockSize (offset / v.blockSize) = some slot) :
    ∃ w source, v.readInodeData inode buffer start offset length =
      some (w, buffer.blit start v.disk source (v.width offset length), v.width offset length) := by
  rcases v.setInode_isSome inode with ⟨v', hv⟩
  have e := setInode_eq hv
  have hs' : v'.spb.blockSize ≤ 7 := by rw [e]; exact hs
  have hbs : v'.blockSize = v.blockSize := by rw [e]; rfl
  have hd : v'.disk = v.disk := by rw [e]
  have hw : v'.width offset length = v.width offset length := by rw [e]; rfl
  rcases slotBlock_isSome hs' slot with ⟨r, hr⟩
  have hread : ∃ source, readPio v'.disk (v'.block r.2) (offset % v'.blockSize)
      (v'.width offset length) buffer start =
        some (buffer.blit start v.disk source (v.width offset length)) := by
    rw [hw, hd, hbs]
    have hle := blockSize_le hs
    have hlt := Nat.mod_lt offset v.blockSize_pos
    have hwidth := v.width_eq offset length
    unfold readPio
    by_cases h0 : v.width offset length = 0
    · refine ⟨0, ?_⟩
      rw [if_pos h0, h0, Bytes.blit_zero]
    · rw [if_neg h0]
      dsimp only
      rw [if_neg (by omega)]
      exact ⟨_, rfl⟩
  rcases hread with ⟨source, hread⟩
  refine ⟨v'.setStdBuf r.1, source, ?_⟩
  unfold readInodeData
  rw [hv, Option.bind_eq_bind, Option.bind_some, hbs, hi, Option.bind_eq_bind, Option.bind_some, hr,
    Option.bind_eq_bind, Option.bind_some]
  dsimp only
  rw [← hbs, hread, hw]
  rfl

/-- A read at an offset out of reach throws. -/
lemma readInodeData_none {inode offset : Nat} {buffer : Bytes} {start length : Nat}
    (hi : inodeSlot v.blockSize (offset / v.blockSize) = none) :
    v.readInodeData inode buffer start offset length = none := by
  rcases v.setInode_isSome inode with ⟨v', hv⟩
  have hbs : v'.blockSize = v.blockSize := by rw [setInode_eq hv]; rfl
  unfold readInodeData
  rw [hv, Option.bind_eq_bind, Option.bind_some, hbs, hi]
  rfl

/-- At the start of a block, a transfer is as long as asked for, up to one block. -/
lemma width_of_dvd {offset length : Nat} (h : v.blockSize ∣ offset) :
    v.width offset length = min length v.blockSize := by
  unfold width
  rw [Nat.mod_eq_zero_of_dvd h]
  dsimp only
  split <;> omega

/-- A read at the start of a block goes to the block stored in the slot the code computes. -/
lemma readInodeData_of_slot {v' : Volume} {inode offset : Nat} {slot : Slot} (buffer : Bytes)
    (start length : Nat) (hs : v.spb.blockSize ≤ 7) (hv : v.setInode inode = some v')
    (ho : v.blockSize ∣ offset) (hi : inodeSlot v.blockSize (offset / v.blockSize) = some slot)
    (hb : slot.Below (v.blockSize / 4)) :
    ∃ buf, v.readInodeData inode buffer start offset length =
      some ({ v' with stdBuf := buf },
        buffer.blit start v.disk (v.blockByte (v'.storedBlock slot)) (min length v.blockSize),
        min length v.blockSize) := by
  have e := setInode_eq hv
  have hs' : v'.spb.blockSize ≤ 7 := by rw [e]; exact hs
  have hbs : v'.blockSize = v.blockSize := by rw [e]; rfl
  rcases slotBlock_eq hs' slot (hbs ▸ hb) with ⟨buf, hf⟩
  refine ⟨buf, ?_⟩
  have hd : v'.disk = v.disk := by rw [e]
  have hn : v'.block = v.block := by rw [e]; rfl
  have hw : v'.width offset length = min length v.blockSize := by
    rw [← hbs]
    exact width_of_dvd (hbs ▸ ho)
  have hr : readPio v'.disk (v'.block (v'.storedBlock slot)) (offset % v'.blockSize)
      (v'.width offset length) buffer start =
      some (buffer.blit start v.disk (v.blockByte (v'.storedBlock slot))
        (min length v.blockSize)) := by
    rw [hw, hbs, Nat.mod_eq_zero_of_dvd ho, hd, hn]
    exact readPio_zero (by have := blockSize_le hs; omega)
  unfold readInodeData
  simp only [hv, hbs, hi, hf, Option.bind_eq_bind, Option.bind_some]
  rw [hbs] at hr
  rw [hr, hw]
  rfl

/-- A write at the start of a block goes to the block stored in the slot the code computes. -/
lemma writeInodeData_of_slot {v' : Volume} {inode offset : Nat} {slot : Slot} (buffer : Bytes)
    (start length : Nat) (hs : v.spb.blockSize ≤ 7) (hv : v.setInode inode = some v')
    (ho : v.blockSize ∣ offset) (hi : inodeSlot v.blockSize (offset / v.blockSize) = some slot)
    (hb : slot.Below (v.blockSize / 4)) :
    ∃ buf, v.writeInodeData inode buffer start offset length =
      some ({ v' with
          stdBuf := buf
          disk := v.disk.blit (v.blockByte (v'.storedBlock slot)) buffer start
            (min length v.blockSize) },
        min length v.blockSize) := by
  have e := setInode_eq hv
  have hs' : v'.spb.blockSize ≤ 7 := by rw [e]; exact hs
  have hbs : v'.blockSize = v.blockSize := by rw [e]; rfl
  rcases slotBlock_eq hs' slot (hbs ▸ hb) with ⟨buf, hf⟩
  have hd : v'.disk = v.disk := by rw [e]
  have hn : v'.block = v.block := by rw [e]; rfl
  have hw : v'.width offset length = min length v.blockSize := by
    rw [← hbs]
    exact width_of_dvd (hbs ▸ ho)
  have hl : 0 + min length v.blockSize ≤ v'.blockSize := by
    rw [hbs]
    omega
  rcases updateBlock_eq (v := v'.setStdBuf buf) hs' buffer start
    (v.block_lt (v'.storedBlock slot)) v'.blockSize_pos hl with ⟨buf', hu⟩
  refine ⟨buf', ?_⟩
  unfold writeInodeData
  simp only [hv, hbs, hi, hf, Option.bind_eq_bind, Option.bind_some, setStdBuf_blockSize,
    setStdBuf_block]
  rw [hw, Nat.mod_eq_zero_of_dvd ho, hn, hu, Nat.add_zero]
  rw [← hd]
  rfl

end Volume

end MarioBrOS.Fs
