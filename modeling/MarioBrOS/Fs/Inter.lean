import MarioBrOS.Fs.File
import MarioBrOS.Memory

/-!
# File descriptors

`fs_inter.c`, with the file system calls of `syscall.c`. A descriptor is a pointer to a word of the
heap, which holds an index of the descriptor table; the entry there points back to the descriptor.
What `mem_alloc` returns is a parameter: the address of a new descriptor and the contents of a new
table. The table lies in memory, so its size never leaves 32 bits.

A call returns `none` where the code throws, loops for ever or leaves the table.
-/

namespace MarioBrOS.Fs

/-- `fs_inter.h`, `fdt_e`. -/
structure FdtEntry where
  inode : Nat
  pos : Nat
  size : Nat
  mode : Nat
  this : Nat
  deriving DecidableEq, Repr

/-- The volume and the globals of `fs_inter.c`; `deref f` is `*f`, the word descriptor `f` points
to. -/
structure Inter where
  volume : Volume
  fdt : Nat → FdtEntry
  fdtSize : Nat
  fdtNum : Nat
  deref : Nat → Nat

/-! ## Flags and errors (`fs_inter.h`, `fs_types.h`) -/

def O_RDONLY : Nat := 0x01

def O_WRONLY : Nat := 0x02

def O_RDWR : Nat := 0x03

def O_APPEND : Nat := 0x04

def O_CREAT : Nat := 0x08

def O_TRUNC : Nat := 0x10

def O_EXCL : Nat := 0x20

def SEEK_SET : Nat := 0x1

def SEEK_CUR : Nat := 0x2

def SEEK_END : Nat := 0x4

/-- `TYPE_FILE`. -/
def TYPE_FILE : Nat := 0x8000

/-- `FILE_REGULAR`. -/
def FILE_REGULAR : UInt8 := 1

/-- `(u_int32) (-1)`: invalid file descriptor. -/
def INVALID : Nat := 2 ^ 32 - 1

/-- `(u_int32) (-2)`: no permission. -/
def NO_PERMISSION : Nat := 2 ^ 32 - 2

/-- `(u_int32) (-3)`: the block allocation failed. -/
def NO_BLOCKS : Nat := 2 ^ 32 - 3

/-- `sizeof(sys_buf)`. -/
def SYS_BUF : Nat := 2048

/-! ## The table -/

/-- `for(i = 0; i < fdt_size && fdt[i].inode; i++)`, for `n` entries from `i` on. -/
def freeSlot (fdt : Nat → FdtEntry) : Nat → Nat → Nat
  | 0, i => i
  | n + 1, i => if (fdt i).inode ≠ 0 then freeSlot fdt n (i + 1) else i

/-- The search of `close` for an entry to move to `i`, from entry `n - 1` of the table down. -/
def lastOpen (fdt : Nat → FdtEntry) (i : Nat) : Nat → Option Nat
  | 0 => none
  | n + 1 =>
    if n ≤ i then none
    else if (fdt n).inode ≠ 0 then some n
    else lastOpen fdt i n

/-- What the loop of `close` that fills the new table `tmp` carries along. -/
structure Shrinking where
  fdt : Nat → FdtEntry
  tmp : Nat → FdtEntry
  deref : Nat → Nat

/-- One round of that loop. `copy` is never reset, since `j` ends at `i` if nothing is found. -/
def shrinkStep (size i : Nat) (c : Shrinking) : Shrinking :=
  if (c.fdt i).inode ≠ 0 then
    { c with tmp := Function.update c.tmp i (c.fdt i) }
  else
    match lastOpen c.fdt i size with
    | some j =>
      { fdt := Function.update c.fdt j { c.fdt j with inode := 0 }
        tmp := Function.update c.tmp i (c.fdt j)
        deref := Function.update c.deref (c.fdt j).this i }
    | none => c

/-- That loop, in `n` rounds from entry `i` on. -/
def shrinkLoop (size : Nat) : Nat → Nat → Shrinking → Shrinking
  | 0, _, c => c
  | n + 1, i, c => shrinkLoop size n (i + 1) (shrinkStep size i c)

/-- `str_split(path, '/', FALSE)`. -/
def pathNames (path : List UInt8) : List (List UInt8) := strSplit SLASH false path []

/-- The new position of `lseek`, for `seek` one of the three commands. -/
def seekPos (e : FdtEntry) (offset : Int) (seek : Nat) : Nat :=
  let distance := (offset % 2 ^ 32).toNat
  if seek = SEEK_SET then
    if offset < 0 then 0
    else if e.size < distance then e.size
    else distance
  else if seek = SEEK_CUR then
    if offset < 0 ∧ e.pos < (-offset % 2 ^ 32).toNat then 0
    else if 0 < offset ∧ e.size < add32 distance e.pos then e.size
    else add32 e.pos distance
  else
    if offset < 0 then e.size
    else if e.size < distance then 0
    else sub32 e.pos distance

namespace Inter

variable (s : Inter)

/-- Replaces the volume. -/
def withVolume (v : Volume) : Inter := { s with volume := v }

/-- Stores an entry of the table. -/
def setEntry (i : Nat) (e : FdtEntry) : Inter := { s with fdt := Function.update s.fdt i e }

/-- `fdt[i]`, which is undefined outside of the table. -/
def entryAt (i : Nat) : Option FdtEntry := if i < s.fdtSize then some (s.fdt i) else none

/-- `fs_inter.c`, `fs_inter_install`, on the memory `mem_alloc` returns. -/
def install (v : Volume) (memory : Nat → FdtEntry) (deref : Nat → Nat) : Inter where
  volume := v
  fdt i := if i < 256 then { memory i with inode := 0 } else memory i
  fdtSize := 256
  fdtNum := 0
  deref := deref

/-! ## Opening and closing -/

/-- Doubles the table, into the memory `mem_alloc` returns. -/
def double (memory : Nat → FdtEntry) : Inter :=
  { s with
    fdt := fun j =>
      if j < s.fdtSize then s.fdt j
      else if j < 2 * s.fdtSize then { memory j with inode := 0 }
      else memory j
    fdtSize := 2 * s.fdtSize }

/-- The part of `openfile` that finds an index for the new descriptor `f`. -/
def reserve (f : Nat) (memory : Nat → FdtEntry) : Inter :=
  let i := freeSlot s.fdt s.fdtSize 0
  let s := if i = s.fdtSize then s.double memory else s
  { s with deref := Function.update s.deref f i, fdtNum := add32 s.fdtNum 1 }

/-- The part of `openfile` that creates the file, in the directory whose block is in `std_buf`. It
follows a null pointer if the path has no names. -/
def createAt (path : List UInt8) (fperm : Nat) : Option (Inter × Nat) := do
  let parent := s.volume.stdBuf.get32 0
  let name ← (pathNames path).getLast?
  let (v, inode) ← s.volume.createFile parent name (TYPE_FILE ||| fperm) FILE_REGULAR
  some (s.withVolume v, inode)

/-- The entry of a file whose inode is in `std_inode`. -/
def newEntry (v : Volume) (inode oflag f : Nat) : FdtEntry where
  inode := inode
  pos := if oflag &&& O_APPEND ≠ 0 then v.sizeLow else 0
  size := v.sizeLow
  mode := oflag &&& 3
  this := f

/-- The end of `openfile`, with the inode of the file. -/
def fill (inode oflag f : Nat) : Option (Inter × Nat) := do
  let v ← if oflag &&& O_TRUNC ≠ 0 then s.volume.eraseFileData inode else some s.volume
  let v ← v.setInode inode
  some ((s.withVolume v).setEntry (s.deref f) (newEntry v inode oflag f), f)

/-- `fs_inter.c`, `openfile`: the state afterwards and the descriptor, which is at address `f` of
the heap. -/
def openfile (path : List UInt8) (oflag fperm f : Nat) (memory : Nat → FdtEntry) :
    Option (Inter × Nat) := do
  let (v, inode) ← s.volume.findInode path 2
  let s := s.withVolume v
  if oflag &&& O_CREAT = 0 ∧ inode = 0 then
    some (s, 0)
  else if oflag &&& O_EXCL ≠ 0 ∧ inode ≠ 0 then
    some (s, 0)
  else
    let s := s.reserve f memory
    let (s, inode) ← if inode ≠ 0 then some (s, inode) else s.createAt path fperm
    if inode = 0 then some (s, 0) else s.fill inode oflag f

/-- The part of `close` that shrinks the table, into the memory `mem_alloc` returns. -/
def shrink (memory : Nat → FdtEntry) : Inter :=
  let c := shrinkLoop s.fdtSize (s.fdtSize / 4) 0 ⟨s.fdt, memory, s.deref⟩
  { s with fdt := c.tmp, deref := c.deref, fdtSize := s.fdtSize / 2 }

/-- The part of `close` that gives up entry `i`. -/
def release (i : Nat) : Inter :=
  { s.setEntry i { s.fdt i with inode := 0, this := 0 } with fdtNum := sub32 s.fdtNum 1 }

/-- `fs_inter.c`, `close`. -/
def close (f : Nat) (memory : Nat → FdtEntry) : Option Inter :=
  if f = 0 then some s
  else do
    let e ← s.entryAt (s.deref f)
    if e.inode = 0 then some s
    else
      let s := s.release (s.deref f)
      if 64 < s.fdtNum ∧ s.fdtNum < s.fdtSize / 4 then some (s.shrink memory) else some s

/-! ## Positions and transfers -/

/-- `fdt[i].pos = pos`. -/
def setPos (i pos : Nat) : Inter := s.setEntry i { s.fdt i with pos := pos }

/-- `fs_inter.c`, `lseek`: the state afterwards and the result. -/
def lseek (f : Nat) (offset : Int) (seek : Nat) : Option (Inter × Nat) :=
  if seek ≠ SEEK_SET ∧ seek ≠ SEEK_CUR ∧ seek ≠ SEEK_END then some (s, 0)
  else do
    let e ← s.entryAt (s.deref f)
    some (s.setPos (s.deref f) (seekPos e offset seek), seekPos e offset seek)

/-- `!f || *f > fdt_size || fdt[*f].this != f || !fdt[*f].inode`, or else the entry of `f`. -/
def checkFd (f : Nat) : Option (Option FdtEntry) :=
  -- an index equal to `fdt_size` gets past the test
  if f = 0 ∨ s.fdtSize < s.deref f then some none
  else do
    let e ← s.entryAt (s.deref f)
    some (if e.this ≠ f ∨ e.inode = 0 then none else some e)

/-- The length that `read` asks for. -/
def readLength (e : FdtEntry) (length : Nat) : Nat :=
  if e.size < add32 e.pos length then sub32 e.size e.pos else length

/-- `fs_inter.c`, `read`: the state afterwards, the buffer and the result. -/
def read (f : Nat) (buffer : Bytes) (offset length : Nat) : Option (Inter × Bytes × Nat) := do
  match ← s.checkFd f with
  | none => some (s, buffer, INVALID)
  | some e =>
    if e.mode &&& O_RDONLY = 0 then
      some (s, buffer, NO_PERMISSION)
    else if e.size ≤ e.pos then
      some (s, buffer, 0)
    else
      let (v, buffer, done) ← s.volume.readInodeData e.inode buffer offset e.pos
        (readLength e length)
      some ((s.withVolume v).setPos (s.deref f) (add32 e.pos done), buffer, done)

/-- `1 + (fdt[*f].pos + length - 1) / block_size`. -/
def blocksToUse (e : FdtEntry) (length : Nat) : Nat :=
  1 + sub32 (add32 e.pos length) 1 / s.volume.blockSize

/-- The number of blocks the file has. -/
def blocksUsed (e : FdtEntry) : Nat :=
  if e.size ≠ 0 then 1 + (e.size - 1) / s.volume.blockSize else 0

/-- The loop of `write` on entry `i`, in `n` rounds at most: the state afterwards and the number of
bytes written. -/
def writeLoop (buffer : Bytes) (i length : Nat) : Nat → Inter → Nat → Nat → Option (Inter × Nat)
  | 0, _, _, _ => none
  | n + 1, s, offset, written =>
    if written = length then some (s, written)
    else do
      let (v, done) ← s.volume.writeInodeData (s.fdt i).inode buffer offset (s.fdt i).pos
        (sub32 length written)
      let s := s.withVolume v
      if done = 0 then some (s, written)
      else
        writeLoop buffer i length n (s.setPos i (add32 (s.fdt i).pos done)) (add32 offset done)
          (add32 written done)

/-- The end of `write`: the size of the file behind entry `i` follows its position. -/
def extend (i : Nat) : Inter :=
  let e := s.fdt i
  if e.size < e.pos then
    (s.setEntry i { e with size := e.pos }).withVolume
      ((s.volume.setSizeLow e.pos).updateInode e.inode)
  else s

/-- `fs_inter.c`, `write`: the state afterwards and the result. A round of its loop writes at least
one byte, or is the last one. -/
def write (f : Nat) (buffer : Bytes) (offset length : Nat) : Option (Inter × Nat) := do
  match ← s.checkFd f with
  | none => some (s, INVALID)
  | some e =>
    if e.mode &&& O_WRONLY = 0 then
      some (s, NO_PERMISSION)
    else if length = 0 then
      some (s, 0)
    else
      let toUse := s.blocksToUse e length
      let used := s.blocksUsed e
      let (v, alloc) ← s.volume.prepareBlocks e.inode used toUse
      let s := s.withVolume v
      if used < toUse ∧ alloc ≠ toUse - used then
        some (s, NO_BLOCKS)
      else
        let (s, written) ← writeLoop buffer (s.deref f) length (length + 1) s offset 0
        some (s.extend (s.deref f), written)

/-! ## System calls (`syscall.c`) -/

/-- How a system call goes wrong: it throws, loops for ever or leaves the table, it stores behind
`sys_buf`, or it reads memory that the process does not have. -/
inductive Fault where
  | undefined
  | overrun
  | pageFault
  deriving DecidableEq, Repr

/-- The memory of a process from its buffer on: the bytes, and whether they are on a page that is
mapped. -/
structure UserMemory where
  bytes : Bytes
  mapped : Nat → Bool

/-- The process has the `n` bytes from `offset` on. -/
def UserMemory.Has (memory : UserMemory) (offset n : Nat) : Prop :=
  ∀ x < n, memory.mapped (offset + x) = true

instance (memory : UserMemory) (offset n : Nat) : Decidable (memory.Has offset n) :=
  inferInstanceAs (Decidable (∀ x < n, memory.mapped (offset + x) = true))

/-- A result that is there, or a fault. -/
def defined {α : Type} : Option α → Except Fault α
  | some a => .ok a
  | none => .error .undefined

/-- `syscall.c`, `syscall_read`: the state afterwards, the buffer, `sys_buf` and the result. The
bytes of `sys_buf` behind its end stand for the memory there. -/
def syscallRead (f : Nat) (buffer sysBuf : Bytes) (offset length : Nat) :
    Option (Inter × Bytes × Bytes × Nat) := do
  match ← s.checkFd f with
  | none => some (s, buffer, sysBuf, 0)
  | some e =>
    if e.mode &&& O_RDONLY = 0 then
      some (s, buffer, sysBuf, 0)
    else if e.size ≤ e.pos then
      some (s, buffer, sysBuf, 0)
    else
      let (v, sysBuf, done) ← s.volume.readInodeData e.inode sysBuf 0 e.pos (readLength e length)
      some ((s.withVolume v).setPos (s.deref f) (add32 e.pos done),
        memCopy buffer offset sysBuf 0 done, sysBuf, done)

/-- `mem_copy(sys_buf, buffer + offset, length)`, byte by byte: it goes wrong at the first byte that
the process does not have, or at the end of `sys_buf`. -/
def fillSysBuf (memory : UserMemory) (sysBuf : Bytes) (offset length : Nat) : Except Fault Bytes :=
  if memory.Has offset (min length SYS_BUF) then
    if SYS_BUF < length then .error .overrun
    else .ok (memCopy sysBuf 0 memory.bytes offset length)
  else .error .pageFault

/-- The loop of `syscall_write`, in `n` rounds at most: the volume afterwards, `sys_buf`, the
position and the number of bytes written. What `mem_copy` fills is as long as the larger of the
bytes left and `sys_buf`. -/
def syscallLoop (memory : UserMemory) (inode length : Nat) :
    Nat → Volume → Bytes → Nat → Nat → Nat → Except Fault (Volume × Bytes × Nat × Nat)
  | 0, _, _, _, _, _ => .error .undefined
  | n + 1, v, sysBuf, offset, pos, written =>
    if written = length then .ok (v, sysBuf, pos, written)
    else do
      let sysBuf ← fillSysBuf memory sysBuf offset (max (sub32 length written) SYS_BUF)
      let (v, done) ← defined (v.writeInodeData inode sysBuf 0 pos (sub32 length written))
      if done = 0 then .ok (v, sysBuf, pos, written)
      else
        syscallLoop memory inode length n v sysBuf (add32 offset done) (add32 pos done)
          (add32 written done)

/-- `syscall.c`, `syscall_write`: the state afterwards, `sys_buf` and the result. -/
def syscallWrite (f : Nat) (memory : UserMemory) (sysBuf : Bytes) (offset length : Nat) :
    Except Fault (Inter × Bytes × Nat) := do
  match ← defined (s.checkFd f) with
  | none => .ok (s, sysBuf, 0)
  | some e =>
    if e.mode &&& O_WRONLY = 0 then
      .ok (s, sysBuf, 0)
    else if length = 0 then
      .ok (s, sysBuf, 0)
    else
      let toUse := s.blocksToUse e length
      let used := s.blocksUsed e
      let (v, alloc) ← defined (s.volume.prepareBlocks e.inode used toUse)
      let s := s.withVolume v
      if used < toUse ∧ alloc ≠ toUse - used then
        .ok (s, sysBuf, 0)
      else
        let (v, sysBuf, pos, written) ←
          syscallLoop memory e.inode length (length + 1) v sysBuf offset e.pos 0
        .ok (((s.withVolume v).setPos (s.deref f) pos).extend (s.deref f), sysBuf, written)

end Inter

end MarioBrOS.Fs
