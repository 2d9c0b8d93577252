import MarioBrOS.Fs.BlockMap

/-!
# Directories

The directory functions of `filesystem.c`. A directory is one block of entries (`dir_entry`): an
inode, a size, the length and the bytes of a name. Positions of entries are offsets in `std_buf`,
whose bytes from `block_size` on stand for the memory behind it. A path or a name is the list of its
bytes, without the NUL at its end. A loop that would never end makes the function return `none`, as
does a throw.

`find_inode` tells the end of a directory only if its entries end exactly with the block; every
other way out of its loop counts as found.
-/

namespace MarioBrOS.Fs

/-- `'/'`. -/
def SLASH : UInt8 := 47

/-- `'-'`. -/
def DASH : UInt8 := 45

/-! ## Names and paths -/

/-- `string.c`, `str_split`, where `buffer` holds the characters since the last split. The buffer
of the source holds 128 bytes, with the final NUL. -/
def strSplit (c : UInt8) (empty : Bool) : List UInt8 → List UInt8 → List (List UInt8)
  | [], buffer => if buffer = [] ∧ empty = false then [] else [buffer]
  | x :: s, buffer =>
    if x = c ∧ ¬ (buffer = [] ∧ empty = false) then buffer :: strSplit c empty s []
    else strSplit c empty s (if x = c then buffer else buffer ++ [x])

/-- `str_split(str_path + !!(str_path[0]=='/'), '/', TRUE)`. -/
def components (path : List UInt8) : List (List UInt8) :=
  strSplit SLASH true (if path.head? = some SLASH then path.tail else path) []

/-! ## Entries (`fs_types.h`, `dir_entry`) -/

/-- The offset of the name in an entry. -/
def NAME : Nat := 8

/-- `sizeof(dir_entry)`, which counts one byte of the name. -/
def DIR_ENTRY : Nat := 9

def entryInode (buf : Bytes) (entry : Nat) : Nat := buf.get32 entry

def entrySize (buf : Bytes) (entry : Nat) : Nat := buf.get16 (entry + 4)

def nameLength (buf : Bytes) (entry : Nat) : Nat := (buf (entry + 6)).toNat

def fileType (buf : Bytes) (entry : Nat) : UInt8 := buf (entry + 7)

/-- Stores one byte. -/
def setByte (buf : Bytes) (a : Nat) (b : UInt8) : Bytes := fun x => if x = a then b else buf x

/-- The natural size of an entry with a name of `len` bytes. -/
def naturalSize (len : Nat) : Nat := 4 * (1 + (len + DIR_ENTRY - 1) / 4)

/-- `for(i=0; a[i] != '\0' && b[i] != '\0' && a[i]==b[i]; i++)`: the position of `b[i]` and the rest
of `a` where the loop stops. -/
def skipEqual (buf : Bytes) : Nat → List UInt8 → Nat × List UInt8
  | p, [] => (p, [])
  | p, c :: a => if buf p ≠ 0 ∧ c = buf p then skipEqual buf (p + 1) a else (p, c :: a)

/-- `a[i] == b[i] || (a[i] == '\0' && i == entry->name_length)` after that loop. -/
def nameMatches (buf : Bytes) (entry : Nat) (a : List UInt8) : Bool :=
  let stop := skipEqual buf (entry + NAME) a
  decide (stop.2.headD 0 = buf stop.1 ∨
    stop.2 = [] ∧ stop.1 - (entry + NAME) = nameLength buf entry)

/-! ## Looking up a name -/

/-- The loop of `find_inode` through a directory, from `entry` on, in `n` rounds at most: where it
stops, and the inode if it breaks out. -/
def scanDir (buf : Bytes) (size : Nat) (name : List UInt8) : Nat → Nat → Option (Nat × Option Nat)
  | 0, _ => none
  | n + 1, entry =>
    if entryInode buf entry ≠ 0 ∧ entry < size then
      if nameMatches buf entry name then some (entry, some (entryInode buf entry))
      else scanDir buf size name n (entry + entrySize buf entry)
    else
      some (entry, none)

namespace Volume

variable (v : Volume)

/-- `read_inode_data(dir, std_buf, 0, block_size)`. -/
def readDir (dir : Nat) : Option Volume :=
  (v.readInodeData dir v.stdBuf 0 0 v.blockSize).map fun r => r.1.setStdBuf r.2.1

/-- The loop of `find_inode` over the components of the path: the volume afterwards and the inode. A
round of the inner loop moves on by one byte at least, or it is repeated for ever. -/
def findLoop : List (List UInt8) → Volume → Nat → Option (Volume × Nat)
  | [], v, inode => some (v, inode)
  | [[]], v, inode => some (v, inode)
  | name :: path, v, inode => do
    let v ← v.readDir inode
    let stop ← scanDir v.stdBuf v.blockSize name (v.blockSize + 1) 0
    if stop.2 = none ∧ stop.1 = v.blockSize then
      some (v, 0)
    else
      let inode := stop.2.getD inode
      if path = [] then some (v, inode) else findLoop path v inode

/-- `filesystem.c`, `find_inode`. -/
def findInode (path : List UInt8) (root : Nat) : Option (Volume × Nat) :=
  findLoop (components path) v (if path.head? = some SLASH then 2 else root)

/-! ## Adding an entry -/

end Volume

/-- `filesystem.c`, `set_dir_entry`: the memory afterwards and the size of the entry. -/
def setDirEntry (buf : Bytes) (e inode : Nat) (type : UInt8) (name : List UInt8) (size : Nat) :
    Bytes × Nat :=
  let len := name.length % 2 ^ 8
  let ret := if size ≠ 0 then 4 * (1 + (size - 1) / 4) % 2 ^ 16 else naturalSize len
  let buf := setByte ((buf.set32 e inode).set16 (e + 4) ret) (e + 6) (UInt8.ofNat len)
  let buf := setByte buf (e + 7) type
  (buf.blit (e + NAME) (fun x => name.getD x 0) 0 len, ret)

/-- The first loop of `add_file`, from `entry` on, in `n` rounds at most: the entry it stops at and
the room up to its end, unless it comes across the name. -/
def findRoom (buf : Bytes) (size : Nat) (name : List UInt8) :
    Nat → Nat → Nat → Option (Option (Nat × Nat))
  | 0, _, _ => none
  | n + 1, entry, room =>
    if entryInode buf entry ≠ 0 ∧ room < size then
      let entry := entry + entrySize buf entry
      if nameMatches buf entry name then some none
      else findRoom buf size name n entry (room + entrySize buf entry)
    else
      some (some (entry, room))

/-- The copy of a name in the second loop of `add_file`, byte by byte. -/
def copyName (buf : Bytes) (ref entry : Nat) : Nat → Bytes
  | 0 => buf
  | n + 1 =>
    let buf := copyName buf ref entry n
    setByte buf (ref + NAME + n) (buf (entry + NAME + n))

/-- The second loop of `add_file`, which shrinks the entries from `entry` on and moves them to
`ref`, in `n` rounds at most: the memory afterwards and the end of the last entry. -/
def shrinkEntries (size : Nat) : Nat → Bytes → Nat → Nat → Option (Bytes × Nat)
  | 0, _, _, _ => none
  | n + 1, buf, entry, ref =>
    if entryInode buf entry ≠ 0 ∧ entry < size then
      let len := nameLength buf entry
      let buf := setByte buf (ref + 6) (UInt8.ofNat len)
      let buf := buf.set32 ref (entryInode buf entry)
      let buf := setByte buf (ref + 7) (fileType buf entry)
      let buf := buf.set16 (ref + 4) (naturalSize len)
      let buf := copyName buf ref entry len
      shrinkEntries size n buf (entry + entrySize buf entry) (ref + entrySize buf ref)
    else
      some (buf, ref)

namespace Volume

variable (v : Volume)

/-- `FILE_DIR`. -/
def FILE_DIR : UInt8 := 2

/-- The end of `add_file`: the directory block is written, and a link to a new directory counted. -/
def storeDir (dir : Nat) (type : UInt8) (buf : Bytes) : Volume :=
  let v := (v.setStdBuf buf).storeBlock (v.dbp 0)
  if type &&& FILE_DIR ≠ 0 then
    { v with stdInode := v.stdInode.set16 26 ((v.stdInode.get16 26 + 1) % 2 ^ 16) }.updateInode dir
  else v

/-- `filesystem.c`, `add_file`, once the last entry and the room up to its end are known. -/
def addEntry (dir inode : Nat) (type : UInt8) (name : List UInt8) (entry room : Nat) :
    Option (Volume × Nat) :=
  let resize := naturalSize (nameLength v.stdBuf entry)
  let room := add32 (sub32 room (entrySize v.stdBuf entry)) resize
  if sub32 v.blockSize room < DIR_ENTRY + name.length then do
    -- the code takes the size of the entry "." for 8
    let (buf, ref) ← shrinkEntries v.blockSize (2 * v.blockSize) v.stdBuf 8 8
    let room := sub32 v.blockSize ref
    if room < DIR_ENTRY + name.length then
      some (v.setStdBuf buf, 2)
    else
      some (v.storeDir dir type (setDirEntry buf ref inode type name (room % 2 ^ 16)).1, 0)
  else
    let buf := v.stdBuf.set16 (entry + 4) resize
    some (v.storeDir dir type (setDirEntry buf (entry + resize) inode type name
      (sub32 v.blockSize room % 2 ^ 16)).1, 0)

/-- `filesystem.c`, `add_file`: the volume afterwards and the error. -/
def addFile (dir inode : Nat) (type : UInt8) (name : List UInt8) : Option (Volume × Nat) :=
  if dir = 0 then some (v, 4)
  else if inode = 0 then some (v, 5)
  else if name.length / 2 ^ 8 ≠ 0 then some (v, 3)
  else if name.headD 0 = DASH then some (v, 6)
  else if SLASH ∈ name then some (v, 6)
  else do
    let v ← v.readDir dir
    if nameMatches v.stdBuf 0 name then
      some (v, 1)
    else
      match ← findRoom v.stdBuf v.blockSize name (v.blockSize + 2) 0 (entrySize v.stdBuf 0) with
      | none => some (v, 1)
      | some (entry, room) => v.addEntry dir inode type name entry room

end Volume

/-! ## Removing an entry -/

/-- The loop of `remove_file`, from the entries `prec` and `entry` on, in `n` rounds at most: the
two entries it stops at. -/
def findEntry (buf : Bytes) (size inode : Nat) : Nat → Nat → Nat → Option (Nat × Nat)
  | 0, _, _ => none
  | n + 1, prec, entry =>
    if entry < size ∧ entryInode buf entry ≠ inode then
      findEntry buf size inode n (prec + entrySize buf prec) (entry + entrySize buf entry)
    else some (prec, entry)

namespace Volume

variable (v : Volume)

/-- `filesystem.c`, `remove_file`, once the entry and the one before it are known. -/
def unlinkEntry (dir prec entry : Nat) : Volume :=
  let buf := v.stdBuf.set16 (prec + 4)
    ((entrySize v.stdBuf prec + entrySize v.stdBuf entry) % 2 ^ 16)
  let v := (v.setStdBuf buf).storeBlock (v.dbp 0)
  if fileType buf entry &&& FILE_DIR ≠ 0 then
    { v with
      stdInode := v.stdInode.set16 26 ((v.stdInode.get16 26 + 2 ^ 16 - 1) % 2 ^ 16) }.updateInode dir
  else v

/-- `filesystem.c`, `remove_file`: the volume afterwards and the error. -/
def removeFile (dir inode : Nat) : Option (Volume × Nat) :=
  if dir = 0 then some (v, 4)
  else if inode = 0 then some (v, 5)
  else do
    let v ← v.readDir dir
    let prec := entrySize v.stdBuf 0
    let (prec, entry) ← findEntry v.stdBuf v.blockSize inode (v.blockSize + 1) prec
      (prec + entrySize v.stdBuf prec)
    if v.blockSize ≤ entry then some (v, 1) else some (v.unlinkEntry dir prec entry, 0)

end Volume

end MarioBrOS.Fs
