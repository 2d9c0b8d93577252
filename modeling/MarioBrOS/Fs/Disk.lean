import MarioBrOS.Lib.Bits
import Mathlib.Data.Nat.Basic

/-!
# The disk

The transfers of `ata_pio.c`, by what they move: the ports, the delays and the status polling are
left out, and a drive that reports an error is not modelled. The disk is the byte at each position;
sector `n` of the volume is the sector `n + 0x800` of the drive, of which 28 bits reach it.
-/

namespace MarioBrOS.Fs

/-- The number of sectors transferred for an 8-bit sector count, of which 0 stands for 256. -/
def sectors (sectorCount : Nat) : Nat := (sectorCount + 255) % 256 + 1

/-- The first byte of sector `lba` of the volume. -/
def lbaByte (lba : Nat) : Nat := 512 * (add32 lba 0x800 % 2 ^ 28)

/-- `ata_pio.c`, `readLBA`. -/
def readLBA (disk : Bytes) (lba sectorCount : Nat) (buffer : Bytes) : Bytes :=
  buffer.blit 0 disk (lbaByte lba) (512 * sectors sectorCount)

/-- `ata_pio.c`, `writeLBA`. -/
def writeLBA (disk : Bytes) (lba sectorCount : Nat) (buffer : Bytes) : Bytes :=
  disk.blit (lbaByte lba) buffer 0 (512 * sectors sectorCount)

/-- `ata_pio.c`, `readPIO`, into the bytes of `buffer` from `start` on. It throws when the range
takes more than 256 sectors. -/
def readPio (disk : Bytes) (lba offset length : Nat) (buffer : Bytes) (start : Nat) :
    Option Bytes :=
  if length = 0 then
    some buffer
  else
    let lba := add32 lba (0x800 + offset / 512)
    let offset := offset % 512
    if 256 < (1 + (offset + length - 1) / 512) % 2 ^ 16 then
      none
    else
      some (buffer.blit start disk (512 * (lba % 2 ^ 28) + offset) length)

lemma sectors_of_le {n : Nat} (h0 : 0 < n) (h : n ≤ 256) : sectors n = n := by
  unfold sectors
  omega

/-- A range of at most 256 sectors that starts in a low sector is read. -/
lemma readPio_eq {disk buffer : Bytes} {lba offset length start : Nat}
    (hl : offset % 512 + length ≤ 2 ^ 17) (ha : lba + 0x800 + offset / 512 < 2 ^ 28) :
    readPio disk lba offset length buffer start =
      some (buffer.blit start disk (lbaByte lba + offset) length) := by
  unfold readPio
  by_cases h0 : length = 0
  · rw [if_pos h0]
    rw [h0, Bytes.blit_zero]
  · rw [if_neg h0]
    dsimp only
    rw [if_neg (by omega)]
    congr 2
    unfold lbaByte
    rw [add32_of_lt (by omega), add32_of_lt (by omega)]
    omega

/-- A range inside its first block of sectors is read, wherever the block is. -/
lemma readPio_zero {disk buffer : Bytes} {lba length start : Nat} (hl : length ≤ 2 ^ 17) :
    readPio disk lba 0 length buffer start =
      some (buffer.blit start disk (lbaByte lba) length) := by
  unfold readPio
  by_cases h0 : length = 0
  · rw [if_pos h0]
    rw [h0, Bytes.blit_zero]
  · rw [if_neg h0]
    dsimp only
    rw [if_neg (by omega)]
    rfl

end MarioBrOS.Fs
