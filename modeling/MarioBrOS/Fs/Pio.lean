import MarioBrOS.Fs.Disk

/-!
# Reading words from the drive

`readPIO` of `ata_pio.c`, word by word. After a READ SECTORS command the data port yields the words
of the sectors asked for, in order; a word that is left there would be taken for the first one of
the next command. The loops store whole words as long as they can, and the odd bytes at the two ends
of the range one by one. `readPIO_spec` says that the range arrives as it is on the disk and that no
word is left; so `readPio`, which moves the range at once, describes the same transfer
(`readPIO_readPio`). Waiting for the drive before each sector is left out.
-/

namespace MarioBrOS.Fs

/-- Where `readPIO` stands: its index `i`, the number of words it has taken from the port, and the
buffer. -/
structure Pio where
  i : Int
  taken : Nat
  buffer : Bytes

/-- What `readPIO` leaves: the buffer, the sectors it has asked the drive for, and the number of
words it has taken from the port. -/
structure PioRead where
  buffer : Bytes
  asked : Nat
  taken : Nat

/-- The word number `k` that the drive yields after a READ SECTORS command for sector `lba`. -/
def portWord (disk : Bytes) (lba k : Nat) : Nat := disk.get16 (512 * lba + 2 * k)

/-- A round of the first loop of `readPIO`. -/
def pioStep (word : Nat → Nat) (start : Nat) (p : Pio) : Pio where
  i := p.i + 2
  taken := p.taken + 1
  buffer :=
    if p.i < -1 then p.buffer
    else if p.i = -1 then Function.update p.buffer start (UInt8.ofNat (word p.taken / 2 ^ 8))
    else p.buffer.set16 (start + p.i.toNat) (word p.taken)

/-- `while(i < (s_int32) length - 1)`, in `n` rounds at most. -/
def pioLoop (word : Nat → Nat) (start length : Nat) : Nat → Pio → Option Pio
  | 0, _ => none
  | n + 1, p =>
    if p.i < (length : Int) - 1 then pioLoop word start length n (pioStep word start p) else some p

/-- The half word at the end of a range that ends at an odd position. -/
def pioHalf (word : Nat → Nat) (start : Nat) (p : Pio) : Pio where
  i := p.i + 2
  taken := p.taken + 1
  buffer := Function.update p.buffer (start + p.i.toNat) (UInt8.ofNat (word p.taken))

/-- `while(i%512)`, in `n` rounds at most. -/
def pioPad : Nat → Pio → Option Pio
  | 0, _ => none
  | n + 1, p =>
    if p.i % 512 = 0 then some p else pioPad n { p with i := p.i + 2, taken := p.taken + 1 }

/-- `ata_pio.c`, `readPIO`, into the bytes of `buffer` from `start` on. `length` is below `2 ^ 31`.
-/
def readPIO (disk : Bytes) (lba offset length : Nat) (buffer : Bytes) (start : Nat) :
    Option PioRead :=
  if length = 0 then
    some ⟨buffer, 0, 0⟩
  else
    let lba := add32 lba (0x800 + offset / 512)
    let offset := offset % 512
    let sectorCount := (1 + (offset + length - 1) / 512) % 2 ^ 16
    if 256 < sectorCount then
      none
    else do
      let sectorCount := if sectorCount = 256 then 0 else sectorCount
      let word := portWord disk (lba % 2 ^ 28)
      let p ← pioLoop word start length (offset + length) ⟨-offset, 0, buffer⟩
      let p := if (length + offset) % 2 ≠ 0 then pioHalf word start p else p
      let p ← pioPad 257 { p with i := p.i + offset }
      some ⟨p.buffer, sectors sectorCount, p.taken⟩

/-! ## The loops -/

variable (disk : Bytes) (lba o start : Nat) (buffer : Bytes)

/-- Where `readPIO` stands after `k` words: the bytes of the range among them are in the buffer. -/
def pioAt (k : Nat) : Pio where
  i := 2 * (k : Int) - o
  taken := k
  buffer := buffer.blit start disk (512 * lba + o) (2 * k - o)

variable {disk lba o start buffer}

@[simp] lemma pioAt_i {k : Nat} : (pioAt disk lba o start buffer k).i = 2 * (k : Int) - o := rfl

@[simp] lemma pioAt_taken {k : Nat} : (pioAt disk lba o start buffer k).taken = k := rfl

lemma ofNat_portWord (k : Nat) : UInt8.ofNat (portWord disk lba k) = disk (512 * lba + 2 * k) := by
  unfold portWord Bytes.get16
  apply UInt8.toNat_inj.mp
  have := (disk (512 * lba + 2 * k)).toNat_lt
  rw [UInt8.toNat_ofNat']
  omega

lemma ofNat_portWord_div (k : Nat) :
    UInt8.ofNat (portWord disk lba k / 2 ^ 8) = disk (512 * lba + 2 * k + 1) := by
  unfold portWord Bytes.get16
  apply UInt8.toNat_inj.mp
  have := (disk (512 * lba + 2 * k)).toNat_lt
  have := (disk (512 * lba + 2 * k + 1)).toNat_lt
  rw [UInt8.toNat_ofNat']
  omega

/-- One byte more of a range. -/
lemma blit_succ (m b : Bytes) (d s n : Nat) :
    m.blit d b s (n + 1) = Function.update (m.blit d b s n) (d + n) (b (s + n)) := by
  funext x
  rcases Nat.lt_trichotomy x (d + n) with h | rfl | h
  · rw [Function.update_of_ne (by omega)]
    unfold Bytes.blit
    by_cases hx : d ≤ x
    · rw [if_pos (by omega), if_pos (by omega)]
    · rw [if_neg (by omega), if_neg (by omega)]
  · rw [Function.update_self, Bytes.blit_apply_of_inside (by omega), Nat.add_sub_cancel_left]
  · rw [Function.update_of_ne (by omega), Bytes.blit_apply_of_outside (by omega),
      Bytes.blit_apply_of_outside (by omega)]

/-- Storing a half word stores its two bytes. -/
lemma set16_eq_update (m : Bytes) (a v : Nat) :
    m.set16 a v = Function.update (Function.update m a (UInt8.ofNat v)) (a + 1)
      (UInt8.ofNat (v / 2 ^ 8)) := by
  funext x
  unfold Bytes.set16 Bytes.byteOf
  by_cases h1 : x = a + 1
  · rw [h1, Function.update_self, if_pos (by omega), Nat.add_sub_cancel_left]
  rw [Function.update_of_ne h1]
  by_cases h0 : x = a
  · rw [h0, Function.update_self, if_pos (by omega), Nat.sub_self, Nat.mul_zero, Nat.pow_zero,
      Nat.div_one]
  · rw [Function.update_of_ne h0, if_neg (by omega)]

/-- A round takes one word and stores its bytes inside the range. -/
lemma pioStep_pioAt (k : Nat) :
    pioStep (portWord disk lba) start (pioAt disk lba o start buffer k) =
      pioAt disk lba o start buffer (k + 1) := by
  have hi : 2 * (k : Int) - o + 2 = 2 * ((k + 1 : Nat) : Int) - o := by omega
  unfold pioStep
  rw [pioAt_i, pioAt_taken, hi]
  unfold pioAt
  congr 1
  dsimp only
  rcases Nat.lt_trichotomy o (2 * k + 1) with h | h | h
  · -- a word inside the range
    rw [if_neg (by omega), if_neg (by omega), set16_eq_update, ofNat_portWord, ofNat_portWord_div,
      show (2 * (k : Int) - o).toNat = 2 * k - o by omega,
      show 2 * (k + 1) - o = 2 * k - o + 1 + 1 by omega, blit_succ, blit_succ,
      show 512 * lba + o + (2 * k - o) = 512 * lba + 2 * k by omega,
      show 512 * lba + o + (2 * k - o + 1) = 512 * lba + 2 * k + 1 by omega]
    rfl
  · -- the range starts with the high byte of the word
    rw [if_neg (by omega), if_pos (by omega), ofNat_portWord_div,
      show 2 * (k + 1) - o = 0 + 1 by omega, blit_succ, show 2 * k - o = 0 by omega, h]
    rfl
  · -- a word before the range
    rw [if_pos (by omega), show 2 * (k + 1) - o = 2 * k - o by omega]

/-- The first loop goes on to the last word that lies in the range. -/
lemma pioLoop_pioAt {k n length : Nat} (hk : 2 * k ≤ o + length)
    (hn : o + length < 2 * (k + n)) :
    pioLoop (portWord disk lba) start length n (pioAt disk lba o start buffer k) =
      some (pioAt disk lba o start buffer ((o + length) / 2)) := by
  induction n generalizing k with
  | zero => omega
  | succ n ih =>
    rw [pioLoop, pioAt_i]
    by_cases h : 2 * (k + 1) ≤ o + length
    · rw [if_pos (by omega), pioStep_pioAt]
      exact ih h (by omega)
    · rw [if_neg (by omega), show (o + length) / 2 = k by omega]

/-- The half word completes the range. -/
lemma pioHalf_pioAt {length : Nat} (h0 : 0 < length) (h : (length + o) % 2 ≠ 0) :
    pioHalf (portWord disk lba) start (pioAt disk lba o start buffer ((o + length) / 2)) =
      ⟨2 * (((o + length) / 2 + 1 : Nat) : Int) - o, (o + length) / 2 + 1,
        buffer.blit start disk (512 * lba + o) length⟩ := by
  unfold pioHalf
  rw [pioAt_i, pioAt_taken, ofNat_portWord]
  generalize hk : (o + length) / 2 = k
  congr 1
  · omega
  · unfold pioAt
    dsimp only
    rw [show (2 * (k : Int) - o).toNat = length - 1 by omega,
      show 2 * k - o = length - 1 by omega,
      show 512 * lba + 2 * k = 512 * lba + o + (length - 1) by omega, ← blit_succ,
      Nat.sub_add_cancel h0]

/-- The second loop takes the words up to the end of the sector. -/
lemma pioPad_eq {t n : Nat} (hn : 255 - (t + 255) % 256 < n) :
    pioPad n ⟨2 * (t : Int), t, buffer⟩ =
      some ⟨2 * ((256 * ((t + 255) / 256) : Nat) : Int), 256 * ((t + 255) / 256), buffer⟩ := by
  induction n generalizing t with
  | zero => omega
  | succ n ih =>
    rw [pioPad]
    by_cases h : t % 256 = 0
    · rw [if_pos (show 2 * (t : Int) % 512 = 0 by omega), show 256 * ((t + 255) / 256) = t by omega]
    · rw [if_neg (show ¬ 2 * (t : Int) % 512 = 0 by omega)]
      have := ih (t := t + 1) (by omega)
      rw [show (t + 1 + 255) / 256 = (t + 255) / 256 by omega] at this
      exact this

/-! ## The transfer -/

/-- The first sector of the transfer, as the command names it. -/
lemma lbaByte_add (lba n : Nat) :
    lbaByte (lba + n) = 512 * (add32 lba (0x800 + n) % 2 ^ 28) := by
  unfold lbaByte add32
  rw [Nat.add_assoc, Nat.add_comm n]

/-- A range in at most 256 sectors is moved as a whole, and the port is left empty. -/
lemma readPIO_eq {offset length : Nat} (h0 : 1 ≤ length) (hs : offset % 512 + length ≤ 2 ^ 17) :
    readPIO disk lba offset length buffer start =
      some ⟨buffer.blit start disk (lbaByte (lba + offset / 512) + offset % 512) length,
        1 + (offset % 512 + length - 1) / 512, 256 * (1 + (offset % 512 + length - 1) / 512)⟩ := by
  rw [lbaByte_add]
  unfold readPIO
  rw [if_neg (by omega)]
  dsimp only
  generalize offset % 512 = o at hs ⊢
  generalize add32 lba (0x800 + offset / 512) % 2 ^ 28 = lba
  generalize hc : (1 + (o + length - 1) / 512) % 2 ^ 16 = count
  have hcount : count = 1 + (o + length - 1) / 512 := by omega
  have hsectors : sectors (if count = 256 then 0 else count) = count := by
    split
    · rename_i h
      rw [h]
      rfl
    · exact sectors_of_le (by omega) (by omega)
  have hstart : (⟨-(o : Int), 0, buffer⟩ : Pio) = pioAt disk lba o start buffer 0 := by
    unfold pioAt
    rw [Nat.mul_zero, Nat.zero_sub, Bytes.blit_zero]
    congr 1
    omega
  -- the words of the range are taken, up to an even position
  have hrange : ∃ t, t = (o + length + 1) / 2 ∧
      (if (length + o) % 2 ≠ 0 then
          pioHalf (portWord disk lba) start (pioAt disk lba o start buffer ((o + length) / 2))
        else pioAt disk lba o start buffer ((o + length) / 2)) =
        ⟨2 * (t : Int) - o, t, buffer.blit start disk (512 * lba + o) length⟩ := by
    refine ⟨_, rfl, ?_⟩
    split
    · rename_i h
      rw [pioHalf_pioAt h0 h, show (o + length + 1) / 2 = (o + length) / 2 + 1 by omega]
    · unfold pioAt
      rw [show 2 * ((o + length) / 2) - o = length by omega,
        show (o + length + 1) / 2 = (o + length) / 2 by omega]
  rcases hrange with ⟨t, ht, hrange⟩
  rw [if_neg (by omega), hstart, pioLoop_pioAt (by omega) (by omega), Option.bind_eq_bind,
    Option.bind_some, hrange, Int.sub_add_cancel, pioPad_eq (by omega), Option.bind_some,
    hsectors, hcount, show (t + 255) / 256 = 1 + (o + length - 1) / 512 by omega]

/-- The bytes of the range, and no others, arrive in the buffer, and all the words of the sectors
asked for are taken. -/
theorem readPIO_spec (disk : Bytes) (lba offset length : Nat) (buffer : Bytes) (start : Nat)
    (h0 : 1 ≤ length) (hs : (offset + length - 1) / 512 < offset / 512 + 256) :
    ∃ r, readPIO disk lba offset length buffer start = some r ∧
      (∀ j, j < length →
        r.buffer (start + j) = disk (lbaByte (lba + offset / 512) + offset % 512 + j)) ∧
      (∀ x, x < start ∨ start + length ≤ x → r.buffer x = buffer x) ∧
      r.asked = (offset + length - 1) / 512 + 1 - offset / 512 ∧ r.taken = 256 * r.asked := by
  refine ⟨_, readPIO_eq h0 (by omega), fun j hj => ?_, fun x hx => ?_, ?_, rfl⟩
  · dsimp only
    rw [Bytes.blit_apply_of_inside (by omega), Nat.add_sub_cancel_left]
  · exact Bytes.blit_apply_of_outside hx
  · dsimp only
    omega

/-- An odd offset, an odd length and a range that ends in the next sector. -/
theorem readPIO_spec_odd :
    ∃ r, readPIO (fun x => UInt8.ofNat (x / 512 + x)) 3 511 4 (fun _ => 0) 7 = some r ∧
      (∀ j, j < 4 → r.buffer (7 + j) = UInt8.ofNat ((512 * 2051 + 511 + j) / 512 +
        (512 * 2051 + 511 + j))) ∧
      (∀ x, x < 7 ∨ 11 ≤ x → r.buffer x = 0) ∧ r.asked = 2 ∧ r.taken = 512 := by
  rcases readPIO_spec (fun x => UInt8.ofNat (x / 512 + x)) 3 511 4 (fun _ => 0) 7 (by decide)
    (by decide) with ⟨r, h1, h2, h3, h4, h5⟩
  have e : lbaByte (3 + 511 / 512) + 511 % 512 = 512 * 2051 + 511 := by decide +kernel
  refine ⟨r, h1, fun j hj => ?_, h3, h4, ?_⟩
  · rw [h2 j hj, e]
  · rw [h5, h4]

/-- What `readPIO` does, word by word, to the buffer is what `readPio` does at once. -/
lemma readPIO_readPio {offset length : Nat} (hs : offset % 512 + length ≤ 2 ^ 17) :
    PioRead.buffer <$> readPIO disk lba offset length buffer start =
      readPio disk lba offset length buffer start := by
  by_cases h0 : length = 0
  · unfold readPIO readPio
    rw [if_pos h0, if_pos h0]
    rfl
  · rw [readPIO_eq (by omega) hs]
    unfold readPio
    rw [if_neg h0]
    dsimp only
    rw [if_neg (by omega), lbaByte_add]
    rfl

end MarioBrOS.Fs
