import MarioBrOS.Fs.BlockMap
import Mathlib.Tactic.IntervalCases
import Mathlib.Tactic.Ring

/-!
# One block map

`prepare_blocks` stores the `n`-th block of a file at `prepareSlot`. The functions that read and
write a file find it again for some block numbers only: they take the tables to have `block_size`
entries where they have `block_size / 4`, and the products of `block_size` leave 32 bits. `Found`
says for which numbers they do, and `one_block_map` that the two sides agree for exactly these.
-/

namespace MarioBrOS.Fs

/-- The position where `prepare_blocks` stores the `n`-th block of a file, with `a` addresses in a
block: `dbp[n]`, then `used` in `sibp`, then `used / a` and `used % a` below `dibp`, then
`used / a ^ 2`, `used % a ^ 2 / a` and `used % a` below `tibp`, `used` counted from the start of
each tree. -/
def prepareSlot (a n : Nat) : Slot :=
  if n < 12 then
    .direct n
  else if n - 12 < a then
    .single (n - 12)
  else if n - 12 - a < a * a then
    .double ((n - 12 - a) / a) ((n - 12 - a) % a)
  else
    .triple ((n - 12 - a - a * a) / (a * a)) ((n - 12 - a - a * a) % (a * a) / a)
      ((n - 12 - a - a * a) % a)

/-! ## The volume that tells slots apart -/

/-- Entry `i` of block `n` of a volume on which `target` alone leads to block 5, which holds zeros;
every other way leads to block 1. The inode is at the start of block 0. -/
def probe : Slot → Nat → Nat → Nat
  | _, 5, _ => 0
  | .direct x, 0, i => if i = 10 + x then 5 else 1
  | .single _, 0, i => if i = 22 then 2 else 1
  | .single x, 2, i => if i = x then 5 else 1
  | .double _ _, 0, i => if i = 23 then 2 else 1
  | .double x _, 2, i => if i = x then 3 else 1
  | .double _ y, 3, i => if i = y then 5 else 1
  | .triple _ _ _, 0, i => if i = 24 then 2 else 1
  | .triple x _ _, 2, i => if i = x then 3 else 1
  | .triple _ y _, 3, i => if i = y then 4 else 1
  | .triple _ _ z, 4, i => if i = z then 5 else 1
  | _, _, _ => 1

lemma probe_lt (t : Slot) (n i : Nat) : probe t n i < 2 ^ 32 := by
  unfold probe
  split <;> (try split) <;> omega

/-- The words of the disk that holds the entries of `probe`, `256 * 2 ^ s` to a block. -/
def probeWord (s : Nat) (t : Slot) (k : Nat) : Nat :=
  if k < 2 ^ 18 then 0
  else probe t ((k - 2 ^ 18) / (256 * 2 ^ s)) ((k - 2 ^ 18) % (256 * 2 ^ s))

/-- The volume of `probe`, with blocks of `1024 * 2 ^ s` bytes. -/
def probeVolume (s : Nat) (t : Slot) : Volume where
  disk := Bytes.ofWords (probeWord s t)
  spb :=
    { inodeNum := 1, blockNum := 6, unallocBlockNum := 0, unallocInodeNum := 0, blockSize := s
      blockPerGroup := 8, inodePerGroup := 1, firstFreeInode := 1 }
  bgpt := fun _ => 0
  stdBuf := fun _ => 0
  stdInode := fun _ => 0

section Probe

variable {s : Nat} {t : Slot}

lemma probeVolume_blockByte (hs : s ≤ 7) {n : Nat} (hn : n ≤ 5) :
    (probeVolume s t).blockByte n = 4 * (2 ^ 18 + 256 * 2 ^ s * n) := by
  have hp : 2 ^ s ≤ 2 ^ 7 := Nat.pow_le_pow_right (by omega) hs
  show lbaByte (2 * 2 ^ s * n % 2 ^ 32) = _
  generalize 2 ^ s = p at hp
  have hm : 2 * p * n ≤ 2 * p * 5 := Nat.mul_le_mul_left _ hn
  have h32 : 2 * p * n % 2 ^ 32 = 2 * p * n := Nat.mod_eq_of_lt (by omega)
  unfold lbaByte
  rw [h32, add32_of_lt (by omega), Nat.mod_eq_of_lt (by omega), Nat.mul_assoc 2 p n,
    Nat.mul_assoc 256 p n]
  omega

lemma probeWord_eq {n i : Nat} (hi : i < 256 * 2 ^ s) :
    probeWord s t (2 ^ 18 + 256 * 2 ^ s * n + i) = probe t n i := by
  unfold probeWord
  generalize 256 * 2 ^ s = a at hi
  rw [if_neg (by omega), show 2 ^ 18 + a * n + i - 2 ^ 18 = a * n + i by omega,
    Nat.mul_add_div (by omega), Nat.div_eq_of_lt hi, Nat.mul_add_mod, Nat.mod_eq_of_lt hi,
    Nat.add_zero]

lemma probeVolume_entry (hs : s ≤ 7) {n i : Nat} (hn : n ≤ 5) (hi : i < 256 * 2 ^ s) :
    (probeVolume s t).entry n i = probe t n i := by
  unfold Volume.entry
  rw [probeVolume_blockByte hs hn, ← Nat.mul_add]
  have e := probeWord_eq (t := t) (n := n) hi
  exact (Bytes.get32_ofWords (e ▸ probe_lt t n i)).trans e

lemma probeVolume_byte (hs : s ≤ 7) {n : Nat} (hn : n ≤ 5) :
    (probeVolume s t).disk ((probeVolume s t).blockByte n) = Bytes.byteOf (probe t n 0) 0 := by
  have h0 : 0 < 256 * 2 ^ s := by have := Nat.two_pow_pos s; omega
  have e := probeWord_eq (t := t) (n := n) h0
  rw [Nat.add_zero] at e
  rw [probeVolume_blockByte hs hn]
  show Bytes.byteOf (probeWord s t (_ / 4)) (_ % 4) = _
  rw [Nat.mul_div_cancel_left _ (by omega), Nat.mul_mod_right, e]

/-- The inode of the volume, loaded. -/
lemma probeVolume_setInode (hs : s ≤ 7) :
    ∃ v', (probeVolume s t).setInode 1 = some v' ∧
      ∀ j, j < 32 → v'.stdInode.get32 (4 * j) = probe t 0 j := by
  have hp : 2 ^ 0 ≤ 2 ^ s := Nat.pow_le_pow_right (by omega) (by omega)
  have hb : (probeVolume s t).inodeTableAddress 0 = 0 := by
    unfold Volume.inodeTableAddress Bytes.get32
    rfl
  have hg : (probeVolume s t).inodeGroup 1 = 0 := by
    show sub32 1 1 / 1 = 0
    rw [sub32_of_le (by omega) (by omega)]
  have hx : (probeVolume s t).inodeIndex 1 = 0 := Nat.mod_one _
  unfold Volume.setInode
  rw [hg, hb, hx, show 0 * 128 % 2 ^ 32 = 0 by omega, readPio_zero (by omega)]
  refine ⟨_, rfl, fun j hj => ?_⟩
  have e := Bytes.get32_blit_of_inside (m := (probeVolume s t).stdInode)
    (b := (probeVolume s t).disk) (d := 0) (s := (probeVolume s t).blockByte 0) (n := 128)
    (i := 4 * j) (by omega)
  rw [Nat.zero_add] at e
  exact e.trans (probeVolume_entry hs (by omega) (by omega))

/-- Only the target leads to block 5. -/
lemma probeVolume_storedBlock (hs : s ≤ 7) {v' : Volume}
    (hv : (probeVolume s t).setInode 1 = some v')
    (hi : ∀ j, j < 32 → v'.stdInode.get32 (4 * j) = probe t 0 j) {slot : Slot}
    (ht : t.Below (256 * 2 ^ s)) (hb : slot.Below (256 * 2 ^ s)) :
    v'.storedBlock slot = if slot = t then 5 else 1 := by
  have hent : ∀ n i, n ≤ 5 → i < 256 * 2 ^ s → v'.entry n i = probe t n i := by
    intro n i hn h
    rw [Volume.setInode_eq hv]
    exact probeVolume_entry hs hn h
  -- table 1 leads to block 1, however deep it is followed
  have h1 : ∀ i, i < 256 * 2 ^ s → v'.entry 1 i = 1 := by
    intro i h
    rw [hent 1 i (by omega) h]
    cases t <;> rfl
  have hsi : v'.sibp = probe t 0 22 := hi 22 (by omega)
  have hdi : v'.dibp = probe t 0 23 := hi 23 (by omega)
  have hti : v'.tibp = probe t 0 24 := hi 24 (by omega)
  cases slot with
  | direct i =>
    have hdb : v'.dbp i = probe t 0 (10 + i) := by
      have h := hi (10 + i) (by unfold Slot.Below at hb; omega)
      unfold Volume.dbp
      rw [← h]
      congr 1
      omega
    rw [Volume.storedBlock, hdb]
    cases t <;> simp [probe, Slot.Below] at * <;> omega
  | single i =>
    rw [Volume.storedBlock, hsi]
    cases t with
    | single x =>
      rw [show probe (.single x) 0 22 = 2 from rfl, hent 2 i (by omega) hb]
      simp [probe]
    | direct x =>
      rw [show probe (.direct x) 0 22 = 1 from if_neg (by unfold Slot.Below at ht; omega), h1 i hb]
      rfl
    | double x y => exact h1 i hb
    | triple x y z => exact h1 i hb
  | double i j =>
    rw [Volume.storedBlock, hdi]
    cases t with
    | double x y =>
      rw [show probe (.double x y) 0 23 = 2 from rfl, hent 2 i (by omega) hb.1]
      by_cases hx : i = x
      · rw [show probe (.double x y) 2 i = 3 from if_pos hx, hent 3 j (by omega) hb.2]
        simp [probe, hx]
      · rw [show probe (.double x y) 2 i = 1 from if_neg hx, h1 j hb.2]
        simp [hx]
    | direct x =>
      rw [show probe (.direct x) 0 23 = 1 from if_neg (by unfold Slot.Below at ht; omega),
        h1 i hb.1, h1 j hb.2]
      rfl
    | single x => exact (congrArg (v'.entry · j) (h1 i hb.1)).trans (h1 j hb.2)
    | triple x y z => exact (congrArg (v'.entry · j) (h1 i hb.1)).trans (h1 j hb.2)
  | triple i j k =>
    have h111 : v'.entry (v'.entry (v'.entry 1 i) j) k = 1 := by
      rw [h1 i hb.1, h1 j hb.2.1, h1 k hb.2.2]
    rw [Volume.storedBlock, hti]
    cases t with
    | triple x y z =>
      rw [show probe (.triple x y z) 0 24 = 2 from rfl, hent 2 i (by omega) hb.1]
      by_cases hx : i = x
      · rw [show probe (.triple x y z) 2 i = 3 from if_pos hx, hent 3 j (by omega) hb.2.1]
        by_cases hy : j = y
        · rw [show probe (.triple x y z) 3 j = 4 from if_pos hy, hent 4 k (by omega) hb.2.2]
          simp [probe, hx, hy]
        · rw [show probe (.triple x y z) 3 j = 1 from if_neg hy, h1 k hb.2.2]
          simp [hy]
      · rw [show probe (.triple x y z) 2 i = 1 from if_neg hx, h1 j hb.2.1, h1 k hb.2.2]
        simp [hx]
    | direct x =>
      rw [show probe (.direct x) 0 24 = 1 from if_neg (by unfold Slot.Below at ht; omega)]
      exact h111
    | single x => exact h111
    | double x y => exact h111

end Probe

/-! ## When the two positions agree -/

/-- The block numbers the code finds: those whose offset is a 32-bit word, in the direct slots and
the first table, in the first `a` below `dibp` while `block_size ^ 2` is below `2 ^ 32`, and in the
first `a` below `tibp` for blocks of 1024 bytes. -/
def Found (s n : Nat) : Prop :=
  n * (1024 * 2 ^ s) < 2 ^ 32 ∧
    (n < 12 + 256 * 2 ^ s ∨
      s ≤ 5 ∧ n < 12 + 2 * (256 * 2 ^ s) ∨
      s = 0 ∧ 12 + 256 + 256 ^ 2 ≤ n ∧ n < 12 + 2 * 256 + 256 ^ 2)

section Arithmetic

variable {s a n m i j k : Nat}

/-- `block_size * block_size` in 32 bits. -/
lemma dbsize_eq (hs : s ≤ 7) : (1024 * 2 ^ s) * (1024 * 2 ^ s) % 2 ^ 32 =
    if s ≤ 5 then (1024 * 2 ^ s) * (1024 * 2 ^ s) else 0 := by
  interval_cases s <;> decide

/-- The bound on the blocks below `tibp`, in 32 bits. -/
lemma tripleBound_eq (hs : s ≤ 7) :
    (1024 * 2 ^ s) * (1024 * 2 ^ s) % 2 ^ 32 * (1024 * 2 ^ s) % 2 ^ 32 / 64 =
      if s = 0 then 2 ^ 24 else 0 := by
  interval_cases s <;> decide

/-- The slots the code computes: the tree below `dibp` is reached while `block_size ^ 2` is below
`2 ^ 32`, that below `tibp` for blocks of 1024 bytes only. -/
lemma inodeSlot_eq (hs : s ≤ 7) (m : Nat) :
    inodeSlot (1024 * 2 ^ s) m =
      if m < 12 then some (.direct m)
      else if m - 12 < 256 * 2 ^ s then some (.single (m - 12))
      else if s ≤ 5 ∧ m - 12 - 256 * 2 ^ s < 256 * 2 ^ s * (256 * 2 ^ s) then
        some (.double ((m - 12 - 256 * 2 ^ s) / (4 * (256 * 2 ^ s)))
          ((m - 12 - 256 * 2 ^ s) % (4 * (256 * 2 ^ s))))
      else if s = 0 ∧ m - 12 - 256 - 256 * 256 < 2 ^ 24 then
        some (.triple ((m - 12 - 256 - 256 * 256) / 2 ^ 20)
          ((m - 12 - 256 - 256 * 256) % 2 ^ 20 / 2 ^ 10) ((m - 12 - 256 - 256 * 256) % 2 ^ 10))
      else none := by
  have hp := Nat.two_pow_pos s
  have e4 : 1024 * 2 ^ s / 4 = 256 * 2 ^ s := by omega
  have e5 : 1024 * 2 ^ s * (1024 * 2 ^ s) / 16 = 256 * 2 ^ s * (256 * 2 ^ s) := by
    rw [show 1024 * 2 ^ s * (1024 * 2 ^ s) = 16 * (256 * 2 ^ s * (256 * 2 ^ s)) by ring]
    omega
  have e6 : 1024 * 2 ^ s = 4 * (256 * 2 ^ s) := by omega
  unfold inodeSlot
  dsimp only
  rw [tripleBound_eq hs, dbsize_eq hs, e4]
  by_cases h1 : m < 12
  · rw [if_pos h1, if_pos h1]
  rw [if_neg h1, if_neg h1]
  by_cases h2 : m - 12 < 256 * 2 ^ s
  · rw [if_pos h2, if_pos h2]
  rw [if_neg h2, if_neg h2]
  -- the code reaches the last tree for blocks of 1024 bytes only
  rcases Nat.eq_zero_or_pos s with rfl | h0
  · rw [if_pos rfl, if_pos (by omega : 0 ≤ 5)]
    simp only [Nat.pow_zero, Nat.mul_one]
    rw [show 1024 * 1024 / 16 = 256 * 256 from rfl]
    by_cases h3 : m - 12 - 256 < 256 * 256
    · rw [if_pos h3, if_pos ⟨by omega, h3⟩]
    rw [if_neg h3]
    by_cases h4 : m - 12 - 256 - 256 * 256 < 2 ^ 24
    · rw [if_neg (by omega), if_neg (fun h => h3 h.2), if_pos ⟨trivial, h4⟩]
      rfl
    · rw [if_pos (by omega), if_neg (fun h => h3 h.2), if_neg (fun h => h4 h.2)]
  rw [if_neg (by omega : ¬ s = 0)]
  by_cases h5 : s ≤ 5
  · rw [if_pos h5, e5]
    by_cases h3 : m - 12 - 256 * 2 ^ s < 256 * 2 ^ s * (256 * 2 ^ s)
    · rw [if_pos h3, if_pos ⟨h5, h3⟩, e6]
    · rw [if_neg h3, if_pos (Nat.zero_le _), if_neg (fun h => h3 h.2), if_neg (by omega)]
  · rw [if_neg h5, if_neg (Nat.not_lt_zero _), if_pos (Nat.zero_le _), if_neg (fun h => h5 h.1),
      if_neg (by omega)]

/-- Dividing by four times too much finds the right entry in the first table only. -/
lemma double_agree (ha : 0 < a) (h : i ≤ j) (e1 : i / (4 * a) = j / a) (e2 : i % (4 * a) = j % a) :
    i = j ∧ i < a := by
  have hi := Nat.div_add_mod i (4 * a)
  have hj := Nat.div_add_mod j a
  have hlt := Nat.mod_lt j ha
  rw [e1, e2, Nat.mul_assoc] at hi
  generalize a * (j / a) = x at hi hj
  omega

lemma prepareSlot_direct (h : prepareSlot a n = .direct i) : n < 12 ∧ i = n := by
  unfold prepareSlot at h
  split_ifs at h with h1 <;> cases h
  exact ⟨h1, rfl⟩

lemma prepareSlot_single (h : prepareSlot a n = .single i) : n - 12 < a ∧ 12 ≤ n ∧ i = n - 12 := by
  unfold prepareSlot at h
  split_ifs at h with h1 h2 <;> cases h
  exact ⟨h2, Nat.not_lt.mp h1, rfl⟩

lemma prepareSlot_double (h : prepareSlot a n = .double i j) :
    12 + a ≤ n ∧ i = (n - 12 - a) / a ∧ j = (n - 12 - a) % a := by
  unfold prepareSlot at h
  split_ifs at h <;> cases h
  exact ⟨by omega, rfl, rfl⟩

lemma prepareSlot_triple (h : prepareSlot a n = .triple i j k) :
    12 + a + a * a ≤ n ∧ i = (n - 12 - a - a * a) / (a * a) ∧
      j = (n - 12 - a - a * a) % (a * a) / a ∧ k = (n - 12 - a - a * a) % a := by
  unfold prepareSlot at h
  split_ifs at h <;> cases h
  exact ⟨by omega, rfl, rfl, rfl⟩

/-- The slot is in range below the last block of the largest file. -/
lemma prepareSlot_below (ha : 0 < a) (hn : n < 12 + a + a ^ 2 + a ^ 3) :
    (prepareSlot a n).Below a := by
  unfold prepareSlot
  by_cases h1 : n < 12
  · rw [if_pos h1]
    exact h1
  rw [if_neg h1]
  by_cases h2 : n - 12 < a
  · rw [if_pos h2]
    exact h2
  rw [if_neg h2]
  by_cases h3 : n - 12 - a < a * a
  · rw [if_pos h3]
    exact ⟨Nat.div_lt_of_lt_mul h3, Nat.mod_lt _ ha⟩
  rw [if_neg h3]
  have h4 : n - 12 - a - a * a < a * a * a := by
    have e2 : a ^ 2 = a * a := Nat.pow_two a
    have e3 : a ^ 3 = a * a * a := by rw [Nat.pow_succ, e2]
    omega
  exact ⟨Nat.div_lt_of_lt_mul h4, Nat.div_lt_of_lt_mul (Nat.mod_lt _ (Nat.mul_pos ha ha)),
    Nat.mod_lt _ ha⟩

/-- Where the code finds a block, it computes the slot that `prepare_blocks` uses. -/
lemma inodeSlot_of_found (hs : s ≤ 7) (h : Found s n) :
    inodeSlot (1024 * 2 ^ s) n = some (prepareSlot (256 * 2 ^ s) n) := by
  have hp := Nat.two_pow_pos s
  rw [inodeSlot_eq hs]
  unfold prepareSlot
  by_cases h1 : n < 12
  · rw [if_pos h1, if_pos h1]
  rw [if_neg h1, if_neg h1]
  by_cases h2 : n - 12 < 256 * 2 ^ s
  · rw [if_pos h2, if_pos h2]
  rw [if_neg h2, if_neg h2]
  rcases h.2 with h | ⟨hs, h⟩ | ⟨rfl, h⟩
  · omega
  · have hsq : 256 * 2 ^ s ≤ 256 * 2 ^ s * (256 * 2 ^ s) := Nat.le_mul_self _
    rw [if_pos ⟨hs, by omega⟩, if_pos (by omega)]
    rw [Nat.div_eq_of_lt (by omega), Nat.div_eq_of_lt (by omega), Nat.mod_eq_of_lt (by omega),
      Nat.mod_eq_of_lt (by omega)]
  · rw [if_neg (by omega), if_pos ⟨rfl, by omega⟩, if_neg (by omega), Nat.pow_zero, Nat.mul_one]
    have hi : n - 12 - 256 - 256 * 256 < 256 := by omega
    generalize n - 12 - 256 - 256 * 256 = i at hi
    rw [Nat.div_eq_of_lt (by omega), Nat.mod_eq_of_lt (by omega : i < 2 ^ 20),
      Nat.div_eq_of_lt (by omega), Nat.mod_eq_of_lt (by omega : i < 2 ^ 10),
      Nat.div_eq_of_lt (by omega), Nat.mod_eq_of_lt (by omega : i < 256 * 256),
      Nat.div_eq_of_lt (by omega), Nat.mod_eq_of_lt (by omega : i < 256)]

/-- No smaller block number leads the code to the slot of block `n`. -/
lemma found_of_inodeSlot (hs : s ≤ 7) (hm : m ≤ n)
    (h : inodeSlot (1024 * 2 ^ s) m = some (prepareSlot (256 * 2 ^ s) n)) :
    m = n ∧
      (n < 12 + 256 * 2 ^ s ∨ s ≤ 5 ∧ n < 12 + 2 * (256 * 2 ^ s) ∨
        s = 0 ∧ 12 + 256 + 256 ^ 2 ≤ n ∧ n < 12 + 2 * 256 + 256 ^ 2) := by
  have hp := Nat.two_pow_pos s
  rw [inodeSlot_eq hs] at h
  split_ifs at h with m1 m2 m3 m4
  · have e := prepareSlot_direct (Option.some.inj h).symm
    omega
  · have e := prepareSlot_single (Option.some.inj h).symm
    omega
  · have e := prepareSlot_double (Option.some.inj h).symm
    have e' := double_agree (by omega) (by omega) e.2.1 e.2.2
    omega
  · have e := prepareSlot_triple (Option.some.inj h).symm
    rcases m4 with ⟨rfl, m4⟩
    simp only [Nat.pow_zero, Nat.mul_one] at e m2
    omega

end Arithmetic

/-! ## One block map -/

/-- For blocks of `1024 * 2 ^ s` bytes, on every volume and for every inode, reading and writing at
the offset of block `n` go to the block stored where `prepare_blocks` stores the `n`-th block,
through table indices in range. -/
def OneBlockMap (s n : Nat) : Prop :=
  ∀ v : Volume, v.spb.blockSize = s → ∀ inode v', v.setInode inode = some v' →
    ∀ (buffer : Bytes) (start length : Nat),
      let offset := n * v.blockSize % 2 ^ 32
      let stored := v.blockByte (v'.storedBlock (prepareSlot (v.blockSize / 4) n))
      let width := min length v.blockSize
      (∃ slot, inodeSlot v.blockSize (offset / v.blockSize) = some slot ∧
        slot.Below (v.blockSize / 4)) ∧
      (∃ buf, v.readInodeData inode buffer start offset length =
        some ({ v' with stdBuf := buf }, buffer.blit start v.disk stored width, width)) ∧
      ∃ buf, v.writeInodeData inode buffer start offset length =
        some ({ v' with stdBuf := buf, disk := v.disk.blit stored buffer start width }, width)

/-- The offset of block `n`, cut to 32 bits, is that of a block up to `n`. -/
lemma offset_div {s : Nat} (hs : s ≤ 7) (n : Nat) :
    n * (1024 * 2 ^ s) % 2 ^ 32 / (1024 * 2 ^ s) ≤ n ∧ 1024 * 2 ^ s ∣ n * (1024 * 2 ^ s) % 2 ^ 32 ∧
      (n * (1024 * 2 ^ s) % 2 ^ 32 / (1024 * 2 ^ s) = n → n * (1024 * 2 ^ s) < 2 ^ 32) := by
  have hp := Nat.two_pow_pos s
  have hd : 1024 * 2 ^ s ∣ 2 ^ 32 := by
    rw [show 1024 * 2 ^ s = 2 ^ (10 + s) by rw [Nat.pow_add]]
    exact Nat.pow_dvd_pow 2 (by omega)
  refine ⟨?_, ?_, fun h => ?_⟩
  · exact (Nat.div_le_div_right (Nat.mod_le _ _)).trans
      (Nat.mul_div_cancel _ (by omega)).le
  · exact (Nat.dvd_mod_iff hd).mpr (Nat.dvd_mul_left _ _)
  · have hlt := Nat.mod_lt (n * (1024 * 2 ^ s)) (show 2 ^ 32 > 0 by omega)
    calc n * (1024 * 2 ^ s) = n * (1024 * 2 ^ s) % 2 ^ 32 / (1024 * 2 ^ s) * (1024 * 2 ^ s) := by
          rw [h]
      _ ≤ n * (1024 * 2 ^ s) % 2 ^ 32 := Nat.div_mul_le_self _ _
      _ < 2 ^ 32 := hlt

/-- The block map is one where the code finds the slot of `prepare_blocks`. -/
lemma oneBlockMap_of_found {s n : Nat} (hs : s ≤ 7)
    (hn : n < 12 + 256 * 2 ^ s + (256 * 2 ^ s) ^ 2 + (256 * 2 ^ s) ^ 3) (h : Found s n) :
    OneBlockMap s n := by
  intro v hv inode v' hv' buffer start length
  have hp := Nat.two_pow_pos s
  have hbs : v.blockSize = 1024 * 2 ^ s := by
    unfold Volume.blockSize
    rw [hv]
  have e4 : v.blockSize / 4 = 256 * 2 ^ s := by omega
  have hoff : n * v.blockSize % 2 ^ 32 / v.blockSize = n := by
    rw [hbs, Nat.mod_eq_of_lt h.1, Nat.mul_div_cancel _ (by omega)]
  have hslot := inodeSlot_of_found hs h
  have hbelow := prepareSlot_below (a := 256 * 2 ^ s) (by omega) hn
  have hdvd := (offset_div hs n).2.1
  dsimp only
  rw [hoff, e4]
  rw [← hbs] at hslot hdvd
  have hb' : (prepareSlot (256 * 2 ^ s) n).Below (v.blockSize / 4) := by
    rw [e4]
    exact hbelow
  rw [← hoff] at hslot
  refine ⟨⟨_, hoff ▸ hslot, hbelow⟩, ?_, ?_⟩
  · exact Volume.readInodeData_of_slot buffer start length (hv ▸ hs) hv' hdvd (by rw [hslot, hoff]) hb'
  · exact Volume.writeInodeData_of_slot buffer start length (hv ▸ hs) hv' hdvd (by rw [hslot, hoff]) hb'

/-- Elsewhere a volume tells the two positions apart. -/
lemma found_of_oneBlockMap {s n : Nat} (hs : s ≤ 7)
    (hn : n < 12 + 256 * 2 ^ s + (256 * 2 ^ s) ^ 2 + (256 * 2 ^ s) ^ 3) (h : OneBlockMap s n) :
    Found s n := by
  have hp := Nat.two_pow_pos s
  have hbelow := prepareSlot_below (a := 256 * 2 ^ s) (by omega) hn
  generalize ht : prepareSlot (256 * 2 ^ s) n = t at hbelow
  rcases probeVolume_setInode (t := t) hs with ⟨v', hv', hi⟩
  have hbs : (probeVolume s t).blockSize = 1024 * 2 ^ s := rfl
  have e4 : (1024 * 2 ^ s) / 4 = 256 * 2 ^ s := by omega
  have h := h (probeVolume s t) rfl 1 v' hv' (fun _ => 0) 0 1
  dsimp only at h
  rw [hbs, e4, ht] at h
  rcases h with ⟨⟨slot, hslot, hb⟩, ⟨buf, hr⟩, _⟩
  have hdvd := (offset_div hs n).2.1
  rcases Volume.readInodeData_of_slot (v := probeVolume s t) (fun _ => 0) 0 1 hs hv' hdvd hslot (by rw [hbs, e4]; exact hb) with ⟨buf', hr'⟩
  have e := hr.symm.trans hr'
  injection e with e
  have e := congrFun (congrArg (fun p => p.2.1) e) 0
  have hw : 0 < min 1 (1024 * 2 ^ s) := by omega
  dsimp only at e
  rw [Bytes.blit_apply_of_inside (by omega), Bytes.blit_apply_of_inside (by rw [hbs]; omega),
    probeVolume_storedBlock hs hv' hi hbelow hbelow, if_pos rfl,
    probeVolume_storedBlock hs hv' hi hbelow hb] at e
  by_cases hst : slot = t
  · rw [hst, ← ht] at hslot
    have hf := found_of_inodeSlot hs (offset_div hs n).1 hslot
    exact ⟨(offset_div hs n).2.2 hf.1, hf.2⟩
  · rw [if_neg hst, Nat.sub_zero, Nat.add_zero, Nat.add_zero, probeVolume_byte hs (by omega),
      probeVolume_byte hs (by omega)] at e
    rw [show probe t 5 0 = 0 by cases t <;> rfl, show probe t 1 0 = 1 by cases t <;> rfl] at e
    exact absurd e (by decide)

/-- The block that reads and writes at the offset of block `n` go to is the one `prepare_blocks`
stored as the `n`-th if and only if `n` is one of the blocks the code finds. -/
theorem one_block_map (s n : Nat) (hs : s ≤ 7)
    (hn : n < 12 + 256 * 2 ^ s + (256 * 2 ^ s) ^ 2 + (256 * 2 ^ s) ^ 3) :
    OneBlockMap s n ↔ Found s n :=
  ⟨found_of_oneBlockMap hs hn, oneBlockMap_of_found hs hn⟩

/-- The first block of the second table below `dibp`, for blocks of 1024 bytes. -/
theorem one_block_map_sample : ¬ OneBlockMap 0 524 ∧ OneBlockMap 0 523 :=
  ⟨fun h => absurd ((one_block_map 0 524 (by omega) (by omega)).mp h).2 (by omega),
    (one_block_map 0 523 (by omega) (by omega)).mpr ⟨by omega, by omega⟩⟩

/-- Block 524 of a file, which `prepare_blocks` stores as entry 0 of the second table below `dibp`,
is looked for at entry 256 of the first one, behind its end. -/
theorem block_map_splits : ¬ ∀ s n, s ≤ 7 →
    n < 12 + 256 * 2 ^ s + (256 * 2 ^ s) ^ 2 + (256 * 2 ^ s) ^ 3 → OneBlockMap s n := by
  intro h
  have hf := found_of_oneBlockMap (by omega) (by omega) (h 0 524 (by omega) (by omega))
  exact absurd hf.2 (by omega)

end MarioBrOS.Fs
