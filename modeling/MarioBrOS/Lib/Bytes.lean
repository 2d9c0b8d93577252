import Mathlib.Algebra.Group.Int.Defs
import Mathlib.Algebra.Group.Nat.Defs
import Mathlib.Tactic.Lemma

/-!
# Byte memories

A memory gives the byte at each address. The words of a 32-bit little-endian machine are read and
written through their bytes, so a word store is seen by byte reads and the other way round. Each
operation has one lemma for the bytes it writes and one for those it leaves alone; a disjointness
side condition is linear arithmetic.
-/

namespace MarioBrOS

/-- The byte at each address. -/
abbrev Bytes := Nat → UInt8

namespace Bytes

variable {m m' : Bytes} {a c v : Nat}

/-- The 16-bit word at `a`. -/
def get16 (m : Bytes) (a : Nat) : Nat :=
  (m a).toNat + 2 ^ 8 * (m (a + 1)).toNat

/-- The 32-bit word at `a`. -/
def get32 (m : Bytes) (a : Nat) : Nat :=
  (m a).toNat + 2 ^ 8 * (m (a + 1)).toNat + 2 ^ 16 * (m (a + 2)).toNat +
    2 ^ 24 * (m (a + 3)).toNat

/-- Byte `i` of the number `v`. -/
def byteOf (v i : Nat) : UInt8 :=
  UInt8.ofNat (v / 2 ^ (8 * i))

/-- Stores the low 32 bits of `v` at `a`. -/
def set32 (m : Bytes) (a v : Nat) : Bytes := fun x =>
  if a ≤ x ∧ x < a + 4 then byteOf v (x - a) else m x

/-- Stores the low 16 bits of `v` at `a`. -/
def set16 (m : Bytes) (a v : Nat) : Bytes := fun x =>
  if a ≤ x ∧ x < a + 2 then byteOf v (x - a) else m x

lemma get32_lt (m : Bytes) (a : Nat) : m.get32 a < 2 ^ 32 := by
  have h0 := (m a).toNat_lt
  have h1 := (m (a + 1)).toNat_lt
  have h2 := (m (a + 2)).toNat_lt
  have h3 := (m (a + 3)).toNat_lt
  unfold get32
  omega

lemma get16_lt (m : Bytes) (a : Nat) : m.get16 a < 2 ^ 16 := by
  have h0 := (m a).toNat_lt
  have h1 := (m (a + 1)).toNat_lt
  unfold get16
  omega

/-- A word is read from its own four bytes. -/
lemma get32_congr (h : ∀ x, a ≤ x → x < a + 4 → m' x = m x) : m'.get32 a = m.get32 a := by
  unfold get32
  rw [h a (by omega) (by omega), h (a + 1) (by omega) (by omega), h (a + 2) (by omega) (by omega),
    h (a + 3) (by omega) (by omega)]

/-- A half word is read from its own two bytes. -/
lemma get16_congr (h : ∀ x, a ≤ x → x < a + 2 → m' x = m x) : m'.get16 a = m.get16 a := by
  unfold get16
  rw [h a (by omega) (by omega), h (a + 1) (by omega) (by omega)]

/-- A word store leaves the bytes outside the word. -/
lemma set32_apply_of_outside {x : Nat} (h : x < a ∨ a + 4 ≤ x) : m.set32 a v x = m x := by
  unfold set32
  rw [if_neg (by omega)]

/-- A half word store leaves the bytes outside the half word. -/
lemma set16_apply_of_outside {x : Nat} (h : x < a ∨ a + 2 ≤ x) : m.set16 a v x = m x := by
  unfold set16
  rw [if_neg (by omega)]

/-- A stored word is read back. -/
lemma get32_set32 (hv : v < 2 ^ 32) : (m.set32 a v).get32 a = v := by
  have e0 : m.set32 a v a = byteOf v 0 := by simp [set32]
  have e1 : m.set32 a v (a + 1) = byteOf v 1 := by simp [set32]
  have e2 : m.set32 a v (a + 2) = byteOf v 2 := by simp [set32]
  have e3 : m.set32 a v (a + 3) = byteOf v 3 := by simp [set32]
  unfold get32
  rw [e0, e1, e2, e3]
  simp only [byteOf, UInt8.toNat_ofNat']
  omega

/-- A stored half word is read back. -/
lemma get16_set16 (hv : v < 2 ^ 16) : (m.set16 a v).get16 a = v := by
  have e0 : m.set16 a v a = byteOf v 0 := by simp [set16]
  have e1 : m.set16 a v (a + 1) = byteOf v 1 := by simp [set16]
  unfold get16
  rw [e0, e1]
  simp only [byteOf, UInt8.toNat_ofNat']
  omega

/-- A word store does not change a word elsewhere. -/
lemma get32_set32_of_disjoint (h : c + 4 ≤ a ∨ a + 4 ≤ c) :
    (m.set32 a v).get32 c = m.get32 c :=
  get32_congr fun _ _ _ => set32_apply_of_outside (by omega)

/-- A half word store does not change a half word elsewhere. -/
lemma get16_set16_of_disjoint (h : c + 2 ≤ a ∨ a + 2 ≤ c) :
    (m.set16 a v).get16 c = m.get16 c :=
  get16_congr fun _ _ _ => set16_apply_of_outside (by omega)

/-- A half word store does not change a word elsewhere. -/
lemma get32_set16_of_disjoint (h : c + 4 ≤ a ∨ a + 2 ≤ c) :
    (m.set16 a v).get32 c = m.get32 c :=
  get32_congr fun _ _ _ => set16_apply_of_outside (by omega)

/-- The memory whose word at `4 * k` is `w k`. -/
def ofWords (w : Nat → Nat) : Bytes := fun x => byteOf (w (x / 4)) (x % 4)

lemma get32_ofWords {w : Nat → Nat} {k : Nat} (h : w k < 2 ^ 32) :
    (ofWords w).get32 (4 * k) = w k := by
  have key : ∀ i, i < 4 → ofWords w (4 * k + i) = byteOf (w k) i := by
    intro i hi
    unfold ofWords
    rw [show (4 * k + i) / 4 = k by omega, show (4 * k + i) % 4 = i by omega]
  have h0 := key 0 (by omega)
  rw [Nat.add_zero] at h0
  unfold get32
  rw [h0, key 1 (by omega), key 2 (by omega), key 3 (by omega)]
  simp only [byteOf, UInt8.toNat_ofNat']
  omega

/-- Copies `len` bytes of `source` from `s` on to `d` on. -/
def blit (m : Bytes) (d : Nat) (source : Bytes) (s len : Nat) : Bytes := fun x =>
  if d ≤ x ∧ x < d + len then source (s + (x - d)) else m x

lemma blit_zero (source : Bytes) (d s : Nat) : m.blit d source s 0 = m := by
  funext x
  exact if_neg (by omega)

/-- A copied byte. -/
lemma blit_apply_of_inside {source : Bytes} {d s len x : Nat} (h : d ≤ x ∧ x < d + len) :
    m.blit d source s len x = source (s + (x - d)) :=
  if_pos h

/-- A copy leaves the bytes outside its target. -/
lemma blit_apply_of_outside {source : Bytes} {d s len x : Nat} (h : x < d ∨ d + len ≤ x) :
    m.blit d source s len x = m x :=
  if_neg (by omega)

/-- A word inside the target of a copy. -/
lemma get32_blit_of_inside {b : Bytes} {d s n i : Nat} (h : i + 4 ≤ n) :
    (m.blit d b s n).get32 (d + i) = b.get32 (s + i) := by
  have key : ∀ k, k < 4 → m.blit d b s n (d + i + k) = b (s + i + k) := by
    intro k hk
    rw [blit_apply_of_inside (by omega)]
    congr 1
    omega
  have h0 := key 0 (by omega)
  rw [Nat.add_zero, Nat.add_zero] at h0
  unfold get32
  rw [h0, key 1 (by omega), key 2 (by omega), key 3 (by omega)]

/-- A word outside the target of a copy. -/
lemma get32_blit_of_outside {source : Bytes} {d s len : Nat} (h : a + 4 ≤ d ∨ d + len ≤ a) :
    (m.blit d source s len).get32 a = m.get32 a :=
  get32_congr fun _ _ _ => blit_apply_of_outside (by omega)

end Bytes

/-! ## Address arithmetic -/

/-- Sum of 32-bit words. -/
def add32 (a b : Nat) : Nat := (a + b) % 2 ^ 32

/-- Difference of 32-bit words. -/
def sub32 (a b : Nat) : Nat := (a + 2 ^ 32 - b) % 2 ^ 32

lemma add32_of_lt {a b : Nat} (h : a + b < 2 ^ 32) : add32 a b = a + b :=
  Nat.mod_eq_of_lt h

lemma sub32_of_le {a b : Nat} (h : b ≤ a) (ha : a < 2 ^ 32) : sub32 a b = a - b := by
  unfold sub32
  omega

-- Words are used through the lemmas above only.
attribute [irreducible] Bytes.get16 Bytes.get32 Bytes.set16 Bytes.set32 add32 sub32

end MarioBrOS
