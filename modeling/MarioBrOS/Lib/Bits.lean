import MarioBrOS.Lib.Bytes
import Mathlib.Data.Finset.Card
import Mathlib.Data.Finset.Range

/-!
# Bits of byte memories

A bitmap is a byte memory read bit by bit. A little-endian word shows the bits of its bytes in
order, so it does not matter whether a program tests a bit in a byte, in a half word or in a word.
The clear bits of a bitmap are counted by `clearBits`; setting or clearing one bit moves the count
by one.
-/

namespace MarioBrOS

namespace Bytes

variable {m m' : Bytes} {a i j v : Nat}

/-- Bit `i` of the bitmap that starts at address `a`. -/
def bit (m : Bytes) (a i : Nat) : Bool := (m (a + i / 8)).toNat.testBit (i % 8)

/-- A bit is read from its own byte. -/
lemma bit_congr {c : Nat} (h : m' (c + i / 8) = m (a + i / 8)) : m'.bit c i = m.bit a i := by
  unfold bit
  rw [h]

/-- The bits of a number written as its low byte and the rest. -/
lemma testBit_byte_add (b : UInt8) (r j : Nat) :
    (b.toNat + 2 ^ 8 * r).testBit j = if j < 8 then b.toNat.testBit j else r.testBit (j - 8) := by
  rw [Nat.add_comm]
  exact Nat.testBit_two_pow_mul_add r b.toNat_lt j

/-- The bits of a word are those of its bytes. -/
lemma testBit_get32 (hj : j < 32) : (m.get32 a).testBit j = m.bit a j := by
  have e : m.get32 a = (m a).toNat + 2 ^ 8 * ((m (a + 1)).toNat + 2 ^ 8 * ((m (a + 2)).toNat +
      2 ^ 8 * (m (a + 3)).toNat)) := by
    unfold get32
    omega
  rw [e, testBit_byte_add, testBit_byte_add, testBit_byte_add]
  unfold bit
  by_cases h1 : j < 8
  · rw [if_pos h1, show j / 8 = 0 by omega, show j % 8 = j by omega, Nat.add_zero]
  rw [if_neg h1]
  by_cases h2 : j - 8 < 8
  · rw [if_pos h2, show j / 8 = 1 by omega, show j % 8 = j - 8 by omega]
  rw [if_neg h2]
  by_cases h3 : j - 8 - 8 < 8
  · rw [if_pos h3, show j / 8 = 2 by omega, show j % 8 = j - 8 - 8 by omega]
  · rw [if_neg h3, show j / 8 = 3 by omega, show j % 8 = j - 8 - 8 - 8 by omega]

/-- The bits of a half word are those of its bytes. -/
lemma testBit_get16 (hj : j < 16) : (m.get16 a).testBit j = m.bit a j := by
  unfold get16 bit
  rw [testBit_byte_add]
  by_cases h1 : j < 8
  · rw [if_pos h1, show j / 8 = 0 by omega, show j % 8 = j by omega, Nat.add_zero]
  · rw [if_neg h1, show j / 8 = 1 by omega, show j % 8 = j - 8 by omega]

/-- A bit addressed through the word it lies in. -/
lemma bit_word (i : Nat) : m.bit (a + 4 * (i / 32)) (i % 32) = m.bit a i := by
  unfold bit
  rw [show a + 4 * (i / 32) + i % 32 / 8 = a + i / 8 by omega, show i % 32 % 8 = i % 8 by omega]

/-- A bit addressed through the half word it lies in. -/
lemma bit_half (i : Nat) : m.bit (a + 2 * (i / 16)) (i % 16) = m.bit a i := by
  unfold bit
  rw [show a + 2 * (i / 16) + i % 16 / 8 = a + i / 8 by omega, show i % 16 % 8 = i % 8 by omega]

/-- Bit `i` in the word of index `i / 32`. -/
lemma testBit_get32_word (m : Bytes) (a i : Nat) :
    (m.get32 (a + 4 * (i / 32))).testBit (i % 32) = m.bit a i := by
  rw [testBit_get32 (by omega), bit_word]

/-- Bit `i` in the half word of index `i / 16`. -/
lemma testBit_get16_half (m : Bytes) (a i : Nat) :
    (m.get16 (a + 2 * (i / 16))).testBit (i % 16) = m.bit a i := by
  rw [testBit_get16 (by omega), bit_half]

/-- The bits of a bitmap after a word store into it. -/
lemma bit_set32 (hv : v < 2 ^ 32) (w : Nat) :
    (m.set32 (a + 4 * w) v).bit a i = if i / 32 = w then v.testBit (i % 32) else m.bit a i := by
  by_cases h : i / 32 = w
  · subst h
    rw [if_pos rfl, ← testBit_get32_word, get32_set32 hv]
  · rw [if_neg h]
    exact bit_congr (set32_apply_of_outside (by omega))

/-- The bits of a bitmap after a half word store into it. -/
lemma bit_set16 (hv : v < 2 ^ 16) (w : Nat) :
    (m.set16 (a + 2 * w) v).bit a i = if i / 16 = w then v.testBit (i % 16) else m.bit a i := by
  by_cases h : i / 16 = w
  · subst h
    rw [if_pos rfl, ← testBit_get16_half, get16_set16 hv]
  · rw [if_neg h]
    exact bit_congr (set16_apply_of_outside (by omega))

end Bytes

/-! ## Counting clear bits -/

/-- The number of clear bits among the first `n`. -/
def clearBits (b : Nat → Bool) (n : Nat) : Nat :=
  ((Finset.range n).filter (fun i => b i = false)).card

section ClearBits

variable {b b' : Nat → Bool} {n i : Nat}

lemma clearBits_congr (h : ∀ j, j < n → b' j = b j) : clearBits b' n = clearBits b n := by
  unfold clearBits
  congr 1
  apply Finset.filter_congr
  intro j hj
  rw [h j (Finset.mem_range.mp hj)]

lemma clearBits_le (b : Nat → Bool) (n : Nat) : clearBits b n ≤ n := by
  have h := Finset.card_filter_le (Finset.range n) (fun i => b i = false)
  rwa [Finset.card_range] at h

/-- A set bit is not counted. -/
lemma clearBits_lt (hi : i < n) (hb : b i = true) : clearBits b n < n := by
  have h : (Finset.range n).filter (fun i => b i = false) ⊂ Finset.range n :=
    Finset.filter_ssubset.mpr ⟨i, Finset.mem_range.mpr hi, by rw [hb]; decide⟩
  have hc := Finset.card_lt_card h
  rwa [Finset.card_range] at hc

/-- A clear bit is counted. -/
lemma clearBits_pos (hi : i < n) (hb : b i = false) : 0 < clearBits b n :=
  Finset.card_pos.mpr ⟨i, Finset.mem_filter.mpr ⟨Finset.mem_range.mpr hi, hb⟩⟩

/-- A positive count has a clear bit. -/
lemma exists_clear_of_clearBits_pos (h : 0 < clearBits b n) : ∃ i, i < n ∧ b i = false := by
  rcases Finset.card_pos.mp h with ⟨i, hi⟩
  rcases Finset.mem_filter.mp hi with ⟨hlt, hb⟩
  exact ⟨i, Finset.mem_range.mp hlt, hb⟩

/-- Setting a clear bit takes one from the count. -/
lemma clearBits_set (hi : i < n) (hb : b i = false) (hb' : b' i = true)
    (h : ∀ j, j < n → j ≠ i → b' j = b j) : clearBits b n = clearBits b' n + 1 := by
  unfold clearBits
  have e : (Finset.range n).filter (fun i => b i = false) =
      insert i ((Finset.range n).filter (fun i => b' i = false)) := by
    apply Finset.ext
    intro j
    rw [Finset.mem_insert, Finset.mem_filter, Finset.mem_filter, Finset.mem_range]
    by_cases hj : j = i
    · subst hj
      exact ⟨fun _ => .inl rfl, fun _ => ⟨hi, hb⟩⟩
    · constructor
      · intro ⟨h1, h2⟩
        exact .inr ⟨h1, (h j h1 hj).trans h2⟩
      · rintro (h1 | ⟨h1, h2⟩)
        · exact absurd h1 hj
        · exact ⟨h1, (h j h1 hj).symm.trans h2⟩
  rw [e, Finset.card_insert_of_notMem]
  intro hm
  rw [Finset.mem_filter, hb'] at hm
  cases hm.2

/-- Clearing a set bit adds one to the count. -/
lemma clearBits_clear (hi : i < n) (hb : b i = true) (hb' : b' i = false)
    (h : ∀ j, j < n → j ≠ i → b' j = b j) : clearBits b' n = clearBits b n + 1 :=
  clearBits_set hi hb' hb fun j h1 h2 => (h j h1 h2).symm

end ClearBits

end MarioBrOS
