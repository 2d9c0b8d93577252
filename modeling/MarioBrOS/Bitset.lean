import MarioBrOS.Lib.Bits
import Mathlib.Logic.Basic

/-!
# Bitsets

`bitset.c`, on the words of a byte memory. `param_ffb` keeps the bit index `j` from word to word
until a word with a clear bit has been looked at, so a word after a full one is searched from `j`
on only.
-/

namespace MarioBrOS

/-- `bitset.c`, `set_bit`. -/
def setBit (bits : Bytes) (bit : Nat) (value : Bool) : Bytes :=
  bits.set32 (4 * (bit / 32))
    (bits.get32 (4 * (bit / 32)) &&& ((2 ^ 32 - 1) ^^^ 1 <<< (bit % 32)) |||
      value.toNat <<< (bit % 32))

/-- `bitset.c`, `get_bit`. -/
def getBit (bits : Bytes) (bit : Nat) : Bool :=
  decide (bits.get32 (4 * (bit / 32)) &&& 1 <<< (bit % 32) ≠ 0)

/-- The inner loop of the searches: the first clear bit of `word` from `j` on. -/
def falseBit (word j : Nat) : Option Nat :=
  (List.range' j (32 - j)).find? fun j => decide (word &&& 1 <<< j = 0)

/-- The outer loop of the searches, over the `n` words from word `i` on. -/
def ffbLoop (bits : Bytes) : Nat → Nat → Nat → Nat
  | 0, _, _ => 2 ^ 32 - 1
  | n + 1, i, j =>
    if bits.get32 (4 * i) ≠ 2 ^ 32 - 1 then
      match falseBit (bits.get32 (4 * i)) j with
      | some j => 32 * i + j
      | none => ffbLoop bits n (i + 1) 0
    else
      ffbLoop bits n (i + 1) j

/-- `bitset.c`, `first_false_bit`. -/
def firstFalseBit (bits : Bytes) (length : Nat) : Nat :=
  ffbLoop bits (length / 32) 0 0

/-- `bitset.c`, `param_ffb`. -/
def paramFfb (bits : Bytes) (length first : Nat) : Nat :=
  ffbLoop bits (length / 32 - first / 32) (first / 32) (first % 32)

section Bitset

variable {m m' : Bytes} {i j k n w : Nat}

lemma and_one_shiftLeft (w j : Nat) : w &&& 1 <<< j = if w.testBit j then 2 ^ j else 0 := by
  apply Nat.eq_of_testBit_eq
  intro k
  rw [Nat.one_shiftLeft, Nat.testBit_and, Nat.testBit_two_pow]
  by_cases hk : j = k
  · subst hk
    cases h : w.testBit j <;> simp [Nat.testBit_two_pow_self]
  · cases h : w.testBit j <;> simp [hk]

/-- Masking with one bit tests that bit. -/
lemma and_one_shiftLeft_eq_zero : w &&& 1 <<< j = 0 ↔ w.testBit j = false := by
  rw [and_one_shiftLeft]
  cases h : w.testBit j <;> simp

lemma getBit_eq (m : Bytes) (i : Nat) : getBit m i = m.bit 0 i := by
  unfold getBit
  have h := Bytes.testBit_get32_word m 0 i
  rw [Nat.zero_add] at h
  rw [Bool.eq_iff_iff, decide_eq_true_iff, Ne, and_one_shiftLeft_eq_zero, h, Bool.not_eq_false]

/-- `set_bit` changes one bit. -/
lemma bit_setBit (m : Bytes) (i : Nat) (value : Bool) (k : Nat) :
    (setBit m i value).bit 0 k = if k = i then value else m.bit 0 k := by
  have hv : m.get32 (4 * (i / 32)) &&& ((2 ^ 32 - 1) ^^^ 1 <<< (i % 32)) |||
      value.toNat <<< (i % 32) < 2 ^ 32 := by
    apply Nat.or_lt_two_pow
    · exact Nat.and_lt_two_pow _ (Nat.xor_lt_two_pow (by omega)
        (by rw [Nat.one_shiftLeft]; exact Nat.pow_lt_pow_right (by omega) (by omega)))
    · rw [Nat.shiftLeft_eq]
      calc value.toNat * 2 ^ (i % 32) ≤ 1 * 2 ^ (i % 32) :=
            Nat.mul_le_mul_right _ (Bool.toNat_le value)
        _ < 2 ^ 32 := by rw [Nat.one_mul]; exact Nat.pow_lt_pow_right (by omega) (by omega)
  have hb := Bytes.bit_set32 (m := m) (a := 0) (i := k) hv (i / 32)
  rw [Nat.zero_add] at hb
  unfold setBit
  rw [hb]
  by_cases hw : k / 32 = i / 32
  · have hg := Bytes.testBit_get32_word m 0 k
    rw [Nat.zero_add] at hg
    rw [if_pos hw, Nat.testBit_or, Nat.testBit_and, Nat.testBit_xor, Nat.testBit_two_pow_sub_one,
      Nat.one_shiftLeft, Nat.testBit_two_pow, ← hw, hg, Nat.testBit_shiftLeft]
    have hlt : k % 32 < 32 := Nat.mod_lt _ (by omega)
    by_cases hk : k = i
    · subst hk
      cases value <;> simp [hlt]
    · have hne : i % 32 ≠ k % 32 := by omega
      rw [if_neg hk]
      have hz : (decide (k % 32 ≥ i % 32) && value.toNat.testBit (k % 32 - i % 32)) = false := by
        by_cases hge : k % 32 ≥ i % 32
        · rw [Nat.testBit_lt_two_pow]
          · simp
          · have h1 := Bool.toNat_le value
            have h2 : 2 ^ 1 ≤ 2 ^ (k % 32 - i % 32) := Nat.pow_le_pow_right (by omega) (by omega)
            omega
        · simp [hge]
      rw [hz]
      simp [hlt, hne]
  · rw [if_neg hw, if_neg (by rintro rfl; exact hw rfl)]

/-- `set_bit` changes bytes of one word only. -/
lemma setBit_apply_of_ge {value : Bool} {x : Nat} (hi : i < 8 * n) (hn : 4 ∣ n) (hx : n ≤ x) :
    setBit m i value x = m x := by
  rcases hn with ⟨c, rfl⟩
  exact Bytes.set32_apply_of_outside (by omega)

lemma falseBit_some (h : falseBit w j = some k) : j ≤ k ∧ k < 32 ∧ w.testBit k = false := by
  have hp := List.find?_some h
  have hm := List.mem_range'_1.mp (List.mem_of_find?_eq_some h)
  exact ⟨hm.1, by omega, and_one_shiftLeft_eq_zero.mp (of_decide_eq_true hp)⟩

/-- Where the loop stops early, there is a clear bit. -/
lemma ffbLoop_spec (h : ffbLoop m n i j = k) :
    k = 2 ^ 32 - 1 ∨ 32 * i ≤ k ∧ k < 32 * (i + n) ∧ m.bit 0 k = false := by
  induction n generalizing i j with
  | zero => exact .inl h.symm
  | succ n ih =>
    rw [ffbLoop] at h
    by_cases hw : m.get32 (4 * i) ≠ 2 ^ 32 - 1
    · rw [if_pos hw] at h
      cases hf : falseBit (m.get32 (4 * i)) j with
      | some b =>
        rw [hf] at h
        have hb := falseBit_some hf
        have hg := Bytes.testBit_get32 (m := m) (a := 4 * i) hb.2.1
        have hbit := Bytes.bit_word (m := m) (a := 0) (32 * i + b)
        rw [show (32 * i + b) / 32 = i by omega, show (32 * i + b) % 32 = b by omega,
          Nat.zero_add] at hbit
        subst h
        exact .inr ⟨by dsimp only; omega, by dsimp only; omega, hbit ▸ hg ▸ hb.2.2⟩
      | none =>
        rw [hf] at h
        exact (ih h).imp id fun h => ⟨by omega, by omega, h.2.2⟩
    · rw [if_neg hw] at h
      exact (ih h).imp id fun h => ⟨by omega, by omega, h.2.2⟩

/-- A bit that `param_ffb` returns is in the bitset, not before the word of the first bit, and
clear. -/
lemma paramFfb_spec {length first : Nat} (h : paramFfb m length first ≠ 2 ^ 32 - 1) :
    paramFfb m length first < length ∧ m.bit 0 (paramFfb m length first) = false := by
  rcases ffbLoop_spec (m := m) (n := length / 32 - first / 32) (i := first / 32)
    (j := first % 32) rfl with h' | h'
  · exact absurd h' h
  · exact ⟨by have := h'.2.1; unfold paramFfb; omega, h'.2.2⟩

/-- The loop returns no position before the one it starts at. -/
lemma ffbLoop_ge (hj : j < 32) (h : ffbLoop m n i j = k) : k = 2 ^ 32 - 1 ∨ 32 * i + j ≤ k := by
  induction n generalizing i j with
  | zero => exact .inl h.symm
  | succ n ih =>
    rw [ffbLoop] at h
    by_cases hw : m.get32 (4 * i) ≠ 2 ^ 32 - 1
    · rw [if_pos hw] at h
      cases hf : falseBit (m.get32 (4 * i)) j with
      | some b =>
        rw [hf] at h
        have hb := falseBit_some hf
        subst h
        exact .inr (by dsimp only; omega)
      | none =>
        rw [hf] at h
        exact (ih (by omega) h).imp id fun h => by omega
    · rw [if_neg hw] at h
      exact (ih hj h).imp id fun h => by omega

lemma le_paramFfb {length first : Nat} (h : paramFfb m length first ≠ 2 ^ 32 - 1) :
    first ≤ paramFfb m length first := by
  rcases ffbLoop_ge (m := m) (n := length / 32 - first / 32) (i := first / 32)
    (j := first % 32) (Nat.mod_lt _ (by omega)) rfl with h' | h'
  · exact absurd h' h
  · unfold paramFfb
    omega

/-- A bit that `first_false_bit` returns is in the bitset and clear. -/
lemma firstFalseBit_spec {length : Nat} (h : firstFalseBit m length ≠ 2 ^ 32 - 1) :
    firstFalseBit m length < length ∧ m.bit 0 (firstFalseBit m length) = false := by
  rcases ffbLoop_spec (m := m) (n := length / 32) (i := 0) (j := 0) rfl with h' | h'
  · exact absurd h' h
  · exact ⟨by have := h'.2.1; unfold firstFalseBit; omega, h'.2.2⟩

/-- The search of a word: the bits in front of the result are set. -/
lemma falseBit_before (h : falseBit w j = some k) : ∀ b, j ≤ b → b < k → w.testBit b = true := by
  intro b hj hb
  obtain ⟨_, l, r, e, hl⟩ := List.find?_eq_some_iff_append.mp h
  have hlen : j + l.length = k := by
    have hg := congrArg (fun l' => l'[l.length]?) e
    simp only [List.getElem?_append_right (Nat.le_refl _), Nat.sub_self, List.getElem?_cons_zero,
      List.getElem?_eq_some_iff, List.getElem_range'] at hg
    obtain ⟨_, hk⟩ := hg
    omega
  have hbl : b ∈ l := by
    have hr : b ∈ List.range' j (32 - j) := by
      have hlt := (falseBit_some h).2.1
      exact List.mem_range'_1.mpr ⟨hj, by omega⟩
    rw [e, List.mem_append, List.mem_cons] at hr
    have hp : (List.range' j (32 - j)).Pairwise (· < ·) := List.pairwise_lt_range'
    rw [e, List.pairwise_append, List.pairwise_cons] at hp
    rcases hr with hr | hr | hr
    · exact hr
    · omega
    · have := hp.2.1.1 b hr
      omega
  have hz := hl b hbl
  simpa [and_one_shiftLeft_eq_zero] using hz

/-- A word in which the search finds nothing has all its bits set from there on. -/
lemma falseBit_none (h : falseBit w j = none) : ∀ b, j ≤ b → b < 32 → w.testBit b = true := by
  intro b hj hb
  have hz := List.find?_eq_none.mp h b (List.mem_range'_1.mpr ⟨hj, by omega⟩)
  simpa [and_one_shiftLeft_eq_zero] using hz

/-- The bits of a word of the bitset. -/
lemma bit_word (m : Bytes) {b : Nat} (h1 : 32 * i ≤ b) (h2 : b < 32 * (i + 1)) :
    m.bit 0 b = (m.get32 (4 * i)).testBit (b - 32 * i) := by
  have hg := Bytes.testBit_get32_word m 0 b
  have hb : b / 32 = i := by omega
  have hr : b % 32 = b - 32 * i := by omega
  rw [hb, Nat.zero_add, hr] at hg
  exact hg.symm

/-- All bits of a full word are set. -/
lemma bit_of_full (hw : m.get32 (4 * i) = 2 ^ 32 - 1) {b : Nat} (h1 : 32 * i ≤ b)
    (h2 : b < 32 * (i + 1)) : m.bit 0 b = true := by
  have hlt : b - 32 * i < 32 := by omega
  rw [bit_word m h1 h2, hw, Nat.testBit_two_pow_sub_one]
  simpa using hlt

/-- The loop from the first bit of a word stops at the first clear bit, or all bits are set. -/
lemma ffbLoop_first (h : ffbLoop m n i 0 = k) :
    (k = 2 ^ 32 - 1 ∧ ∀ b, 32 * i ≤ b → b < 32 * (i + n) → m.bit 0 b = true) ∨
    (32 * i ≤ k ∧ k < 32 * (i + n) ∧ m.bit 0 k = false ∧
      ∀ b, 32 * i ≤ b → b < k → m.bit 0 b = true) := by
  induction n generalizing i with
  | zero => exact .inl ⟨h.symm, fun b h1 h2 => by omega⟩
  | succ n ih =>
    have next : (∀ b, 32 * i ≤ b → b < 32 * (i + 1) → m.bit 0 b = true) →
        ffbLoop m n (i + 1) 0 = k →
        (k = 2 ^ 32 - 1 ∧ ∀ b, 32 * i ≤ b → b < 32 * (i + (n + 1)) → m.bit 0 b = true) ∨
        (32 * i ≤ k ∧ k < 32 * (i + (n + 1)) ∧ m.bit 0 k = false ∧
          ∀ b, 32 * i ≤ b → b < k → m.bit 0 b = true) := by
      intro hset hk
      rcases ih hk with ⟨e, hall⟩ | ⟨h1, h2, h3, hall⟩
      · refine .inl ⟨e, fun b hb1 hb2 => ?_⟩
        by_cases hb : b < 32 * (i + 1)
        · exact hset b hb1 hb
        · exact hall b (by omega) (by omega)
      · refine .inr ⟨by omega, by omega, h3, fun b hb1 hb2 => ?_⟩
        by_cases hb : b < 32 * (i + 1)
        · exact hset b hb1 hb
        · exact hall b (by omega) hb2
    rw [ffbLoop] at h
    by_cases hw : m.get32 (4 * i) ≠ 2 ^ 32 - 1
    · rw [if_pos hw] at h
      cases hf : falseBit (m.get32 (4 * i)) 0 with
      | some b =>
        rw [hf] at h
        obtain ⟨_, hb, hclear⟩ := falseBit_some hf
        have hk : 32 * i + b = k := h
        refine .inr ⟨by omega, by omega, ?_, fun c h1 h2 => ?_⟩
        · rw [bit_word m (i := i) (by omega) (by omega), ← hclear]
          congr 1
          omega
        · rw [bit_word m h1 (by omega)]
          exact falseBit_before hf _ (Nat.zero_le _) (by omega)
      | none =>
        rw [hf] at h
        refine next (fun b h1 h2 => ?_) h
        rw [bit_word m h1 h2]
        exact falseBit_none hf _ (Nat.zero_le _) (by omega)
    · rw [if_neg hw] at h
      exact next (fun b h1 h2 => bit_of_full (not_not.mp hw) h1 h2) h

/-- `first_false_bit` returns the first clear bit; it returns -1 when all bits are set. -/
lemma firstFalseBit_first {length : Nat} (hl : 32 ∣ length) :
    (firstFalseBit m length = 2 ^ 32 - 1 ∧ ∀ b, b < length → m.bit 0 b = true) ∨
    (firstFalseBit m length < length ∧ m.bit 0 (firstFalseBit m length) = false ∧
      ∀ b, b < firstFalseBit m length → m.bit 0 b = true) := by
  have hlen : 32 * (0 + length / 32) = length := by omega
  rcases ffbLoop_first (m := m) (n := length / 32) (i := 0) rfl with ⟨e, h⟩ | ⟨_, h1, h2, h3⟩
  · exact .inl ⟨e, fun b hb => h b (by omega) (by omega)⟩
  · exact .inr ⟨h1.trans_eq hlen, h2, fun b hb => h3 b (by omega) hb⟩

/-- The loop reads its words only. -/
lemma ffbLoop_congr (h : ∀ x, x < 4 * (i + n) → m' x = m x) :
    ffbLoop m' n i j = ffbLoop m n i j := by
  induction n generalizing i j with
  | zero => rfl
  | succ n ih =>
    have hw : m'.get32 (4 * i) = m.get32 (4 * i) :=
      Bytes.get32_congr fun x _ hx => h x (by omega)
    have ih' : ∀ j, ffbLoop m' n (i + 1) j = ffbLoop m n (i + 1) j :=
      fun j => ih fun x hx => h x (by omega)
    rw [ffbLoop, ffbLoop, hw, ih', ih']

/-- The search depends on the bytes of the bitset only. -/
lemma paramFfb_congr {length first : Nat} (h : ∀ x, x < length / 8 → m' x = m x) :
    paramFfb m' length first = paramFfb m length first := by
  unfold paramFfb
  by_cases hf : first / 32 ≤ length / 32
  · exact ffbLoop_congr fun x hx => h x (by omega)
  · rw [Nat.sub_eq_zero_of_le (by omega)]
    rfl

/-- The search depends on the bits of the bitset only. -/
lemma paramFfb_congr_bits {length first : Nat} (h : ∀ b, b < length → m'.bit 0 b = m.bit 0 b) :
    paramFfb m' length first = paramFfb m length first := by
  refine paramFfb_congr fun x hx => UInt8.toNat_inj.mp (Nat.eq_of_testBit_eq fun b => ?_)
  by_cases hb : b < 8
  · have hx' := h (8 * x + b) (by omega)
    unfold Bytes.bit at hx'
    rwa [Nat.zero_add, show (8 * x + b) / 8 = x by omega, show (8 * x + b) % 8 = b by omega] at hx'
  · have hlt : 2 ^ 8 ≤ 2 ^ b := Nat.pow_le_pow_right (by omega) (by omega)
    rw [Nat.testBit_lt_two_pow ((m' x).toNat_lt.trans_le hlt),
      Nat.testBit_lt_two_pow ((m x).toNat_lt.trans_le hlt)]

end Bitset

end MarioBrOS
