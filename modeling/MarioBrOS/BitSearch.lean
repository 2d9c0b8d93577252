import MarioBrOS.Bitset

/-!
# The first clear bit

`first_false_bit` returns the first clear bit of the bitset. `param_ffb` is meant to return the
first one from a given position on. It searches the word of that position from the offset of the
position on, and the words behind it from their first bits on if it has searched that word; but it
skips a word that is full, and then searches the next one from the old offset on.
-/

namespace MarioBrOS

variable {m : Bytes} {length first i j k n r : Nat}

/-- What is said of a search from `first` on that returns `r`: it is -1 exactly when there is no
clear bit, and the first clear bit otherwise. -/
def FindsFirst (bits : Bytes) (length first r : Nat) : Prop :=
  (r = 2 ^ 32 - 1 ↔ ∀ p, first ≤ p → p < length → getBit bits p = true) ∧
    (r ≠ 2 ^ 32 - 1 → first ≤ r ∧ r < length ∧ getBit bits r = false ∧
      ∀ p, first ≤ p → p < r → getBit bits p = true)

/-- What is said of the searches: `param_ffb` finds the first clear bit, `first_false_bit` is its
case of position 0. -/
def SearchesRight (bits : Bytes) (length first : Nat) : Prop :=
  FindsFirst bits length first (paramFfb bits length first) ∧
    firstFalseBit bits length = paramFfb bits length 0 ∧
    FindsFirst bits length 0 (firstFalseBit bits length)

/-- The condition: if the word of the first position is full, then the next word that is not full
has no clear bit below the offset of that position. -/
def OffsetHarmless (bits : Bytes) (length first : Nat) : Prop :=
  bits.get32 (4 * (first / 32)) = 2 ^ 32 - 1 →
    ∀ i, first / 32 < i → i < length / 32 →
      (∀ j, first / 32 < j → j < i → bits.get32 (4 * j) = 2 ^ 32 - 1) →
        ∀ b, b < first % 32 → getBit bits (32 * i + b) = true

/-! ## The loop -/

/-- Full words are skipped, whatever the offset. -/
lemma ffbLoop_skip (h : ∀ l, i ≤ l → l < i + k → m.get32 (4 * l) = 2 ^ 32 - 1) :
    ffbLoop m (k + n) i j = ffbLoop m n (i + k) j := by
  induction k generalizing i with
  | zero => rw [Nat.zero_add, Nat.add_zero]
  | succ k ih =>
    have hi := h i (le_refl i) (by omega)
    rw [Nat.add_right_comm, ffbLoop, if_neg (not_not.mpr hi), ih fun l h1 h2 => h l (by omega)
      (by omega), Nat.add_assoc, Nat.add_comm 1]

/-- A loop that stops at the first clear bit from `first` on. -/
def StopsFirst (m : Bytes) (first last k : Nat) : Prop :=
  (k = 2 ^ 32 - 1 ∧ ∀ b, first ≤ b → b < last → m.bit 0 b = true) ∨
    (first ≤ k ∧ k < last ∧ m.bit 0 k = false ∧ ∀ b, first ≤ b → b < k → m.bit 0 b = true)

/-- Set bits in front do not matter. -/
lemma StopsFirst.extend {first' last : Nat} (h : StopsFirst m first last k) (hle : first' ≤ first)
    (hset : ∀ b, first' ≤ b → b < first → m.bit 0 b = true) : StopsFirst m first' last k := by
  have hall : ∀ b', (∀ b, first ≤ b → b < b' → m.bit 0 b = true) →
      ∀ b, first' ≤ b → b < b' → m.bit 0 b = true := by
    intro b' hb' b h1 h2
    by_cases hb : b < first
    · exact hset b h1 hb
    · exact hb' b (by omega) h2
  obtain ⟨e, hb⟩ | ⟨h1, h2, h3, hb⟩ := h
  · exact .inl ⟨e, hall _ hb⟩
  · exact .inr ⟨by omega, h2, h3, hall _ hb⟩

/-- The loop in a word that is not full. -/
lemma ffbLoop_word (hw : m.get32 (4 * i) ≠ 2 ^ 32 - 1) (hj : j < 32) :
    StopsFirst m (32 * i + j) (32 * (i + (n + 1))) (ffbLoop m (n + 1) i j) := by
  rw [ffbLoop, if_pos hw]
  have hbit : ∀ b, j ≤ b → b < 32 → m.bit 0 (32 * i + b) = (m.get32 (4 * i)).testBit b := by
    intro b _ hb
    rw [bit_word m (i := i) (by omega) (by omega), Nat.add_sub_cancel_left]
  have hset : ∀ c, (∀ b, j ≤ b → b < c → (m.get32 (4 * i)).testBit b = true) → c ≤ 32 →
      ∀ b, 32 * i + j ≤ b → b < 32 * i + c → m.bit 0 b = true := by
    intro c hc hc32 b h1 h2
    have hb := hbit (b - 32 * i) (by omega) (by omega)
    rw [Nat.add_sub_cancel' (by omega)] at hb
    rw [hb]
    exact hc _ (by omega) (by omega)
  cases hf : falseBit (m.get32 (4 * i)) j with
  | some b =>
    obtain ⟨h1, h2, hclear⟩ := falseBit_some hf
    exact .inr ⟨by dsimp only; omega, by dsimp only; omega, (hbit b h1 h2).trans hclear,
      hset b (falseBit_before hf) (by omega)⟩
  | none =>
    have hnext := ffbLoop_first (m := m) (n := n) (i := i + 1) rfl
    rw [Nat.add_right_comm i 1 n] at hnext
    exact StopsFirst.extend hnext (by omega) (hset 32 (falseBit_none hf) (le_refl 32))

/-- The offset does no harm where the first word that is not full has its bits below it set. -/
lemma ffbLoop_offset (hj : j < 32)
    (h : ∀ k, i ≤ k → k < i + n → (∀ l, i ≤ l → l < k → m.get32 (4 * l) = 2 ^ 32 - 1) →
      ∀ b, b < j → m.bit 0 (32 * k + b) = true) :
    StopsFirst m (32 * i) (32 * (i + n)) (ffbLoop m n i j) := by
  induction n generalizing i with
  | zero => exact .inl ⟨rfl, fun b h1 h2 => by omega⟩
  | succ n ih =>
    by_cases hw : m.get32 (4 * i) = 2 ^ 32 - 1
    · rw [ffbLoop, if_neg (not_not.mpr hw)]
      have hrest := ih (i := i + 1) fun k h1 h2 hfull =>
        h k (by omega) (by omega) fun l hl hlk => by
        obtain rfl | hne := Nat.eq_or_lt_of_le hl
        · exact hw
        · exact hfull l hne hlk
      rw [Nat.add_right_comm i 1 n] at hrest
      exact hrest.extend (by omega) fun b h1 h2 => bit_of_full hw h1 h2
    · refine (ffbLoop_word hw hj).extend (Nat.le_add_right ..) fun b h1 h2 => ?_
      have hb := h i (le_refl i) (by omega) (fun l h1 h2 => by omega) (b - 32 * i) (by omega)
      rwa [Nat.add_sub_cancel' h1] at hb

/-! ## The searches -/

/-- Stopping at the first clear bit is finding it. -/
lemma StopsFirst.finds (h : StopsFirst m first length r) (hl : length < 2 ^ 32) :
    FindsFirst m length first r := by
  unfold FindsFirst
  simp only [getBit_eq]
  obtain ⟨rfl, hall⟩ | ⟨h1, h2, h3, hall⟩ := h
  · exact ⟨iff_of_true rfl hall, fun hne => absurd rfl hne⟩
  · refine ⟨iff_of_false (by omega) fun hset => ?_, fun _ => ⟨h1, h2, h3, hall⟩⟩
    rw [hset r h1 h2] at h3
    cases h3

/-- `first_false_bit` finds the first clear bit. -/
lemma firstFalseBit_finds (hd : 32 ∣ length) (hl : length < 2 ^ 32) :
    FindsFirst m length 0 (firstFalseBit m length) := by
  have h := ffbLoop_first (m := m) (n := length / 32) (i := 0) rfl
  rw [Nat.zero_add, Nat.mul_div_cancel' hd] at h
  exact StopsFirst.finds h hl

/-- `param_ffb` finds it under the condition. -/
lemma paramFfb_finds (hd : 32 ∣ length) (hl : length < 2 ^ 32)
    (h : OffsetHarmless m length first) : FindsFirst m length first (paramFfb m length first) := by
  have hdm := Nat.div_add_mod first 32
  have hj : first % 32 < 32 := Nat.mod_lt _ (by decide)
  by_cases hin : length / 32 ≤ first / 32
  · have hnone : paramFfb m length first = 2 ^ 32 - 1 := by
      unfold paramFfb
      rw [Nat.sub_eq_zero_of_le hin]
      rfl
    rw [hnone]
    exact StopsFirst.finds (.inl ⟨rfl, fun b h1 h2 => by omega⟩) hl
  · obtain ⟨n, hn⟩ : ∃ n, length / 32 - first / 32 = n + 1 :=
      ⟨length / 32 - first / 32 - 1, by omega⟩
    have hlast : 32 * (first / 32 + (n + 1)) = length := by omega
    unfold paramFfb
    rw [hn]
    by_cases hw : m.get32 (4 * (first / 32)) = 2 ^ 32 - 1
    · rw [ffbLoop, if_neg (not_not.mpr hw)]
      have hrest := ffbLoop_offset (m := m) (i := first / 32 + 1) (n := n) hj
        fun k h1 h2 hfull b hb => by
          rw [← getBit_eq]
          exact h hw k h1 (by omega) (fun j hj hjk => hfull j hj hjk) b hb
      rw [Nat.add_right_comm (first / 32) 1 n, Nat.add_assoc, hlast] at hrest
      exact (hrest.extend (by omega) fun b h1 h2 => bit_of_full hw (by omega) h2).finds hl
    · have hword := ffbLoop_word (n := n) hw hj
      rw [hlast, hdm] at hword
      exact hword.finds hl

/-- And only then. -/
lemma FindsFirst.harmless (h : FindsFirst m length first (paramFfb m length first)) :
    OffsetHarmless m length first := by
  intro hw i h1 h2 hfull b hb
  by_contra hclear
  -- the search enters word `i` behind its clear bit
  have hskip : paramFfb m length first = ffbLoop m (length / 32 - i) i (first % 32) := by
    have e := ffbLoop_skip (m := m) (i := first / 32) (k := i - first / 32) (n := length / 32 - i)
      (j := first % 32) fun l hl1 hl2 => by
        obtain rfl | hne := Nat.eq_or_lt_of_le hl1
        · exact hw
        · exact hfull l hne (by omega)
    rw [show i - first / 32 + (length / 32 - i) = length / 32 - first / 32 by omega,
      Nat.add_sub_cancel' (by omega)] at e
    exact e
  obtain hnone | hge := ffbLoop_ge (m := m) (Nat.mod_lt first (by decide)) hskip.symm
  · exact hclear (h.1.mp hnone _ (by omega) (by omega))
  · by_cases hnone : paramFfb m length first = 2 ^ 32 - 1
    · exact hclear (h.1.mp hnone _ (by omega) (by omega))
    · exact hclear ((h.2 hnone).2.2.2 _ (by omega) (by omega))

/-- **Bit search.** The searches return what they are meant to return exactly when the offset that
`param_ffb` takes over full words does no harm. -/
theorem param_ffb_first (bits : Bytes) (length first : Nat) (hd : 32 ∣ length)
    (hl : length < 2 ^ 32) :
    SearchesRight bits length first ↔ OffsetHarmless bits length first := by
  refine ⟨fun h => h.1.harmless, fun h => ⟨paramFfb_finds hd hl h, ?_, firstFalseBit_finds hd hl⟩⟩
  unfold firstFalseBit paramFfb
  rw [Nat.zero_div, Nat.zero_mod, Nat.sub_zero]

/-! ### A full word -/

/-- Two words: the first one is full, and the second one has bit 0 clear. -/
def fullWord : Bytes := Bytes.ofWords fun i => if i = 0 then 2 ^ 32 - 1 else 2 ^ 32 - 2

/-- From the start of a word the search is right. -/
theorem param_ffb_first_zero : SearchesRight fullWord 64 0 :=
  (param_ffb_first fullWord 64 0 (by decide) (by decide)).mpr fun _ _ _ _ _ _ hb =>
    absurd hb (Nat.not_lt_zero _)

/-- From bit 1 of the full word on, `param_ffb` misses bit 32. -/
theorem param_ffb_misses : ¬ SearchesRight fullWord 64 1 := by
  intro h
  have hnone : paramFfb fullWord 64 1 = 2 ^ 32 - 1 ∧ getBit fullWord 32 = false := by
    decide +kernel
  have hset := h.1.1.mp hnone.1 32 (by decide) (by decide)
  rw [hnone.2] at hset
  cases hset

end MarioBrOS
