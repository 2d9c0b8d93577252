import MarioBrOS.Strings.Split

/-!
# Number printing

`int_to_string` and `u_int_to_string` of `string.c`. A first loop counts the digits, a second one
writes them backwards. Signed numbers are negated first; `-num` is `num` itself for the least one,
whose remainders are then negative.
-/

namespace MarioBrOS.Strings

/-! ## The functions of the source -/

/-- The character of a number, as a conversion to `char` leaves it. -/
def charOf (n : Int) : UInt8 := UInt8.ofNat (n % 2 ^ 8).toNat

/-- `'0'`. -/
def ZERO : UInt8 := 48

/-- `'-'`. -/
def MINUS : UInt8 := 45

/-- `string.c`, `digit_to_char`. -/
def digitToChar (digit : Int) : UInt8 :=
  if digit ≤ 9 then charOf (48 + digit) else charOf (65 + digit - 10)

/-- `-n` on signed 32-bit numbers. -/
def neg32 (n : Int) : Int := (-n).bmod (2 ^ 32)

/-- A division of the processor, which traps if there is no quotient. -/
def quotient (n base : Int) : Option Int :=
  if base = 0 ∨ (n = -2 ^ 31 ∧ base = -1) then none else some (n.tdiv base)

/-- The remainder of that division. -/
def remainder (n base : Int) : Option Int :=
  if base = 0 ∨ (n = -2 ^ 31 ∧ base = -1) then none else some (n.tmod base)

/-- The first loop, in at most `fuel` steps: the length at the end. -/
def lengthLoop (base : Int) : Nat → Int → Nat → Option Nat
  | 0, _, _ => none
  | fuel + 1, n, len => do
    let len := len + 1
    let n ← quotient n base
    if n ≠ 0 then lengthLoop base fuel n len else some len

/-- A first loop that ends does so within 32 steps. -/
def FUEL : Nat := 32

/-- The second loop, with `left` digits to go from digit `i` on. -/
def digitLoop (base : Int) (str len : Nat) : Nat → Nat → Int → Bytes → Option Bytes
  | 0, _, _, m => some m
  | left + 1, i, n, m => do
    let rem ← remainder n base
    let n ← quotient n base
    let m := Function.update m (str + (len - (i + 1))) (digitToChar rem)
    digitLoop base str len left (i + 1) n m

/-- `string.c`, `int_to_string`: the memory afterwards and the result. -/
def intToString (str : Nat) (num base : Int) (m : Bytes) : Option (Bytes × Nat) := do
  let len := if num < 0 then 1 else 0
  let n := if num < 0 then neg32 num else num
  let len ← lengthLoop base FUEL n len
  if str ≠ 0 then
    let n := if num < 0 then neg32 num else num
    let m := if num < 0 then Function.update m str MINUS else m
    let finish := if num < 0 then len - 1 else len
    let m ← digitLoop base str len finish 0 n m
    some (Function.update m (str + len) 0, len + 1)
  else
    some (m, len + 1)

/-- `string.c`, `u_int_to_string`. The base is an `int` and is converted. -/
def uIntToString (str num : Nat) (base : Int) (m : Bytes) : Option (Bytes × Nat) := do
  let base := base % 2 ^ 32
  let len ← lengthLoop base FUEL num 0
  if str ≠ 0 then
    let m ← digitLoop base str len len 0 num m
    some (Function.update m (str + len) 0, len + 1)
  else
    some (m, len + 1)

/-! ## Numerals -/

/-- The number that a character stands for. -/
def digitValue (c : UInt8) : Nat := if c.toNat ≤ 57 then c.toNat - 48 else c.toNat - 55

/-- A digit of the base. -/
def IsDigit (base : Nat) (c : UInt8) : Prop :=
  ((48 ≤ c.toNat ∧ c.toNat ≤ 57) ∨ (65 ≤ c.toNat ∧ c.toNat ≤ 90)) ∧ digitValue c < base

/-- Reads digits. -/
def parseDigits (base : Nat) (ds : List UInt8) : Nat :=
  ds.foldl (fun v c => base * v + digitValue c) 0

/-- Reads a number. -/
def parse (base : Nat) : List UInt8 → Int
  | [] => 0
  | c :: cs => if c = MINUS then -parseDigits base cs else parseDigits base (c :: cs)

/-- Digits without superfluous leading zeros. -/
structure Numeral (base : Nat) (ds : List UInt8) : Prop where
  nonempty : ds ≠ []
  digit : ∀ c ∈ ds, IsDigit base c
  plain : ds.head? = some ZERO → ds = [ZERO]

/-- The text is a number, with or without a sign, and reads as `n`. -/
def Denotes (base : Nat) (text : List UInt8) (n : Int) : Prop :=
  (∃ ds, Numeral base ds ∧ (text = ds ∨ text = MINUS :: ds)) ∧ parse base text = n

/-- The calls with and without a buffer give the same length, and with a buffer exactly so many
bytes are written: `text` and `NUL`. -/
def Writes (text : List UInt8) (call : Nat → Bytes → Option (Bytes × Nat)) : Prop :=
  (∀ m, call 0 m = some (m, text.length + 1)) ∧
    ∀ str m, str ≠ 0 → ∃ m', call str m = some (m', text.length + 1) ∧ HasString m' str text ∧
      ∀ x, x < str ∨ str + (text.length + 1) ≤ x → m' x = m x

/-- The call prints the number `n`. -/
def Prints (base : Nat) (n : Int) (call : Nat → Bytes → Option (Bytes × Nat)) : Prop :=
  ∃ text, Denotes base text n ∧ Writes text call

variable {base fuel len str left i : Nat} {n : Int} {m : Bytes} {c : UInt8} {ds : List UInt8}

/-! ## Digits -/

lemma charOf_toNat {k : Nat} (h : k < 2 ^ 8) : (charOf k).toNat = k := by
  unfold charOf
  rw [UInt8.toNat_ofNat', Int.emod_eq_of_lt (by omega) (by omega), Int.toNat_natCast,
    Nat.mod_eq_of_lt h]

/-- The characters of the digits. -/
lemma digitToChar_nat {k : Nat} (hk : k < base) (hb : base ≤ 36) :
    IsDigit base (digitToChar k) ∧ digitValue (digitToChar k) = k := by
  have hv : (digitToChar k).toNat = if k ≤ 9 then 48 + k else 55 + k := by
    unfold digitToChar
    by_cases h : k ≤ 9
    · rw [if_pos (by omega), if_pos h]
      exact charOf_toNat (k := 48 + k) (by omega)
    · rw [if_neg (by omega), if_neg h]
      have e : (65 + (k : Int) - 10) = ((55 + k : Nat) : Int) := by omega
      rw [e]
      exact charOf_toNat (by omega)
  unfold IsDigit digitValue
  rw [hv]
  split <;> split <;> omega

/-- The characters of negative remainders. -/
lemma digitToChar_neg {k : Nat} (hk : k < 36) : (digitToChar (-k)).toNat = 48 - k := by
  unfold digitToChar
  rw [if_pos (by omega)]
  have e : (48 + -(k : Int)) = ((48 - k : Nat) : Int) := by omega
  rw [e]
  exact charOf_toNat (by omega)

lemma parseDigits_append (ds : List UInt8) (c : UInt8) :
    parseDigits base (ds ++ [c]) = base * parseDigits base ds + digitValue c := by
  unfold parseDigits
  rw [List.foldl_append]
  rfl

/-- A digit of its own. -/
lemma Numeral.single (h : IsDigit base c) : Numeral base [c] where
  nonempty := List.cons_ne_nil c []
  digit := by
    intro d hd
    rw [List.mem_singleton.mp hd]
    exact h
  plain := by
    intro e
    rw [List.head?_cons, Option.some_inj] at e
    rw [e]

/-- A digit behind a number that is not zero. -/
lemma Numeral.append (h : Numeral base ds) (hz : parseDigits base ds ≠ 0) (hc : IsDigit base c) :
    Numeral base (ds ++ [c]) where
  nonempty := by simp
  digit := by
    intro d hd
    rw [List.mem_append, List.mem_singleton] at hd
    rcases hd with hd | rfl
    · exact h.digit d hd
    · exact hc
  plain := by
    intro e
    rw [List.head?_append_of_ne_nil ds h.nonempty] at e
    rw [h.plain e] at hz
    exact absurd rfl hz

/-! ## The loops -/

/-- The last `k` digits of `n`, in the order in which they are read. -/
def digitsOf (base : Int) : Nat → Int → List UInt8
  | 0, _ => []
  | k + 1, n => digitsOf base k (n.tdiv base) ++ [digitToChar (n.tmod base)]

@[simp] lemma digitsOf_length {b : Int} (k : Nat) : (digitsOf b k n).length = k := by
  induction k generalizing n with
  | zero => rfl
  | succ k ih => rw [digitsOf, List.length_append, ih, List.length_singleton]

lemma quotient_of_pos {b : Int} (hb : 0 < b) : quotient n b = some (n.tdiv b) := by
  unfold quotient
  rw [if_neg (by omega)]

lemma remainder_of_pos {b : Int} (hb : 0 < b) : remainder n b = some (n.tmod b) := by
  unfold remainder
  rw [if_neg (by omega)]

/-- The first loop counts what the second one writes: a numeral of `n`, if that is not negative. -/
lemma lengthLoop_spec (hb : 2 ≤ base) (hf : 0 < fuel) (hn : n.natAbs < 2 ^ fuel) :
    ∃ k, 0 < k ∧ (∀ len, lengthLoop base fuel n len = some (len + k)) ∧
      (base ≤ 36 → 0 ≤ n → Numeral base (digitsOf base k n) ∧
        (parseDigits base (digitsOf base k n) : Int) = n) := by
  induction fuel generalizing n with
  | zero => omega
  | succ fuel ih =>
    have hq : (n.tdiv base).natAbs = n.natAbs / base := by
      rw [Int.natAbs_tdiv, Int.natAbs_natCast]
      rfl
    have hlast : base ≤ 36 → 0 ≤ n →
        ∃ r, n.tmod base = (r : Nat) ∧ r < base ∧ n = base * n.tdiv base + r := by
      intro _ h0
      refine ⟨(n.tmod base).toNat, ?_, ?_, ?_⟩
      · exact (Int.toNat_of_nonneg (Int.tmod_nonneg _ h0)).symm
      · have := Int.tmod_lt_of_pos n (b := base) (by omega)
        omega
      · rw [Int.toNat_of_nonneg (Int.tmod_nonneg _ h0)]
        exact (Int.mul_tdiv_add_tmod n base).symm
    by_cases hz : n.tdiv base = 0
    · -- the first digit of the numeral
      refine ⟨1, Nat.one_pos, fun len => ?_, fun h36 h0 => ?_⟩
      · rw [lengthLoop, quotient_of_pos (by omega)]
        simp only [Option.bind_eq_bind, Option.bind_some, hz]
        rfl
      · obtain ⟨r, hr, hlt, hn⟩ := hlast h36 h0
        obtain ⟨hd, hv⟩ := digitToChar_nat hlt h36
        have e : digitsOf base 1 n = [digitToChar r] := by rw [digitsOf, digitsOf, hr]; rfl
        rw [e]
        refine ⟨Numeral.single hd, ?_⟩
        have hp : parseDigits base [digitToChar r] = base * parseDigits base [] + r :=
          (parseDigits_append [] _).trans (by rw [hv])
        rw [hp, hn, hz]
        simp [parseDigits]
    · have hpos : 0 < n.natAbs / base := by
        rw [← hq]
        exact Int.natAbs_pos.mpr hz
      have hlt : n.natAbs / base < 2 ^ fuel := by
        rw [Nat.div_lt_iff_lt_mul (by omega)]
        calc n.natAbs < 2 ^ fuel * 2 := by rw [← Nat.pow_succ]; exact hn
          _ ≤ 2 ^ fuel * base := Nat.mul_le_mul_left _ hb
      have hfuel : 0 < fuel := by
        rcases Nat.eq_zero_or_pos fuel with rfl | h
        · rw [Nat.pow_zero] at hlt
          omega
        · exact h
      obtain ⟨k, _, hk, hnum⟩ := ih hfuel (n := n.tdiv base) (by rw [hq]; exact hlt)
      refine ⟨k + 1, Nat.succ_pos k, fun len => ?_, fun h36 h0 => ?_⟩
      · rw [lengthLoop, quotient_of_pos (by omega)]
        simp only [Option.bind_eq_bind, Option.bind_some]
        rw [if_pos hz, hk, Nat.add_assoc, Nat.add_comm 1 k]
      · obtain ⟨r, hr, hrlt, hn⟩ := hlast h36 h0
        obtain ⟨hd, hv⟩ := digitToChar_nat hrlt h36
        obtain ⟨hnu, hval⟩ := hnum h36 (Int.tdiv_nonneg h0 (by omega))
        rw [digitsOf, hr]
        refine ⟨hnu.append (fun e => hz ?_) hd, ?_⟩
        · rw [← hval, e]
          rfl
        · rw [parseDigits_append, hv]
          push_cast
          rw [hval]
          exact hn.symm

/-- The digits of `n`, as many as the first loop counts. -/
def digits (base : Nat) (n : Int) : List UInt8 :=
  digitsOf base ((lengthLoop base FUEL n 0).getD 0) n

lemma digits_eq {k : Nat} (h : ∀ len, lengthLoop base FUEL n len = some (len + k)) :
    digits base n = digitsOf base k n := by
  unfold digits
  rw [h, Option.getD_some, Nat.zero_add]

/-- They are a numeral of `n`. -/
lemma digits_numeral (hb : 2 ≤ base) (h36 : base ≤ 36) (h0 : 0 ≤ n) (hn : n.natAbs < 2 ^ FUEL) :
    Numeral base (digits base n) ∧ (parseDigits base (digits base n) : Int) = n := by
  obtain ⟨k, -, hk, hnum⟩ := lengthLoop_spec hb (by decide) hn
  rw [digits_eq hk]
  exact hnum h36 h0

/-- A number below a power of the base has no more digits than the exponent. -/
lemma lengthLoop_le {j r : Nat} (hj : 0 < j) (hn : n.natAbs < base ^ j)
    (h : lengthLoop base fuel n len = some r) : r ≤ len + j := by
  have hb : 0 < base := Nat.pos_of_ne_zero fun e => by rw [e, Nat.zero_pow hj] at hn; omega
  induction fuel generalizing n len j with
  | zero => cases h
  | succ fuel ih =>
    rw [lengthLoop, quotient_of_pos (by omega)] at h
    simp only [Option.bind_eq_bind, Option.bind_some] at h
    split at h
    · rename_i hz
      have hq : (n.tdiv base).natAbs = n.natAbs / base := by
        rw [Int.natAbs_tdiv, Int.natAbs_natCast]
        rfl
      obtain ⟨j, rfl⟩ : ∃ i, j = i + 1 := ⟨j - 1, by omega⟩
      have hlt : n.natAbs / base < base ^ j := by
        rw [Nat.div_lt_iff_lt_mul hb, ← Nat.pow_succ]
        exact hn
      have hj' : 0 < j := by
        rcases Nat.eq_zero_or_pos j with rfl | h0
        · rw [Nat.pow_zero] at hlt
          omega
        · exact h0
      have := ih hj' (hq ▸ hlt) h
      omega
    · rw [Option.some_inj] at h
      omega

lemma digits_length_le {j : Nat} (hb : 2 ≤ base) (hn : n.natAbs < 2 ^ FUEL) (hj : 0 < j)
    (hlt : n.natAbs < base ^ j) : (digits base n).length ≤ j := by
  obtain ⟨k, -, hk, -⟩ := lengthLoop_spec hb (by decide) hn
  rw [digits_eq hk, digitsOf_length]
  have := lengthLoop_le hj hlt (hk 0)
  omega

/-- What the second loop leaves. -/
lemma digitLoop_spec (str : Nat) (hb : 0 < base) (h : i + left ≤ len) :
    ∃ m', digitLoop base str len left i n m = some m' ∧
      (∀ j (hj : j < (digitsOf base left n).length),
        m' (str + (len - (i + left)) + j) = (digitsOf base left n)[j]) ∧
      ∀ x, x < str + (len - (i + left)) ∨ str + (len - i) ≤ x → m' x = m x := by
  induction left generalizing i n m with
  | zero => exact ⟨m, rfl, fun j hj => absurd hj (by simp), fun _ _ => rfl⟩
  | succ left ih =>
    obtain ⟨m', e, hin, hout⟩ := ih (i := i + 1) (n := n.tdiv base)
      (m := Function.update m (str + (len - (i + 1))) (digitToChar (n.tmod base))) (by omega)
    have hs : i + 1 + left = i + (left + 1) := by omega
    rw [hs] at hin hout
    refine ⟨m', ?_, fun j hj => ?_, fun x hx => ?_⟩
    · rw [digitLoop, remainder_of_pos (by omega), quotient_of_pos (by omega)]
      exact e
    · rw [digitsOf_length] at hj
      simp only [digitsOf]
      rcases Nat.lt_succ_iff_lt_or_eq.mp hj with hlt | rfl
      · rw [List.getElem_append_left (by rw [digitsOf_length]; exact hlt)]
        exact hin j (by rw [digitsOf_length]; exact hlt)
      · rw [List.getElem_append_right (by rw [digitsOf_length])]
        rw [hout _ (Or.inr (by omega)),
          show str + (len - (i + (j + 1))) + j = str + (len - (i + 1)) by omega,
          Function.update_self]
        simp
    · rw [hout x (by omega), Function.update_of_ne (by omega)]

/-- The characters that the second loop writes, also for remainders that are not digits. -/
lemma digitsOf_char {k : Nat} (hb : 0 < base) (h36 : base ≤ 36) (h : c ∈ digitsOf base k n) :
    13 ≤ c.toNat ∧ c.toNat ≤ 90 ∧ (n ≤ 0 → c.toNat ≤ 48) := by
  induction k generalizing n with
  | zero => cases h
  | succ k ih =>
    rw [digitsOf, List.mem_append, List.mem_singleton] at h
    rcases h with h | rfl
    · obtain ⟨h1, h2, h3⟩ := ih h
      refine ⟨h1, h2, fun h0 => h3 ?_⟩
      have hq := Int.tdiv_nonneg (a := -n) (b := base) (by omega) (by omega)
      rw [Int.neg_tdiv] at hq
      omega
    · have hr : (n.tmod base).natAbs < base := by
        rw [Int.natAbs_tmod, Int.natAbs_natCast]
        exact Nat.mod_lt _ hb
      rcases Int.natAbs_eq (n.tmod base) with e | e
      · rw [e]
        obtain ⟨⟨hc, _⟩, _⟩ := digitToChar_nat hr h36
        refine ⟨by omega, by omega, fun h0 => ?_⟩
        have hz := Int.tmod_nonneg (a := -n) base (by omega)
        rw [Int.neg_tmod] at hz
        rw [show (n.tmod base).natAbs = 0 by omega]
        decide
      · rw [e, digitToChar_neg (by omega)]
        omega

/-! ## Signed numbers -/

/-- The number whose digits are printed. -/
def abs32 (n : Int) : Int := if n < 0 then neg32 n else n

/-- The sign that is printed. -/
def sign (n : Int) : List UInt8 := if n < 0 then [MINUS] else []

lemma neg32_of_gt (h : -2 ^ 31 < n) (h0 : n < 0) : neg32 n = -n := by
  unfold neg32
  rw [Int.bmod_def]
  omega

lemma natAbs_abs32 (h : -2 ^ 31 ≤ n) (h' : n < 2 ^ 31) : (abs32 n).natAbs < 2 ^ FUEL := by
  unfold abs32 neg32 FUEL
  rw [Int.bmod_def]
  omega

/-- Two strings of one length at one place are equal. -/
lemma HasString.unique {cs ds : List UInt8} (h : HasString m str cs) (h' : HasString m str ds)
    (hl : cs.length = ds.length) : cs = ds :=
  List.ext_getElem hl fun j h1 h2 => by rw [← h.char j h1, ← h'.char j h2]

/-- The bytes of a sign and digits behind it are a string. -/
lemma hasString_of_digits {k : Nat} {p : List UInt8} {b : Int} (hp : (0 : UInt8) ∉ p)
    (hd : (0 : UInt8) ∉ digitsOf b k n) (hsign : ∀ (j : Nat) (h : j < p.length), m (str + j) = p[j])
    (hdigit : ∀ j (hj : j < (digitsOf b k n).length),
      m (str + p.length + j) = (digitsOf b k n)[j])
    (hz : m (str + (p.length + k)) = 0) : HasString m str (p ++ digitsOf b k n) where
  char := by
    intro j hj
    by_cases hlt : j < p.length
    · rw [List.getElem_append_left hlt, hsign j hlt]
    · rw [List.length_append] at hj
      rw [List.getElem_append_right (by omega), ← hdigit _ (by omega),
        show str + p.length + (j - p.length) = str + j by omega]
  nonzero := by
    rw [List.mem_append, not_or]
    exact ⟨hp, hd⟩
  terminator := by rw [List.length_append, digitsOf_length]; exact hz

/-- What `int_to_string` writes, for every number. -/
lemma intToString_writes (hb : 2 ≤ base) (h36 : base ≤ 36) (hn : -2 ^ 31 ≤ n) (hn' : n < 2 ^ 31) :
    Writes (sign n ++ digits base (abs32 n)) fun str m => intToString str n base m := by
  obtain ⟨k, hpos, hk, -⟩ := lengthLoop_spec hb (by decide) (natAbs_abs32 hn hn')
  rw [digits_eq hk]
  refine ⟨fun m => ?_, fun str m hs => ?_⟩
  all_goals rw [List.length_append, digitsOf_length]
  · -- without a buffer only the length is counted
    unfold intToString
    change (lengthLoop base FUEL (abs32 n) _).bind _ = _
    rw [hk, Option.bind_some, if_neg (not_not_intro rfl)]
    unfold sign
    split <;> rfl
  · obtain ⟨m', e, hin, hout⟩ := digitLoop_spec (n := abs32 n)
      (m := if n < 0 then Function.update m str MINUS else m) str (by omega : 0 < base)
      (by omega : 0 + k ≤ (sign n).length + k)
    have hl : (if n < 0 then 1 else 0) = (sign n).length := by unfold sign; split <;> rfl
    rw [Nat.zero_add, Nat.add_sub_cancel] at hin hout
    refine ⟨Function.update m' (str + ((sign n).length + k)) 0, ?_, ?_, fun x hx => ?_⟩
    · unfold intToString
      change (lengthLoop base FUEL (abs32 n) _).bind _ = _
      rw [hk, Option.bind_some, if_pos hs, hl]
      change (digitLoop base str _ _ 0 (abs32 n) _).bind _ = _
      have hf : (if n < 0 then (sign n).length + k - 1 else (sign n).length + k) = k := by
        unfold sign
        split <;> simp
      rw [hf, e]
      rfl
    · have h0 : (0 : UInt8) ∉ digitsOf base k (abs32 n) := by
        intro h
        have := (digitsOf_char (by omega) h36 h).1
        exact absurd this (by decide)
      refine hasString_of_digits ?_ h0 (fun j hj => ?_) (fun j hj => ?_)
        (Function.update_self _ _ _)
      · unfold sign
        split <;> decide
      · rw [Function.update_of_ne (by omega), hout _ (Or.inl (by omega))]
        unfold sign at hj ⊢
        split at hj
        · rename_i hneg
          rw [List.length_singleton, Nat.lt_one_iff] at hj
          subst hj
          simp [hneg]
        · exact absurd hj (Nat.not_lt_zero j)
      · have hj' := hj
        rw [digitsOf_length] at hj'
        rw [Function.update_of_ne (by omega), hin j hj]
    · rw [Function.update_of_ne (by omega), hout x (by omega)]
      split
      · rename_i hneg
        have : (sign n).length = 1 := by rw [← hl, if_pos hneg]
        exact Function.update_of_ne (by omega) _ _
      · rfl

/-! ## Unsigned numbers -/

/-- What `u_int_to_string` writes. -/
lemma uIntToString_writes {v : Nat} (hb : 2 ≤ base) (h36 : base ≤ 36) (hv : v < 2 ^ 32) :
    Writes (digits base v) fun str m => uIntToString str v base m := by
  obtain ⟨k, hpos, hk, -⟩ := lengthLoop_spec (n := v) hb (by decide : 0 < FUEL)
    (by rw [Int.natAbs_natCast]; exact hv)
  rw [digits_eq hk]
  have hbase : (base : Int) % 2 ^ 32 = base := Int.emod_eq_of_lt (by omega) (by omega)
  refine ⟨fun m => ?_, fun str m hs => ?_⟩
  all_goals rw [digitsOf_length]
  · unfold uIntToString
    simp only [hbase, hk, Option.bind_eq_bind, Option.bind_some, Nat.zero_add]
    rfl
  · obtain ⟨m', e, hin, hout⟩ := digitLoop_spec (n := v) (m := m) str (by omega : 0 < base)
      (by omega : 0 + k ≤ k)
    rw [Nat.zero_add, Nat.sub_self] at hin hout
    refine ⟨Function.update m' (str + k) 0, ?_, ?_, fun x hx => ?_⟩
    · unfold uIntToString
      simp only [hbase, hk, Option.bind_eq_bind, Option.bind_some, Nat.zero_add, e]
      rw [if_pos hs]
    · have h0 : (0 : UInt8) ∉ digitsOf base k v := by
        intro h
        exact absurd (digitsOf_char (by omega) h36 h).1 (by decide)
      refine hasString_of_digits (p := []) List.not_mem_nil h0
        (fun j hj => absurd hj (Nat.not_lt_zero j)) (fun j hj => ?_) ?_
      · have hj' := hj
        rw [digitsOf_length] at hj'
        rw [List.length_nil, Function.update_of_ne (by omega), hin j hj]
      · rw [List.length_nil, Nat.zero_add]
        exact Function.update_self _ _ _
    · rw [Function.update_of_ne (by omega), hout x (by omega)]

/-! ## Reading back -/

lemma Numeral.ne_minus (h : Numeral base ds) (hc : c ∈ ds) : c ≠ MINUS := by
  rintro rfl
  have hd := (h.digit _ hc).1
  revert hd
  decide

/-- A numeral denotes its value. -/
lemma Numeral.denotes (h : Numeral base ds) : Denotes base ds (parseDigits base ds) := by
  refine ⟨⟨ds, h, Or.inl rfl⟩, ?_⟩
  cases ds with
  | nil => exact absurd rfl h.nonempty
  | cons c cs => exact if_neg (h.ne_minus List.mem_cons_self)

/-- Behind a sign it denotes the opposite. -/
lemma Numeral.denotes_neg (h : Numeral base ds) :
    Denotes base (MINUS :: ds) (-parseDigits base ds) :=
  ⟨⟨ds, h, Or.inr rfl⟩, by rw [parse, if_pos rfl]⟩

/-- A numeral of characters up to `'0'` is zero. -/
lemma Numeral.eq_zero (h : Numeral base ds) (hle : ∀ c ∈ ds, c.toNat ≤ 48) : ds = [ZERO] := by
  apply h.plain
  cases ds with
  | nil => exact absurd rfl h.nonempty
  | cons c cs =>
    have h1 := hle c List.mem_cons_self
    have h2 := (h.digit c List.mem_cons_self).1
    rw [List.head?_cons, Option.some_inj]
    exact UInt8.toNat_inj.mp (by change c.toNat = 48; omega)

/-- What a call writes is determined. -/
lemma Writes.unique {call : Nat → Bytes → Option (Bytes × Nat)} {cs : List UInt8}
    (h : Writes ds call) (h' : Writes cs call) : ds = cs := by
  have hl := (h.1 fun _ => 0).symm.trans (h'.1 fun _ => 0)
  rw [Option.some_inj, Prod.mk.injEq] at hl
  obtain ⟨m1, e1, s1, _⟩ := h.2 1 (fun _ => 0) Nat.one_ne_zero
  obtain ⟨m2, e2, s2, _⟩ := h'.2 1 (fun _ => 0) Nat.one_ne_zero
  rw [e1, Option.some_inj, Prod.mk.injEq] at e2
  rw [← e2.1] at s2
  exact s1.unique s2 (by omega)

/-- `u_int_to_string` prints every unsigned number. -/
lemma uIntToString_prints {v : Nat} (hb : 2 ≤ base) (h36 : base ≤ 36) (hv : v < 2 ^ 32) :
    Prints base v fun str m => uIntToString str v base m := by
  have hlt : (v : Int).natAbs < 2 ^ FUEL := by rw [Int.natAbs_natCast]; exact hv
  obtain ⟨hnum, hval⟩ := digits_numeral hb h36 (Int.natCast_nonneg v) hlt
  refine ⟨_, ?_, uIntToString_writes hb h36 hv⟩
  have hd := hnum.denotes
  rwa [hval] at hd

/-- `int_to_string` prints every signed number but the least one. -/
lemma intToString_prints (hb : 2 ≤ base) (h36 : base ≤ 36) (hn : -2 ^ 31 < n) (hn' : n < 2 ^ 31) :
    Prints base n fun str m => intToString str n base m := by
  have hnum := digits_numeral (n := abs32 n) hb h36
  have hlt := natAbs_abs32 (by omega) hn'
  refine ⟨_, ?_, intToString_writes hb h36 (by omega) hn'⟩
  by_cases hneg : n < 0
  · have ha : abs32 n = -n := (if_pos hneg).trans (neg32_of_gt hn hneg)
    obtain ⟨hds, hval⟩ := hnum (by omega) hlt
    have hd := hds.denotes_neg
    rw [hval, ha, Int.neg_neg] at hd
    rw [show sign n = [MINUS] from if_pos hneg, ha]
    exact hd
  · have ha : abs32 n = n := if_neg hneg
    obtain ⟨hds, hval⟩ := hnum (by omega) hlt
    have hd := hds.denotes
    rw [hval, ha] at hd
    rw [show sign n = [] from if_neg hneg, ha]
    exact hd

/-- What `int_to_string` writes for the least number is no number, or zero. -/
lemma intToString_least (hb : 2 ≤ base) (h36 : base ≤ 36) :
    ¬ Prints base (-2 ^ 31) fun str m => intToString str (-2 ^ 31) base m := by
  rintro ⟨text, ⟨⟨ds, hds, htext⟩, hparse⟩, hw⟩
  have hw' := intToString_writes hb h36 (n := -2 ^ 31) (by omega) (by omega)
  rw [hw.unique hw', show sign (-2 ^ 31) = [MINUS] from rfl, List.singleton_append] at htext hparse
  have hds' : ds = digits base (abs32 (-2 ^ 31)) := by
    rcases htext with e | e
    · exact absurd rfl (hds.ne_minus (e ▸ List.mem_cons_self))
    · exact (List.cons_inj_right _).mp e.symm
  have hz := hds.eq_zero fun c hc => by
    rw [hds'] at hc
    exact (digitsOf_char (by omega) h36 hc).2.2 (by decide)
  rw [← hds', hz] at hparse
  revert hparse
  simp [parse, parseDigits, digitValue, ZERO]

/-- Unsigned numbers are printed right, and signed ones if and only if they can be negated. -/
theorem numbers_printed (base : Nat) (hb : 2 ≤ base) (h36 : base ≤ 36) :
    (∀ n : Nat, n < 2 ^ 32 → Prints base n fun str m => uIntToString str n base m) ∧
      ∀ n : Int, -2 ^ 31 ≤ n → n < 2 ^ 31 →
        ((Prints base n fun str m => intToString str n base m) ↔ n ≠ -2 ^ 31) := by
  refine ⟨fun n hn => uIntToString_prints hb h36 hn, fun n hn hn' => ⟨?_, fun hne => ?_⟩⟩
  · rintro h rfl
    exact intToString_least hb h36 h
  · exact intToString_prints hb h36 (by omega) hn'

/-- In decimal, -1 is printed right. -/
theorem numbers_printed_decimal : Prints 10 (-1) fun str m => intToString str (-1) 10 m :=
  ((numbers_printed 10 (by decide) (by decide)).2 (-1) (by decide) (by decide)).mpr (by decide)

/-- In decimal, the least number is not. -/
theorem numbers_least : ¬ Prints 10 (-2 ^ 31) fun str m => intToString str (-2 ^ 31) 10 m :=
  intToString_least (by decide) (by decide)

end MarioBrOS.Strings
