import MarioBrOS.Lib.Bytes
import Mathlib.Logic.Function.Basic

/-!
# Filling and copying

`mem_set` and `mem_copy` of `memory.c`, `max` of `utils.c` and the rounding functions of `math.c`.
-/

namespace MarioBrOS

/-- `memory.c`, `mem_set`. -/
def memSet (m : Bytes) (str : Nat) (c : UInt8) : Nat → Bytes
  | 0 => m
  | len + 1 => Function.update (memSet m str c len) (str + len) c

/-- `memory.c`, `mem_copy`, from one buffer into another. -/
def memCopy (dest : Bytes) (d : Nat) (source : Bytes) (s : Nat) : Nat → Bytes
  | 0 => dest
  | len + 1 => Function.update (memCopy dest d source s len) (d + len) (source (s + len))

/-- What `mem_set` leaves at each address. -/
lemma memSet_apply (m : Bytes) (str : Nat) (c : UInt8) (len x : Nat) :
    memSet m str c len x = if str ≤ x ∧ x < str + len then c else m x := by
  induction len with
  | zero => rw [memSet, if_neg (by omega)]
  | succ len ih =>
    rw [memSet, Function.update_apply, ih]
    by_cases hx : x = str + len
    · rw [if_pos hx, if_pos (by omega)]
    · rw [if_neg hx]
      by_cases h : str ≤ x ∧ x < str + len
      · rw [if_pos h, if_pos (by omega)]
      · rw [if_neg h, if_neg (by omega)]

/-- What `mem_copy` leaves at each address. -/
lemma memCopy_apply (dest source : Bytes) (d s len x : Nat) :
    memCopy dest d source s len x =
      if d ≤ x ∧ x < d + len then source (s + (x - d)) else dest x := by
  induction len with
  | zero => rw [memCopy, if_neg (by omega)]
  | succ len ih =>
    rw [memCopy, Function.update_apply, ih]
    by_cases hx : x = d + len
    · rw [if_pos hx, if_pos (by omega)]
      congr 1
      omega
    · rw [if_neg hx]
      by_cases h : d ≤ x ∧ x < d + len
      · rw [if_pos h, if_pos (by omega)]
      · rw [if_neg h, if_neg (by omega)]

/-- `math.c`, `floor_ratio`. -/
def floorRatio (a b : Nat) : Nat := a / b

/-- `math.c`, `ceil_ratio`. -/
def ceilRatio (a b : Nat) : Nat :=
  if a = a / b * b then a / b else a / b + 1

/-- `math.c`, `ceil_multiple`, on 32-bit words. -/
def ceilMultiple (n k : Nat) : Nat :=
  if n % k ≠ 0 then add32 (sub32 n (n % k)) k else n

/-- The rounded ratio covers `a` with less than one `b` to spare. -/
lemma ceilRatio_spec {a b : Nat} (hb : 0 < b) :
    a ≤ ceilRatio a b * b ∧ ceilRatio a b * b < a + b := by
  have h1 := Nat.div_add_mod a b
  have h2 := Nat.mod_lt a hb
  rw [Nat.mul_comm] at h1
  unfold ceilRatio
  split
  · omega
  · rw [Nat.add_mul]; omega

/-- The next multiple of `k`, when it does not leave 32 bits. -/
lemma ceilMultiple_spec {n k : Nat} (hk : 0 < k) (h : n + k ≤ 2 ^ 32) :
    n ≤ ceilMultiple n k ∧ ceilMultiple n k < n + k ∧ k ∣ ceilMultiple n k := by
  have h1 := Nat.div_add_mod n k
  have h2 := Nat.mod_lt n hk
  unfold ceilMultiple
  split
  · rename_i hne
    have e : add32 (sub32 n (n % k)) k = k * (n / k + 1) := by
      rw [sub32_of_le (by omega) (by omega), add32_of_lt (by omega), Nat.mul_add]
      omega
    rw [e]
    refine ⟨?_, ?_, Nat.dvd_mul_right _ _⟩ <;> rw [Nat.mul_add] <;> omega
  · rename_i heq
    exact ⟨Nat.le_refl _, by omega, Nat.dvd_of_mod_eq_zero (not_not.mp heq)⟩

end MarioBrOS
