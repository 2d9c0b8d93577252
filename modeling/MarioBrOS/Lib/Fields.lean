import Mathlib.Algebra.Order.Group.Nat
import Mathlib.Tactic.Lemma

/-!
# Packed bit fields

A packed structure of bit fields is a number: the first field takes the lowest bits, the next one
the bits above, and so on. `pack` makes the number from the fields, each given with its width, and
`unpack` takes it apart again when it is told the widths: a field comes back cut to its width.
-/

namespace MarioBrOS

/-- The number whose fields, from the lowest bits on, have the given widths and values. -/
def pack : List (Nat × Nat) → Nat
  | [] => 0
  | (w, v) :: fs => v % 2 ^ w + 2 ^ w * pack fs

/-- The fields of a number, from the lowest bits on. -/
def unpack : List Nat → Nat → List Nat
  | [], _ => []
  | w :: ws, n => n % 2 ^ w :: unpack ws (n / 2 ^ w)

variable {fs : List (Nat × Nat)}

/-- Fields come back, cut to their widths. -/
lemma unpack_pack : unpack (fs.map Prod.fst) (pack fs) = fs.map fun f => f.2 % 2 ^ f.1 := by
  induction fs with
  | nil => rfl
  | cons f fs ih =>
    obtain ⟨w, v⟩ := f
    have hw : 0 < 2 ^ w := Nat.two_pow_pos w
    simp only [List.map_cons, unpack, pack]
    rw [Nat.add_mul_mod_self_left, Nat.mod_mod, Nat.add_mul_div_left _ _ hw,
      Nat.div_eq_of_lt (Nat.mod_lt v hw), Nat.zero_add, ih]

end MarioBrOS
