import MarioBrOS.Lib.Bytes

/-!
# Writing through an address map

The bytes of a file, of a ring or of a list of pages lie in memory wherever a map says. `Scattered`
is what a write of the bytes `p` to `p + n` does to that memory, block by block or at once: writes
of adjacent ranges add up (`Scattered.trans`) if no two bytes share an address, and then what is
read through the map is what was there with the range replaced (`Scattered.read`).
-/

namespace MarioBrOS

namespace Bytes

/-- `m'` is `m` with the bytes `p` to `p + n`, which lie at the addresses `a`, replaced by those of
`source` from `s` on. -/
structure Scattered (a : Nat → Nat) (m m' : Bytes) (p n : Nat) (source : Bytes) (s : Nat) :
    Prop where
  inside : ∀ x, x < n → m' (a (p + x)) = source (s + x)
  outside : ∀ y, (∀ x, x < n → y ≠ a (p + x)) → m' y = m y

/-- No two of the first `size` bytes share an address. -/
def Apart (a : Nat → Nat) (size : Nat) : Prop :=
  ∀ x y, x < size → y < size → a x = a y → x = y

variable {a : Nat → Nat} {m m' m'' source : Bytes} {d n n' p s size x : Nat}

/-- Nothing is written. -/
lemma Scattered.refl : Scattered a m m p 0 source s where
  inside x hx := absurd hx (Nat.not_lt_zero x)
  outside _ _ := rfl

/-- The map matters at the bytes written only. -/
lemma Scattered.congr {a' : Nat → Nat} (h : Scattered a m m' p n source s)
    (ha : ∀ x, x < n → a (p + x) = a' (p + x)) : Scattered a' m m' p n source s where
  inside x hx := by
    rw [← ha x hx]
    exact h.inside x hx
  outside y hy := by
    apply h.outside
    intro x hx
    rw [ha x hx]
    exact hy x hx

/-- A range that lies in one piece. -/
lemma Scattered.of_blit (h : ∀ x, x < n → a (p + x) = d + x) :
    Scattered a m (m.blit d source s n) p n source s where
  inside x hx := by
    rw [h x hx, blit_apply_of_inside (by omega), Nat.add_sub_cancel_left]
  outside y hy := by
    apply blit_apply_of_outside
    apply Decidable.byContradiction
    intro hin
    have hd := h (y - d) (by omega)
    exact hy (y - d) (by omega) (by omega)

/-- A range and the range behind it. -/
lemma Scattered.trans (h : Scattered a m m' p n source s)
    (h' : Scattered a m' m'' (p + n) n' source (s + n)) (ha : Apart a size)
    (hs : p + n + n' ≤ size) : Scattered a m m'' p (n + n') source s where
  inside x hx := by
    by_cases hn : x < n
    · rw [← h.inside x hn]
      apply h'.outside
      intro y hy e
      have := ha _ _ (by omega) (by omega) e
      omega
    · have e := h'.inside (x - n) (by omega)
      have h1 : p + n + (x - n) = p + x := by omega
      have h2 : s + n + (x - n) = s + x := by omega
      rwa [h1, h2] at e
  outside y hy := by
    rw [h'.outside, h.outside]
    · exact fun x hx => hy x (by omega)
    · intro x hx
      have e := hy (n + x) (by omega)
      rwa [← Nat.add_assoc] at e

/-- What is read through the map afterwards. -/
lemma Scattered.read (h : Scattered a m m' p n source s) (ha : Apart a size) (hs : p + n ≤ size)
    (hx : x < size) :
    m' (a x) = if p ≤ x ∧ x < p + n then source (s + (x - p)) else m (a x) := by
  split
  · have e := h.inside (x - p) (by omega)
    have hp : p + (x - p) = x := by omega
    rwa [hp] at e
  · apply h.outside
    intro y hy e
    have := ha _ _ hx (by omega) e
    omega

end Bytes

end MarioBrOS
