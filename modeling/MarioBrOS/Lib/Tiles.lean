import Mathlib.Tactic.Lemma
import Mathlib.Tactic.TypeStar
import Mathlib.Data.List.Basic

/-!
# Intervals tiled by blocks

A block has an address and a size. `Tiles lo size a bs e` says that the blocks `bs` cover the
interval from `a` to `e` one after the other, with no gap and no overlap. The rules split a tiling
at a block, put it together again with other blocks in its place, and say that different blocks are
apart.
-/

namespace MarioBrOS

variable {β : Type*} {lo size : β → Nat} {a e : Nat} {bs l r : List β} {b c : β}

/-- The blocks cover the interval from `a` to `e` in order. -/
def Tiles (lo size : β → Nat) : Nat → List β → Nat → Prop
  | a, [], e => a = e
  | a, b :: bs, e => lo b = a ∧ Tiles lo size (a + size b) bs e

/-- A tiling of a concatenation is cut at the boundary. -/
lemma tiles_append :
    Tiles lo size a (l ++ r) e ↔ ∃ m, Tiles lo size a l m ∧ Tiles lo size m r e := by
  induction l generalizing a with
  | nil => simp [Tiles]
  | cons b l ih => simp [Tiles, ih, and_assoc]

/-- A tiling cut at a block. -/
lemma tiles_mid :
    Tiles lo size a (l ++ b :: r) e ↔
      Tiles lo size a l (lo b) ∧ Tiles lo size (lo b + size b) r e := by
  rw [tiles_append]
  constructor
  · rintro ⟨m, hl, rfl, hr⟩
    exact ⟨hl, hr⟩
  · rintro ⟨hl, hr⟩
    exact ⟨lo b, hl, rfl, hr⟩

lemma Tiles.le (h : Tiles lo size a bs e) : a ≤ e := by
  induction bs generalizing a with
  | nil => exact Nat.le_of_eq h
  | cons b bs ih => exact Nat.le_trans (Nat.le_add_right _ _) (ih h.2)

/-- A block lies in the interval. -/
lemma Tiles.bounds (h : Tiles lo size a bs e) (hb : b ∈ bs) : a ≤ lo b ∧ lo b + size b ≤ e := by
  obtain ⟨l, r, rfl⟩ := List.append_of_mem hb
  obtain ⟨hl, hr⟩ := tiles_mid.mp h
  exact ⟨hl.le, hr.le⟩

/-- Blocks in front of a block end before it, blocks behind it start after it. -/
lemma Tiles.sides (h : Tiles lo size a (l ++ b :: r) e) :
    (∀ c ∈ l, lo c + size c ≤ lo b) ∧ ∀ c ∈ r, lo b + size b ≤ lo c := by
  obtain ⟨hl, hr⟩ := tiles_mid.mp h
  exact ⟨fun c hc => (hl.bounds hc).2, fun c hc => (hr.bounds hc).1⟩

/-- Different blocks do not overlap. -/
lemma Tiles.apart (h : Tiles lo size a bs e) (hb : b ∈ bs) (hc : c ∈ bs) (hne : c ≠ b) :
    lo c + size c ≤ lo b ∨ lo b + size b ≤ lo c := by
  obtain ⟨l, r, rfl⟩ := List.append_of_mem hb
  obtain ⟨hl, hr⟩ := h.sides
  rcases List.mem_append.mp hc with hc | hc
  · exact .inl (hl c hc)
  · rcases List.mem_cons.mp hc with rfl | hc
    · exact absurd rfl hne
    · exact .inr (hr c hc)

/-- Blocks of positive size are told apart by their addresses. -/
lemma Tiles.eq_of_lo_eq (h : Tiles lo size a bs e) (hpos : ∀ d ∈ bs, 0 < size d) (hb : b ∈ bs)
    (hc : c ∈ bs) (heq : lo c = lo b) : c = b := by
  by_contra hne
  have hbp := hpos b hb
  have hcp := hpos c hc
  rcases h.apart hb hc hne with hlt | hlt <;> omega

/-- Blocks of positive size do not repeat. -/
lemma Tiles.not_mem (h : Tiles lo size a (l ++ b :: r) e) (hpos : 0 < size b) : b ∉ l ++ r := by
  obtain ⟨hl, hr⟩ := h.sides
  intro hb
  rcases List.mem_append.mp hb with hb | hb
  · have := hl b hb; omega
  · have := hr b hb; omega

/-- The blocks stand in the order of their addresses. -/
lemma Tiles.pairwise (h : Tiles lo size a bs e) :
    bs.Pairwise fun b c => lo b + size b ≤ lo c := by
  induction bs generalizing a with
  | nil => exact .nil
  | cons b bs ih =>
    obtain ⟨rfl, h⟩ := h
    exact List.pairwise_cons.mpr ⟨fun c hc => (h.bounds hc).1, ih h⟩

end MarioBrOS
