import MarioBrOS.Screen.Printer
import Mathlib.Algebra.Order.Ring.Int

/-!
# Boxes

`write_box` steps from one side of the box to the other by the distance between them, so it does not
return when they are the same. The bars of its left and right sides begin one row too low: two cells
below the box are drawn as well.
-/

namespace MarioBrOS.Printer

/-- `printer.h`, `ROW`. -/
def ROW (pos : Nat) : Nat := pos / SCREEN_WIDTH

/-- `printer.h`, `COL`. -/
def COL (pos : Nat) : Nat := pos % SCREEN_WIDTH

/-- `printer.h`, `POS`, as a `pos_t`. -/
def POS (row col : Nat) : Nat := (row * SCREEN_WIDTH + col) % 2 ^ 16

/-- `printer.c`, the characters of a box. -/
def VERTICAL_BAR : UInt8 := 186

/-- `printer.c`, `UPPER_RIGHT_CORNER`. -/
def UPPER_RIGHT_CORNER : UInt8 := 187

/-- `printer.c`, `LOWER_RIGHT_CORNER`. -/
def LOWER_RIGHT_CORNER : UInt8 := 188

/-- `printer.c`, `LOWER_LEFT_CORNER`. -/
def LOWER_LEFT_CORNER : UInt8 := 200

/-- `printer.c`, `UPPER_LEFT_CORNER`. -/
def UPPER_LEFT_CORNER : UInt8 := 201

/-- `printer.c`, `HORIZONTAL_BAR`. -/
def HORIZONTAL_BAR : UInt8 := 205

namespace Screen

/-- `printer.c`, `PUT_CHAR`. -/
def putAt (row col : Nat) (c : UInt8) (s : Screen) : Screen :=
  s.putChar (POS row col) c s.foreground s.background

/-- The inner loop of the first two: `n` bars from `col` on. -/
def rowBars (row : Nat) : Nat → Nat → Screen → Screen
  | 0, _, s => s
  | n + 1, col, s => rowBars row n (col + 1) (s.putAt row col HORIZONTAL_BAR)

/-- The inner loop of the last two: `n` bars from `row` up. -/
def colBars (col : Nat) : Nat → Nat → Screen → Screen
  | 0, _, s => s
  | n + 1, row, s => colBars col n (row - 1) (s.putAt row col VERTICAL_BAR)

/-- The upper and lower sides. -/
def rowsLoop (upper lower left right : Nat) : Nat → Int → Screen → Option Screen
  | 0, _, _ => none
  | fuel + 1, row, s =>
    if (upper : Int) ≤ row then
      rowsLoop upper lower left right fuel (row + (upper - lower))
        (rowBars row.toNat (right - (left + 1)) (left + 1) s)
    else some s

/-- The left and right sides. -/
def colsLoop (upper lower left right : Nat) : Nat → Int → Screen → Option Screen
  | 0, _, _ => none
  | fuel + 1, col, s =>
    if col ≤ (right : Int) then
      colsLoop upper lower left right fuel (col + (right - left))
        (colBars col.toNat (lower + 1 - upper) (lower + 1) s)
    else some s

/-- `printer.c`, `write_box`. -/
def writeBox (fuel upperLeft lowerRight : Nat) (s : Screen) : Option Screen := do
  let upper := ROW upperLeft
  let lower := ROW lowerRight
  let left := COL upperLeft
  let right := COL lowerRight
  let s ← rowsLoop upper lower left right fuel lower s
  let s ← colsLoop upper lower left right fuel left s
  let s := s.putAt upper left UPPER_LEFT_CORNER
  let s := s.putAt upper right UPPER_RIGHT_CORNER
  let s := s.putAt lower left LOWER_LEFT_CORNER
  some (s.putAt lower right LOWER_RIGHT_CORNER)

end Screen

/-- What is drawn at a position, given by its row and its column. -/
def boxChar (upper lower left right row col : Nat) : Option UInt8 :=
  if row = lower ∧ col = right then some LOWER_RIGHT_CORNER
  else if row = lower ∧ col = left then some LOWER_LEFT_CORNER
  else if row = upper ∧ col = right then some UPPER_RIGHT_CORNER
  else if row = upper ∧ col = left then some UPPER_LEFT_CORNER
  else if (col = left ∨ col = right) ∧ upper < row ∧ row ≤ lower + 1 then some VERTICAL_BAR
  else if (row = upper ∨ row = lower) ∧ left < col ∧ col < right then some HORIZONTAL_BAR
  else none

/-- A picture over the screen `s`: the cells where `f` has a character. -/
structure Picture (f : Nat → Nat → Option UInt8) (s u : Screen) : Prop where
  draws : s.Draws u
  cell : ∀ j, u.cell j = (f (j / 80) (j % 80)).elim (s.cell j) fun c => (c, s.color)

variable {s u : Screen} {upper lower left right row col n fuel : Nat} {c : UInt8}
  {f g : Nat → Nat → Option UInt8}

lemma Picture.empty (s : Screen) : Picture (fun _ _ => none) s s :=
  ⟨Screen.Draws.refl s, fun _ => rfl⟩

/-- One character more. -/
lemma Picture.putAt (P : Picture f s u) (row col : Nat) (c : UInt8) (hrow : row ≤ 25)
    (hcol : col < 80)
    (hg : ∀ r k, g r k = if r = row ∧ k = col then some c else f r k) :
    Picture g s (u.putAt row col c) := by
  have hput : u.Draws (u.putAt row col c) := ⟨rfl, rfl, rfl⟩
  have hpos : POS row col = row * 80 + col :=
    Nat.mod_eq_of_lt (show row * 80 + col < 2 ^ 16 by omega)
  refine ⟨P.draws.trans hput, fun j => ?_⟩
  unfold Screen.putAt
  rw [Screen.cell_putChar, hpos, hg, P.cell]
  by_cases hj : j = row * 80 + col
  · rw [if_pos hj, if_pos (by omega)]
    exact congrArg (Prod.mk c) P.draws.color
  · rw [if_neg hj, if_neg (by omega)]

/-- A horizontal bar. -/
lemma Picture.rowBars (P : Picture f s u) (row col n : Nat) (hrow : row ≤ 25) (hcol : col + n ≤ 80)
    (hg : ∀ r k, g r k =
      if r = row ∧ col ≤ k ∧ k < col + n then some HORIZONTAL_BAR else f r k) :
    Picture g s (u.rowBars row n col) := by
  induction n generalizing col u f with
  | zero =>
    have e : g = f := by
      funext r k
      rw [hg, if_neg (by omega)]
    rw [e]
    exact P
  | succ n ih =>
    refine ih (P.putAt row col HORIZONTAL_BAR hrow (by omega) fun _ _ => rfl) _ (by omega)
      fun r k => ?_
    rw [hg]
    by_cases h : r = row ∧ k = col
    · rw [if_pos (by omega), if_neg (by omega), if_pos h]
    · rw [if_neg h]
      exact if_congr (by omega) rfl rfl

/-- A vertical bar, which is drawn from below. -/
lemma Picture.colBars (P : Picture f s u) (row col n : Nat) (hrow : row ≤ 25) (hcol : col < 80)
    (hn : n ≤ row)
    (hg : ∀ r k, g r k =
      if k = col ∧ row < r + n ∧ r ≤ row then some VERTICAL_BAR else f r k) :
    Picture g s (u.colBars col n row) := by
  induction n generalizing row u f with
  | zero =>
    have e : g = f := by
      funext r k
      rw [hg, if_neg (by omega)]
    rw [e]
    exact P
  | succ n ih =>
    refine ih (P.putAt row col VERTICAL_BAR hrow hcol fun _ _ => rfl) _ (by omega) (by omega)
      fun r k => ?_
    rw [hg]
    by_cases h : r = row ∧ k = col
    · rw [if_pos (by omega), if_neg (by omega), if_pos h]
    · rw [if_neg h]
      exact if_congr (by omega) rfl rfl

/-! ## Whether it returns -/

/-- With no distance between the sides, the loop over the rows goes on. -/
lemma rowsLoop_none {r : Int} (h : (lower : Int) ≤ r) :
    Screen.rowsLoop lower lower left right fuel r s = none := by
  induction fuel generalizing r s with
  | zero => rfl
  | succ fuel ih =>
    rw [Screen.rowsLoop, if_pos h]
    exact ih (by omega)

lemma colsLoop_none {k : Int} (h : k ≤ (right : Int)) :
    Screen.colsLoop upper lower right right fuel k s = none := by
  induction fuel generalizing k s with
  | zero => rfl
  | succ fuel ih =>
    rw [Screen.colsLoop, if_pos h]
    exact ih (by omega)

/-- The two rounds of the first loop, or none. -/
lemma rowsLoop_eq (h : upper ≠ lower) (hf : 3 ≤ fuel) :
    Screen.rowsLoop upper lower left right fuel lower s = some
      (if upper < lower then
        (s.rowBars lower (right - (left + 1)) (left + 1)).rowBars upper (right - (left + 1))
          (left + 1)
      else s) := by
  obtain ⟨fuel, rfl⟩ := Nat.exists_eq_add_of_le' hf
  rw [Screen.rowsLoop]
  by_cases hlt : upper < lower
  · rw [if_pos (by omega), if_pos hlt, Screen.rowsLoop, if_pos (by omega), Screen.rowsLoop,
      if_neg (by omega), add_sub_cancel, Int.toNat_natCast, Int.toNat_natCast]
  · rw [if_neg (by omega), if_neg hlt]

lemma colsLoop_eq (h : left ≠ right) (hf : 3 ≤ fuel) :
    Screen.colsLoop upper lower left right fuel left s = some
      (if left < right then
        (s.colBars left (lower + 1 - upper) (lower + 1)).colBars right (lower + 1 - upper)
          (lower + 1)
      else s) := by
  obtain ⟨fuel, rfl⟩ := Nat.exists_eq_add_of_le' hf
  rw [Screen.colsLoop]
  by_cases hlt : left < right
  · rw [if_pos (by omega), if_pos hlt, Screen.colsLoop, if_pos (by omega), Screen.colsLoop,
      if_neg (by omega), add_sub_cancel, Int.toNat_natCast, Int.toNat_natCast]
  · rw [if_neg (by omega), if_neg hlt]

/-! ## The whole box -/

/-- The eight steps, each over what the ones before have drawn. -/
lemma Picture.box (hr : upper < lower) (hc : left < right) (h25 : lower < 25) (h80 : right < 80) :
    Picture (boxChar upper lower left right) s
      ((((((((s.rowBars lower (right - (left + 1)) (left + 1)).rowBars upper (right - (left + 1))
        (left + 1)).colBars left (lower + 1 - upper) (lower + 1)).colBars right (lower + 1 - upper)
        (lower + 1)).putAt upper left UPPER_LEFT_CORNER).putAt upper right
        UPPER_RIGHT_CORNER).putAt lower left LOWER_LEFT_CORNER).putAt lower right
        LOWER_RIGHT_CORNER) := by
  have P1 := (Picture.empty s).rowBars lower (left + 1) (right - (left + 1)) (by omega) (by omega)
    fun _ _ => rfl
  have P2 := P1.rowBars upper (left + 1) (right - (left + 1)) (by omega) (by omega)
    fun _ _ => rfl
  have P3 := P2.colBars (lower + 1) left (lower + 1 - upper) (by omega) (by omega) (by omega)
    fun _ _ => rfl
  have P4 := P3.colBars (lower + 1) right (lower + 1 - upper) (by omega) (by omega) (by omega)
    fun _ _ => rfl
  have P5 := P4.putAt upper left UPPER_LEFT_CORNER (by omega) (by omega) fun _ _ => rfl
  have P6 := P5.putAt upper right UPPER_RIGHT_CORNER (by omega) h80 fun _ _ => rfl
  have P7 := P6.putAt lower left LOWER_LEFT_CORNER (by omega) (by omega) fun _ _ => rfl
  refine P7.putAt _ _ _ h25.le h80 fun r k => ?_
  unfold boxChar
  refine if_congr Iff.rfl rfl (if_congr Iff.rfl rfl (if_congr Iff.rfl rfl ?_))
  refine if_congr Iff.rfl rfl ?_
  by_cases h1 : k = right ∧ lower + 1 < r + (lower + 1 - upper) ∧ r ≤ lower + 1
  · rw [if_pos (by omega), if_pos h1]
  rw [if_neg h1]
  by_cases h2 : k = left ∧ lower + 1 < r + (lower + 1 - upper) ∧ r ≤ lower + 1
  · rw [if_pos (by omega), if_pos h2]
  rw [if_neg (by omega), if_neg h2]
  by_cases h3 : r = upper ∧ left + 1 ≤ k ∧ k < left + 1 + (right - (left + 1))
  · rw [if_pos (by omega), if_pos h3]
  rw [if_neg h3]
  exact if_congr (by omega) rfl rfl

/-- `write_box` returns if and only if the corners are in different rows and in different columns.
If the second is below and to the right of the first, it draws the box, and the two cells below its
lower corners. -/
theorem writeBox_spec {upperLeft lowerRight : Nat} (hul : upperLeft < 2000)
    (hlr : lowerRight < 2000) (s : Screen) :
    ((∃ fuel u, s.writeBox fuel upperLeft lowerRight = some u) ↔
        ROW upperLeft ≠ ROW lowerRight ∧ COL upperLeft ≠ COL lowerRight) ∧
      (ROW upperLeft < ROW lowerRight → COL upperLeft < COL lowerRight → ∀ fuel, 3 ≤ fuel →
        ∃ u, s.writeBox fuel upperLeft lowerRight = some u ∧ Picture
          (boxChar (ROW upperLeft) (ROW lowerRight) (COL upperLeft) (COL lowerRight)) s u) := by
  have h1 : ROW upperLeft < 25 := by unfold ROW SCREEN_WIDTH; omega
  have h2 : ROW lowerRight < 25 := by unfold ROW SCREEN_WIDTH; omega
  have h3 : COL upperLeft < 80 := Nat.mod_lt _ (by decide)
  have h4 : COL lowerRight < 80 := Nat.mod_lt _ (by decide)
  unfold Screen.writeBox
  dsimp only
  generalize ROW upperLeft = upper at *
  generalize ROW lowerRight = lower at *
  generalize COL upperLeft = left at *
  generalize COL lowerRight = right at *
  refine ⟨⟨?_, fun ⟨hr, hc⟩ => ?_⟩, fun hr hc fuel hf => ?_⟩
  · rintro ⟨fuel, u, e⟩
    constructor
    · rintro rfl
      rw [rowsLoop_none (le_refl _)] at e
      cases e
    · rintro rfl
      cases hrows : Screen.rowsLoop upper lower left left fuel lower s with
      | none =>
        rw [hrows] at e
        cases e
      | some t =>
        rw [hrows, Option.bind_eq_bind, Option.bind_some, colsLoop_none (le_refl _)] at e
        cases e
  · refine ⟨3, ?_⟩
    rw [rowsLoop_eq hr (le_refl 3), Option.bind_eq_bind, Option.bind_some,
      colsLoop_eq hc (le_refl 3)]
    exact ⟨_, rfl⟩
  · rw [rowsLoop_eq hr.ne hf, Option.bind_eq_bind, Option.bind_some, colsLoop_eq hc.ne hf,
      if_pos hr, if_pos hc]
    exact ⟨_, rfl, Picture.box hr hc h2 h4⟩

/-- The box of the splash screen. -/
theorem writeBox_spec_splash : ∃ u, blankScreen.writeBox 3 (POS 0 0) (POS 8 79) = some u ∧
    Picture (boxChar 0 8 0 79) blankScreen u :=
  (writeBox_spec (show POS 0 0 < 2000 by decide) (show POS 8 79 < 2000 by decide) blankScreen).2
    (by decide) (by decide) 3 (le_refl 3)

end MarioBrOS.Printer
