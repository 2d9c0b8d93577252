import MarioBrOS.Screen.Printer
import MarioBrOS.Strings.Format
import Mathlib.Data.List.GetD
import Mathlib.Data.List.Induction

/-!
# The screen as a window

What is written goes to a tape without end, of rows of 80 cells, and the screen shows 25 rows of it.
The window follows the head: it moves down, never up, and no further than it must. `write_char` does
just this as long as no backspace comes when the cursor is in the upper left corner
(`emits_shows_iff`). How a text that is longer than the screen is shown follows from what is on the
tape (`writeString_shows`).
-/

namespace MarioBrOS.Printer

/-- A character and its colors. -/
abbrev Cell := UInt8 × UInt8

/-- What is sent to the screen: `writef` also changes the colors. -/
inductive Output where
  | char (c : UInt8)
  | foreground (color : Nat)
  | background (color : Nat)
  deriving DecidableEq

/-! ## The tape -/

/-- The tape, the head and the first row that is shown. `behind` is the cell that follows the last
one of the screen in memory; a delete draws it in. -/
structure Terminal where
  tape : Nat → Cell
  head : Nat
  top : Nat
  behind : Cell
  foreground : Nat
  background : Nat

/-- The cells from `i` up to `k` become `a`. -/
def fill (a : Cell) (i k : Nat) (tape : Nat → Cell) : Nat → Cell := fun j =>
  if i ≤ j ∧ j < k then a else tape j

namespace Terminal

/-- A space in the colors in force. -/
def blank (t : Terminal) : Cell := (32, colorByte t.foreground t.background)

/-- The first cell below the window. -/
def bottom (t : Terminal) : Nat := 80 * (t.top + 25)

/-- The head goes on to the next multiple of `width`. -/
def advance (width : Nat) (t : Terminal) : Terminal :=
  { t with
    tape := fill t.blank t.head (width * (t.head / width + 1)) t.tape
    head := width * (t.head / width + 1) }

/-- The cells of the window move back to the head. -/
def delete (t : Terminal) : Terminal :=
  { t with
    tape := fun j =>
      if t.head ≤ j ∧ j < t.bottom then if j + 1 = t.bottom then t.behind else t.tape (j + 1)
      else t.tape j }

/-- What a character does at the head. -/
def place (c : UInt8) (t : Terminal) : Terminal :=
  if c = 10 then t.advance 80
  else if c = 9 then t.advance 4
  else if c = 8 then
    { t with tape := Function.update t.tape (t.head - 1) t.blank, head := t.head - 1 }
  else if c = 127 then t.delete
  else
    { t with
      tape := Function.update t.tape t.head (c, colorByte t.foreground t.background)
      head := t.head + 1 }

/-- The window follows the head; the rows that come into it are blank. -/
def follow (t : Terminal) : Terminal :=
  let top := max t.top (t.head / 80 - 24)
  { t with tape := fill t.blank t.bottom (80 * (top + 25)) t.tape, top := top }

/-- What is sent to the terminal. -/
def emit (t : Terminal) : Output → Terminal
  | .char c => if c = 0 then t else (t.place c).follow
  | .foreground color => { t with foreground := color }
  | .background color => { t with background := color }

/-- One thing after the other. -/
def emits (t : Terminal) (os : List Output) : Terminal := os.foldl emit t

end Terminal

/-! ## The screen -/

namespace Screen

/-- What is sent to the screen. -/
def emit (s : Screen) : Output → Screen
  | .char c => s.writeChar c
  | .foreground color => { s with foreground := color }
  | .background color => { s with background := color }

/-- One thing after the other. -/
def emits (s : Screen) (os : List Output) : Screen := os.foldl emit s

/-- `printer.c`, `write_string`, of the bytes before the `NUL`. -/
def writeString (cs : List UInt8) (s : Screen) : Option Screen :=
  (Strings.writeString cs).map fun out => s.emits (out.map .char)

end Screen

/-- The screen shows the window, and the cursor is the head. -/
structure Shows (s : Screen) (t : Terminal) : Prop where
  cell : ∀ i, i < 2000 → s.cell i = t.tape (80 * t.top + i)
  cursor : 80 * t.top + s.cursor = t.head
  onScreen : s.cursor < 2000
  behind : s.cell 2000 = t.behind
  foreground : s.foreground = t.foreground
  background : s.background = t.background

/-- Between the two halves of `write_char`: the position may be the one after the last. -/
structure Placed (s : Screen) (pos : Nat) (t : Terminal) : Prop where
  cell : ∀ i, i < 2000 → s.cell i = t.tape (80 * t.top + i)
  head : 80 * t.top + pos = t.head
  le : pos ≤ 2000
  behind : s.cell 2000 = t.behind
  foreground : s.foreground = t.foreground
  background : s.background = t.background

variable {s u : Screen} {t : Terminal} {c : UInt8} {i j k n pos : Nat} {o : Output}
  {os : List Output}

lemma Shows.color (h : Shows s t) : s.color = colorByte t.foreground t.background := by
  unfold Screen.color
  rw [h.foreground, h.background]

/-- Drawing cells of the screen at the places that change on the tape. -/
lemma Shows.placed (h : Shows s t) (tape : Nat → Cell) (hu : s.Draws u) (hle : pos ≤ 2000)
    (hcell : ∀ i, i < 2000 → u.cell i = tape (80 * t.top + i))
    (hbehind : u.cell 2000 = s.cell 2000) :
    Placed u pos { t with tape := tape, head := 80 * t.top + pos } :=
  ⟨hcell, rfl, hle, hbehind.trans h.behind, hu.foreground.trans h.foreground,
    hu.background.trans h.background⟩

/-- Spaces up to the next multiple of a width that divides the rows. -/
lemma Shows.advance (h : Shows s t) (width m : Nat) (hw : 0 < width) (hm : 80 = width * m) :
    Placed (s.pad s.cursor (width * (s.cursor / width + 1))) (width * (s.cursor / width + 1))
      (t.advance width) := by
  obtain ⟨hd, hcell⟩ := Screen.pad_spec s.cursor (width * (s.cursor / width + 1)) s
  have hp := h.onScreen
  have hnext : width * (t.head / width + 1) = 80 * t.top + width * (s.cursor / width + 1) := by
    rw [← h.cursor, hm, Nat.mul_assoc, Nat.mul_add_div hw, Nat.add_assoc, Nat.mul_add]
  have hle : width * (s.cursor / width + 1) ≤ 2000 := by
    have h25 : 2000 = width * (m * 25) := by rw [← Nat.mul_assoc, ← hm]
    rw [h25] at hp ⊢
    exact Nat.mul_le_mul_left _ (Nat.div_lt_of_lt_mul hp)
  unfold Terminal.advance
  rw [hnext]
  refine h.placed _ hd hle (fun i hi => ?_) ?_
  · rw [hcell, fill, h.cell i hi, h.color]
    have := h.cursor
    exact if_congr (by omega) rfl rfl
  · rw [hcell, if_neg (by omega)]

/-- The case of delete. -/
lemma Shows.delete (h : Shows s t) (hu : s.Draws u)
    (hcell : ∀ j, u.cell j =
      if s.cursor ≤ j ∧ j < s.cursor + (2000 - s.cursor) then s.cell (j + 1) else s.cell j) :
    Placed u s.cursor t.delete := by
  have hp := h.onScreen
  have hc := h.cursor
  have hplaced := h.placed t.delete.tape hu hp.le (fun i hi => ?_) ?_
  · rwa [hc] at hplaced
  · rw [hcell]
    unfold Terminal.delete Terminal.bottom
    dsimp only
    by_cases hi' : s.cursor ≤ i
    · rw [if_pos (by omega), if_pos (by omega)]
      by_cases hl : i + 1 = 2000
      · rw [if_pos (by omega), hl, h.behind]
      · rw [if_neg (by omega), h.cell _ (by omega), Nat.add_assoc]
    · rw [if_neg (by omega), if_neg (by omega), h.cell i hi]
  · rw [hcell, if_neg (by omega)]

/-- The first half of `write_char`, except for a backspace in the upper left corner. -/
lemma Shows.writeAt (h : Shows s t) (hb : c = 8 → s.cursor ≠ 0) :
    Placed (s.writeAt c s.cursor).2 (s.writeAt c s.cursor).1 (t.place c) := by
  have hp := h.onScreen
  have hc := h.cursor
  unfold Screen.writeAt Terminal.place
  by_cases h10 : c = 10
  · rw [if_pos h10, if_pos h10]
    have hA := h.advance 80 1 (by decide) rfl
    have hmod := Nat.mod_eq_of_lt (hA.le.trans_lt (show 2000 < 2 ^ 16 by decide))
    dsimp only [SCREEN_WIDTH]
    rwa [hmod]
  by_cases h9 : c = 9
  · rw [if_neg h10, if_neg h10, if_pos h9, if_pos h9]
    have hA := h.advance 4 20 (by decide) rfl
    have hmod := Nat.mod_eq_of_lt (hA.le.trans_lt (show 2000 < 2 ^ 16 by decide))
    dsimp only [TAB_WIDTH]
    rwa [hmod]
  rw [if_neg h10, if_neg h10, if_neg h9, if_neg h9]
  by_cases h8 : c = 8
  · rw [if_pos h8, if_pos h8]
    have h0 := hb h8
    have hprev : (s.cursor + (2 ^ 16 - 1)) % 2 ^ 16 = s.cursor - 1 := by omega
    have hhead : t.head - 1 = 80 * t.top + (s.cursor - 1) := by omega
    dsimp only
    rw [hprev, hhead]
    refine h.placed _ ⟨rfl, rfl, rfl⟩ (by omega) (fun i hi => ?_) ?_
    · rw [Screen.cell_putChar, Function.update_apply, h.cell i hi]
      exact if_congr (by omega) (congrArg (Prod.mk 32) h.color) rfl
    · rw [Screen.cell_putChar, if_neg (by omega)]
  rw [if_neg h8, if_neg h8]
  by_cases h127 : c = 127
  · rw [if_pos h127, if_pos h127]
    have hcell := Screen.cell_shiftBytes Nat.one_pos (2000 - s.cursor) s.cursor s
    have hcount : 2 * (2000 - s.cursor) = 2 * SCREEN_WIDTH * SCREEN_HEIGHT - 2 * s.cursor := by
      unfold SCREEN_WIDTH SCREEN_HEIGHT
      omega
    rw [hcount] at hcell
    exact h.delete ⟨rfl, rfl, rfl⟩ hcell
  · rw [if_neg h127, if_neg h127]
    have hnext : (s.cursor + 1) % 2 ^ 16 = s.cursor + 1 := Nat.mod_eq_of_lt (by omega)
    have hhead : t.head + 1 = 80 * t.top + (s.cursor + 1) := by omega
    dsimp only
    rw [hnext, hhead]
    refine h.placed _ ⟨rfl, rfl, rfl⟩ (by omega) (fun i hi => ?_) ?_
    · rw [Screen.cell_putChar, Function.update_apply, h.cell i hi]
      exact if_congr (by omega) (congrArg (Prod.mk c) h.color) rfl
    · rw [Screen.cell_putChar, if_neg (by omega)]

/-- The second half of `write_char`: the window follows. -/
lemma Placed.settle (h : Placed s pos t) :
    Shows (if pos = 2000 then s.scroll.setCursorPos (pos - 80) else s.setCursorPos pos)
      t.follow := by
  have hh := h.head
  have hle := h.le
  by_cases hpos : pos = 2000
  · -- the cursor has left the screen, which scrolls
    rw [if_pos hpos]
    obtain ⟨hd, hcell⟩ := Screen.scroll_spec s
    generalize s.scroll = u at hd hcell ⊢
    have htop : max t.top (t.head / 80 - 24) = t.top + 1 := by omega
    have hcursor := Screen.cursor_setCursorPos (show pos - 80 < 2 ^ 16 by omega) u
    have hcolor : s.color = colorByte t.foreground t.background := by
      unfold Screen.color
      rw [h.foreground, h.background]
    unfold Terminal.follow
    rw [htop]
    refine ⟨fun i hi => ?_, ?_, ?_, ?_, ?_, ?_⟩
    · dsimp only
      rw [Screen.cell_setCursorPos, hcell, fill]
      unfold Terminal.bottom
      by_cases hi' : i < 1920
      · rw [if_pos hi', if_neg (by omega), h.cell _ (by omega)]
        congr 1
        omega
      · rw [if_neg hi', if_pos hi, if_pos (by omega)]
        exact congrArg (Prod.mk 32) hcolor
    · rw [hcursor]
      dsimp only
      omega
    · rw [hcursor]
      omega
    · rw [Screen.cell_setCursorPos, hcell, if_neg (by decide), if_neg (by decide)]
      exact h.behind
    · rw [Screen.foreground_setCursorPos, hd.foreground, h.foreground]
    · rw [Screen.background_setCursorPos, hd.background, h.background]
  · rw [if_neg hpos]
    have htop : max t.top (t.head / 80 - 24) = t.top := by omega
    have hcursor := Screen.cursor_setCursorPos (show pos < 2 ^ 16 by omega) s
    unfold Terminal.follow
    rw [htop]
    refine ⟨fun i hi => ?_, ?_, ?_, ?_, ?_, ?_⟩
    · dsimp only
      rw [Screen.cell_setCursorPos, fill, h.cell i hi]
      unfold Terminal.bottom
      rw [if_neg (by omega)]
    · rw [hcursor, h.head]
    · rw [hcursor]
      omega
    · rw [Screen.cell_setCursorPos, h.behind]
    · rw [Screen.foreground_setCursorPos, h.foreground]
    · rw [Screen.background_setCursorPos, h.background]

/-- `write_char` does what the terminal does. -/
lemma Shows.writeChar (h : Shows s t) (hb : c = 8 → s.cursor ≠ 0) :
    Shows (s.writeChar c) (t.emit (.char c)) := by
  unfold Screen.writeChar Terminal.emit
  dsimp only
  by_cases h0 : c = 0
  · rw [if_pos h0, if_pos h0]
    exact h
  · have hsize : SCREEN_WIDTH * SCREEN_HEIGHT = 2000 := rfl
    rw [if_neg h0, if_neg h0, Screen.getCursorPos_snd, hsize]
    exact (h.writeAt hb).settle

/-- A backspace in the upper left corner takes the cursor off the screen. -/
lemma Screen.cursor_backspace (h : s.cursor = 0) : (s.writeChar 8).cursor = 2 ^ 16 - 1 := by
  have hpos : s.getCursorPos.1 = 0 := h
  have hsize : SCREEN_WIDTH * SCREEN_HEIGHT = 2000 := rfl
  have hat : ∃ u : Screen, s.writeAt 8 0 = (2 ^ 16 - 1, u) := ⟨_, rfl⟩
  obtain ⟨u, hat⟩ := hat
  unfold Screen.writeChar
  dsimp only
  rw [hpos, Screen.getCursorPos_snd, hat, hsize, if_neg (by decide), if_neg (by omega)]
  exact Screen.cursor_setCursorPos (by omega) u

/-- The head is put at `k`. -/
def Terminal.goTo (k : Nat) (t : Terminal) : Terminal := { t with head := k }

/-- The cursor is put somewhere on the screen. -/
lemma Shows.setCursorPos (h : Shows s t) (hp : pos < 2000) :
    Shows (s.setCursorPos pos) (t.goTo (80 * t.top + pos)) := by
  have hcursor := Screen.cursor_setCursorPos (show pos < 2 ^ 16 by omega) s
  refine ⟨fun i hi => ?_, ?_, ?_, ?_, ?_, ?_⟩
  · rw [Screen.cell_setCursorPos]
    exact h.cell i hi
  · rw [hcursor]
    rfl
  · rwa [hcursor]
  · rw [Screen.cell_setCursorPos]
    exact h.behind
  · rw [Screen.foreground_setCursorPos]
    exact h.foreground
  · rw [Screen.background_setCursorPos]
    exact h.background

/-- The window moves down by a row, and the head with it. -/
def Terminal.lower (t : Terminal) : Terminal :=
  { t with
    tape := fill t.blank t.bottom (t.bottom + 80) t.tape
    head := t.head + 80
    top := t.top + 1 }

/-- `scroll` on its own. -/
lemma Shows.scroll (h : Shows s t) : Shows s.scroll t.lower := by
  obtain ⟨hd, hcell⟩ := Screen.scroll_spec s
  have hcursor := Screen.cursor_congr hd.register
  have hc := h.cursor
  generalize s.scroll = u at *
  unfold Terminal.lower
  refine ⟨fun i hi => ?_, ?_, ?_, ?_, ?_, ?_⟩
  · dsimp only
    rw [hcell, fill]
    unfold Terminal.bottom
    by_cases hi' : i < 1920
    · rw [if_pos hi', if_neg (by omega), h.cell _ (by omega)]
      congr 1
      omega
    · rw [if_neg hi', if_pos hi, if_pos (by omega)]
      exact congrArg (Prod.mk 32) h.color
  · dsimp only
    rw [hcursor]
    omega
  · rw [hcursor]
    exact h.onScreen
  · rw [hcell, if_neg (by decide), if_neg (by decide), h.behind]
  · rw [hd.foreground, h.foreground]
  · rw [hd.background, h.background]

/-! ## Runs -/

lemma Screen.emits_concat (s : Screen) (os : List Output) (o : Output) :
    s.emits (os ++ [o]) = (s.emits os).emit o := List.foldl_concat ..

lemma Terminal.emits_concat (t : Terminal) (os : List Output) (o : Output) :
    t.emits (os ++ [o]) = (t.emits os).emit o := List.foldl_concat ..

/-- One thing that is sent, except for a backspace in the upper left corner. -/
lemma Shows.emit (h : Shows s t) (hb : o = .char 8 → s.cursor ≠ 0) :
    Shows (s.emit o) (t.emit o) := by
  cases o with
  | char c => exact h.writeChar fun h8 => hb (congrArg Output.char h8)
  | foreground color => exact ⟨h.cell, h.cursor, h.onScreen, h.behind, rfl, h.background⟩
  | background color => exact ⟨h.cell, h.cursor, h.onScreen, h.behind, h.foreground, rfl⟩

/-- No backspace is sent when the cursor is in the upper left corner. -/
def NoneAtTop (s : Screen) (os : List Output) : Prop :=
  ∀ pre, pre ++ [.char 8] <+: os → (s.emits pre).cursor ≠ 0

/-- What stays on the tape: the rows above the window, which does not move up. -/
structure Above (t u : Terminal) : Prop where
  tape : ∀ j, j < 80 * t.top → u.tape j = t.tape j
  top : t.top ≤ u.top

lemma Above.trans {v : Terminal} (h1 : Above t v) {w : Terminal} (h2 : Above v w) : Above t w :=
  ⟨fun j hj => (h2.tape j (hj.trans_le (Nat.mul_le_mul_left _ h1.top))).trans (h1.tape j hj),
    h1.top.trans h2.top⟩

lemma Shows.above_emit (h : Shows s t) (hb : o = .char 8 → s.cursor ≠ 0) :
    Above t (t.emit o) := by
  have hc := h.cursor
  cases o with
  | foreground color => exact ⟨fun _ _ => rfl, le_refl _⟩
  | background color => exact ⟨fun _ _ => rfl, le_refl _⟩
  | char c =>
    unfold Terminal.emit
    dsimp only
    by_cases h0 : c = 0
    · rw [if_pos h0]
      exact ⟨fun _ _ => rfl, le_refl _⟩
    rw [if_neg h0]
    have hplace : (t.place c).top = t.top ∧
        ∀ j, j < 80 * t.top → (t.place c).tape j = t.tape j := by
      unfold Terminal.place
      split_ifs with h10 h9 h8 h127
      · exact ⟨rfl, fun j hj => if_neg (by omega)⟩
      · exact ⟨rfl, fun j hj => if_neg (by omega)⟩
      · have := hb (congrArg Output.char h8)
        exact ⟨rfl, fun j hj => Function.update_of_ne (by omega) ..⟩
      · exact ⟨rfl, fun j hj => if_neg (by omega)⟩
      · exact ⟨rfl, fun j hj => Function.update_of_ne (by omega) ..⟩
    refine ⟨fun j hj => ?_, hplace.1 ▸ le_max_left _ _⟩
    rw [← hplace.2 j hj]
    refine if_neg fun hin => ?_
    have hbottom := hin.1
    unfold Terminal.bottom at hbottom
    omega

lemma NoneAtTop.shows (hb : NoneAtTop s os) (h : Shows s t) {pre : List Output} (hp : pre <+: os) :
    Shows (s.emits pre) (t.emits pre) ∧ Above t (t.emits pre) := by
  induction pre using List.reverseRecOn with
  | nil => exact ⟨h, fun _ _ => rfl, le_refl _⟩
  | append_singleton pre o ih =>
    obtain ⟨hs, ha⟩ := ih ((List.prefix_append pre [o]).trans hp)
    have hne : o = .char 8 → (s.emits pre).cursor ≠ 0 := fun ho => hb pre (by rwa [← ho])
    rw [Screen.emits_concat, Terminal.emits_concat]
    exact ⟨hs.emit hne, ha.trans (hs.above_emit hne)⟩

/-- The screen shows the window on the tape after everything that is sent, and what has left the
window stays on the tape, unless a backspace is sent when the cursor is in the upper left corner. -/
theorem emits_shows_iff (h : Shows s t) (os : List Output) :
    (∀ pre, pre <+: os → Shows (s.emits pre) (t.emits pre) ∧ Above t (t.emits pre)) ↔
      NoneAtTop s os := by
  constructor
  · intro hs pre hp htop
    have h2 := (hs _ hp).1.onScreen
    rw [Screen.emits_concat, Screen.emit, Screen.cursor_backspace htop] at h2
    omega
  · exact fun hb pre hp => hb.shows h hp

/-- The screen alone: a tape with nothing above. -/
def Screen.terminal (s : Screen) : Terminal where
  tape := s.cell
  head := s.cursor
  top := 0
  behind := s.cell 2000
  foreground := s.foreground
  background := s.background

lemma Screen.shows_terminal (h : s.cursor < 2000) : Shows s s.terminal where
  cell := fun i _ => congrArg s.cell (show i = 80 * 0 + i by omega)
  cursor := Nat.zero_add _
  onScreen := h
  behind := rfl
  foreground := rfl
  background := rfl

lemma blankScreen_shows : Shows blankScreen blankScreen.terminal :=
  Screen.shows_terminal (show blankScreen.cursor < 2000 by decide)

/-- The blank screen with the cursor in the lower right corner. -/
def cornerScreen : Screen := blankScreen.setCursorPos 1999

lemma cornerScreen_cursor : cornerScreen.cursor = 1999 := by decide +kernel

/-- A letter in the lower right corner, and the end of the line behind it, scroll the screen twice;
a backspace in the upper left corner is not what the terminal does. -/
theorem emits_shows_iff_corner :
    (cornerScreen.terminal.emits [.char 65, .char 10]).top = 2 ∧
    (∀ pre, pre <+: [.char 65, .char 10] →
        Shows (cornerScreen.emits pre) (cornerScreen.terminal.emits pre) ∧
          Above cornerScreen.terminal (cornerScreen.terminal.emits pre)) ∧
      ¬ ∀ pre, pre <+: [.char 8] →
        Shows (blankScreen.emits pre) (blankScreen.terminal.emits pre) ∧
          Above blankScreen.terminal (blankScreen.terminal.emits pre) := by
  have hcorner : Shows cornerScreen cornerScreen.terminal :=
    Screen.shows_terminal (cornerScreen_cursor ▸ by decide)
  refine ⟨by decide +kernel, ?_, fun h => ?_⟩
  · refine (emits_shows_iff hcorner [.char 65, .char 10]).mpr fun pre hp => ?_
    have hmem := hp.subset (List.mem_append_right _ (List.mem_singleton_self _))
    exact absurd hmem (by decide)
  · exact (emits_shows_iff blankScreen_shows [.char 8]).mp h [] (List.prefix_refl _) (by decide)

/-! ## Plain text -/

/-- A character that `write_char` writes as it is. -/
def Plain (c : UInt8) : Prop := c ≠ 0 ∧ c ≠ 10 ∧ c ≠ 9 ∧ c ≠ 8 ∧ c ≠ 127

instance : DecidablePred Plain := fun _ => inferInstanceAs (Decidable (_ ∧ _))

/-- The tape after a text, which stands where the head was. -/
structure Typed (t u : Terminal) (out : List UInt8) : Prop where
  head : u.head = t.head + out.length
  top : u.top = max t.top (u.head / 80 - 24)
  tape : ∀ j, u.tape j =
    if t.head ≤ j ∧ j < t.head + out.length then
      (out.getD (j - t.head) 0, colorByte t.foreground t.background)
    else if 80 * (t.top + 25) ≤ j ∧ j < 80 * (u.top + 25) then t.blank
    else t.tape j
  foreground : u.foreground = t.foreground
  background : u.background = t.background

/-- What such a character does to the tape. -/
lemma Terminal.emit_plain (hc : Plain c) :
    (t.emit (.char c)).head = t.head + 1 ∧
      (t.emit (.char c)).top = max t.top ((t.head + 1) / 80 - 24) ∧
      ∀ j, (t.emit (.char c)).tape j =
        if 80 * (t.top + 25) ≤ j ∧ j < 80 * ((t.emit (.char c)).top + 25) then t.blank
        else if j = t.head then (c, colorByte t.foreground t.background)
        else t.tape j := by
  obtain ⟨h0, h10, h9, h8, h127⟩ := hc
  have hplace : t.emit (.char c) = Terminal.follow
      { t with
        tape := Function.update t.tape t.head (c, colorByte t.foreground t.background)
        head := t.head + 1 } := by
    unfold Terminal.emit Terminal.place
    dsimp only
    rw [if_neg h0, if_neg h10, if_neg h9, if_neg h8, if_neg h127]
  rw [hplace]
  exact ⟨rfl, rfl, fun j => if_congr Iff.rfl rfl (Function.update_apply ..)⟩

/-- Above the last cell of the window, the window stays where it is. -/
lemma Terminal.emit_inside (hc : Plain c) (hlt : t.head + 1 < 80 * (t.top + 25)) :
    t.emit (.char c) =
      { t with
        tape := Function.update t.tape t.head (c, colorByte t.foreground t.background)
        head := t.head + 1 } := by
  have htop : max t.top ((t.head + 1) / 80 - 24) = t.top := by omega
  obtain ⟨h0, h10, h9, h8, h127⟩ := hc
  unfold Terminal.emit Terminal.place Terminal.follow
  dsimp only
  rw [if_neg h0, if_neg h10, if_neg h9, if_neg h8, if_neg h127]
  dsimp only
  rw [htop]
  congr 1
  funext j
  exact if_neg (by unfold Terminal.bottom; dsimp only; omega)

lemma Terminal.foreground_char : (t.emit (.char c)).foreground = t.foreground := by
  unfold Terminal.emit Terminal.place Terminal.follow Terminal.advance Terminal.delete
  dsimp only
  split_ifs <;> rfl

lemma Terminal.background_char : (t.emit (.char c)).background = t.background := by
  unfold Terminal.emit Terminal.place Terminal.follow Terminal.advance Terminal.delete
  dsimp only
  split_ifs <;> rfl

lemma Typed.nil (hh : t.head / 80 - 24 ≤ t.top) : Typed t t [] := by
  refine ⟨rfl, (max_eq_left hh).symm, fun j => ?_, rfl, rfl⟩
  rw [if_neg, if_neg]
  · exact fun h => absurd h.2 (Nat.not_lt.mpr h.1)
  · exact fun h => absurd h.2 (Nat.not_lt.mpr h.1)

/-- One character more. -/
lemma Typed.concat {out : List UInt8} {v : Terminal} (T : Typed t v out) (hc : Plain c) :
    Typed t (v.emit (.char c)) (out ++ [c]) := by
  have hh := T.head
  have ht := T.top
  have hcolor : colorByte v.foreground v.background = colorByte t.foreground t.background := by
    rw [T.foreground, T.background]
  have hblank : v.blank = t.blank := congrArg (Prod.mk 32) hcolor
  have hlen : (out ++ [c]).length = out.length + 1 := List.length_append
  obtain ⟨hhead, htop, htape⟩ := Terminal.emit_plain (t := v) hc
  refine ⟨by omega, by omega, fun j => ?_, ?_, ?_⟩
  · rw [htape, T.tape j, hcolor, hblank, hlen]
    by_cases hj : j = v.head
    · rw [if_neg (by omega), if_pos hj, if_pos (by omega), hj, hh, Nat.add_sub_cancel_left,
        List.getD_append_right _ _ _ _ (le_refl _), Nat.sub_self]
      rfl
    rw [if_neg hj]
    by_cases hin : t.head ≤ j ∧ j < t.head + out.length
    · rw [if_neg (by omega), if_pos hin, if_pos (by omega), List.getD_append _ _ _ _ (by omega)]
    rw [if_neg hin, if_neg (show ¬ (t.head ≤ j ∧ j < t.head + (out.length + 1)) by omega)]
    by_cases hn : 80 * (v.top + 25) ≤ j ∧ j < 80 * ((v.emit (.char c)).top + 25)
    · rw [if_pos hn, if_pos (by omega)]
    · rw [if_neg hn]
      exact if_congr (by omega) rfl rfl
  · rw [← T.foreground]
    exact Terminal.foreground_char
  · rw [← T.background]
    exact Terminal.background_char

/-- A text leaves its characters on the tape. -/
lemma Terminal.typed (hh : t.head / 80 - 24 ≤ t.top) {out : List UInt8} (hp : ∀ c ∈ out, Plain c) :
    Typed t (t.emits (out.map .char)) out := by
  induction out using List.reverseRecOn with
  | nil => exact .nil hh
  | append_singleton out c ih =>
    rw [List.map_append, List.map_singleton, Terminal.emits_concat]
    exact (ih fun d hd => hp d (List.mem_append_left _ hd)).concat
      (hp c (List.mem_append_right _ (List.mem_singleton_self c)))

lemma NoneAtTop.of_not_mem (h : Output.char 8 ∉ os) : NoneAtTop s os := fun _ hp =>
  absurd (hp.subset (List.mem_append_right _ (List.mem_singleton_self _))) h

/-- A text has no backspace. -/
lemma NoneAtTop.of_plain {out : List UInt8} (hp : ∀ c ∈ out, Plain c) :
    NoneAtTop s (out.map .char) := by
  refine .of_not_mem fun hm => ?_
  obtain ⟨c, hc, e⟩ := List.mem_map.mp hm
  cases e
  exact (hp 8 hc).2.2.2.1 rfl

/-- What the screen shows after a text of any length: its last lines. With `k` lines gone, the text
begins `80 * k` cells further up than the cursor was. -/
theorem writeString_shows (hs : s.cursor < 2000) {cs out : List UInt8}
    (hout : Strings.writeString cs = some out) (hp : ∀ c ∈ out, Plain c) :
    ∃ u k, s.writeString cs = some u ∧ k = (s.cursor + out.length) / 80 - 24 ∧
      u.cursor + 80 * k = s.cursor + out.length ∧ ∀ i, i < 2000 → u.cell i =
        if s.cursor ≤ i + 80 * k ∧ i + 80 * k < s.cursor + out.length then
          (out.getD (i + 80 * k - s.cursor) 0, s.color)
        else if i + 80 * k < 2000 then s.cell (i + 80 * k) else (32, s.color) := by
  have hhead : s.terminal.head = s.cursor := rfl
  have htop : s.terminal.top = 0 := rfl
  have htape : s.terminal.tape = s.cell := rfl
  have T := Terminal.typed (t := s.terminal) (by omega) hp
  obtain ⟨S, _⟩ := (NoneAtTop.of_plain hp).shows (Screen.shows_terminal hs) (List.prefix_refl _)
  refine ⟨_, _, congrArg (Option.map _) hout, rfl, ?_, fun i hi => ?_⟩
  · have := S.cursor
    have := T.head
    have := T.top
    dsimp only
    omega
  · have h1 := T.head
    have h2 := T.top
    have hk : (s.cursor + out.length) / 80 - 24 = (s.terminal.emits (out.map .char)).top := by omega
    dsimp only
    rw [hk, S.cell i hi, T.tape, hhead, htop, htape, Nat.add_comm (80 * _)]
    refine if_congr Iff.rfl rfl ?_
    by_cases hold : i + 80 * (s.terminal.emits (out.map .char)).top < 2000
    · rw [if_neg (by omega), if_pos hold]
    · rw [if_pos (by omega), if_neg hold]
      rfl

/-- A text that goes on behind the lower right corner: the screen has scrolled by one line. -/
theorem writeString_shows_hi : ∃ u, cornerScreen.writeString [72, 105] = some u ∧
    u.cursor = 1921 ∧ ∀ i, i < 2000 → u.cell i =
      if 1919 ≤ i ∧ i < 1921 then ([72, 105].getD (i - 1919) 0, cornerScreen.color)
      else if i < 1920 then cornerScreen.cell (i + 80) else (32, cornerScreen.color) := by
  obtain ⟨u, k, e, hk, hcursor, hcell⟩ := writeString_shows (s := cornerScreen)
    (cornerScreen_cursor ▸ by decide)
    (show Strings.writeString [72, 105] = some [72, 105] from rfl) (by simp [Plain])
  rw [cornerScreen_cursor] at hk hcursor hcell
  obtain rfl : k = 1 := hk
  refine ⟨u, e, Nat.add_right_cancel hcursor, fun i hi => ?_⟩
  rw [hcell i hi]
  have hsub : i + 80 * 1 - 1999 = i - 1919 := by omega
  have htext : 1999 ≤ i + 80 * 1 ∧ i + 80 * 1 < 1999 + 2 ↔ 1919 ≤ i ∧ i < 1921 := by omega
  exact if_congr htext (by rw [hsub]) (if_congr (by omega) rfl rfl)

end MarioBrOS.Printer
