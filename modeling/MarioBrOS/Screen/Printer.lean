import MarioBrOS.Lib.Bytes
import Mathlib.Logic.Function.Basic

/-!
# The screen

The functions of `printer.c` that write to the VGA framebuffer and move its cursor. The position of
the cursor is in two registers of the controller, behind an address register and a data register.
Every operation is described cell by cell.
-/

namespace MarioBrOS.Printer

/-- `printer.h`, `SCREEN_WIDTH`. -/
def SCREEN_WIDTH : Nat := 80

/-- `printer.h`, `SCREEN_HEIGHT`. -/
def SCREEN_HEIGHT : Nat := 25

/-- `printer.h`, `TAB_WIDTH`. -/
def TAB_WIDTH : Nat := 4

/-- `printer.h`, the ports of the controller. -/
inductive VgaPort where
  | ADDRESS_REG
  | DATA_REG

/-- `printer.h`, `CURSOR_HIGH_BYTE`. -/
def CURSOR_HIGH_BYTE : UInt8 := 0x0E

/-- `printer.h`, `CURSOR_LOW_BYTE`. -/
def CURSOR_LOW_BYTE : UInt8 := 0x0F

/-- The memory from `FRAMEBUFFER_LOCATION` on, the registers of the controller, and the colors that
`printer.c` keeps. -/
structure Screen where
  framebuffer : Bytes
  address : UInt8
  register : UInt8 → UInt8
  foreground : Nat
  background : Nat

/-- The second byte of a cell. -/
def colorByte (fg bg : Nat) : UInt8 := UInt8.ofNat (((bg &&& 0x0F) <<< 4) ||| (fg &&& 0x0F))

/-- The loops of `scroll` and of delete: each of the `n` bytes from `i` on becomes the one that
stands `gap` further. -/
def shiftBytes (gap : Nat) : Nat → Nat → Bytes → Bytes
  | 0, _, m => m
  | n + 1, i, m => shiftBytes gap n (i + 1) (Function.update m i (m (i + gap)))

namespace Screen

/-- `io.c`, `inb`, from the controller. -/
def inb (port : VgaPort) (s : Screen) : UInt8 :=
  match port with
  | .ADDRESS_REG => s.address
  | .DATA_REG => s.register s.address

/-- `io.c`, `outb`, to the controller. -/
def outb (port : VgaPort) (data : UInt8) (s : Screen) : Screen :=
  match port with
  | .ADDRESS_REG => { s with address := data }
  | .DATA_REG => { s with register := Function.update s.register s.address data }

/-- `printer.c`, `put_char`. -/
def putChar (i : Nat) (c : UInt8) (fg bg : Nat) (s : Screen) : Screen :=
  { s with
    framebuffer :=
      Function.update (Function.update s.framebuffer (2 * i) c) (2 * i + 1) (colorByte fg bg) }

/-- `printer.c`, `get_cursor_pos`. -/
def getCursorPos (s : Screen) : Nat × Screen :=
  let temp := s.inb .ADDRESS_REG
  let s := s.outb .ADDRESS_REG CURSOR_HIGH_BYTE
  let higherByte := s.inb .DATA_REG
  let s := s.outb .ADDRESS_REG CURSOR_LOW_BYTE
  let lowerByte := s.inb .DATA_REG
  ((higherByte.toNat <<< 8) ||| lowerByte.toNat, s.outb .ADDRESS_REG temp)

/-- `printer.c`, `set_cursor_pos`. -/
def setCursorPos (pos : Nat) (s : Screen) : Screen :=
  let s := s.outb .ADDRESS_REG CURSOR_HIGH_BYTE
  let s := s.outb .DATA_REG (UInt8.ofNat ((pos >>> 8) &&& 0x00FF))
  let s := s.outb .ADDRESS_REG CURSOR_LOW_BYTE
  s.outb .DATA_REG (UInt8.ofNat (pos &&& 0x00FF))

/-- The loop of `pad`: `n` spaces from `i` on. -/
def padLoop : Nat → Nat → Screen → Screen
  | 0, _, s => s
  | n + 1, i, s => padLoop n (i + 1) (s.putChar i 32 s.foreground s.background)

/-- `printer.c`, `pad`. -/
def pad (cursorPos toPad : Nat) (s : Screen) : Screen := padLoop (toPad - cursorPos) cursorPos s

/-- `printer.c`, `clear`. -/
def clear (s : Screen) : Screen := (s.pad 0 (SCREEN_WIDTH * SCREEN_HEIGHT)).setCursorPos 0

/-- `printer.c`, `scroll`. -/
def scroll (s : Screen) : Screen :=
  let lastLine := SCREEN_WIDTH * (SCREEN_HEIGHT - 1)
  let s := { s with
    framebuffer := shiftBytes (2 * SCREEN_WIDTH) (2 * lastLine) 0 s.framebuffer }
  s.pad lastLine (lastLine + SCREEN_WIDTH)

/-- The cases of `write_char`, with the new position. -/
def writeAt (c : UInt8) (cursorPos : Nat) (s : Screen) : Nat × Screen :=
  if c = 10 then
    let toPad := SCREEN_WIDTH * (cursorPos / SCREEN_WIDTH + 1) % 2 ^ 16
    (toPad, s.pad cursorPos toPad)
  else if c = 9 then
    let toPad := TAB_WIDTH * (cursorPos / TAB_WIDTH + 1) % 2 ^ 16
    (toPad, s.pad cursorPos toPad)
  else if c = 8 then
    let cursorPos := (cursorPos + (2 ^ 16 - 1)) % 2 ^ 16
    (cursorPos, s.putChar cursorPos 32 s.foreground s.background)
  else if c = 127 then
    let n := 2 * SCREEN_WIDTH * SCREEN_HEIGHT - 2 * cursorPos
    (cursorPos, { s with framebuffer := shiftBytes 2 n (2 * cursorPos) s.framebuffer })
  else
    ((cursorPos + 1) % 2 ^ 16, s.putChar cursorPos c s.foreground s.background)

/-- `printer.c`, `write_char`. -/
def writeChar (c : UInt8) (s : Screen) : Screen :=
  let r := s.getCursorPos
  if c = 0 then r.2
  else
    let r := r.2.writeAt c r.1
    if r.1 = SCREEN_WIDTH * SCREEN_HEIGHT then r.2.scroll.setCursorPos (r.1 - SCREEN_WIDTH)
    else r.2.setCursorPos r.1

/-- The character at a position and its colors. -/
def cell (s : Screen) (i : Nat) : UInt8 × UInt8 :=
  (s.framebuffer (2 * i), s.framebuffer (2 * i + 1))

/-- The position of the cursor. -/
def cursor (s : Screen) : Nat := s.getCursorPos.1

/-- The colors of what is written next. -/
def color (s : Screen) : UInt8 := colorByte s.foreground s.background

variable {s : Screen} {c : UInt8} {i j k n pos : Nat}

/-! ## The cursor -/

/-- Reading the position leaves the address register as it was. -/
lemma getCursorPos_snd (s : Screen) : s.getCursorPos.2 = s := rfl

lemma cursor_eq (s : Screen) :
    s.cursor = (s.register 0x0E).toNat * 2 ^ 8 + (s.register 0x0F).toNat := by
  have hlt : (s.register 0x0F).toNat < 2 ^ 8 := UInt8.toNat_lt _
  rw [← Nat.shiftLeft_eq, Nat.shiftLeft_add_eq_or_of_lt hlt]
  rfl

lemma cursor_congr {s t : Screen} (h : t.register = s.register) : t.cursor = s.cursor := by
  rw [cursor_eq, cursor_eq, h]

/-- The position that was set is the one that is read. -/
lemma cursor_setCursorPos (h : pos < 2 ^ 16) (s : Screen) : (s.setCursorPos pos).cursor = pos := by
  have hhigh : (s.setCursorPos pos).register 0x0E = UInt8.ofNat (pos >>> 8 &&& 0x00FF) := rfl
  have hlow : (s.setCursorPos pos).register 0x0F = UInt8.ofNat (pos &&& 0x00FF) := rfl
  have h1 : pos >>> 8 &&& 0x00FF = pos / 2 ^ 8 := by
    rw [Nat.shiftRight_eq_div_pow, Nat.and_two_pow_sub_one_eq_mod _ 8]
    exact Nat.mod_eq_of_lt (by omega)
  have h2 : pos &&& 0x00FF = pos % 2 ^ 8 := Nat.and_two_pow_sub_one_eq_mod _ 8
  rw [cursor_eq, hhigh, hlow, h1, h2, UInt8.toNat_ofNat', UInt8.toNat_ofNat']
  omega

lemma cell_setCursorPos (pos : Nat) (s : Screen) : (s.setCursorPos pos).cell i = s.cell i := rfl

lemma foreground_setCursorPos (pos : Nat) (s : Screen) :
    (s.setCursorPos pos).foreground = s.foreground := rfl

lemma background_setCursorPos (pos : Nat) (s : Screen) :
    (s.setCursorPos pos).background = s.background := rfl

/-! ## The cells -/

lemma cell_putChar (i : Nat) (c : UInt8) (fg bg : Nat) (s : Screen) (j : Nat) :
    (s.putChar i c fg bg).cell j = if j = i then (c, colorByte fg bg) else s.cell j := by
  unfold cell putChar
  dsimp only
  by_cases h : j = i
  · subst h
    rw [if_pos rfl, Function.update_of_ne (by omega), Function.update_self, Function.update_self]
  · rw [if_neg h, Function.update_of_ne (by omega), Function.update_of_ne (by omega),
      Function.update_of_ne (by omega), Function.update_of_ne (by omega)]

/-- Two screens that differ in the framebuffer only. -/
structure Draws (s t : Screen) : Prop where
  register : t.register = s.register
  foreground : t.foreground = s.foreground
  background : t.background = s.background

lemma Draws.refl (s : Screen) : Draws s s := ⟨rfl, rfl, rfl⟩

lemma Draws.trans {s t u : Screen} (h1 : Draws s t) (h2 : Draws t u) : Draws s u :=
  ⟨h2.1.trans h1.1, h2.2.trans h1.2, h2.3.trans h1.3⟩

lemma Draws.color {s t : Screen} (h : Draws s t) : t.color = s.color := by
  unfold Screen.color
  rw [h.foreground, h.background]

lemma padLoop_spec (n i : Nat) (s : Screen) : Draws s (padLoop n i s) ∧
    ∀ j, (padLoop n i s).cell j =
      if i ≤ j ∧ j < i + n then (32, s.color) else s.cell j := by
  induction n generalizing i s with
  | zero => exact ⟨Draws.refl s, fun j => (if_neg (by omega)).symm⟩
  | succ n ih =>
    obtain ⟨h, hcell⟩ := ih (i + 1) (s.putChar i 32 s.foreground s.background)
    have hput : Draws s (s.putChar i 32 s.foreground s.background) := ⟨rfl, rfl, rfl⟩
    refine ⟨hput.trans h, fun j => ?_⟩
    rw [padLoop, hcell, cell_putChar]
    by_cases hj : j = i
    · rw [if_neg (by omega), if_pos hj, if_pos (by omega)]
      rfl
    · rw [if_neg hj]
      exact if_congr (by omega) rfl rfl

/-- `pad` writes spaces from the first position up to the second. -/
lemma pad_spec (i k : Nat) (s : Screen) : Draws s (s.pad i k) ∧ ∀ j, (s.pad i k).cell j =
    if i ≤ j ∧ j < k then (32, s.color) else s.cell j := by
  obtain ⟨h, hcell⟩ := padLoop_spec (k - i) i s
  exact ⟨h, fun j => (hcell j).trans (if_congr (by omega) rfl rfl)⟩

/-- The loop goes up, so each byte is read before it is written. -/
lemma shiftBytes_apply {gap : Nat} (hg : 0 < gap) (n i : Nat) (m : Bytes) (x : Nat) :
    shiftBytes gap n i m x = if i ≤ x ∧ x < i + n then m (x + gap) else m x := by
  induction n generalizing i m with
  | zero => exact (if_neg (by omega)).symm
  | succ n ih =>
    rw [shiftBytes, ih]
    by_cases hx : x = i
    · rw [if_neg (by omega), if_pos (by omega), hx, Function.update_self]
    · rw [Function.update_of_ne hx]
      by_cases h : i + 1 ≤ x ∧ x < i + 1 + n
      · rw [if_pos h, if_pos (by omega), Function.update_of_ne (by omega)]
      · rw [if_neg h, if_neg (by omega)]

/-- Whole cells move. -/
lemma cell_shiftBytes {gap : Nat} (hg : 0 < gap) (n i : Nat) (s : Screen) (j : Nat) :
    cell { s with framebuffer := shiftBytes (2 * gap) (2 * n) (2 * i) s.framebuffer } j =
      if i ≤ j ∧ j < i + n then s.cell (j + gap) else s.cell j := by
  unfold cell
  dsimp only
  rw [shiftBytes_apply (by omega), shiftBytes_apply (by omega)]
  by_cases h : i ≤ j ∧ j < i + n
  · rw [if_pos (by omega), if_pos (by omega), if_pos h, Nat.mul_add, Nat.add_right_comm]
  · rw [if_neg (by omega), if_neg (by omega), if_neg h]

lemma scroll_eq (s : Screen) : ∃ t, s.scroll = t.pad 1920 2000 ∧ Draws s t ∧ ∀ j, t.cell j =
    if 0 ≤ j ∧ j < 0 + 1920 then s.cell (j + 80) else s.cell j := by
  have h1 : SCREEN_WIDTH * (SCREEN_HEIGHT - 1) = 1920 := rfl
  have h2 : 1920 + SCREEN_WIDTH = 2000 := rfl
  refine ⟨_, ?_, ?_, cell_shiftBytes (show 0 < 80 by decide) 1920 0 s⟩
  · unfold scroll
    dsimp only
    rw [h1, h2]
    rfl
  · exact ⟨rfl, rfl, rfl⟩

/-- `scroll` moves the rows up by one and clears the last one. -/
lemma scroll_spec (s : Screen) : Draws s s.scroll ∧ ∀ j, s.scroll.cell j =
    if j < 1920 then s.cell (j + 80) else if j < 2000 then (32, s.color) else s.cell j := by
  obtain ⟨t, e, ht, hshift⟩ := scroll_eq s
  obtain ⟨h, hcell⟩ := pad_spec 1920 2000 t
  rw [e]
  refine ⟨ht.trans h, fun j => (hcell j).trans ?_⟩
  rw [hshift, ht.color]
  by_cases h1 : j < 1920
  · rw [if_neg (by omega), if_pos (by omega), if_pos h1]
  · by_cases h2 : j < 2000
    · rw [if_pos (by omega), if_neg h1, if_pos h2]
    · rw [if_neg (by omega), if_neg (by omega), if_neg h1, if_neg h2]

/-- `clear` leaves spaces, and the cursor in the upper left corner. -/
lemma clear_spec (s : Screen) : s.clear.cursor = 0 ∧ s.clear.color = s.color ∧
    ∀ j, s.clear.cell j = if j < 2000 then (32, s.color) else s.cell j := by
  obtain ⟨h, hcell⟩ := pad_spec 0 2000 s
  have hset : ∀ u, s.Draws u → (u.setCursorPos 0).cursor = 0 ∧ (u.setCursorPos 0).color = s.color :=
    fun u hu => ⟨cursor_setCursorPos (by decide) u, hu.color⟩
  have e : s.clear = (s.pad 0 2000).setCursorPos 0 := by
    have hsize : SCREEN_WIDTH * SCREEN_HEIGHT = 2000 := rfl
    unfold clear
    rw [hsize]
  rw [e]
  refine ⟨(hset _ h).1, (hset _ h).2, fun j => ?_⟩
  rw [cell_setCursorPos, hcell]
  exact if_congr (and_iff_right (Nat.zero_le j)) rfl rfl

end Screen

/-- The screen when nothing has been written. -/
def blankScreen : Screen where
  framebuffer := fun _ => 0
  address := 0
  register := fun _ => 0
  foreground := 15
  background := 0

end MarioBrOS.Printer
