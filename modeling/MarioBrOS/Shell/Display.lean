import MarioBrOS.Screen.Terminal
import MarioBrOS.Shell.Editor

/-!
# What the line editor shows

Every key that changes the line redraws it from `start_of_command` on: as many spaces as the line
has been long, then the text, with its first word in another color. When the line reaches the end
of the screen the shell scrolls by one row. The screen then shows the line and the cursor after
every key, and what stood above it has only moved up (`line_displayed`), as long as one row is
enough for a line that is recalled.
-/

namespace MarioBrOS.Shell

open Printer
open Strings (readString)

/-- `printer.h`, the colors of the shell. -/
def Green : Nat := 2

/-- `printer.h`, `LightBlue`. -/
def LightBlue : Nat := 9

/-- `printer.h`, `LightRed`. -/
def LightRed : Nat := 12

/-- `printer.h`, `White`. -/
def White : Nat := 15

/-- The line editor with the screen, and the globals of `shell.c` about what is shown. -/
structure Console where
  shell : Shell
  screen : Screen
  startOfCommand : Nat
  maxLength : Nat
  blankCommand : Bytes

namespace Console

/-- `shell.c`, `set_pos`. -/
def setPos (x : Console) : Console :=
  { x with screen := x.screen.setCursorPos ((x.startOfCommand + x.shell.pos) % 2 ^ 16) }

/-- `shell.c`, `update_max_length`. -/
def updateMaxLength (x : Console) : Console :=
  if x.shell.length > x.maxLength then { x with maxLength := x.shell.length } else x

/-- The statement of `shell_write_char`, `shell_up` and `shell_down` that scrolls. -/
def scrollLine (x : Console) : Console :=
  if x.startOfCommand + x.shell.length ≥ SCREEN_HEIGHT * SCREEN_WIDTH then
    { x with
      screen := x.screen.scroll
      startOfCommand := (x.startOfCommand + (2 ^ 16 - SCREEN_WIDTH)) % 2 ^ 16 }
  else x

end Console

/-- What `echo_command` sends for the text of a line: the first word is in color. -/
def echoOutputs : Nat → List UInt8 → List Output
  | _, [] => []
  | state, c :: cs =>
    if state = 0 ∧ c ≠ 32 then .foreground LightRed :: .char c :: echoOutputs 1 cs
    else if state = 1 ∧ c = 32 then .foreground White :: .char c :: echoOutputs 2 cs
    else .char c :: echoOutputs state cs

namespace Console

/-- `shell.c`, `echo_command`. -/
def echoCommand (x : Console) : Option Console := do
  let screen := x.screen.setCursorPos x.startOfCommand
  let blank := Function.update x.blankCommand x.maxLength 0
  let spaces ← readString blank BUFFER_SIZE 0
  let screen ← screen.writeString spaces
  let blank := Function.update blank x.maxLength 32
  let screen := screen.setCursorPos x.startOfCommand
  let cs ← readString x.shell.current BUFFER_SIZE 0
  let screen := (screen.emits (echoOutputs 0 cs)).emit (.foreground White)
  some { x with screen := screen, blankCommand := blank }.setPos

/-- `shell.c`, `shell_write_char`, except for enter. -/
def shellWriteChar (c : UInt8) (x : Console) : Option Console :=
  if c = 0 then some x
  else if c = 9 then some x
  else if c = 8 then
    if 0 < x.shell.pos then
      { x with shell := deleteChar { x.shell with pos := x.shell.pos - 1 } }.echoCommand
    else some x
  else if c = 127 then { x with shell := deleteChar x.shell }.echoCommand
  else if x.shell.length < BUFFER_SIZE - 1 then
    { x with shell := insertChar c x.shell }.updateMaxLength.scrollLine.echoCommand
  else x.echoCommand

/-- Shows the line that was recalled. -/
def showLine (i : Nat) (x : Console) : Option Console :=
  (goTo i x.shell).bind fun s => { x with shell := s }.updateMaxLength.scrollLine.echoCommand

/-- A key other than enter. -/
def press (key : Key) (x : Console) : Option Console :=
  match key with
  | .char c => x.shellWriteChar c
  | .home => some { x with shell := shellHome x.shell }.setPos
  | .toEnd => some { x with shell := shellEnd x.shell }.setPos
  | .up => if 0 < x.shell.historyPos then x.showLine (x.shell.historyPos - 1) else some x
  | .down =>
    if x.shell.historyPos < x.shell.historyLength then x.showLine (x.shell.historyPos + 1)
    else some x
  | .left => some { x with shell := shellLeft x.shell }.setPos
  | .right => some { x with shell := shellRight x.shell }.setPos

end Console

/-- `shell.c`, `user`. -/
def user : List UInt8 := "TimPouzet".toUTF8.toList

/-- `shell.c`, `machine`. -/
def machine : List UInt8 := "MarioBrOS".toUTF8.toList

/-- `shell.c`, `echo_thingy`; `path` are the characters sent for the path. -/
def echoThingy (path : List UInt8) : List Output :=
  [.foreground Green] ++ user.map .char ++ [.char 64] ++ machine.map .char ++ [.char 58] ++
    [.foreground LightBlue] ++ path.map .char ++ [.foreground White] ++ [.char 36, .char 32]

namespace Console

/-- Enter, and the end of the command. `out` is what the command sends to the screen. -/
def enter (fresh : Nat) (out : List Output) (path : List UInt8) (x : Console) : Option Console := do
  let screen := x.screen.setCursorPos ((x.startOfCommand + x.shell.length) % 2 ^ 16)
  let screen := screen.emits ([.char 10] ++ out ++ echoThingy path)
  let shell ← finalizeCommand fresh x.shell
  some
    { x with shell := shell, screen := screen, startOfCommand := screen.cursor, maxLength := 0 }

/-- The part of `shell_install` about the line, after the first prompt. -/
def install (memory : Nat → Bytes) (first : Nat) (screen : Screen) : Console where
  shell := shellInstall memory first
  screen := screen
  startOfCommand := screen.cursor
  maxLength := 0
  blankCommand := fun i => if i = 0 then 32 else 0

end Console

/-! ## What is to be shown -/

/-- The cells of a line: its first word is in color. -/
def commandCells (bg : Nat) (cs : List UInt8) : List Cell :=
  let word := cs.dropWhile (· = 32)
  (cs.takeWhile (· = 32)).map (·, colorByte White bg) ++
    (word.takeWhile (· ≠ 32)).map (·, colorByte LightRed bg) ++
    (word.dropWhile (· ≠ 32)).map (·, colorByte White bg)

/-- The screen shows the line from `start_of_command` on, then spaces as far as it has been long,
and the cursor. -/
structure LineShown (x : Console) : Prop where
  room : x.startOfCommand + x.maxLength < 2000
  length : (line x.shell.current).length ≤ x.maxLength
  cell : ∀ i, i < x.maxLength → x.screen.cell (x.startOfCommand + i) =
    (commandCells x.screen.background (line x.shell.current)).getD i
      (32, colorByte White x.screen.background)
  cursor : x.screen.cursor = x.startOfCommand + x.shell.pos

/-- What stands before the line has moved up with it. -/
def MovedUp (x y : Console) : Prop :=
  ∃ k, y.startOfCommand + 80 * k = x.startOfCommand ∧
    ∀ j, j < y.startOfCommand → y.screen.cell j = x.screen.cell (j + 80 * k)

/-- A key, or enter with what the command sends to the screen. -/
inductive ConsoleEvent where
  | key (key : Key)
  | enter (out : List Output) (path : List UInt8)

/-- What happens at a console. -/
inductive ConsoleStep : Console → ConsoleEvent → Console → Prop where
  | key {x y key} : key ≠ .char 10 → x.press key = some y → ConsoleStep x (.key key) y
  | enter {x y fresh out path} : NotInUse x.shell fresh → x.enter fresh out path = some y →
    ConsoleStep x (.enter out path) y

/-- One row is enough for the line `i`. -/
def Fits (x : Console) (i : Nat) : Prop :=
  x.startOfCommand + (line (x.shell.bufferAt i)).length < 2080

/-- The terminator is not lost, and a line that is recalled fits; nothing sends a backspace in the
upper left corner. -/
def ConsoleOk (x : Console) : ConsoleEvent → Prop
  | .key key => KeyOk x.shell key ∧
    (key = .up → 0 < x.shell.historyPos → Fits x (x.shell.historyPos - 1)) ∧
    (key = .down → x.shell.historyPos < x.shell.historyLength → Fits x (x.shell.historyPos + 1))
  | .enter out path =>
    NoneAtTop (x.screen.setCursorPos ((x.startOfCommand + x.shell.length) % 2 ^ 16))
      ([.char 10] ++ out ++ echoThingy path)

variable {x y : Console} {t u : Terminal} {c : UInt8} {cs path : List UInt8}
  {out : List Output} {key : Key}
  {bg fg state i k m n origin fresh : Nat}

/-! ## The text in color -/

/-- The cells that `echoOutputs` fills, in the color `fg` to begin with. -/
def echoCells (bg : Nat) : Nat → Nat → List UInt8 → List Cell
  | _, _, [] => []
  | fg, state, c :: cs =>
    if state = 0 ∧ c ≠ 32 then (c, colorByte LightRed bg) :: echoCells bg LightRed 1 cs
    else if state = 1 ∧ c = 32 then (c, colorByte White bg) :: echoCells bg White 2 cs
    else (c, colorByte fg bg) :: echoCells bg fg state cs

lemma echoCells_rest (bg fg : Nat) (cs : List UInt8) :
    echoCells bg fg 2 cs = cs.map (·, colorByte fg bg) := by
  induction cs with
  | nil => rfl
  | cons c cs ih =>
    rw [echoCells, if_neg (fun h => absurd h.1 (by decide)),
      if_neg (fun h => absurd h.1 (by decide)), ih, List.map_cons]

lemma echoCells_word (bg : Nat) (cs : List UInt8) : echoCells bg LightRed 1 cs =
    (cs.takeWhile (· ≠ 32)).map (·, colorByte LightRed bg) ++
      (cs.dropWhile (· ≠ 32)).map (·, colorByte White bg) := by
  induction cs with
  | nil => rfl
  | cons c cs ih =>
    rw [echoCells, if_neg (fun h => absurd h.1 (by decide))]
    by_cases hc : c = 32
    · rw [if_pos ⟨rfl, hc⟩, echoCells_rest, List.takeWhile_cons_of_neg (by simpa using hc),
        List.dropWhile_cons_of_neg (by simpa using hc)]
      rfl
    · rw [if_neg (fun h => hc h.2), ih, List.takeWhile_cons_of_pos (by simpa using hc),
        List.dropWhile_cons_of_pos (by simpa using hc)]
      rfl

/-- The first word is in color. -/
lemma echoCells_eq (bg : Nat) (cs : List UInt8) :
    echoCells bg White 0 cs = commandCells bg cs := by
  unfold commandCells
  dsimp only
  induction cs with
  | nil => rfl
  | cons c cs ih =>
    rw [echoCells]
    by_cases hc : c = 32
    · rw [if_neg (fun h => h.2 hc), if_neg (fun h => absurd h.1 (by decide)), ih,
        List.takeWhile_cons_of_pos (by simpa using hc),
        List.dropWhile_cons_of_pos (by simpa using hc)]
      rfl
    · rw [if_pos ⟨rfl, hc⟩, echoCells_word, List.takeWhile_cons_of_neg (by simpa using hc),
        List.dropWhile_cons_of_neg (by simpa using hc),
        List.takeWhile_cons_of_pos (by simpa using hc),
        List.dropWhile_cons_of_pos (by simpa using hc)]
      rfl

lemma echoCells_length (bg fg state : Nat) (cs : List UInt8) :
    (echoCells bg fg state cs).length = cs.length := by
  induction cs generalizing fg state with
  | nil => rfl
  | cons c cs ih =>
    rw [echoCells]
    split_ifs <;> rw [List.length_cons, List.length_cons, ih]

/-- Between `t` and `u`, cells of the window have been filled from the head on. -/
structure Wrote (t u : Terminal) (cells : List Cell) : Prop where
  head : u.head = t.head + cells.length
  top : u.top = t.top
  background : u.background = t.background
  tape : ∀ j, u.tape j =
    if t.head ≤ j ∧ j < t.head + cells.length then cells.getD (j - t.head) (0, 0) else t.tape j

lemma Wrote.nil (t : Terminal) : Wrote t t [] :=
  ⟨rfl, rfl, rfl, fun _ => (if_neg fun h => absurd h.2 (Nat.not_lt.mpr h.1)).symm⟩

/-- One cell before the others. -/
lemma Wrote.cons {cells : List Cell} {a : Cell}
    (h : Wrote { t with tape := Function.update t.tape t.head a, head := t.head + 1 } u cells) :
    Wrote t u (a :: cells) := by
  have hh := h.head
  refine ⟨?_, h.top, h.background, fun j => ?_⟩
  · rw [hh, List.length_cons]
    dsimp only
    omega
  · rw [h.tape, List.length_cons]
    dsimp only
    by_cases hj : j = t.head
    · rw [if_neg (by omega), if_pos (by omega), hj, Function.update_self, Nat.sub_self]
      rfl
    · rw [Function.update_of_ne hj]
      by_cases hin : t.head + 1 ≤ j ∧ j < t.head + 1 + cells.length
      · rw [if_pos hin, if_pos (by omega)]
        obtain ⟨d, rfl⟩ := Nat.exists_eq_add_of_le hin.1
        rw [Nat.add_sub_cancel_left, Nat.add_assoc, Nat.add_sub_cancel_left, Nat.add_comm 1]
        rfl
      · rw [if_neg hin, if_neg (by omega)]

/-- A change of the foreground is not seen. -/
lemma Wrote.foreground {cells : List Cell} (h : Wrote { t with foreground := fg } u cells) :
    Wrote t u cells :=
  ⟨h.head, h.top, h.background, h.tape⟩

/-- The text is written inside the window. -/
lemma echoOutputs_wrote (hp : ∀ c ∈ cs, Plain c) (hlt : t.head + cs.length < 80 * (t.top + 25))
    (state : Nat) :
    Wrote t (t.emits (echoOutputs state cs)) (echoCells t.background t.foreground state cs) := by
  induction cs generalizing t state with
  | nil => exact .nil t
  | cons c cs ih =>
    have hc := hp c List.mem_cons_self
    have hcs : ∀ d ∈ cs, Plain d := fun d hd => hp d (List.mem_cons_of_mem _ hd)
    rw [List.length_cons] at hlt
    -- a character, when the color has been set
    have hput : ∀ fg s, Wrote t
        (({ t with foreground := fg }.emit (.char c)).emits (echoOutputs s cs))
        ((c, colorByte fg t.background) :: echoCells t.background fg s cs) := by
      intro fg s
      rw [Terminal.emit_inside hc (by dsimp only; omega)]
      exact (Wrote.cons (t := { t with foreground := fg })
        (ih hcs (by dsimp only; omega) s)).foreground
    rw [echoOutputs, echoCells]
    split_ifs
    · exact hput LightRed 1
    · exact hput White 2
    · exact hput t.foreground state

lemma backspace_not_mem_echoOutputs (hp : ∀ c ∈ cs, Plain c) (state : Nat) :
    Output.char 8 ∉ echoOutputs state cs := by
  induction cs generalizing state with
  | nil => exact List.not_mem_nil
  | cons c cs ih =>
    have hc : Output.char 8 ≠ .char c := by
      rintro ⟨⟩
      exact (hp 8 List.mem_cons_self).2.2.2.1 rfl
    have hcs := ih fun d hd => hp d (List.mem_cons_of_mem _ hd)
    rw [echoOutputs]
    split_ifs
    · simp only [List.mem_cons, reduceCtorEq, false_or, not_or]
      exact ⟨hc, hcs 1⟩
    · simp only [List.mem_cons, reduceCtorEq, false_or, not_or]
      exact ⟨hc, hcs 2⟩
    · exact List.not_mem_cons_of_ne_of_not_mem hc (hcs state)

/-! ## The line drawn again -/

/-- What `echo_command` needs, with the line at `origin` on the tape. -/
structure Ready (x : Console) (t : Terminal) (origin : Nat) : Prop where
  tidy : Tidy x.shell
  ok : EditorOk x.shell
  plain : ∀ c ∈ line x.shell.current, Plain c
  shows : Printer.Shows x.screen t
  start : 80 * t.top + x.startOfCommand = origin
  room : x.startOfCommand + x.maxLength < 2000
  length : x.shell.length ≤ x.maxLength
  max_le : x.maxLength ≤ 127
  blank : ∀ i, i < x.maxLength → x.blankCommand i = 32
  foreground : t.foreground = White

/-- What `echo_command` leaves. -/
structure Echoed (x : Console) (t : Terminal) (origin : Nat) (y : Console) (u : Terminal) :
    Prop where
  shell : y.shell = x.shell
  startOfCommand : y.startOfCommand = x.startOfCommand
  maxLength : y.maxLength = x.maxLength
  blank : ∀ i, y.blankCommand i = if i = x.maxLength then 32 else x.blankCommand i
  shows : Printer.Shows y.screen u
  top : u.top = t.top
  head : u.head = origin + x.shell.pos
  foreground : u.foreground = White
  background : u.background = t.background
  tape : ∀ j, u.tape j = if origin ≤ j ∧ j < origin + x.maxLength then
    (commandCells t.background (line x.shell.current)).getD (j - origin)
      (32, colorByte White t.background) else t.tape j

lemma hasString_blank {b : Bytes} (hb : ∀ i, i < m → b i = 32) :
    Strings.HasString (Function.update b m 0) 0 (List.replicate m 32) := by
  refine ⟨fun i hi => ?_, fun h => ?_, ?_⟩
  · rw [List.length_replicate] at hi
    rw [Nat.zero_add, Function.update_of_ne hi.ne, hb i hi, List.getElem_replicate]
  · exact absurd (List.eq_of_mem_replicate h) (by decide)
  · rw [List.length_replicate, Nat.zero_add, Function.update_self]

/-- The spaces. -/
lemma Ready.spaces (R : Ready x t origin) :
    ∃ s u, (x.screen.setCursorPos x.startOfCommand).writeString (List.replicate x.maxLength 32) =
        some s ∧ Printer.Shows s u ∧ u.top = t.top ∧ u.foreground = t.foreground ∧
      u.background = t.background ∧ ∀ j, u.tape j =
        if origin ≤ j ∧ j < origin + x.maxLength then (32, colorByte White t.background)
        else t.tape j := by
  have hroom := R.room
  have hstart := R.start
  have S := R.shows.setCursorPos (show x.startOfCommand < 2000 by omega)
  rw [hstart] at S
  have hmem : ∀ c ∈ List.replicate x.maxLength (32 : UInt8), c = 32 := fun c hc =>
    List.eq_of_mem_replicate hc
  have hp : ∀ c ∈ List.replicate x.maxLength (32 : UInt8), Plain c := fun c hc =>
    (hmem c hc).symm ▸ (by decide)
  have h2 : Strings.C2 ∉ List.replicate x.maxLength (32 : UInt8) := fun h =>
    absurd (hmem _ h) (by decide)
  have h3 : Strings.C3 ∉ List.replicate x.maxLength (32 : UInt8) := fun h =>
    absurd (hmem _ h) (by decide)
  obtain ⟨S2, _⟩ := (NoneAtTop.of_plain hp).shows S (List.prefix_refl _)
  have hgo : (t.goTo origin).head = origin := rfl
  have htop0 : (t.goTo origin).top = t.top := rfl
  have T := Terminal.typed (t := t.goTo origin) (by omega) hp
  have htop := T.top
  have hhead := T.head
  rw [List.length_replicate, hgo] at hhead
  have htop' : ((t.goTo origin).emits ((List.replicate x.maxLength 32).map .char)).top = t.top := by
    omega
  refine ⟨_, _, ?_, S2, htop', T.foreground, T.background, fun j => ?_⟩
  · unfold Screen.writeString
    rw [Strings.writeString_plain h2 h3, Option.map_some]
  · have hfg : (t.goTo origin).foreground = White := R.foreground
    have hbg : (t.goTo origin).background = t.background := rfl
    have htape : (t.goTo origin).tape = t.tape := rfl
    rw [T.tape, htop', List.length_replicate, hgo, htop0, hfg, hbg, htape]
    by_cases hj : origin ≤ j ∧ j < origin + x.maxLength
    · rw [if_pos hj, if_pos hj, List.getD_eq_getElem _ _ (by rw [List.length_replicate]; omega),
        List.getElem_replicate]
    · rw [if_neg hj, if_neg hj, if_neg (fun h => by omega)]

/-- The text, over the spaces. -/
lemma Ready.text (R : Ready x t origin) {s : Screen} {v : Terminal} (S : Printer.Shows s v)
    (htop : v.top = t.top) (hfg : v.foreground = White) :
    ∃ u, Printer.Shows ((((s.setCursorPos x.startOfCommand).emits
          (echoOutputs 0 (line x.shell.current))).emit (.foreground White)).setCursorPos
            (x.startOfCommand + x.shell.pos)) u ∧
      u.top = t.top ∧ u.head = origin + x.shell.pos ∧ u.foreground = White ∧
      u.background = v.background ∧ ∀ j, u.tape j =
        if origin ≤ j ∧ j < origin + x.shell.length then
          (commandCells v.background (line x.shell.current)).getD (j - origin) (0, 0)
        else v.tape j := by
  have hroom := R.room
  have hstart := R.start
  have hlen := R.length
  have hpos := R.ok.pos
  have hline := length_line R.ok.length R.ok.char R.ok.terminator
  have S3 := S.setCursorPos (show x.startOfCommand < 2000 by omega)
  rw [htop, hstart] at S3
  have hnone : NoneAtTop (s.setCursorPos x.startOfCommand)
      (echoOutputs 0 (line x.shell.current)) :=
    .of_not_mem (backspace_not_mem_echoOutputs R.plain 0)
  obtain ⟨S4, _⟩ := hnone.shows S3 (List.prefix_refl _)
  have hgo : (v.goTo origin).head = origin := rfl
  have htop0 : (v.goTo origin).top = v.top := rfl
  have W := echoOutputs_wrote (t := v.goTo origin) R.plain (by omega) 0
  have hcells : (echoCells (v.goTo origin).background (v.goTo origin).foreground 0
      (line x.shell.current)).length = x.shell.length := by
    rw [echoCells_length, hline]
  have hfg0 : (v.goTo origin).foreground = White := hfg
  have S5 := (S4.emit (o := .foreground White) (fun h => Output.noConfusion h)).setCursorPos
    (show x.startOfCommand + x.shell.pos < 2000 by omega)
  generalize (v.goTo origin).emits (echoOutputs 0 (line x.shell.current)) = w at S4 W S5
  refine ⟨_, S5, W.top.trans htop, ?_, rfl, W.background, fun j => (W.tape j).trans ?_⟩
  · have hw : (w.emit (.foreground White)).top = t.top := W.top.trans htop
    rw [hw, ← Nat.add_assoc, hstart]
    rfl
  · rw [hcells, hfg0, echoCells_eq]
    rfl

/-- The line is drawn again. -/
lemma Ready.echo (R : Ready x t origin) :
    ∃ y u, x.echoCommand = some y ∧ Echoed x t origin y u := by
  have hroom := R.room
  have hlen := R.length
  have hpos := R.ok.pos
  have hmax := R.max_le
  have hline := length_line R.ok.length R.ok.char R.ok.terminator
  have hcur := Strings.readString_of_hasString (n := BUFFER_SIZE)
    (hasString_line R.tidy.current_last).1 (by unfold BUFFER_SIZE; omega)
  have hblank := Strings.readString_of_hasString (n := BUFFER_SIZE) (hasString_blank R.blank)
    (by rw [List.length_replicate]; unfold BUFFER_SIZE; omega)
  obtain ⟨s, v, hs, S, vtop, vfg, vbg, vtape⟩ := R.spaces
  obtain ⟨u, S', utop, uhead, ufg, ubg, utape⟩ := R.text S vtop (vfg.trans R.foreground)
  have hmod : (x.startOfCommand + x.shell.pos) % 2 ^ 16 = x.startOfCommand + x.shell.pos :=
    Nat.mod_eq_of_lt (by omega)
  have hecho : x.echoCommand = some { x with
      screen := ((((s.setCursorPos x.startOfCommand).emits
        (echoOutputs 0 (line x.shell.current))).emit (.foreground White)).setCursorPos
          (x.startOfCommand + x.shell.pos))
      blankCommand := Function.update (Function.update x.blankCommand x.maxLength 0)
        x.maxLength 32 } := by
    unfold Console.echoCommand
    simp only [hblank, hs, hcur, Option.bind_eq_bind, Option.bind_some, Console.setPos, hmod]
  refine ⟨_, u, hecho, rfl, rfl, rfl, fun i => ?_, S', utop, uhead, ufg, ubg.trans vbg, fun j => ?_⟩
  · dsimp only
    rw [Function.update_apply, Function.update_apply]
    by_cases hi : i = x.maxLength
    · rw [if_pos hi, if_pos hi]
    · rw [if_neg hi, if_neg hi, if_neg hi]
  · have hcells : (commandCells t.background (line x.shell.current)).length = x.shell.length := by
      rw [← echoCells_eq, echoCells_length, hline]
    rw [utape, vtape, vbg]
    by_cases hin : origin ≤ j ∧ j < origin + x.shell.length
    · rw [if_pos hin, if_pos (by omega), List.getD_eq_getElem _ _ (by omega),
        List.getD_eq_getElem _ _ (by omega)]
    · rw [if_neg hin]
      by_cases hm : origin ≤ j ∧ j < origin + x.maxLength
      · rw [if_pos hm, if_pos hm, List.getD_eq_default _ _ (by omega)]
      · rw [if_neg hm, if_neg hm]

/-! ## The invariant -/

/-- A line that can be shown as it is, with at most `wide` characters. -/
def LineOk (wide : Nat) (b : Bytes) : Prop := (line b).length ≤ wide ∧ ∀ c ∈ line b, Plain c

/-- The line stands at `origin` on the tape, and `blank_command` begins with more spaces than any
line of the history has characters. -/
structure Held (x : Console) (t : Terminal) (origin wide : Nat) : Prop where
  tidy : Tidy x.shell
  ok : EditorOk x.shell
  lines : ∀ i, i ≤ x.shell.historyLength → LineOk wide (x.shell.bufferAt i)
  shows : Printer.Shows x.screen t
  start : 80 * t.top + x.startOfCommand = origin
  room : x.startOfCommand + x.maxLength < 2000
  length : x.shell.length ≤ x.maxLength
  max_le : x.maxLength ≤ wide
  wide_le : wide ≤ 127
  blank : ∀ i, i ≤ wide → x.blankCommand i = 32
  foreground : t.foreground = White
  head : t.head = origin + x.shell.pos
  tape : ∀ i, i < x.maxLength → t.tape (origin + i) =
    (commandCells t.background (line x.shell.current)).getD i (32, colorByte White t.background)

/-- The tape before `origin` stays, and the window does not move up. -/
structure Kept (t u : Terminal) (origin : Nat) : Prop where
  top : t.top ≤ u.top
  tape : ∀ j, j < origin → u.tape j = t.tape j

lemma Kept.refl (t : Terminal) (origin : Nat) : Kept t t origin := ⟨le_refl _, fun _ _ => rfl⟩

lemma Kept.trans {v : Terminal} (h1 : Kept t u origin) (h2 : Kept u v origin) : Kept t v origin :=
  ⟨h1.top.trans h2.top, fun j hj => (h2.tape j hj).trans (h1.tape j hj)⟩

variable {wide wide' : Nat}

lemma Held.lineShown (H : Held x t origin wide) : LineShown x := by
  have hstart := H.start
  have hline := length_line H.ok.length H.ok.char H.ok.terminator
  refine ⟨H.room, hline.trans_le H.length, fun i hi => ?_, ?_⟩
  · have hroom := H.room
    rw [H.shows.cell _ (by omega), ← Nat.add_assoc, hstart, H.tape i hi, H.shows.background]
  · have h1 := H.shows.cursor
    have h2 := H.head
    omega

lemma Held.movedUp (H : Held x t origin wide) (K : Held y u origin wide') (hk : Kept t u origin) :
    MovedUp x y := by
  obtain ⟨k, hk'⟩ := Nat.exists_eq_add_of_le hk.top
  have h1 := H.start
  have h2 := K.start
  have h3 := H.room
  have h4 := K.room
  refine ⟨k, by omega, fun j hj => ?_⟩
  rw [K.shows.cell j (by omega), hk.tape _ (by omega), H.shows.cell _ (by omega)]
  congr 1
  omega

/-- After `echo_command` the invariant holds. -/
lemma Ready.held (R : Ready x t origin)
    (hl : ∀ i, i ≤ x.shell.historyLength → LineOk wide (x.shell.bufferAt i))
    (hm : x.maxLength ≤ wide) (hw : wide ≤ 127)
    (hb : ∀ i, i ≤ wide → i ≠ x.maxLength → x.blankCommand i = 32) :
    ∃ y u, x.echoCommand = some y ∧ Held y u origin wide ∧ Kept t u origin := by
  obtain ⟨y, u, e, E⟩ := R.echo
  have hcur : y.shell.current = x.shell.current := congrArg Shell.current E.shell
  refine ⟨y, u, e, ?_, E.top.ge, fun j hj => ?_⟩
  · constructor
    case tidy => rw [E.shell]; exact R.tidy
    case ok => rw [E.shell]; exact R.ok
    case lines => rw [E.shell]; exact hl
    case shows => exact E.shows
    case start => rw [E.top, E.startOfCommand]; exact R.start
    case room => rw [E.maxLength, E.startOfCommand]; exact R.room
    case length => rw [E.maxLength, E.shell]; exact R.length
    case max_le => rw [E.maxLength]; exact hm
    case wide_le => exact hw
    case blank =>
      intro i hi
      rw [E.blank]
      by_cases him : i = x.maxLength
      · rw [if_pos him]
      · rw [if_neg him, hb i hi him]
    case foreground => exact E.foreground
    case head => rw [E.head, E.shell]
    case tape =>
      intro i hi
      rw [E.maxLength] at hi
      rw [E.tape, if_pos (by omega), E.background, hcur, Nat.add_sub_cancel_left]
  · rw [E.tape, if_neg (by omega)]

/-! ## The keys -/

/-- Only the cursor moves. -/
lemma Held.move (H : Held x t origin wide) {p : Nat} (hp : p ≤ x.shell.length) :
    ∃ u, Held ({ x with shell := { x.shell with pos := p } } : Console).setPos u origin wide ∧
      Kept t u origin := by
  have hroom := H.room
  have hlen := H.length
  have hmod : (x.startOfCommand + p) % 2 ^ 16 = x.startOfCommand + p := Nat.mod_eq_of_lt (by omega)
  have S := H.shows.setCursorPos (show x.startOfCommand + p < 2000 by omega)
  rw [← Nat.add_assoc, H.start] at S
  have T := H.tidy
  refine ⟨t.goTo (origin + p), ⟨⟨T.le, T.lt, T.inj, T.last⟩,
    ⟨hp, H.ok.length, H.ok.char, H.ok.terminator⟩, H.lines, ?_, H.start, H.room, H.length, H.max_le,
    H.wide_le, H.blank, H.foreground, rfl, H.tape⟩, le_refl _, fun _ _ => rfl⟩
  unfold Console.setPos
  dsimp only
  rwa [hmod]

/-- Only the line in the current buffer is another one. -/
structure Edits (s t : Shell) : Prop where
  historyLength : t.historyLength = s.historyLength
  historyPos : t.historyPos = s.historyPos
  bufferAt : ∀ i, i ≤ s.historyLength → i ≠ s.historyPos → t.bufferAt i = s.bufferAt i

lemma Edits.lines {s s' : Shell} (h : Edits s s')
    (hl : ∀ i, i ≤ s.historyLength → LineOk wide (s.bufferAt i)) (hw : wide ≤ wide')
    (hc : LineOk wide' s'.current) :
    ∀ i, i ≤ s'.historyLength → LineOk wide' (s'.bufferAt i) := by
  intro i hi
  by_cases hp : i = s'.historyPos
  · rw [hp]
    exact hc
  · rw [h.historyPos] at hp
    rw [h.historyLength] at hi
    rw [h.bufferAt i hi hp]
    exact ⟨(hl i hi).1.trans hw, (hl i hi).2⟩

lemma edits_deleteChar {s : Shell} (h : Tidy s) : Edits s (deleteChar s) := by
  have hb : ∀ b i, i ≤ s.historyLength → i ≠ s.historyPos →
      (s.setCurrent b).bufferAt i = s.bufferAt i := fun b i hi hp => by
    rw [h.bufferAt_setCurrent hi, if_neg hp]
  unfold deleteChar
  dsimp only
  split_ifs
  · exact ⟨rfl, rfl, hb _⟩
  · exact ⟨rfl, rfl, hb _⟩

lemma edits_insertChar {s : Shell} (h : Tidy s) (hlt : s.length < 127) :
    Edits s (insertChar c s) := by
  rw [insertChar_eq hlt]
  exact ⟨rfl, rfl, fun i hi hp => (h.bufferAt_setCurrent hi).trans (if_neg hp)⟩

/-- A character is deleted at `p`. -/
lemma Held.delete (H : Held x t origin wide) {p : Nat} (hp : p ≤ x.shell.length) :
    ∃ y u, ({ x with shell := deleteChar { x.shell with pos := p } } : Console).echoCommand =
      some y ∧ Held y u origin wide ∧ Kept t u origin := by
  have hT : Tidy { x.shell with pos := p } :=
    ⟨H.tidy.le, H.tidy.lt, H.tidy.inj, H.tidy.last⟩
  have hO : EditorOk { x.shell with pos := p } :=
    ⟨hp, H.ok.length, H.ok.char, H.ok.terminator⟩
  obtain ⟨h1, h2, h3⟩ := edits_deleteChar hT
  have hE : Edits x.shell (deleteChar { x.shell with pos := p }) := ⟨h1, h2, h3⟩
  have hcur := H.lines x.shell.historyPos H.tidy.le
  have hold : (line x.shell.current).length = x.shell.length :=
    length_line H.ok.length H.ok.char H.ok.terminator
  obtain ⟨hT', hO', hview⟩ := deleteChar_spec hT hO
  generalize deleteChar { x.shell with pos := p } = s at hT' hO' hview hE ⊢
  have hline : line s.current = (line x.shell.current).eraseIdx p := congrArg Prod.fst hview
  have hlen : (line s.current).length = s.length := length_line hO'.length hO'.char hO'.terminator
  have hle : (line s.current).length ≤ (line x.shell.current).length := by
    rw [hline]
    exact List.length_eraseIdx_le _ _
  have hlength := H.length
  have hok : LineOk wide s.current := by
    refine ⟨hle.trans hcur.1, fun c hc => hcur.2 c ?_⟩
    rw [hline] at hc
    exact List.mem_of_mem_eraseIdx hc
  have R : Ready { x with shell := s } t origin := by
    refine ⟨hT', hO', hok.2, H.shows, H.start, H.room, ?_, H.max_le.trans H.wide_le, fun i hi =>
      H.blank i (hi.le.trans H.max_le), H.foreground⟩
    show s.length ≤ x.maxLength
    omega
  exact R.held (hE.lines H.lines (le_refl _) hok) H.max_le H.wide_le fun i hi _ => H.blank i hi

lemma Console.updateMaxLength_eq (x : Console) :
    x.updateMaxLength = { x with maxLength := max x.maxLength x.shell.length } := by
  unfold Console.updateMaxLength
  split_ifs with h
  · rw [max_eq_right h.le]
  · rw [max_eq_left (Nat.le_of_not_lt h)]

/-- The line is longer, by any number of characters; the screen scrolls if it reaches its end. -/
lemma Held.longer (H : Held x t origin wide) {s : Shell} (hT : Tidy s) (hO : EditorOk s)
    (hl : ∀ i, i ≤ s.historyLength → LineOk wide' (s.bufferAt i))
    (hw : wide ≤ wide') (hs : s.length ≤ wide') (hw1 : wide' ≤ wide + 1 ∧ wide' ≤ 127)
    (hm : wide' = wide ∨ wide' = s.length)
    (hfit : x.startOfCommand + s.length < 2080) :
    ∃ y u, ({ x with shell := s } : Console).updateMaxLength.scrollLine.echoCommand = some y ∧
      Held y u origin wide' ∧ Kept t u origin := by
  have hstart := H.start
  have hroom := H.room
  have hmax := H.max_le
  have hsize : SCREEN_HEIGHT * SCREEN_WIDTH = 2000 := rfl
  have hwidth : SCREEN_WIDTH = 80 := rfl
  have hlen := length_line hO.length hO.char hO.terminator
  have hblank : ∀ i, i ≤ wide' → i ≠ max x.maxLength s.length → x.blankCommand i = 32 := by
    intro i hi hne
    exact H.blank i (by omega)
  have hplain : ∀ c ∈ line s.current, Plain c := (hl s.historyPos hT.le).2
  rw [Console.updateMaxLength_eq]
  unfold Console.scrollLine
  dsimp only
  rw [hsize]
  by_cases hend : x.startOfCommand + s.length ≥ 2000
  · -- the line reaches the end of the screen, which scrolls
    have hmod : (x.startOfCommand + (2 ^ 16 - 80)) % 2 ^ 16 = x.startOfCommand - 80 := by omega
    rw [if_pos hend, hwidth, hmod]
    have R : Ready { x with
        shell := s
        screen := x.screen.scroll
        startOfCommand := x.startOfCommand - 80
        maxLength := max x.maxLength s.length } t.lower origin := by
      refine ⟨hT, hO, hplain, H.shows.scroll, ?_, ?_, le_max_right _ _, ?_, fun i hi => ?_,
        H.foreground⟩
      · unfold Terminal.lower
        dsimp only
        omega
      · dsimp only
        omega
      · dsimp only
        omega
      · dsimp only at hi
        exact H.blank i (by omega)
    obtain ⟨y, u, e, K, hk⟩ := R.held hl (by dsimp only; omega) hw1.2 hblank
    refine ⟨y, u, e, K, Kept.trans ⟨Nat.le_succ _, fun j hj => ?_⟩ hk⟩
    exact if_neg (by unfold Terminal.bottom; omega)
  · rw [if_neg hend]
    have R : Ready { x with shell := s, maxLength := max x.maxLength s.length } t origin := by
      refine ⟨hT, hO, hplain, H.shows, hstart, ?_, le_max_right _ _, ?_, fun i hi => ?_,
        H.foreground⟩
      · dsimp only
        omega
      · dsimp only
        omega
      · dsimp only at hi
        exact H.blank i (by omega)
    exact R.held hl (by dsimp only; omega) hw1.2 hblank

/-- A character is inserted. -/
lemma Held.insert (H : Held x t origin wide) (hc : Plain c) (hlt : x.shell.length < 127)
    (hz : x.shell.current (x.shell.length + 1) = 0) :
    ∃ y u wide', ({ x with shell := insertChar c x.shell } :
        Console).updateMaxLength.scrollLine.echoCommand = some y ∧
      Held y u origin wide' ∧ Kept t u origin := by
  have hroom := H.room
  have hlength := H.length
  have hmax := H.max_le
  have hwide := H.wide_le
  have hcur := H.lines x.shell.historyPos H.tidy.le
  have hold : (line x.shell.current).length = x.shell.length :=
    length_line H.ok.length H.ok.char H.ok.terminator
  obtain ⟨hT, hiff⟩ := insertChar_spec H.tidy H.ok hc.1 hlt
  obtain ⟨hO, hview⟩ := hiff.mpr hz
  have hline : line (insertChar c x.shell).current =
      (line x.shell.current).insertIdx x.shell.pos c :=
    congrArg Prod.fst hview
  have hlen : (insertChar c x.shell).length = x.shell.length + 1 := by rw [insertChar_eq hlt]
  have hlen' := length_line hO.length hO.char hO.terminator
  have hok : LineOk (max wide (x.shell.length + 1)) (insertChar c x.shell).current := by
    refine ⟨by omega, fun d hd => ?_⟩
    rw [hline] at hd
    have hpos := H.ok.pos
    rcases (List.mem_insertIdx (by omega)).mp hd with rfl | hd
    · exact hc
    · exact hcur.2 d hd
  obtain ⟨y, u, e, K, hk⟩ := H.longer hT hO
    ((edits_insertChar H.tidy hlt).lines H.lines (le_max_left _ _) hok) (le_max_left _ _)
    (by omega) (by omega) (by omega) (by omega)
  exact ⟨y, u, _, e, K, hk⟩

/-- A line is recalled. -/
lemma Held.showLine (H : Held x t origin wide) (hi : i ≤ x.shell.historyLength) (hf : Fits x i) :
    ∃ y u, x.showLine i = some y ∧ Held y u origin wide ∧ Kept t u origin := by
  obtain ⟨n, hn, hc, hz⟩ := exists_line (H.tidy.last i hi)
  have hlen := length_line hn hc hz
  have hgo : goTo i x.shell = some { x.shell with historyPos := i, pos := n, length := n } := by
    have e : strLength (x.shell.bufferAt i) BUFFER_SIZE 0 = some n :=
      strLength_eq hc hz (Nat.zero_le _) (by unfold BUFFER_SIZE; omega)
    rw [goTo, e, Option.map_some]
  have hwide := H.wide_le
  have hin := (H.lines i hi).1
  unfold Fits at hf
  obtain ⟨y, u, e, K, hk⟩ := H.longer (s := { x.shell with historyPos := i, pos := n, length := n })
    ⟨hi, H.tidy.lt, H.tidy.inj, H.tidy.last⟩ ⟨le_refl n, hn, hc, hz⟩ H.lines (le_refl wide)
    (by dsimp only; omega) (by omega) (.inl rfl) (by dsimp only; omega)
  refine ⟨y, u, ?_, K, hk⟩
  unfold Console.showLine
  rw [hgo]
  exact e

/-- The line is drawn again as it is. -/
lemma Held.again (H : Held x t origin wide) :
    ∃ y u, x.echoCommand = some y ∧ Held y u origin wide ∧ Kept t u origin := by
  have R : Ready x t origin := ⟨H.tidy, H.ok, (H.lines _ H.tidy.le).2, H.shows, H.start, H.room,
    H.length, H.max_le.trans H.wide_le, fun i hi => H.blank i (hi.le.trans H.max_le),
    H.foreground⟩
  exact R.held H.lines H.max_le H.wide_le fun i hi _ => H.blank i hi

/-- A character. -/
lemma Held.char (H : Held x t origin wide) (h10 : c ≠ 10) (hk : KeyOk x.shell (.char c)) :
    ∃ y u wide', x.shellWriteChar c = some y ∧ Held y u origin wide' ∧ Kept t u origin := by
  have hpos := H.ok.pos
  unfold Console.shellWriteChar
  by_cases h0 : c = 0
  · rw [if_pos h0]
    exact ⟨x, t, wide, rfl, H, .refl t origin⟩
  rw [if_neg h0]
  by_cases h9 : c = 9
  · rw [if_pos h9]
    exact ⟨x, t, wide, rfl, H, .refl t origin⟩
  rw [if_neg h9]
  by_cases h8 : c = 8
  · rw [if_pos h8]
    by_cases hp : 0 < x.shell.pos
    · rw [if_pos hp]
      obtain ⟨y, u, h⟩ := H.delete (p := x.shell.pos - 1) (by omega)
      exact ⟨y, u, wide, h⟩
    · rw [if_neg hp]
      exact ⟨x, t, wide, rfl, H, .refl t origin⟩
  rw [if_neg h8]
  by_cases h127 : c = 127
  · rw [if_pos h127]
    obtain ⟨y, u, h⟩ := H.delete hpos
    exact ⟨y, u, wide, h⟩
  rw [if_neg h127]
  by_cases hlt : x.shell.length < BUFFER_SIZE - 1
  · rw [if_pos hlt]
    exact H.insert ⟨h0, h10, h9, h8, h127⟩ hlt (hk ⟨c, rfl, h0, h10, h9, h8, h127, hlt⟩)
  · rw [if_neg hlt]
    obtain ⟨y, u, h⟩ := H.again
    exact ⟨y, u, wide, h⟩

/-- A key other than enter. -/
lemma Held.press (H : Held x t origin wide) (h10 : key ≠ .char 10) (hk : ConsoleOk x (.key key)) :
    ∃ y u wide', x.press key = some y ∧ Held y u origin wide' ∧ Kept t u origin := by
  obtain ⟨hk, hup, hdown⟩ := hk
  have hpos := H.ok.pos
  -- a move of the cursor leaves the screen as it is
  have move : ∀ p, p ≤ x.shell.length → ∃ y u wide',
      some ({ x with shell := { x.shell with pos := p } } : Console).setPos = some y ∧
        Held y u origin wide' ∧ Kept t u origin := by
    intro p hp
    obtain ⟨u, K, h⟩ := H.move hp
    exact ⟨_, u, wide, rfl, K, h⟩
  cases key with
  | char c => exact H.char (fun h => h10 (congrArg Key.char h)) hk
  | home => exact move 0 (Nat.zero_le _)
  | toEnd => exact move x.shell.length (le_refl _)
  | up =>
    unfold Console.press
    dsimp only
    by_cases hp : 0 < x.shell.historyPos
    · rw [if_pos hp]
      obtain ⟨y, u, h⟩ := H.showLine ((Nat.sub_le _ 1).trans H.tidy.le) (hup rfl hp)
      exact ⟨y, u, wide, h⟩
    · rw [if_neg hp]
      exact ⟨x, t, wide, rfl, H, .refl t origin⟩
  | down =>
    unfold Console.press
    dsimp only
    by_cases hp : x.shell.historyPos < x.shell.historyLength
    · rw [if_pos hp]
      obtain ⟨y, u, h⟩ := H.showLine hp (hdown rfl hp)
      exact ⟨y, u, wide, h⟩
    · rw [if_neg hp]
      exact ⟨x, t, wide, rfl, H, .refl t origin⟩
  | left =>
    unfold Console.press shellLeft
    dsimp only
    split_ifs with hp
    · exact move (x.shell.pos - 1) (by omega)
    · exact move x.shell.pos hpos
  | right =>
    unfold Console.press shellRight
    dsimp only
    split_ifs with hp
    · refine move (x.shell.pos + 1) ?_
      rcases Nat.lt_or_eq_of_le hpos with h | h
      · exact h
      · exact absurd (h ▸ H.ok.terminator) hp.2
    · exact move x.shell.pos hpos

/-- `echo_command` does not touch the line. -/
lemma Console.echoCommand_shell (e : x.echoCommand = some y) : y.shell = x.shell := by
  unfold Console.echoCommand at e
  simp only [Option.bind_eq_bind, Option.bind_eq_some_iff, Option.some_inj] at e
  obtain ⟨_, _, _, _, _, _, rfl⟩ := e
  rfl

lemma Console.scrollLine_shell (x : Console) : x.updateMaxLength.scrollLine.shell = x.shell := by
  rw [Console.updateMaxLength_eq]
  unfold Console.scrollLine
  split_ifs <;> rfl

lemma Console.showLine_shell (e : x.showLine i = some y) : goTo i x.shell = some y.shell := by
  unfold Console.showLine at e
  obtain ⟨s, hs, e⟩ := Option.bind_eq_some_iff.mp e
  rw [hs, echoCommand_shell e, scrollLine_shell]

/-- The buffers change as in the editor without a screen. -/
lemma Console.press_shell (h10 : key ≠ .char 10) (e : x.press key = some y) (fresh : Nat) :
    Shell.press fresh key x.shell = some y.shell := by
  cases key with
  | char c =>
    change x.shellWriteChar c = some y at e
    change Shell.shellWriteChar fresh c x.shell = some y.shell
    have hc : c ≠ 10 := fun h => h10 (congrArg Key.char h)
    unfold Console.shellWriteChar at e
    unfold Shell.shellWriteChar
    rw [if_neg hc]
    split_ifs at e ⊢ with h0 h9 h8 hp h127 hlt
    · rw [Option.some.inj e]
    · rw [Option.some.inj e]
    · rw [echoCommand_shell e]
    · rw [Option.some.inj e]
    · rw [echoCommand_shell e]
    · rw [echoCommand_shell e, scrollLine_shell]
    · have hfull : insertChar c x.shell = x.shell := if_neg hlt
      rw [hfull, echoCommand_shell e]
  | home => exact congrArg (fun z => some z.shell) (Option.some.inj e)
  | toEnd => exact congrArg (fun z => some z.shell) (Option.some.inj e)
  | up =>
    unfold Console.press at e
    unfold Shell.press shellUp
    dsimp only at e ⊢
    split_ifs at e ⊢
    · exact showLine_shell e
    · rw [Option.some.inj e]
  | down =>
    unfold Console.press at e
    unfold Shell.press shellDown
    dsimp only at e ⊢
    split_ifs at e ⊢
    · exact showLine_shell e
    · rw [Option.some.inj e]
  | left => exact congrArg (fun z => some z.shell) (Option.some.inj e)
  | right => exact congrArg (fun z => some z.shell) (Option.some.inj e)

/-! ## Enter -/

/-- The lines after a command. -/
lemma Finalized.lines {s s' : Shell} (h : Finalized s s' fresh)
    (hp : s.historyPos ≤ s.historyLength)
    (hl : ∀ i, i ≤ s.historyLength → LineOk wide (s.bufferAt i)) :
    ∀ i, i ≤ s'.historyLength → LineOk wide (s'.bufferAt i) := by
  intro i hi
  rcases Nat.lt_or_eq_of_le hi with hlt | rfl
  · by_cases e : s.historyLength = HISTORY_SIZE - 1
    · obtain ⟨hlen, hbuf⟩ := h.moved e
      rw [hlen] at hlt
      rw [hbuf i hlt]
      exact hl (i + 1) hlt
    · obtain ⟨hlen, hbuf, hline⟩ := h.saved e
      rw [hlen] at hlt
      rcases Nat.lt_or_eq_of_le (Nat.le_of_lt_succ hlt) with hlt | rfl
      · rw [hbuf i hlt]
        exact hl i hlt.le
      · unfold LineOk
        rw [hline]
        exact hl s.historyPos hp
  · have hempty : line (s'.bufferAt s'.historyLength) = [] := by
      rw [← h.last]
      exact line_eq (Nat.zero_le _) (fun i hi => absurd hi (Nat.not_lt_zero i))
        (h.blank 0 (by decide))
    unfold LineOk
    rw [hempty]
    exact ⟨Nat.zero_le _, fun c hc => absurd hc List.not_mem_nil⟩

/-- The prompt ends in white. -/
lemma foreground_echoThingy (t : Terminal) (out : List Output) (path : List UInt8) :
    (t.emits ([.char 10] ++ out ++ echoThingy path)).foreground = White := by
  unfold echoThingy Terminal.emits
  rw [List.foldl_append, List.foldl_append, List.foldl_append]
  rw [List.foldl_cons, List.foldl_cons, List.foldl_nil, Terminal.foreground_char,
    Terminal.foreground_char]
  rfl

lemma Held.enter (H : Held x t origin wide) (hf : NotInUse x.shell fresh)
    (hb : ConsoleOk x (.enter out path)) :
    ∃ y u origin', x.enter fresh out path = some y ∧ Held y u origin' wide ∧
      finalizeCommand fresh x.shell = some y.shell ∧ line y.shell.current = [] := by
  have hroom := H.room
  have hlen := H.length
  have hmod : (x.startOfCommand + x.shell.length) % 2 ^ 16 = x.startOfCommand + x.shell.length :=
    Nat.mod_eq_of_lt (by omega)
  have S := H.shows.setCursorPos (show x.startOfCommand + x.shell.length < 2000 by omega)
  have hb : NoneAtTop _ _ := hb
  rw [hmod] at hb
  obtain ⟨S', _⟩ := hb.shows S (List.prefix_refl _)
  obtain ⟨s, e, F⟩ := finalize_spec H.tidy hf
  have hw := foreground_echoThingy (t.goTo (80 * t.top + (x.startOfCommand + x.shell.length)))
    out path
  have henter : x.enter fresh out path = some { x with
      shell := s
      screen := (x.screen.setCursorPos (x.startOfCommand + x.shell.length)).emits
        ([.char 10] ++ out ++ echoThingy path)
      startOfCommand := ((x.screen.setCursorPos (x.startOfCommand + x.shell.length)).emits
        ([.char 10] ++ out ++ echoThingy path)).cursor
      maxLength := 0 } := by
    unfold Console.enter
    rw [hmod, e]
    rfl
  generalize (x.screen.setCursorPos (x.startOfCommand + x.shell.length)).emits
    ([.char 10] ++ out ++ echoThingy path) = screen at henter S'
  generalize Terminal.emits _ _ = u at S' hw
  have hempty : line s.current = [] := by
    have := F.view
    exact congrArg Prod.fst this
  refine ⟨_, u, u.head, henter, ⟨F.tidy, F.editorOk, F.lines H.tidy.le H.lines, S', S'.cursor,
    S'.onScreen, F.length.le, Nat.zero_le _, H.wide_le, H.blank, hw, ?_, ?_⟩, e, hempty⟩
  · dsimp only
    rw [F.pos]
    rfl
  · exact fun i hi => absurd hi (Nat.not_lt_zero i)

/-! ## Sessions -/

lemma Console.install_held (memory : Nat → Bytes) (first : Nat) {screen : Screen}
    (hs : screen.cursor < 2000) (hw : screen.foreground = White) :
    Held (Console.install memory first screen) screen.terminal screen.cursor 0 := by
  have hempty : ∀ i, i ≤ 0 → line ((shellInstall memory first).bufferAt i) = [] := by
    intro i hi
    obtain rfl := Nat.le_zero.mp hi
    have hbuf : (shellInstall memory first).bufferAt 0 0 = 0 := by
      change Function.update memory first _ first 0 = 0
      rw [Function.update_self]
      rfl
    exact line_eq (Nat.zero_le _) (fun i hi => absurd hi (Nat.not_lt_zero i)) hbuf
  refine ⟨shellInstall_tidy memory first, shellInstall_ok memory first, fun i hi => ?_,
    Screen.shows_terminal hs, Nat.zero_add _, hs, le_refl 0, le_refl 0, Nat.zero_le _,
    fun i hi => ?_, hw, rfl, fun i hi => absurd hi (Nat.not_lt_zero i)⟩
  · have e : line ((Console.install memory first screen).shell.bufferAt i) = [] := hempty i hi
    unfold LineOk
    rw [e]
    exact ⟨Nat.zero_le _, fun c hc => absurd hc List.not_mem_nil⟩
  · exact if_pos (Nat.le_zero.mp hi)

/-- What one step keeps. -/
lemma ConsoleStep.held {e : ConsoleEvent} (st : ConsoleStep x e y) (hk : ConsoleOk x e)
    (H : Held x t origin wide) : ∃ u origin' wide', Held y u origin' wide' := by
  cases st with
  | key h10 e =>
    obtain ⟨z, u, wide', e', K, _⟩ := H.press h10 hk
    obtain rfl := Option.some.inj (e.symm.trans e')
    exact ⟨u, origin, wide', K⟩
  | enter hf e =>
    obtain ⟨z, u, origin', e', K, _⟩ := H.enter hf hk
    obtain rfl := Option.some.inj (e.symm.trans e')
    exact ⟨u, origin', wide, K⟩

/-- In every session the screen shows the line and the cursor. A key changes the line as in the
editor without a screen, the screen shows the new line, and what stands above it has at most moved
up. After enter it shows the empty line, whatever the command has sent. -/
theorem line_displayed {memory : Nat → Bytes} {first : Nat} {screen : Screen}
    (hs : screen.cursor < 2000) (hw : screen.foreground = White) {es : List ConsoleEvent}
    (r : Run (Guarded ConsoleOk ConsoleStep) (Console.install memory first screen) es x) :
    LineShown x ∧
      (∀ key, key ≠ .char 10 → ConsoleOk x (.key key) →
        ∃ y, x.press key = some y ∧ (∀ fresh, Shell.press fresh key x.shell = some y.shell) ∧
          LineShown y ∧ MovedUp x y) ∧
      ∀ fresh out path, NotInUse x.shell fresh → ConsoleOk x (.enter out path) →
        ∃ y, x.enter fresh out path = some y ∧ finalizeCommand fresh x.shell = some y.shell ∧
          LineShown y ∧ line y.shell.current = [] := by
  obtain ⟨t, origin, wide, H⟩ : ∃ t origin wide, Held x t origin wide := by
    refine r.invariant (I := fun x => ∃ t origin wide, Held x t origin wide) ?_
      ⟨_, _, _, Console.install_held memory first hs hw⟩
    rintro x e y ⟨t, origin, wide, H⟩ ⟨hk, st⟩
    exact st.held hk H
  refine ⟨H.lineShown, fun key h10 hk => ?_, fun fresh out path hf hk => ?_⟩
  · obtain ⟨y, u, wide', e, K, hkept⟩ := H.press h10 hk
    exact ⟨y, e, Console.press_shell h10 e, K.lineShown, H.movedUp K hkept⟩
  · obtain ⟨y, u, origin', e, K, hs, hl⟩ := H.enter hf hk
    exact ⟨y, e, hs, K.lineShown, hl⟩

/-- A console on a screen to which nothing has been written. -/
def newConsole : Console := Console.install (fun _ _ => 0) 256 blankScreen

/-- The shell of that console when `a`, enter, `b`, left and `x` have been typed: before each letter
there is a `NUL` behind the terminator. -/
lemma newConsole_typed :
    ((press 512 (.char 97) newConsole.shell).bind fun s =>
      (finalizeCommand 512 s).bind fun t => (press 512 (.char 98) t).bind fun u =>
        (press 512 .left u).bind fun v => (press 512 (.char 120) v).map fun w =>
          (newConsole.shell.current 1, decide (NotInUse s 512), t.current (t.length + 1),
            v.current (v.length + 1), line w.current)) =
      some (0, true, 0, 0, [120, 98]) := by
  decide +kernel

/-- `a`, enter, `b` and left are typed in a new console, and then `x` is inserted and shown. -/
theorem line_displayed_typed :
    ∃ x es, Run (Guarded ConsoleOk ConsoleStep) newConsole es x ∧ es.length = 4 ∧ LineShown x ∧
      ∃ y, x.press (.char 120) = some y ∧
        (∀ fresh, Shell.press fresh (.char 120) x.shell = some y.shell) ∧ LineShown y ∧
          MovedUp x y ∧ line y.shell.current = [120, 98] := by
  obtain ⟨s, hs, h⟩ := Option.bind_eq_some_iff.mp newConsole_typed
  obtain ⟨t, ht, h⟩ := Option.bind_eq_some_iff.mp h
  obtain ⟨u, hu, h⟩ := Option.bind_eq_some_iff.mp h
  obtain ⟨v, hv, h⟩ := Option.bind_eq_some_iff.mp h
  obtain ⟨w, hw, h⟩ := Option.map_eq_some_iff.mp h
  simp only [Prod.mk.injEq, decide_eq_true_eq] at h
  obtain ⟨h97, hfresh, h98, h120, hline⟩ := h
  have displayed {es x} (r : Run (Guarded ConsoleOk ConsoleStep) newConsole es x) :=
    line_displayed (show blankScreen.cursor < 2000 by decide) rfl r
  have key (k : Key) {es x t} (r : Run (Guarded ConsoleOk ConsoleStep) newConsole es x)
      (h10 : k ≠ .char 10) (ok : ConsoleOk x (.key k)) (ht : press 512 k x.shell = some t) :
      ∃ y, Run (Guarded ConsoleOk ConsoleStep) newConsole (es ++ [.key k]) y ∧ y.shell = t := by
    obtain ⟨y, e, hy, _⟩ := (displayed r).2.1 k h10 ok
    exact ⟨y, r.snoc ⟨ok, .key h10 e⟩, Option.some.inj ((hy 512).symm.trans ht)⟩
  have letter {c : UInt8} {x : Console} (h : x.shell.current (x.shell.length + 1) = 0) :
      ConsoleOk x (.key (.char c)) := ⟨fun _ => h, nofun, nofun⟩
  obtain ⟨x, r, rfl⟩ := key (.char 97) .nil (by decide) (letter h97) hs
  -- enter, with a command that sends nothing
  have ok : ConsoleOk x (.enter [] []) := .of_not_mem (by decide +kernel)
  obtain ⟨x', e, hx', _⟩ := (displayed r).2.2 512 [] [] hfresh ok
  have r := r.snoc ⟨ok, .enter hfresh e⟩
  obtain rfl := Option.some.inj (hx'.symm.trans ht)
  obtain ⟨y, r, rfl⟩ := key (.char 98) r (by decide) (letter h98) hu
  obtain ⟨z, r, rfl⟩ := key .left r (by decide) ⟨nofun, nofun, nofun⟩ hv
  obtain ⟨hshown, hkey, _⟩ := displayed r
  obtain ⟨w', e, hw', hshown', hmoved⟩ := hkey (.char 120) (by decide) (letter h120)
  obtain rfl := Option.some.inj ((hw' 512).symm.trans hw)
  exact ⟨z, _, r, rfl, hshown, w', e, hw', hshown', hmoved, hline⟩

end MarioBrOS.Shell
