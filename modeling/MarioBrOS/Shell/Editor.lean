import MarioBrOS.Lib.Run
import MarioBrOS.Strings.Split

/-!
# The line editor of the shell

The functions of `shell.c` that handle keys. A line is typed into a buffer of 128 bytes; `history`
has the addresses of the buffers, the last one for the line that is typed. Lines can be recalled and
are edited in place. What the functions show on the screen is left out, and so are the commands,
which do not touch the buffers.

Reading a buffer past its end has no result. The address that `mem_alloc` returns for a new line
comes in as an argument.
-/

namespace MarioBrOS.Shell

open Strings (HasString copyLoop)

/-- `shell.c`, `buffer_size`. -/
def BUFFER_SIZE : Nat := 128

/-- `shell.c`, `history_size`. -/
def HISTORY_SIZE : Nat := 100

/-- The globals of `shell.c`, and what the buffers hold. -/
structure Shell where
  buffer : Nat → Bytes
  history : Nat → Nat
  historyLength : Nat
  historyPos : Nat
  pos : Nat
  length : Nat

namespace Shell

/-- The buffer `history[i]`. -/
def bufferAt (s : Shell) (i : Nat) : Bytes := s.buffer (s.history i)

/-- The buffer `history[history_pos]`. -/
def current (s : Shell) : Bytes := s.bufferAt s.historyPos

/-- Writes to `history[history_pos]`. -/
def setCurrent (s : Shell) (b : Bytes) : Shell :=
  { s with buffer := Function.update s.buffer (s.history s.historyPos) b }

end Shell

/-- `string.c`, `str_length`, from `pos` on, for a string of `fuel` more bytes. -/
def strLength (b : Bytes) : Nat → Nat → Option Nat
  | 0, _ => none
  | fuel + 1, pos => if b pos = 0 then some pos else strLength b fuel (pos + 1)

/-- The loop of `shell_write_char` that moves `n` characters up to `i` to the right. -/
def moveRight (b : Bytes) (i : Nat) : Nat → Bytes
  | 0 => b
  | n + 1 => moveRight (Function.update b i (b (i - 1))) (i - 1) n

/-- The loop of `shell_write_char` that moves `n` characters from `i` on to the left. -/
def moveLeft (b : Bytes) (i : Nat) : Nat → Bytes
  | 0 => b
  | n + 1 => moveLeft (Function.update b i (b (i + 1))) (i + 1) n

/-- The case of delete in `shell_write_char`. -/
def deleteChar (s : Shell) : Shell :=
  let t := s.setCurrent (moveLeft s.current s.pos (s.length - s.pos))
  if s.pos < s.length then { t with length := t.length - 1 } else t

/-- The default case of `shell_write_char`. -/
def insertChar (c : UInt8) (s : Shell) : Shell :=
  if s.length < BUFFER_SIZE - 1 then
    let b := moveRight s.current s.length (s.length - s.pos)
    { s.setCurrent (Function.update b s.pos c) with pos := s.pos + 1, length := s.length + 1 }
  else
    s

/-- The part of `finalize_command` that keeps the line that was executed. -/
def saveLine (s : Shell) : Option Shell :=
  if s.historyLength = HISTORY_SIZE - 1 then
    -- `mem_free(history[0])`, and all lines move down
    some { s with
      history := fun i => if i + 1 < HISTORY_SIZE then s.history (i + 1) else s.history i
      historyPos := s.historyLength }
  else
    (copyLoop s.current (s.bufferAt s.historyLength) 0 BUFFER_SIZE 0).map fun b =>
      { s with
        buffer := Function.update s.buffer (s.history s.historyLength) b
        historyLength := s.historyLength + 1
        historyPos := s.historyLength + 1 }

/-- The part of `finalize_command` that makes the new line, at the address `fresh`. -/
def newLine (fresh : Nat) (s : Shell) : Shell where
  buffer := Function.update s.buffer fresh fun i =>
    if i < BUFFER_SIZE then 0 else s.buffer fresh i
  history := Function.update s.history s.historyPos fresh
  historyLength := s.historyLength
  historyPos := s.historyPos
  pos := 0
  length := 0

/-- `shell.c`, `finalize_command`, when no program runs. -/
def finalizeCommand (fresh : Nat) (s : Shell) : Option Shell :=
  (saveLine s).map (newLine fresh)

/-- `shell.c`, `shell_write_char`, when no program runs. -/
def shellWriteChar (fresh : Nat) (c : UInt8) (s : Shell) : Option Shell :=
  if c = 0 then some s
  else if c = 10 then finalizeCommand fresh s
  else if c = 9 then some s
  else if c = 8 then
    if 0 < s.pos then some (deleteChar { s with pos := s.pos - 1 }) else some s
  else if c = 127 then some (deleteChar s)
  else some (insertChar c s)

/-- `shell.c`, `shell_home`. -/
def shellHome (s : Shell) : Shell := { s with pos := 0 }

/-- `shell.c`, `shell_end`. -/
def shellEnd (s : Shell) : Shell := { s with pos := s.length }

/-- Goes to the line `i` of the history. -/
def goTo (i : Nat) (s : Shell) : Option Shell :=
  (strLength (s.bufferAt i) BUFFER_SIZE 0).map fun n =>
    { s with historyPos := i, pos := n, length := n }

/-- `shell.c`, `shell_up`. -/
def shellUp (s : Shell) : Option Shell :=
  if 0 < s.historyPos then goTo (s.historyPos - 1) s else some s

/-- `shell.c`, `shell_down`. -/
def shellDown (s : Shell) : Option Shell :=
  if s.historyPos < s.historyLength then goTo (s.historyPos + 1) s else some s

/-- `shell.c`, `shell_left`. -/
def shellLeft (s : Shell) : Shell := if 0 < s.pos then { s with pos := s.pos - 1 } else s

/-- `shell.c`, `shell_right`. -/
def shellRight (s : Shell) : Shell :=
  if s.pos < BUFFER_SIZE - 1 ∧ s.current s.pos ≠ 0 then { s with pos := s.pos + 1 } else s

/-- What the keyboard sends to the shell. -/
inductive Key where
  | char (c : UInt8)
  | home
  | toEnd
  | up
  | down
  | left
  | right
  deriving DecidableEq, Repr

/-- What a key does. -/
def press (fresh : Nat) (key : Key) (s : Shell) : Option Shell :=
  match key with
  | .char c => shellWriteChar fresh c s
  | .home => some (shellHome s)
  | .toEnd => some (shellEnd s)
  | .up => shellUp s
  | .down => shellDown s
  | .left => some (shellLeft s)
  | .right => some (shellRight s)

/-- The part of `shell_install` about the lines. -/
def shellInstall (memory : Nat → Bytes) (fresh : Nat) : Shell where
  buffer := Function.update memory fresh fun i => if i < BUFFER_SIZE then 0 else memory fresh i
  history := fun i => if i = 0 then fresh else 0
  historyLength := 0
  historyPos := 0
  pos := 0
  length := 0

/-- An address for a new line: none of the lines that stay has it. When the history is full, the
first line is freed before. -/
structure NotInUse (s : Shell) (fresh : Nat) : Prop where
  notNull : fresh ≠ 0
  apart : ∀ i, i ≤ s.historyLength → (s.historyLength = HISTORY_SIZE - 1 → i ≠ 0) →
    s.history i ≠ fresh

/-- A key is pressed. -/
def EditStep (s : Shell) (key : Key) (t : Shell) : Prop :=
  ∃ fresh, NotInUse s fresh ∧ press fresh key s = some t

/-! ## The reference editor -/

/-- The characters of a buffer up to the first `NUL`. -/
def line (b : Bytes) : List UInt8 := ((List.range BUFFER_SIZE).map b).takeWhile (· ≠ 0)

/-- The text and the cursor. -/
def view (s : Shell) : List UInt8 × Nat := (line s.current, s.pos)

/-- What a character does to a text and a cursor. -/
def referenceChar (c : UInt8) (v : List UInt8 × Nat) : List UInt8 × Nat :=
  if c = 0 then v
  else if c = 10 then ([], 0)
  else if c = 9 then v
  else if c = 8 then if 0 < v.2 then (v.1.eraseIdx (v.2 - 1), v.2 - 1) else v
  else if c = 127 then (v.1.eraseIdx v.2, v.2)
  else if v.1.length < 127 then (v.1.insertIdx v.2 c, v.2 + 1) else v

/-- The editor as it is meant: what a key does to the text and the cursor, with the history of the
state. -/
def reference (s : Shell) (key : Key) (v : List UInt8 × Nat) : List UInt8 × Nat :=
  match key with
  | .char c => referenceChar c v
  | .home => (v.1, 0)
  | .toEnd => (v.1, v.1.length)
  | .up =>
    if 0 < s.historyPos then
      (line (s.bufferAt (s.historyPos - 1)), (line (s.bufferAt (s.historyPos - 1))).length)
    else v
  | .down =>
    if s.historyPos < s.historyLength then
      (line (s.bufferAt (s.historyPos + 1)), (line (s.bufferAt (s.historyPos + 1))).length)
    else v
  | .left => (v.1, v.2 - 1)
  | .right => (v.1, min (v.2 + 1) v.1.length)

/-- The text is what stands before the first `NUL` of the current buffer, with the cursor in it. -/
structure EditorOk (s : Shell) : Prop where
  pos : s.pos ≤ s.length
  length : s.length ≤ 127
  char : ∀ i < s.length, s.current i ≠ 0
  terminator : s.current s.length = 0

/-- Whether the key makes the text longer. -/
def Inserts (s : Shell) (key : Key) : Prop :=
  ∃ c, key = .char c ∧ c ≠ 0 ∧ c ≠ 10 ∧ c ≠ 9 ∧ c ≠ 8 ∧ c ≠ 127 ∧ s.length < 127

/-- A key that makes the text longer finds a `NUL` behind the one that it moves. -/
def KeyOk (s : Shell) (key : Key) : Prop := Inserts s key → s.current (s.length + 1) = 0

variable {s t : Shell} {b : Bytes} {c : UInt8} {i n fresh : Nat} {key : Key}

/-! ## Buffers -/

lemma takeWhile_range' {k m : Nat} (hn : n < m) (hc : ∀ i < n, b (k + i) ≠ 0) (hz : b (k + n) = 0) :
    ((List.range' k m).map b).takeWhile (· ≠ 0) = (List.range' k n).map b := by
  induction n generalizing k m with
  | zero =>
    obtain ⟨m, rfl⟩ := Nat.exists_eq_add_of_lt hn
    rw [Nat.zero_add, List.range'_succ, List.map_cons, List.takeWhile_cons_of_neg (by simpa using hz)]
    rfl
  | succ n ih =>
    obtain ⟨m, rfl⟩ : ∃ m', m = m' + 1 := ⟨m - 1, by omega⟩
    have h0 : b k ≠ 0 := by simpa using hc 0 (Nat.zero_lt_succ n)
    rw [List.range'_succ, List.map_cons, List.takeWhile_cons_of_pos (by simpa using h0),
      ih (by omega) (fun i hi => ?_) (by rw [← hz]; congr 1; omega), List.range'_succ, List.map_cons]
    have := hc (i + 1) (by omega)
    rwa [show k + (i + 1) = k + 1 + i by omega] at this

/-- The line of a buffer ends at its first `NUL`. -/
lemma line_eq (hn : n ≤ 127) (hc : ∀ i < n, b i ≠ 0) (hz : b n = 0) :
    line b = (List.range n).map b := by
  unfold line
  rw [List.range_eq_range', List.range_eq_range', takeWhile_range' (n := n)]
  · unfold BUFFER_SIZE
    omega
  · simpa using hc
  · simpa using hz

/-- A buffer whose last byte is `NUL` holds a line. -/
lemma exists_line (h : b 127 = 0) :
    ∃ n, n ≤ 127 ∧ (∀ i < n, b i ≠ 0) ∧ b n = 0 := by
  classical
  have hex : ∃ n, b n = 0 := ⟨127, h⟩
  exact ⟨Nat.find hex, Nat.find_min' hex h, fun i hi => Nat.find_min hex hi, Nat.find_spec hex⟩

lemma length_line (hn : n ≤ 127) (hc : ∀ i < n, b i ≠ 0) (hz : b n = 0) : (line b).length = n := by
  rw [line_eq hn hc hz, List.length_map, List.length_range]

lemma hasString_line (h : b 127 = 0) : HasString b 0 (line b) ∧ (line b).length ≤ 127 := by
  obtain ⟨n, hn, hc, hz⟩ := exists_line h
  have hlen := length_line hn hc hz
  refine ⟨⟨fun i hi => ?_, ?_, ?_⟩, by omega⟩
  · simp only [line_eq hn hc hz, List.getElem_map, List.getElem_range, Nat.zero_add]
  · rw [line_eq hn hc hz]
    intro hm
    obtain ⟨i, hi, e⟩ := List.mem_map.mp hm
    exact hc i (List.mem_range.mp hi) e
  · rw [hlen, Nat.zero_add, hz]

lemma HasString.line_eq {cs : List UInt8} (h : HasString b 0 cs) (hl : cs.length ≤ 127) :
    line b = cs := by
  have hc : ∀ i < cs.length, b i ≠ 0 := by
    intro i hi e
    have := h.char i hi
    rw [Nat.zero_add, e] at this
    exact h.nonzero (this ▸ List.getElem_mem hi)
  have hz := h.terminator
  rw [Nat.zero_add] at hz
  rw [Shell.line_eq hl hc hz]
  refine List.ext_getElem (by simp) fun i h1 h2 => ?_
  have := h.char i h2
  rw [Nat.zero_add] at this
  rw [List.getElem_map, List.getElem_range, this]

lemma strLength_eq {fuel p : Nat} (hc : ∀ i < n, b i ≠ 0) (hz : b n = 0) (hp : p ≤ n)
    (hf : n - p < fuel) : strLength b fuel p = some n := by
  induction fuel generalizing p with
  | zero => omega
  | succ fuel ih =>
    rw [strLength]
    obtain hlt | rfl := Nat.lt_or_eq_of_le hp
    · rw [if_neg (hc p hlt), ih hlt (by omega)]
    · rw [if_pos hz]

lemma moveRight_apply (b : Bytes) (hn : n ≤ i) (x : Nat) :
    moveRight b i n x = if i - n < x ∧ x ≤ i then b (x - 1) else b x := by
  induction n generalizing b i with
  | zero => rw [moveRight, if_neg (by omega)]
  | succ n ih =>
    rw [moveRight, ih _ (by omega)]
    by_cases h : i - 1 - n < x ∧ x ≤ i - 1
    · rw [if_pos h, if_pos (by omega), Function.update_of_ne (by omega)]
    · rw [if_neg h]
      by_cases hx : x = i
      · subst hx
        rw [Function.update_self, if_pos (by omega)]
      · rw [Function.update_of_ne hx, if_neg (by omega)]

lemma moveLeft_apply (b : Bytes) (i n x : Nat) :
    moveLeft b i n x = if i ≤ x ∧ x < i + n then b (x + 1) else b x := by
  induction n generalizing b i with
  | zero => rw [moveLeft, if_neg (by omega)]
  | succ n ih =>
    rw [moveLeft, ih]
    by_cases h : i + 1 ≤ x ∧ x < i + 1 + n
    · rw [if_pos h, if_pos (by omega), Function.update_of_ne (by omega)]
    · rw [if_neg h]
      by_cases hx : x = i
      · subst hx
        rw [Function.update_self, if_pos (by omega)]
      · rw [Function.update_of_ne hx, if_neg (by omega)]

/-! ## The history -/

/-- The lines have buffers of their own, each with a `NUL` at its end. -/
structure Tidy (s : Shell) : Prop where
  le : s.historyPos ≤ s.historyLength
  lt : s.historyLength < HISTORY_SIZE
  inj : ∀ i j, i ≤ s.historyLength → j ≤ s.historyLength → s.history i = s.history j → i = j
  last : ∀ i ≤ s.historyLength, s.bufferAt i 127 = 0

lemma Tidy.bufferAt_setCurrent (h : Tidy s) (hi : i ≤ s.historyLength) :
    (s.setCurrent b).bufferAt i = if i = s.historyPos then b else s.bufferAt i := by
  change Function.update s.buffer (s.history s.historyPos) b (s.history i) = _
  by_cases e : i = s.historyPos
  · rw [if_pos e, e, Function.update_self]
  · rw [if_neg e, Function.update_of_ne fun hc => e (h.inj _ _ hi h.le hc)]
    rfl

lemma Tidy.setCurrent (h : Tidy s) (hb : b 127 = 0) : Tidy (s.setCurrent b) := by
  refine ⟨h.le, h.lt, h.inj, fun i hi => ?_⟩
  rw [h.bufferAt_setCurrent hi]
  split_ifs
  · exact hb
  · exact h.last i hi

lemma Tidy.current_last (h : Tidy s) : s.current 127 = 0 := h.last _ h.le

/-- The text of a state that is right. -/
lemma EditorOk.view (ok : EditorOk s) : view s = ((List.range s.length).map s.current, s.pos) := by
  rw [Shell.view, line_eq ok.length ok.char ok.terminator]

/-! ## Keys -/

lemma deleteChar_spec (h : Tidy s) (ok : EditorOk s) :
    Tidy (deleteChar s) ∧ EditorOk (deleteChar s) ∧
      view (deleteChar s) = ((view s).1.eraseIdx s.pos, s.pos) := by
  have hpos := ok.pos
  have hlen := ok.length
  have hb : moveLeft s.current s.pos (s.length - s.pos) 127 = 0 := by
    rw [moveLeft_apply, if_neg (by omega), h.current_last]
  have hcur : (deleteChar s).current = moveLeft s.current s.pos (s.length - s.pos) := by
    unfold deleteChar
    split_ifs
    · exact Function.update_self ..
    · exact Function.update_self ..
  have ht : Tidy (deleteChar s) := by
    unfold deleteChar
    split_ifs
    · obtain ⟨h1, h2, h3, h4⟩ := h.setCurrent hb
      exact ⟨h1, h2, h3, h4⟩
    · exact h.setCurrent hb
  obtain hlt | heq := Nat.lt_or_eq_of_le hpos
  · -- inside the line
    have hl : (deleteChar s).length = s.length - 1 := by
      unfold deleteChar
      rw [if_pos hlt]
      rfl
    have hp : (deleteChar s).pos = s.pos := by
      unfold deleteChar
      rw [if_pos hlt]
      rfl
    have ok' : EditorOk (deleteChar s) := by
      refine ⟨by omega, by omega, fun i hi => ?_, ?_⟩
      · rw [hcur, moveLeft_apply]
        split_ifs
        · exact ok.char _ (by omega)
        · exact ok.char _ (by omega)
      · rw [hcur, moveLeft_apply, hl, if_pos (by omega), Nat.sub_add_cancel (by omega), ok.terminator]
    refine ⟨ht, ok', ?_⟩
    rw [ok'.view, ok.view, hl, hp, hcur]
    refine Prod.ext (List.ext_getElem ?_ fun i h1 h2 => ?_) rfl
    · simp [List.length_eraseIdx, hlt]
    · rw [List.getElem_map, List.getElem_range, List.getElem_eraseIdx, moveLeft_apply]
      rw [List.length_map, List.length_range] at h1
      by_cases hi : i < s.pos
      · rw [if_neg (by omega), dif_pos hi, List.getElem_map, List.getElem_range]
      · rw [if_pos (by omega), dif_neg hi, List.getElem_map, List.getElem_range]
  · -- at the end of the line nothing is deleted
    have hl : (deleteChar s).length = s.length := by
      unfold deleteChar
      rw [if_neg (by omega)]
      rfl
    have hp : (deleteChar s).pos = s.pos := by
      unfold deleteChar
      rw [if_neg (by omega)]
      rfl
    have hsame : (deleteChar s).current = s.current := by
      rw [hcur, heq, Nat.sub_self]
      rfl
    have ok' : EditorOk (deleteChar s) := by
      refine ⟨by omega, by omega, ?_, ?_⟩
      · rw [hsame, hl]
        exact ok.char
      · rw [hsame, hl]
        exact ok.terminator
    refine ⟨ht, ok', ?_⟩
    rw [ok'.view, ok.view, hl, hp, hsame, List.eraseIdx_of_length_le (by simp [heq])]

lemma insertChar_eq (hlt : s.length < 127) : insertChar c s =
    { s.setCurrent (Function.update (moveRight s.current s.length (s.length - s.pos)) s.pos c) with
      pos := s.pos + 1, length := s.length + 1 } :=
  if_pos hlt

/-- What an insertion leaves in the buffer. -/
lemma inserted_apply (ok : EditorOk s) (x : Nat) :
    Function.update (moveRight s.current s.length (s.length - s.pos)) s.pos c x =
      if x < s.pos then s.current x else if x = s.pos then c
      else if x ≤ s.length then s.current (x - 1) else s.current x := by
  have hpos := ok.pos
  rw [Function.update_apply, moveRight_apply _ (Nat.sub_le _ _), Nat.sub_sub_self hpos]
  by_cases h1 : x = s.pos
  · rw [if_pos h1, if_neg (by omega), if_pos h1]
  · rw [if_neg h1]
    by_cases h2 : x < s.pos
    · rw [if_neg (by omega), if_pos h2]
    · rw [if_neg h2, if_neg h1]
      by_cases h3 : x ≤ s.length
      · rw [if_pos (by omega), if_pos h3]
      · rw [if_neg (by omega), if_neg h3]

/-- An insertion is right if and only if there is a `NUL` behind the one that is moved. -/
lemma insertChar_spec (h : Tidy s) (ok : EditorOk s) (hc : c ≠ 0) (hlt : s.length < 127) :
    Tidy (insertChar c s) ∧ ((EditorOk (insertChar c s) ∧
      view (insertChar c s) = ((view s).1.insertIdx s.pos c, s.pos + 1)) ↔
        s.current (s.length + 1) = 0) := by
  have hpos := ok.pos
  have hb := inserted_apply (c := c) ok
  have hcur : (insertChar c s).current =
      Function.update (moveRight s.current s.length (s.length - s.pos)) s.pos c := by
    rw [insertChar_eq hlt]
    exact Function.update_self ..
  have hl : (insertChar c s).length = s.length + 1 := by rw [insertChar_eq hlt]
  have hp : (insertChar c s).pos = s.pos + 1 := by rw [insertChar_eq hlt]
  have hz : (insertChar c s).current (s.length + 1) = s.current (s.length + 1) := by
    rw [hcur, hb, if_neg (by omega), if_neg (by omega), if_neg (by omega)]
  have ht : Tidy (insertChar c s) := by
    rw [insertChar_eq hlt]
    have h127 : Function.update (moveRight s.current s.length (s.length - s.pos)) s.pos c 127 = 0 := by
      rw [hb, if_neg (by omega), if_neg (by omega), if_neg (by omega), h.current_last]
    obtain ⟨h1, h2, h3, h4⟩ := h.setCurrent h127
    exact ⟨h1, h2, h3, h4⟩
  refine ⟨ht, fun ⟨ok', _⟩ => ?_, fun hnul => ?_⟩
  · have := ok'.terminator
    rwa [hl, hz] at this
  · have ok' : EditorOk (insertChar c s) := by
      refine ⟨by omega, by omega, fun i hi => ?_, by rw [hl, hz, hnul]⟩
      rw [hcur, hb]
      split_ifs
      · exact ok.char _ (by omega)
      · exact hc
      · exact ok.char _ (by omega)
      · omega
    refine ⟨ok', ?_⟩
    rw [ok'.view, ok.view, hl, hp, hcur]
    refine Prod.ext (List.ext_getElem ?_ fun i h1 h2 => ?_) rfl
    · rw [List.length_insertIdx_of_le_length (by simpa using hpos)]
      simp
    · rw [List.length_map, List.length_range] at h1
      rw [List.getElem_map, List.getElem_range, List.getElem_insertIdx, hb]
      by_cases h2 : i < s.pos
      · rw [if_pos h2, dif_pos h2, List.getElem_map, List.getElem_range]
      · rw [if_neg h2, dif_neg h2]
        by_cases h3 : i = s.pos
        · rw [if_pos h3, dif_pos h3]
        · rw [if_neg h3, dif_neg h3, if_pos (by omega), List.getElem_map, List.getElem_range]

lemma goTo_spec (h : Tidy s) (hi : i ≤ s.historyLength) :
    ∃ t, goTo i s = some t ∧ Tidy t ∧ EditorOk t ∧
      view t = (line (s.bufferAt i), (line (s.bufferAt i)).length) := by
  obtain ⟨n, hn, hc, hz⟩ := exists_line (h.last i hi)
  have e : strLength (s.bufferAt i) BUFFER_SIZE 0 = some n :=
    strLength_eq hc hz (Nat.zero_le _) (by unfold BUFFER_SIZE; omega)
  refine ⟨{ s with historyPos := i, pos := n, length := n }, ?_, ⟨hi, h.lt, h.inj, h.last⟩,
    ⟨le_refl n, hn, hc, hz⟩, ?_⟩
  · rw [goTo, e, Option.map_some]
  · rw [length_line hn hc hz]
    rfl

/-- What a finished command leaves. -/
structure Finalized (s t : Shell) (fresh : Nat) : Prop where
  tidy : Tidy t
  pos : t.pos = 0
  length : t.length = 0
  last : t.historyPos = t.historyLength
  blank : ∀ x < BUFFER_SIZE, t.current x = 0
  address : t.history t.historyLength = fresh
  saved : s.historyLength ≠ HISTORY_SIZE - 1 → t.historyLength = s.historyLength + 1 ∧
    (∀ i < s.historyLength, t.bufferAt i = s.bufferAt i) ∧
    line (t.bufferAt s.historyLength) = line s.current
  moved : s.historyLength = HISTORY_SIZE - 1 → t.historyLength = s.historyLength ∧
    ∀ i < s.historyLength, t.bufferAt i = s.bufferAt (i + 1)

lemma Finalized.editorOk (h : Finalized s t fresh) : EditorOk t := by
  refine ⟨by rw [h.pos, h.length], by rw [h.length]; omega, fun i hi => ?_, ?_⟩
  · rw [h.length] at hi
    omega
  · rw [h.length]
    exact h.blank 0 (by decide)

/-- A new line in the place of the last one. -/
lemma newLine_bufferAt {u : Shell} (hi : i ≠ u.historyPos) (hf : u.history i ≠ fresh) :
    (newLine fresh u).bufferAt i = u.bufferAt i := by
  change Function.update u.buffer fresh _ (Function.update u.history u.historyPos fresh i) = _
  rw [Function.update_of_ne hi, Function.update_of_ne hf]
  rfl

lemma newLine_current {u : Shell} {x : Nat} (hx : x < BUFFER_SIZE) :
    (newLine fresh u).current x = 0 := by
  change Function.update u.buffer fresh _ (Function.update u.history u.historyPos fresh u.historyPos) x
    = 0
  rw [Function.update_self, Function.update_self, if_pos hx]

lemma newLine_history {u : Shell} (i : Nat) :
    (newLine fresh u).history i = if i = u.historyPos then fresh else u.history i :=
  Function.update_apply ..

/-- The lines in front of a new last line keep the state tidy. -/
lemma Tidy.newLine {u : Shell} (hl : u.historyPos = u.historyLength)
    (hlt : u.historyLength < HISTORY_SIZE)
    (hf : ∀ i < u.historyLength, u.history i ≠ fresh)
    (hinj : ∀ i j, i < u.historyLength → j < u.historyLength → u.history i = u.history j → i = j)
    (hlast : ∀ i < u.historyLength, u.bufferAt i 127 = 0) : Tidy (Shell.newLine fresh u) := by
  refine ⟨le_of_eq hl, hlt, fun i j hi hj e => ?_, fun i hi => ?_⟩
  · change i ≤ u.historyLength at hi
    change j ≤ u.historyLength at hj
    rw [newLine_history, newLine_history] at e
    split_ifs at e with h1 h2 h2
    · rw [h1, h2]
    · exact absurd e.symm (hf j (by omega))
    · exact absurd e (hf i (by omega))
    · exact hinj i j (by omega) (by omega) e
  · change i ≤ u.historyLength at hi
    by_cases h1 : i = u.historyPos
    · subst h1
      exact newLine_current (by decide)
    · rw [newLine_bufferAt h1 (hf i (by omega))]
      exact hlast i (by omega)

lemma saveLine_full (e : s.historyLength = HISTORY_SIZE - 1) : saveLine s = some { s with
    history := fun i => if i + 1 < HISTORY_SIZE then s.history (i + 1) else s.history i
    historyPos := s.historyLength } :=
  if_pos e

/-- The end of a command when the history is full. -/
lemma finalize_full (h : Tidy s) (hf : NotInUse s fresh) (e : s.historyLength = HISTORY_SIZE - 1) :
    ∃ t, finalizeCommand fresh s = some t ∧ Finalized s t fresh := by
  have hlen : s.historyLength = 99 := e
  refine ⟨_, by rw [finalizeCommand, saveLine_full e, Option.map_some], ?_⟩
  have hhist : ∀ i < s.historyLength,
      (if i + 1 < HISTORY_SIZE then s.history (i + 1) else s.history i) = s.history (i + 1) :=
    fun i hi => if_pos (by unfold HISTORY_SIZE; omega)
  have hbuf : ∀ i < s.historyLength, s.buffer (if i + 1 < HISTORY_SIZE then s.history (i + 1)
      else s.history i) = s.bufferAt (i + 1) := by
    intro i hi
    rw [hhist i hi]
    rfl
  have hne : ∀ i < s.historyLength, (if i + 1 < HISTORY_SIZE then s.history (i + 1)
      else s.history i) ≠ fresh := by
    intro i hi
    rw [hhist i hi]
    exact hf.apart (i + 1) hi fun _ => Nat.succ_ne_zero i
  refine ⟨.newLine rfl h.lt hne (fun i j hi hj he => ?_) (fun i hi => ?_), rfl, rfl, rfl,
    fun x hx => newLine_current hx, ?_, fun hc => absurd e hc, fun _ => ⟨rfl, fun i hi => ?_⟩⟩
  · dsimp only at he
    rw [hhist i hi, hhist j hj] at he
    exact Nat.succ.inj (h.inj _ _ hi hj he)
  · change s.buffer _ 127 = 0
    rw [hbuf i hi]
    exact h.last _ hi
  · rw [newLine_history]
    exact if_pos rfl
  · rw [newLine_bufferAt (Nat.ne_of_lt hi) (hne i hi)]
    exact hbuf i hi

/-- The copy of the line that was executed. -/
lemma saveLine_room (h : Tidy s) (e : s.historyLength ≠ HISTORY_SIZE - 1) :
    ∃ b, saveLine s = some { s with
        buffer := Function.update s.buffer (s.history s.historyLength) b
        historyLength := s.historyLength + 1
        historyPos := s.historyLength + 1 } ∧
      b 127 = 0 ∧ line b = line s.current := by
  obtain ⟨hs, hlen⟩ := hasString_line h.current_last
  obtain ⟨b, hb, hout, hin, hz⟩ := Strings.copyLoop_spec (n := BUFFER_SIZE)
    (s.bufferAt s.historyLength) 0 hs (Nat.zero_le _) (by unfold BUFFER_SIZE; omega)
  refine ⟨b, by rw [saveLine, if_neg e, hb, Option.map_some], ?_, ?_⟩
  · obtain hlt | heq := Nat.lt_or_eq_of_le hlen
    · rw [hout 127 (by omega)]
      exact h.last _ (le_refl _)
    · rwa [heq, Nat.zero_add] at hz
  · exact HasString.line_eq ⟨fun i hi => hin i hi (Nat.zero_le i), hs.nonzero, hz⟩ hlen

/-- The end of a command when there is room in the history. -/
lemma finalize_room (h : Tidy s) (hf : NotInUse s fresh) (e : s.historyLength ≠ HISTORY_SIZE - 1) :
    ∃ t, finalizeCommand fresh s = some t ∧ Finalized s t fresh := by
  obtain ⟨b, hb, h127, hline⟩ := saveLine_room h e
  refine ⟨_, by rw [finalizeCommand, hb, Option.map_some], ?_⟩
  have hlt : s.historyLength + 1 < HISTORY_SIZE := by
    have := h.lt
    unfold HISTORY_SIZE at *
    omega
  have hne : ∀ i < s.historyLength + 1, s.history i ≠ fresh := fun i hi =>
    hf.apart i (Nat.le_of_lt_succ hi) fun hc => absurd hc e
  have hbuf : ∀ i < s.historyLength + 1,
      Function.update s.buffer (s.history s.historyLength) b (s.history i) =
        if i = s.historyLength then b else s.bufferAt i := by
    intro i hi
    by_cases hi' : i = s.historyLength
    · rw [if_pos hi', hi', Function.update_self]
    · rw [if_neg hi', Function.update_of_ne fun hc =>
        hi' (h.inj _ _ (Nat.le_of_lt_succ hi) (le_refl _) hc)]
      rfl
  have hat : ∀ i < s.historyLength + 1, (newLine fresh { s with
      buffer := Function.update s.buffer (s.history s.historyLength) b
      historyLength := s.historyLength + 1
      historyPos := s.historyLength + 1 }).bufferAt i =
        if i = s.historyLength then b else s.bufferAt i := by
    intro i hi
    refine (newLine_bufferAt ?_ ?_).trans (hbuf i hi)
    · exact Nat.ne_of_lt hi
    · exact hne i hi
  refine ⟨.newLine rfl hlt hne (fun i j hi hj he => ?_) (fun i hi => ?_), rfl, rfl, rfl,
    fun x hx => newLine_current hx, ?_, fun _ => ⟨rfl, fun i hi => ?_, ?_⟩, fun hc => absurd hc e⟩
  · exact h.inj i j (Nat.le_of_lt_succ hi) (Nat.le_of_lt_succ hj) he
  · change Function.update s.buffer (s.history s.historyLength) b (s.history i) 127 = 0
    rw [hbuf i hi]
    split_ifs
    · exact h127
    · exact h.last i (Nat.le_of_lt_succ hi)
  · rw [newLine_history]
    exact if_pos rfl
  · rw [hat i (by omega), if_neg (by omega)]
  · rw [hat _ (Nat.lt_succ_self _), if_pos rfl, hline]

/-- A command is finished with its line kept and a new line. -/
lemma finalize_spec (h : Tidy s) (hf : NotInUse s fresh) :
    ∃ t, finalizeCommand fresh s = some t ∧ Finalized s t fresh := by
  by_cases e : s.historyLength = HISTORY_SIZE - 1
  · exact finalize_full h hf e
  · exact finalize_room h hf e

/-- An empty line. -/
lemma Finalized.view (h : Finalized s t fresh) : Shell.view t = ([], 0) := by
  rw [h.editorOk.view, h.length, h.pos]
  rfl

/-- A state that is right, with the text and the cursor of the reference editor. -/
def Agrees (s : Shell) (key : Key) (t : Shell) : Prop :=
  EditorOk t ∧ view t = reference s key (view s)

/-- A key that does not make the text longer. -/
lemma agrees_iff (ha : Agrees s key t) (hn : ¬ Inserts s key) : Agrees s key t ↔ KeyOk s key :=
  iff_of_true ha fun hi => absurd hi hn

lemma not_inserts (hc : c = 0 ∨ c = 10 ∨ c = 9 ∨ c = 8 ∨ c = 127 ∨ 127 ≤ s.length) :
    ¬ Inserts s (.char c) := by
  rintro ⟨d, e, h0, h10, h9, h8, h127, hl⟩
  obtain rfl := Key.char.inj e
  obtain hc | hc | hc | hc | hc | hc := hc
  · exact h0 hc
  · exact h10 hc
  · exact h9 hc
  · exact h8 hc
  · exact h127 hc
  · omega

/-- A character. -/
lemma char_spec (h : Tidy s) (ok : EditorOk s) (hf : NotInUse s fresh) :
    ∃ t, press fresh (.char c) s = some t ∧ Tidy t ∧ (Agrees s (.char c) t ↔ KeyOk s (.char c)) := by
  have href : reference s (.char c) (view s) = referenceChar c (view s) := rfl
  change ∃ t, shellWriteChar fresh c s = some t ∧ _
  unfold shellWriteChar
  unfold referenceChar at href
  by_cases h0 : c = 0
  · rw [if_pos h0] at href ⊢
    exact ⟨s, rfl, h, agrees_iff ⟨ok, href.symm⟩ (not_inserts (.inl h0))⟩
  rw [if_neg h0] at href ⊢
  by_cases h10 : c = 10
  · rw [if_pos h10] at href ⊢
    obtain ⟨t, e, ht⟩ := finalize_spec h hf
    exact ⟨t, e, ht.tidy, agrees_iff ⟨ht.editorOk, ht.view.trans href.symm⟩
      (not_inserts (.inr (.inl h10)))⟩
  rw [if_neg h10] at href ⊢
  by_cases h9 : c = 9
  · rw [if_pos h9] at href ⊢
    exact ⟨s, rfl, h, agrees_iff ⟨ok, href.symm⟩ (not_inserts (.inr (.inr (.inl h9))))⟩
  rw [if_neg h9] at href ⊢
  by_cases h8 : c = 8
  · have hn : ¬ Inserts s (.char c) := not_inserts (.inr (.inr (.inr (.inl h8))))
    rw [if_pos h8] at href ⊢
    by_cases hp : 0 < s.pos
    · rw [if_pos hp]
      rw [if_pos (show 0 < (view s).2 from hp)] at href
      have ok' : EditorOk { s with pos := s.pos - 1 } :=
        ⟨(Nat.sub_le _ _).trans ok.pos, ok.length, ok.char, ok.terminator⟩
      have h' : Tidy { s with pos := s.pos - 1 } := ⟨h.le, h.lt, h.inj, h.last⟩
      obtain ⟨ht, hok, hview⟩ := deleteChar_spec h' ok'
      exact ⟨_, rfl, ht, agrees_iff ⟨hok, hview.trans href.symm⟩ hn⟩
    · rw [if_neg hp]
      rw [if_neg (show ¬ 0 < (view s).2 from hp)] at href
      exact ⟨s, rfl, h, agrees_iff ⟨ok, href.symm⟩ hn⟩
  rw [if_neg h8] at href ⊢
  by_cases h127 : c = 127
  · rw [if_pos h127] at href ⊢
    obtain ⟨ht, hok, hview⟩ := deleteChar_spec h ok
    exact ⟨_, rfl, ht, agrees_iff ⟨hok, hview.trans href.symm⟩
      (not_inserts (.inr (.inr (.inr (.inr (.inl h127))))))⟩
  rw [if_neg h127] at href ⊢
  have hlen : (view s).1.length = s.length := length_line ok.length ok.char ok.terminator
  refine ⟨_, rfl, ?_⟩
  -- a character of the line, unless that is full
  by_cases hlt : s.length < 127
  · rw [hlen, if_pos hlt] at href
    obtain ⟨ht, hiff⟩ := insertChar_spec h ok h0 hlt
    refine ⟨ht, ?_⟩
    rw [Agrees, href]
    exact hiff.trans ⟨fun hz _ => hz, fun hk => hk ⟨c, rfl, h0, h10, h9, h8, h127, hlt⟩⟩
  · rw [hlen, if_neg hlt] at href
    have e : insertChar c s = s := if_neg hlt
    rw [e]
    exact ⟨h, agrees_iff ⟨ok, href.symm⟩
      (not_inserts (.inr (.inr (.inr (.inr (.inr (Nat.le_of_not_lt hlt)))))))⟩

/-- What a key does to a state that is right. -/
lemma press_spec (h : Tidy s) (ok : EditorOk s) (hf : NotInUse s fresh) (key : Key) :
    ∃ t, press fresh key s = some t ∧ Tidy t ∧ (Agrees s key t ↔ KeyOk s key) := by
  have hview := ok.view
  have hlen : (view s).1.length = s.length := length_line ok.length ok.char ok.terminator
  obtain ⟨h1, h2, h3, h4⟩ := h
  -- a move of the cursor changes nothing else
  have move : ∀ p, p ≤ s.length → Tidy { s with pos := p } ∧ EditorOk { s with pos := p } ∧
      view { s with pos := p } = ((view s).1, p) := fun p hp =>
    ⟨⟨h1, h2, h3, h4⟩, ⟨hp, ok.length, ok.char, ok.terminator⟩, rfl⟩
  cases key with
  | char c => exact char_spec ⟨h1, h2, h3, h4⟩ ok hf
  | home =>
    obtain ⟨ht, hok, hv⟩ := move 0 (Nat.zero_le _)
    exact ⟨_, rfl, ht, agrees_iff ⟨hok, hv⟩ nofun⟩
  | toEnd =>
    obtain ⟨ht, hok, hv⟩ := move s.length (le_refl _)
    refine ⟨_, rfl, ht, agrees_iff ⟨hok, hv.trans ?_⟩ nofun⟩
    rw [reference, hlen]
  | up =>
    rw [press, shellUp]
    by_cases hp : 0 < s.historyPos
    · obtain ⟨t, e, ht, hok, hv⟩ := goTo_spec (i := s.historyPos - 1) ⟨h1, h2, h3, h4⟩ (by omega)
      rw [if_pos hp]
      refine ⟨t, e, ht, agrees_iff ⟨hok, hv.trans ?_⟩ nofun⟩
      rw [reference, if_pos hp]
    · rw [if_neg hp]
      refine ⟨s, rfl, ⟨h1, h2, h3, h4⟩, agrees_iff ⟨ok, ?_⟩ nofun⟩
      rw [reference, if_neg hp]
  | down =>
    rw [press, shellDown]
    by_cases hp : s.historyPos < s.historyLength
    · obtain ⟨t, e, ht, hok, hv⟩ := goTo_spec (i := s.historyPos + 1) ⟨h1, h2, h3, h4⟩ hp
      rw [if_pos hp]
      refine ⟨t, e, ht, agrees_iff ⟨hok, hv.trans ?_⟩ nofun⟩
      rw [reference, if_pos hp]
    · rw [if_neg hp]
      refine ⟨s, rfl, ⟨h1, h2, h3, h4⟩, agrees_iff ⟨ok, ?_⟩ nofun⟩
      rw [reference, if_neg hp]
  | left =>
    obtain ⟨ht, hok, hv⟩ := move (s.pos - 1) ((Nat.sub_le _ _).trans ok.pos)
    have e : shellLeft s = { s with pos := s.pos - 1 } := by
      unfold shellLeft
      split_ifs with hp
      · rfl
      · rw [Nat.sub_eq_zero_of_le (by omega), ← Nat.eq_zero_of_not_pos hp]
    exact ⟨_, rfl, e ▸ ht, agrees_iff ⟨e ▸ hok, e ▸ hv⟩ nofun⟩
  | right =>
    have hpos := ok.pos
    obtain ⟨ht, hok, hv⟩ := move (min (s.pos + 1) s.length) (Nat.min_le_right _ _)
    have e : shellRight s = { s with pos := min (s.pos + 1) s.length } := by
      unfold shellRight
      obtain hlt | heq := Nat.lt_or_eq_of_le hpos
      · have hl := ok.length
        rw [if_pos ⟨by unfold BUFFER_SIZE; omega, ok.char _ hlt⟩, Nat.min_eq_left hlt]
      · rw [if_neg fun hc => hc.2 (heq ▸ ok.terminator), Nat.min_eq_right (by omega)]
        exact congrArg (fun p => { s with pos := p }) heq
    refine ⟨_, rfl, e ▸ ht, agrees_iff ⟨e ▸ hok, ?_⟩ nofun⟩
    rw [e, hv, reference, hlen]
    rfl

/-! ## Sessions -/

lemma shellInstall_tidy (memory : Nat → Bytes) (fresh : Nat) : Tidy (shellInstall memory fresh) := by
  refine ⟨le_refl 0, Nat.zero_lt_succ 99, fun i j hi hj _ => ?_, fun i hi => ?_⟩
  · exact (Nat.le_zero.mp hi).trans (Nat.le_zero.mp hj).symm
  · obtain rfl := Nat.le_zero.mp hi
    change Function.update memory fresh _ fresh 127 = 0
    rw [Function.update_self]
    rfl

lemma shellInstall_ok (memory : Nat → Bytes) (fresh : Nat) :
    EditorOk (shellInstall memory fresh) := by
  refine ⟨le_refl 0, Nat.zero_le 127, nofun, ?_⟩
  change Function.update memory fresh _ fresh 0 = 0
  rw [Function.update_self]
  rfl

/-- After keys that met the condition the state is right, and the next key does what it does in the
reference editor if and only if it meets the condition. -/
theorem line_editor {memory : Nat → Bytes} {first : Nat} {keys : List Key}
    (r : Run (Guarded KeyOk EditStep) (shellInstall memory first) keys s) :
    EditorOk s ∧ ∀ key fresh, NotInUse s fresh →
      ∃ t, press fresh key s = some t ∧ (Agrees s key t ↔ KeyOk s key) := by
  obtain ⟨h, ok⟩ : Tidy s ∧ EditorOk s := by
    refine r.invariant (I := fun s => Tidy s ∧ EditorOk s) ?_
      ⟨shellInstall_tidy memory first, shellInstall_ok memory first⟩
    rintro s key t ⟨h, ok⟩ ⟨hk, fresh, hf, e⟩
    obtain ⟨t', e', ht, hiff⟩ := press_spec h ok hf key
    obtain rfl := Option.some.inj (e.symm.trans e')
    exact ⟨ht, (hiff.mpr hk).1⟩
  refine ⟨ok, fun key fresh hf => ?_⟩
  obtain ⟨t, e, _, hiff⟩ := press_spec h ok hf key
  exact ⟨t, e, hiff⟩

/-- The keys one after the other, with lines at the addresses 256, 512 and so on. -/
def typed (s : Shell) (keys : List Key) : Option Shell :=
  keys.foldlM (fun s key => press (256 * (s.historyLength + 2)) key s) s

/-- A new shell with its line at 256. -/
def newShell : Shell := shellInstall (fun _ _ => 0) 256

instance (s : Shell) (fresh : Nat) : Decidable (NotInUse s fresh) :=
  decidable_of_iff (fresh ≠ 0 ∧ ∀ i, i ≤ s.historyLength →
      (s.historyLength = HISTORY_SIZE - 1 → i ≠ 0) → s.history i ≠ fresh)
    ⟨fun h => ⟨h.1, h.2⟩, fun h => ⟨h.notNull, h.apart⟩⟩

/-- The keys are typed as long as there is a `NUL` behind the terminator. -/
def typedOk (s : Shell) : List Key → Option Shell
  | [] => some s
  | key :: keys =>
    if s.current (s.length + 1) = 0 ∧ NotInUse s (256 * (s.historyLength + 2)) then
      (press (256 * (s.historyLength + 2)) key s).bind (typedOk · keys)
    else
      none

lemma typedOk_run {keys : List Key} (h : typedOk s keys = some t) :
    Run (Guarded KeyOk EditStep) s keys t := by
  induction keys generalizing s with
  | nil =>
    cases h
    exact .nil
  | cons key keys ih =>
    rw [typedOk] at h
    split at h
    next hok =>
      obtain ⟨u, hu, h⟩ := Option.bind_eq_some_iff.mp h
      exact (Run.single ⟨fun _ => hok.1, _, hok.2, hu⟩).append (ih h)
    next => cases h

/-- `ab`, enter, `c`, up, left: the line is `ab` again, and the cursor is on the `b`. -/
def edited : List Key := [.char 97, .char 98, .char 10, .char 99, .up, .left]

/-- Then `x` is inserted as in the reference editor. -/
theorem line_editor_sample :
    ∃ s t, Run (Guarded KeyOk EditStep) newShell edited s ∧ press 1024 (.char 120) s = some t ∧
      Agrees s (.char 120) t ∧ view t = ([97, 120, 98], 2) := by
  have hrun : ((typedOk newShell edited).bind fun s => (press 1024 (.char 120) s).map fun t =>
      (s.current (s.length + 1), decide (NotInUse s 1024), view t)) =
      some (0, true, [97, 120, 98], 2) := by
    decide +kernel
  obtain ⟨s, hs, hrun⟩ := Option.bind_eq_some_iff.mp hrun
  obtain ⟨t, ht, hrun⟩ := Option.map_eq_some_iff.mp hrun
  simp only [Prod.mk.injEq, decide_eq_true_eq] at hrun
  obtain ⟨hnul, hfresh, hview⟩ := hrun
  have r := typedOk_run hs
  obtain ⟨t', e, hiff⟩ := (line_editor r).2 (.char 120) 1024 hfresh
  obtain rfl := Option.some.inj (ht.symm.trans e)
  exact ⟨s, t, r, ht, hiff.mpr fun _ => hnul, hview⟩

/-- `ab`, enter, `cdef`, up, enter, up: the last line is `ab` again, in a buffer in which `f` is
left behind the `NUL`. -/
def recalled : List Key :=
  [.char 97, .char 98, .char 10, .char 99, .char 100, .char 101, .char 102, .up, .char 10, .up]

/-- A character typed behind a line that was recalled: there is no `NUL` behind it. -/
theorem line_editor_unterminated :
    ∃ t, typed newShell (recalled ++ [.char 120]) = some t ∧ ¬ EditorOk t := by
  have hrun : (typed newShell (recalled ++ [.char 120])).map (fun t => (t.length, t.current t.length)) =
      some (3, 102) := by decide +kernel
  obtain ⟨t, e, ht⟩ := Option.map_eq_some_iff.mp hrun
  refine ⟨t, e, fun ok => ?_⟩
  have h := ok.terminator
  have h2 : t.current t.length = 102 := congrArg Prod.snd ht
  rw [h2] at h
  exact absurd h (by decide)

end MarioBrOS.Shell
