import Mathlib.Tactic.Lemma
import Mathlib.Data.List.Infix

/-!
# The keyboard

`keyboard_shell_handler` of `keyboard.c`: what a scancode does to the modifiers and what is sent to
the shell, while a program started by the shell runs and while none does. The switch of page
directories around it is left out. A look-up behind the table `kbdus` has no result.

The main result says when `k_shift` is what the Caps-Lock light and the shift keys make it.
-/

namespace MarioBrOS.Keyboard

/-- `keyboard.c`, `kbdus`: the keys without shift, then with shift. -/
def kbdus : Array UInt8 := #[
  0, 19, 38, 130, 34, 39, 40, 45, 138, 95, 135, 133, 41, 61, 8, 9,
  97, 122, 101, 114, 116, 121, 117, 105, 111, 112, 94, 36, 10, 0, 113, 115,
  100, 102, 103, 104, 106, 107, 108, 109, 151, 253, 0, 42, 119, 120, 99, 118,
  98, 110, 44, 59, 58, 33, 0, 42, 0, 32, 0, 70, 70, 70, 70, 70,
  70, 70, 70, 70, 70, 0, 0, 0, 0, 24, 45, 0, 234, 0, 43, 0,
  0, 25, 73, 127, 234, 234, 60, 70, 70, 234, 234, 5, 234, 219, 234, 234,
  234, 234, 234, 234, 234, 234, 234, 234, 234, 234, 234, 234, 234, 234, 234, 234,
  234, 234, 234, 234, 234, 234, 234, 234, 234, 234, 234, 234, 234, 234, 234, 234,
  0, 27, 49, 50, 51, 52, 53, 54, 55, 56, 57, 48, 0, 43, 8, 9,
  65, 90, 69, 82, 84, 89, 85, 73, 79, 80, 137, 156, 10, 0, 81, 83,
  68, 70, 71, 72, 74, 75, 76, 77, 37, 234, 0, 230, 87, 88, 67, 86,
  66, 78, 63, 46, 47, 21, 0, 234, 0, 32, 0, 70, 70, 70, 70, 70,
  70, 70, 70, 70, 72, 0, 0, 0, 0, 24, 45, 0, 63, 0, 43, 0,
  0, 25, 73, 127, 63, 63, 62, 70, 70, 234, 234, 5, 234, 219, 234, 234,
  234, 234, 234, 234, 234, 234, 234, 234, 234, 234, 234, 234, 234, 234, 234, 234,
  234, 234, 234, 234, 234, 234, 234, 234, 234, 234, 234, 234, 234, 234, 234, 234]

/-- The globals of `keyboard.c`. -/
structure Keys where
  kShiftCount : UInt8
  kShift : UInt8
  kMeta : UInt8
  kCtrl : UInt8
  kLights : UInt8
  kDeadHat : Bool
  kDeadTrema : Bool
  deriving DecidableEq, Repr

/-- What the handler does besides. -/
inductive Action where
  | setLights (signal : UInt8)
  | shellHome
  | shellUp
  | shellLeft
  | shellRight
  | shellEnd
  | shellDown
  | writeChar (c : UInt8)
  | writeString (s : String)
  | interrupt
  deriving DecidableEq, Repr

/-- The character code of a letter. -/
def code (c : Char) : UInt8 := c.toNat.toUInt8

/-- What the dead key `^` makes of a letter. -/
def hats : List (UInt8 × String) :=
  [(code 'a', "â"), (code 'e', "ê"), (code 'i', "î"), (code 'o', "ô"), (code 'u', "û")]

/-- What the dead key for the trema makes of a letter. -/
def tremas : List (UInt8 × String) :=
  [(code 'a', "ä"), (code 'e', "ë"), (code 'i', "ï"), (code 'o', "ö"), (code 'u', "ü"),
    (code 'y', "ÿ"), (code 'A', "Ä"), (code 'O', "Ö"), (code 'U', "Ü")]

/-- The index that the handler uses for `kbdus`. -/
def kbdIndex (scancode : UInt8) (k : Keys) : Nat := scancode.toNat + k.kShift.toNat * 128

/-- A shift key is pressed. -/
def pressShift (k : Keys) : Keys :=
  { k with kShiftCount := k.kShiftCount + 1, kShift := ((k.kLights &&& 4) ^^^ 4) >>> 2 }

/-- A shift key is released. -/
def releaseShift (k : Keys) : Keys :=
  { k with
    kShiftCount := k.kShiftCount - 1
    kShift := ((k.kLights &&& 4) >>> 2) ^^^ (k.kShiftCount - 1) }

/-- The switch of both modes for a key that is released; `key` is the scancode without its top bit.
-/
def release (key : UInt8) (k : Keys) : Keys :=
  if key = 29 then { k with kCtrl := k.kCtrl - 1 }
  else if key = 42 ∨ key = 54 then releaseShift k
  else if key = 56 then { k with kMeta := k.kMeta - 1 }
  else k

/-- The cases 29 to 70 of the switch of both modes for a key that is pressed. -/
def pressModifier (key : UInt8) (k : Keys) : Option (Keys × List Action) :=
  if key = 29 then some ({ k with kCtrl := k.kCtrl + 1 }, [])
  else if key = 42 ∨ key = 54 then some (pressShift k, [])
  else if key = 56 then some ({ k with kMeta := k.kMeta + 1 }, [])
  else if key = 58 then
    let lights := k.kLights ^^^ 4
    some ({ k with kLights := lights, kShift := if k.kShift = 0 then 1 else 0 }, [.setLights lights])
  else if key = 69 then
    some ({ k with kLights := k.kLights ^^^ 2 }, [.setLights (k.kLights ^^^ 2)])
  else if key = 70 then
    some ({ k with kLights := k.kLights ^^^ 1 }, [.setLights (k.kLights ^^^ 1)])
  else none

/-- The case of the dead key; `hat` is what it does when it is pressed for the second time. -/
def pressDead (hat : List Action) (k : Keys) : Keys × List Action :=
  if k.kShift ≠ 0 then ({ k with kDeadHat := false, kDeadTrema := true }, [])
  else if k.kDeadHat then ({ k with kDeadHat := false }, hat)
  else ({ k with kDeadHat := true }, [])

/-- The switch for a key that is pressed while a program runs. -/
def pressRunning (key : UInt8) (k : Keys) : Keys × List Action :=
  if key = 26 then pressDead [] k else (pressModifier key k).getD (k, [])

/-- The default case of the shell. -/
def pressLetter (key : UInt8) (k : Keys) : Option (Keys × List Action) :=
  kbdus[kbdIndex key k]?.map fun c =>
    let accented := if k.kDeadHat then hats.lookup c
      else if k.kDeadTrema then tremas.lookup c else none
    ({ k with kDeadHat := false, kDeadTrema := false },
      [match accented with
        | some s => .writeString s
        | none => .writeChar c])

/-- The switch for a key that is pressed in the shell. -/
def pressShell (key : UInt8) (k : Keys) : Option (Keys × List Action) :=
  if key = 26 then some (pressDead [.writeChar (code '^')] k)
  else match pressModifier key k with
    | some r => some r
    | none =>
      if key = 71 then some (k, [.shellHome])
      else if key = 72 then some (k, [.shellUp])
      else if key = 75 then some (k, [.shellLeft])
      else if key = 77 then some (k, [.shellRight])
      else if key = 79 then some (k, [.shellEnd])
      else if key = 80 then some (k, [.shellDown])
      else pressLetter key k

/-- `keyboard.c`, `keyboard_shell_handler`. `running` says whether a program of the shell runs. -/
def keyboardShellHandler (running : Bool) (scancode : UInt8) (k : Keys) :
    Option (Keys × List Action) :=
  let released := scancode &&& 0x80 ≠ 0
  if running then
    let r := if released then (release (scancode ^^^ 0x80) k, []) else pressRunning scancode k
    if r.1.kCtrl ≠ 0 ∧ ¬released then
      kbdus[kbdIndex scancode r.1]?.map fun c =>
        if c = code 'c' then (r.1, r.2 ++ [.interrupt]) else r
    else
      some r
  else if released then
    some (release (scancode ^^^ 0x80) k, [])
  else
    pressShell scancode k

/-- The globals at the start. -/
def boot : Keys where
  kShiftCount := 0
  kShift := 0
  kMeta := 0
  kCtrl := 0
  kLights := 0
  kDeadHat := false
  kDeadTrema := false

/-- An interrupt: whether a program runs, and the scancode. -/
abbrev KeyEvent := Bool × UInt8

/-- The globals after the interrupts. -/
def afterKeys (es : List KeyEvent) : Option Keys :=
  es.foldlM (fun k e => (keyboardShellHandler e.1 e.2 k).map Prod.fst) boot

/-! ## The shift keys -/

/-- Whether the key is held after the scancodes. -/
def isHeld (key : UInt8) (es : List KeyEvent) : Bool :=
  es.foldl (fun h e => if e.2 = key then true else if e.2 = key ^^^ 0x80 then false else h) false

/-- Whether a shift key is held. -/
def shiftHeld (es : List KeyEvent) : Bool := isHeld 42 es || isHeld 54 es

/-- The make codes of the shift keys less their break codes, modulo 256. -/
def shiftCount (es : List KeyEvent) : UInt8 :=
  es.foldl (fun n e => if e.2 = 42 ∨ e.2 = 54 then n + 1
    else if e.2 = 42 ^^^ 0x80 ∨ e.2 = 54 ^^^ 0x80 then n - 1 else n) 0

/-- The Caps-Lock bit of the lights. -/
def capsBit (lights : UInt8) : Bool := lights &&& 4 ≠ 0

/-- The Caps-Lock light. -/
def capsLock (k : Keys) : Bool := capsBit k.kLights

/-- The value of a C expression that is true or false. -/
def flag (b : Bool) : UInt8 := if b then 1 else 0

/-- The shift flag is that of the light and the keys that are held, and every index is in the table.
-/
structure ShiftOk (es : List KeyEvent) (k : Keys) : Prop where
  shift : k.kShift = flag (capsLock k ^^ shiftHeld es)
  index : ∀ scancode : UInt8, scancode &&& 0x80 = 0 → kbdIndex scancode k < kbdus.size

variable {es : List KeyEvent} {e : KeyEvent} {k k' : Keys} {key scancode : UInt8} {running : Bool}

section Bits

variable (l : UInt8)

/-- What the keys do to the lights, on every value of them. -/
lemma lights_bits : (l &&& 4) >>> 2 = flag (capsBit l) ∧
    ((l &&& 4) ^^^ 4) >>> 2 = flag !capsBit l ∧ capsBit (l ^^^ 4) = !capsBit l ∧
    capsBit (l ^^^ 2) = capsBit l ∧ capsBit (l ^^^ 1) = capsBit l := by
  cases l with | _ b => revert b; decide +kernel

lemma caps_released : (l &&& 4) >>> 2 = flag (capsBit l) := (lights_bits l).1

lemma caps_pressed : ((l &&& 4) ^^^ 4) >>> 2 = flag !capsBit l := (lights_bits l).2.1

lemma caps_toggled : capsBit (l ^^^ 4) = !capsBit l := (lights_bits l).2.2.1

lemma caps_num : capsBit (l ^^^ 2) = capsBit l := (lights_bits l).2.2.2.1

lemma caps_scroll : capsBit (l ^^^ 1) = capsBit l := (lights_bits l).2.2.2.2

lemma lt_of_key (h : l &&& 0x80 = 0) : l.toNat < 128 := by
  cases l with | _ b => revert b; decide +kernel

end Bits

/-- What the shift flag depends on: the counter, the flag and the light. -/
def shifts (k : Keys) : UInt8 × UInt8 × Bool := (k.kShiftCount, k.kShift, capsLock k)

/-- What a scancode does to the shift flag. -/
def shiftStep (scancode : UInt8) (t : UInt8 × UInt8 × Bool) : UInt8 × UInt8 × Bool :=
  if scancode = 42 ∨ scancode = 54 then (t.1 + 1, flag !t.2.2, t.2.2)
  else if scancode = 42 ^^^ 0x80 ∨ scancode = 54 ^^^ 0x80 then
    (t.1 - 1, flag t.2.2 ^^^ (t.1 - 1), t.2.2)
  else if scancode = 58 then (t.1, if t.2.1 = 0 then 1 else 0, !t.2.2)
  else t

lemma xor_eq_iff {a : UInt8} : scancode ^^^ 0x80 = a ↔ scancode = a ^^^ 0x80 := by
  constructor
  · rintro rfl
    rw [UInt8.xor_assoc, UInt8.xor_self, UInt8.xor_zero]
  · rintro rfl
    rw [UInt8.xor_assoc, UInt8.xor_self, UInt8.xor_zero]

lemma release_shifts (h : scancode &&& 0x80 ≠ 0) :
    shifts (release (scancode ^^^ 0x80) k) = shiftStep scancode (shifts k) := by
  have h1 : ¬(scancode = 42 ∨ scancode = 54) := by
    rintro (rfl | rfl)
    · exact h rfl
    · exact h rfl
  have h2 : scancode ≠ 58 := by
    rintro rfl
    exact h rfl
  unfold release shiftStep shifts
  simp only [xor_eq_iff, if_neg h1, if_neg h2]
  by_cases h3 : scancode = 42 ^^^ 0x80 ∨ scancode = 54 ^^^ 0x80
  · have h4 : scancode ≠ 29 ^^^ 0x80 := by
      rintro rfl
      revert h3
      decide
    rw [if_neg h4, if_pos h3, if_pos h3]
    simp only [releaseShift, caps_released, capsLock]
  · rw [if_neg h3, if_neg h3]
    split_ifs <;> rfl

/-- A key that is pressed is not a shift key that is released. -/
lemma not_released (h : scancode &&& 0x80 = 0) :
    ¬(scancode = 42 ^^^ 0x80 ∨ scancode = 54 ^^^ 0x80) := by
  rintro (rfl | rfl)
  · exact absurd h (by decide)
  · exact absurd h (by decide)

lemma pressModifier_shifts {r : Keys × List Action} (h : scancode &&& 0x80 = 0)
    (hr : pressModifier scancode k = some r) : shifts r.1 = shiftStep scancode (shifts k) := by
  unfold pressModifier at hr
  unfold shiftStep shifts
  rw [if_neg (not_released h)]
  split_ifs at hr with h1 h2 h3 h4 h5 h6 h7 <;> cases hr
  · subst h1; rfl
  · simp only [if_pos h2, pressShift, caps_pressed, capsLock]
  · subst h3; rfl
  · simp only [if_neg h2, if_pos h4, if_pos h5, capsLock, caps_toggled]
  · simp only [if_neg h2, if_pos h4, if_neg h5, capsLock, caps_toggled]
  · simp only [if_neg h2, if_neg h4, capsLock, caps_num]
  · simp only [if_neg h2, if_neg h4, capsLock, caps_scroll]

lemma pressModifier_none (h : scancode &&& 0x80 = 0) (hr : pressModifier scancode k = none) :
    shiftStep scancode (shifts k) = shifts k := by
  unfold pressModifier at hr
  split_ifs at hr with h1 h2 h3 h4
  unfold shiftStep shifts
  rw [if_neg (not_released h), if_neg h2, if_neg h4]

lemma pressDead_shifts (hat : List Action) (k : Keys) : shifts (pressDead hat k).1 = shifts k := by
  unfold pressDead
  split_ifs <;> rfl

lemma pressRunning_shifts (h : scancode &&& 0x80 = 0) :
    shifts (pressRunning scancode k).1 = shiftStep scancode (shifts k) := by
  unfold pressRunning
  by_cases hd : scancode = 26
  · subst hd
    rw [if_pos rfl, pressDead_shifts]
    rfl
  · rw [if_neg hd]
    cases hr : pressModifier scancode k with
    | none => exact (pressModifier_none h hr).symm
    | some r => exact pressModifier_shifts h hr

/-- A press in the shell has its result if the index is in the table. -/
lemma pressShell_shifts (h : scancode &&& 0x80 = 0) (hi : kbdIndex scancode k < kbdus.size) :
    ∃ r, pressShell scancode k = some r ∧ shifts r.1 = shiftStep scancode (shifts k) := by
  unfold pressShell
  by_cases hd : scancode = 26
  · subst hd
    rw [if_pos rfl]
    exact ⟨_, rfl, pressDead_shifts _ _⟩
  · rw [if_neg hd]
    cases hr : pressModifier scancode k with
    | some r => exact ⟨r, rfl, pressModifier_shifts h hr⟩
    | none =>
      rw [pressModifier_none h hr]
      dsimp only
      split_ifs
      · exact ⟨_, rfl, rfl⟩
      · exact ⟨_, rfl, rfl⟩
      · exact ⟨_, rfl, rfl⟩
      · exact ⟨_, rfl, rfl⟩
      · exact ⟨_, rfl, rfl⟩
      · exact ⟨_, rfl, rfl⟩
      · unfold pressLetter
        rw [Array.getElem?_eq_getElem hi]
        exact ⟨_, rfl, rfl⟩

/-- The indices of a flag that is 0 or 1 are in the table. -/
lemma kbdIndex_lt (h : scancode &&& 0x80 = 0) (hk : k.kShift = 0 ∨ k.kShift = 1) :
    kbdIndex scancode k < kbdus.size := by
  have h1 := lt_of_key scancode h
  have h2 : kbdus.size = 256 := by decide +kernel
  have h3 : k.kShift.toNat ≤ 1 := by
    obtain e | e := hk <;> rw [e] <;> decide
  unfold kbdIndex
  omega

/-- The flag after a key that is pressed. -/
lemma shiftStep_flag (h : scancode &&& 0x80 = 0) (hk : k.kShift = 0 ∨ k.kShift = 1) :
    (shiftStep scancode (shifts k)).2.1 = 0 ∨ (shiftStep scancode (shifts k)).2.1 = 1 := by
  unfold shiftStep shifts
  dsimp only
  rw [if_neg (not_released h)]
  split_ifs
  · cases capsLock k with
    | false => exact .inr rfl
    | true => exact .inl rfl
  · exact .inr rfl
  · exact .inl rfl
  · exact hk

/-- With a flag that is 0 or 1, the handler has its result, and only the shift and Caps-Lock codes
change what the flag depends on. -/
lemma handler_shifts (running : Bool) (scancode : UInt8) (hk : k.kShift = 0 ∨ k.kShift = 1) :
    ∃ r, keyboardShellHandler running scancode k = some r ∧
      shifts r.1 = shiftStep scancode (shifts k) := by
  unfold keyboardShellHandler
  dsimp only
  by_cases h : scancode &&& 0x80 = 0
  · have hn : ¬(scancode &&& 0x80 ≠ 0) := not_not.mpr h
    rw [if_neg hn, if_neg hn]
    cases running with
    | false => exact pressShell_shifts h (kbdIndex_lt h hk)
    | true =>
      have hp := pressRunning_shifts (k := k) h
      rw [if_pos rfl]
      by_cases hc : (pressRunning scancode k).1.kCtrl ≠ 0 ∧ ¬(scancode &&& 0x80 ≠ 0)
      · have hk' : (pressRunning scancode k).1.kShift = (shiftStep scancode (shifts k)).2.1 :=
          congrArg (fun t => t.2.1) hp
        have hi := kbdIndex_lt (k := (pressRunning scancode k).1) h
          (hk' ▸ shiftStep_flag h hk)
        rw [if_pos hc, Array.getElem?_eq_getElem hi, Option.map_some]
        refine ⟨_, rfl, ?_⟩
        split_ifs
        · exact hp
        · exact hp
      · rw [if_neg hc]
        exact ⟨_, rfl, hp⟩
  · have hr := release_shifts (k := k) h
    rw [if_pos h, if_pos h]
    cases running with
    | false => exact ⟨_, rfl, hr⟩
    | true =>
      rw [if_pos rfl, if_neg fun hc => hc.2 h]
      exact ⟨_, rfl, hr⟩

/-! ## Runs -/

lemma isHeld_concat (key : UInt8) : isHeld key (es ++ [e]) =
    if e.2 = key then true else if e.2 = key ^^^ 0x80 then false else isHeld key es :=
  List.foldl_concat ..

lemma shiftCount_concat : shiftCount (es ++ [e]) =
    if e.2 = 42 ∨ e.2 = 54 then shiftCount es + 1
    else if e.2 = 42 ^^^ 0x80 ∨ e.2 = 54 ^^^ 0x80 then shiftCount es - 1 else shiftCount es :=
  List.foldl_concat ..

lemma afterKeys_concat : afterKeys (es ++ [e]) =
    (afterKeys es).bind fun k => (keyboardShellHandler e.1 e.2 k).map Prod.fst := by
  unfold afterKeys
  rw [List.foldlM_append]
  cases List.foldlM (fun k e => (keyboardShellHandler e.1 e.2 k).map Prod.fst) boot es with
  | none => rfl
  | some k => simp [List.foldlM]

lemma shiftHeld_pressed (h : e.2 = 42 ∨ e.2 = 54) : shiftHeld (es ++ [e]) = true := by
  unfold shiftHeld
  rw [isHeld_concat, isHeld_concat]
  obtain h | h := h
  · rw [if_pos h, Bool.true_or]
  · rw [if_pos h, Bool.or_true]

lemma shiftHeld_other (h : ¬(e.2 = 42 ∨ e.2 = 54))
    (h' : ¬(e.2 = 42 ^^^ 0x80 ∨ e.2 = 54 ^^^ 0x80)) : shiftHeld (es ++ [e]) = shiftHeld es := by
  unfold shiftHeld
  push Not at h h'
  rw [isHeld_concat, isHeld_concat, if_neg h.1, if_neg h.2, if_neg h'.1, if_neg h'.2]

lemma flag_xor (a b : Bool) : flag (a ^^ b) = flag a ^^^ flag b := by
  cases a <;> cases b <;> rfl

lemma flag_cases (b : Bool) : flag b = 0 ∨ flag b = 1 := by
  cases b with
  | false => exact .inl rfl
  | true => exact .inr rfl

lemma flag_not {a : UInt8} {b : Bool} (h : a = flag b) : (if a = 0 then 1 else 0) = flag !b := by
  subst h
  cases b <;> rfl

/-- A shift key is released. -/
abbrev Releases (e : KeyEvent) : Prop := e.2 = 42 ^^^ 0x80 ∨ e.2 = 54 ^^^ 0x80

/-- One more interrupt: the flag stays right unless a shift key is released and the counter is not
the flag of the keys that are still held. -/
lemma shiftOk_concat (hk : afterKeys es = some k) (hc : k.kShiftCount = shiftCount es)
    (h : ShiftOk es k) : ∃ k', afterKeys (es ++ [e]) = some k' ∧
      k'.kShiftCount = shiftCount (es ++ [e]) ∧
      (ShiftOk (es ++ [e]) k' ↔
        (Releases e → shiftCount (es ++ [e]) = flag (shiftHeld (es ++ [e])))) := by
  have hflag : k.kShift = 0 ∨ k.kShift = 1 := h.shift ▸ flag_cases _
  obtain ⟨r, hr, hs⟩ := handler_shifts e.1 e.2 hflag
  have hcount : r.1.kShiftCount = shiftCount (es ++ [e]) := by
    have h1 : r.1.kShiftCount = (shiftStep e.2 (shifts k)).1 := congrArg Prod.fst hs
    rw [h1, shiftCount_concat, ← hc]
    unfold shiftStep
    split_ifs <;> rfl
  have hshift : r.1.kShift = (shiftStep e.2 (shifts k)).2.1 := congrArg (fun t => t.2.1) hs
  have hcaps : capsLock r.1 = (shiftStep e.2 (shifts k)).2.2 := congrArg (fun t => t.2.2) hs
  refine ⟨r.1, ?_, hcount, ?_⟩
  · rw [afterKeys_concat, hk, Option.bind_some, hr, Option.map_some]
  have hok : ShiftOk (es ++ [e]) r.1 ↔
      r.1.kShift = flag (capsLock r.1 ^^ shiftHeld (es ++ [e])) :=
    ⟨ShiftOk.shift, fun e => ⟨e, fun _ hs => kbdIndex_lt hs (e ▸ flag_cases _)⟩⟩
  rw [hok, hshift, hcaps, ← hcount]
  unfold shiftStep
  by_cases h1 : e.2 = 42 ∨ e.2 = 54
  · -- a shift key is pressed
    have h2 : ¬ Releases e := by
      unfold Releases
      rcases h1 with h1 | h1 <;> rw [h1] <;> decide
    rw [if_pos h1, shiftHeld_pressed h1, Bool.xor_true]
    exact ⟨fun _ h => absurd h h2, fun _ => rfl⟩
  · rw [if_neg h1]
    by_cases h2 : Releases e
    · -- a shift key is released
      rw [if_pos h2]
      dsimp only
      have h3 : (shifts k).1 - 1 = r.1.kShiftCount := by
        rw [hcount, shiftCount_concat, if_neg h1, if_pos h2, ← hc]
        rfl
      rw [flag_xor, UInt8.xor_right_inj, h3]
      exact ⟨fun h _ => h, fun h => h h2⟩
    · rw [if_neg h2, shiftHeld_other h1 h2]
      refine ⟨fun _ h => absurd h h2, fun _ => ?_⟩
      by_cases h3 : e.2 = 58
      · rw [if_pos h3]
        apply (flag_not h.shift).trans
        rw [Bool.not_xor]
        rfl
      · rw [if_neg h3]
        exact h.shift

/-- The shift flag is right throughout a run if and only if, whenever a shift key is released, the
make codes of the shift keys outnumber their break codes by one if the other one is still held and
by none if not, modulo 256. -/
theorem shift_flag (es : List KeyEvent) :
    (∀ pre, pre <+: es → ∃ k, afterKeys pre = some k ∧ ShiftOk pre k) ↔
      ∀ pre e, pre ++ [e] <+: es → Releases e →
        shiftCount (pre ++ [e]) = flag (shiftHeld (pre ++ [e])) := by
  have key : ∀ pre, (∀ p e, p ++ [e] <+: pre → Releases e →
      shiftCount (p ++ [e]) = flag (shiftHeld (p ++ [e]))) →
      ∃ k, afterKeys pre = some k ∧ k.kShiftCount = shiftCount pre ∧ ShiftOk pre k := by
    intro pre hpre
    induction pre using List.reverseRecOn with
    | nil => exact ⟨boot, rfl, rfl, rfl, fun _ hs => kbdIndex_lt hs (.inl rfl)⟩
    | append_singleton pre e ih =>
      obtain ⟨k, hk, hc, ok⟩ := ih fun p f hp => hpre p f (hp.trans (List.prefix_append ..))
      obtain ⟨k', hk', hc', hiff⟩ := shiftOk_concat (e := e) hk hc ok
      exact ⟨k', hk', hc', hiff.mpr (hpre pre e (List.prefix_refl _))⟩
  constructor
  · intro h
    have reach : ∀ pre, pre <+: es →
        ∃ k, afterKeys pre = some k ∧ k.kShiftCount = shiftCount pre ∧ ShiftOk pre k := by
      intro pre hpre
      induction pre using List.reverseRecOn with
      | nil => exact key [] fun p f hp => absurd (List.prefix_nil.mp hp) (by simp)
      | append_singleton pre e ih =>
        obtain ⟨k, hk, hc, ok⟩ := ih ((List.prefix_append ..).trans hpre)
        obtain ⟨k', hk', hc', _⟩ := shiftOk_concat (e := e) hk hc ok
        obtain ⟨k'', hk'', ok'⟩ := h _ hpre
        obtain rfl : k' = k'' := Option.some.inj (hk'.symm.trans hk'')
        exact ⟨k', hk', hc', ok'⟩
    intro pre e hp
    obtain ⟨k, hk, hc, ok⟩ := reach pre ((List.prefix_append ..).trans hp)
    obtain ⟨k', hk', _, hiff⟩ := shiftOk_concat (e := e) hk hc ok
    obtain ⟨k'', hk'', _, ok'⟩ := reach _ hp
    obtain rfl : k' = k'' := Option.some.inj (hk'.symm.trans hk'')
    exact hiff.mp ok'
  · intro h pre hp
    obtain ⟨k, hk, _, ok⟩ := key pre fun p e hpe => h p e (hpe.trans hp)
    exact ⟨k, hk, ok⟩

/-- The left shift key is held until it repeats, released, and `a` is pressed. -/
def repeatSample : List KeyEvent := [(false, 42), (false, 42), (false, 42 ^^^ 0x80)]

/-- With one repetition of the shift key, the flag stays set when the key is released; with four of
them the look-up of the next letter is behind the table. -/
theorem shift_flag_repeats :
    ¬(∀ pre, pre <+: repeatSample → ∃ k, afterKeys pre = some k ∧ ShiftOk pre k) ∧
    afterKeys (List.replicate 5 (false, 42) ++ [(false, 42 ^^^ 0x80), (false, 16)]) = none := by
  refine ⟨fun h => ?_, by decide +kernel⟩
  obtain ⟨k, hk, ok, _⟩ := h repeatSample (List.prefix_refl _)
  have hk' : afterKeys repeatSample = some { boot with kShiftCount := 1, kShift := 1 } := by
    decide +kernel
  rw [hk'] at hk
  cases hk
  exact absurd ok (by decide +kernel)

end MarioBrOS.Keyboard
