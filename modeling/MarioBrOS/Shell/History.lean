import MarioBrOS.Shell.Editor

/-!
# The history of the shell

What enter leaves in the history, over sessions in which commands may start programs. While programs
run the keys do not reach the shell. `resolve_exit_wait` calls `finalize_command` for every process
that is reaped, whoever started it, and that goes on whenever `run_pid` is empty.

A character is written to the buffer only if the cursor is not at its last byte. The functions do
not look at that (`pos` can run past the text that `length` knows about), so it is a condition here.
-/

namespace MarioBrOS.Shell

/-- A shell in its session: the programs it started that run, those that `kill_family` has still to
reap, and how the shell was when the command under way was sent. -/
structure Session where
  shell : Shell
  runPid : List Nat
  killing : List Nat
  sent : Option Shell

/-- What happens in a session: a key; enter, with the programs that the command starts; Ctrl-C, with
the family of the program besides itself; and a process that is reaped. -/
inductive SessionEvent where
  | key (key : Key)
  | enter (started : List Nat)
  | interrupt (family : List Nat)
  | reaped (pid : Nat)
  deriving DecidableEq, Repr

/-- The session in which an event calls `finalize_command`: after `send_command`, or after
`resolve_exit_wait` has removed the process from `run_pid`. -/
def Session.calls (x : Session) : SessionEvent → Option Session
  | .enter started =>
    if x.runPid = [] ∧ x.killing = [] then
      some { x with runPid := started.reverse, sent := some x.shell }
    else none
  | .reaped pid =>
    if x.killing = [] then
      some { x with runPid := x.runPid.erase pid }
    else if x.killing.head? = some pid then
      some { x with runPid := x.runPid.erase pid, killing := x.killing.tail }
    else none
  | _ => none

/-- `shell.c`, `finalize_command`, in a session. -/
inductive Finalizes : Session → Session → Prop where
  | running {x} : x.runPid ≠ [] → Finalizes x x
  | done {x t fresh} : x.runPid = [] → NotInUse x.shell fresh →
    finalizeCommand fresh x.shell = some t → Finalizes x { x with shell := t, sent := none }

/-- What an event does. The processes of `kill_family` are reaped before anything else happens. -/
inductive SessionStep : Session → SessionEvent → Session → Prop where
  | typed {x key t} : x.runPid = [] → x.killing = [] → key ≠ .char 10 → EditStep x.shell key t →
    SessionStep x (.key key) { x with shell := t }
  | ignored {x key} : x.runPid ≠ [] → x.killing = [] → SessionStep x (.key key) x
  | interrupted {x p rest family} : x.runPid = p :: rest → x.killing = [] →
    SessionStep x (.interrupt family) { x with runPid := rest, killing := family ++ [p] }
  | finalized {x e y z} : x.calls e = some y → Finalizes y z → SessionStep x e z

/-- The lines of the history. -/
def lines (s : Shell) (n : Nat) : List (List UInt8) := (List.range n).map fun i => line (s.bufferAt i)

/-- The lines are kept: the command is the last one, the older ones are as before, without the first
one when the history was full, and the new line is empty and on its own. -/
structure Recorded (s t : Shell) : Prop where
  last : t.historyPos = t.historyLength
  command : line (t.bufferAt (t.historyLength - 1)) = line s.current
  older : lines t (t.historyLength - 1) =
    (lines s s.historyLength).drop (if s.historyLength = HISTORY_SIZE - 1 then 1 else 0)
  blank : ∀ x < BUFFER_SIZE, t.current x = 0
  apart : ∀ i < t.historyLength, t.history i ≠ t.history t.historyLength

/-- The history has room, or the line that is executed reads like the last one. -/
def RecordOk (s : Shell) : Prop :=
  s.historyLength ≠ HISTORY_SIZE - 1 ∨ line s.current = line (s.bufferAt s.historyLength)

/-- There is a command to finish, and it can be recorded. -/
def CommandOk (x : Session) : Prop := x.sent ≠ none ∧ RecordOk x.shell

/-- When `finalize_command` goes on there is a command that can be recorded, and characters are
written inside the buffer. -/
def SessionOk (x : Session) : SessionEvent → Prop
  | .key key => x.runPid = [] → Inserts x.shell key → x.shell.pos < 127
  | e => ∀ y, x.calls e = some y → y.runPid = [] → CommandOk y

variable {s t : Shell} {b : Bytes} {c : UInt8} {i n fresh : Nat} {key : Key}

/-- What the functions need of the buffers. -/
structure Usable (s : Shell) : Prop where
  tidy : Tidy s
  length : s.length ≤ 127

lemma Usable.setPos (h : Usable s) (p : Nat) : Usable { s with pos := p } :=
  ⟨⟨h.tidy.le, h.tidy.lt, h.tidy.inj, h.tidy.last⟩, h.length⟩

lemma Usable.deleteChar (h : Usable s) : Usable (deleteChar s) := by
  have hlen := h.length
  have hb : moveLeft s.current s.pos (s.length - s.pos) 127 = 0 := by
    rw [moveLeft_apply, if_neg (by omega), h.tidy.current_last]
  obtain ⟨h1, h2, h3, h4⟩ := h.tidy.setCurrent hb
  unfold Shell.deleteChar
  split_ifs
  · exact ⟨⟨h1, h2, h3, h4⟩, (Nat.sub_le ..).trans hlen⟩
  · exact ⟨⟨h1, h2, h3, h4⟩, hlen⟩

lemma Usable.insertChar (h : Usable s) (hp : s.length < 127 → s.pos < 127) :
    Usable (insertChar c s) := by
  by_cases hlt : s.length < 127
  · have hb : Function.update (moveRight s.current s.length (s.length - s.pos)) s.pos c 127 = 0 := by
      rw [Function.update_of_ne (by have := hp hlt; omega), moveRight_apply _ (Nat.sub_le ..),
        if_neg (by omega), h.tidy.current_last]
    obtain ⟨h1, h2, h3, h4⟩ := h.tidy.setCurrent hb
    rw [insertChar_eq hlt]
    exact ⟨⟨h1, h2, h3, h4⟩, hlt⟩
  · have e : Shell.insertChar c s = s := if_neg hlt
    rw [e]
    exact h

lemma Finalized.usable (h : Finalized s t fresh) : Usable t := ⟨h.tidy, by rw [h.length]; omega⟩

lemma Usable.goTo (h : Usable s) (hi : i ≤ s.historyLength) : ∃ t, goTo i s = some t ∧ Usable t := by
  obtain ⟨t, e, ht, ok, _⟩ := goTo_spec h.tidy hi
  exact ⟨t, e, ht, ok.length⟩

/-- A key keeps the buffers usable. -/
lemma Usable.press (h : Usable s) (hf : NotInUse s fresh) (hk : Inserts s key → s.pos < 127) :
    ∃ t, press fresh key s = some t ∧ Usable t := by
  have hle := h.tidy.le
  cases key with
  | char c =>
    change ∃ t, shellWriteChar fresh c s = some t ∧ _
    unfold shellWriteChar
    split_ifs with h0 h10 h9 h8 hp h127
    · exact ⟨s, rfl, h⟩
    · obtain ⟨t, e, ht⟩ := finalize_spec h.tidy hf
      exact ⟨t, e, ht.usable⟩
    · exact ⟨s, rfl, h⟩
    · exact ⟨_, rfl, (h.setPos _).deleteChar⟩
    · exact ⟨s, rfl, h⟩
    · exact ⟨_, rfl, h.deleteChar⟩
    · exact ⟨_, rfl, h.insertChar fun hlt => hk ⟨c, rfl, h0, h10, h9, h8, h127, hlt⟩⟩
  | home => exact ⟨_, rfl, h.setPos _⟩
  | toEnd => exact ⟨_, rfl, h.setPos _⟩
  | up =>
    rw [Shell.press, shellUp]
    split_ifs
    · exact h.goTo (by omega)
    · exact ⟨s, rfl, h⟩
  | down =>
    rw [Shell.press, shellDown]
    split_ifs with hp
    · exact h.goTo hp
    · exact ⟨s, rfl, h⟩
  | left =>
    refine ⟨_, rfl, ?_⟩
    unfold shellLeft
    split_ifs
    · exact h.setPos _
    · exact h
  | right =>
    refine ⟨_, rfl, ?_⟩
    unfold shellRight
    split_ifs
    · exact h.setPos _
    · exact h

/-- The end of a command records it if and only if it can be recorded. -/
lemma Finalized.recorded_iff (h : Finalized s t fresh) : Recorded s t ↔ RecordOk s := by
  have hapart : ∀ i < t.historyLength, t.history i ≠ t.history t.historyLength := fun i hi e =>
    Nat.ne_of_lt hi (h.tidy.inj i _ (Nat.le_of_lt hi) (le_refl _) e)
  by_cases e : s.historyLength = HISTORY_SIZE - 1
  · obtain ⟨hl, hb⟩ := h.moved e
    have hlen : s.historyLength = 99 := e
    have hlast : t.bufferAt (t.historyLength - 1) = s.bufferAt s.historyLength := by
      rw [hl, hb _ (by omega), Nat.sub_add_cancel (by omega)]
    constructor
    · intro hr
      have := hr.command
      rw [hlast] at this
      exact .inr this.symm
    · rintro (hn | hline)
      · exact absurd e hn
      · refine ⟨h.last, by rw [hlast, hline], ?_, h.blank, hapart⟩
        rw [if_pos e, hl]
        refine List.ext_getElem (by simp [lines]) fun i h1 h2 => ?_
        rw [lines, List.length_map, List.length_range] at h1
        rw [List.getElem_drop]
        simp only [lines, List.getElem_map, List.getElem_range]
        rw [hb i (by omega), Nat.add_comm]
  · obtain ⟨hl, hb, hc⟩ := h.saved e
    refine iff_of_true ⟨h.last, ?_, ?_, h.blank, hapart⟩ (.inl e)
    · rw [hl, Nat.add_sub_cancel, hc]
    · rw [if_neg e, List.drop_zero, hl, Nat.add_sub_cancel]
      exact List.map_congr_left fun i hi => by rw [hb i (List.mem_range.mp hi)]

/-- The start of a session: a new shell, no program runs. -/
def startSession (memory : Nat → Bytes) (first : Nat) : Session :=
  ⟨shellInstall memory first, [], [], none⟩

/-- What holds between the events: while a command is under way the shell stays as it was sent. -/
structure SessionInv (x : Session) : Prop where
  usable : Usable x.shell
  sent : ∀ s, x.sent = some s → x.shell = s ∧ (x.runPid ≠ [] ∨ x.killing ≠ [])

/-- What an event that calls `finalize_command` has done before. -/
lemma SessionInv.calls {x y : Session} {e : SessionEvent} (h : SessionInv x)
    (hc : x.calls e = some y) :
    Usable y.shell ∧ ∀ s, y.sent = some s → y.shell = s := by
  cases e with
  | key | interrupt => cases hc
  | enter started =>
    unfold Session.calls at hc
    dsimp only at hc
    split_ifs at hc
    cases hc
    exact ⟨h.usable, fun s hs => Option.some.inj hs⟩
  | reaped pid =>
    unfold Session.calls at hc
    dsimp only at hc
    split_ifs at hc
    · cases hc
      exact ⟨h.usable, fun s hs => (h.sent s hs).1⟩
    · cases hc
      exact ⟨h.usable, fun s hs => (h.sent s hs).1⟩

/-- An event keeps the buffers usable, and the shell as it was sent. -/
lemma SessionStep.inv {x z : Session} {e : SessionEvent} (h : SessionInv x) (hk : SessionOk x e)
    (st : SessionStep x e z) : SessionInv z := by
  cases st with
  | typed hr hkill _ he =>
    obtain ⟨fresh, hf, e⟩ := he
    obtain ⟨t, e', ht⟩ := h.usable.press hf (hk hr)
    obtain rfl := Option.some.inj (e.symm.trans e')
    refine ⟨ht, fun s hs => ?_⟩
    obtain ⟨_, hn | hn⟩ := h.sent s hs
    · exact absurd hr hn
    · exact absurd hkill hn
  | ignored => exact h
  | interrupted hr =>
    exact ⟨h.usable, fun s hs => ⟨(h.sent s hs).1, .inr (List.append_ne_nil_of_right_ne_nil _
      (List.cons_ne_nil _ _))⟩⟩
  | finalized hc hf =>
    obtain ⟨hu, hs⟩ := h.calls hc
    cases hf with
    | running hr => exact ⟨hu, fun s e => ⟨hs s e, .inl hr⟩⟩
    | done _ hfresh e =>
      obtain ⟨t, e', ht⟩ := finalize_spec hu.tidy hfresh
      obtain rfl := Option.some.inj (e.symm.trans e')
      exact ⟨ht.usable, nofun⟩

/-- After events that met the condition, each further call of `finalize_command` that goes on makes
a new line as the end of a command, and records this command as it was sent, if and only if there is
a command under way and it can be recorded. -/
theorem history_recorded {memory : Nat → Bytes} {first : Nat} {es : List SessionEvent}
    {x : Session} (r : Run (Guarded SessionOk SessionStep) (startSession memory first) es x) :
    ∀ e y, x.calls e = some y → y.runPid = [] → ∀ fresh, NotInUse y.shell fresh →
      ∃ t, finalizeCommand fresh y.shell = some t ∧
        ((∃ s, y.sent = some s ∧ Recorded s t) ↔ CommandOk y) := by
  have h : SessionInv x := r.invariant (fun _ _ _ h st => st.2.inv h st.1)
    ⟨⟨shellInstall_tidy memory first, (shellInstall_ok memory first).length⟩, nofun⟩
  intro e y hc _ fresh hf
  obtain ⟨hu, hs⟩ := h.calls hc
  obtain ⟨t, e', ht⟩ := finalize_spec hu.tidy hf
  refine ⟨t, e', ?_⟩
  constructor
  · rintro ⟨s, hsent, hr⟩
    refine ⟨by rw [hsent]; nofun, ?_⟩
    rw [← hs s hsent] at hr
    exact ht.recorded_iff.mp hr
  · rintro ⟨hsent, hok⟩
    obtain ⟨s, hsent⟩ := Option.ne_none_iff_exists'.mp hsent
    refine ⟨s, hsent, ?_⟩
    rw [← hs s hsent]
    exact ht.recorded_iff.mpr hok

/-- The first command of a session starts a program, and is recorded when this is reaped. -/
theorem history_recorded_sample : ∃ x y t,
    Run (Guarded SessionOk SessionStep) (startSession (fun _ _ => 0) 256) [.enter [2]] x ∧
      x.calls (.reaped 2) = some y ∧ finalizeCommand 512 y.shell = some t ∧
      Recorded newShell t := by
  have hf : NotInUse newShell 512 := by
    refine ⟨by decide, fun i hi _ => ?_⟩
    obtain rfl := Nat.le_zero.mp hi
    decide
  have st : Guarded SessionOk SessionStep (startSession (fun _ _ => 0) 256) (.enter [2])
      ⟨newShell, [2], [], some newShell⟩ := by
    refine ⟨fun y hy hr => ?_, .finalized rfl (.running (List.cons_ne_nil _ _))⟩
    cases hy
    cases hr
  obtain ⟨t, e, hiff⟩ := history_recorded (Run.single st) (.reaped 2) _ rfl rfl 512 hf
  obtain ⟨s, hs, hr⟩ := hiff.mpr ⟨nofun, .inl (by decide)⟩
  cases hs
  exact ⟨_, _, t, Run.single st, rfl, e, hr⟩

/-- 98 empty commands and the command `a` fill the history; then `a` is recalled and executed again.
-/
def fullHistory : List Key := List.replicate 98 (.char 10) ++ [.char 97, .char 10, .up]

/-- When the history is full, the command that was recalled is not recorded. -/
theorem history_recorded_full :
    ∃ s t, typed newShell fullHistory = some s ∧ finalizeCommand 99999 s = some t ∧
      ¬ Recorded s t := by
  have hrun : ((typed newShell fullHistory).bind fun s => (finalizeCommand 99999 s).map fun t =>
      (line s.current, line (t.bufferAt (t.historyLength - 1)))) = some ([97], []) := by
    decide +kernel
  obtain ⟨s, e, h⟩ := Option.bind_eq_some_iff.mp hrun
  obtain ⟨t, e', ht⟩ := Option.map_eq_some_iff.mp h
  refine ⟨s, t, e, e', fun hr => ?_⟩
  obtain ⟨h1, h2⟩ := Prod.mk.inj ht
  have := hr.command
  rw [h1, h2] at this
  cases this

end MarioBrOS.Shell
