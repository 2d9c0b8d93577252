import MarioBrOS.Fs.Pio

/-!
# Waiting for the drive

What `readLBA`, `readPIO` and `writeLBA` of `ata_pio.c` do at the ports of the drive, in order: the
command, the calls of `poll`, the words that go through the data port, and the cache flushes. The
drive may answer each call of `poll` as it likes. `transfers_wait` says which transfers begin every
sector with a `poll` that has returned 0. `readLBA` and `writeLBA` always do. In `readPIO` only the
loop over whole words waits, so a range whose last byte is the first one of a sector begins that
sector without.
-/

namespace MarioBrOS.Fs.Drive

/-- What a transfer does at the ports of the drive. -/
inductive DriveEvent where
  | command (lba sectorCount : Nat)
  | poll (flag : Nat)
  | word
  | flush
  deriving DecidableEq

/-- What the drive has seen of a transfer: the number of words since the command, whether `poll` has
returned 0 since the last word, and whether it had before the first word of each sector. -/
structure View where
  words : Nat
  ready : Bool
  kept : Bool
  deriving DecidableEq

def View.next (v : View) : DriveEvent → View
  | .command _ _ => { v with words := 0, ready := false }
  | .poll flag => { v with ready := v.ready || flag = 0 }
  | .word => ⟨v.words + 1, false, v.kept && (v.ready || v.words % 256 ≠ 0)⟩
  | .flush => v

def view (es : List DriveEvent) : View := es.foldl View.next ⟨0, false, true⟩

/-- The first word of each sector comes only after a `poll` that has returned 0 since the word
before it. -/
def Handshake (es : List DriveEvent) : Prop := (view es).kept = true

instance (es : List DriveEvent) : Decidable (Handshake es) := inferInstanceAs (Decidable (_ = _))

/-- Why a transfer stops early: it throws, after these events, or what it does is not defined (an
`int` overflows, or a loop never ends). -/
inductive Stop where
  | thrown (es : List DriveEvent)
  | undefined

/-- The events of a transfer, also of one that throws. -/
def trace : Except Stop (List DriveEvent) → Option (List DriveEvent)
  | .ok es => some es
  | .error (.thrown es) => some es
  | .error .undefined => none

/-- `if(poll()) { throw(...); }`. The answer of the drive may depend on all that has happened. -/
def await (drive : List DriveEvent → Nat) (es : List DriveEvent) : Except Stop (List DriveEvent) :=
  if drive es ≠ 0 then .error (.thrown (es ++ [.poll (drive es)]))
  else .ok (es ++ [.poll (drive es)])

/-- The loop over the sectors in `readLBA` and `writeLBA`; `after` is what follows the words. -/
def sectorLoop (drive : List DriveEvent → Nat) (after : List DriveEvent) :
    Nat → List DriveEvent → Except Stop (List DriveEvent)
  | 0, es => .ok es
  | n + 1, es => do
    let es ← await drive es
    sectorLoop drive after n (es ++ List.replicate 256 .word ++ after)

/-- `ata_pio.c`, `readLBA`. -/
def readLBA (drive : List DriveEvent → Nat) (lba sectorCount : Nat) :
    Except Stop (List DriveEvent) :=
  sectorLoop drive [] (sectors sectorCount) [.command (add32 lba 0x800 % 2 ^ 28) sectorCount]

/-- `ata_pio.c`, `writeLBA`. -/
def writeLBA (drive : List DriveEvent → Nat) (lba sectorCount : Nat) :
    Except Stop (List DriveEvent) :=
  sectorLoop drive [.flush] (sectors sectorCount) [.command (add32 lba 0x800 % 2 ^ 28) sectorCount]

/-- Where `readPIO` stands: its index `i`, an `int`, and what it has done at the ports. -/
structure Port where
  i : Int
  events : List DriveEvent

/-- A word through the port, and `i+=2`. -/
def Port.word (p : Port) : Except Stop Port :=
  if p.i + 2 < 2 ^ 31 then .ok ⟨p.i + 2, p.events ++ [.word]⟩ else .error .undefined

/-- `while(i < (s_int32) length - 1)`, in `n` rounds at most. -/
def pioLoop (drive : List DriveEvent → Nat) (offset : Nat) (bound : Int) :
    Nat → Port → Except Stop Port
  | 0, _ => .error .undefined
  | n + 1, p =>
    if p.i < bound then do
      let es ← if (p.i + offset) % 512 = 0 then await drive p.events else .ok p.events
      let p ← Port.word ⟨p.i, es⟩
      pioLoop drive offset bound n p
    else
      .ok p

/-- `while(i%512)`, in `n` rounds at most. -/
def pioPad : Nat → Port → Except Stop Port
  | 0, _ => .error .undefined
  | n + 1, p =>
    if p.i % 512 = 0 then .ok p
    else do
      let p ← p.word
      pioPad n p

/-- The 16-bit `sector_count` of `readPIO`. -/
def sectorCount (offset length : Nat) : Nat :=
  (1 + sub32 (add32 (offset % 512) length) 1 / 512) % 2 ^ 16

/-- `readPIO`, from the half word at the end of the range on. `i+=offset` wraps around. -/
def pioRest (offset length : Nat) (p : Port) : Except Stop (List DriveEvent) := do
  let p ← if (length + offset) % 2 ≠ 0 then p.word else .ok p
  let p ← pioPad 257 ⟨Int.bmod (p.i + offset) (2 ^ 32), p.events⟩
  .ok p.events

/-- `ata_pio.c`, `readPIO`. The cast of `length` to `s_int32` wraps around. -/
def readPio (drive : List DriveEvent → Nat) (lba offset length : Nat) :
    Except Stop (List DriveEvent) :=
  if length = 0 then
    .ok []
  else if 256 < sectorCount offset length then
    .error (.thrown [])
  else do
    let lba := add32 lba (0x800 + offset / 512)
    let count := if sectorCount offset length = 256 then 0 else sectorCount offset length
    let offset := offset % 512
    let bound := Int.bmod length (2 ^ 32) - 1
    if bound < -2 ^ 31 then
      .error .undefined
    else
      let p ← pioLoop drive offset bound (offset + length)
        ⟨-offset, [.command (lba % 2 ^ 28) count]⟩
      pioRest offset length p

/-! ## What the drive sees -/

variable {drive : List DriveEvent → Nat} {es : List DriveEvent} {v : View}

@[simp] lemma view_concat (es : List DriveEvent) (e : DriveEvent) :
    view (es ++ [e]) = (view es).next e := by
  unfold view
  rw [List.foldl_append]
  rfl

lemma view_append (es es' : List DriveEvent) :
    view (es ++ es') = es'.foldl View.next (view es) := List.foldl_append ..

/-- A word inside a sector. -/
lemma View.next_word_inside (h : v.words % 256 ≠ 0) :
    v.next .word = ⟨v.words + 1, false, v.kept⟩ := by
  simp [View.next, h]

/-- A word that the drive is ready for. -/
lemma View.next_word_ready (h : v.ready = true) :
    v.next .word = ⟨v.words + 1, false, v.kept⟩ := by
  simp [View.next, h]

/-- The words of a sector, once the drive is ready. -/
lemma foldl_words {n m : Nat} {v : View} (hn : v.words + n + 1 ≤ 256 * (m + 1))
    (hm : 256 * m ≤ v.words) (hv : v.ready = true ∨ v.words % 256 ≠ 0) :
    (List.replicate (n + 1) DriveEvent.word).foldl View.next v =
      ⟨v.words + n + 1, false, v.kept⟩ := by
  have hword : v.next .word = ⟨v.words + 1, false, v.kept⟩ := by
    cases hv with
    | inl h => exact View.next_word_ready h
    | inr h => exact View.next_word_inside h
  induction n generalizing v with
  | zero => exact hword
  | succ n ih =>
    rw [List.replicate_succ, List.foldl_cons, hword]
    have hin : (v.words + 1) % 256 ≠ 0 := by omega
    have := ih (v := ⟨v.words + 1, false, v.kept⟩) (by dsimp only; omega) (by dsimp only; omega)
      (.inr hin) (View.next_word_inside hin)
    rw [this]
    congr 1
    dsimp only
    omega

/-! ## Whole sectors -/

/-- `await` goes on only when the drive is ready, and throws otherwise. -/
lemma await_cases (drive : List DriveEvent → Nat) (hes : Handshake es) :
    (drive es = 0 ∧ ∃ es', await drive es = .ok es' ∧ view es' = { view es with ready := true }) ∨
    (drive es ≠ 0 ∧ ∃ es', await drive es = .error (.thrown es') ∧ Handshake es') := by
  unfold await
  by_cases h : drive es = 0
  · refine .inl ⟨h, _, if_neg (not_not_intro h), ?_⟩
    rw [view_concat, h]
    simp [View.next]
  · refine .inr ⟨h, _, if_pos h, ?_⟩
    unfold Handshake at hes ⊢
    rw [view_concat]
    exact hes

/-- The loop over the sectors begins each of them with a `poll`, whatever the drive answers. -/
lemma sectorLoop_handshake {after : List DriveEvent} {n m : Nat}
    (hafter : ∀ v : View, after.foldl View.next v = v) (hes : Handshake es)
    (hm : (view es).words = 256 * m) :
    ∃ es', trace (sectorLoop drive after n es) = some es' ∧ Handshake es' := by
  induction n generalizing es m with
  | zero => exact ⟨es, rfl, hes⟩
  | succ n ih =>
    unfold sectorLoop
    obtain ⟨-, es', e, hv⟩ | ⟨-, es', e, h⟩ := await_cases drive hes
    · rw [e]
      have hwords : view (es' ++ List.replicate 256 .word ++ after) =
          ⟨256 * (m + 1), false, true⟩ := by
        have hwords' : (view es').words = 256 * m := by rw [hv, ← hm]
        have hkept : (view es').kept = true := by rw [hv]; exact hes
        rw [view_append, view_append, hafter,
          foldl_words (n := 255) (m := m) (by omega) (by omega) (.inl (by rw [hv])), hkept, hwords',
          Nat.add_assoc, ← Nat.mul_succ]
      exact ih (m := m + 1) (by unfold Handshake; rw [hwords]) (by rw [hwords])
    · rw [e]
      exact ⟨es', rfl, h⟩

/-! ## The range -/

/-- A transfer so far: it stands at `i` and the drive has seen `v`, or it has thrown, because a
`poll` returned an error. -/
def Leaves (drive : List DriveEvent → Nat) (i : Int) (v : View) : Except Stop Port → Prop
  | .ok p => p.i = i ∧ view p.events = v
  | .error (.thrown es) => Handshake es ∧ ∃ es', drive es' ≠ 0
  | .error .undefined => False

lemma word_leaves {p : Port} (hi : p.i + 2 < 2 ^ 31) :
    Leaves drive (p.i + 2) ((view p.events).next .word) p.word := by
  unfold Port.word
  rw [if_pos hi]
  exact ⟨rfl, view_concat ..⟩

/-- What is left undone when a step has thrown stays undone. -/
lemma Leaves.bind {i j : Int} {v w : View} {r : Except Stop Port} {f : Port → Except Stop Port}
    (hr : Leaves drive i v r) (hf : ∀ p : Port, p.i = i → view p.events = v → Leaves drive j w (f p)) :
    Leaves drive j w (r >>= f) := by
  cases r with
  | ok p => exact hf p hr.1 hr.2
  | error s => cases s with
    | thrown es => exact hr
    | undefined => exact hr.elim

/-- The first loop waits before each sector, up to the last whole word of a range that ends `t`
bytes behind the start of its first sector. -/
lemma pioLoop_leaves (drive : List DriveEvent → Nat) {o t k n : Nat} {bound : Int} {p : Port} (ht : (t : Int) - o < 2 ^ 31)
    (hbound : ∀ k : Nat, 2 * (k : Int) - o < bound ↔ 2 * (k + 1) ≤ t)
    (hk : 2 * k ≤ t) (hn : t < 2 * (k + n)) (hi : p.i = 2 * (k : Int) - o)
    (hv : view p.events = ⟨k, false, true⟩) :
    Leaves drive (2 * (t / 2 : Nat) - o) ⟨t / 2, false, true⟩ (pioLoop drive o bound n p) := by
  induction n generalizing k p with
  | zero => omega
  | succ n ih =>
    rw [pioLoop, hi]
    by_cases h : 2 * (k + 1) ≤ t
    · rw [if_pos ((hbound k).mpr h)]
      -- one word more, in either branch
      have hnext : ∀ es, view es = { view p.events with ready := true } ∨
          view es = view p.events ∧ k % 256 ≠ 0 →
          Leaves drive (2 * (t / 2 : Nat) - o) ⟨t / 2, false, true⟩
            (Port.word ⟨2 * (k : Int) - o, es⟩ >>= pioLoop drive o bound n) := by
        intro es hes
        refine (word_leaves (p := ⟨2 * (k : Int) - o, es⟩) (by dsimp only; omega)).bind fun q hq hvq => ?_
        dsimp only at hq hvq
        refine ih (k := k + 1) h (by omega) (by omega) ?_
        rw [hvq]
        obtain hes | ⟨hes, hin⟩ := hes
        · rw [hes, hv]
          exact View.next_word_ready rfl
        · rw [hes, hv]
          exact View.next_word_inside hin
      by_cases hsec : (2 * (k : Int) - o + o) % 512 = 0
      · rw [if_pos hsec]
        obtain ⟨-, es', e, hes⟩ | ⟨hne, es', e, hes⟩ :=
          await_cases drive (show Handshake p.events by unfold Handshake; rw [hv])
        · rw [e]
          exact hnext es' (.inl hes)
        · rw [e]
          exact ⟨hes, _, hne⟩
      · rw [if_neg hsec]
        exact hnext p.events (.inr ⟨rfl, by omega⟩)
    · rw [if_neg (fun hlt => h ((hbound k).mp hlt))]
      have hk' : t / 2 = k := by omega
      rw [hk']
      exact ⟨hi, hv⟩

/-- The second loop takes the `m` words that are left of a sector that has been begun. -/
lemma pioPad_ends {n m : Nat} {p : Port} (hm : m < 256) (hn : m < n)
    (hi : (p.i + 2 * m) % 512 = 0) (hv : ((view p.events).words + m) % 256 = 0)
    (hroom : p.i + 2 * m < 2 ^ 31) :
    ∃ q, pioPad n p = .ok q ∧ (view q.events).kept = (view p.events).kept := by
  induction m generalizing n p with
  | zero =>
    obtain ⟨n, rfl⟩ := Nat.exists_eq_add_of_lt hn
    exact ⟨p, if_pos (by omega), rfl⟩
  | succ m ih =>
    obtain ⟨n, rfl⟩ := Nat.exists_eq_add_of_lt hn
    have hword : p.word = .ok ⟨p.i + 2, p.events ++ [.word]⟩ := if_pos (by omega)
    have hview := view_concat p.events .word
    rw [View.next_word_inside (by omega)] at hview
    obtain ⟨q, e, hq⟩ := ih (n := m + 1 + n) (p := ⟨p.i + 2, p.events ++ [.word]⟩) (by omega)
      (by omega) (by dsimp only; omega) (by dsimp only; rw [hview]; dsimp only; omega)
      (by dsimp only; omega)
    refine ⟨q, ?_, ?_⟩
    · rw [pioPad, if_neg (by omega), hword]
      exact e
    · rw [hq, hview]

/-- Near the end of the `int`s it overflows. -/
lemma pioPad_overflows {n m : Nat} {p : Port} (hm : m < 256) (hi : (p.i + 2 * m) % 512 = 0)
    (hlt : p.i < 2 ^ 31) (hover : 2 ^ 31 ≤ p.i + 2 * m) : pioPad n p = .error .undefined := by
  induction n generalizing m p with
  | zero => rfl
  | succ n ih =>
    rw [pioPad, if_neg (by omega)]
    unfold Port.word
    by_cases h : p.i + 2 < 2 ^ 31
    · rw [if_pos h]
      exact ih (m := m - 1) (p := ⟨p.i + 2, p.events ++ [.word]⟩) (by omega) (by dsimp only; omega) h
        (by dsimp only; omega)
    · rw [if_neg h]
      rfl

/-- The index of `readPIO` stays an `int` when it has taken the words of a range that ends `t` bytes
behind the start of its first sector, and the rest of the last sector. -/
def Fits (offset t : Nat) : Prop :=
  2 * ((t + 1) / 2) < offset + 2 ^ 31 ∧
    (2 * ((t + 1) / 2) ≤ 2 ^ 31 - 512 ∨ 2 ^ 31 ≤ 2 * ((t + 1) / 2))

lemma bmod_index {t : Nat} (ht : t < 2 ^ 31 + 1024) :
    Int.bmod (t : Int) (2 ^ 32) = t ∧ t < 2 ^ 31 ∨
      Int.bmod (t : Int) (2 ^ 32) = (t : Int) - 2 ^ 32 ∧ 2 ^ 31 ≤ t := by
  unfold Int.bmod
  dsimp only
  split <;> omega

lemma pioPad_words {t n : Nat} {p : Port} (ht : 2 * t < 2 ^ 31 + 1024) (hn : 256 ≤ n)
    (hi : p.i = Int.bmod (2 * t : Nat) (2 ^ 32)) (hv : (view p.events).words = t) :
    (∃ q, pioPad n p = .ok q ∧ (view q.events).kept = (view p.events).kept ∧
      (2 * t ≤ 2 ^ 31 - 512 ∨ 2 ^ 31 ≤ 2 * t)) ∨
    (pioPad n p = .error .undefined ∧ ¬ (2 * t ≤ 2 ^ 31 - 512 ∨ 2 ^ 31 ≤ 2 * t)) := by
  have hm : (t + (255 - (t + 255) % 256)) % 256 = 0 := by omega
  generalize hmdef : 255 - (t + 255) % 256 = m at hm
  have hb := bmod_index ht
  rw [← hi] at hb
  by_cases h : 2 * t ≤ 2 ^ 31 - 512 ∨ 2 ^ 31 ≤ 2 * t
  · obtain ⟨q, e, hq⟩ := pioPad_ends (n := n) (m := m) (p := p) (by omega) (by omega) (by omega)
      (by omega) (by omega)
    exact .inl ⟨q, e, hq, h⟩
  · exact .inr ⟨pioPad_overflows (m := m) (by omega) (by omega) (by omega) (by omega), h⟩

/-- From the half word on: the last sector has been begun before, or its first byte is the last one
of the range. -/
lemma pioRest_handshake {o length t : Nat} {p : Port} (ho : o < 512) (ht : (t : Int) - o < 2 ^ 31)
    (hpar : (length + o) % 2 = t % 2) (hi : p.i = 2 * (t / 2 : Nat) - o)
    (hv : view p.events = ⟨t / 2, false, true⟩) :
    (∃ es, trace (pioRest o length p) = some es ∧ Handshake es) ↔ t % 512 ≠ 1 ∧ Fits o t := by
  have hsum : ∀ k : Nat, 2 * (k : Int) - o + o = ((2 * k : Nat) : Int) := fun k => by omega
  unfold pioRest Fits
  by_cases hodd : t % 2 = 0
  · -- there is no half word
    rw [if_neg (by omega)]
    change (∃ es, trace (pioPad 257 _ >>= _) = some es ∧ Handshake es) ↔ _
    rw [hi, hsum]
    obtain ⟨q, e, hkept, hfits⟩ | ⟨e, hfits⟩ :=
      pioPad_words (t := t / 2) (n := 257)
        (p := ⟨Int.bmod (2 * (t / 2) : Nat) (2 ^ 32), p.events⟩) (by omega) (by omega) (by dsimp only)
        (by rw [hv])
    · rw [e]
      rw [hv] at hkept
      exact iff_of_true ⟨q.events, rfl, hkept⟩ (by omega)
    · rw [e]
      exact iff_of_false (fun ⟨_, h, _⟩ => nomatch h) (by omega)
  · rw [if_pos (by omega)]
    unfold Port.word
    by_cases hint : p.i + 2 < 2 ^ 31
    · rw [if_pos hint]
      change (∃ es, trace (pioPad 257 _ >>= _) = some es ∧ Handshake es) ↔ _
      have hnext : p.i + 2 + o = ((2 * (t / 2 + 1) : Nat) : Int) := by omega
      have hview : view (p.events ++ [.word]) = ⟨t / 2 + 1, false, decide (t / 2 % 256 ≠ 0)⟩ := by
        rw [view_concat, hv]
        rfl
      dsimp only
      rw [hnext]
      obtain ⟨q, e, hkept, hfits⟩ | ⟨e, hfits⟩ :=
        pioPad_words (t := t / 2 + 1) (n := 257)
          (p := ⟨Int.bmod (2 * (t / 2 + 1) : Nat) (2 ^ 32), p.events ++ [.word]⟩) (by omega)
          (by omega) (by dsimp only) (by rw [hview])
      · rw [e]
        rw [hview] at hkept
        have hend : (∃ es, trace (.ok q.events) = some es ∧ Handshake es) ↔ t / 2 % 256 ≠ 0 := by
          constructor
          · rintro ⟨es, h, hes⟩
            cases h
            exact of_decide_eq_true (hkept.symm.trans hes)
          · intro h
            exact ⟨_, rfl, hkept.trans (decide_eq_true h)⟩
        refine Iff.trans hend ?_
        omega
      · rw [e]
        exact iff_of_false (fun ⟨_, h, _⟩ => nomatch h) (by omega)
    · -- the index leaves the range of `int`
      rw [if_neg hint]
      exact iff_of_false (fun ⟨_, h, _⟩ => nomatch h) (by omega)

/-- The loops of `readPIO` together. -/
lemma range_handshake {o length t n lba count : Nat} {bound : Int} (ho : o < 512)
    (ht : (t : Int) - o < 2 ^ 31) (hbound : ∀ k : Nat, 2 * (k : Int) - o < bound ↔ 2 * (k + 1) ≤ t)
    (hpar : (length + o) % 2 = t % 2) (hn : t < 2 * n) :
    (∀ drive, ∃ es, trace (pioLoop drive o bound n ⟨-o, [.command lba count]⟩ >>= pioRest o length) =
      some es ∧ Handshake es) ↔ t % 512 ≠ 1 ∧ Fits o t := by
  have hloop := fun drive => pioLoop_leaves drive (k := 0) (n := n)
    (p := ⟨-o, [.command lba count]⟩) ht hbound (by omega) (by omega) (by dsimp only; omega) rfl
  constructor
  · intro h
    have hes := h fun _ => 0
    have hl := hloop fun _ => 0
    cases hr : pioLoop (fun _ => 0) o bound n ⟨-o, [.command lba count]⟩ with
    | ok p =>
      rw [hr] at hes hl
      exact (pioRest_handshake ho ht hpar hl.1 hl.2).mp hes
    | error s =>
      rw [hr] at hl
      cases s with
      | thrown es =>
        obtain ⟨_, _, hne⟩ := hl
        exact absurd rfl hne
      | undefined => exact hl.elim
  · intro h drive
    have hl := hloop drive
    cases hr : pioLoop drive o bound n ⟨-o, [.command lba count]⟩ with
    | ok p =>
      rw [hr] at hl
      exact (pioRest_handshake ho ht hpar hl.1 hl.2).mpr h
    | error s =>
      rw [hr] at hl
      cases s with
      | thrown es => exact ⟨es, rfl, hl.1⟩
      | undefined => exact hl.elim

/-- The ranges for which `readPIO` waits before every sector. Those that do not fit an `s_int32` get
through the check of the 16-bit `sector_count`; then the loops take what is left of the end of the
range modulo `2 ^ 32`, or not even a word. -/
def Waits (offset length : Nat) : Prop :=
  if length < 2 ^ 31 then
    (offset % 512 + length) % 512 ≠ 1 ∧ Fits (offset % 512) (offset % 512 + length)
  else if offset % 512 + length < 2 ^ 32 then
    length ≠ 2 ^ 31 ∧ (offset + length) % 2 = 0
  else
    offset % 512 + length ≠ 2 ^ 32 + 1

/-- `readPIO` when the range gets through the check of `sector_count`. -/
lemma readPio_accepted (lba : Nat) {offset length : Nat} (h0 : 1 ≤ length)
    (hacc : sectorCount offset length ≤ 256) :
    ∃ lba' count, ∀ drive, readPio drive lba offset length =
      if Int.bmod length (2 ^ 32) - 1 < -2 ^ 31 then .error .undefined
      else
        pioLoop drive (offset % 512) (Int.bmod length (2 ^ 32) - 1) (offset % 512 + length)
          ⟨-(offset % 512 : Nat), [.command lba' count]⟩ >>= pioRest (offset % 512) length := by
  refine ⟨add32 lba (0x800 + offset / 512) % 2 ^ 28,
    if sectorCount offset length = 256 then 0 else sectorCount offset length, fun drive => ?_⟩
  unfold readPio
  rw [if_neg (by omega), if_neg (by omega)]

lemma readPio_handshake {lba offset length : Nat} (h0 : 1 ≤ length) (hlen : length < 2 ^ 32)
    (hacc : sectorCount offset length ≤ 256) :
    (∀ drive, ∃ es, trace (readPio drive lba offset length) = some es ∧ Handshake es) ↔
      Waits offset length := by
  have ho : offset % 512 < 512 := Nat.mod_lt _ (by decide)
  have hpar : (offset + length) % 2 = (length + offset % 512) % 2 := by omega
  obtain ⟨lba', count, e⟩ := readPio_accepted lba h0 hacc
  simp only [e]
  unfold Waits
  rw [hpar]
  generalize offset % 512 = o at ho ⊢
  by_cases hint : length < 2 ^ 31
  · have hb : Int.bmod length (2 ^ 32) = length := by
      unfold Int.bmod
      dsimp only
      split <;> omega
    simp only [if_pos hint, hb, if_neg (show ¬ (length : Int) - 1 < -2 ^ 31 by omega)]
    exact range_handshake (t := o + length) ho (by omega) (fun k => by omega) (by omega) (by omega)
  have hb : Int.bmod length (2 ^ 32) = (length : Int) - 2 ^ 32 := by
    unfold Int.bmod
    dsimp only
    split <;> omega
  rw [if_neg hint]
  by_cases hmin : length = 2 ^ 31
  · rw [if_pos (by omega)]
    simp only [hb, if_pos (show (length : Int) - 2 ^ 32 - 1 < -2 ^ 31 by omega)]
    exact iff_of_false (fun h => by obtain ⟨_, e, _⟩ := h fun _ => 0; cases e) (by omega)
  simp only [hb, if_neg (show ¬ (length : Int) - 2 ^ 32 - 1 < -2 ^ 31 by omega)]
  by_cases hwrap : o + length < 2 ^ 32
  · rw [if_pos hwrap]
    refine (range_handshake (t := (length + o) % 2) ho (by omega) (fun k => by omega) (by omega)
      (by omega)).trans ?_
    unfold Fits
    omega
  · rw [if_neg hwrap]
    refine (range_handshake (t := o + length - 2 ^ 32) ho (by omega) (fun k => by omega) (by omega)
      (by omega)).trans ?_
    unfold Fits
    omega

/-- `readLBA` and `writeLBA` wait for the drive before every sector, whatever it answers, and
`readPIO` does so exactly for the ranges of `Waits`. -/
theorem transfers_wait (lba count : Nat) :
    (∀ drive,
      (∃ es, trace (readLBA drive lba count) = some es ∧ Handshake es) ∧
      ∃ es, trace (writeLBA drive lba count) = some es ∧ Handshake es) ∧
    ∀ offset length, 1 ≤ length → length < 2 ^ 32 → sectorCount offset length ≤ 256 →
      ((∀ drive, ∃ es, trace (readPio drive lba offset length) = some es ∧ Handshake es) ↔
        Waits offset length) := by
  refine ⟨fun drive => ⟨?_, ?_⟩, fun offset length => readPio_handshake⟩
  · exact sectorLoop_handshake (m := 0) (fun _ => rfl) rfl rfl
  · exact sectorLoop_handshake (m := 0) (fun _ => rfl) rfl rfl

/-- Four bytes across the end of a sector, with a drive that is always ready. -/
theorem transfers_wait_sample :
    ∃ es, trace (readPio (fun _ => 0) 3 511 4) = some es ∧ Handshake es := by
  have hwaits : Waits 511 4 := by
    unfold Waits Fits
    rw [if_pos (by decide)]
    omega
  exact ((transfers_wait 3 0).2 511 4 (by decide) (by decide) (by decide +kernel)).mpr hwaits _

/-- The first byte of a sector alone: its word is taken without asking the drive. -/
theorem readPio_rushes :
    ∃ es, trace (readPio (fun _ => 0) 0 0 1) = some es ∧ ¬ Handshake es :=
  ⟨.command 0x800 1 :: List.replicate 256 .word, by decide +kernel, by decide +kernel⟩

/-!
 ## The words

When the drive is always ready, the loops go on as those of `Fs.readPIO`, which says what becomes of
the words.
-/

/-- Both models stand at the same index and have taken as many words. -/
def Beside (p : Port) (q : Pio) : Prop := p.i = q.i ∧ (view p.events).words = q.taken

lemma word_beside {p : Port} {q : Pio} (q' : Pio) (h : Beside p q) (hint : q'.i < 2 ^ 31)
    (hi : q'.i = q.i + 2) (ht : q'.taken = q.taken + 1) : ∃ p', p.word = .ok p' ∧ Beside p' q' := by
  refine ⟨_, if_pos (by rw [h.1]; omega), ?_, ?_⟩
  · dsimp only
    rw [hi, h.1]
  · dsimp only
    rw [ht, ← h.2, view_concat]
    rfl

lemma pioLoop_beside {word : Nat → Nat} {start o length n : Nat} {p : Port} {q q' : Pio}
    (h : Beside p q) (hlen : length < 2 ^ 31) (e : Fs.pioLoop word start length n q = some q') :
    ∃ p', pioLoop (fun _ => 0) o ((length : Int) - 1) n p = .ok p' ∧ Beside p' q' := by
  induction n generalizing p q with
  | zero => cases e
  | succ n ih =>
    rw [Fs.pioLoop] at e
    rw [pioLoop, h.1]
    by_cases hi : q.i < (length : Int) - 1
    · rw [if_pos hi] at e ⊢
      have hstep : ∀ es, (view es).words = q.taken →
          ∃ p', (Port.word ⟨q.i, es⟩ >>= pioLoop (fun _ => 0) o ((length : Int) - 1) n) = .ok p' ∧
            Beside p' q' := by
        intro es hes
        obtain ⟨p₁, e₁, h₁⟩ := word_beside (p := ⟨q.i, es⟩) (pioStep word start q) ⟨rfl, hes⟩
          (by unfold pioStep; dsimp only; omega) rfl rfl
        rw [e₁]
        exact ih h₁ e
      by_cases hsec : (q.i + o) % 512 = 0
      · rw [if_pos hsec]
        exact hstep _ (by rw [view_concat]; exact h.2)
      · rw [if_neg hsec]
        exact hstep _ h.2
    · rw [if_neg hi] at e ⊢
      cases e
      exact ⟨p, rfl, h⟩

lemma pioLoop_i_le {word : Nat → Nat} {start length n : Nat} {q q' : Pio} (hq : q.i ≤ length)
    (e : Fs.pioLoop word start length n q = some q') : q.i ≤ q'.i ∧ q'.i ≤ length := by
  induction n generalizing q with
  | zero => cases e
  | succ n ih =>
    rw [Fs.pioLoop] at e
    by_cases hi : q.i < (length : Int) - 1
    · rw [if_pos hi] at e
      have := ih (q := pioStep word start q) (by unfold pioStep; dsimp only; omega) e
      unfold pioStep at this
      dsimp only at this
      omega
    · rw [if_neg hi] at e
      cases e
      exact ⟨Int.le_refl _, hq⟩

lemma pioPad_i_le {n : Nat} {q q' : Pio} (e : Fs.pioPad n q = some q') :
    q.i ≤ q'.i ∧ q'.i < q.i + 2 * n := by
  induction n generalizing q with
  | zero => cases e
  | succ n ih =>
    rw [Fs.pioPad] at e
    by_cases hi : q.i % 512 = 0
    · rw [if_pos hi] at e
      cases e
      omega
    · rw [if_neg hi] at e
      have := ih e
      dsimp only at this
      omega

lemma pioPad_beside {n : Nat} {p : Port} {q q' : Pio} (h : Beside p q) (hint : q'.i < 2 ^ 31)
    (e : Fs.pioPad n q = some q') : ∃ p', pioPad n p = .ok p' ∧ Beside p' q' := by
  induction n generalizing p q with
  | zero => cases e
  | succ n ih =>
    rw [Fs.pioPad] at e
    rw [pioPad, h.1]
    by_cases hi : q.i % 512 = 0
    · rw [if_pos hi] at e ⊢
      cases e
      exact ⟨p, rfl, h⟩
    · rw [if_neg hi] at e ⊢
      have hle := (pioPad_i_le e).1
      obtain ⟨p₁, e₁, h₁⟩ := word_beside ⟨q.i + 2, q.taken + 1, q.buffer⟩ h
        (Int.lt_of_le_of_lt hle hint) rfl rfl
      rw [e₁]
      exact ih h₁ e

/-- The words that `readPIO` takes from the port are those that `Fs.readPIO` stores or drops. -/
theorem readPio_words {disk buffer : Bytes} {lba offset length start : Nat} {r : PioRead}
    (hs : offset % 512 + length ≤ 2 ^ 17)
    (h : readPIO disk lba offset length buffer start = some r) :
    ∃ es, readPio (fun _ => 0) lba offset length = .ok es ∧ (view es).words = r.taken := by
  by_cases h0 : length = 0
  · unfold readPIO at h
    unfold readPio
    rw [if_pos h0] at h ⊢
    cases h
    exact ⟨[], rfl, rfl⟩
  have hcount : sectorCount offset length = (1 + (offset % 512 + length - 1) / 512) % 2 ^ 16 := by
    unfold sectorCount sub32 add32
    omega
  obtain ⟨lba', count, e⟩ := readPio_accepted lba (show 1 ≤ length by omega)
    (show sectorCount offset length ≤ 256 by omega)
  have hb : Int.bmod length (2 ^ 32) = length := by
    unfold Int.bmod
    dsimp only
    split <;> omega
  rw [e, hb, if_neg (by omega)]
  unfold readPIO at h
  rw [if_neg h0] at h
  dsimp only at h
  rw [if_neg (by omega)] at h
  have ho : offset % 512 < 512 := Nat.mod_lt _ (by decide)
  generalize offset % 512 = o at hs h ho ⊢
  obtain ⟨q₁, hq₁, h⟩ := Option.bind_eq_some_iff.mp h
  obtain ⟨q₂, hq₂, h⟩ := Option.bind_eq_some_iff.mp h
  cases h
  obtain ⟨p₁, e₁, h₁⟩ := pioLoop_beside (o := o) (p := ⟨-o, [.command lba' count]⟩) ⟨rfl, rfl⟩
    (by omega) hq₁
  obtain ⟨hlo₁, hi₁⟩ := pioLoop_i_le (by dsimp only; omega) hq₁
  dsimp only at hlo₁
  -- the half word and the rest of the last sector
  have hrest : ∀ p : Port, ∀ q : Pio, Beside p q → -o ≤ q.i → q.i ≤ length + 2 →
      Fs.pioPad 257 ⟨q.i + o, q.taken, q.buffer⟩ = some q₂ →
      ∃ p', pioPad 257 ⟨Int.bmod (p.i + o) (2 ^ 32), p.events⟩ = .ok p' ∧
        (view p'.events).words = q₂.taken := by
    intro p q hpq hlo hhi hpad
    have hbmod : Int.bmod (q.i + o) (2 ^ 32) = q.i + o := by
      unfold Int.bmod
      dsimp only
      split <;> omega
    have hend := (pioPad_i_le hpad).2
    dsimp only at hend
    obtain ⟨p', e', h'⟩ := pioPad_beside (p := ⟨q.i + o, p.events⟩)
      (q := ⟨q.i + o, q.taken, q.buffer⟩) ⟨rfl, hpq.2⟩ (by omega) hpad
    rw [hpq.1, hbmod]
    exact ⟨p', e', h'.2⟩
  rw [e₁]
  change ∃ es, pioRest o length p₁ = .ok es ∧ _
  unfold pioRest
  by_cases hodd : (length + o) % 2 ≠ 0
  · rw [if_pos hodd] at hq₂ ⊢
    obtain ⟨p₂, e₂, h₂⟩ := word_beside (pioHalf (portWord disk _) start q₁) h₁
      (by unfold pioHalf; dsimp only; omega) rfl rfl
    obtain ⟨p', e', h'⟩ := hrest p₂ _ h₂ (by unfold pioHalf; dsimp only; omega)
      (by unfold pioHalf; dsimp only; omega) hq₂
    rw [e₂]
    change ∃ es, (pioPad 257 _ >>= _) = .ok es ∧ _
    rw [e']
    exact ⟨_, rfl, h'⟩
  · rw [if_neg hodd] at hq₂ ⊢
    obtain ⟨p', e', h'⟩ := hrest p₁ q₁ h₁ hlo₁ (by omega) hq₂
    change ∃ es, (pioPad 257 _ >>= _) = .ok es ∧ _
    rw [e']
    exact ⟨_, rfl, h'⟩

end MarioBrOS.Fs.Drive
