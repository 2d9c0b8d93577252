import MarioBrOS.Strings.Heap
import Mathlib.Data.List.Forall2
import Mathlib.Logic.Function.Basic
import Mathlib.Tactic.IntervalCases
import Mathlib.Tactic.SplitIfs

/-!
# Splitting strings

`str_split` of `string.c`, on memory. The pieces are collected in a buffer of 128 bytes on the
stack, copied to blocks of their own and pushed to a list, which is reversed at the end. An access
behind the buffer is the fault `overrun`.
-/

namespace MarioBrOS.Strings

variable {σ : Type} (H : CallerHeap σ)

/-- `string.c`, `str_copy`, from position `pos` of `source` on, for a source of `fuel` more bytes.
-/
def copyLoop (source : Bytes) (dest : Bytes) (d : Nat) : Nat → Nat → Option Bytes
  | 0, _ => none
  | fuel + 1, pos =>
    if source pos ≠ 0 then
      copyLoop source (Function.update dest (d + pos) (source pos)) d fuel (pos + 1)
    else
      some (Function.update dest (d + pos) 0)

/-- The size of the buffer of `str_split`. -/
def BUFFER_SIZE : Nat := 128

/-- `buffer[pos] = c`. -/
def setBuffer (buffer : Bytes) (pos : Nat) (c : UInt8) : Kernel σ Bytes :=
  if pos < BUFFER_SIZE then pure (Function.update buffer pos c) else throw .overrun

/-- `str_copy(buffer, word)`. -/
def strCopy (buffer : Bytes) (word : Nat) : Kernel σ Unit := fun s =>
  match copyLoop buffer (H.mem s) word BUFFER_SIZE 0 with
  | some m => .ok ((), H.write m s)
  | none => .error .overrun

/-- The word with the contents of the buffer. -/
def newWord (buffer : Bytes) (pos : Nat) : Kernel σ Nat := do
  let word ← alloc H (pos + 1)
  strCopy H buffer word
  pure word

/-- The part of `str_split` that ends a piece. -/
def flush (buffer : Bytes) (pos res : Nat) : Kernel σ (Bytes × Nat) := do
  let buffer ← setBuffer buffer pos 0
  let word ← newWord H buffer pos
  let res ← push H res word
  pure (buffer, res)

/-- The loop of `str_split` over the string `a`, in at most `fuel` steps: the buffer, its position
and the list at the end. -/
def splitLoop (a : Nat) (c : UInt8) (empty : Bool) :
    Nat → Nat → Nat → Bytes → Nat → Kernel σ (Nat × Bytes × Nat)
  | 0, _, _, _, _ => throw .endless
  | fuel + 1, i, pos, buffer, res => do
    let s ← get
    let ch := H.mem s (add32 a i)
    if ch = 0 then
      pure (pos, buffer, res)
    else if ch = c ∧ ¬(pos = 0 ∧ empty = false) then
      let (buffer, res) ← flush H buffer pos res
      splitLoop a c empty fuel (i + 1) 0 buffer res
    else if ch ≠ c then
      let buffer ← setBuffer buffer pos ch
      splitLoop a c empty fuel (i + 1) (pos + 1) buffer res
    else
      splitLoop a c empty fuel (i + 1) pos buffer res

/-- The part of `str_split` after the loop that ends the last piece. -/
def flushLast (pos : Nat) (empty : Bool) (buffer : Bytes) (res : Nat) : Kernel σ Nat :=
  if ¬(pos = 0 ∧ empty = false) then do
    let (_, res) ← flush H buffer pos res
    pure res
  else
    pure res

/-- `string.c`, `str_split`. `stack` is what the buffer holds at first. -/
def strSplit (stack : Bytes) (a : Nat) (c : UInt8) (empty : Bool) : Kernel σ Nat := do
  let (pos, buffer, res) ← splitLoop H a c empty WALK_FUEL 0 0 stack 0
  let res ← flushLast H pos empty buffer res
  reverse H res

variable {H} {s t u : σ} {a l p pos : Nat} {c : UInt8} {cs w : List UInt8}

/-! ## Strings in memory -/

/-- The memory holds the characters at `a`, then `NUL`. -/
structure HasString (m : Bytes) (a : Nat) (cs : List UInt8) : Prop where
  char : ∀ (i : Nat) (h : i < cs.length), m (a + i) = cs[i]
  nonzero : (0 : UInt8) ∉ cs
  terminator : m (a + cs.length) = 0

lemma HasString.congr {m' : Bytes} (h : HasString m a cs)
    (he : ∀ x, a ≤ x → x < a + (cs.length + 1) → m' x = m x) : HasString m' a cs :=
  ⟨fun i hi => by rw [he _ (by omega) (by omega), h.char i hi], h.nonzero,
    by rw [he _ (by omega) (by omega), h.terminator]⟩

/-- What `str_copy` leaves: the string, and what lies outside. -/
lemma copyLoop_spec {source : Bytes} {n : Nat} (dest : Bytes) (d : Nat) (h : HasString source 0 cs)
    (hpos : pos ≤ cs.length) (hn : cs.length - pos < n) :
    ∃ m, copyLoop source dest d n pos = some m ∧
      (∀ x, x < d + pos ∨ d + (cs.length + 1) ≤ x → m x = dest x) ∧
      (∀ i, (hi : i < cs.length) → pos ≤ i → m (d + i) = cs[i]) ∧ m (d + cs.length) = 0 := by
  induction n generalizing pos dest with
  | zero => omega
  | succ n ih =>
    by_cases hlt : pos < cs.length
    · have hc := h.char pos hlt
      rw [Nat.zero_add] at hc
      have hne : source pos ≠ 0 := by
        rw [hc]
        intro e
        exact h.nonzero (e ▸ List.getElem_mem hlt)
      obtain ⟨m, e, hout, hin, hz⟩ :=
        ih (Function.update dest (d + pos) (source pos)) hlt (by omega)
      refine ⟨m, by rw [copyLoop, if_pos hne, e], fun x hx => ?_, fun i hi hpi => ?_, hz⟩
      · rw [hout x (by omega), Function.update_of_ne (by omega)]
      · obtain rfl | hne := Nat.eq_or_lt_of_le hpi
        · rw [hout _ (by omega), Function.update_self, hc]
        · exact hin i hi hne
    · obtain rfl : pos = cs.length := by omega
      have hz := h.terminator
      rw [Nat.zero_add] at hz
      refine ⟨_, by rw [copyLoop, if_neg (by rw [hz]; simp)], fun x hx => ?_,
        fun i hi hpi => by omega, Function.update_self ..⟩
      rw [Function.update_of_ne (by omega)]

/-! ## Pieces -/

/-- A block of its own, new since `s`, that holds the piece `w`. -/
structure Piece (H : CallerHeap σ) (s t : σ) (p : Nat) (w : List UInt8) : Prop where
  fresh : Fresh H s t p (w.length + 1)
  holds : HasString (H.mem t) p w

lemma Piece.kept (h : Piece H s t p w) (hk : Kept H t u) : Piece H s u p w := by
  obtain ⟨⟨h0, hb, hn, ho⟩, hw⟩ := h
  exact ⟨⟨h0, hb, hn, fun x h1 h2 => (hk x (ho x h1 h2)).1⟩,
    hw.congr fun x h1 h2 => (hk x (ho x h1 h2)).2⟩

/-- Two blocks apart. -/
def Apart (q r : Nat × List UInt8) : Prop :=
  q.1 + q.2.length < r.1 ∨ r.1 + r.2.length < q.1

/-- The list `l` of the pieces `ws`, with their blocks. -/
structure Pieces (H : CallerHeap σ) (s t : σ) (l : Nat) (ws : List (Nat × List UInt8)) : Prop where
  list : IsList H t l (ws.map Prod.fst)
  piece : ∀ q ∈ ws, Piece H s t q.1 q.2
  apart : ws.Pairwise Apart

lemma Pieces.kept {ws} (h : Pieces H s t l ws) (hk : Kept H t u) : Pieces H s u l ws :=
  ⟨h.list.kept hk, fun q hq => (h.piece q hq).kept hk, h.apart⟩

/-- The buffer holds the characters of the piece so far. -/
structure Collects (buffer : Bytes) (w : List UInt8) : Prop where
  char : ∀ (i : Nat) (h : i < w.length), buffer i = w[i]
  nonzero : (0 : UInt8) ∉ w
  room : w.length < BUFFER_SIZE

/-- The buffer as a string. -/
lemma Collects.hasString {buffer : Bytes} (h : Collects buffer w) :
    HasString (Function.update buffer w.length 0) 0 w := by
  refine ⟨fun i hi => ?_, h.nonzero, ?_⟩
  · rw [Nat.zero_add, Function.update_of_ne (by omega), h.char i hi]
  · rw [Nat.zero_add, Function.update_self]

/-- The word is a block of its own with the piece. -/
lemma newWord_does {buffer : Bytes} (hb : HasString buffer 0 w) (hr : w.length < BUFFER_SIZE) :
    Does H (newWord H buffer w.length) s [w.length + 1] fun p t => Piece H s t p w := by
  apply Does.fill
  intro p t _
  obtain ⟨m, e, hout, hin, hz⟩ :=
    copyLoop_spec (n := BUFFER_SIZE) (H.mem t) p hb (Nat.zero_le _) (by omega)
  refine ⟨m, p, ?_, fun x hx => hout x (by omega), fun u _ hu hf => ⟨hf, ?_⟩⟩
  · change (strCopy H buffer p t >>= fun x => (pure p : Kernel σ Nat) x.2) = _
    simp only [strCopy, e]
    rfl
  · rw [hu]
    exact ⟨fun i hi => hin i hi (Nat.zero_le _), hb.nonzero, hz⟩

/-- Blocks that are in use are apart from new ones. -/
lemma Piece.apart {r : Nat × List UInt8} (h : Piece H t u p w) (hr : Piece H s t r.1 r.2) :
    Apart (p, w) r := by
  have h1 := h.fresh.before
  have h2 := hr.fresh.now
  by_contra hc
  unfold Apart at hc
  push Not at hc
  obtain ⟨hc1, hc2⟩ : r.1 ≤ p + w.length ∧ p ≤ r.1 + r.2.length := hc
  exact h1 (max p r.1) (by omega) (by omega) (h2 _ (by omega) (by omega))

/-- Ending a piece adds it to the list. -/
lemma flush_does {buffer : Bytes} {ws} (hb : Collects buffer w) (hk : Kept H s t) (hl : l < 2 ^ 32)
    (h : Pieces H s t l ws) :
    Does H (flush H buffer w.length l) t [w.length + 1, 8] fun r u =>
      r.2 < 2 ^ 32 ∧ ∃ p, Pieces H s u r.2 ((p, w) :: ws) := by
  have e : setBuffer (σ := σ) buffer w.length 0 = pure (Function.update buffer w.length 0) :=
    if_pos hb.room
  rw [flush, e, pure_bind]
  refine Does.bind [w.length + 1] [8] (newWord_does hb.hasString hb.room) ?_
  intro p u hk' hp
  have hbound := hp.fresh.bound
  refine Does.bind [8] [] (push_does hl (by omega) (h.kept hk').list) ?_
  rintro r v hk'' ⟨hr, hlist⟩
  refine .pure ⟨hr, p, hlist, ?_, ?_⟩
  · intro q hq
    obtain rfl | hq := List.mem_cons.mp hq
    · obtain ⟨h0, hb, hn, ho⟩ := (hp.kept hk'').fresh
      exact ⟨⟨h0, hb, fun x h1 h2 hx => hn x h1 h2 (hk x hx).1, ho⟩, (hp.kept hk'').holds⟩
    · exact ((h.kept hk').kept hk'').piece q hq
  · exact List.pairwise_cons.mpr ⟨fun q hq => hp.apart (h.piece q hq), h.apart⟩

/-! ## The loop -/

/-- The pieces that `str_split` returns. -/
def pieces (c : UInt8) (empty : Bool) (cs : List UInt8) : List (List UInt8) :=
  if empty then cs.splitOn c else (cs.splitOn c).filter (· ≠ [])

/-- The pieces that are kept. -/
def keep (empty : Bool) (ps : List (List UInt8)) : List (List UInt8) :=
  ps.filter fun p => empty || decide (p ≠ [])

lemma pieces_eq (empty : Bool) : pieces c empty cs = keep empty (cs.splitOn c) := by
  cases empty <;> simp [pieces, keep]

lemma keep_cons {empty : Bool} {ps : List (List UInt8)} (h : ¬(w.length = 0 ∧ empty = false)) :
    keep empty (w :: ps) = w :: keep empty ps := by
  have hkeep : (empty || decide (w ≠ [])) = true := by
    cases empty with
    | true => rfl
    | false => simpa [List.length_eq_zero_iff] using h
  exact List.filter_cons_of_pos (p := fun p => empty || decide (p ≠ [])) hkeep

/-- What is asked for the pieces: a block and a cell each. -/
def pieceRequests (ps : List (List UInt8)) : List Nat := ps.flatMap fun p => [p.length + 1, 8]

lemma pieceRequests_cons (ps : List (List UInt8)) :
    pieceRequests (w :: ps) = [w.length + 1, 8] ++ pieceRequests ps := rfl

/-- What `str_split` asks for: the pieces, and the cells of the reversed list. -/
def splitRequests (ps : List (List UInt8)) : List Nat :=
  pieceRequests ps ++ List.replicate ps.length 8

/-- The characters before the next separator make the next piece longer. -/
lemma exists_longer (p : UInt8 → Bool) (cs acc : List UInt8) :
    ∃ q ∈ cs.splitOnPPrepend p acc, acc.length ≤ q.length := by
  obtain ⟨q, qs, hq⟩ := List.exists_cons_of_ne_nil (List.splitOnP_ne_nil p cs)
  refine ⟨acc.reverse ++ q, ?_, by simp⟩
  rw [List.splitOnPPrepend_eq_modifyHead, hq, List.modifyHead_cons]
  exact List.mem_cons_self

/-- A string in use. -/
structure CString (H : CallerHeap σ) (s : σ) (a : Nat) (cs : List UInt8) : Prop where
  holds : HasString (H.mem s) a cs
  owned : ∀ x, a ≤ x → x < a + (cs.length + 1) → x ∈ H.owned s
  bound : a + cs.length < 2 ^ 32

/-- The next character. -/
lemma CString.next {i : Nat} {rest : List UInt8} (h : CString H s a cs) (hk : Kept H s t)
    (hr : cs.drop i = rest) (hi : i ≤ cs.length) : H.mem t (add32 a i) = rest.headD 0 := by
  have hb := h.bound
  rw [add32_of_lt (by omega), (hk _ (h.owned _ (by omega) (by omega))).2, ← hr]
  obtain hlt | rfl := Nat.lt_or_eq_of_le hi
  · rw [h.holds.char i hlt, List.drop_eq_getElem_cons hlt, List.headD_cons]
  · rw [h.holds.terminator, List.drop_length]
    rfl

/-- One more character in the buffer. -/
lemma Collects.push {buffer : Bytes} {ch : UInt8} (h : Collects buffer w) (hc : ch ≠ 0)
    (hr : w.length + 1 < BUFFER_SIZE) :
    Collects (Function.update buffer w.length ch) (w ++ [ch]) := by
  refine ⟨fun i hi => ?_, ?_, by simpa using hr⟩
  · rw [List.length_append, List.length_singleton] at hi
    obtain hlt | rfl := Nat.lt_or_eq_of_le (Nat.le_of_lt_succ hi)
    · rw [Function.update_of_ne (by omega), h.char i hlt, List.getElem_append_left hlt]
    · rw [Function.update_self, List.getElem_concat_length rfl]
  · rw [List.mem_append, List.mem_singleton]
    rintro (h0 | h0)
    · exact h.nonzero h0
    · exact hc h0.symm

/-- What the loop has at its end: the pieces `ps` are those of the list and the one in the buffer.
-/
structure LoopEnd (H : CallerHeap σ) (s u : σ) (empty : Bool) (ps : List (List UInt8))
    (r : Nat × Bytes × Nat) (w : List UInt8) (ws : List (Nat × List UInt8)) : Prop where
  pos : r.1 = w.length
  buffer : Collects r.2.1 w
  lt : r.2.2 < 2 ^ 32
  list : Pieces H s u r.2.2 ws
  split : ps = (ws.map Prod.snd).reverse ++ keep empty [w]

lemma cons_of_drop {α : Type*} {l r : List α} {i : Nat} {x : α} (h : l.drop i = x :: r) :
    ∃ hlt : i < l.length, l[i] = x ∧ l.drop (i + 1) = r := by
  have hlt : i < l.length := by
    by_contra hc
    rw [List.drop_of_length_le (by omega)] at h
    cases h
  rw [List.drop_eq_getElem_cons hlt] at h
  exact ⟨hlt, List.cons.inj h⟩

/-- The loop collects the pieces of the rest of the string. -/
lemma splitLoop_does {empty : Bool} {fuel i : Nat} {rest : List UInt8} {buffer : Bytes} {ws}
    (hs : CString H s a cs) (hk : Kept H s t) (hr : cs.drop i = rest)
    (hi : i ≤ cs.length) (hfuel : rest.length < fuel)
    (hlen : ∀ q ∈ rest.splitOnPPrepend (· == c) w.reverse, q.length ≤ 127)
    (hb : Collects buffer w) (hl : l < 2 ^ 32) (h : Pieces H s t l ws) :
    Does H (splitLoop H a c empty fuel i w.length buffer l) t
      (pieceRequests (keep empty (rest.splitOnPPrepend (· == c) w.reverse).dropLast)) fun r u =>
      ∃ w' ws', (rest.splitOnPPrepend (· == c) w.reverse).getLast? = some w' ∧
        LoopEnd H s u empty ((ws.map Prod.snd).reverse ++
          keep empty (rest.splitOnPPrepend (· == c) w.reverse)) r w' ws' := by
  induction fuel generalizing t i rest w buffer l ws with
  | zero => omega
  | succ fuel ih =>
    have hch := hs.next hk hr hi
    rw [splitLoop]
    apply Does.get
    rw [hch]
    cases rest with
    | nil =>
      rw [List.headD_nil, if_pos rfl]
      rw [List.splitOnPPrepend_nil, List.reverse_reverse]
      exact .pure ⟨w, ws, rfl, rfl, hb, hl, h, rfl⟩
    | cons ch rest =>
      obtain ⟨hlt, rfl, hr'⟩ := cons_of_drop hr
      have h0 : cs[i] ≠ 0 := fun e => hs.holds.nonzero (e ▸ List.getElem_mem hlt)
      rw [List.length_cons] at hfuel
      rw [List.headD_cons, if_neg h0]
      by_cases hsep : cs[i] = c
      · have hp : (cs[i] == c) = true := by simpa using hsep
        rw [List.splitOnPPrepend_cons_pos (p := (· == c)) hp, List.reverse_reverse] at hlen ⊢
        have hlen' : ∀ q ∈ rest.splitOnPPrepend (· == c) ([] : List UInt8).reverse,
            q.length ≤ 127 := fun q hq => hlen q (List.mem_cons_of_mem _ hq)
        have hne := List.splitOnP_ne_nil (· == c) rest
        rw [List.dropLast_cons_of_ne_nil hne, List.getLast?_cons_of_ne_nil hne]
        -- an empty piece is skipped, unless all are asked for
        by_cases hskip : w.length = 0 ∧ empty = false
        · obtain ⟨hw, rfl⟩ := hskip
          obtain rfl := List.eq_nil_of_length_eq_zero hw
          rw [if_neg (by simp), if_neg (by simpa using hsep)]
          exact ih hk hr' hlt (by omega) hlen' hb hl h
        · rw [if_pos ⟨hsep, hskip⟩]
          rw [keep_cons hskip, pieceRequests_cons]
          refine Does.bind _ _ (flush_does hb hk hl h) ?_
          rintro ⟨buffer', l'⟩ u hk' ⟨hl', p, h'⟩
          apply (ih (w := []) (hk.trans hk') hr' hlt (by omega) hlen' ⟨nofun, nofun, by decide⟩ hl'
            h').imp
          rintro r v _ ⟨w', ws', hlast, hend⟩
          refine ⟨w', ws', hlast, hend.pos, hend.buffer, hend.lt, hend.list, ?_⟩
          rw [← hend.split, keep_cons hskip, List.map_cons, List.reverse_cons, List.append_assoc]
          rfl
      · rw [if_neg (by tauto), if_pos hsep]
        have hp : (cs[i] == c) = false := by simpa using hsep
        rw [List.splitOnPPrepend_cons_neg (p := (· == c)) hp] at hlen ⊢
        -- the piece will be longer than what is read of it, so there is room for the character
        obtain ⟨q, hq, hle⟩ := exists_longer (· == c) rest (cs[i] :: w.reverse)
        have hroom : w.length + 1 < BUFFER_SIZE := by
          have := hlen q hq
          rw [List.length_cons, List.length_reverse] at hle
          unfold BUFFER_SIZE
          omega
        have e : setBuffer (σ := σ) buffer w.length cs[i] =
            pure (Function.update buffer w.length cs[i]) := if_pos hb.room
        have hw : w.length + 1 = (w ++ [cs[i]]).length := by simp
        have hrev : cs[i] :: w.reverse = (w ++ [cs[i]]).reverse := by simp
        rw [e, pure_bind, hw]
        rw [hrev] at hlen ⊢
        exact ih hk hr' hlt (by omega) hlen (hb.push h0 hroom) hl h

/-! ## The function -/

/-- What is left in the buffer is the last piece. -/
lemma flushLast_does {empty : Bool} {ps} {r : Nat × Bytes × Nat} {ws} (hk : Kept H s t)
    (h : LoopEnd H s t empty ps r w ws) :
    Does H (flushLast H r.1 empty r.2.1 r.2.2) t (pieceRequests (keep empty [w])) fun l u =>
      ∃ ws', Pieces H s u l ws' ∧ ps = (ws'.map Prod.snd).reverse := by
  unfold flushLast
  have hsplit := h.split
  by_cases hskip : r.1 = 0 ∧ empty = false
  · obtain ⟨hw, rfl⟩ := hskip
    rw [h.pos] at hw
    obtain rfl := List.eq_nil_of_length_eq_zero hw
    rw [if_neg (by simp [h.pos])]
    exact .pure ⟨ws, h.list, by simpa [keep] using hsplit⟩
  · rw [keep_cons (h.pos ▸ hskip)] at hsplit ⊢
    rw [if_pos hskip, h.pos]
    refine Does.bind [w.length + 1, 8] [] (flush_does h.buffer hk h.lt h.list) ?_
    rintro ⟨buffer, l⟩ u _ ⟨_, p, h'⟩
    refine .pure ⟨_, h', ?_⟩
    rw [hsplit, List.map_cons, List.reverse_cons]
    rfl

/-- The number of pieces. -/
lemma length_splitOn (c : UInt8) (cs : List UInt8) : (cs.splitOn c).length = cs.count c + 1 := by
  induction cs with
  | nil => rfl
  | cons x cs ih =>
    rw [List.splitOn_cons_eq_if_modifyHead, List.count_cons]
    by_cases hx : (x == c) = true
    · rw [if_pos hx, if_pos hx, List.length_cons, ih]
    · rw [if_neg hx, if_neg hx, List.length_modifyHead, ih]

/-- The requests of the loop and of the last piece are those of all pieces. -/
lemma pieceRequests_split {empty : Bool} {last : List UInt8} {ps : List (List UInt8)}
    (h : ps.getLast? = some last) :
    pieceRequests (keep empty ps.dropLast) ++ pieceRequests (keep empty [last]) =
      pieceRequests (keep empty ps) := by
  obtain ⟨init, rfl⟩ := List.getLast?_eq_some_iff.mp h
  rw [List.dropLast_concat]
  simp [pieceRequests, keep]

/-- `str_split` returns the pieces of the string in order, each in a block of its own, unless one of
its requests is refused; with `empty` they are all there. -/
theorem strSplit_pieces (stack : Bytes) (empty : Bool) (hs : CString H s a cs)
    (hlen : ∀ q ∈ cs.splitOn c, q.length ≤ 127) :
    Does H (strSplit H stack a c empty) s (splitRequests (pieces c empty cs)) fun l t =>
      ∃ ws, Pieces H s t l ws ∧ ws.map Prod.snd = pieces c empty cs ∧
        [c].intercalate (pieces c true cs) = cs ∧
        (pieces c true cs).length = cs.count c + 1 := by
  have hb := hs.bound
  have hfuel : cs.length < WALK_FUEL := by
    unfold WALK_FUEL
    omega
  have hstart : Collects stack [] := ⟨nofun, nofun, by decide⟩
  have hnone : Pieces H s s 0 [] := ⟨rfl, nofun, .nil⟩
  have hlen' : ∀ q ∈ cs.splitOnPPrepend (· == c) ([] : List UInt8).reverse, q.length ≤ 127 := hlen
  obtain ⟨last, hlast⟩ : ∃ last, (cs.splitOn c).getLast? = some last :=
    ⟨_, List.getLast?_eq_some_getLast (List.splitOnP_ne_nil (· == c) cs)⟩
  have hlength : (keep empty (cs.splitOn c)).length < WALK_FUEL := by
    have h1 : (keep empty (cs.splitOn c)).length ≤ _ := List.length_filter_le ..
    have h2 := length_splitOn c cs
    have h3 : cs.count c ≤ cs.length := List.count_le_length
    unfold WALK_FUEL
    omega
  rw [strSplit, splitRequests, pieces_eq, ← pieceRequests_split hlast, List.append_assoc]
  refine Does.bind _ _ (splitLoop_does hs (.refl s) List.drop_zero (Nat.zero_le _) hfuel hlen'
    hstart (by omega) hnone) ?_
  rintro r t hk ⟨w, ws, hw, hend⟩
  obtain rfl : w = last := Option.some.inj (hw.symm.trans hlast)
  refine Does.bind _ _ (flushLast_does hk hend) ?_
  rintro l u _ ⟨ws', hp, hps⟩
  have hps' : (ws'.map Prod.snd).reverse = keep empty (cs.splitOn c) := hps.symm
  have hcount : (ws'.map Prod.fst).length = (keep empty (cs.splitOn c)).length := by
    rw [← hps']
    simp
  rw [← hcount]
  apply (reverse_does hp.list (hcount ▸ hlength)).imp
  intro l' v hk' hl'
  refine ⟨ws'.reverse, ⟨by rwa [List.map_reverse], fun q hq => ?_, ?_⟩, ?_, ?_, ?_⟩
  · exact (hp.piece q (List.mem_reverse.mp hq)).kept hk'
  · exact List.pairwise_reverse.mpr (hp.apart.imp Or.symm)
  · rw [List.map_reverse, hps']
  · exact List.intercalate_splitOn c
  · exact length_splitOn c cs

/-- A memory whose blocks are taken one behind the other. -/
structure Bump where
  mem : Bytes
  next : Nat

/-- Blocks from `next` on, as long as there is room. -/
def bumpHeap : CallerHeap Bump where
  mem := Bump.mem
  write m s := { s with mem := m }
  owned s := {x | x < s.next}
  memAlloc n s :=
    if 0 < s.next ∧ s.next + n ≤ 2 ^ 32 then some (s.next, { s with next := s.next + n }) else none
  fresh {n s p t} e := by
    split_ifs at e with h
    cases e
    exact ⟨h.1, h.2, fun x h1 _ hx => absurd hx (by simpa using h1)⟩
  takes {n s p t} e x := by
    split_ifs at e with h
    cases e
    simp only [Set.mem_ofPred_eq]
    omega
  keeps {n s p t} e x _ := by
    split_ifs at e with h
    cases e
    rfl
  written _ := ⟨rfl, rfl⟩

/-- The string `"a  b"` at `16`, with all memory from `32` on free. -/
def bumpSample : Bump where
  mem := fun x => if x = 16 then 97 else if x = 17 ∨ x = 18 then 32 else if x = 19 then 98 else 0
  next := 32

lemma bumpSample_string : CString bumpHeap bumpSample 16 [97, 32, 32, 98] := by
  refine ⟨⟨fun i hi => ?_, by decide, rfl⟩, fun x _ hx => ?_, by decide⟩
  · have hi' : i < 4 := hi
    interval_cases i <;> rfl
  · exact lt_of_lt_of_le hx (by decide)

/-- Without empty pieces, `"a  b"` has the pieces `"a"` and `"b"`. -/
theorem strSplit_pieces_sample :
    ∃ l t ws, strSplit bumpHeap (fun _ => 0) 16 32 false bumpSample = .ok (l, t) ∧
      Pieces bumpHeap bumpSample t l ws ∧ ws.map Prod.snd = [[97], [98]] := by
  have hsplit : [97, 32, 32, 98].splitOn (32 : UInt8) = [[97], [], [98]] := rfl
  have hrun : (match strSplit bumpHeap (fun _ => 0) 16 32 false bumpSample with
      | .ok _ => true
      | .error _ => false) = true := by decide +kernel
  obtain ⟨e, _⟩ | ⟨l, t, e, _, ws, h, hw, _⟩ :=
    strSplit_pieces (fun _ => 0) false bumpSample_string (c := 32) (by rw [hsplit]; decide)
  · rw [e] at hrun
    cases hrun
  · refine ⟨l, t, ws, e, h, ?_⟩
    rw [hw, pieces, if_neg (by decide), hsplit]
    rfl

end MarioBrOS.Strings
