import MarioBrOS.Strings.Numbers

/-!
# Formatted strings

`format_to_string` of `string.c` and `writef` of `printer.c` read the same formats. The first writes
to a buffer, the second sends characters to `write_char`. Strings that are read only (the format and
the arguments of `%s`) are lists of characters, without the final `NUL`; the buffers are in memory.

The two differ at `%X`, where both pad with the difference of unsigned lengths, at `%%`, which
`format_to_string` does not know, and at strings with the bytes that `write_string` decodes.
-/

namespace MarioBrOS.Strings

/-! ## Arguments -/

/-- An argument of a format, as `va_arg` gives it: a word, or a string. -/
inductive Arg where
  | word (w : Nat)
  | string (cs : List UInt8)

/-- The word as an `int`. -/
def signed32 (w : Nat) : Int := if w < 2 ^ 31 then w else (w : Int) - 2 ^ 32

/-- `'%'`. -/
def PERCENT : UInt8 := 37

/-- The letters of the directives that both functions know. -/
def LETTERS : List UInt8 := [100, 117, 120, 88, 104, 99, 115]

/-- `utils.c`, `max`, on unsigned numbers. -/
def maxU (a b : Nat) : Nat := if a > b then a else b

/-! ## `writef` -/

/-- The first byte of the characters in `utf8_c2`. -/
def C2 : UInt8 := 0xc2

/-- The first byte of the characters in `utf8_c3`. -/
def C3 : UInt8 := 0xc3

/-- `printer.c`, `utf8_c2`. -/
def utf8C2 : List UInt8 :=
  [173, 155, 156, 234, 157, 179, 21, 234, 234, 166, 234, 170, 174, 234, 234, 248, 241, 253, 234,
    39, 230, 20, 249, 44, 49, 167, 175, 172, 171, 234, 168]

/-- `printer.c`, `utf8_c3`. -/
def utf8C3 : List UInt8 :=
  [65, 65, 65, 65, 142, 143, 146, 128, 69, 144, 69, 69, 73, 73, 73, 73, 68, 165, 79, 79, 79, 79,
    153, 120, 79, 85, 85, 85, 154, 89, 48, 225, 133, 160, 131, 97, 132, 134, 145, 135, 138, 130,
    136, 137, 141, 161, 140, 139, 235, 164, 149, 162, 147, 111, 148, 246, 237, 151, 163, 150, 129,
    121, 0, 152]

/-- The character behind the byte `c`, from the table for it. What lies outside of the tables is not
known. -/
def decode (c x : UInt8) : Option UInt8 :=
  if c = C2 then utf8C2[sub32 x.toNat 0xa1]? else utf8C3[sub32 x.toNat 0x80]?

/-- `printer.c`, `write_string`: the characters that it sends. -/
def writeString : List UInt8 → Option (List UInt8)
  | [] => some []
  | c :: cs =>
    if c = C2 ∨ c = C3 then
      match cs with
      | [] => none
      | x :: cs => do
        let y ← decode c x
        let rest ← writeString cs
        some (y :: rest)
    else do
      let rest ← writeString cs
      some (c :: rest)

/-- The string at `a`, if it ends within `fuel` bytes. -/
def readString (m : Bytes) : Nat → Nat → Option (List UInt8)
  | 0, _ => none
  | fuel + 1, a => if m a = 0 then some [] else (readString m fuel (a + 1)).map (m a :: ·)

/-- The size of the buffer of `writef`. -/
def WRITEF_BUFFER_SIZE : Nat := 17

/-- Where it is: anywhere but at `NULL`. -/
def BUFFER : Nat := 1

/-- `call(buffer); write_string(buffer)`: what is sent, and the buffer. -/
def writeBuffer (call : Nat → Bytes → Option (Bytes × Nat)) (buffer : Bytes) :
    Option (List UInt8 × Bytes) := do
  let (buffer, _) ← call BUFFER buffer
  let cs ← readString buffer WRITEF_BUFFER_SIZE BUFFER
  let out ← writeString cs
  some (out, buffer)

/-- A directive in `writef`: what is sent, the other arguments and the buffer. -/
def writefDirective (letter : UInt8) (args : List Arg) (buffer : Bytes) :
    Option (List UInt8 × List Arg × Bytes) :=
  match letter, args with
  | 100, .word w :: args => -- 'd'
    (writeBuffer (fun str m => intToString str (signed32 w) 10 m) buffer).map
      fun (out, buffer) => (out, args, buffer)
  | 117, .word w :: args => -- 'u'
    (writeBuffer (fun str m => uIntToString str w 10 m) buffer).map
      fun (out, buffer) => (out, args, buffer)
  | 120, .word w :: args => -- 'x'
    (writeBuffer (fun str m => uIntToString str w 16 m) buffer).map
      fun (out, buffer) => ([48, 120] ++ out, args, buffer)
  | 88, .word hex :: .word minLength :: args => do -- 'X'
    let (_, length) ← uIntToString 0 hex 16 buffer
    let zeros := List.replicate (maxU 0 (sub32 minLength length)) ZERO
    let (out, buffer) ← writeBuffer (fun str m => uIntToString str hex 16 m) buffer
    some ([48, 120] ++ (zeros ++ out), args, buffer)
  | 104, .word w :: args => -- 'h'
    (writeBuffer (fun str m => uIntToString str w 16 m) buffer).map
      fun (out, buffer) => (out, args, buffer)
  | 99, .word w :: args => some ([charOf w], args, buffer) -- 'c'
  | 115, .string cs :: args => -- 's'
    (writeString cs).map fun out => (out, args, buffer)
  | 102, .word _ :: args => some ([], args, buffer) -- 'f'
  | 98, .word _ :: args => some ([], args, buffer) -- 'b'
  | 37, args => some ([PERCENT], args, buffer)
  | _, _ => none

/-- The loop of `writef`: the characters that are sent, unless it throws. -/
def writefLoop : List UInt8 → List Arg → Bytes → Option (List UInt8)
  | [], _, _ => some []
  | c :: s, args, buffer =>
    if c = PERCENT then
      match s with
      | [] => none
      | x :: s => do
        let (out, args, buffer) ← writefDirective x args buffer
        let rest ← writefLoop s args buffer
        some (out ++ rest)
    else if c = C2 ∨ c = C3 then
      match s with
      | [] => none
      | x :: s => do
        let y ← decode c x
        let rest ← writefLoop s args buffer
        some (y :: rest)
    else do
      let rest ← writefLoop s args buffer
      some (c :: rest)

/-- `printer.c`, `writef`. `stack` is what its buffer holds at first. -/
def writef (stack : Bytes) (s : List UInt8) (args : List Arg) : Option (List UInt8) :=
  writefLoop s args stack

/-! ## `format_to_string` -/

/-- The string as its own memory. -/
def contents (cs : List UInt8) : Bytes := fun i => cs.getD i 0

/-- `string.c`, `str_copy`: the memory and the result. -/
def strCopyTo (cs : List UInt8) (d : Nat) (m : Bytes) : Option (Bytes × Nat) :=
  (copyLoop (contents cs) m d (cs.length + 1) 0).map fun m => (m, cs.length + 1)

/-- Stores `count` characters `'0'` from `a` on. -/
def padLoop (a : Nat) : Nat → Bytes → Bytes
  | 0, m => m
  | count + 1, m => padLoop (a + 1) count (Function.update m a ZERO)

/-- A directive in `format_to_string`: the other arguments, the position and the buffer. -/
def formatDirective (buf : Nat) (letter : UInt8) (args : List Arg) (write : Nat) (m : Bytes) :
    Option (List Arg × Nat × Bytes) :=
  match letter, args with
  | 100, .word w :: args => -- 'd'
    (intToString (buf + write) (signed32 w) 10 m).map fun (m, r) => (args, write + (r - 1), m)
  | 117, .word w :: args => -- 'u'
    (uIntToString (buf + write) w 10 m).map fun (m, r) => (args, write + (r - 1), m)
  | 120, .word w :: args => -- 'x'
    let m := Function.update (Function.update m (buf + write) 48) (buf + (write + 1)) 120
    (uIntToString (buf + (write + 2)) w 16 m).map fun (m, r) => (args, write + 2 + (r - 1), m)
  | 88, .word hex :: .word minLength :: args => do -- 'X'
    let m := Function.update (Function.update m (buf + write) 48) (buf + (write + 1)) 120
    let (m, r) ← uIntToString 0 hex 16 m
    let count := maxU 0 (sub32 minLength (r - 1))
    let m := padLoop (buf + (write + 2)) count m
    let (m, r) ← uIntToString (buf + (write + 2 + count)) hex 16 m
    some (args, write + 2 + count + (r - 1), m)
  | 104, .word w :: args => -- 'h'
    (uIntToString (buf + write) w 16 m).map fun (m, r) => (args, write + (r - 1), m)
  | 99, .word w :: args => -- 'c'
    some (args, write + 1, Function.update m (buf + write) (charOf w))
  | 115, .string cs :: args => -- 's'
    (strCopyTo cs (buf + write) m).map fun (m, r) => (args, write + (r - 1), m)
  | _, _ => none

/-- The loop of `format_to_string`, from position `write` of the buffer on: the memory and the
result. -/
def formatLoop (buf : Nat) : List UInt8 → List Arg → Nat → Bytes → Option (Bytes × Nat)
  | [], _, write, m => some (Function.update m (buf + write) 0, write + 1)
  | c :: s, args, write, m =>
    if c = PERCENT then
      match s with
      | [] => some (m, 22)
      | x :: s =>
        -- the default case only changes where the variable `buf` points
        if x ∈ LETTERS then do
          let (args, write, m) ← formatDirective buf x args write m
          formatLoop buf s args write m
        else
          some (m, 22)
    else
      formatLoop buf s args (write + 1) (Function.update m (buf + write) c)

/-- `string.c`, `format_to_string`. -/
def formatToString (buf : Nat) (s : List UInt8) (args : List Arg) (m : Bytes) :
    Option (Bytes × Nat) :=
  formatLoop buf s args 0 m

/-! ## Formats -/

/-- A piece of a format, with its arguments. -/
inductive Directive where
  | lit (ch : UInt8) (hch : ch ≠ 0 ∧ ch ≠ PERCENT ∧ ch.toNat < 128)
  | d (w : Nat) (hw : w < 2 ^ 32)
  | u (w : Nat) (hw : w < 2 ^ 32)
  | x (w : Nat) (hw : w < 2 ^ 32)
  | X (hex minLength : Nat) (hw : hex < 2 ^ 32 ∧ minLength < 2 ^ 32)
  | h (w : Nat) (hw : w < 2 ^ 32)
  | c (w : Nat) (hw : w < 2 ^ 32 ∧ charOf w ≠ 0)
  | s (cs : List UInt8) (hs : (0 : UInt8) ∉ cs)
  | percent

namespace Directive

/-- How it is written in the format. -/
def bytes : Directive → List UInt8
  | lit ch _ => [ch]
  | d .. => [PERCENT, 100]
  | u .. => [PERCENT, 117]
  | x .. => [PERCENT, 120]
  | X .. => [PERCENT, 88]
  | h .. => [PERCENT, 104]
  | c .. => [PERCENT, 99]
  | s .. => [PERCENT, 115]
  | percent => [PERCENT, PERCENT]

/-- Its arguments. -/
def args : Directive → List Arg
  | lit .. | percent => []
  | d w _ | u w _ | x w _ | h w _ | c w _ => [.word w]
  | X hex minLength _ => [.word hex, .word minLength]
  | s cs _ => [.string cs]

/-- What it stands for. A `%X` is padded to its least length. -/
def text : Directive → List UInt8
  | lit ch _ => [ch]
  | d w _ => sign (signed32 w) ++ digits 10 (abs32 (signed32 w))
  | u w _ => digits 10 w
  | x w _ => [48, 120] ++ digits 16 w
  | X hex minLength _ =>
    [48, 120] ++ (List.replicate (minLength - (digits 16 hex).length) ZERO ++ digits 16 hex)
  | h w _ => digits 16 w
  | c w _ => [charOf w]
  | s cs _ => cs
  | percent => [PERCENT]

/-- A `%X`. -/
def IsX : Directive → Prop
  | X .. => True
  | _ => False

/-- The pieces that both functions know and treat alike: no `%X`, no `%%`, and no string with a byte
that `write_string` decodes. -/
def Plain : Directive → Prop
  | X .. | percent => False
  | s cs _ => C2 ∉ cs ∧ C3 ∉ cs
  | _ => True

end Directive

/-- The format string. -/
def formatOf (ps : List Directive) : List UInt8 := ps.flatMap Directive.bytes

/-- Its arguments. -/
def argsOf (ps : List Directive) : List Arg := ps.flatMap Directive.args

/-- `writef` sends `out`, and `format_to_string` writes it to any buffer, with `NUL` behind it. -/
def Shows (ps : List Directive) (out : List UInt8) : Prop :=
  (∀ stack, writef stack (formatOf ps) (argsOf ps) = some out) ∧
    ∀ buf m, buf ≠ 0 → ∃ m', formatToString buf (formatOf ps) (argsOf ps) m =
        some (m', out.length + 1) ∧ HasString m' buf out ∧
      ∀ a, a < buf ∨ buf + (out.length + 1) ≤ a → m' a = m a

/-- The two functions agree on a format, and both print its `%X` as they should. -/
def Agree (ps : List Directive) : Prop :=
  (∃ out, Shows ps out) ∧ ∀ p ∈ ps, p.IsX → Shows [p] p.text

variable {m m' m'' stack : Bytes} {a buf write w : Nat} {cs ds out text : List UInt8}
  {call : Nat → Bytes → Option (Bytes × Nat)} {p : Directive} {ps : List Directive}

/-! ## Strings that are sent -/

/-- The tables hold no first bytes. -/
lemma decode_ne {c x y : UInt8} (h : decode c x = some y) : y ≠ C2 ∧ y ≠ C3 := by
  have h2 : ∀ y ∈ utf8C2, y ≠ C2 ∧ y ≠ C3 := by simp [utf8C2, C2, C3]
  have h3 : ∀ y ∈ utf8C3, y ≠ C2 ∧ y ≠ C3 := by simp [utf8C3, C2, C3]
  unfold decode at h
  split at h
  · exact h2 y (List.mem_of_getElem? h)
  · exact h3 y (List.mem_of_getElem? h)

/-- Without bytes to decode the string is sent as it is. -/
lemma writeString_plain (h2 : C2 ∉ cs) (h3 : C3 ∉ cs) : writeString cs = some cs := by
  induction cs with
  | nil => rfl
  | cons c cs ih =>
    rw [List.mem_cons, not_or] at h2 h3
    rw [writeString.eq_def]
    simp only [if_neg (not_or.mpr ⟨Ne.symm h2.1, Ne.symm h3.1⟩), ih h2.2 h3.2]
    rfl

/-- A byte that is decoded is not sent. -/
lemma writeString_differs (h : C2 ∈ cs ∨ C3 ∈ cs) (e : writeString cs = some out) :
    ∃ (j : Nat) (h : j < cs.length) (h' : j < out.length), out[j] ≠ cs[j] := by
  induction cs generalizing out with
  | nil => simp at h
  | cons c cs ih =>
    rw [writeString.eq_def] at e
    by_cases hc : c = C2 ∨ c = C3
    · simp only [if_pos hc] at e
      cases cs with
      | nil => cases e
      | cons x cs =>
        simp only [Option.bind_eq_bind, Option.bind_eq_some_iff, Option.some_inj] at e
        obtain ⟨y, hy, rest, -, rfl⟩ := e
        refine ⟨0, Nat.zero_lt_succ _, Nat.zero_lt_succ _, ?_⟩
        rintro rfl
        rcases hc with hc | hc
        · exact (decode_ne hy).1 hc
        · exact (decode_ne hy).2 hc
    · simp only [if_neg hc, Option.bind_eq_bind, Option.bind_eq_some_iff, Option.some_inj] at e
      obtain ⟨rest, hr, rfl⟩ := e
      have h' : C2 ∈ cs ∨ C3 ∈ cs := by
        rw [List.mem_cons, List.mem_cons] at h
        rcases h with (e | h) | (e | h)
        · exact absurd (Or.inl e.symm) hc
        · exact Or.inl h
        · exact absurd (Or.inr e.symm) hc
        · exact Or.inr h
      obtain ⟨j, h1, h2, hne⟩ := ih h' hr
      exact ⟨j + 1, Nat.succ_lt_succ h1, Nat.succ_lt_succ h2, hne⟩

/-- A string in memory is read up to its end. -/
lemma readString_of_hasString {n : Nat} (h : HasString m a cs) (hn : cs.length < n) :
    readString m n a = some cs := by
  induction cs generalizing n a with
  | nil =>
    obtain ⟨n, rfl⟩ : ∃ k, n = k + 1 := ⟨n - 1, by omega⟩
    have hz : m a = 0 := h.terminator
    rw [readString, if_pos hz]
  | cons c cs ih =>
    obtain ⟨n, rfl⟩ : ∃ k, n = k + 1 := ⟨n - 1, by omega⟩
    have hc : m a = c := h.char 0 (Nat.zero_lt_succ _)
    have ht : HasString m (a + 1) cs := by
      refine ⟨fun i hi => ?_, fun h0 => h.nonzero (List.mem_cons_of_mem _ h0), ?_⟩
      · rw [Nat.add_assoc, Nat.add_comm 1 i, h.char (i + 1) (Nat.succ_lt_succ hi)]
        rfl
      · rw [Nat.add_assoc, Nat.add_comm 1]
        exact h.terminator
    rw [List.length_cons] at hn
    rw [readString, ih ht (by omega), hc, if_neg]
    · rfl
    · rintro rfl
      exact h.nonzero List.mem_cons_self

/-- A short text without bytes to decode goes through the buffer of `writef`. -/
lemma writeBuffer_of_writes (h : Writes text call) (hl : text.length < WRITEF_BUFFER_SIZE)
    (h2 : C2 ∉ text) (h3 : C3 ∉ text) (buffer : Bytes) :
    ∃ buffer', writeBuffer call buffer = some (text, buffer') := by
  obtain ⟨m', e, hs, -⟩ := h.2 BUFFER buffer (by decide)
  refine ⟨m', ?_⟩
  unfold writeBuffer
  simp only [e, Option.bind_eq_bind, Option.bind_some, readString_of_hasString hs hl,
    writeString_plain h2 h3]

/-! ## Texts of numbers -/

/-- No byte of a number is decoded. -/
lemma digits_plain {base : Nat} {n : Int} (hb : 0 < base) (h36 : base ≤ 36) :
    C2 ∉ digits base n ∧ C3 ∉ digits base n := by
  refine ⟨fun h => ?_, fun h => ?_⟩
  all_goals exact absurd (digitsOf_char hb h36 h).2.1 (by decide)

lemma signed32_range (hw : w < 2 ^ 32) : -2 ^ 31 ≤ signed32 w ∧ signed32 w < 2 ^ 31 := by
  unfold signed32
  omega

lemma sign_plain (n : Int) : C2 ∉ sign n ∧ C3 ∉ sign n ∧ (sign n).length ≤ 1 := by
  unfold sign
  split <;> decide

lemma writes_d {n : Int} (h1 : -2 ^ 31 ≤ n) (h2 : n < 2 ^ 31) :
    Writes (sign n ++ digits 10 (abs32 n)) fun str m => intToString str n 10 m := by
  have h := intToString_writes (by omega : 2 ≤ 10) (by omega) h1 h2
  rwa [Nat.cast_ofNat] at h

/-- A signed number in the buffer of `writef`. -/
lemma writeBuffer_d {n : Int} (h1 : -2 ^ 31 ≤ n) (h2 : n < 2 ^ 31) (buffer : Bytes) :
    ∃ buffer', writeBuffer (fun str m => intToString str n 10 m) buffer =
      some (sign n ++ digits 10 (abs32 n), buffer') := by
  have hlt := natAbs_abs32 h1 h2
  have hlen := digits_length_le (by decide : 2 ≤ 10) hlt (by decide : 0 < 10)
    (Nat.lt_trans hlt (by decide))
  obtain ⟨s2, s3, hs⟩ := sign_plain n
  obtain ⟨d2, d3⟩ := digits_plain (n := abs32 n) (by decide : 0 < 10) (by decide)
  refine writeBuffer_of_writes (writes_d h1 h2) ?_ ?_ ?_ buffer
  · rw [List.length_append]
    unfold WRITEF_BUFFER_SIZE
    omega
  · rw [List.mem_append, not_or]
    exact ⟨s2, d2⟩
  · rw [List.mem_append, not_or]
    exact ⟨s3, d3⟩

/-- An unsigned number in the buffer of `writef`. -/
lemma writeBuffer_u {base : Nat} (hb : 10 ≤ base) (h36 : base ≤ 36) (hw : w < 2 ^ 32)
    (buffer : Bytes) :
    ∃ buffer', writeBuffer (fun str m => uIntToString str w base m) buffer =
      some (digits base w, buffer') := by
  have hlt : (w : Int).natAbs < 2 ^ FUEL := by rw [Int.natAbs_natCast]; exact hw
  have hpow : (w : Int).natAbs < base ^ 10 :=
    Nat.lt_of_lt_of_le (Nat.lt_trans hlt (by decide : 2 ^ FUEL < 10 ^ 10))
      (Nat.pow_le_pow_left hb 10)
  have hlen := digits_length_le (by omega) hlt (by decide) hpow
  obtain ⟨d2, d3⟩ := digits_plain (n := w) (by omega : 0 < base) h36
  exact writeBuffer_of_writes (uIntToString_writes (by omega) h36 hw)
    (Nat.lt_of_le_of_lt hlen (by decide)) d2 d3 buffer

/-! ## The directives of `writef` -/

/-- What a directive sends goes in front of the rest. -/
lemma writefLoop_directive {letter : UInt8} {args args' : List Arg} {buffer : Bytes}
    (s : List UInt8)
    (h : writefDirective letter args stack = some (out, args', buffer)) :
    writefLoop (PERCENT :: letter :: s) args stack =
      (writefLoop s args' buffer).map (out ++ ·) := by
  rw [writefLoop.eq_def]
  simp only [if_true, h, Option.bind_eq_bind, Option.bind_some]
  cases writefLoop s args' buffer <;> rfl

lemma writefLoop_lit {c : UInt8} {args : List Arg} (hp : c ≠ PERCENT) (h2 : c ≠ C2) (h3 : c ≠ C3)
    (s : List UInt8) :
    writefLoop (c :: s) args stack = (writefLoop s args stack).map (c :: ·) := by
  rw [writefLoop.eq_def]
  simp only [if_neg hp, if_neg (not_or.mpr ⟨h2, h3⟩), Option.bind_eq_bind]
  cases writefLoop s args stack <;> rfl

/-- A plain piece is sent as its text. -/
lemma writef_plain (hp : p.Plain) (stack : Bytes) :
    ∃ stack', ∀ s args, writefLoop (p.bytes ++ s) (p.args ++ args) stack =
      (writefLoop s args stack').map (p.text ++ ·) := by
  cases p with
  | lit ch hch =>
    obtain ⟨-, hpc, hlt⟩ := hch
    have hne : ∀ y : UInt8, 128 ≤ y.toNat → ch ≠ y := by
      rintro y hy rfl
      omega
    exact ⟨stack, fun s args => writefLoop_lit hpc (hne C2 (by decide)) (hne C3 (by decide)) s⟩
  | d w hw =>
    obtain ⟨h1, h2⟩ := signed32_range hw
    obtain ⟨stack', e⟩ := writeBuffer_d h1 h2 stack
    exact ⟨stack', fun s args => writefLoop_directive s (congrArg (Option.map _) e)⟩
  | u w hw =>
    obtain ⟨stack', e⟩ := writeBuffer_u (by decide : 10 ≤ 10) (by decide) hw stack
    exact ⟨stack', fun s args => writefLoop_directive s (congrArg (Option.map _) e)⟩
  | x w hw =>
    obtain ⟨stack', e⟩ := writeBuffer_u (by decide : 10 ≤ 16) (by decide) hw stack
    exact ⟨stack', fun s args => writefLoop_directive s (congrArg (Option.map _) e)⟩
  | X hex minLength hw => exact absurd hp id
  | h w hw =>
    obtain ⟨stack', e⟩ := writeBuffer_u (by decide : 10 ≤ 16) (by decide) hw stack
    exact ⟨stack', fun s args => writefLoop_directive s (congrArg (Option.map _) e)⟩
  | c w hw => exact ⟨stack, fun s args => writefLoop_directive s rfl⟩
  | s cs hs =>
    have e := writeString_plain hp.1 hp.2
    exact ⟨stack, fun s args => writefLoop_directive s (congrArg (Option.map _) e)⟩
  | percent => exact absurd hp id

/-- A plain format is sent as its texts. -/
lemma writef_texts (hp : ∀ p ∈ ps, p.Plain) (stack : Bytes) :
    ∃ stack', ∀ s args, writefLoop (formatOf ps ++ s) (argsOf ps ++ args) stack =
      (writefLoop s args stack').map (ps.flatMap Directive.text ++ ·) := by
  induction ps generalizing stack with
  | nil =>
    refine ⟨stack, fun s args => ?_⟩
    change writefLoop s args stack = _
    cases writefLoop s args stack <;> rfl
  | cons p ps ih =>
    obtain ⟨stack1, e1⟩ := writef_plain (hp p List.mem_cons_self) stack
    obtain ⟨stack2, e2⟩ := ih (fun q hq => hp q (List.mem_cons_of_mem p hq)) stack1
    refine ⟨stack2, fun s args => ?_⟩
    unfold formatOf argsOf at e2 ⊢
    rw [List.flatMap_cons, List.flatMap_cons, List.flatMap_cons, List.append_assoc,
      List.append_assoc, e1, e2, Option.map_map]
    congr 1
    funext rest
    exact (List.append_assoc _ _ _).symm

/-! ## The directives of `format_to_string` -/

/-- The text is at `a`, and nothing else has changed but perhaps the byte behind it. -/
structure Wrote (m m' : Bytes) (a : Nat) (text : List UInt8) : Prop where
  char : ∀ (j : Nat) (h : j < text.length), m' (a + j) = text[j]
  outside : ∀ x, x < a ∨ a + (text.length + 1) ≤ x → m' x = m x

lemma Wrote.nil (m : Bytes) (a : Nat) : Wrote m m a [] :=
  ⟨fun _ h => absurd h (Nat.not_lt_zero _), fun _ _ => rfl⟩

lemma Wrote.single (m : Bytes) (a : Nat) (c : UInt8) : Wrote m (Function.update m a c) a [c] where
  char := by
    intro j hj
    obtain rfl : j = 0 := Nat.lt_one_iff.mp hj
    exact Function.update_self _ _ _
  outside := by
    intro x hx
    rw [List.length_singleton] at hx
    exact Function.update_of_ne (by omega) _ _

lemma Wrote.append {cs ds : List UInt8} (h : Wrote m m' a cs)
    (h' : Wrote m' m'' (a + cs.length) ds) : Wrote m m'' a (cs ++ ds) where
  char := by
    intro j hj
    by_cases hlt : j < cs.length
    · rw [List.getElem_append_left hlt, h'.outside _ (Or.inl (by omega)), h.char j hlt]
    · rw [List.length_append] at hj
      rw [List.getElem_append_right (by omega), ← h'.char _ (by omega),
        show a + cs.length + (j - cs.length) = a + j by omega]
  outside := by
    intro x hx
    rw [List.length_append] at hx
    rw [h'.outside x (by omega), h.outside x (by omega)]

/-- What a call writes. -/
lemma Writes.wrote (h : Writes text call) (ha : a ≠ 0) (m : Bytes) :
    ∃ m', call a m = some (m', text.length + 1) ∧ Wrote m m' a text := by
  obtain ⟨m', e, hs, hout⟩ := h.2 a m ha
  exact ⟨m', e, hs.char, hout⟩

/-- `str_copy`. -/
lemma strCopyTo_spec (hs : (0 : UInt8) ∉ cs) (a : Nat) (m : Bytes) :
    ∃ m', strCopyTo cs a m = some (m', cs.length + 1) ∧ Wrote m m' a cs := by
  have hc : HasString (contents cs) 0 cs := by
    refine ⟨fun i hi => ?_, hs, ?_⟩
    · rw [Nat.zero_add]
      simp [contents, hi]
    · rw [Nat.zero_add]
      simp [contents]
  obtain ⟨m', e, hout, hin, -⟩ := copyLoop_spec m a hc (Nat.zero_le _)
    (by omega : cs.length - 0 < cs.length + 1)
  refine ⟨m', ?_, fun i hi => hin i hi (Nat.zero_le i), fun x hx => hout x (by omega)⟩
  unfold strCopyTo
  rw [e]
  rfl

/-- A directive leaves the rest of the format to do. -/
lemma formatLoop_directive {letter : UInt8} {args args' : List Arg} {write' : Nat}
    (s : List UInt8) (hl : letter ∈ LETTERS)
    (h : formatDirective buf letter args write m = some (args', write', m')) :
    formatLoop buf (PERCENT :: letter :: s) args write m = formatLoop buf s args' write' m' := by
  rw [formatLoop.eq_def]
  simp only [if_true, if_pos hl, h, Option.bind_eq_bind, Option.bind_some]

/-- A piece that is neither `%X` nor `%%` is written as its text. -/
lemma format_text (hX : ¬ p.IsX) (hp : p ≠ .percent) (hb : buf ≠ 0) (write : Nat) (m : Bytes) :
    ∃ m', Wrote m m' (buf + write) p.text ∧ ∀ s args,
      formatLoop buf (p.bytes ++ s) (p.args ++ args) write m =
        formatLoop buf s args (write + p.text.length) m' := by
  cases p with
  | lit ch hch =>
    refine ⟨_, Wrote.single m (buf + write) ch, fun s args => ?_⟩
    change formatLoop buf (ch :: s) args write m = _
    rw [formatLoop.eq_def]
    simp only [if_neg hch.2.1]
    rfl
  | d w hw =>
    obtain ⟨h1, h2⟩ := signed32_range hw
    obtain ⟨m', e, h⟩ := (writes_d h1 h2).wrote (a := buf + write) (by omega) m
    exact ⟨m', h, fun s args => formatLoop_directive s (by decide) (congrArg (Option.map _) e)⟩
  | u w hw =>
    obtain ⟨m', e, h⟩ := (uIntToString_writes (by omega : 2 ≤ 10) (by omega) hw).wrote
      (a := buf + write) (by omega) m
    exact ⟨m', h, fun s args => formatLoop_directive s (by decide) (congrArg (Option.map _) e)⟩
  | x w hw =>
    obtain ⟨m', e, h⟩ := (uIntToString_writes (by omega : 2 ≤ 16) (by omega) hw).wrote
      (a := buf + (write + 2)) (by omega)
      (Function.update (Function.update m (buf + write) 48) (buf + (write + 1)) 120)
    -- `0x` stands in front of the digits
    have h2 : Wrote m (Function.update (Function.update m (buf + write) 48) (buf + (write + 1)) 120)
        (buf + write) [48, 120] :=
      (Wrote.single m (buf + write) 48).append (Wrote.single _ (buf + (write + 1)) 120)
    have hl : write + 2 + (digits 16 w).length = write + (Directive.x w hw).text.length := by
      change write + 2 + _ = write + ([48, 120] ++ digits 16 w : List UInt8).length
      rw [List.length_append, Nat.add_assoc]
      rfl
    refine ⟨m', h2.append h, fun s args => ?_⟩
    rw [← hl]
    exact formatLoop_directive s (by decide) (congrArg (Option.map _) e)
  | X hex minLength hw => exact absurd trivial hX
  | h w hw =>
    obtain ⟨m', e, h⟩ := (uIntToString_writes (by omega : 2 ≤ 16) (by omega) hw).wrote
      (a := buf + write) (by omega) m
    exact ⟨m', h, fun s args => formatLoop_directive s (by decide) (congrArg (Option.map _) e)⟩
  | c w hw =>
    exact ⟨_, Wrote.single m (buf + write) (charOf w),
      fun s args => formatLoop_directive s (by decide) rfl⟩
  | s cs hs =>
    obtain ⟨m', e, h⟩ := strCopyTo_spec hs (buf + write) m
    exact ⟨m', h, fun s args => formatLoop_directive s (by decide) (congrArg (Option.map _) e)⟩
  | percent => exact absurd rfl hp

/-- Pieces that are neither `%X` nor `%%` are written as their texts. -/
lemma format_texts (hX : ∀ p ∈ ps, ¬ p.IsX) (hp : ∀ p ∈ ps, p ≠ .percent) (hb : buf ≠ 0)
    (write : Nat) (m : Bytes) :
    ∃ m', Wrote m m' (buf + write) (ps.flatMap Directive.text) ∧ ∀ s args,
      formatLoop buf (formatOf ps ++ s) (argsOf ps ++ args) write m =
        formatLoop buf s args (write + (ps.flatMap Directive.text).length) m' := by
  induction ps generalizing write m with
  | nil => exact ⟨m, Wrote.nil m _, fun s args => rfl⟩
  | cons p ps ih =>
    have hmem : p ∈ p :: ps := List.mem_cons_self
    obtain ⟨m1, h1, e1⟩ := format_text (hX p hmem) (hp p hmem) hb write m
    obtain ⟨m2, h2, e2⟩ := ih (fun q hq => hX q (List.mem_cons_of_mem p hq))
      (fun q hq => hp q (List.mem_cons_of_mem p hq)) (write + p.text.length) m1
    refine ⟨m2, h1.append (by rwa [Nat.add_assoc]), fun s args => ?_⟩
    unfold formatOf argsOf at e2 ⊢
    rw [List.flatMap_cons, List.flatMap_cons, List.flatMap_cons, List.append_assoc,
      List.append_assoc, e1, e2, List.length_append, Nat.add_assoc]

/-- Without a `%X`, what is written so far stays. -/
lemma format_keeps (hX : ∀ p ∈ ps, ¬ p.IsX) (hb : buf ≠ 0) {r : Nat}
    (h : formatLoop buf (formatOf ps) (argsOf ps) write m = some (m', r)) {x : Nat}
    (hx : x < buf + write) : m' x = m x := by
  induction ps generalizing write m with
  | nil =>
    rw [show formatOf [] = [] from rfl, formatLoop, Option.some_inj, Prod.mk.injEq] at h
    rw [← h.1, Function.update_of_ne (by omega)]
  | cons p ps ih =>
    by_cases hp : p = .percent
    · subst hp
      change some (m, 22) = some (m', r) at h
      rw [Option.some_inj, Prod.mk.injEq] at h
      rw [h.1]
    · obtain ⟨m1, h1, e1⟩ := format_text (hX p List.mem_cons_self) hp hb write m
      unfold formatOf argsOf at h
      rw [List.flatMap_cons, List.flatMap_cons, e1] at h
      rw [ih (fun q hq => hX q (List.mem_cons_of_mem p hq)) h (by omega), h1.outside x (Or.inl hx)]

/-! ## Where they agree -/

lemma Directive.Plain.not_isX (hp : p.Plain) : ¬ p.IsX := by
  cases p with
  | X => exact absurd hp id
  | _ => exact id

lemma Directive.Plain.ne_percent (hp : p.Plain) : p ≠ .percent := by
  rintro rfl
  exact hp

lemma digits_nonzero {base : Nat} {n : Int} (hb : 0 < base) (h36 : base ≤ 36) :
    (0 : UInt8) ∉ digits base n :=
  fun h => absurd (digitsOf_char hb h36 h).1 (by decide)

/-- No text holds a `NUL`. -/
lemma text_nonzero (hp : p.Plain) : (0 : UInt8) ∉ p.text := by
  cases p with
  | lit ch hch => exact fun h => hch.1 (List.mem_singleton.mp h).symm
  | d w hw =>
    unfold Directive.text sign
    rw [List.mem_append, not_or]
    refine ⟨?_, digits_nonzero (by decide) (by decide)⟩
    split <;> decide
  | u w hw => exact digits_nonzero (by decide) (by decide)
  | x w hw =>
    unfold Directive.text
    rw [List.mem_append, not_or]
    exact ⟨by decide, digits_nonzero (by decide) (by decide)⟩
  | X => exact absurd hp id
  | h w hw => exact digits_nonzero (by decide) (by decide)
  | c w hw => exact fun h => hw.2 (List.mem_singleton.mp h).symm
  | s cs hs => exact hs
  | percent => exact absurd hp id

/-- Both functions show a plain format as its texts. -/
lemma shows_of_plain (hp : ∀ p ∈ ps, p.Plain) : Shows ps (ps.flatMap Directive.text) := by
  refine ⟨fun stack => ?_, fun buf m hb => ?_⟩
  · obtain ⟨stack', e⟩ := writef_texts hp stack
    have e' := e [] []
    rw [List.append_nil, List.append_nil] at e'
    unfold writef
    rw [e', writefLoop, Option.map_some, List.append_nil]
  · obtain ⟨m1, h1, e⟩ := format_texts (fun p h => (hp p h).not_isX)
      (fun p h => (hp p h).ne_percent) hb 0 m
    have e' := e [] []
    rw [List.append_nil, List.append_nil, formatLoop, Nat.zero_add] at e'
    rw [Nat.add_zero] at h1
    refine ⟨_, e', ⟨fun i hi => ?_, fun h0 => ?_, Function.update_self _ _ _⟩, fun x hx => ?_⟩
    · rw [Function.update_of_ne (by omega), h1.char i hi]
    · obtain ⟨p, hmem, h0⟩ := List.mem_flatMap.mp h0
      exact text_nonzero (hp p hmem) h0
    · rw [Function.update_of_ne (by omega), h1.outside x hx]

/-! ## Where they part -/

/-- `writef` never pads a `%X` to its least length: the length it subtracts counts the `NUL`. -/
lemma not_shows_X {hex minLength : Nat} (hw : hex < 2 ^ 32 ∧ minLength < 2 ^ 32) :
    ¬ Shows [.X hex minLength hw] (Directive.X hex minLength hw).text := by
  rintro ⟨h, -⟩
  obtain ⟨stack', e⟩ := writeBuffer_u (by decide : 10 ≤ 16) (by decide) hw.1 fun _ => 0
  obtain ⟨hnull, -⟩ := uIntToString_writes (by omega : 2 ≤ 16) (by omega) hw.1
  have hd : writefDirective 88 [.word hex, .word minLength] (fun _ => 0) =
      some ([48, 120] ++ (List.replicate (maxU 0 (sub32 minLength ((digits 16 hex).length + 1)))
        ZERO ++ digits 16 hex), [], stack') := by
    rw [Nat.cast_ofNat] at e hnull
    simp only [writefDirective, hnull, e, Option.bind_eq_bind, Option.bind_some]
  have hsend := (writefLoop_directive [] hd).symm.trans (h fun _ => 0)
  rw [writefLoop, Option.map_some, List.append_nil, Option.some_inj] at hsend
  have hlen := congrArg List.length (List.append_cancel_left hsend)
  have h8 := digits_length_le (n := hex) (j := 8) (by decide : 2 ≤ 16)
    (by rw [Int.natAbs_natCast]; exact hw.1) (by decide) (by rw [Int.natAbs_natCast]; exact hw.1)
  rw [List.length_append, List.length_append, List.length_replicate, List.length_replicate] at hlen
  unfold maxU sub32 at hlen
  split at hlen <;> omega

/-- The part of a format in front of its first piece that is not plain. -/
lemma exists_first_not_plain (h : ¬ ∀ p ∈ ps, p.Plain) :
    ∃ pre p post, ps = pre ++ p :: post ∧ (∀ q ∈ pre, q.Plain) ∧ ¬ p.Plain := by
  induction ps with
  | nil => exact absurd (fun p hp => absurd hp List.not_mem_nil) h
  | cons p ps ih =>
    by_cases hp : p.Plain
    · obtain ⟨pre, q, post, rfl, hpre, hq⟩ := ih fun hall => h fun q hq => by
        rcases List.mem_cons.mp hq with rfl | hq
        · exact hp
        · exact hall q hq
      refine ⟨p :: pre, q, post, rfl, fun r hr => ?_, hq⟩
      rcases List.mem_cons.mp hr with rfl | hr
      · exact hp
      · exact hpre r hr
    · exact ⟨[], p, ps, rfl, fun q hq => absurd hq List.not_mem_nil, hp⟩

variable {pre post : List Directive}

/-- `format_to_string` stops at a `%%` with the result 22, and the buffer has no end. -/
lemma not_shows_percent (hpre : ∀ p ∈ pre, p.Plain) : ¬ Shows (pre ++ .percent :: post) out := by
  rintro ⟨hsend, hwrite⟩
  have hlen : (pre.flatMap Directive.text).length + 1 ≤ out.length := by
    obtain ⟨stack', e⟩ := writef_texts hpre fun _ => 0
    have h := hsend fun _ => 0
    unfold writef formatOf argsOf at h
    unfold formatOf argsOf at e
    rw [List.flatMap_append, List.flatMap_append, e] at h
    obtain ⟨rest, hrest, rfl⟩ := Option.map_eq_some_iff.mp h
    have hp : writefLoop (PERCENT :: 37 :: post.flatMap Directive.bytes)
        (post.flatMap Directive.args) stack' = some rest := hrest
    have hd : writefDirective 37 (post.flatMap Directive.args) stack' =
        some ([PERCENT], post.flatMap Directive.args, stack') := rfl
    rw [writefLoop_directive _ hd] at hp
    obtain ⟨tail, -, rfl⟩ := Option.map_eq_some_iff.mp hp
    rw [List.length_append, List.length_append, List.length_singleton]
    omega
  obtain ⟨m', hrun, hstr, -⟩ := hwrite 1 (fun _ => 1) (by decide)
  obtain ⟨m1, h1, e⟩ := format_texts (fun p h => (hpre p h).not_isX)
    (fun p h => (hpre p h).ne_percent) (by decide : 1 ≠ 0) 0 fun _ => 1
  unfold formatToString formatOf argsOf at hrun
  unfold formatOf argsOf at e
  rw [List.flatMap_append, List.flatMap_append, e] at hrun
  change some (m1, 22) = _ at hrun
  rw [Option.some_inj, Prod.mk.injEq] at hrun
  have hz := hstr.terminator
  rw [← hrun.1, h1.outside _ (Or.inr (by omega))] at hz
  exact absurd hz (by decide)

/-- `format_to_string` copies the bytes that `write_string` decodes. -/
lemma not_shows_s {cs : List UInt8} {hs : (0 : UInt8) ∉ cs} (hpre : ∀ p ∈ pre, p.Plain)
    (hX : ∀ p ∈ post, ¬ p.IsX) (hcs : C2 ∈ cs ∨ C3 ∈ cs) :
    ¬ Shows (pre ++ .s cs hs :: post) out := by
  rintro ⟨hsend, hwrite⟩
  obtain ⟨w, rest, hw, rfl⟩ : ∃ w rest, writeString cs = some w ∧
      out = pre.flatMap Directive.text ++ (w ++ rest) := by
    obtain ⟨stack', e⟩ := writef_texts hpre fun _ => 0
    have h := hsend fun _ => 0
    unfold writef formatOf argsOf at h
    unfold formatOf argsOf at e
    rw [List.flatMap_append, List.flatMap_append, e] at h
    obtain ⟨tail, htail, rfl⟩ := Option.map_eq_some_iff.mp h
    have hp : writefLoop (PERCENT :: 115 :: post.flatMap Directive.bytes)
        (.string cs :: post.flatMap Directive.args) stack' = some tail := htail
    cases hw : writeString cs with
    | none =>
      have hd : writefDirective 115 (.string cs :: post.flatMap Directive.args) stack' = none :=
        congrArg (Option.map _) hw
      rw [writefLoop.eq_def] at hp
      simp only [if_true, hd, Option.bind_eq_bind, Option.bind_none] at hp
      cases hp
    | some w =>
      have hd : writefDirective 115 (.string cs :: post.flatMap Directive.args) stack' =
          some (w, post.flatMap Directive.args, stack') := congrArg (Option.map _) hw
      rw [writefLoop_directive _ hd] at hp
      obtain ⟨rest, -, rfl⟩ := Option.map_eq_some_iff.mp hp
      exact ⟨w, rest, rfl, rfl⟩
  obtain ⟨j, h1, h2, hne⟩ := writeString_differs hcs hw
  -- a buffer at address 1 gets the bytes of the string as they are
  obtain ⟨m', hrun, hstr, -⟩ := hwrite 1 (fun _ => 1) (by decide)
  obtain ⟨m1, hm1, e1⟩ := format_texts (fun p h => (hpre p h).not_isX)
    (fun p h => (hpre p h).ne_percent) (by decide : 1 ≠ 0) 0 fun _ => 1
  obtain ⟨m2, hm2, e2⟩ := format_text (p := .s cs hs) id (by simp) (by decide : 1 ≠ 0)
    (0 + (pre.flatMap Directive.text).length) m1
  unfold formatToString formatOf argsOf at hrun
  unfold formatOf argsOf at e1
  rw [List.flatMap_append, List.flatMap_append, e1, List.flatMap_cons, List.flatMap_cons,
    e2] at hrun
  -- what comes after the string is written behind it
  have hkeep := format_keeps hX (by decide) hrun
    (x := 1 + (pre.flatMap Directive.text).length + j) (by
      change _ < 1 + (0 + _ + cs.length)
      omega)
  have hchar := hstr.char ((pre.flatMap Directive.text).length + j) (by
    rw [List.length_append, List.length_append]
    omega)
  have hcopy := hm2.char j h1
  rw [Nat.zero_add] at hcopy
  rw [List.getElem_append_right (by omega)] at hchar
  simp only [Nat.add_sub_cancel_left] at hchar
  rw [List.getElem_append_left h2, ← Nat.add_assoc, hkeep, hcopy] at hchar
  exact hne hchar.symm

/-- The two functions agree on a format, `%X` included, if and only if it has no `%X`, no `%%` and
no string with a byte that `write_string` decodes. -/
theorem formats_agree (ps : List Directive) : Agree ps ↔ ∀ p ∈ ps, p.Plain := by
  refine ⟨fun ⟨⟨out, hshow⟩, hX⟩ => ?_, fun hp => ?_⟩
  · have hnoX : ∀ p ∈ ps, ¬ p.IsX := by
      intro p hp hx
      have h := hX p hp hx
      cases p with
      | X hex minLength hw => exact not_shows_X hw h
      | _ => exact hx
    by_contra hall
    obtain ⟨pre, p, post, rfl, hpre, hp⟩ := exists_first_not_plain hall
    cases p with
    | X hex minLength hw => exact hnoX (.X hex minLength hw) (by simp) trivial
    | percent => exact not_shows_percent hpre hshow
    | s cs hs =>
      have hcs : C2 ∈ cs ∨ C3 ∈ cs := by
        by_contra h
        exact hp (not_or.mp h)
      exact not_shows_s hpre (fun q hq => hnoX q (by simp [hq])) hcs hshow
    | _ => exact hp trivial
  · exact ⟨⟨_, shows_of_plain hp⟩, fun p hmem hx => absurd hx (hp p hmem).not_isX⟩

/-- They part at `%X`, even with enough digits. -/
theorem formats_part : ¬ Agree [.X 255 8 (by decide)] :=
  fun h => not_shows_X _ (h.2 _ List.mem_cons_self trivial)

end MarioBrOS.Strings
