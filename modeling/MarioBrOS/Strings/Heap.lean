import MarioBrOS.Lib.Bytes
import Mathlib.Data.Set.Basic

/-!
# Memory for strings and lists

What `mem_alloc` is to `string.c` and `list.c`: a block that nobody used, and nothing that was in
use changes. The two files never look whether the result is `NULL`; a call that gets no memory ends
in the fault `noMemory`. Programs are run by `Does`, which lists the requests of a program and says
what holds when all of them are served; only if one of them is refused the program has no memory.

The lists of `list.c` are cells of two words in this memory.
-/

namespace MarioBrOS.Strings

/-- `mem_alloc` as its callers see it. -/
structure CallerHeap (σ : Type) where
  mem : σ → Bytes
  write : Bytes → σ → σ
  owned : σ → Set Nat
  memAlloc : Nat → σ → Option (Nat × σ)
  fresh : ∀ {n s p t}, memAlloc n s = some (p, t) →
    0 < p ∧ p + n ≤ 2 ^ 32 ∧ ∀ x, p ≤ x → x < p + n → x ∉ owned s
  takes : ∀ {n s p t}, memAlloc n s = some (p, t) →
    ∀ x, x ∈ owned t ↔ x ∈ owned s ∨ (p ≤ x ∧ x < p + n)
  keeps : ∀ {n s p t}, memAlloc n s = some (p, t) → ∀ x ∈ owned s, mem t x = mem s x
  written : ∀ {m s}, (∀ x, x ∉ owned s → m x = mem s x) →
    mem (write m s) = m ∧ owned (write m s) = owned s

/-- How a call can fail: without memory, past the end of a buffer, or in a loop with no end. -/
inductive Fault where
  | noMemory
  | overrun
  | endless
  deriving DecidableEq, Repr

/-- Code that works on the memory. -/
abbrev Kernel (σ : Type) := StateT σ (Except Fault)

variable {σ α β : Type} (H : CallerHeap σ) {s t u : σ} {m : Bytes} {a l p x v : Nat}
  {xs ys : List Nat}

/-! ## Programs -/

/-- What was in use is in use and as it was. -/
def Kept (s t : σ) : Prop := ∀ x ∈ H.owned s, x ∈ H.owned t ∧ H.mem t x = H.mem s x

/-- Requests that are served one after the other. The caller writes to each block, and nowhere else,
before the next one. -/
inductive Served : σ → List Nat → σ → Prop
  | nil {s : σ} : Served s [] s
  | cons {s t u : σ} {n p : Nat} {m : Bytes} {ns : List Nat} : H.memAlloc n s = some (p, t) →
    (∀ x, x < p ∨ p + n ≤ x → m x = H.mem t x) → Served (H.write m t) ns u →
    Served s (n :: ns) u

/-- One of the requests is refused, when those before it were served. -/
def Refused (s : σ) (ns : List Nat) : Prop :=
  ∃ pre n post t, ns = pre ++ n :: post ∧ Served H s pre t ∧ H.memAlloc n t = none

/-- The program makes the requests `ns` and ends with `Q`, unless one of them is refused. -/
def Does (prog : Kernel σ α) (s : σ) (ns : List Nat) (Q : α → σ → Prop) : Prop :=
  (prog s = .error .noMemory ∧ Refused H s ns) ∨
    ∃ a t, prog s = .ok (a, t) ∧ Served H s ns t ∧ Q a t

variable {H} {ns ns' : List Nat}

lemma Kept.refl (s : σ) : Kept H s s := fun _ hx => ⟨hx, rfl⟩

lemma Kept.trans (h : Kept H s t) (h' : Kept H t u) : Kept H s u := by
  intro x hx
  obtain ⟨h1, h2⟩ := h x hx
  obtain ⟨h3, h4⟩ := h' x h1
  exact ⟨h3, h4.trans h2⟩

/-- The block `p` of `n` bytes is in use now and was not before. -/
structure Fresh (H : CallerHeap σ) (s t : σ) (p n : Nat) : Prop where
  pos : 0 < p
  bound : p + n ≤ 2 ^ 32
  before : ∀ x, p ≤ x → x < p + n → x ∉ H.owned s
  now : ∀ x, p ≤ x → x < p + n → x ∈ H.owned t

/-- A block that is taken and filled. -/
lemma filled {n : Nat} (e : H.memAlloc n s = some (p, t))
    (hm : ∀ x, x < p ∨ p + n ≤ x → m x = H.mem t x) :
    Kept H s (H.write m t) ∧ H.mem (H.write m t) = m ∧ Fresh H s (H.write m t) p n := by
  obtain ⟨hpos, hle, hfresh⟩ := H.fresh e
  have htakes := H.takes e
  obtain ⟨hmem, howned⟩ := H.written (m := m) (s := t) fun x hx => hm x <| by
    by_contra hc
    exact hx ((htakes x).mpr (.inr ⟨by omega, by omega⟩))
  refine ⟨fun x hx => ⟨?_, ?_⟩, hmem, hpos, hle, hfresh, fun x h1 h2 => ?_⟩
  · rw [howned]
    exact (htakes x).mpr (.inl hx)
  · rw [hmem, hm x ?_, H.keeps e x hx]
    by_contra hc
    exact hfresh x (by omega) (by omega) hx
  · rw [howned]
    exact (htakes x).mpr (.inr ⟨h1, h2⟩)

/-- Nothing that was in use changes. -/
lemma Served.kept (h : Served H s ns t) : Kept H s t := by
  induction h with
  | nil => exact .refl _
  | cons e hm _ ih => exact (filled e hm).1.trans ih

lemma Served.append (h : Served H s ns t) (h' : Served H t ns' u) : Served H s (ns ++ ns') u := by
  induction h with
  | nil => exact h'
  | cons e hm _ ih => exact .cons e hm (ih h')

/-- The requests that follow do not matter. -/
lemma Refused.append_right (h : Refused H s ns) (ns' : List Nat) : Refused H s (ns ++ ns') := by
  obtain ⟨pre, n, post, t, rfl, hs, hn⟩ := h
  exact ⟨pre, n, post ++ ns', t, by simp, hs, hn⟩

lemma Refused.append_left (h : Refused H t ns') (hs : Served H s ns t) :
    Refused H s (ns ++ ns') := by
  obtain ⟨pre, n, post, u, rfl, hs', hn⟩ := h
  exact ⟨ns ++ pre, n, post, u, by simp, hs.append hs', hn⟩

lemma Does.pure {Q : α → σ → Prop} {r : α} (h : Q r s) :
    Does H (Pure.pure r : Kernel σ α) s [] Q :=
  .inr ⟨r, s, rfl, .nil, h⟩

/-- One program after the other. -/
lemma Does.bind (ns ns' : List Nat) {prog : Kernel σ α} {f : α → Kernel σ β} {Q : α → σ → Prop}
    {R : β → σ → Prop} (h : Does H prog s ns Q)
    (hf : ∀ r t, Kept H s t → Q r t → Does H (f r) t ns' R) :
    Does H (prog >>= f) s (ns ++ ns') R := by
  obtain ⟨e, hr⟩ | ⟨r, t, e, hk, hq⟩ := h
  · refine .inl ⟨?_, hr.append_right ns'⟩
    change (prog s >>= fun x => f x.1 x.2) = _
    rw [e]
    rfl
  · have e' : (prog >>= f) s = f r t := by
      change (prog s >>= fun x => f x.1 x.2) = _
      rw [e]
      rfl
    obtain ⟨e2, hr⟩ | ⟨r', u, e2, hk2, hr⟩ := hf r t hk.kept hq
    · exact .inl ⟨e'.trans e2, hr.append_left hk⟩
    · exact .inr ⟨r', u, e'.trans e2, hk.append hk2, hr⟩

lemma Does.get {f : σ → Kernel σ α} {Q : α → σ → Prop} (h : Does H (f s) s ns Q) :
    Does H (MonadState.get >>= f) s ns Q := h

lemma Does.imp {prog : Kernel σ α} {Q R : α → σ → Prop} (h : Does H prog s ns Q)
    (hi : ∀ r t, Kept H s t → Q r t → R r t) : Does H prog s ns R := by
  obtain h | ⟨r, t, e, hk, hq⟩ := h
  · exact .inl h
  · exact .inr ⟨r, t, e, hk, hi r t hk.kept hq⟩

variable (H)

/-- A call of `mem_alloc`. -/
def alloc (n : Nat) : Kernel σ Nat := fun s =>
  match H.memAlloc n s with
  | some r => .ok r
  | none => .error .noMemory

variable {H}

/-- Taking a block and filling it. -/
lemma Does.fill {n : Nat} {f : Nat → Kernel σ α} {Q : α → σ → Prop}
    (hf : ∀ p t, H.memAlloc n s = some (p, t) → ∃ m r, f p t = .ok (r, H.write m t) ∧
      (∀ x, x < p ∨ p + n ≤ x → m x = H.mem t x) ∧
      ∀ u, Kept H s u → H.mem u = m → Fresh H s u p n → Q r u) :
    Does H (alloc H n >>= f) s [n] Q := by
  cases e : H.memAlloc n s with
  | none =>
    refine .inl ⟨?_, [], n, [], s, rfl, .nil, e⟩
    change (alloc H n s >>= fun x => f x.1 x.2) = _
    simp only [alloc, e]
    rfl
  | some q =>
    obtain ⟨p, t⟩ := q
    obtain ⟨m, r, hr, hm, hq⟩ := hf p t e
    obtain ⟨hk, hmem, hfr⟩ := filled e hm
    refine .inr ⟨r, H.write m t, ?_, .cons e hm .nil, hq _ hk hmem hfr⟩
    change (alloc H n s >>= fun x => f x.1 x.2) = _
    simp only [alloc, e]
    exact hr

/-! ## Lists -/

/-- The cells from `l` on hold the words `xs`. -/
def IsList (H : CallerHeap σ) (s : σ) : Nat → List Nat → Prop
  | l, [] => l = 0
  | l, x :: xs => l ≠ 0 ∧ (∀ y, l ≤ y → y < l + 8 → y ∈ H.owned s) ∧ (H.mem s).get32 l = x ∧
    IsList H s ((H.mem s).get32 (l + 4)) xs

variable (H)

/-- `list.c`, `push`, on the head of the list. -/
def push (l x : Nat) : Kernel σ Nat := do
  let u ← alloc H 8
  modify fun s => H.write (((H.mem s).set32 u x).set32 (u + 4) l) s
  pure u

/-- The loop of `reverse`, in at most `fuel` steps. -/
def reverseLoop : Nat → Nat → Nat → Kernel σ Nat
  | 0, _, _ => throw .endless
  | fuel + 1, rev, curr =>
    if curr = 0 then
      pure rev
    else do
      let s ← get
      let rev ← push H rev ((H.mem s).get32 curr)
      let s ← get
      reverseLoop fuel rev ((H.mem s).get32 (curr + 4))

/-- More steps than there are addresses. -/
def WALK_FUEL : Nat := 2 ^ 32 + 1

/-- `list.c`, `reverse`, on the head of the list. -/
def reverse (l : Nat) : Kernel σ Nat := reverseLoop H WALK_FUEL 0 l

variable {H}

/-- A list in use stays as it is. -/
lemma IsList.kept (h : IsList H s l xs) (hk : Kept H s t) : IsList H t l xs := by
  induction xs generalizing l with
  | nil => exact h
  | cons x xs ih =>
    obtain ⟨h0, ho, hx, hr⟩ := h
    have e1 : (H.mem t).get32 l = (H.mem s).get32 l :=
      Bytes.get32_congr fun y h1 h2 => (hk y (ho y h1 (by omega))).2
    have e2 : (H.mem t).get32 (l + 4) = (H.mem s).get32 (l + 4) :=
      Bytes.get32_congr fun y h1 h2 => (hk y (ho y (by omega) (by omega))).2
    refine ⟨h0, fun y h1 h2 => (hk y (ho y h1 h2)).1, e1.trans hx, ?_⟩
    rw [e2]
    exact ih hr

/-- `push` makes a new cell. -/
lemma push_does (hl : l < 2 ^ 32) (hx : x < 2 ^ 32) (h : IsList H s l xs) :
    Does H (push H l x) s [8] fun u t => u < 2 ^ 32 ∧ IsList H t u (x :: xs) := by
  apply Does.fill
  intro p t e
  refine ⟨((H.mem t).set32 p x).set32 (p + 4) l, p, rfl, fun y hy => ?_, fun u hk hu hf => ?_⟩
  · rw [Bytes.set32_apply_of_outside (by omega), Bytes.set32_apply_of_outside (by omega)]
  · have hb := hf.bound
    have e1 : (H.mem u).get32 p = x := by
      rw [hu, Bytes.get32_set32_of_disjoint (by omega), Bytes.get32_set32 hx]
    have e2 : (H.mem u).get32 (p + 4) = l := by rw [hu, Bytes.get32_set32 hl]
    refine ⟨by omega, hf.pos.ne', hf.now, e1, ?_⟩
    rw [e2]
    exact h.kept hk

/-- The loop moves the cells that are left to the front, one by one, to new cells. -/
lemma reverseLoop_does {fuel rev curr : Nat} (hfuel : xs.length < fuel) (hr : rev < 2 ^ 32)
    (h : IsList H s curr xs) (hrev : IsList H s rev ys) :
    Does H (reverseLoop H fuel rev curr) s (List.replicate xs.length 8) fun l t =>
      IsList H t l (xs.reverse ++ ys) := by
  induction fuel generalizing s rev curr xs ys with
  | zero => omega
  | succ fuel ih =>
    cases xs with
    | nil =>
      rw [reverseLoop, if_pos (show curr = 0 from h)]
      exact .pure hrev
    | cons x xs =>
      obtain ⟨h0, ho, hx, hn⟩ := h
      rw [reverseLoop, if_neg h0]
      apply Does.get
      refine Does.bind [8] (List.replicate xs.length 8) (push_does hr (Bytes.get32_lt _ _) hrev) ?_
      rintro u t hk ⟨hu, hl⟩
      apply Does.get
      rw [hx] at hl
      have e : (H.mem t).get32 (curr + 4) = (H.mem s).get32 (curr + 4) :=
        Bytes.get32_congr fun y h1 h2 => (hk y (ho y (by omega) (by omega))).2
      rw [e]
      apply (ih (by simpa using hfuel) hu (hn.kept hk) hl).imp
      intro l v _ h
      simpa using h

/-- `reverse` makes the reversed list. -/
lemma reverse_does (h : IsList H s l xs) (hlen : xs.length < WALK_FUEL) :
    Does H (reverse H l) s (List.replicate xs.length 8) fun l t => IsList H t l xs.reverse := by
  have hnil : IsList H s 0 [] := rfl
  apply (reverseLoop_does hlen (by omega) h hnil).imp
  intro r t _ hr
  simpa using hr

end MarioBrOS.Strings
