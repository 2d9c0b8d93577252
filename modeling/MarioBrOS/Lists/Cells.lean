import MarioBrOS.Lib.Forward
import MarioBrOS.Scheduler.Queue

/-!
# Lists in the heap

`list.c` at the level of its cells. A `list_t` is a pointer to the first cell and the functions take
the address of a variable of that type, which is a block of `empty_list` or a static variable. A
cell or a variable that is not live must not be read, written or freed: such a call has no result
here, and neither has one whose loop does not end. A call whose request for memory gets NULL writes
through it, so that it has none either.

`IsList A h l ns xs` says that the variable `l` heads the live cells `ns`, which hold the values
`xs`. Each function is specified by it, with `Touches`, which says what the function leaves alone.
-/

namespace MarioBrOS.Lists

open Scheduler (Allocator)

/-- Where a variable of type `list_t` is: in a block of the heap or outside. -/
inductive Var where
  | block (a : Nat)
  | static (a : Nat)
  deriving DecidableEq, Repr

/-- The heap, seen as lists: the state of the allocator, the variables and the fields of the cells
(`list.h`, `struct list`). -/
structure ListHeap (μ : Type) where
  mem : μ
  var : Var → Nat
  (head tail : Nat → Nat)

/-- `sizeof(list_t)`. -/
def SIZEOF_LIST_T : Nat := 4

/-- `sizeof(struct list)`. -/
def SIZEOF_LIST : Nat := 8

variable {μ : Type} {A : Allocator μ} {h h' : ListHeap μ} {l v : Var} {c x : Nat}
  {ns ns' xs : List Nat}

namespace ListHeap

/-- A variable that can be used. -/
def Valid (A : Allocator μ) (h : ListHeap μ) : Var → Prop
  | .block a => a ∈ A.live h.mem
  | .static _ => True

instance : Decidable (Valid A h l) := by
  cases l <;> unfold Valid <;> infer_instance

/-- `*l`. -/
def load (A : Allocator μ) (h : ListHeap μ) (l : Var) : Option Nat :=
  if Valid A h l then some (h.var l) else none

/-- `*l = c`. -/
def store (A : Allocator μ) (h : ListHeap μ) (l : Var) (c : Nat) : Option (ListHeap μ) :=
  if Valid A h l then some { h with var := Function.update h.var l c } else none

/-- `c->head`. -/
def getHead (A : Allocator μ) (h : ListHeap μ) (c : Nat) : Option Nat :=
  if c ∈ A.live h.mem then some (h.head c) else none

/-- `c->tail`. -/
def getTail (A : Allocator μ) (h : ListHeap μ) (c : Nat) : Option Nat :=
  if c ∈ A.live h.mem then some (h.tail c) else none

/-- `c->head = x`. -/
def setHead (A : Allocator μ) (h : ListHeap μ) (c x : Nat) : Option (ListHeap μ) :=
  if c ∈ A.live h.mem then some { h with head := Function.update h.head c x } else none

/-- `c->tail = t`. -/
def setTail (A : Allocator μ) (h : ListHeap μ) (c t : Nat) : Option (ListHeap μ) :=
  if c ∈ A.live h.mem then some { h with tail := Function.update h.tail c t } else none

/-- `mem_alloc`. -/
def memAlloc (A : Allocator μ) (h : ListHeap μ) (size : Nat) : Nat × ListHeap μ :=
  ((A.memAlloc h.mem size).1, { h with mem := (A.memAlloc h.mem size).2 })

/-- `mem_free`. -/
def memFree (A : Allocator μ) (h : ListHeap μ) (a : Nat) : Option (ListHeap μ) :=
  if a ∈ A.live h.mem then some { h with mem := A.memFree h.mem a } else none

/-- As many steps as a loop over live cells can take. -/
def fuel (A : Allocator μ) (h : ListHeap μ) : Nat := (A.live h.mem).card + 1

end ListHeap

open ListHeap

/-- `list.c`, `empty_list`. -/
def emptyList (A : Allocator μ) (h : ListHeap μ) : Option (Nat × ListHeap μ) := do
  let (l, h) := h.memAlloc A SIZEOF_LIST_T
  let h ← h.store A (.block l) 0
  some (l, h)

/-- `list.c`, `is_empty_list`. -/
def isEmptyList (A : Allocator μ) (l : Var) (h : ListHeap μ) : Option Bool := do
  let c ← h.load A l
  some (c = 0)

/-- `list.c`, `push`. -/
def push (A : Allocator μ) (l : Var) (x : Nat) (h : ListHeap μ) : Option (ListHeap μ) := do
  let (u, h) := h.memAlloc A SIZEOF_LIST
  let h ← h.setHead A u x
  let c ← h.load A l
  let h ← h.setTail A u c
  h.store A l u

/-- `list.c`, `pop`. -/
def pop (A : Allocator μ) (l : Var) (h : ListHeap μ) : Option (Nat × ListHeap μ) := do
  let c ← h.load A l
  let x ← h.getHead A c
  let tail ← h.getTail A c
  let h ← h.memFree A c
  let h ← h.store A l tail
  some (x, h)

/-- The loop of `remove_elt`: the cell it stops at. -/
def removeLoop (A : Allocator μ) (x : Nat) (h : ListHeap μ) : Nat → Nat → Option Nat
  | 0, _ => none
  | fuel + 1, curr => do
    let t ← h.getTail A curr
    if t = 0 then some curr
    else do
      let y ← h.getHead A t
      if y = x then some curr else removeLoop A x h fuel t

/-- `list.c`, `remove_elt`. -/
def removeElt (A : Allocator μ) (l : Var) (x : Nat) (h : ListHeap μ) : Option (ListHeap μ) := do
  let c ← h.load A l
  if c = 0 then some h
  else do
    let y ← h.getHead A c
    if y = x then do
      let tail ← h.getTail A c
      let h ← h.memFree A c
      h.store A l tail
    else do
      let curr ← removeLoop A x h (h.fuel A) c
      let t ← h.getTail A curr
      if t = 0 then some h
      else do
        let tail ← h.getTail A t
        let h ← h.memFree A t
        h.setTail A curr tail

/-- The loop of `max_list`. -/
def maxLoop (A : Allocator μ) (h : ListHeap μ) : Nat → Nat → Nat → Option Nat
  | 0, _, _ => none
  | fuel + 1, maxElt, curr =>
    if curr = 0 then some maxElt
    else do
      let x ← h.getHead A curr
      let t ← h.getTail A curr
      maxLoop A h fuel (max maxElt x) t

/-- `list.c`, `max_list`. -/
def maxList (A : Allocator μ) (l : Var) (h : ListHeap μ) : Option Nat := do
  let c ← h.load A l
  let maxElt ← h.getHead A c
  let curr ← h.getTail A c
  maxLoop A h (h.fuel A) maxElt curr

/-- `list.c`, `extract_max`. -/
def extractMax (A : Allocator μ) (l : Var) (h : ListHeap μ) : Option (Nat × ListHeap μ) := do
  let maxElt ← maxList A l h
  let h ← removeElt A l maxElt h
  some (maxElt, h)

/-- The loop of `reverse`, whose local variable is `rev`. -/
def reverseLoop (A : Allocator μ) (rev : Var) : Nat → Nat → ListHeap μ → Option (ListHeap μ)
  | 0, _, _ => none
  | fuel + 1, curr, h =>
    if curr = 0 then some h
    else do
      let x ← h.getHead A curr
      let h ← push A rev x h
      let t ← h.getTail A curr
      reverseLoop A rev fuel t h

/-- `list.c`, `reverse`. -/
def reverse (A : Allocator μ) (rev l : Var) (h : ListHeap μ) : Option (ListHeap μ) := do
  let n := h.fuel A
  let h ← h.store A rev 0
  let curr ← h.load A l
  let h ← reverseLoop A rev n curr h
  let c ← h.load A rev
  h.store A l c

/-- The loop of `find`. -/
def findLoop (A : Allocator μ) (l : Var) (p : Nat → Bool) (remove : Bool) :
    Nat → Nat → ListHeap μ → Option (Nat × ListHeap μ)
  | 0, _, _ => none
  | fuel + 1, curr, h =>
    if curr = 0 then some (0, h)
    else do
      let x ← h.getHead A curr
      if p x then do
        let h ← if remove then removeElt A l x h else some h
        let y ← h.getHead A curr
        some (y, h)
      else do
        let t ← h.getTail A curr
        findLoop A l p remove fuel t h

/-- `list.c`, `find`. -/
def find (A : Allocator μ) (l : Var) (p : Nat → Bool) (remove : Bool) (h : ListHeap μ) :
    Option (Nat × ListHeap μ) := do
  let curr ← h.load A l
  findLoop A l p remove (h.fuel A) curr h

/-- The loop of `delete_list`. -/
def deleteLoop (A : Allocator μ) (l : Var) (freeElts : Bool) : Nat → ListHeap μ →
    Option (ListHeap μ)
  | 0, _ => none
  | fuel + 1, h => do
    let e ← isEmptyList A l h
    if e then some h
    else do
      let (x, h) ← pop A l h
      let h ← if freeElts then h.memFree A x else some h
      deleteLoop A l freeElts fuel h

/-- `list.c`, `delete_list`. -/
def deleteList (A : Allocator μ) (l : Nat) (freeElts : Bool) (h : ListHeap μ) :
    Option (ListHeap μ) := do
  let h ← deleteLoop A (.block l) freeElts (h.fuel A) h
  h.memFree A l

/-! ## What the functions do -/

/-- The variable `l` heads the live cells `ns`, which hold the values `xs`. -/
structure IsList (A : Allocator μ) (h : ListHeap μ) (l : Var) (ns xs : List Nat) : Prop where
  valid : Valid A h l
  apart : ∀ a ∈ ns, l ≠ .block a
  live : ∀ a ∈ ns, a ∈ A.live h.mem
  cells : Forward 0 h.tail (h.var l) ns
  values : ns.map h.head = xs

/-- Only the variables `own` and the cells `ns` are written; the cells `gone` may be freed, and a
cell of `ns` that is not one of `old` is new. -/
structure Touches (A : Allocator μ) (own : Set Var) (old gone ns : List Nat)
    (h h' : ListHeap μ) : Prop where
  var : ∀ v, v ∉ own → h'.var v = h.var v
  cell : ∀ a, a ∉ ns → h'.head a = h.head a ∧ h'.tail a = h.tail a
  new : ∀ a ∈ ns, a ∈ old ∨ a ∉ A.live h.mem
  live : ∀ a, a ∈ A.live h'.mem ↔ a ∈ ns ∨ a ∈ A.live h.mem ∧ a ∉ gone

/-- A variable stays valid while its block is live. -/
lemma ListHeap.Valid.of (hv : Valid A h l)
    (hk : ∀ a, l = .block a → a ∈ A.live h.mem → a ∈ A.live h'.mem) : Valid A h' l := by
  cases l with
  | block a => exact hk a rfl hv
  | static a => trivial

/-- A list is not touched by what happens elsewhere. -/
lemma IsList.frame {own : Set Var} {old gone ms : List Nat} (hl : IsList A h l ns xs)
    (ht : Touches A own old gone ms h h') (hv : l ∉ own) (hd : ns.Disjoint ms)
    (hg : ∀ a ∈ gone, a ∉ ns ∧ l ≠ .block a) : IsList A h' l ns xs := by
  refine ⟨hl.valid.of fun a e ha => ?_, hl.apart, fun a ha => ?_, ?_, ?_⟩
  · exact (ht.live a).mpr (.inr ⟨ha, fun hm => (hg a hm).2 e⟩)
  · exact (ht.live a).mpr (.inr ⟨hl.live a ha, fun hm => (hg a hm).1 ha⟩)
  · rw [ht.var l hv]
    exact hl.cells.congr fun a ha => (ht.cell a (hd ha)).2
  · rw [← hl.values]
    exact List.map_congr_left fun a ha => (ht.cell a (hd ha)).1

/-- A loop over the cells of a list has enough fuel. -/
lemma IsList.length_lt_fuel (hl : IsList A h l ns xs) : ns.length < h.fuel A := by
  have hsub : ns.toFinset ⊆ A.live h.mem := fun a ha => hl.live a (List.mem_toFinset.mp ha)
  have := Finset.card_le_card hsub
  rw [List.toFinset_card_of_nodup hl.cells.nodup] at this
  exact Nat.lt_succ_of_le this

/-- The test for emptiness. -/
lemma IsList.isEmptyList (hl : IsList A h l ns xs) : isEmptyList A l h = some (xs = [] : Bool) := by
  have e : (h.var l = 0) ↔ xs = [] := by
    rw [← hl.cells.eq_nil_iff, ← hl.values, List.map_eq_nil_iff]
  simp [Lists.isEmptyList, load, hl.valid, e]

/-- One of `n` requests for `size` bytes, made one after the other, gets NULL. -/
def Refuses (A : Allocator μ) (size : Nat) : Nat → μ → Prop
  | 0, _ => False
  | n + 1, m => (A.memAlloc m size).1 = 0 ∨ Refuses A size n (A.memAlloc m size).2

/-- `push` of a cell at NULL. -/
lemma push_refused (x : Nat) (h0 : (A.memAlloc h.mem SIZEOF_LIST).1 = 0) : push A l x h = none := by
  have hnull : 0 ∉ A.live (A.memAlloc h.mem SIZEOF_LIST).2 := by
    rw [A.live_refused _ _ h0]
    exact h0 ▸ A.memAlloc_fresh h.mem SIZEOF_LIST
  simp [Lists.push, ListHeap.memAlloc, setHead, h0, hnull]

/-- `push` puts a new cell to the front. -/
lemma IsList.push (hl : IsList A h l ns xs) (x : Nat) (h0 : (A.memAlloc h.mem SIZEOF_LIST).1 ≠ 0) :
    ∃ u h', push A l x h = some h' ∧ h'.mem = (A.memAlloc h.mem SIZEOF_LIST).2 ∧
      IsList A h' l (u :: ns) (x :: xs) ∧ Touches A {l} ns [] (u :: ns) h h' := by
  obtain ⟨u, hu⟩ : ∃ u, u = (A.memAlloc h.mem SIZEOF_LIST).1 := ⟨_, rfl⟩
  have hnew : u ∉ A.live h.mem := hu ▸ A.memAlloc_fresh _ _
  have hlive : A.live (A.memAlloc h.mem SIZEOF_LIST).2 = insert u (A.live h.mem) :=
    hu ▸ A.live_memAlloc _ _ h0
  have hns : ∀ a ∈ ns, a ≠ u := fun a ha e => hnew (e ▸ hl.live a ha)
  -- whatever is written, `l` can still be used
  have hv (f : Var → Nat) (g k : Nat → Nat) :
      Valid A (⟨(A.memAlloc h.mem SIZEOF_LIST).2, f, g, k⟩ : ListHeap μ) l :=
    hl.valid.of fun a _ ha => hlive ▸ Finset.mem_insert_of_mem ha
  refine ⟨u, ⟨(A.memAlloc h.mem SIZEOF_LIST).2, Function.update h.var l u,
    Function.update h.head u x, Function.update h.tail u (h.var l)⟩, ?_, rfl, ?_, ?_⟩
  · simp [Lists.push, ListHeap.memAlloc, setHead, load, setTail, store, hlive, hv, ← hu]
  · constructor
    · exact hv _ _ _
    · intro a ha e
      cases List.mem_cons.mp ha with
      | inl ha =>
        subst e
        exact hnew (ha ▸ hl.valid)
      | inr ha => exact hl.apart a ha e
    · intro a ha
      rw [hlive, Finset.mem_insert]
      exact (List.mem_cons.mp ha).imp_right (hl.live a)
    · change Forward 0 (Function.update h.tail u (h.var l)) (Function.update h.var l u l) _
      rw [Function.update_self]
      apply Forward.cons (hu ▸ h0)
      rw [Function.update_self]
      exact hl.cells.congr fun a ha => Function.update_of_ne (hns a ha) _ _
    · change (u :: ns).map (Function.update h.head u x) = _
      rw [List.map_cons, Function.update_self, ← hl.values]
      exact congrArg _ (List.map_congr_left fun a ha => Function.update_of_ne (hns a ha) _ _)
  · constructor
    · intro v hv
      exact Function.update_of_ne hv _ _
    · intro a ha
      have hau : a ≠ u := fun e => ha (e ▸ List.mem_cons_self)
      exact ⟨Function.update_of_ne hau _ _, Function.update_of_ne hau _ _⟩
    · intro a ha
      exact (List.mem_cons.mp ha).elim (fun e => .inr (e ▸ hnew)) .inl
    · intro a
      rw [hlive, Finset.mem_insert, List.mem_cons]
      constructor
      · rintro (e | ha)
        · exact .inl (.inl e)
        · exact .inr ⟨ha, List.not_mem_nil⟩
      · rintro ((e | ha) | ⟨ha, _⟩)
        · exact .inl e
        · exact .inr (hl.live a ha)
        · exact .inr ha

/-- The heap once the cell `c` is freed and the fields `f` and `g` are written. -/
lemma touches_free {f : Var → Nat} {g : Nat → Nat} {own : Set Var} {ns ns' : List Nat}
    (hf : ∀ v, v ∉ own → f v = h.var v) (hg : ∀ a, a ∉ ns' → g a = h.tail a)
    (hns : ∀ a, a ∈ ns ↔ a = c ∨ a ∈ ns') (hc : c ∉ ns') (hlive : ∀ a ∈ ns, a ∈ A.live h.mem) :
    Touches A own ns ns ns' h ⟨A.memFree h.mem c, f, h.head, g⟩ := by
  constructor
  · exact hf
  · exact fun a ha => ⟨rfl, hg a ha⟩
  · exact fun a ha => .inl ((hns a).mpr (.inr ha))
  · intro a
    simp only [A.live_memFree, Finset.mem_erase]
    constructor
    · rintro ⟨hac, ha⟩
      by_cases hm : a ∈ ns'
      · exact .inl hm
      · exact .inr ⟨ha, fun hm' => ((hns a).mp hm').elim hac hm⟩
    · rintro (hm | ⟨ha, hm⟩)
      · exact ⟨fun e => hc (e ▸ hm), hlive a ((hns a).mpr (.inr hm))⟩
      · exact ⟨fun e => hm ((hns a).mpr (.inl e)), ha⟩

/-- The heap without the first cell `n` of `l`. -/
def withoutFirst (A : Allocator μ) (l : Var) (n : Nat) (h : ListHeap μ) : ListHeap μ :=
  ⟨A.memFree h.mem n, Function.update h.var l (h.tail n), h.head, h.tail⟩

/-- A variable whose block is not the cell `n` is valid once `n` is freed. -/
lemma ListHeap.Valid.memFree {n : Nat} (hv : Valid A h l) (hn : l ≠ .block n)
    (f : Var → Nat) (g k : Nat → Nat) : Valid A (⟨A.memFree h.mem n, f, g, k⟩ : ListHeap μ) l := by
  apply hv.of
  intro a e ha
  simp only [A.live_memFree, Finset.mem_erase]
  exact ⟨fun hm => hn (hm ▸ e), ha⟩

/-- The first cell goes. -/
lemma IsList.withoutFirst {n : Nat} (hl : IsList A h l (n :: ns) (x :: xs)) :
    IsList A (withoutFirst A l n h) l ns xs ∧
      Touches A {l} (n :: ns) (n :: ns) ns h (withoutFirst A l n h) := by
  obtain ⟨hn, hns⟩ := List.forall_mem_cons.mp hl.live
  obtain ⟨hln, hlns⟩ := List.forall_mem_cons.mp hl.apart
  have hnd : n ∉ ns := (List.nodup_cons.mp hl.cells.nodup).1
  constructor
  · constructor
    · exact hl.valid.memFree hln _ _ _
    · exact hlns
    · intro a ha
      simp only [Lists.withoutFirst, A.live_memFree, Finset.mem_erase]
      exact ⟨fun hm => hnd (hm ▸ ha), hns a ha⟩
    · change Forward 0 h.tail (Function.update h.var l (h.tail n) l) ns
      rw [Function.update_self]
      exact hl.cells.cons_inv.2.2
    · exact (List.cons.inj hl.values).2
  · apply touches_free (fun v hv => Function.update_of_ne hv _ _) (fun _ _ => rfl) _ hnd hl.live
    exact fun a => List.mem_cons

/-- `pop` frees the first cell and returns its value. -/
lemma IsList.pop {n : Nat} (hl : IsList A h l (n :: ns) (x :: xs)) :
    pop A l h = some (x, Lists.withoutFirst A l n h) := by
  have hn := hl.live n List.mem_cons_self
  have hv := hl.valid.memFree (hl.apart n List.mem_cons_self)
  have e := hl.cells.cons_inv.1
  have hx := (List.cons.inj hl.values).1
  simp [Lists.pop, load, getHead, getTail, ListHeap.memFree, store, hl.valid, e, hn, hx, hv,
    Lists.withoutFirst]

/-- The loop of `remove_elt` stops before the first cell that holds `x`, or at the last cell. -/
lemma removeLoop_spec {b fuel : Nat} (hl : Forward 0 h.tail b (b :: ns))
    (hlive : ∀ a ∈ b :: ns, a ∈ A.live h.mem) (hf : ns.length < fuel) :
    ∃ pre c post, b :: ns = pre ++ c :: post ∧ removeLoop A x h fuel b = some c ∧
      (∀ a ∈ (pre ++ [c]).tail, h.head a ≠ x) ∧ ∀ d ∈ post.head?, h.head d = x := by
  induction ns generalizing b fuel with
  | nil =>
    obtain ⟨fuel, rfl⟩ := Nat.exists_eq_add_one.mpr hf
    have ht : h.tail b = 0 := (hl.cons_inv.2.2.eq_nil_iff).mp rfl
    refine ⟨[], b, [], rfl, ?_, List.forall_mem_nil _, fun d hd => ?_⟩
    · simp [removeLoop, getTail, hlive b, ht]
    · exact absurd hd (Option.not_mem_none d)
  | cons n ns ih =>
    obtain ⟨fuel, rfl⟩ := Nat.exists_eq_add_one.mpr (Nat.zero_lt_of_lt hf)
    obtain ⟨hb, hns⟩ := List.forall_mem_cons.mp hlive
    have hc := hl.cons_inv.2.2
    obtain ⟨e, h0, _⟩ := hc.cons_inv
    have hn := hns n List.mem_cons_self
    by_cases hx : h.head n = x
    · refine ⟨[], b, n :: ns, rfl, ?_, List.forall_mem_nil _, fun d hd => ?_⟩
      · simp [removeLoop, getTail, getHead, hb, hn, e, h0, hx]
      · exact Option.some.inj hd ▸ hx
    · obtain ⟨pre, c, post, hsplit, hrun, hpre, hpost⟩ :=
        ih (e ▸ hc) hns (Nat.lt_of_succ_lt_succ hf)
      refine ⟨b :: pre, c, post, congrArg _ hsplit, ?_, ?_, hpost⟩
      · simp [removeLoop, getTail, getHead, hb, hn, e, h0, hx, hrun]
      · intro a ha
        -- the first cell behind `b` is `n`, which does not hold `x`
        cases pre with
        | nil =>
          obtain ⟨rfl, _⟩ := List.cons.inj hsplit
          obtain rfl := List.mem_singleton.mp ha
          exact hx
        | cons m pre =>
          obtain ⟨rfl, _⟩ := List.cons.inj hsplit
          exact (List.mem_cons.mp ha).elim (fun e => e ▸ hx) (hpre a)

/-- `remove_elt` on a cell behind the first. -/
lemma IsList.unlink {pre post : List Nat} {b d : Nat} {zs : List Nat}
    (hl : IsList A h l (pre ++ b :: d :: post) zs) (hx : h.head d = x)
    (hpre : ∀ a ∈ pre ++ [b], h.head a ≠ x) :
    IsList A ⟨A.memFree h.mem d, h.var, h.head, Function.update h.tail b (h.tail d)⟩ l
        (pre ++ b :: post) (zs.erase x) ∧
      Touches A {l} (pre ++ b :: d :: post) (pre ++ b :: d :: post) (pre ++ b :: post) h
        ⟨A.memFree h.mem d, h.var, h.head, Function.update h.tail b (h.tail d)⟩ := by
  have hnd := hl.cells.nodup
  have hd : d ∉ pre ++ b :: post := by
    have := List.nodup_middle.mp (by simpa using hnd : ((pre ++ [b]) ++ d :: post).Nodup)
    simpa using (List.nodup_cons.mp this).1
  have hb : ∀ a ∈ pre ++ post, a ≠ b := by
    intro a ha e
    have := (List.nodup_cons.mp (List.nodup_middle.mp hnd)).1
    refine this ?_
    rw [← e]
    exact (List.mem_append.mp ha).elim (List.mem_append_left _)
      fun ha => List.mem_append_right _ (List.mem_cons_of_mem d ha)
  have hsub : ∀ a, a ∈ pre ++ b :: d :: post ↔ a = d ∨ a ∈ pre ++ b :: post := by
    intro a
    simp only [List.mem_append, List.mem_cons]
    tauto
  have hdm : d ∈ pre ++ b :: d :: post := (hsub d).mpr (.inl rfl)
  constructor
  · constructor
    · exact hl.valid.memFree (hl.apart d hdm) _ _ _
    · exact fun a ha => hl.apart a ((hsub a).mpr (.inr ha))
    · intro a ha
      simp only [A.live_memFree, Finset.mem_erase]
      exact ⟨fun hm => hd (hm ▸ ha), hl.live a ((hsub a).mpr (.inr ha))⟩
    · apply hl.cells.unlink (Function.update_self ..)
      exact fun a ha => Function.update_of_ne (hb a ha) _ _
    · have hnot : x ∉ (pre ++ [b]).map h.head := by
        intro hm
        obtain ⟨a, ha, e⟩ := List.mem_map.mp hm
        exact hpre a ha e
      have e : zs = (pre ++ [b]).map h.head ++ x :: post.map h.head := by
        rw [← hl.values, ← hx]
        simp
      rw [e, List.erase_append_right _ hnot, List.erase_cons_head]
      simp
  · apply touches_free (fun _ _ => rfl) _ hsub hd hl.live
    intro a ha
    refine Function.update_of_ne (fun e => ha ?_) _ _
    rw [e]
    exact List.mem_append_right _ List.mem_cons_self

/-- A call that leaves the heap as it is. -/
lemma IsList.touches_self (hl : IsList A h l ns xs) : Touches A {l} ns ns ns h h := by
  refine ⟨fun _ _ => rfl, fun _ _ => ⟨rfl, rfl⟩, fun a ha => .inl ha, fun a => ?_⟩
  by_cases hm : a ∈ ns
  · exact iff_of_true (hl.live a hm) (.inl hm)
  · simp [hm]

/-- `remove_elt` frees the first cell that holds `x`, if there is one. -/
lemma IsList.removeElt (hl : IsList A h l ns xs) (x : Nat) :
    ∃ h', removeElt A l x h = some h' ∧
      IsList A h' l (ns.eraseP (h.head · = x)) (xs.erase x) ∧
      Touches A {l} ns ns (ns.eraseP (h.head · = x)) h h' := by
  cases ns with
  | nil =>
    have e : h.var l = 0 := (hl.cells.eq_nil_iff).mp rfl
    obtain rfl : xs = [] := hl.values.symm
    refine ⟨h, ?_, hl, hl.touches_self⟩
    simp [Lists.removeElt, load, hl.valid, e]
  | cons n ns =>
    obtain ⟨e, h0, hc⟩ := hl.cells.cons_inv
    have hn := hl.live n List.mem_cons_self
    by_cases hx : h.head n = x
    · obtain rfl : xs = x :: ns.map h.head := by rw [← hl.values, List.map_cons, hx]
      have hv := hl.valid.memFree (hl.apart n List.mem_cons_self)
      obtain ⟨hl', ht⟩ := hl.withoutFirst
      rw [List.eraseP_cons_of_pos (by simpa using hx), List.erase_cons_head]
      refine ⟨Lists.withoutFirst A l n h, ?_, hl', ht⟩
      simp [Lists.removeElt, load, getHead, getTail, ListHeap.memFree, store, hl.valid, e, hn, hx,
        hv, h0, Lists.withoutFirst]
    · have hlen : ns.length < h.fuel A := Nat.lt_of_succ_lt hl.length_lt_fuel
      obtain ⟨pre, c, post, hsplit, hrun, hpre, hpost⟩ :=
        removeLoop_spec (x := x) (e ▸ hl.cells) hl.live hlen
      -- no cell up to `c` holds `x`
      have hno : ∀ a ∈ pre ++ [c], h.head a ≠ x := by
        cases pre with
        | nil =>
          obtain ⟨rfl, _⟩ := List.cons.inj hsplit
          intro a ha
          obtain rfl := List.mem_singleton.mp ha
          exact hx
        | cons m pre =>
          obtain ⟨rfl, _⟩ := List.cons.inj hsplit
          exact fun a ha => (List.mem_cons.mp ha).elim (fun e => e ▸ hx) (hpre a)
      rw [hsplit] at hl ⊢
      have hc := hl.live c (List.mem_append_right _ List.mem_cons_self)
      have hcell := hl.cells.drop.cons_inv.2.2
      cases post with
      | nil =>
        have ht : h.tail c = 0 := (hcell.eq_nil_iff).mp rfl
        have hxs : x ∉ xs := by
          rw [← hl.values]
          intro hm
          obtain ⟨a, ha, e⟩ := List.mem_map.mp hm
          exact hno a ha e
        rw [List.erase_of_not_mem hxs, List.eraseP_of_forall_not (by simpa using hno)]
        refine ⟨h, ?_, hl, hl.touches_self⟩
        simp [Lists.removeElt, load, getHead, getTail, hl.valid, e, hn, hx, h0, hrun, hc, ht]
      | cons d post =>
        obtain ⟨ht, hd0, _⟩ := hcell.cons_inv
        have hdm : d ∈ pre ++ c :: d :: post := by simp
        have hcd : c ≠ d := by
          rintro rfl
          have := hl.cells.drop.nodup
          simp at this
        obtain ⟨hl', ht'⟩ := hl.unlink (hpost d rfl) hno
        have e' : (pre ++ c :: d :: post).eraseP (h.head · = x) = pre ++ c :: post := by
          rw [List.append_cons, List.eraseP_append_right _ (by simpa using hno),
            List.eraseP_cons_of_pos (by simpa using hpost d rfl), List.append_assoc]
          rfl
        rw [e']
        refine ⟨_, ?_, hl', ht'⟩
        simp [Lists.removeElt, load, getHead, getTail, setTail, ListHeap.memFree, hl.valid, e, hn,
          hx, h0, hrun, hc, ht, hd0, hl.live d hdm, A.live_memFree, hcd]

/-- The loop of `max_list`. -/
lemma maxLoop_spec {fuel m : Nat} (hl : Forward 0 h.tail c ns) (hlive : ∀ a ∈ ns, a ∈ A.live h.mem)
    (hf : ns.length < fuel) : maxLoop A h fuel m c = some ((ns.map h.head).foldl max m) := by
  induction hl generalizing fuel m with
  | nil =>
    obtain ⟨fuel, rfl⟩ := Nat.exists_eq_add_one.mpr hf
    simp [maxLoop]
  | cons h0 _ ih =>
    obtain ⟨fuel, rfl⟩ := Nat.exists_eq_add_one.mpr (Nat.zero_lt_of_lt hf)
    obtain ⟨hn, hns⟩ := List.forall_mem_cons.mp hlive
    simp [maxLoop, getHead, getTail, hn, h0, ih hns (Nat.lt_of_succ_lt_succ hf)]

/-- `max_list` returns the maximum. -/
lemma IsList.maxList (hl : IsList A h l ns (x :: xs)) :
    maxList A l h = some (xs.foldl max x) := by
  cases ns with
  | nil => exact absurd hl.values (List.cons_ne_nil x xs).symm
  | cons n ns =>
    obtain ⟨e, _, hc⟩ := hl.cells.cons_inv
    obtain ⟨hn, hns⟩ := List.forall_mem_cons.mp hl.live
    obtain ⟨hx, hxs⟩ := List.cons.inj hl.values
    have hrun := maxLoop_spec (m := x) hc hns (Nat.lt_of_succ_lt hl.length_lt_fuel)
    rw [hxs] at hrun
    simp [Lists.maxList, load, getHead, getTail, hl.valid, e, hn, hx, hrun]

/-- `extract_max` frees the first cell that holds the maximum. -/
lemma IsList.extractMax (hl : IsList A h l ns (x :: xs)) :
    ∃ h' ns', extractMax A l h = some (xs.foldl max x, h') ∧
      IsList A h' l ns' ((x :: xs).erase (xs.foldl max x)) ∧ Touches A {l} ns ns ns' h h' := by
  obtain ⟨h', hrun, hl', ht⟩ := hl.removeElt (xs.foldl max x)
  exact ⟨h', _, by simp [Lists.extractMax, hl.maxList, hrun], hl', ht⟩

/-- The loop of `find` that removes nothing. -/
lemma findLoop_spec {p : Nat → Bool} {fuel : Nat} (hl : Forward 0 h.tail c ns)
    (hlive : ∀ a ∈ ns, a ∈ A.live h.mem) (hf : ns.length < fuel) :
    findLoop A l p false fuel c h = some (((ns.map h.head).find? p).getD 0, h) := by
  induction hl generalizing fuel with
  | nil =>
    obtain ⟨fuel, rfl⟩ := Nat.exists_eq_add_one.mpr hf
    simp [findLoop]
  | @cons n ns h0 _ ih =>
    obtain ⟨fuel, rfl⟩ := Nat.exists_eq_add_one.mpr (Nat.zero_lt_of_lt hf)
    obtain ⟨hn, hns⟩ := List.forall_mem_cons.mp hlive
    cases hp : p (h.head n) with
    | true => simp [findLoop, getHead, hn, h0, hp]
    | false => simp [findLoop, getHead, getTail, hn, h0, hp, ih hns (Nat.lt_of_succ_lt_succ hf)]

/-- `find` without removing. -/
lemma IsList.find (hl : IsList A h l ns xs) (p : Nat → Bool) :
    find A l p false h = some ((xs.find? p).getD 0, h) := by
  have hrun := findLoop_spec (l := l) (p := p) hl.cells hl.live hl.length_lt_fuel
  rw [hl.values] at hrun
  simp [Lists.find, load, hl.valid, hrun]

/-- Calls that free nothing, one after the other. -/
lemma Touches.trans {own : Set Var} {old ms ms' : List Nat} {h₁ h₂ : ListHeap μ}
    (ht : Touches A own old [] ms h h₁) (ht' : Touches A own ms [] ms' h₁ h₂) (hm : ms ⊆ ms') :
    Touches A own old [] ms' h h₂ := by
  constructor
  · exact fun v hv => (ht'.var v hv).trans (ht.var v hv)
  · intro a ha
    obtain ⟨e, e'⟩ := ht.cell a fun h' => ha (hm h')
    obtain ⟨e₂, e₂'⟩ := ht'.cell a ha
    exact ⟨e₂.trans e, e₂'.trans e'⟩
  · intro a ha
    cases ht'.new a ha with
    | inl ha => exact ht.new a ha
    | inr ha => exact .inr fun hl => ha ((ht.live a).mpr (.inr ⟨hl, List.not_mem_nil⟩))
  · intro a
    rw [ht'.live, ht.live]
    have := @hm a
    simp only [List.not_mem_nil, not_false_eq_true, and_true]
    tauto

/-- A new cell belongs to no list. -/
lemma IsList.disjoint_cons {u : Nat} {own : Set Var} {rs gone : List Nat} (hl : IsList A h l ns xs)
    (hd : ns.Disjoint rs) (ht : Touches A own rs gone (u :: rs) h h') : ns.Disjoint (u :: rs) := by
  intro a ha hm
  cases List.mem_cons.mp hm with
  | inl e =>
    subst e
    cases ht.new a hm with
    | inl hr => exact hd ha hr
    | inr hn => exact hn (hl.live a ha)
  | inr hr => exact hd ha hr

/-- The loop of `reverse` at the cell `c` of `l`: the values from there on go to the front of `rev`,
and `l` stays as it is. -/
lemma reverseLoop_spec {rev : Var} {rs ys : List Nat} {fuel : Nat} (hl : IsList A h l ns xs)
    (hrev : IsList A h rev rs ys) (hne : l ≠ rev) (hd : ns.Disjoint rs) {suf : List Nat}
    (hsuf : suf ⊆ ns) (hc : Forward 0 h.tail c suf) (hf : suf.length < fuel) :
    Refuses A SIZEOF_LIST suf.length h.mem ∧ reverseLoop A rev fuel c h = none ∨
    ¬ Refuses A SIZEOF_LIST suf.length h.mem ∧
      ∃ h' news, reverseLoop A rev fuel c h = some h' ∧ IsList A h' l ns xs ∧
        IsList A h' rev (news ++ rs) ((suf.map h.head).reverse ++ ys) ∧
        Touches A {rev} rs [] (news ++ rs) h h' := by
  induction fuel generalizing h c rs ys suf with
  | zero => exact absurd hf (Nat.not_lt_zero _)
  | succ fuel ih =>
    cases suf with
    | nil =>
      obtain rfl : c = 0 := (hc.eq_nil_iff).mp rfl
      refine .inr ⟨id, h, [], by simp [reverseLoop], hl, hrev, ?_⟩
      refine ⟨fun _ _ => rfl, fun _ _ => ⟨rfl, rfl⟩, fun a ha => .inl ha, fun a => ?_⟩
      simpa using hrev.live a
    | cons n suf =>
      obtain ⟨rfl, h0, hc⟩ := hc.cons_inv
      obtain ⟨hn, hsuf⟩ := List.cons_subset.mp hsuf
      have hlen : suf.length < fuel := Nat.lt_of_succ_lt_succ hf
      by_cases hnull : (A.memAlloc h.mem SIZEOF_LIST).1 = 0
      · refine .inl ⟨.inl hnull, ?_⟩
        simp [reverseLoop, getHead, h0, hl.live c hn, push_refused _ hnull]
      obtain ⟨u, h₁, hpush, hmem, hrev₁, ht⟩ := hrev.push (h.head c) hnull
      have hd₁ := hl.disjoint_cons hd ht
      have hl₁ := hl.frame ht hne hd₁ (List.forall_mem_nil _)
      have hc₁ : Forward 0 h₁.tail (h₁.tail c) suf := by
        rw [(ht.cell c (hd₁ hn)).2]
        exact hc.congr fun a ha => (ht.cell a (hd₁ (hsuf ha))).2
      have hiff : Refuses A SIZEOF_LIST (c :: suf).length h.mem ↔
          Refuses A SIZEOF_LIST suf.length h₁.mem := by
        rw [hmem]
        exact or_iff_right hnull
      rw [hiff]
      obtain ⟨hr, hrun⟩ | ⟨hr, h₂, news, hrun, hl₂, hrev₂, ht₂⟩ :=
        ih hl₁ hrev₁ hd₁ hsuf hc₁ hlen
      · refine .inl ⟨hr, ?_⟩
        simp [reverseLoop, getHead, getTail, h0, hl.live c hn, hl₁.live c hn, hpush, hrun]
      have hhead : suf.map h₁.head = suf.map h.head :=
        List.map_congr_left fun a ha => (ht.cell a (hd₁ (hsuf ha))).1
      refine .inr ⟨hr, h₂, news ++ [u], ?_, hl₂, ?_, ?_⟩
      · simp [reverseLoop, getHead, getTail, h0, hl.live c hn, hl₁.live c hn, hpush, hrun]
      · rw [hhead] at hrev₂
        simpa using hrev₂
      · have hm : u :: rs ⊆ news ++ u :: rs := List.subset_append_right _ _
        simpa using ht.trans ht₂ hm

/-- `reverse` builds the reversed list from new cells; the old ones stay live. -/
lemma IsList.reverse {rev : Nat} (hl : IsList A h l ns xs) (hne : l ≠ .static rev) :
    Refuses A SIZEOF_LIST xs.length h.mem ∧ reverse A (.static rev) l h = none ∨
    ¬ Refuses A SIZEOF_LIST xs.length h.mem ∧
      ∃ h' ns', reverse A (.static rev) l h = some h' ∧ IsList A h' l ns' xs.reverse ∧
        Touches A {l, .static rev} [] [] ns' h h' := by
  obtain ⟨h₀, e₀⟩ : ∃ h₀, h₀ = { h with var := Function.update h.var (.static rev) 0 } := ⟨_, rfl⟩
  have hmem : h₀.mem = h.mem := by rw [e₀]
  have hvar : h₀.var l = h.var l := by rw [e₀]; exact Function.update_of_ne hne _ _
  have hhead : h₀.head = h.head ∧ h₀.tail = h.tail := by rw [e₀]; exact ⟨rfl, rfl⟩
  have hl₀ : IsList A h₀ l ns xs := by
    refine ⟨hl.valid.of fun a _ ha => hmem ▸ ha, hl.apart, fun a ha => hmem ▸ hl.live a ha, ?_, ?_⟩
    · rw [hvar, hhead.2]
      exact hl.cells
    · rw [hhead.1]
      exact hl.values
  have hrev₀ : IsList A h₀ (.static rev) [] [] := by
    refine ⟨trivial, List.forall_mem_nil _, List.forall_mem_nil _, ?_, rfl⟩
    have e : h₀.var (.static rev) = 0 := by rw [e₀]; exact Function.update_self ..
    rw [e]
    exact .nil
  have hs : h.store A (.static rev) 0 = some h₀ := e₀ ▸ if_pos trivial
  have hload : h₀.load A l = some (h.var l) := hvar ▸ if_pos hl₀.valid
  have hlen : ns.length = xs.length := by rw [← hl.values, List.length_map]
  -- the loop pushes on the static list, which then goes to `l`
  have hloop := reverseLoop_spec hl₀ hrev₀ hne (List.disjoint_nil_right ns) (List.Subset.refl ns)
    (hvar ▸ hl₀.cells) hl.length_lt_fuel
  rw [hlen, hmem] at hloop
  obtain ⟨hr, hrun⟩ | ⟨hr, h₁, ns', hrun, hl₁, hrev₁, ht⟩ := hloop
  · exact .inl ⟨hr, by simp [Lists.reverse, hs, hload, hrun]⟩
  rw [hl₀.values] at hrev₁
  simp only [List.append_nil] at hrev₁ ht
  refine .inr ⟨hr, { h₁ with var := Function.update h₁.var l (h₁.var (.static rev)) }, ns', ?_, ?_, ?_⟩
  · have hload₁ : h₁.load A (.static rev) = some (h₁.var (.static rev)) := if_pos trivial
    have hs₁ : h₁.store A l (h₁.var (.static rev)) = _ := if_pos hl₁.valid
    simp [Lists.reverse, hs, hload, hrun, hload₁, hs₁]
  · constructor
    · exact hl₁.valid.of fun _ _ ha => ha
    · rintro a ha rfl
      exact (ht.new a ha).elim List.not_mem_nil fun hn => hn hl₀.valid
    · exact hrev₁.live
    · change Forward 0 h₁.tail (Function.update h₁.var l (h₁.var (.static rev)) l) ns'
      rw [Function.update_self]
      exact hrev₁.cells
    · exact hrev₁.values
  · constructor
    · intro v hv
      simp only [Set.mem_insert_iff, Set.mem_singleton_iff, not_or] at hv
      change Function.update h₁.var l (h₁.var (.static rev)) v = h.var v
      rw [Function.update_of_ne hv.1, ht.var v hv.2, e₀]
      exact Function.update_of_ne hv.2 _ _
    · rw [← hhead.1, ← hhead.2]
      exact ht.cell
    · exact hmem ▸ ht.new
    · exact hmem ▸ ht.live

/-- A block that the list does not use is freed. -/
lemma IsList.freeElt (hl : IsList A h l ns xs) (hx : x ∉ ns) (hlx : l ≠ .block x) :
    IsList A ⟨A.memFree h.mem x, h.var, h.head, h.tail⟩ l ns xs := by
  refine ⟨hl.valid.memFree hlx _ _ _, hl.apart, fun a ha => ?_, hl.cells, hl.values⟩
  simp only [A.live_memFree, Finset.mem_erase]
  exact ⟨fun e => hx (e ▸ ha), hl.live a ha⟩

/-- What `delete_list` frees besides the cells. -/
def freed (freeElts : Bool) (xs : List Nat) : List Nat := if freeElts then xs else []

/-- An element of the list is freed or kept. -/
lemma IsList.freedOne {freeElts : Bool} (hl : IsList A h l ns xs)
    (hx : freeElts = true → x ∈ A.live h.mem ∧ x ∉ ns ∧ l ≠ .block x) :
    ∃ h', (if freeElts then h.memFree A x else some h) = some h' ∧ IsList A h' l ns xs ∧
      (∀ a, a ∈ A.live h'.mem ↔ a ∈ A.live h.mem ∧ a ∉ freed freeElts [x]) ∧
      h'.var = h.var ∧ h'.head = h.head ∧ h'.tail = h.tail := by
  cases freeElts with
  | false => exact ⟨h, rfl, hl, fun a => by simp [freed], rfl, rfl, rfl⟩
  | true =>
    obtain ⟨hlive, hns, hlx⟩ := hx rfl
    refine ⟨_, if_pos hlive, hl.freeElt hns hlx, fun a => ?_, rfl, rfl, rfl⟩
    simp [freed, A.live_memFree, and_comm]

/-- The loop of `delete_list`. -/
lemma deleteLoop_spec {freeElts : Bool} {fuel : Nat} (hl : IsList A h l ns xs)
    (hf : ns.length < fuel) (hnd : (freed freeElts xs).Nodup)
    (hx : ∀ x ∈ freed freeElts xs, x ∈ A.live h.mem ∧ x ∉ ns ∧ l ≠ .block x) :
    ∃ h', deleteLoop A l freeElts fuel h = some h' ∧ IsList A h' l [] [] ∧
      Touches A {l} ns (ns ++ freed freeElts xs) [] h h' := by
  induction ns generalizing h xs fuel with
  | nil =>
    obtain ⟨fuel, rfl⟩ := Nat.exists_eq_add_one.mpr hf
    obtain rfl : xs = [] := hl.values.symm
    have hfreed : freed freeElts [] = [] := by cases freeElts <;> rfl
    rw [hfreed]
    exact ⟨h, by simp [deleteLoop, hl.isEmptyList], hl, hl.touches_self⟩
  | cons n ns ih =>
    obtain ⟨fuel, rfl⟩ := Nat.exists_eq_add_one.mpr (Nat.zero_lt_of_lt hf)
    obtain ⟨x, xs, rfl⟩ : ∃ y ys, xs = y :: ys := ⟨_, _, hl.values.symm⟩
    have hcons : freed freeElts (x :: xs) = freed freeElts [x] ++ freed freeElts xs := by
      cases freeElts <;> rfl
    rw [hcons] at hnd hx ⊢
    obtain ⟨_, hnd₂, hdis⟩ := List.nodup_append.mp hnd
    obtain ⟨hl₁, ht₁⟩ := hl.withoutFirst
    have hlive₁ : ∀ a, a ∈ A.live (Lists.withoutFirst A l n h).mem ↔ a ≠ n ∧ a ∈ A.live h.mem := by
      intro a
      simp only [Lists.withoutFirst, A.live_memFree, Finset.mem_erase]
    -- the element is still live when its cell has been freed
    have hx₁ : freeElts = true → x ∈ A.live (Lists.withoutFirst A l n h).mem ∧ x ∉ ns ∧
        l ≠ .block x := by
      rintro rfl
      obtain ⟨h1, h2, h3⟩ := hx x List.mem_cons_self
      rw [List.mem_cons, not_or] at h2
      exact ⟨(hlive₁ x).mpr ⟨h2.1, h1⟩, h2.2, h3⟩
    obtain ⟨h₂, hfree, hl₂, hlive₂, hvar₂, hhead₂, htail₂⟩ := hl₁.freedOne hx₁
    obtain ⟨h₃, hrun, hl₃, ht₃⟩ := ih hl₂ (Nat.lt_of_succ_lt_succ hf) hnd₂ fun y hy => by
      obtain ⟨h1, h2, h3⟩ := hx y (List.mem_append_right _ hy)
      rw [List.mem_cons, not_or] at h2
      refine ⟨(hlive₂ y).mpr ⟨(hlive₁ y).mpr ⟨h2.1, h1⟩, fun hm => ?_⟩, h2.2, h3⟩
      exact hdis y hm y hy rfl
    refine ⟨h₃, ?_, hl₃, ?_⟩
    · have hne : ((x :: xs = [] : Bool) = true) ↔ False := by simp
      simp only [deleteLoop, hl.isEmptyList, hl.pop, Option.bind_eq_bind, Option.bind_some, hne,
        if_false]
      cases freeElts with
      | false =>
        obtain rfl := Option.some.inj hfree
        exact hrun
      | true =>
        have e : ListHeap.memFree A (Lists.withoutFirst A l n h) x = some h₂ := hfree
        rw [if_pos rfl, e]
        exact hrun
    constructor
    · intro v hv
      rw [ht₃.var v hv, hvar₂, ht₁.var v hv]
    · intro a _
      obtain ⟨e, e'⟩ := ht₃.cell a List.not_mem_nil
      exact ⟨e.trans (congrFun hhead₂ a), e'.trans (congrFun htail₂ a)⟩
    · exact List.forall_mem_nil _
    · intro a
      rw [ht₃.live, hlive₂, hlive₁]
      simp only [List.mem_append, List.mem_cons, List.not_mem_nil, false_or]
      tauto

/-- The loop of `find` that removes what it finds, when nothing before `c` is to be found: the cell
it found is freed and then read. -/
lemma findLoop_remove {p : Nat → Bool} {fuel : Nat} (pre : List Nat) {suf : List Nat}
    (hl : IsList A h l (pre ++ suf) xs) (hpre : ∀ a ∈ pre, p (h.head a) = false)
    (hc : Forward 0 h.tail c suf) (hf : suf.length < fuel) :
    findLoop A l p true fuel c h = if xs.any p then none else some (0, h) := by
  induction suf generalizing c pre fuel with
  | nil =>
    obtain ⟨fuel, rfl⟩ := Nat.exists_eq_add_one.mpr hf
    obtain rfl : c = 0 := (hc.eq_nil_iff).mp rfl
    have hany : xs.any p = false := by
      rw [← hl.values, List.append_nil, List.any_map]
      simpa using hpre
    simp [findLoop, hany]
  | cons n suf ih =>
    obtain ⟨fuel, rfl⟩ := Nat.exists_eq_add_one.mpr (Nat.zero_lt_of_lt hf)
    obtain ⟨rfl, h0, ht⟩ := hc.cons_inv
    have hn := hl.live c (List.mem_append_right _ List.mem_cons_self)
    cases hp : p (h.head c) with
    | false =>
      rw [← ih (pre ++ [c]) (by simpa using hl) _ ht (Nat.lt_of_succ_lt_succ hf)]
      · simp [findLoop, getHead, getTail, hn, h0, hp]
      · intro a ha
        cases List.mem_append.mp ha with
        | inl ha => exact hpre a ha
        | inr ha => exact List.mem_singleton.mp ha ▸ hp
    | true =>
      obtain ⟨h', hrun, _, ht'⟩ := hl.removeElt (h.head c)
      have hany : xs.any p = true := by
        rw [← hl.values, List.any_map, List.any_eq_true]
        exact ⟨c, List.mem_append_right _ List.mem_cons_self, hp⟩
      -- nothing before `c` holds the value, so it is `c` that is freed
      have hpre' : ∀ a ∈ pre, ¬(decide (h.head a = h.head c)) = true := by
        intro a ha e
        rw [decide_eq_true_eq] at e
        exact Bool.false_ne_true ((hpre a ha).symm.trans (e ▸ hp))
      have herase : (pre ++ c :: suf).eraseP (h.head · = h.head c) = pre ++ suf := by
        rw [List.eraseP_append_right _ hpre', List.eraseP_cons_of_pos (by simp)]
      rw [herase] at ht'
      have hgone : c ∉ A.live h'.mem := by
        rw [ht'.live]
        rintro (hm | ⟨_, hm⟩)
        · exact (List.nodup_cons.mp (List.nodup_middle.mp hl.cells.nodup)).1 hm
        · exact hm (List.mem_append_right _ List.mem_cons_self)
      simp [findLoop, getHead, hn, h0, hp, hrun, hgone, hany]

/-- `find` that removes has no result when there is something to be found. -/
lemma IsList.find_remove (hl : IsList A h l ns xs) (p : Nat → Bool) :
    Lists.find A l p true h = if xs.any p then none else some (0, h) := by
  have hrun := findLoop_remove (p := p) [] hl (List.forall_mem_nil _) hl.cells
    hl.length_lt_fuel
  simp [Lists.find, load, hl.valid, hrun]

end MarioBrOS.Lists
