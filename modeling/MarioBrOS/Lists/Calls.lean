import MarioBrOS.Lib.Run
import MarioBrOS.Lists.Cells

/-!
# Lists over whole runs

Calls of the functions of `list.c` in any order, on any number of lists, with the callers allocating
and freeing blocks of their own in between. Over such a run no call touches a cell after it was
freed or frees a block twice, the lists hold what lists would, and every live block is a block of
the callers, a variable, a cell of one list, or one of the cells that `reverse` left behind, one for
each value it moved.
-/

namespace MarioBrOS.Lists

open Scheduler (Allocator topAllocator)

variable {μ : Type}

/-- The heap, the variables in existence and the live blocks of the callers. -/
structure ListState (μ : Type) where
  heap : ListHeap μ
  vars : Set Var
  caller : Finset Nat

/-- A call. `declare` is the definition of a variable outside of the heap; `rev` is where `reverse`
has its local variable. -/
inductive ListCall where
  | declare (a : Nat)
  | emptyList
  | isEmptyList (l : Var)
  | push (l : Var) (x : Nat)
  | pop (l : Var)
  | removeElt (l : Var) (x : Nat)
  | maxList (l : Var)
  | extractMax (l : Var)
  | reverse (l : Var) (rev : Nat)
  | find (l : Var) (p : Nat → Bool)
  | deleteList (a : Nat) (freeElts : Bool)
  | memAlloc (size : Nat)
  | memFree (a : Nat)

/-- The state with another heap. -/
def ListState.goTo (A : Allocator μ) (s : ListState μ) (h : ListHeap μ) : ListState μ :=
  ⟨h, s.vars, s.caller ∩ A.live h.mem⟩

@[simp, grind =] lemma goTo_heap {A : Allocator μ} {s : ListState μ} {h : ListHeap μ} :
    (s.goTo A h).heap = h := rfl

@[simp, grind =] lemma goTo_vars {A : Allocator μ} {s : ListState μ} {h : ListHeap μ} :
    (s.goTo A h).vars = s.vars := rfl

@[simp, grind =] lemma mem_goTo_caller {A : Allocator μ} {s : ListState μ} {h : ListHeap μ}
    {a : Nat} : a ∈ (s.goTo A h).caller ↔ a ∈ s.caller ∧ a ∈ A.live h.mem :=
  Finset.mem_inter

/-- A call and its result, 0 where it returns nothing. -/
def exec (A : Allocator μ) (s : ListState μ) : ListCall → Option (Nat × ListState μ)
  | .declare a => (s.heap.store A (.static a) 0).map fun h =>
      (0, ⟨h, insert (.static a) s.vars, s.caller⟩)
  | .emptyList => (emptyList A s.heap).map fun r =>
      (r.1, ⟨r.2, insert (.block r.1) s.vars, s.caller⟩)
  | .isEmptyList l => (isEmptyList A l s.heap).map fun b => (b.toNat, s)
  | .push l x => (push A l x s.heap).map fun h => (0, s.goTo A h)
  | .pop l => (pop A l s.heap).map fun r => (r.1, s.goTo A r.2)
  | .removeElt l x => (removeElt A l x s.heap).map fun h => (0, s.goTo A h)
  | .maxList l => (maxList A l s.heap).map fun x => (x, s)
  | .extractMax l => (extractMax A l s.heap).map fun r => (r.1, s.goTo A r.2)
  | .reverse l rev => (reverse A (.static rev) l s.heap).map fun h => (0, s.goTo A h)
  | .find l p => (find A l p false s.heap).map fun r => (r.1, s.goTo A r.2)
  | .deleteList a freeElts => (deleteList A a freeElts s.heap).map fun h =>
      (0, ⟨h, s.vars \ {.block a}, s.caller ∩ A.live h.mem⟩)
  | .memAlloc size =>
      some ((s.heap.memAlloc A size).1, ⟨(s.heap.memAlloc A size).2, s.vars,
        if (s.heap.memAlloc A size).1 = 0 then s.caller
        else insert (s.heap.memAlloc A size).1 s.caller⟩)
  | .memFree a => (s.heap.memFree A a).map fun h => (0, s.goTo A h)

/-- What the callers see to: they name lists that exist, `pop`, `max_list` and `extract_max` get one
that is not empty, and they free what is theirs, once. -/
def Allowed (A : Allocator μ) (s : ListState μ) : ListCall → Prop
  | .declare a => .static a ∉ s.vars
  | .isEmptyList l | .push l _ | .removeElt l _ | .find l _ => l ∈ s.vars
  | .pop l | .maxList l | .extractMax l => l ∈ s.vars ∧ isEmptyList A l s.heap = some false
  | .reverse l rev => l ∈ s.vars ∧ .static rev ∉ s.vars
  | .deleteList a freeElts => .block a ∈ s.vars ∧ ∀ ns xs, IsList A s.heap (.block a) ns xs →
      (freed freeElts xs).Nodup ∧ ∀ x ∈ freed freeElts xs, x ∈ s.caller
  | .memFree a => a ∈ s.caller
  | .emptyList | .memAlloc _ => True

/-- A request for memory that the call makes gets NULL; `reverse` makes one for each value. -/
def Refused (A : Allocator μ) (s : ListState μ) : ListCall → Prop
  | .emptyList => Refuses A SIZEOF_LIST_T 1 s.heap.mem
  | .push _ _ => Refuses A SIZEOF_LIST 1 s.heap.mem
  | .reverse l _ => ∃ ns xs, IsList A s.heap l ns xs ∧ Refuses A SIZEOF_LIST xs.length s.heap.mem
  | _ => False

/-- A call with its result. -/
def ListStep (A : Allocator μ) (s : ListState μ) (e : ListCall × Nat) (s' : ListState μ) : Prop :=
  Allowed A s e.1 ∧ exec A s e.1 = some (e.2, s')

/-! ## Lists as they should be -/

/-- The values of the lists, and the number of cells lost. -/
structure Contents where
  vals : Var → List Nat
  lost : Nat

/-- The lists with another one for `l`. -/
def Contents.set (t : Contents) (l : Var) (xs : List Nat) : Contents :=
  { t with vals := Function.update t.vals l xs }

/-- What a call does to the lists, and its result. -/
inductive ListSpec : Contents → ListCall × Nat → Contents → Prop where
  | declare {t a} : ListSpec t (.declare a, 0) (t.set (.static a) [])
  | emptyList {t q} : ListSpec t (.emptyList, q) (t.set (.block q) [])
  | isEmptyList {t l} : ListSpec t (.isEmptyList l, (t.vals l = [] : Bool).toNat) t
  | push {t l x} : ListSpec t (.push l x, 0) (t.set l (x :: t.vals l))
  | pop {t l x xs} (h : t.vals l = x :: xs) : ListSpec t (.pop l, x) (t.set l xs)
  | removeElt {t l x} : ListSpec t (.removeElt l x, 0) (t.set l ((t.vals l).erase x))
  | maxList {t l x xs} (h : t.vals l = x :: xs) : ListSpec t (.maxList l, xs.foldl max x) t
  | extractMax {t l x xs} (h : t.vals l = x :: xs) :
      ListSpec t (.extractMax l, xs.foldl max x) (t.set l ((t.vals l).erase (xs.foldl max x)))
  | reverse {t l rev} : ListSpec t (.reverse l rev, 0)
      ⟨Function.update t.vals l (t.vals l).reverse, t.lost + (t.vals l).length⟩
  | find {t l p} : ListSpec t (.find l p, ((t.vals l).find? p).getD 0) t
  | deleteList {t a freeElts} : ListSpec t (.deleteList a freeElts, 0) (t.set (.block a) [])
  | memAlloc {t size p} : ListSpec t (.memAlloc size, p) t
  | memFree {t a} : ListSpec t (.memFree a, 0) t

/-! ## The invariant -/

/-- What a block is used for. -/
inductive Use where
  | free
  | caller
  | var
  | cell (l : Var)
  | lost
  deriving DecidableEq, Repr

/-- The variables head lists of live cells that hold the values of `t`, every block has one use, and
the live ones are those that have any. -/
structure Held (A : Allocator μ) (s : ListState μ) (t : Contents) (use : Nat → Use)
    (nodes : Var → List Nat) : Prop where
  list : ∀ l ∈ s.vars, IsList A s.heap l (nodes l) (t.vals l)
  cell : ∀ l a, use a = .cell l ↔ l ∈ s.vars ∧ a ∈ nodes l
  var : ∀ a, use a = .var ↔ .block a ∈ s.vars
  caller : ∀ a, use a = .caller ↔ a ∈ s.caller
  live : ∀ a, a ∈ A.live s.heap.mem ↔ use a ≠ .free
  lost : ∃ L : Finset Nat, (∀ a, a ∈ L ↔ use a = .lost) ∧ L.card = t.lost

variable {A : Allocator μ} {s s' : ListState μ} {t : Contents} {use : Nat → Use}
  {nodes : Var → List Nat} {l v : Var} {a x : Nat}

/-- The uses of the blocks after a call on the list `l` that has the cells `ns` now. -/
def moved (use : Nat → Use) (l : Var) (old gone ns : List Nat) (a : Nat) : Use :=
  if a ∈ ns then .cell l else if a ∈ gone then .free else if a ∈ old then .lost else use a

/-- A call on the list `l`. It may free cells of the list and blocks of the caller. -/
lemma Held.update {own : Set Var} {old gone ns' xs' : List Nat} {h' : ListHeap μ}
    (H : Held A s t use nodes) (hl : l ∈ s.vars) (ht : Touches A own old gone ns' s.heap h')
    (hown : ∀ v ∈ s.vars, v ∈ own → v = l) (hold : old ⊆ nodes l)
    (hgone : ∀ a ∈ gone, a ∈ nodes l ∨ a ∈ s.caller) (hl' : IsList A h' l ns' xs') :
    Held A (s.goTo A h')
      ⟨Function.update t.vals l xs',
        t.lost + ((nodes l).filter fun a => a ∉ ns' ∧ a ∉ gone).length⟩
      (moved use l (nodes l) gone ns') (Function.update nodes l ns') := by
  have hnodes : ∀ a, a ∈ nodes l ↔ use a = .cell l := fun a => by simp [H.cell, hl]
  have hns : ∀ a ∈ ns', use a = .cell l ∨ use a = .free := by
    intro a ha
    cases ht.new a ha with
    | inl ho => exact .inl ((hnodes a).mp (hold ho))
    | inr hn => exact .inr (of_not_not fun h0 => hn ((H.live a).mpr h0))
  have hg : ∀ a ∈ gone, use a = .cell l ∨ use a = .caller := fun a ha =>
    (hgone a ha).imp (hnodes a).mp (H.caller a).mpr
  have hlive : ∀ a, a ∈ A.live h'.mem ↔ a ∈ ns' ∨ use a ≠ .free ∧ a ∉ gone := by
    intro a
    rw [ht.live, H.live]
  constructor
  · intro v hv
    by_cases hvl : v = l
    · subst hvl
      simpa using hl'
    · simp only [Function.update_of_ne hvl]
      have hcell : ∀ a ∈ nodes v, use a = .cell v := fun a ha => (H.cell v a).mpr ⟨hv, ha⟩
      refine (H.list v hv).frame ht (fun hm => hvl (hown v hv hm)) ?_ ?_
      · intro a ha hm
        have := hns a hm
        rw [hcell a ha] at this
        simp [hvl] at this
      · intro a ha
        have := hg a ha
        constructor
        · intro hm
          rw [hcell a hm] at this
          simp [hvl] at this
        · rintro rfl
          rw [(H.var a).mpr hv] at this
          simp at this
  · intro v a
    have hc := H.cell v a
    by_cases hvl : v = l
    · grind [moved]
    · grind [moved]
  · grind [moved, H.var]
  · grind [moved, H.caller]
  · grind [moved]
  · obtain ⟨L, hL, hcard⟩ := H.lost
    -- the cells left behind were cells of `l`
    have hfilter : ((nodes l).filter fun a => a ∉ ns' ∧ a ∉ gone).Nodup :=
      (H.list l hl).cells.nodup.filter _
    refine ⟨L ∪ ((nodes l).filter fun a => a ∉ ns' ∧ a ∉ gone).toFinset, fun a => ?_, ?_⟩
    · simp only [Finset.mem_union, hL, List.mem_toFinset, List.mem_filter, decide_eq_true_eq]
      grind [moved]
    · rw [Finset.card_union_of_disjoint, List.toFinset_card_of_nodup hfilter, hcard]
      rw [Finset.disjoint_left]
      intro a ha hm
      rw [List.mem_toFinset, List.mem_filter, hnodes, (hL a).mp ha] at hm
      exact Use.noConfusion hm.1

/-- A call on the list `l` that leaves no cell behind. -/
lemma Held.set {own : Set Var} {old gone ns' xs' : List Nat} {h' : ListHeap μ}
    (H : Held A s t use nodes) (hl : l ∈ s.vars) (ht : Touches A own old gone ns' s.heap h')
    (hown : ∀ v ∈ s.vars, v ∈ own → v = l) (hold : old ⊆ nodes l)
    (hgone : ∀ a ∈ gone, a ∈ nodes l ∨ a ∈ s.caller) (hl' : IsList A h' l ns' xs')
    (hkeep : ∀ a ∈ nodes l, a ∈ ns' ∨ a ∈ gone) :
    Held A (s.goTo A h') (t.set l xs') (moved use l (nodes l) gone ns')
      (Function.update nodes l ns') := by
  have hnone : (nodes l).filter (fun a => a ∉ ns' ∧ a ∉ gone) = [] := by
    rw [List.filter_eq_nil_iff]
    intro a ha
    have := hkeep a ha
    simp only [decide_eq_true_eq]
    tauto
  have H' := H.update hl ht hown hold hgone hl'
  rw [hnone] at H'
  exact H'

/-- The call has its result, and the lists are as they should be. -/
def Served (A : Allocator μ) (s : ListState μ) (t : Contents) (c : ListCall) : Prop :=
  ∃ r s' t' use nodes, exec A s c = some (r, s') ∧ ListSpec t (c, r) t' ∧ Held A s' t' use nodes

/-- The blocks of the callers are live. -/
lemma Held.goTo_self (H : Held A s t use nodes) : s.goTo A s.heap = s := by
  have e : s.caller ∩ A.live s.heap.mem = s.caller := by
    rw [Finset.inter_eq_left]
    intro a ha
    rw [H.live, (H.caller a).mpr ha]
    exact Use.noConfusion
  rw [ListState.goTo, e]

/-- A list that is not empty. -/
lemma Held.exists_cons (H : Held A s t use nodes) (hl : l ∈ s.vars)
    (he : isEmptyList A l s.heap = some false) :
    ∃ n ns x xs, nodes l = n :: ns ∧ t.vals l = x :: xs := by
  have hlist := H.list l hl
  rw [hlist.isEmptyList] at he
  have hne : t.vals l ≠ [] := of_decide_eq_false (Option.some.inj he)
  obtain ⟨x, xs, hx⟩ := List.exists_cons_of_ne_nil hne
  cases hn : nodes l with
  | nil =>
    have := hlist.values
    rw [hn, hx] at this
    exact absurd this (List.cons_ne_nil x xs).symm
  | cons n ns => exact ⟨n, ns, x, xs, rfl, hx⟩

/-- A single request. -/
lemma refuses_one {size : Nat} {m : μ} : Refuses A size 1 m ↔ (A.memAlloc m size).1 = 0 :=
  or_iff_left id

lemma Held.push (H : Held A s t use nodes) (hl : l ∈ s.vars) (hr : ¬ Refused A s (.push l x)) :
    Served A s t (.push l x) := by
  obtain ⟨u, h', hrun, _, hl', ht⟩ := (H.list l hl).push x fun h0 => hr (refuses_one.mpr h0)
  refine ⟨0, s.goTo A h', _, _, _, by simp [exec, hrun], .push, H.set hl ht ?_ ?_ ?_ hl' ?_⟩
  · exact fun v _ hv => hv
  · exact List.Subset.refl _
  · exact List.forall_mem_nil _
  · exact fun a ha => .inl (List.mem_cons_of_mem u ha)

lemma Held.pop (H : Held A s t use nodes) (hl : l ∈ s.vars)
    (he : isEmptyList A l s.heap = some false) : Served A s t (.pop l) := by
  obtain ⟨n, ns, x, xs, hn, hx⟩ := H.exists_cons hl he
  have hlist := H.list l hl
  rw [hn, hx] at hlist
  obtain ⟨hl', ht⟩ := hlist.withoutFirst
  rw [← hn] at ht
  refine ⟨x, s.goTo A (withoutFirst A l n s.heap), _, _, _, by simp [exec, hlist.pop], .pop hx,
    H.set hl ht ?_ ?_ ?_ hl' ?_⟩
  · exact fun v _ hv => hv
  · exact List.Subset.refl _
  · exact fun a ha => .inl ha
  · exact fun a ha => .inr ha

lemma Held.removeElt (H : Held A s t use nodes) (hl : l ∈ s.vars) :
    Served A s t (.removeElt l x) := by
  obtain ⟨h', hrun, hl', ht⟩ := (H.list l hl).removeElt x
  refine ⟨0, s.goTo A h', _, _, _, by simp [exec, hrun], .removeElt, H.set hl ht ?_ ?_ ?_ hl' ?_⟩
  · exact fun v _ hv => hv
  · exact List.Subset.refl _
  · exact fun a ha => .inl ha
  · exact fun a ha => .inr ha

lemma Held.extractMax (H : Held A s t use nodes) (hl : l ∈ s.vars)
    (he : isEmptyList A l s.heap = some false) : Served A s t (.extractMax l) := by
  obtain ⟨_, _, x, xs, _, hx⟩ := H.exists_cons hl he
  have hlist := H.list l hl
  rw [hx] at hlist
  obtain ⟨h', ns', hrun, hl', ht⟩ := hlist.extractMax
  rw [← hx] at hl'
  refine ⟨_, s.goTo A h', _, _, _, by simp [exec, hrun], .extractMax hx,
    H.set hl ht ?_ ?_ ?_ hl' ?_⟩
  · exact fun v _ hv => hv
  · exact List.Subset.refl _
  · exact fun a ha => .inl ha
  · exact fun a ha => .inr ha

lemma Held.reverse {rev : Nat} (H : Held A s t use nodes) (hl : l ∈ s.vars)
    (hrev : .static rev ∉ s.vars) (hr : ¬ Refused A s (.reverse l rev)) :
    Served A s t (.reverse l rev) := by
  have hlist := H.list l hl
  have hne : l ≠ .static rev := fun e => hrev (e ▸ hl)
  obtain ⟨hr', _⟩ | ⟨_, h', ns', hrun, hl', ht⟩ := hlist.reverse hne
  · exact absurd ⟨_, _, hlist, hr'⟩ hr
  have H' := H.update hl ht ?_ (List.nil_subset _) (List.forall_mem_nil _) hl'
  · -- every old cell stays behind
    have hall : (nodes l).filter (fun a => a ∉ ns' ∧ a ∉ ([] : List Nat)) = nodes l := by
      rw [List.filter_eq_self]
      intro a ha
      have hn : a ∉ ns' := fun hm =>
        (ht.new a hm).elim List.not_mem_nil fun hn => hn (hlist.live a ha)
      simp [hn]
    have hlen : (nodes l).length = (t.vals l).length := by rw [← hlist.values, List.length_map]
    rw [hall, hlen] at H'
    exact ⟨0, s.goTo A h', _, _, _, by simp [exec, hrun], .reverse, H'⟩
  · rintro v hv (hvl | hvr)
    · exact hvl
    · exact absurd (hvr ▸ hv) hrev

lemma Held.isEmptyList (H : Held A s t use nodes) (hl : l ∈ s.vars) :
    Served A s t (.isEmptyList l) :=
  ⟨_, s, t, use, nodes, by simp [exec, (H.list l hl).isEmptyList], .isEmptyList, H⟩

lemma Held.maxList (H : Held A s t use nodes) (hl : l ∈ s.vars)
    (he : Lists.isEmptyList A l s.heap = some false) : Served A s t (.maxList l) := by
  obtain ⟨_, _, x, xs, _, hx⟩ := H.exists_cons hl he
  have hlist := H.list l hl
  rw [hx] at hlist
  exact ⟨_, s, t, use, nodes, by simp [exec, hlist.maxList], .maxList hx, H⟩

lemma Held.find {p : Nat → Bool} (H : Held A s t use nodes) (hl : l ∈ s.vars) :
    Served A s t (.find l p) :=
  ⟨_, s, t, use, nodes, by simp [exec, (H.list l hl).find p, H.goTo_self], .find, H⟩

/-- A variable outside of the heap. -/
lemma Held.declare (H : Held A s t use nodes) (ha : .static a ∉ s.vars) :
    Served A s t (.declare a) := by
  obtain ⟨h', e⟩ : ∃ h', h' = { s.heap with var := Function.update s.heap.var (.static a) 0 } :=
    ⟨_, rfl⟩
  have hrun : s.heap.store A (.static a) 0 = some h' := e ▸ if_pos trivial
  have hmem : h'.mem = s.heap.mem := by rw [e]
  have hnil : h'.var (.static a) = 0 := by
    rw [e]
    exact Function.update_self ..
  have ht : Touches A {.static a} [] [] [] s.heap h' := by
    refine ⟨fun v hv => ?_, fun b _ => ?_, List.forall_mem_nil _, fun b => by simp [hmem]⟩
    · rw [e]
      exact Function.update_of_ne hv _ _
    · rw [e]
      exact ⟨rfl, rfl⟩
  refine ⟨0, ⟨h', insert (.static a) s.vars, s.caller⟩, _, use,
    Function.update nodes (.static a) [], by simp [exec, hrun], .declare, ?_⟩
  constructor
  · intro v hv
    by_cases hva : v = .static a
    · subst hva
      simp only [Contents.set, Function.update_self]
      refine ⟨trivial, List.forall_mem_nil _, List.forall_mem_nil _, ?_, rfl⟩
      rw [hnil]
      exact .nil
    · simp only [Contents.set, Function.update_of_ne hva]
      exact (H.list v (hv.resolve_left hva)).frame ht hva (List.disjoint_nil_right _)
        (List.forall_mem_nil _)
  · intro v b
    rw [H.cell]
    by_cases hva : v = .static a
    · subst hva
      simp [ha]
    · simp [hva]
  · intro b
    rw [H.var]
    simp
  · exact H.caller
  · exact hmem ▸ H.live
  · exact H.lost

/-- The blocks once `a`, which was free, is used. -/
lemma Held.use_free (H : Held A s t use nodes) (ha : a ∉ A.live s.heap.mem) : use a = .free :=
  of_not_not fun h0 => ha ((H.live a).mpr h0)

/-- A variable in a block of its own. -/
lemma Held.emptyList (H : Held A s t use nodes) (hr : ¬ Refused A s .emptyList) :
    Served A s t .emptyList := by
  have h0 : (A.memAlloc s.heap.mem SIZEOF_LIST_T).1 ≠ 0 := fun h0 => hr (refuses_one.mpr h0)
  obtain ⟨q, hq⟩ : ∃ q, q = (A.memAlloc s.heap.mem SIZEOF_LIST_T).1 := ⟨_, rfl⟩
  obtain ⟨h', e⟩ : ∃ h' : ListHeap μ, h' = ⟨(A.memAlloc s.heap.mem SIZEOF_LIST_T).2,
    Function.update s.heap.var (.block q) 0, s.heap.head, s.heap.tail⟩ := ⟨_, rfl⟩
  have hnew : q ∉ A.live s.heap.mem := hq ▸ A.memAlloc_fresh _ _
  have hlive : A.live h'.mem = insert q (A.live s.heap.mem) := by
    rw [e, hq]
    exact A.live_memAlloc _ _ h0
  have hval : q ∈ A.live (A.memAlloc s.heap.mem SIZEOF_LIST_T).2 := by
    rw [hq, A.live_memAlloc _ _ h0]
    exact Finset.mem_insert_self _ _
  have hrun : Lists.emptyList A s.heap = some (q, h') := by
    have hv (f : Var → Nat) (g k : Nat → Nat) : ListHeap.Valid A
        (⟨(A.memAlloc s.heap.mem SIZEOF_LIST_T).2, f, g, k⟩ : ListHeap μ) (.block q) := hval
    simp [Lists.emptyList, ListHeap.memAlloc, ListHeap.store, ← hq, hv, e]
  have ht : Touches A {.block q} [] [] [q] s.heap h' := by
    refine ⟨fun v hv => ?_, fun b _ => ?_, fun b hb => ?_, fun b => by simp [hlive]⟩
    · rw [e]
      exact Function.update_of_ne hv _ _
    · rw [e]
      exact ⟨rfl, rfl⟩
    · exact .inr (List.mem_singleton.mp hb ▸ hnew)
  have hfree := H.use_free hnew
  have hqv : ∀ v b, b ∈ nodes v → v ∈ s.vars → b ≠ q := by
    rintro v b hb hv rfl
    exact hnew ((H.list v hv).live b hb)
  have hold : .block q ∉ s.vars := fun hm => hnew (H.list _ hm).valid
  refine ⟨q, ⟨h', insert (.block q) s.vars, s.caller⟩, _, Function.update use q .var,
    Function.update nodes (.block q) [], by simp [exec, hrun], .emptyList, ?_⟩
  constructor
  · intro v hv
    by_cases hva : v = .block q
    · subst hva
      simp only [Contents.set, Function.update_self]
      refine ⟨e ▸ hval, List.forall_mem_nil _, List.forall_mem_nil _, ?_, rfl⟩
      have hnil : h'.var (.block q) = 0 := by
        rw [e]
        exact Function.update_self ..
      rw [hnil]
      exact .nil
    · have hv := hv.resolve_left hva
      simp only [Contents.set, Function.update_of_ne hva]
      refine (H.list v hv).frame ht hva ?_ (List.forall_mem_nil _)
      exact fun b hb hm => hqv v b hb hv (List.mem_singleton.mp hm)
  · grind [H.cell]
  · grind [H.var]
  · grind [H.caller]
  · grind [H.live]
  · obtain ⟨L, hL, hcard⟩ := H.lost
    exact ⟨L, by grind, hcard⟩

/-- A block of the callers. -/
lemma Held.memAlloc {size : Nat} (H : Held A s t use nodes) : Served A s t (.memAlloc size) := by
  have hnew := A.memAlloc_fresh s.heap.mem size
  by_cases h0 : (A.memAlloc s.heap.mem size).1 = 0
  · refine ⟨_, _, t, use, nodes, rfl, .memAlloc, ?_⟩
    simp only [ListHeap.memAlloc, h0, if_true]
    have hlive := A.live_refused s.heap.mem size h0
    refine ⟨fun v hv => ?_, H.cell, H.var, H.caller, fun b => ?_, H.lost⟩
    · have ht : Touches A ∅ [] [] [] s.heap
          ⟨(A.memAlloc s.heap.mem size).2, s.heap.var, s.heap.head, s.heap.tail⟩ := by
        refine ⟨fun _ _ => rfl, fun _ _ => ⟨rfl, rfl⟩, List.forall_mem_nil _, fun b => ?_⟩
        simp [hlive]
      exact (H.list v hv).frame ht (Set.notMem_empty _) (List.disjoint_nil_right _)
        (List.forall_mem_nil _)
    · exact hlive ▸ H.live b
  have hlive := A.live_memAlloc s.heap.mem size h0
  refine ⟨_, _, t, Function.update use (A.memAlloc s.heap.mem size).1 .caller, nodes, rfl,
    .memAlloc, ?_⟩
  have hcaller : (if (s.heap.memAlloc A size).1 = 0 then s.caller
      else insert (s.heap.memAlloc A size).1 s.caller) =
        insert (s.heap.memAlloc A size).1 s.caller := if_neg h0
  rw [hcaller]
  simp only [ListHeap.memAlloc]
  generalize (A.memAlloc s.heap.mem size).1 = p at *
  generalize (A.memAlloc s.heap.mem size).2 = m at *
  have hfree := H.use_free hnew
  have hnodes : ∀ v b, b ∈ nodes v → v ∈ s.vars → b ≠ p := by
    rintro v b hb hv rfl
    exact hnew ((H.list v hv).live b hb)
  constructor
  · intro v hv
    have ht : Touches A ∅ [] [] [p] s.heap ⟨m, s.heap.var, s.heap.head, s.heap.tail⟩ := by
      refine ⟨fun _ _ => rfl, fun _ _ => ⟨rfl, rfl⟩, fun b hb => ?_, fun b => by simp [hlive]⟩
      exact .inr (List.mem_singleton.mp hb ▸ hnew)
    refine (H.list v hv).frame ht (Set.notMem_empty _) ?_ (List.forall_mem_nil _)
    exact fun b hb hm => hnodes v b hb hv (List.mem_singleton.mp hm)
  · grind [H.cell]
  · have hp : .block p ∉ s.vars := fun hm => hnew (H.list _ hm).valid
    grind [H.var]
  · grind [H.caller]
  · grind [H.live]
  · obtain ⟨L, hL, hcard⟩ := H.lost
    exact ⟨L, by grind, hcard⟩

/-- A block that is not a cell is freed: one of the callers, or a variable that heads no cell. -/
lemma Held.memFree (H : Held A s t use nodes)
    (ha : use a = .caller ∨ use a = .var ∧ nodes (.block a) = []) :
    ∃ h', s.heap.memFree A a = some h' ∧
      Held A ⟨h', s.vars \ {.block a}, s.caller ∩ A.live h'.mem⟩ t (Function.update use a .free)
        nodes := by
  have hfree : a ∈ A.live s.heap.mem := by
    rw [H.live]
    grind
  refine ⟨_, if_pos hfree, ?_⟩
  constructor
  · intro v hv
    have hav : a ∉ nodes v := by
      intro hm
      have := (H.cell v a).mpr ⟨hv.1, hm⟩
      grind
    exact (H.list v hv.1).freeElt hav hv.2
  · intro v b
    have hv := H.var a
    by_cases hva : v = .block a
    · grind [H.cell]
    · grind [H.cell]
  · grind [H.var]
  · simp only [Finset.mem_inter, A.live_memFree, Finset.mem_erase]
    grind [H.caller, H.live]
  · simp only [A.live_memFree, Finset.mem_erase]
    grind [H.live]
  · obtain ⟨L, hL, hcard⟩ := H.lost
    exact ⟨L, by grind, hcard⟩

lemma Held.deleteList {freeElts : Bool} (H : Held A s t use nodes) (hl : .block a ∈ s.vars)
    (hx : ∀ ns xs, IsList A s.heap (.block a) ns xs →
      (freed freeElts xs).Nodup ∧ ∀ x ∈ freed freeElts xs, x ∈ s.caller) :
    Served A s t (.deleteList a freeElts) := by
  have hlist := H.list _ hl
  obtain ⟨hnd, hcaller⟩ := hx _ _ hlist
  have hmine : ∀ x ∈ freed freeElts (t.vals (.block a)),
      x ∈ A.live s.heap.mem ∧ x ∉ nodes (.block a) ∧ Var.block a ≠ .block x := by
    intro x hm
    have hc := (H.caller x).mpr (hcaller x hm)
    refine ⟨(H.live x).mpr ?_, fun hn => ?_, ?_⟩
    · rw [hc]
      exact Use.noConfusion
    · have := (H.cell _ _).mpr ⟨hl, hn⟩
      exact Use.noConfusion (hc.symm.trans this)
    · intro e
      exact Use.noConfusion (hc.symm.trans ((H.var x).mpr (e ▸ hl)))
  obtain ⟨h₁, hrun, hl₁, ht⟩ := deleteLoop_spec hlist hlist.length_lt_fuel hnd hmine
  have H₁ := H.set hl ht (fun v _ hv => hv) (List.Subset.refl _)
    (fun b hb => (List.mem_append.mp hb).imp_right (hcaller b)) hl₁
    fun b hb => .inr (List.mem_append_left _ hb)
  obtain ⟨h₂, hfree, H₂⟩ := H₁.memFree (a := a)
    (.inr ⟨(H₁.var a).mpr hl, Function.update_self ..⟩)
  have hrun₂ : Lists.deleteList A a freeElts s.heap = some h₂ := by
    simp only [Lists.deleteList, hrun, Option.bind_eq_bind, Option.bind_some]
    exact hfree
  -- what is left of the callers' blocks is live at the end
  have hsub : A.live h₂.mem ⊆ A.live h₁.mem := by
    obtain ⟨_, e⟩ := Option.ite_none_right_eq_some.mp hfree
    rw [← Option.some.inj e]
    simp [A.live_memFree, Finset.erase_subset]
  have e : (s.goTo A h₁).caller ∩ A.live h₂.mem = s.caller ∩ A.live h₂.mem := by
    rw [ListState.goTo, Finset.inter_assoc, Finset.inter_eq_right.mpr hsub]
  rw [e] at H₂
  exact ⟨0, ⟨h₂, s.vars \ {.block a}, s.caller ∩ A.live h₂.mem⟩, _, _, _,
    by simp [exec, hrun₂], .deleteList, H₂⟩

lemma Held.memFree_caller (H : Held A s t use nodes) (ha : a ∈ s.caller) :
    Served A s t (.memFree a) := by
  have hc := (H.caller a).mpr ha
  obtain ⟨h', hrun, H'⟩ := H.memFree (.inl hc)
  have hno : .block a ∉ s.vars := fun hm => by
    rw [← H.var, hc] at hm
    exact Use.noConfusion hm
  rw [Set.sdiff_singleton_eq_self hno] at H'
  exact ⟨0, s.goTo A h', t, _, _, by simp [exec, hrun], .memFree, H'⟩

/-- Every call that the callers may make is served, if its requests for memory are. -/
lemma Held.served {c : ListCall} (H : Held A s t use nodes) (hc : Allowed A s c)
    (hr : ¬ Refused A s c) : Served A s t c := by
  cases c with
  | declare a => exact H.declare hc
  | emptyList => exact H.emptyList hr
  | isEmptyList l => exact H.isEmptyList hc
  | push l x => exact H.push hc hr
  | pop l => exact H.pop hc.1 hc.2
  | removeElt l x => exact H.removeElt hc
  | maxList l => exact H.maxList hc.1 hc.2
  | extractMax l => exact H.extractMax hc.1 hc.2
  | reverse l rev => exact H.reverse hc.1 hc.2 hr
  | find l p => exact H.find hc
  | deleteList a freeElts => exact H.deleteList hc.1 hc.2
  | memAlloc size => exact H.memAlloc
  | memFree a => exact H.memFree_caller hc

/-- A call that gets NULL writes through it. -/
lemma exec_refused {c : ListCall} (hc : Allowed A s c) (hr : Refused A s c) :
    exec A s c = none := by
  cases c with
  | emptyList =>
    have h0 := refuses_one.mp hr
    have hnull : 0 ∉ A.live (A.memAlloc s.heap.mem SIZEOF_LIST_T).2 := by
      rw [A.live_refused _ _ h0]
      exact h0 ▸ A.memAlloc_fresh s.heap.mem SIZEOF_LIST_T
    simp [exec, Lists.emptyList, ListHeap.memAlloc, ListHeap.store, ListHeap.Valid, h0, hnull]
  | push l x => simp [exec, push_refused x (refuses_one.mp hr)]
  | reverse l rev =>
    obtain ⟨ns, xs, hlist, hr⟩ := hr
    have hne : l ≠ .static rev := fun e => hc.2 (e ▸ hc.1)
    obtain ⟨_, hrun⟩ | ⟨hr', _⟩ := hlist.reverse hne
    · simp [exec, hrun]
    · exact absurd hr hr'
  | _ => exact hr.elim

/-- No lists yet: every live block is a caller's. -/
lemma Held.start (A : Allocator μ) (h : ListHeap μ) :
    Held A ⟨h, ∅, A.live h.mem⟩ ⟨fun _ => [], 0⟩
      (fun a => if a ∈ A.live h.mem then .caller else .free) fun _ => [] := by
  constructor
  · exact fun l hl => absurd hl (Set.notMem_empty l)
  · grind
  · grind
  · grind
  · grind
  · exact ⟨∅, by grind, rfl⟩

/-- What holds after any calls. -/
lemma held_of_run {h : ListHeap μ} {cs : List (ListCall × Nat)}
    (r : Run (ListStep A) ⟨h, ∅, A.live h.mem⟩ cs s) :
    ∃ t use nodes, Run ListSpec ⟨fun _ => [], 0⟩ cs t ∧ Held A s t use nodes := by
  induction r with
  | nil => exact ⟨_, _, _, .nil, .start A h⟩
  | snoc _ st ih =>
    obtain ⟨t, use, nodes, R, H⟩ := ih
    obtain ⟨hc, hrun⟩ := st
    have hr := fun hr => Option.some_ne_none _ (hrun.symm.trans (exec_refused hc hr))
    obtain ⟨r, s', t', use', nodes', hrun', hspec, H'⟩ := H.served hc hr
    obtain ⟨e, rfl⟩ := Prod.mk.inj (Option.some.inj (hrun.symm.trans hrun'))
    exact ⟨t', use', nodes', .snoc R (by rwa [← e] at hspec), H'⟩

/-- **The lists of `list.c` are lists, and memory-safe.** After any calls, the lists hold what lists
would; their cells are live and belong to one list each; the blocks that are live are those of the
callers, the variables, the cells and as many lost ones as `reverse` moved values; and a call that
the callers may make next ends without touching or freeing a block that is not live, exactly if no
request for memory that it makes gets NULL. -/
theorem lists_refine (A : Allocator μ) (h : ListHeap μ) (cs : List (ListCall × Nat))
    (s : ListState μ) (r : Run (ListStep A) ⟨h, ∅, A.live h.mem⟩ cs s) :
    ∃ t use nodes, Run ListSpec ⟨fun _ => [], 0⟩ cs t ∧ Held A s t use nodes ∧
      ∀ c, Allowed A s c → ((∃ e s', exec A s c = some (e, s')) ↔ ¬ Refused A s c) := by
  obtain ⟨t, use, nodes, R, H⟩ := held_of_run r
  refine ⟨t, use, nodes, R, H, fun c hc => ⟨?_, fun hr => ?_⟩⟩
  · rintro ⟨e, s', hrun⟩ hr
    rw [exec_refused hc hr] at hrun
    cases hrun
  · obtain ⟨e, s', _, _, _, hrun, _⟩ := H.served hc hr
    exact ⟨e, s', hrun⟩

/-- **`find` must not remove.** After any calls, `find` with `remove` set ends only where it finds
nothing: else it reads the cell it has just freed. -/
theorem find_remove_iff (A : Allocator μ) (h : ListHeap μ) (cs : List (ListCall × Nat))
    (s : ListState μ) (r : Run (ListStep A) ⟨h, ∅, A.live h.mem⟩ cs s) (l : Var) (hl : l ∈ s.vars)
    (p : Nat → Bool) :
    ∃ t, Run ListSpec ⟨fun _ => [], 0⟩ cs t ∧
      find A l p true s.heap = if (t.vals l).any p then none else some (0, s.heap) := by
  obtain ⟨t, _, _, R, H⟩ := held_of_run r
  exact ⟨t, R, (H.list l hl).find_remove p⟩

/-! ### A list that is reversed -/

/-- A heap without blocks. -/
def noBlocks : ListHeap (Finset Nat) := ⟨∅, fun _ => 0, fun _ => 0, fun _ => 0⟩

/-- Two values are pushed, and their list is reversed. -/
def sampleCalls : List (ListCall × Nat) :=
  [(.declare 0, 0), (.push (.static 0) 7, 0), (.push (.static 0) 9, 0), (.reverse (.static 0) 1, 0)]

lemma topAllocator_serves {size n : Nat} {m : Finset Nat} : ¬ Refuses topAllocator size n m := by
  induction n generalizing m with
  | zero => exact id
  | succ n ih => exact fun h => h.elim (Nat.succ_ne_zero _) ih

lemma exists_sample : ∃ s, Run (ListStep topAllocator) ⟨noBlocks, ∅, ∅⟩ sampleCalls s ∧
    .static 0 ∈ s.vars := by
  have hv : Var.static 0 ∈ insert (Var.static 0) (∅ : Set Var) := Set.mem_insert _ _
  have hrev : Var.static 1 ∉ insert (Var.static 0) (∅ : Set Var) := by simp
  have h1 : ListStep topAllocator ⟨noBlocks, ∅, ∅⟩ (.declare 0, 0)
      ⟨noBlocks, insert (.static 0) ∅, ∅⟩ := by
    refine ⟨Set.notMem_empty _, ?_⟩
    have e : Function.update noBlocks.var (.static 0) 0 = noBlocks.var := Function.update_eq_self ..
    simp [exec, ListHeap.store, ListHeap.Valid, e]
  have push (h : ListHeap (Finset Nat)) (c : Finset Nat) (es) (x : Nat)
      (r : Run (ListStep topAllocator) ⟨noBlocks, ∅, ∅⟩ es ⟨h, insert (.static 0) ∅, c⟩) :
      ∃ h' c', Run (ListStep topAllocator) ⟨noBlocks, ∅, ∅⟩ (es ++ [(.push (.static 0) x, 0)])
        ⟨h', insert (.static 0) ∅, c'⟩ := by
    obtain ⟨_, _, _, _, H⟩ := held_of_run r
    obtain ⟨_, h', hrun, _⟩ := (H.list _ hv).push x (Nat.succ_ne_zero _)
    exact ⟨h', _, r.snoc ⟨hv, by simp only [exec]; rw [hrun]; rfl⟩⟩
  obtain ⟨h2, c2, r2⟩ := push _ _ _ 7 (Run.single h1)
  obtain ⟨h3, c3, r3⟩ := push _ _ _ 9 r2
  obtain ⟨_, _, _, _, H⟩ := held_of_run r3
  have hne : Var.static 0 ≠ .static 1 := by decide
  obtain ⟨hr, _⟩ | ⟨_, h', _, hrun, _⟩ := (H.list _ hv).reverse hne
  · exact absurd hr topAllocator_serves
  · exact ⟨_, r3.snoc (u := ⟨h', _, _⟩) ⟨⟨hv, hrev⟩, by simp only [exec]; rw [hrun]; rfl⟩, hv⟩

theorem lists_refine_reversed : ∃ s t use nodes, Run ListSpec ⟨fun _ => [], 0⟩ sampleCalls t ∧
    Held topAllocator s t use nodes ∧ ∀ c, Allowed topAllocator s c →
      ((∃ e s', exec topAllocator s c = some (e, s')) ↔ ¬ Refused topAllocator s c) := by
  obtain ⟨s, r, _⟩ := exists_sample
  exact ⟨s, lists_refine topAllocator noBlocks _ s r⟩

theorem find_remove_iff_reversed : ∃ (s : ListState (Finset Nat)) (t : Contents),
    Run ListSpec ⟨fun _ => [], 0⟩ sampleCalls t ∧
      find topAllocator (.static 0) (· == 7) true s.heap =
        if (t.vals (.static 0)).any (· == 7) then none else some (0, s.heap) := by
  obtain ⟨s, r, hl⟩ := exists_sample
  exact ⟨s, find_remove_iff topAllocator noBlocks _ s r _ hl _⟩

end MarioBrOS.Lists
