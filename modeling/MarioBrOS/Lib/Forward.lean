import Mathlib.Tactic.Lemma
import Mathlib.Tactic.TypeStar
import Mathlib.Data.List.Nodup

/-!
# Singly linked lists

Nodes are linked through one field `next`, given as a function. `Forward null next h l` says that
from `h` on the fields run through the nodes `l`, in order, up to `null`. A node occurs once, since
`next` has one value there; a list stays linked when the field changes elsewhere; and a node is
taken out by changing the field of the one before it.
-/

namespace MarioBrOS

variable {α : Type*} {null h x b c : α} {next next' : α → α} {l l' r : List α}

/-- From `h` on, the `next` fields run through the nodes `l` up to `null`. -/
inductive Forward (null : α) (next : α → α) : α → List α → Prop where
  | nil : Forward null next null []
  | cons {a : α} {as : List α} : a ≠ null → Forward null next (next a) as →
      Forward null next a (a :: as)

/-- Nodes are not `null`. -/
lemma Forward.ne_null (hl : Forward null next h l) : ∀ x ∈ l, x ≠ null := by
  induction hl with
  | nil => exact List.forall_mem_nil _
  | cons hx _ ih => exact List.forall_mem_cons.mpr ⟨hx, ih⟩

/-- The links depend on the fields of the nodes only. -/
lemma Forward.congr (hl : Forward null next h l) (hn : ∀ x ∈ l, next' x = next x) :
    Forward null next' h l := by
  induction hl with
  | nil => exact .nil
  | @cons x l hx _ ih =>
    obtain ⟨hnx, hnl⟩ := List.forall_mem_cons.mp hn
    apply Forward.cons hx
    rw [hnx]
    exact ih hnl

/-- The list is empty when its head is `null`. -/
lemma Forward.eq_nil_iff (hl : Forward null next h l) : l = [] ↔ h = null := by
  cases hl with
  | nil => exact iff_of_true rfl rfl
  | cons hx _ => exact iff_of_false (List.cons_ne_nil _ _) hx

/-- A list that is not empty. -/
lemma Forward.cons_inv (hl : Forward null next h (x :: l)) :
    h = x ∧ x ≠ null ∧ Forward null next (next x) l := by
  cases hl with
  | cons hx ht => exact ⟨rfl, hx, ht⟩

/-- The head says what the list is. -/
lemma Forward.unique (hl : Forward null next h l) (hr : Forward null next h l') : l = l' := by
  induction hl generalizing l' with
  | nil => exact ((hr.eq_nil_iff).mpr rfl).symm
  | cons hx _ ih =>
    cases hr with
    | nil => exact absurd rfl hx
    | cons _ hr => rw [ih hr]

/-- The list from a node on. -/
lemma Forward.drop (hl : Forward null next h (l ++ c :: r)) : Forward null next c (c :: r) := by
  induction l generalizing h with
  | nil =>
    obtain ⟨rfl, _⟩ := hl.cons_inv
    exact hl
  | cons x l ih => exact ih hl.cons_inv.2.2

/-- A node occurs once. -/
lemma Forward.nodup (hl : Forward null next h l) : l.Nodup := by
  induction hl with
  | nil => exact List.nodup_nil
  | @cons x l hx ht ih =>
    refine List.nodup_cons.mpr ⟨fun hm => ?_, ih⟩
    -- a second `x` would be followed by the same list as the first
    obtain ⟨l₁, l₂, rfl⟩ := List.append_of_mem hm
    have e := ht.drop.unique (Forward.cons hx ht)
    have := congrArg List.length e
    simp only [List.length_cons, List.length_append] at this
    omega

/-- The node `c` taken out, after `b`. -/
lemma Forward.unlink (hl : Forward null next h (l ++ b :: c :: r)) (hb : next' b = next c)
    (ho : ∀ x ∈ l ++ r, next' x = next x) : Forward null next' h (l ++ b :: r) := by
  induction l generalizing h with
  | nil =>
    obtain ⟨rfl, hx, hc⟩ := hl.cons_inv
    obtain ⟨_, _, hr⟩ := hc.cons_inv
    apply Forward.cons hx
    rw [hb]
    exact hr.congr ho
  | cons x l ih =>
    obtain ⟨rfl, hx, ht⟩ := hl.cons_inv
    obtain ⟨hnx, ho⟩ := List.forall_mem_cons.mp ho
    apply Forward.cons hx
    rw [hnx]
    exact ih ht ho

end MarioBrOS
