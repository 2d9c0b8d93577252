import Mathlib.Tactic.Lemma
import Mathlib.Tactic.TypeStar
import Mathlib.Data.List.Chain
import Mathlib.Data.List.Nodup

/-!
# Circular doubly linked lists

Nodes are linked through two fields `prev` and `next`, given as functions. `Ring prev next l` says
that following `next` from the first node of `l` runs through `l` in order and comes back to the
first node, and that `prev` leads the other way round. The two list operations, appending a node at
the end and taking the first node out, are stated for any fields that agree with the old ones where
the operation does not write.
-/

namespace MarioBrOS

variable {α : Type*} {prev next prev' next' : α → α} {x e : α} {l : List α}

/-- `b` follows `a`. -/
def Linked (prev next : α → α) (a b : α) : Prop :=
  next a = b ∧ prev b = a

/-- The nodes `l`, each linked to the one behind it and the last one to the first. -/
structure Ring (prev next : α → α) (l : List α) : Prop where
  chain : l.IsChain (Linked prev next)
  closed : ∀ z ∈ l.getLast?, ∀ x ∈ l.head?, Linked prev next z x
  nodup : l.Nodup

/-- No nodes. -/
lemma Ring.nil : Ring prev next [] :=
  ⟨.nil, by simp, List.nodup_nil⟩

/-- A chain depends on the `next` fields of all nodes but the last and the `prev` fields of all but
the first. -/
lemma chain_congr (h : l.IsChain (Linked prev next)) (hn : ∀ a ∈ l.dropLast, next' a = next a)
    (hp : ∀ a ∈ l.tail, prev' a = prev a) : l.IsChain (Linked prev' next') := by
  induction l with
  | nil => exact .nil
  | cons x l ih =>
    cases l with
    | nil => exact .singleton x
    | cons y l =>
      rw [List.isChain_cons_cons] at h ⊢
      obtain ⟨⟨hxy, hyx⟩, hr⟩ := h
      refine ⟨⟨?_, ?_⟩, ?_⟩
      · rw [hn x (by simp), hxy]
      · rw [hp y (by simp), hyx]
      · exact ih hr (fun a ha => hn a (by simp [ha])) fun a ha => hp a (by simp [List.mem_of_mem_tail ha])

/-- A node of a duplicate-free list that is not the last. -/
lemma ne_getLast_of_mem_dropLast {a z : α} (hd : l.Nodup) (ha : a ∈ l.dropLast)
    (hz : z ∈ l.getLast?) : a ≠ z := by
  rintro rfl
  obtain ⟨l', rfl⟩ := List.mem_getLast?_eq_getLast hz |>.elim fun h e =>
    (⟨l.dropLast, by rw [e]; exact (List.dropLast_append_getLast h).symm⟩ : ∃ l', l = l' ++ [a])
  rw [List.dropLast_concat] at ha
  exact (List.nodup_append.mp hd).2.2 a ha a (by simp) rfl

/-- A node of a duplicate-free list that is not the first. -/
lemma ne_head_of_mem_tail {a z : α} (hd : l.Nodup) (ha : a ∈ l.tail) (hz : z ∈ l.head?) : a ≠ z := by
  cases l with
  | nil => simp at hz
  | cons y l =>
    rintro rfl
    cases hz
    exact (List.nodup_cons.mp hd).1 ha

/-- The field a ring is entered by: the node before the first is the last. -/
lemma Ring.prev_head (r : Ring prev next l) {z : α} (hx : x ∈ l.head?) (hz : z ∈ l.getLast?) :
    prev x = z :=
  (r.closed z hz x hx).2

/-- Appending `e` at the end. -/
lemma Ring.append (r : Ring prev next l) (he : e ∉ l) (hne : next' e = l.head?.getD e)
    (hpe : prev' e = l.getLast?.getD e) (hnl : ∀ z ∈ l.getLast?, next' z = e)
    (hph : ∀ x ∈ l.head?, prev' x = e) (hn : ∀ a ∈ l.dropLast, next' a = next a)
    (hp : ∀ a ∈ l.tail, prev' a = prev a) : Ring prev' next' (l ++ [e]) := by
  have hd : (l ++ [e]).Nodup := by
    rw [List.nodup_append]
    exact ⟨r.nodup, List.nodup_singleton e, by grind⟩
  have hch := chain_congr r.chain hn hp
  refine ⟨?_, fun z hz x hx => ?_, hd⟩
  · rw [List.isChain_append]
    refine ⟨hch, .singleton e, fun z hz x hx => ?_⟩
    have hxe : e = x := by simpa using hx
    rw [← hxe]
    refine ⟨hnl z hz, ?_⟩
    rw [hpe, hz, Option.getD_some]
  · have hze : e = z := by simpa using hz
    rw [← hze]
    cases l with
    | nil =>
      have hxe : e = x := by simpa using hx
      rw [← hxe]
      exact ⟨hne, hpe⟩
    | cons y l =>
      have hxy : y = x := by simpa using hx
      rw [← hxy]
      exact ⟨hne, hph y (by simp)⟩

/-- Taking the first node out. -/
lemma Ring.tail (r : Ring prev next (x :: l)) (hnl : ∀ z ∈ l.getLast?, next' z = next x)
    (hph : ∀ y ∈ l.head?, prev' y = prev x) (hn : ∀ a ∈ l.dropLast, next' a = next a)
    (hp : ∀ a ∈ l.tail, prev' a = prev a) : Ring prev' next' l := by
  obtain ⟨hch, hcl, hd⟩ := r
  refine ⟨chain_congr (by simpa using hch.tail) hn hp, fun z hz y hy => ⟨?_, ?_⟩, (List.nodup_cons.mp hd).2⟩
  · cases l with
    | nil => simp at hy
    | cons b l =>
      rw [hnl z hz]
      cases hy
      exact (List.isChain_cons_cons.mp hch).1.1
  · have hxz := hcl z (by cases l <;> simp_all) x (by simp)
    rw [hph y hy, hxz.2]

/-- The first node's successor is the second node, or the node itself when it is alone. -/
lemma Ring.next_head (r : Ring prev next (x :: l)) : next x = l.head?.getD x := by
  cases l with
  | nil => exact (r.closed x (by simp) x (by simp)).1
  | cons y l => exact (List.isChain_cons_cons.mp r.chain).1.1

/-- The first node's predecessor is the last node, or the node itself when it is alone. -/
lemma Ring.prev_first (r : Ring prev next (x :: l)) : prev x = l.getLast?.getD x := by
  refine r.prev_head (by simp) ?_
  cases l with
  | nil => simp
  | cons y l => simp [List.getLast?_cons]

end MarioBrOS
