import Mathlib.Tactic.Lemma
import Mathlib.Tactic.TypeStar
import Mathlib.Data.List.Nodup

/-!
# Doubly linked lists

Nodes are linked through two fields `prev` and `next`, given as functions; `null` ends the list both
ways. `Links null prev next p h l` says that from the head `h`, entered from `p`, the `next` fields
run through the nodes `l` in order and the `prev` fields lead back. The two list operations, pushing
a node to the front and unlinking a node, are stated for any fields that agree with the old ones
where the operation does not write.
-/

namespace MarioBrOS

variable {α : Type*} {null : α} {prev next prev' next' : α → α} {p h c : α} {l r : List α}

/-- The nodes `l`, linked from the head `h`, whose first node points back to `p`. -/
def Links (null : α) (prev next : α → α) : α → α → List α → Prop
  | _, h, [] => h = null
  | p, h, x :: xs => h = x ∧ x ≠ null ∧ prev x = p ∧ Links null prev next x (next x) xs

/-- Nodes are not `null`. -/
lemma Links.ne_null (hl : Links null prev next p h l) : ∀ x ∈ l, x ≠ null := by
  induction l generalizing p h with
  | nil => simp
  | cons y l ih =>
    obtain ⟨_, hy, _, hr⟩ := hl
    intro x hx
    rcases List.mem_cons.mp hx with rfl | hx
    · exact hy
    · exact ih hr x hx

/-- The links depend on the fields of the nodes only. -/
lemma Links.congr (hl : Links null prev next p h l) (hp : ∀ x ∈ l, prev' x = prev x)
    (hn : ∀ x ∈ l, next' x = next x) : Links null prev' next' p h l := by
  induction l generalizing p h with
  | nil => exact hl
  | cons x l ih =>
    obtain ⟨e, hx, hpx, hr⟩ := hl
    refine ⟨e, hx, by rw [hp x (by simp), hpx], ?_⟩
    rw [hn x (by simp)]
    exact ih hr (fun y hy => hp y (by simp [hy])) fun y hy => hn y (by simp [hy])

/-- The head is the first node, if there is one. -/
lemma Links.head_eq (hl : Links null prev next p h l) : h = l.head?.getD null := by
  cases l with
  | nil => exact hl
  | cons x l => exact hl.1

/-- The list from a node on. -/
lemma Links.tail (hl : Links null prev next p h (l ++ c :: r)) :
    Links null prev next c (next c) r := by
  induction l generalizing p h with
  | nil => exact hl.2.2.2
  | cons x l ih => exact ih hl.2.2.2

/-- The node before `c` is the last of the nodes in front of it. -/
lemma Links.prev_eq (hl : Links null prev next p h (l ++ c :: r)) :
    prev c = l.getLast?.getD p := by
  induction l generalizing p h with
  | nil => exact hl.2.2.1
  | cons x l ih =>
    rw [ih hl.2.2.2]
    cases l with
    | nil => rfl
    | cons y l => simp [List.getLast?_cons]

/-- The node after `c` is the first of the nodes behind it. -/
lemma Links.next_eq (hl : Links null prev next p h (l ++ c :: r)) :
    next c = r.head?.getD null :=
  hl.tail.head_eq

/-- Going forward and back again. -/
lemma Links.prev_next (hl : Links null prev next p h l) (hc : c ∈ l) (hn : next c ≠ null) :
    prev (next c) = c := by
  obtain ⟨l, r, rfl⟩ := List.append_of_mem hc
  have htail := hl.tail
  cases r with
  | nil => exact absurd htail hn
  | cons x r => rw [htail.1, htail.2.2.1]

/-- Going back and forward again. -/
lemma Links.next_prev (hl : Links null prev next p h l) (hc : c ∈ l) (hp : prev c ≠ p) :
    next (prev c) = c := by
  obtain ⟨l, r, rfl⟩ := List.append_of_mem hc
  have hprev := hl.prev_eq
  rcases List.eq_nil_or_concat l with rfl | ⟨l, x, rfl⟩
  · exact absurd (by simpa using hprev) hp
  · rw [List.concat_eq_append] at hl hprev
    have hx : prev c = x := by simpa using hprev
    have hnext := Links.next_eq (l := l) (c := x) (r := c :: r) (by simpa using hl)
    rw [hx]
    simpa using hnext

/-- Pushing `c` to the front. -/
lemma Links.push (hl : Links null prev next null h l) (hc : c ≠ null) (hcl : c ∉ l)
    (hd : l.Nodup) (hnc : next' c = h) (hpc : prev' c = null) (hph : h ≠ null → prev' h = c)
    (hp : ∀ x ∈ l, x ≠ h → prev' x = prev x) (hn : ∀ x ∈ l, next' x = next x) :
    Links null prev' next' null c (c :: l) := by
  refine ⟨rfl, hc, hpc, ?_⟩
  rw [hnc]
  cases l with
  | nil => exact hl
  | cons x l =>
    obtain ⟨rfl, hx, _, hr⟩ := hl
    refine ⟨rfl, hx, hph hx, ?_⟩
    rw [hn h (by simp)]
    refine hr.congr (fun y hy => hp y (by simp [hy]) ?_) fun y hy => hn y (by simp [hy])
    rintro rfl
    exact (List.nodup_cons.mp hd).1 hy

/-- Unlinking `c`. -/
lemma Links.unlink [DecidableEq α] (hl : Links null prev next p h (l ++ c :: r))
    (hd : (l ++ c :: r).Nodup) (hpl : p ∉ l ++ c :: r)
    (hp : ∀ x ∈ l ++ r, prev' x = if x = next c then prev c else prev x)
    (hn : ∀ x ∈ l ++ r, next' x = if x = prev c then next c else next x) :
    Links null prev' next' p (if l = [] then next c else h) (l ++ r) := by
  induction l generalizing p h with
  | nil =>
    obtain ⟨rfl, _, hpc, hr⟩ := hl
    rw [List.nil_append] at hd hpl hp hn
    rw [if_pos rfl, List.nil_append]
    cases r with
    | nil => exact hr
    | cons b r =>
      obtain ⟨e, hb, _, hr⟩ := hr
      have hbp : b ≠ p := by rintro rfl; exact hpl (by simp)
      refine ⟨e, hb, by rw [hp b (by simp), if_pos e.symm, hpc], ?_⟩
      rw [hn b (by simp), hpc, if_neg hbp]
      refine hr.congr (fun x hx => ?_) fun x hx => ?_
      · have hxb : x ≠ b := by rintro rfl; simp [hx] at hd
        rw [hp x (by simp [hx]), e, if_neg hxb]
      · have hxp : x ≠ p := by rintro rfl; exact hpl (by simp [hx])
        rw [hn x (by simp [hx]), hpc, if_neg hxp]
  | cons x l ih =>
    have hprev := hl.prev_eq
    have hnext := hl.next_eq
    have hnull := hl.ne_null
    obtain ⟨rfl, hx, hpx, hr⟩ := hl
    rw [List.cons_append, List.nodup_cons] at hd
    rw [if_neg (by simp)]
    refine ⟨rfl, hx, ?_, ?_⟩
    · -- the node before `c` keeps its own predecessor
      have hne : h ≠ next c := by
        rw [hnext]
        cases r with
        | nil => exact hx
        | cons b r => rintro rfl; exact hd.1 (by simp)
      rw [hp h (by simp), if_neg hne, hpx]
    · have hlink := ih hr hd.2 hd.1 (fun y hy => hp y (by simp [hy])) fun y hy =>
        hn y (by simp [hy])
      have e : next' h = if l = [] then next c else next h := by
        rw [hn h (by simp), hprev]
        cases l with
        | nil => simp
        | cons y l =>
          have hne : h ≠ (y :: l).getLast (by simp) := fun e =>
            hd.1 (List.mem_append_left _ (e ▸ List.getLast_mem _))
          rw [List.getLast?_cons_cons, List.getLast?_eq_some_getLast (by simp)]
          simp only [Option.getD_some, if_neg hne, reduceCtorEq, if_false]
      rw [e]
      exact hlink

end MarioBrOS
