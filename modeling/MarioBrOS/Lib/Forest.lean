import Mathlib.Data.List.Flatten
import Mathlib.Data.List.Nodup
import Mathlib.Data.List.Perm.Subperm
import Mathlib.Data.List.Range
import Mathlib.Logic.Function.Iterate
import Mathlib.Tactic.Lemma

/-!
# Forests of parent links

Nodes that each name a parent, given by `par`, with a node `r` that is its own parent. The nodes of
interest are those of the list `ids`. Below a child of `r` the links are a tree, whatever the other
links are: the depth of a node is unique, so `visit`, which goes down from a node to all that name
it, ends, and passes each descendant once, children first.
-/

namespace MarioBrOS

variable {α : Type*} (par : α → α) (ids : List α) (r x : α)

/-- The descendants of a node. -/
inductive Desc : α → Prop where
  | self : Desc x
  | child {q c} :
    Desc q →
    par c = q →
    c ∈ ids →
    Desc c

/-- The number of links from a node up to `r`. -/
inductive Depth : α → Nat → Prop where
  | root : Depth r 0
  | child {q c k} :
    Depth q k →
    par c = q →
    c ≠ r →
    Depth c (k + 1)

/-- The descendants of a node, children first, as far as the fuel goes. -/
def visit [DecidableEq α] : Nat → α → List α
  | 0, _ => []
  | n + 1, x => (ids.filter fun c => par c = x).flatMap (visit n) ++ [x]

variable {par ids r x} {y c c₁ c₂ : α} {j k n : Nat}

/-! ## Depth -/

lemma Depth.unique (h : Depth par r y j) (h' : Depth par r y k) : j = k := by
  induction h generalizing k with
  | root =>
    cases h' with
    | root => rfl
    | child _ _ hne => exact absurd rfl hne
  | child _ e hne ih =>
    cases h' with
    | root => exact absurd rfl hne
    | child hq e' _ =>
      subst e
      rw [ih (e' ▸ hq)]

/-- The node `j` links up. -/
lemma Depth.iterate (h : Depth par r y (k + j)) : Depth par r (par^[j] y) k := by
  induction j generalizing y with
  | zero => exact h
  | succ j ih =>
    cases h with
    | child hq e _ =>
      rw [Function.iterate_succ_apply, e]
      exact ih hq

/-- A child of a node below `r` is one deeper. -/
lemma Depth.of_child (hr : par r = r) (h : Depth par r x k) (hk : 0 < k) (e : par c = x) :
    Depth par r c (k + 1) := by
  refine .child h e ?_
  rintro rfl
  rw [hr] at e
  subst e
  have := h.unique .root
  omega

/-- A descendant, and the links back up. -/
lemma Desc.depth (hr : par r = r) (hx : Depth par r x k) (hk : 0 < k) (h : Desc par ids x y) :
    ∃ j, Depth par r y (k + j) ∧ par^[j] y = x := by
  induction h with
  | self => exact ⟨0, hx, rfl⟩
  | child _ e _ ih =>
    obtain ⟨j, hq, hj⟩ := ih
    refine ⟨j + 1, hq.of_child hr (Nat.add_pos_left hk j) e, ?_⟩
    rw [Function.iterate_succ_apply, e, hj]

/-- Two nodes of one depth have no descendant in common. -/
lemma Desc.eq_of_depth (hr : par r = r) (hk : 0 < k) (h₁ : Depth par r c₁ k)
    (h₂ : Depth par r c₂ k) (d₁ : Desc par ids c₁ y) (d₂ : Desc par ids c₂ y) : c₁ = c₂ := by
  obtain ⟨j₁, hy₁, e₁⟩ := d₁.depth hr h₁ hk
  obtain ⟨j₂, hy₂, e₂⟩ := d₂.depth hr h₂ hk
  have hj : j₁ = j₂ := by
    have := hy₁.unique hy₂
    omega
  rw [← e₁, ← e₂, hj]

/-- No node is a descendant of its child. -/
lemma Desc.not_self (hr : par r = r) (hx : Depth par r x k) (hk : 0 < k) (e : par c = x) :
    ¬ Desc par ids c x := by
  intro d
  obtain ⟨j, h, _⟩ := d.depth hr (hx.of_child hr hk e) (by omega)
  have := hx.unique h
  omega

/-- The parent of a node is less deep than all its descendants. -/
lemma Desc.par_ne (hr : par r = r) (hx : Depth par r x k) (hk : 0 < k) (d : Desc par ids x y) :
    par x ≠ y := by
  rintro rfl
  obtain ⟨j, hy, _⟩ := d.depth hr hx hk
  cases hx with
  | root => omega
  | child hq e _ =>
    subst e
    have := hq.unique hy
    omega

/-- The ancestors of a descendant are in the list. -/
lemma Desc.iterate_mem (hx : x ∈ ids) (hd : Depth par r x 1) (h : Desc par ids x y)
    (hy : Depth par r y k) (hj : j < k) : par^[j] y ∈ ids := by
  induction h generalizing j k with
  | self =>
    have := hd.unique hy
    obtain rfl : j = 0 := by omega
    exact hx
  | child _ e hc ih =>
    cases j with
    | zero => exact hc
    | succ j =>
      cases hy with
      | root => omega
      | child hq e' _ =>
        rw [Function.iterate_succ_apply, e]
        exact ih (e ▸ e' ▸ hq) (by omega)

/-- The depth of a descendant of a child of `r` is at most the number of nodes. -/
lemma Desc.depth_le (hx : x ∈ ids) (hd : Depth par r x 1) (h : Desc par ids x y)
    (hy : Depth par r y k) : k ≤ ids.length := by
  have hnodup : ((List.range k).map fun j => par^[j] y).Nodup := by
    refine List.Nodup.map_on (fun i hi j hj e => ?_) List.nodup_range
    rw [List.mem_range] at hi hj
    have hi' : Depth par r (par^[i] y) (k - i) := Depth.iterate (by rwa [Nat.sub_add_cancel hi.le])
    have hj' : Depth par r (par^[j] y) (k - j) := Depth.iterate (by rwa [Nat.sub_add_cancel hj.le])
    have := hi'.unique (e ▸ hj')
    omega
  have hsub : ((List.range k).map fun j => par^[j] y) ⊆ ids := by
    intro z hz
    obtain ⟨j, hj, rfl⟩ := List.mem_map.mp hz
    exact h.iterate_mem hx hd hy (List.mem_range.mp hj)
  have := (List.subperm_of_subset hnodup hsub).length_le
  rwa [List.length_map, List.length_range] at this

/-! ## Visits -/

lemma Desc.head (d : Desc par ids c y) (e : par c = x) (hc : c ∈ ids) : Desc par ids x y := by
  induction d with
  | self => exact .child .self e hc
  | child _ e hc ih => exact .child ih e hc

/-- A descendant is the node itself, or below one of its children. -/
lemma desc_iff : Desc par ids x y ↔ y = x ∨ ∃ c ∈ ids, par c = x ∧ Desc par ids c y := by
  constructor
  · intro d
    induction d with
    | self => exact .inl rfl
    | child _ e hc ih =>
      obtain rfl | ⟨c', hc', e', d'⟩ := ih
      · exact .inr ⟨_, hc, e, .self⟩
      · exact .inr ⟨c', hc', e', .child d' e hc⟩
  · rintro (rfl | ⟨c, hc, e, d⟩)
    · exact .self
    · exact d.head e hc

variable [DecidableEq α] {B : Nat}

/-- With fuel for all depths, the visit passes the descendants. -/
lemma mem_visit (hr : par r = r) (hx : Depth par r x k) (hk : 0 < k)
    (hB : ∀ y j, Desc par ids x y → Depth par r y j → j ≤ B) (hn : B < n + k) :
    y ∈ visit par ids n x ↔ Desc par ids x y := by
  induction n generalizing x k with
  | zero =>
    have := hB x k .self hx
    omega
  | succ n ih =>
    rw [visit, List.mem_append, List.mem_singleton, List.mem_flatMap, desc_iff, or_comm]
    refine or_congr_right (exists_congr fun c => ?_)
    rw [List.mem_filter, decide_eq_true_iff, and_assoc]
    refine and_congr_right fun hc => and_congr_right fun e => ?_
    exact ih (hx.of_child hr hk e) (by omega) (fun y j d => hB y j (d.head e hc)) (by omega)

/-- More fuel makes no difference. -/
lemma visit_fuel {m : Nat} (hr : par r = r) (hx : Depth par r x k) (hk : 0 < k)
    (hB : ∀ y j, Desc par ids x y → Depth par r y j → j ≤ B) (hn : B < n + k) (hm : B < m + k) :
    visit par ids n x = visit par ids m x := by
  induction n generalizing m x k with
  | zero =>
    have := hB x k .self hx
    omega
  | succ n ih =>
    cases m with
    | zero =>
      have := hB x k .self hx
      omega
    | succ m =>
      rw [visit, visit]
      refine congrArg (· ++ [x]) (List.flatMap_congr fun c hc => ?_)
      rw [List.mem_filter, decide_eq_true_iff] at hc
      exact ih (hx.of_child hr hk hc.2) (by omega) (fun y j d => hB y j (d.head hc.2 hc.1))
        (by omega) (by omega)

/-- No descendant is passed twice. -/
lemma nodup_visit (hids : ids.Nodup) (hr : par r = r) (hx : Depth par r x k) (hk : 0 < k)
    (hB : ∀ y j, Desc par ids x y → Depth par r y j → j ≤ B) (hn : B < n + k) :
    (visit par ids n x).Nodup := by
  induction n generalizing x k with
  | zero => exact List.nodup_nil
  | succ n ih =>
    have hchild : ∀ c ∈ ids.filter fun c => par c = x, c ∈ ids ∧ par c = x := by
      intro c hc
      rw [List.mem_filter, decide_eq_true_iff] at hc
      exact hc
    have hmem : ∀ c ∈ ids.filter fun c => par c = x, ∀ y,
        y ∈ visit par ids n c ↔ Desc par ids c y := by
      intro c hc y
      obtain ⟨hi, e⟩ := hchild c hc
      exact mem_visit hr (hx.of_child hr hk e) (by omega)
        (fun y j d => hB y j (d.head e hi)) (by omega)
    rw [visit, List.nodup_append]
    refine ⟨List.nodup_flatMap.mpr ⟨fun c hc => ?_, ?_⟩, List.nodup_singleton _,
      fun y hy z hz => ?_⟩
    · obtain ⟨hi, e⟩ := hchild c hc
      exact ih (hx.of_child hr hk e) (by omega) (fun y j d => hB y j (d.head e hi)) (by omega)
    · refine (hids.filter _).pairwise_of_forall_ne fun c₁ h₁ c₂ h₂ hne => ?_
      intro y hy₁ hy₂
      refine hne (Desc.eq_of_depth hr (by omega) (hx.of_child hr hk (hchild c₁ h₁).2)
        (hx.of_child hr hk (hchild c₂ h₂).2) ((hmem c₁ h₁ y).mp hy₁) ((hmem c₂ h₂ y).mp hy₂))
    · rw [List.mem_singleton] at hz
      rintro rfl
      subst hz
      obtain ⟨c, hc, hy⟩ := List.mem_flatMap.mp hy
      exact Desc.not_self hr hx hk (hchild c hc).2 ((hmem c hc _).mp hy)

/-- Children are passed before their parents. -/
lemma pairwise_visit (hids : ids.Nodup) (hr : par r = r) (hx : Depth par r x k) (hk : 0 < k)
    (hB : ∀ y j, Desc par ids x y → Depth par r y j → j ≤ B) (hn : B < n + k) :
    (visit par ids n x).Pairwise fun a b => par b ≠ a := by
  induction n generalizing x k with
  | zero => exact List.Pairwise.nil
  | succ n ih =>
    have hchild : ∀ c ∈ ids.filter fun c => par c = x, c ∈ ids ∧ par c = x := by
      intro c hc
      rw [List.mem_filter, decide_eq_true_iff] at hc
      exact hc
    have hmem : ∀ c ∈ ids.filter fun c => par c = x, ∀ y,
        y ∈ visit par ids n c ↔ Desc par ids c y := by
      intro c hc y
      obtain ⟨hi, e⟩ := hchild c hc
      exact mem_visit hr (hx.of_child hr hk e) (by omega)
        (fun y j d => hB y j (d.head e hi)) (by omega)
    rw [visit, List.pairwise_append]
    refine ⟨List.pairwise_flatMap.mpr ⟨fun c hc => ?_, ?_⟩, List.pairwise_singleton _ _,
      fun a ha b hb => ?_⟩
    · obtain ⟨hi, e⟩ := hchild c hc
      exact ih (hx.of_child hr hk e) (by omega) (fun y j d => hB y j (d.head e hi)) (by omega)
    · refine (hids.filter _).pairwise_of_forall_ne fun c₁ h₁ c₂ h₂ hne a ha b hb e => ?_
      have d₁ := (hmem c₁ h₁ a).mp ha
      cases (hmem c₂ h₂ b).mp hb with
      | self =>
        rw [(hchild c₂ h₂).2] at e
        exact Desc.not_self hr hx hk (hchild c₁ h₁).2 (e ▸ d₁)
      | child d₂ e' _ =>
        exact hne (Desc.eq_of_depth hr (by omega) (hx.of_child hr hk (hchild c₁ h₁).2)
          (hx.of_child hr hk (hchild c₂ h₂).2) d₁ (e ▸ e' ▸ d₂))
    · rw [List.mem_singleton] at hb
      subst hb
      obtain ⟨c, hc, ha⟩ := List.mem_flatMap.mp ha
      obtain ⟨hi, e⟩ := hchild c hc
      exact (((hmem c hc a).mp ha).head e hi).par_ne hr hx hk

end MarioBrOS
