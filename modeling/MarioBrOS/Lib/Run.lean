import Mathlib.Tactic.Lemma
import Mathlib.Tactic.TypeStar

/-!
# Runs of a labelled transition system

A system is a step relation `step : σ → α → σ → Prop`: in state `s` the event `e` may lead to `t`.
`Run step s es t` chains steps. The rules of this file are the inductions every development over
runs needs: an invariant preserved by each step holds after each run (`Run.invariant`), a run whose
steps all meet a side condition is a run of the restricted system (`Guarded`), and runs compose and
come apart (`Run.append`, `Run.split`).
-/

namespace MarioBrOS

variable {σ τ α β : Type*}

/-- `Run step s es t`: the events `es`, taken in order, lead from `s` to `t`. -/
inductive Run (step : σ → α → σ → Prop) : σ → List α → σ → Prop where
  | nil {s} : Run step s [] s
  | snoc {s es t e u} : Run step s es t → step t e u → Run step s (es ++ [e]) u

/-- The steps of `step` whose pre-state and event satisfy `ok`. -/
def Guarded (ok : σ → α → Prop) (step : σ → α → σ → Prop) (s : σ) (e : α) (t : σ) : Prop :=
  ok s e ∧ step s e t

/-- What one step preserves, a run preserves. -/
lemma Run.invariant {step : σ → α → σ → Prop} {I : σ → Prop}
    (hstep : ∀ s e t, I s → step s e t → I t) {s es t}
    (r : Run step s es t) (h : I s) : I t := by
  induction r with
  | nil => exact h
  | snoc _ st ih => exact hstep _ _ _ ih st

/-- A single step is a run. -/
lemma Run.single {step : σ → α → σ → Prop} {s e t} (st : step s e t) : Run step s [e] t :=
  .snoc .nil st

/-- Runs compose. -/
lemma Run.append {step : σ → α → σ → Prop} {s es t fs u}
    (r1 : Run step s es t) (r2 : Run step t fs u) : Run step s (es ++ fs) u := by
  induction r2 with
  | nil => rw [List.append_nil]; exact r1
  | snoc _ st ih => rw [← List.append_assoc]; exact .snoc ih st

/-- A run of the events `es ++ fs` is one of `es` followed by one of `fs`. -/
lemma Run.split {step : σ → α → σ → Prop} {s es fs u} (r : Run step s (es ++ fs) u) :
    ∃ t, Run step s es t ∧ Run step t fs u := by
  generalize hgs : es ++ fs = gs at r
  induction r generalizing fs with
  | nil =>
    rcases List.append_eq_nil_iff.mp hgs with ⟨rfl, rfl⟩
    exact ⟨_, .nil, .nil⟩
  | snoc r st ih =>
    rcases List.eq_nil_or_concat fs with rfl | ⟨fs', f, rfl⟩
    · rw [List.append_nil] at hgs
      subst hgs
      exact ⟨_, .snoc r st, .nil⟩
    · rw [List.concat_eq_append, ← List.append_assoc] at hgs
      rcases List.append_inj' hgs rfl with ⟨h1, h2⟩
      cases h2
      rcases ih h1 with ⟨t, r1, r2⟩
      exact ⟨t, r1, List.concat_eq_append ▸ .snoc r2 st⟩

/-- The first step of a run. -/
lemma Run.head {step : σ → α → σ → Prop} {s e es u} (r : Run step s (e :: es) u) :
    ∃ t, step s e t ∧ Run step t es u := by
  rcases @Run.split _ _ _ _ [e] es _ r with ⟨t, r1, r2⟩
  refine ⟨t, ?_, r2⟩
  generalize hgs : [e] = gs at r1
  cases r1 with
  | nil => cases hgs
  | snoc r st =>
    rename_i es' e' t'
    cases es' with
    | nil =>
      cases hgs
      generalize hnil : ([] : List _) = fs at r
      cases r with
      | nil => exact st
      | snoc => simp at hnil
    | cons => simp at hgs

/-- A run of one step relation is a run of any relation that contains it. -/
lemma Run.mono {step step' : σ → α → σ → Prop} (h : ∀ s e t, step s e t → step' s e t) {s es t}
    (r : Run step s es t) : Run step' s es t := by
  induction r with
  | nil => exact .nil
  | snoc _ st ih => exact .snoc ih (h _ _ _ st)

/-- A guarded run is a run. -/
lemma Run.of_guarded {ok : σ → α → Prop} {step : σ → α → σ → Prop} {s es t}
    (r : Run (Guarded ok step) s es t) : Run step s es t :=
  r.mono fun _ _ _ st => st.2

end MarioBrOS
