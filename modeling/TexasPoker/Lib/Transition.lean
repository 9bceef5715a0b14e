import Mathlib.Logic.Basic
import Mathlib.Tactic.Common

/-! # Labelled transition systems

Reachable states, invariants, and the restriction of a system to steps that meet a
condition.
-/

namespace TexasPoker

universe u v

/-- Initial states and labelled steps. -/
structure TransitionSystem (σ : Type u) (ℓ : Type v) where
  init : σ → Prop
  next : σ → ℓ → σ → Prop

namespace TransitionSystem

variable {σ : Type u} {ℓ : Type v}

/-- The states of the runs from an initial state. -/
inductive Reachable (S : TransitionSystem σ ℓ) : σ → Prop where
  | init {s : σ} : S.init s → Reachable S s
  | next {s s' : σ} (l : ℓ) : Reachable S s → S.next s l s' → Reachable S s'

variable {S : TransitionSystem σ ℓ} {P Q : σ → Prop} {s s' s'' : σ}

/-- `P` holds initially, and every step keeps it. -/
structure IsInvariant (S : TransitionSystem σ ℓ) (P : σ → Prop) : Prop where
  init : ∀ s, S.init s → P s
  next : ∀ s l s', S.Reachable s → P s → S.next s l s' → P s'

theorem IsInvariant.of_reachable (h : S.IsInvariant P) (hs : S.Reachable s) : P s := by
  induction hs with
  | init hi => exact h.init _ hi
  | next l hr hn ih => exact h.next _ l _ hr ih hn

theorem IsInvariant.imp (h : S.IsInvariant P) (hpq : ∀ s, S.Reachable s → P s → Q s) :
    S.IsInvariant Q where
  init s hi := hpq s (.init hi) (h.init s hi)
  next _ l s' hr _ hn := hpq s' (.next l hr hn) (h.next _ l s' hr (h.of_reachable hr) hn)

/-- Keep the steps that meet a condition on the state before them. -/
def restrict (S : TransitionSystem σ ℓ) (allowed : σ → ℓ → Prop) : TransitionSystem σ ℓ where
  init := S.init
  next s l s' := allowed s l ∧ S.next s l s'

theorem Reachable.of_restrict {allowed : σ → ℓ → Prop} (h : (S.restrict allowed).Reachable s) :
    S.Reachable s := by
  induction h with
  | init hi => exact .init hi
  | next l _ hn ih => exact .next l ih hn.2

/-! ## Runs -/

/-- A step of a run, with the states around it. -/
structure Step (σ : Type u) (ℓ : Type v) where
  before : σ
  label : ℓ
  after : σ

/-- The runs from a state, with their steps in order. -/
inductive Run (S : TransitionSystem σ ℓ) (s : σ) : List (Step σ ℓ) → σ → Prop where
  | nil : Run S s [] s
  | snoc {steps : List (Step σ ℓ)} {s' s'' : σ} {l : ℓ} : Run S s steps s' → S.next s' l s'' →
      Run S s (steps ++ [⟨s', l, s''⟩]) s''

/-- A step inside a run follows a run. -/
theorem Run.split {past future : List (Step σ ℓ)} {x : Step σ ℓ}
    (h : S.Run s (past ++ x :: future) s') : S.Run s past x.before ∧ S.next x.before x.label x.after := by
  generalize hsteps : past ++ x :: future = steps at h
  induction h generalizing future with
  | nil => simp at hsteps
  | snoc hr hn ih =>
    rcases List.eq_nil_or_concat future with rfl | ⟨front, y, rfl⟩
    · obtain ⟨rfl, hx⟩ := List.append_inj' hsteps rfl
      cases hx
      exact ⟨hr, hn⟩
    · rw [List.concat_eq_append, ← List.cons_append, ← List.append_assoc] at hsteps
      obtain ⟨hfront, -⟩ := List.append_inj' hsteps rfl
      exact ih hfront

theorem Run.of_restrict {allowed : σ → ℓ → Prop} {steps : List (Step σ ℓ)}
    (h : (S.restrict allowed).Run s steps s') : S.Run s steps s' := by
  induction h with
  | nil => exact .nil
  | snoc _ hn ih => exact .snoc ih hn.2

theorem Run.append {past future : List (Step σ ℓ)} (h : S.Run s past s')
    (h' : S.Run s' future s'') : S.Run s (past ++ future) s'' := by
  induction h' with
  | nil => rwa [List.append_nil]
  | snoc _ hn ih =>
    rw [← List.append_assoc]
    exact .snoc ih hn

/-- Every reachable state ends a run from an initial one. -/
theorem Reachable.exists_run (h : S.Reachable s) : ∃ s₀ steps, S.init s₀ ∧ S.Run s₀ steps s := by
  induction h with
  | init hi => exact ⟨_, [], hi, .nil⟩
  | next l _ hn ih =>
    obtain ⟨s₀, steps, hi, hr⟩ := ih
    exact ⟨s₀, _, hi, .snoc hr hn⟩

end TransitionSystem

end TexasPoker
