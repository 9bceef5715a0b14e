import Mathlib.Order.Monotone.Basic
import TexasPoker.Lib.Transition

/-! # Endless runs

A goal is reached along every endless run on which the steps towards it keep coming.
-/

namespace TexasPoker.TransitionSystem

universe u v

variable {σ : Type u} {ℓ : Type v}

/-- A run that never ends. -/
structure Execution (S : TransitionSystem σ ℓ) where
  state : ℕ → σ
  label : ℕ → ℓ
  init : S.init (state 0)
  next : ∀ n, S.next (state n) (label n) (state (n + 1))

/-- No step raises the rank, and each step that works lowers it. -/
structure Variant (S : TransitionSystem σ ℓ) (rank : σ → ℕ) (works : σ → ℓ → Prop) : Prop where
  le : ∀ s l s', S.Reachable s → S.next s l s' → rank s' ≤ rank s
  lt : ∀ s l s', S.Reachable s → S.next s l s' → works s l → rank s' < rank s

namespace Execution

variable {S : TransitionSystem σ ℓ} (x : S.Execution) {rank : σ → ℕ} {works : σ → ℓ → Prop}
  {goal : σ → Prop}

theorem reachable (n : ℕ) : S.Reachable (x.state n) := by
  induction n with
  | zero => exact .init x.init
  | succ n ih => exact .next _ ih (x.next n)

/-- Before the goal a step that works is always still to come. -/
def Fair (works : σ → ℓ → Prop) (goal : σ → Prop) : Prop :=
  ∀ n, ¬ goal (x.state n) → ∃ m ≥ n, works (x.state m) (x.label m)

variable {x}

theorem antitone_rank (hv : S.Variant rank works) : Antitone fun n => rank (x.state n) :=
  antitone_nat_of_succ_le fun n => hv.le _ _ _ (x.reachable n) (x.next n)

/-- The rank cannot fall for ever. -/
theorem Fair.eventually (hfair : x.Fair works goal) (hv : S.Variant rank works) (n : ℕ) :
    ∃ m ≥ n, goal (x.state m) := by
  induction hrank : rank (x.state n) using Nat.strong_induction_on generalizing n with
  | _ r ih =>
    by_cases hgoal : goal (x.state n)
    · exact ⟨n, le_rfl, hgoal⟩
    · obtain ⟨m, hnm, hworks⟩ := hfair n hgoal
      have hlower := hv.lt _ _ _ (x.reachable m) (x.next m) hworks
      have hbefore : rank (x.state m) ≤ rank (x.state n) := antitone_rank hv hnm
      obtain ⟨k, hmk, hk⟩ := ih _ (hrank ▸ hlower.trans_le hbefore) (m + 1) rfl
      exact ⟨k, by omega, hk⟩

end Execution

end TexasPoker.TransitionSystem
