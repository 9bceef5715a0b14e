import TexasPoker.Core.Phase

/-! # Betting rounds

Prices and raises of one betting round.
-/

namespace TexasPoker

/-- Why a raise is refused. -/
inductive BettingError where
  | invalidRaiseAmount
  | cannotRaise
  deriving DecidableEq, Repr

namespace BettingError

/-- The message of a betting error. -/
def text : BettingError → String
  | .invalidRaiseAmount => "invalid raise amount"
  | .cannotRaise => "cannot raise: insufficient stack"

end BettingError

namespace BettingRound

/-- A round whose smallest raise is the big blind. -/
def new (bigBlind currentBet : ℕ) : BettingRound := ⟨currentBet, bigBlind⟩

def chipsToCall (r : BettingRound) (seatBet : ℕ) : ℕ := r.currentBet - seatBet

/-- Chips a call takes; a short stack goes all in. -/
def processCall (r : BettingRound) (seatBet stack : ℕ) : ℕ := min (r.chipsToCall seatBet) stack

/-- The round after a raise to `totalBet` and the chips it takes. A full raise sets the
smallest raise; an all-in below it only lifts the price. -/
def processRaise (r : BettingRound) (totalBet seatBet stack : ℕ) :
    Except BettingError (BettingRound × ℕ) := do
  ensure (r.currentBet < totalBet ∧ seatBet < totalBet) .invalidRaiseAmount
  let raiseAmount := totalBet - r.currentBet
  let needed := totalBet - seatBet
  ensure (needed ≤ stack) .cannotRaise
  if r.minRaise ≤ raiseAmount then
    return (⟨totalBet, raiseAmount⟩, needed)
  else
    ensure (needed = stack) .invalidRaiseAmount
    return (⟨totalBet, r.minRaise⟩, needed)

theorem processCall_le_stack (r : BettingRound) (seatBet stack : ℕ) :
    r.processCall seatBet stack ≤ stack := min_le_right _ _

/-- An accepted raise lifts the price to the raiser's bet and takes the difference from
the stack. -/
theorem processRaise_eq_ok {r r' : BettingRound} {totalBet seatBet stack needed : ℕ}
    (h : r.processRaise totalBet seatBet stack = .ok (r', needed)) :
    r.currentBet < totalBet ∧ seatBet < totalBet ∧ r'.currentBet = totalBet ∧
      needed = totalBet - seatBet ∧ needed ≤ stack ∧
      ((r.minRaise ≤ totalBet - r.currentBet ∧ r'.minRaise = totalBet - r.currentBet) ∨
        (totalBet - r.currentBet < r.minRaise ∧ needed = stack ∧ r'.minRaise = r.minRaise)) := by
  simp only [processRaise, Fallible.bind_eq_ok, Fallible.ensure_eq_ok] at h
  obtain ⟨-, ⟨hc, hs⟩, -, hn, h⟩ := h
  split at h
  · rename_i hm
    cases h
    exact ⟨hc, hs, rfl, rfl, hn, .inl ⟨hm, rfl⟩⟩
  · rename_i hm
    simp only [Fallible.bind_eq_ok, Fallible.ensure_eq_ok] at h
    obtain ⟨-, ha, h⟩ := h
    cases h
    exact ⟨hc, hs, rfl, rfl, hn, .inr ⟨not_le.mp hm, ha, rfl⟩⟩

end BettingRound

end TexasPoker
