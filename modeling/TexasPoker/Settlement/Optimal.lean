import TexasPoker.Poker.Standard
import TexasPoker.Settlement.Totality

/-! # Fair settlements

The plan of a showdown pays the best hands: each runout of a layer is split evenly among the
eligible seats of greatest rank, odd chips go clockwise from the button, and the rake stays
below its rate and its cap.
-/

namespace TexasPoker

open SidePot SettlementPlan

namespace TexasPokerTable

variable {G : Type} {t : TexasPokerTable G} {mask : SeatMask} {board : List Card}

/-! ## The best hands -/

/-- The rank of a seat's cards on a board. -/
def handRank (t : TexasPokerTable G) (board : List Card) (i : ℕ) : HandRank :=
  HandRank.evaluateBest (((t.seat i).hand.getD .empty).cards ++ board)

/-- After some seats the winners are the eligible ones of the best rank. -/
structure Ranking.Leads (t : TexasPokerTable G) (mask : SeatMask) (board : List Card)
    (ranked : List ℕ) (r : Ranking) : Prop where
  winners : ∀ j, Mask.mem r.winnerMask j = true ↔
    (j ∈ ranked ∧ Mask.mem mask j = true) ∧ r.best = some (t.handRank board j)
  bound : ∀ j ∈ ranked, Mask.mem mask j = true → ∃ best ∈ r.best, t.handRank board j ≤ best
  attained : ∀ best ∈ r.best, ∃ j ∈ ranked, Mask.mem mask j = true ∧ t.handRank board j = best

section Rank

variable {ranked : List ℕ} {r : Ranking} {i : ℕ} {ranks : Fin maxSeats → Option HandRank}

/-- A first or better hand wins alone. -/
theorem Ranking.Leads.ahead (h : r.Leads t mask board ranked) (hi : i < 16)
    (hm : Mask.mem mask i = true) (hlt : ∀ best ∈ r.best, best < t.handRank board i) :
    Ranking.Leads t mask board (ranked ++ [i]) ⟨some (t.handRank board i), seatMaskBit i, ranks⟩ where
  winners j := by
    simp only [seatMaskBit, Mask.mem_single, decide_eq_true_eq, List.mem_append,
      List.mem_singleton, Option.some.injEq]
    constructor
    · rintro ⟨-, rfl⟩
      exact ⟨⟨.inr rfl, hm⟩, rfl⟩
    · rintro ⟨⟨hj | rfl, hmj⟩, heq⟩
      · obtain ⟨best, hbest, hle⟩ := h.bound j hj hmj
        exact absurd (heq ▸ hle) (not_le.mpr (hlt best hbest))
      · exact ⟨hi, rfl⟩
  bound j hj hmj := by
    refine ⟨_, rfl, ?_⟩
    rcases List.mem_append.mp hj with hj | hj
    · obtain ⟨best, hbest, hle⟩ := h.bound j hj hmj
      exact hle.trans (hlt best hbest).le
    · rw [List.mem_singleton.mp hj]
  attained best hbest := by
    cases hbest
    exact ⟨i, by simp, hm, rfl⟩

/-- An equal hand joins the winners. -/
theorem Ranking.Leads.join (h : r.Leads t mask board ranked) (hi : i < 16)
    (hm : Mask.mem mask i = true) (hbest : r.best = some (t.handRank board i)) :
    Ranking.Leads t mask board (ranked ++ [i])
      ⟨r.best, Mask.insert r.winnerMask i, ranks⟩ where
  winners j := by
    rw [Mask.mem_insert hi, Bool.or_eq_true, decide_eq_true_eq, h.winners]
    simp only [List.mem_append, List.mem_singleton]
    constructor
    · rintro (⟨⟨hj, hmj⟩, heq⟩ | rfl)
      · exact ⟨⟨.inl hj, hmj⟩, heq⟩
      · exact ⟨⟨.inr rfl, hm⟩, hbest⟩
    · rintro ⟨⟨hj | rfl, hmj⟩, heq⟩
      · exact .inl ⟨⟨hj, hmj⟩, heq⟩
      · exact .inr rfl
  bound j hj hmj := by
    rcases List.mem_append.mp hj with hj | hj
    · exact h.bound j hj hmj
    · rw [List.mem_singleton.mp hj]
      exact ⟨_, hbest, le_rfl⟩
  attained best hb := by
    obtain ⟨j, hj, hmj⟩ := h.attained best hb
    exact ⟨j, List.mem_append_left _ hj, hmj⟩

end Rank

end TexasPokerTable

/-! ## Even shares -/

section Shares

variable {amount button n : ℕ} {mask : SeatMask} {a : SeatAmounts}

end Shares

/-! ## Rake -/

/-- The chips of the layers that several seats may win. -/
def contestedGross (pots : List SidePot) : ℕ :=
  ((pots.filter fun pot => 2 ≤ seatMaskCount pot.eligibleSeats).map SidePot.amount).sum

namespace SettlementBoards

/-- The cards of all boards, the shared ones once. -/
def cards (b : SettlementBoards) : List Card := b.board1 ++ b.board2.drop b.sharedBoardLen

end SettlementBoards

namespace TexasPokerTable

variable {G : Type} {t : TexasPokerTable G} {boards : SettlementBoards}

/-- A player of the hand who has neither folded nor left. -/
def IsUnfolded (t : TexasPokerTable G) (i : Fin maxSeats) : Prop :=
  (t.seats i).isOccupied = true ∧ (t.seats i).isFolded = false ∧ (t.seats i).hasLeftHand = false

instance (t : TexasPokerTable G) (i : Fin maxSeats) : Decidable (t.IsUnfolded i) :=
  inferInstanceAs (Decidable (_ ∧ _))

/-- The cards of the unfolded seats. -/
def holeCards (t : TexasPokerTable G) (l : List (Fin maxSeats)) : List Card :=
  l.flatMap fun i => if t.IsUnfolded i then ((t.seats i).hand.getD .empty).cards else []

end TexasPokerTable

/-! ## Fair plans -/

/-- The layers of a plan. -/
def SettlementPlan.layers (plan : SettlementPlan) : List SidePot :=
  plan.activePots.map fun pot => ⟨pot.grossAmount, pot.eligibleMask⟩

/-- The best eligible seats win each paid runout and share it evenly, odd chips going clockwise
from the button; the rake is below its rate and its cap, and a layer of one seat is returned. -/
structure SettlementPlan.Fair {G : Type} (t : TexasPokerTable G) (boards : SettlementBoards)
    (plan : SettlementPlan) : Prop where
  layers : calculateSidePots t.contributions = .ok (ofActive plan.layers)
  winners : ∀ pot ∈ plan.activePots, ∀ r : Fin 2, r.1 < pot.activeRunouts boards.schedule →
    ∀ i : Fin maxSeats, Mask.mem (pot.runouts r).winnerMask i = true ↔
      Mask.mem pot.eligibleMask i = true ∧ ∀ j : Fin maxSeats, Mask.mem pot.eligibleMask j = true →
        t.handRank (boards.board r) j ≤ t.handRank (boards.board r) i
  even : ∀ pot ∈ plan.activePots, ∀ r, ∀ i j : Fin maxSeats,
    Mask.mem (pot.runouts r).winnerMask i = true → Mask.mem (pot.runouts r).winnerMask j = true →
      lap t.button t.rules.maxPlayers i < lap t.button t.rules.maxPlayers j →
        (pot.runouts r).awards j ≤ (pot.runouts r).awards i ∧
          (pot.runouts r).awards i ≤ (pot.runouts r).awards j + 1
  paid : ∀ pot ∈ plan.activePots, ∀ r, ∀ i : Fin maxSeats,
    Mask.mem (pot.runouts r).winnerMask i = false → (pot.runouts r).awards i = 0
  total : ∀ pot ∈ plan.activePots, pot.awards.sum + pot.rake = pot.grossAmount
  rake : plan.rake ≤
    min t.rules.rakeCap (contestedGross plan.layers * t.rules.rakeBps / 10000)
  returned : ∀ pot ∈ plan.activePots, seatMaskCount pot.eligibleMask = 1 →
    ∀ i : Fin maxSeats, Mask.mem pot.eligibleMask i = true →
      pot.rake = 0 ∧ pot.awards i = pot.grossAmount

namespace TexasPokerTable

variable {G : Type} {t : TexasPokerTable G} {boards : SettlementBoards} {pot : SettlementPotPlan}
  {side : SidePot} {rake index : ℕ}

end TexasPokerTable

end TexasPoker
