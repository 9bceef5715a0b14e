import TexasPoker.Machine.Reset
import TexasPoker.Settlement.Derive
import TexasPoker.Settlement.Encoding

/-! # Settling a hand

Applying a settlement plan to the table, and the settlement of a showdown.
-/

namespace TexasPoker

variable {G : Type} [AddCommGroup G] [Protocol G] [DecidableEq G]

namespace TexasPokerTable

/-- The boards of the hand, two when it is run twice. -/
def settlementBoards (t : TexasPokerTable G) : PokerL1Result SettlementBoards :=
  match t.runItTwiceState with
  | .single => .ok (.single t.communityCards.cards)
  | .twice start _ => do
    let secondBoard ← t.runItTwiceState.fullSecondBoard t.communityCards
    return .twice start t.communityCards.cards secondBoard

/-- Pay every seat its award. -/
def payAwards (t : TexasPokerTable G) (awards : SeatAmounts) :
    PokerL1Result (TexasPokerTable G) := do
  (List.finRange maxSeats).forM fun i => ensure ((t.seats i).stack + awards i ≤ u64Max)
    (.serialization s!"settlement: seat {i.1} stack award overflow")
  t.mapSeatsM fun i seat => seat.setStack (seat.stack + awards i)

/-- The awards of one runout as events. -/
def awardEvents (t : TexasPokerTable G) (pot : SettlementPotPlan) (runout : RunoutPotPlan) :
    List TexasPokerEvent :=
  ((List.finRange maxSeats).filter fun i =>
      i.1 < t.rules.maxPlayers ∧ runout.awards i ≠ 0).map fun i : Fin maxSeats =>
    .winnerAwarded t.id i (t.seats i).player (runout.awards i)
      (if pot.potIndex = 0 then potTypeMain else potTypeSide)
      ((runout.ranks i).map HandRank.category)

end TexasPokerTable

namespace Exec

variable (s : Exec G)

/-- Move the chips a plan prescribes: awards to the stacks, rake out of the pool. -/
def applySettlementPlan (plan : SettlementPlan) : PokerL1Result (Exec G) := do
  plan.validate s.table.rules.maxPlayers
  ensure (s.table.pot = plan.grossPot) (.serialization
    (s!"settlement: plan gross pot {plan.grossPot} does not match table pot " ++
      s!"{s.table.pot}"))
  let chipPool ← checkedSub s.table.chipPool plan.rake
    (.serialization "settlement: rake exceeds TableVault")
  let t ← s.table.payAwards plan.awards
  let t := { t with chipPool, pot := 0 }
  let planDigest := Protocol.blake2b256 (G := G) plan.digestInput
  let s := (s.withTable t).emit (.settlementPlanCommitted t.id planDigest plan.schedule.count
    plan.grossPot plan.rake plan.totalAwards)
  let s :=
    if 0 < plan.rake then
      s.emit (.rakeCollected t.id plan.grossPot plan.rake plan.totalAwards t.rules.rakeMode)
    else s
  let awarded := plan.activePots.flatMap fun pot =>
    ((List.ofFn pot.runouts).take plan.schedule.count).flatMap (t.awardEvents pot)
  return (⟨s.table, s.events ++ awarded⟩ : Exec G).emit
    (.handSettled t.id plan.grossPot plan.winnerMask)

/-- Derive and apply the showdown's plan and start over. -/
def settleHand : PokerL1Result (Exec G) := do
  if s.table.roundState ≠ roundShowdown then
    return s
  else if s.table.revealTokenState.isSome then
    return s
  else
    let boards ← s.table.settlementBoards
    let plan ← s.table.deriveSettlementPlanForBoards boards
    let s ← s.applySettlementPlan plan
    s.resetForNextHand

end Exec

end TexasPoker
