import TexasPoker.Machine.Queries

/-! # Ending a hand

Collecting and refunding bets, the reset to the next hand, and the award to the last
unfolded player.
-/

namespace TexasPoker

variable {G : Type}

namespace TexasPokerTable

/-- Encrypt the public cards under no key: the fresh deck of a hand. -/
def setInitialEncryptedDeck [AddCommGroup G] [Protocol G] (t : TexasPokerTable G) :
    TexasPokerTable G :=
  let encrypted := CipherDeck.active
    ((Protocol.plaintextCards (G := G)).map fun m => ⟨Protocol.generator, m⟩)
  { t with deckState := { t.deckState with
      encrypted, cardsDealt := 0, ownerReadableHoleCards := .empty } }

/-! ## Stages of the reset -/

/-- The seats that leave at the reset. -/
def leavingSeats (t : TexasPokerTable G) : List (Fin maxSeats) :=
  (List.finRange maxSeats).filter fun i => (t.seats i).isOccupied && t.seatWantsLeave i

/-- Add one seat to the sums of addon credits and of leave refunds. -/
def preflightSeat (t : TexasPokerTable G) (acc : ℕ × ℕ) (i : Fin maxSeats) :
    PokerL1Result (ℕ × ℕ) := do
  let seat := t.seats i
  let totalPendingAddon ←
    if 0 < seat.pendingAddon ∧ seat.isOccupied then do
      ensure (seat.stack + seat.pendingAddon ≤ u64Max)
        (.serialization "reset_for_next_hand: stack += pending_addon overflow")
      checkedAdd acc.1 seat.pendingAddon
        (.serialization "reset_for_next_hand: total pending addon overflow")
    else pure acc.1
  let totalLeaveRefund ←
    if seat.isOccupied ∧ t.seatWantsLeave i then do
      let refund ← checkedAdd seat.stack seat.pendingAddon
        (.serialization "reset_for_next_hand: leave refund overflow")
      checkedAdd acc.2 refund
        (.serialization "reset_for_next_hand: total leave refund overflow")
    else pure acc.2
  return (totalPendingAddon, totalLeaveRefund)

/-- Check the addon credits and the refunds of leaving seats; the chip pool after them. -/
def resetPreflight (t : TexasPokerTable G) : PokerL1Result ℕ := do
  let (_, totalLeaveRefund) ← (List.finRange maxSeats).foldlM t.preflightSeat (0, 0)
  checkedSub t.chipPool totalLeaveRefund
    (.serialization "reset_for_next_hand: leave chip_pool underflow")

/-- Deck contributors of the next hand: every seat with a live key. -/
def liveKeyMask [Zero G] [DecidableEq G] (t : TexasPokerTable G) : SeatMask :=
  maskOf fun i => (t.seats i).pk.any fun pk => pk ≠ 0

/-- The seats to clear: departed ones and occupied ones without chips. -/
def bustedSeats (t : TexasPokerTable G) : List (Fin maxSeats) :=
  (List.finRange maxSeats).filter fun i =>
    (t.seats i).hasLeftHand || ((t.seats i).isOccupied && (t.seats i).stack = 0)

/-- Vacate a slot and drop its contributor bit and leave flag. -/
def vacateSeat (t : TexasPokerTable G) (i : ℕ) : TexasPokerTable G :=
  let mask := seatMaskRemove t.deckState.contributorMask i
  let t := { t with deckState := { t.deckState with contributorMask := mask } }
  (t.setSeat i .empty).setSeatWantsLeave i false

/-- The fields cleared by every reset. -/
def clearHand [AddCommGroup G] [Protocol G] (t : TexasPokerTable G) : TexasPokerTable G :=
  let mask := if t.countActiveOccupied = 0 then 0 else t.deckState.contributorMask
  setInitialEncryptedDeck { t with
    deckState := { t.deckState with contributorMask := mask }
    pot := 0
    communityCards := .empty
    actedMask := 0
    leaveAfterHandMask := 0
    runItTwiceState := .single
    handPhase := .waiting }

end TexasPokerTable

namespace Exec

/-- Credit every pending addon. -/
def mergeAddons (s : Exec G) : Exec G :=
  let credited := (List.finRange maxSeats).filter fun i =>
    (s.table.seats i).isOccupied && 0 < (s.table.seats i).pendingAddon
  ⟨s.table.mapSeats Seat.mergeAddon,
    s.events ++ credited.map fun i =>
      .addonCredited s.table.id i (s.table.seats i).player (s.table.seats i).pendingAddon
        ((s.table.seats i).stack + (s.table.seats i).pendingAddon)⟩

/-- Pay out and vacate one leaving seat. -/
def removeLeaver (s : Exec G) (i : Fin maxSeats) : Exec G :=
  let seat := s.table.seats i
  let refund := seat.stack + seat.pendingAddon
  let events := if 0 < refund then
      s.events ++ [.playerRefund s.table.id i seat.player refund refundTypeStackOnly]
    else s.events
  ⟨s.table.vacateSeat i, events ++ [.playerLeft s.table.id i seat.player]⟩

/-- Vacate one departed or chipless seat. -/
def removeBusted (s : Exec G) (i : Fin maxSeats) : Exec G :=
  ⟨s.table.vacateSeat i, s.events ++ [.playerLeft s.table.id i (s.table.seats i).player]⟩

/-- Prepare every seat for the next hand and rebuild the deck contributors. -/
def prepareSeats [Zero G] [DecidableEq G] (s : Exec G) : Exec G :=
  let t := s.table.mapSeats Seat.refillTimeBank
  let t := { t with
    actedMask := 0
    deckState := { t.deckState with contributorMask := t.liveKeyMask } }
  s.withTable (t.mapSeats Seat.prepareNextHand)

/-- Return to the waiting phase: credit addons, let seats leave, clear the hand. -/
def resetForNextHand [AddCommGroup G] [Protocol G] [DecidableEq G] (s : Exec G) :
    PokerL1Result (Exec G) := do
  let postLeaveChipPool ← s.table.resetPreflight
  let leaving := s.table.leavingSeats
  let s := leaving.foldl removeLeaver s.mergeAddons.prepareSeats
  let s := s.withTable { s.table with chipPool := postLeaveChipPool }
  let s := s.table.bustedSeats.foldl removeBusted s
  return s.withTable s.table.clearHand

/-! ## Collecting and refunding -/

/-- Move every live bet into the pot. -/
def collectBetsToPot (s : Exec G) : PokerL1Result (Exec G) := do
  let total ← checkedSum (List.ofFn fun i => (s.table.seats i).bet)
    (.serialization "collect_bets_to_pot: bet sum overflow")
  let postPot ← checkedAdd s.table.pot total
    (.serialization "collect_bets_to_pot: pot += bets overflow")
  let collected := maskOf fun i => 0 < (s.table.seats i).bet
  let t := { s.table.mapSeats Seat.clearBet with pot := postPot }
  if collected ≠ 0 then
    return (s.withTable t).emit (.potCollected t.id t.roundState t.pot collected)
  else
    return s.withTable t

/-- A seat whose contribution a refund returns. -/
def isRefundable (s : Seat G) : Bool :=
  s.isOccupied && !s.isFolded && !s.hasLeftHand && 0 < s.totalBet

/-- Give a refundable seat its contribution back; clear every contribution. -/
def refundSeat (s : Seat G) : PokerL1Result (Seat G) := do
  let s ←
    if isRefundable s then do
      let postStack ← checkedAdd s.stack s.totalBet
        (.serialization "refund_all_bets: stack += total_bet overflow")
      s.setStack postStack
    else pure s
  let s ← s.setBet 0
  s.setTotalBet 0

/-- Refund the contributions of the unfolded seats and empty the pot. -/
def refundAllBets (s : Exec G) : PokerL1Result (Exec G) := do
  let t ← s.table.mapSeatsM fun _ => refundSeat
  let refunded := (List.finRange maxSeats).filter fun i => isRefundable (s.table.seats i)
  return ⟨{ t with pot := 0 }, s.events ++ refunded.map fun i =>
    .playerRefund s.table.id i (s.table.seats i).player (s.table.seats i).totalBet
      refundTypeBetOnly⟩

/-! ## The last unfolded player -/

/-- The first unfolded seat of the hand. -/
def soleSurvivor (t : TexasPokerTable G) : Option (Fin maxSeats) :=
  (List.finRange maxSeats).find? fun i => (t.seats i).isLive

/-- Award the pot to the first unfolded seat, without rake. -/
def awardSurvivor (s : Exec G) : PokerL1Result (Exec G) :=
  match soleSurvivor s.table with
  | none => return s
  | some winner => do
    let seat := s.table.seats winner
    let pot := s.table.pot
    let postStack ← checkedAdd seat.stack pot
      (.serialization "end_without_showdown: winner stack += pot overflow")
    let paid ← seat.setStack postStack
    let t := { s.table.setSeat winner paid with pot := 0 }
    return (s.withTable t).emit (.handEndedWithoutShowdown t.id winner seat.player pot)

/-- Give the collected pot to the last unfolded player and reset. -/
def endWithoutShowdown [AddCommGroup G] [Protocol G] [DecidableEq G] (s : Exec G) :
    PokerL1Result (Exec G) := do
  let s ← s.collectBetsToPot
  let s ← s.awardSurvivor
  s.resetForNextHand

end Exec

end TexasPoker
