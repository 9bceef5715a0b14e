import TexasPoker.Machine.Actions

/-! # Seat management

Kicks, funding, leave requests, time banks, and the opening, joining and leaving of a
table.
-/

namespace TexasPoker

variable {G : Type} [AddCommGroup G] [Protocol G] [DecidableEq G]

namespace Exec

variable (s : Exec G)

/-! ## Kicks -/

/-- Remove a player from its seat and from the active phase; the live bet stays in the
pot. -/
def kickSeatRaw (seatIndex : ℕ) (reason : KickCause) : PokerL1Result (Exec G) := do
  let t := s.table
  ensure (seatIndex < t.rules.maxPlayers) (.serialization
    (s!"kick_player: seat_index {seatIndex} out of range " ++
      s!"(max_players={t.rules.maxPlayers})"))
  let seat := t.seat seatIndex
  if !seat.isOccupied then
    return s
  else
    let refundAmt ← checkedAdd seat.stack seat.pendingAddon
      (.serialization "kick_player: refund overflow")
    let pot ← checkedAdd t.pot seat.bet (.serialization "kick_player: pot overflow")
    let chipPool ← checkedSub t.chipPool refundAmt
      (.serialization "kick_player: chip_pool underflow")
    let departed ← seat.departThisHand
    let t := ({ t with pot }).setSeat seatIndex departed
    let t := (t.setSeatActedThisRound seatIndex false).setSeatWantsLeave seatIndex false
    let contributorMask := seatMaskRemove t.deckState.contributorMask seatIndex
    let t := { t with deckState := { t.deckState with contributorMask } }
    let s := s.withTable t
    let s :=
      if 0 < refundAmt then
        (s.withTable { t with chipPool }).emit
          (.playerRefund t.id seatIndex seat.player refundAmt refundTypeStackOnly)
      else s
    let t ← s.table.removeSeatFromActivePhase seatIndex
    return (s.withTable t).emit (.playerKicked t.id seatIndex seat.player reason)

/-- End or reset a hand with fewer than two unfolded players. -/
def closeShortHand : PokerL1Result (Exec G) := do
  let active := s.table.countActivePlayers
  if active < minPlayersToStart then
    if active = 1 ∧ s.table.isBettingRound then s.endWithoutShowdown else s.resetForNextHand
  else return s

/-- Kick a player and run what follows: the next shuffler, the next turn, the end of a
hand without enough players. -/
def kickPlayerInternal (seatIndex : ℕ) (reason : KickCause) : PokerL1Result (Exec G) := do
  let wasCurrentShuffler := s.table.shuffleState.derivedCurrentShuffler = seatIndex
  let wasCurrentTurn := s.table.currentTurn = seatIndex ∧ s.table.isBettingRound
  let s ← s.kickSeatRaw seatIndex reason
  let s ←
    if wasCurrentShuffler ∧ s.table.shufflePhase ≠ shufflePhaseNone then s.advanceShuffle
    else pure s
  if wasCurrentTurn ∧ s.table.isBettingRound then
    if s.table.countActivePlayers ≤ 1 then s.endWithoutShowdown
    else
      let s ← s.advanceTurn
      s.closeShortHand
  else s.closeShortHand

end Exec

/-! ## Funding and flags -/

/-- When a funding takes effect. -/
inductive FundTiming where
  | nextHand
  | immediate
  deriving DecidableEq, Repr

/-- The command name of a funding. -/
def FundTiming.label : FundTiming → String
  | .nextHand => "addon"
  | .immediate => "rebuy"

namespace Exec

variable (s : Exec G)

omit [AddCommGroup G] [Protocol G] [DecidableEq G]

/-- Add chips to a seat, into its addon or straight into its stack. -/
def applyFundSeat (seatIndex amount : ℕ) (timing : FundTiming) : PokerL1Result (Exec G) := do
  let t := s.table
  let label := timing.label
  ensure (seatIndex < t.rules.maxPlayers) (.serialization
    (s!"{label}: seat_index {seatIndex} out of range " ++
      s!"(max_players={t.rules.maxPlayers})"))
  ensure (amount ≠ 0) (.serialization s!"{label}: amount must > 0")
  let seat := t.seat seatIndex
  ensure seat.isOccupied (.serialization s!"{label}: seat {seatIndex} not occupied")
  let chipPool ← checkedAdd t.chipPool amount
    (.serialization s!"{label}: total chips overflow")
  ensure (chipPool ≤ maxTotalBet) (.serialization
    s!"{label}: total chips {chipPool} exceeds MAX_TOTAL_BET {maxTotalBet}")
  match timing with
  | .nextHand =>
    let pendingAfter ← checkedAdd seat.pendingAddon amount
      (.serialization "addon: pending_addon overflow")
    let funded ← seat.setPendingAddon pendingAfter
    let t := { t.setSeat seatIndex funded with chipPool }
    return (s.withTable t).emit
      (.addonRequested t.id seatIndex seat.player amount pendingAfter)
  | .immediate =>
    let stackAfter ← checkedAdd seat.stack amount (.serialization "rebuy: stack overflow")
    let funded ← seat.setStack stackAfter
    let t := { t.setSeat seatIndex funded with chipPool }
    return (s.withTable t).emit (.rebuyProcessed t.id seatIndex seat.player amount stackAfter)

def applyAddon (seatIndex amount : ℕ) : PokerL1Result (Exec G) :=
  s.applyFundSeat seatIndex amount .nextHand

def applyRebuy (seatIndex amount : ℕ) : PokerL1Result (Exec G) :=
  s.applyFundSeat seatIndex amount .immediate

/-- Ask to leave after the hand, or withdraw the request. -/
def applySetLeaveAfterHand (seatIndex : ℕ) (wantLeave : Bool) : PokerL1Result (Exec G) := do
  let t := s.table
  ensure (seatIndex < t.rules.maxPlayers) (.serialization
    (s!"set_leave_after_hand: seat_index {seatIndex} out of range " ++
      s!"(max_players={t.rules.maxPlayers})"))
  ensure (t.seat seatIndex).isOccupied
    (.serialization s!"set_leave_after_hand: seat {seatIndex} not occupied")
  if t.seatWantsLeave seatIndex = wantLeave then
    return s
  else
    return (s.withTable (t.setSeatWantsLeave seatIndex wantLeave)).emit
      (.leaveRequested t.id seatIndex (t.seat seatIndex).player wantLeave)

/-- Spend part of a seat's time bank. -/
def consumeTimeBank (seatIndex consumedMs : ℕ) : PokerL1Result (Exec G) := do
  let t := s.table
  ensure (seatIndex < t.rules.maxPlayers)
    (.serialization s!"consume_time_bank: seat_index {seatIndex} out of range")
  let seat := t.seat seatIndex
  ensure seat.isOccupied
    (.serialization s!"consume_time_bank: seat {seatIndex} not occupied")
  ensure (consumedMs ≤ seat.timeBankMs) (.serialization
    (s!"consume_time_bank: time_bank_ms {seat.timeBankMs} < consumed_ms " ++
      s!"{consumedMs}"))
  let remainingMs := seat.timeBankMs - consumedMs
  let t := t.setSeat seatIndex (seat.setTimeBankMs remainingMs)
  return (s.withTable t).emit (.timeBankConsumed t.id seatIndex consumedMs remainingMs)

end Exec

/-! ## Opening, joining and leaving a table -/

/-- Replace the table by a fresh one under new rules. -/
def TexasPokerTable.applyCreateTable (t : TexasPokerTable G) (creator : Address)
    (maxPlayers smallBlind bigBlind ritMode : ℕ) : PokerL1Result (TexasPokerTable G) := do
  ensure (2 ≤ maxPlayers ∧ maxPlayers ≤ 9)
    (.serialization s!"max_players {maxPlayers} out of range [2, 9]")
  ensure (bigBlind ≠ 0) (.serialization "big_blind must > 0")
  ensure (smallBlind ≤ bigBlind) (.serialization "small_blind must <= big_blind")
  ensure (ritMode = ritModeDisabled ∨ ritMode = ritModeTwice)
    (.serialization s!"create_table: rit_mode {ritMode} is not canonical")
  let fresh : TexasPokerTable G := .new t.id creator maxPlayers smallBlind bigBlind
  return { fresh with rules := { fresh.rules with ritMode } }

namespace Exec

variable (s : Exec G)

/-- Seat a new waiting player with its buy-in and key. -/
def applyJoinTable (player : Address) (buyIn : ℕ) (pk : G) (txPk : TaggedPubkey)
    (pkOwnershipProof : Bytes) : PokerL1Result (Exec G) := do
  let t := s.table
  ensure t.canJoinState (.serialization "not in WAITING state, cannot join_table")
  ensure (pk ≠ 0) (.serialization "join_table public key cannot be identity")
  ensure (verifyPkOwnership pk pkOwnershipProof)
    (.serialization "join_table PK ownership proof verification failed")
  ensure (¬ t.isPkRegistered pk) (.serialization "pk already registered at this table")
  let chipPool ← checkedAdd t.chipPool buyIn
    (.serialization "chip_pool overflow on join_table")
  ensure (chipPool ≤ maxTotalBet) (.serialization
    s!"join_table chip_pool {chipPool} exceeds MAX_TOTAL_BET {maxTotalBet}")
  let seatIndex ← orErr t.findEmptySeat (.serialization "no empty seat available")
  let t := (t.setSeatActedThisRound seatIndex false).setSeatWantsLeave seatIndex false
  let seat ← Seat.newOccupied player buyIn pk txPk .waiting
  let t := { t.setSeat seatIndex seat with chipPool }
  let t ← t.addDeckContributor seatIndex
  return (s.withTable t).emit
    (.playerJoined t.id seatIndex player buyIn true t.countActiveOccupied)

/-- Pay a player out and vacate the seat. -/
def applyLeaveTable (seatIndex : ℕ) : PokerL1Result (Exec G) := do
  let t := s.table
  ensure t.canLeaveState (.serialization "not in WAITING state, cannot leave_table")
  let seat := t.seat seatIndex
  ensure seat.isOccupied (.serialization "seat not occupied, cannot leave")
  let refundAmt ← checkedAdd seat.stack seat.pendingAddon
    (.serialization "leave_table refund overflow")
  let chipPool ← checkedSub t.chipPool refundAmt
    (.serialization "leave_table chip_pool underflow")
  let t := if 0 < refundAmt then { t with chipPool } else t
  let t := t.setSeat seatIndex .empty
  let t ← t.removeDeckContributor seatIndex
  let s := s.withTable t
  let s :=
    if 0 < refundAmt then
      s.emit (.playerRefund t.id seatIndex seat.player refundAmt refundTypeStackOnly)
    else s
  return s.emit (.playerLeft t.id seatIndex seat.player)

end Exec

end TexasPoker
