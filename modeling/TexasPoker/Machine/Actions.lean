import TexasPoker.Machine.Submit

/-! # Player actions

Folding, matching and raising, and the fold that also removes the folder's key layer.
-/

namespace TexasPoker

variable {G : Type}

/-- The ordinary betting actions. -/
inductive PlayerAction where
  | fold (reason : ℕ)
  | matchBet
  | raiseTo (totalBet : ℕ)
  deriving DecidableEq, Repr

namespace TexasPokerTable

variable (t : TexasPokerTable G)

/-- Mark a seat as acted and stop the clock. -/
def markActed (seatIndex : ℕ) : PokerL1Result (TexasPokerTable G) :=
  (t.setSeatActedThisRound seatIndex true).disarmBettingDeadline

/-- Everybody able to act, except the raiser, must act again. -/
def reopenAction (seatIndex : ℕ) : TexasPokerTable G :=
  { t with actedMask := (List.finRange maxSeats).foldl (fun mask i =>
      if i.1 ≠ seatIndex ∧ (t.seats i).isActionable then Mask.erase mask i else mask) t.actedMask }

end TexasPokerTable

/-- Pay `amount` from the stack for a live bet of `bet`; an emptied stack is all in when
`allIn` asks for it. -/
def PlayingSeat.wager (p : PlayingSeat G) (amount bet : ℕ) (allIn : Bool) (label : String) :
    PokerL1Result (PlayingSeat G) := do
  let stack ← checkedSub p.occupied.stack amount
    (.serialization s!"stack underflow on {label}")
  let totalBet ← checkedAdd p.totalBet amount (.serialization s!"total_bet overflow on {label}")
  let status := if stack = 0 ∧ allIn then .allIn else p.status
  let occupied := { p.occupied with stack }
  return { p with occupied, bet, totalBet, status }

namespace Exec

variable (s : Exec G)

/-- Fold the seat to act. -/
def foldSeat (seatIndex reason : ℕ) : PokerL1Result (Exec G) := do
  let t := s.table
  ensure (¬ (t.seat seatIndex).isFolded) (.serialization "already folded")
  let t := t.setSeat seatIndex ((t.seat seatIndex).setStatus .folded)
  let t ← t.markActed seatIndex
  return (s.withTable t).emit (.playerFolded t.id seatIndex reason t.roundState)

/-- Check when nothing is owed, else call, all in when the stack is too short. -/
def matchBet (seatIndex : ℕ) : PokerL1Result (Exec G) := do
  let t := s.table
  let round ← orErr t.bettingRound (.serialization "not in betting round")
  let seat := t.seat seatIndex
  ensure (¬ (seat.isFolded ∨ seat.isAllIn)) (.serialization "player inactive")
  if round.currentBet ≤ seat.bet then
    let t ← t.markActed seatIndex
    return (s.withTable t).emit (.playerChecked t.id seatIndex t.roundState)
  else
    let p ← seat.playingMut
    let callAmt := round.processCall p.bet p.occupied.stack
    let bet ← checkedAdd p.bet callAmt (.serialization "bet overflow on call")
    let p ← p.wager callAmt bet (0 < callAmt) "call"
    let t ← (t.setSeat seatIndex (.playing p)).markActed seatIndex
    let s := (s.withTable t).emit (.playerCalled t.id seatIndex callAmt t.roundState)
    if p.occupied.stack = 0 ∧ 0 < callAmt then
      return s.emit (.playerAllIn t.id seatIndex triggerActionCallAllIn callAmt t.roundState)
    else return s

/-- Raise the price to `totalBet`; a full raise reopens the action. -/
def raiseTo (seatIndex totalBet : ℕ) : PokerL1Result (Exec G) := do
  let t := s.table
  let seat := t.seat seatIndex
  match t.handPhase with
  | .betting street round turn deadlineMs =>
    ensure (¬ t.seatActedThisRound seatIndex) (.contractExecutionFailed
      "betting error: action not reopened for acted seat (call or fold only)")
    let (newRound, needed) ← (round.processRaise totalBet seat.bet seat.stack).mapError
      fun e => .contractExecutionFailed s!"betting error: {e.text}"
    let t := { t with handPhase := .betting street newRound turn deadlineMs }
    let p ← seat.playingMut
    let p ← p.wager needed totalBet true "raise"
    let t ← (t.setSeat seatIndex (.playing p)).markActed seatIndex
    let t := if round.minRaise ≤ totalBet - round.currentBet then t.reopenAction seatIndex else t
    let s := (s.withTable t).emit (.playerRaised t.id seatIndex needed totalBet t.roundState)
    if p.occupied.stack = 0 then
      return s.emit (.playerAllIn t.id seatIndex triggerActionRaiseAllIn needed t.roundState)
    else return s
  | _ => throw (.serialization "Texas table is not in an active betting phase")

variable [AddCommGroup G] [Protocol G] [DecidableEq G]

/-- One action of the seat to act; the last unfolded player ends the hand. -/
def applyPlayerAction (seatIndex : ℕ) (action : PlayerAction) : PokerL1Result (Exec G) := do
  let t := s.table
  ensure (seatIndex < t.rules.maxPlayers) (.serialization
    (s!"player action seat_index {seatIndex} out of range " ++
      s!"(max_players={t.rules.maxPlayers})"))
  ensure t.isBettingRound (.serialization "not in betting round")
  ensure (t.isPlayerTurn seatIndex) (.serialization "not player's turn")
  match action with
  | .fold reason =>
    let s ← s.foldSeat seatIndex reason
    if s.table.countActivePlayers ≤ 1 then s.endWithoutShowdown else s.advanceTurn
  | .matchBet =>
    let s ← s.matchBet seatIndex
    s.advanceTurn
  | .raiseTo totalBet =>
    let s ← s.raiseTo seatIndex totalBet
    s.advanceTurn

def applyFold (seatIndex : ℕ) : PokerL1Result (Exec G) :=
  s.applyPlayerAction seatIndex (.fold foldReasonManual)

def applyFoldInternal (seatIndex reason : ℕ) : PokerL1Result (Exec G) :=
  s.applyPlayerAction seatIndex (.fold reason)

def applyCheck (seatIndex : ℕ) : PokerL1Result (Exec G) := do
  let round ← orErr s.table.bettingRound (.serialization "not in betting round")
  ensure (seatIndex < maxSeats) (.serialization "seat index out of range")
  ensure (round.currentBet ≤ (s.table.seat seatIndex).bet)
    (.serialization "cannot check: bet < current_bet")
  s.applyPlayerAction seatIndex .matchBet

def applyCall (seatIndex : ℕ) : PokerL1Result (Exec G) := do
  let round ← orErr s.table.bettingRound (.serialization "not in betting round")
  ensure (seatIndex < maxSeats) (.serialization "seat index out of range")
  ensure ((s.table.seat seatIndex).bet < round.currentBet)
    (.serialization "cannot call when no chips are owed; use check")
  s.applyPlayerAction seatIndex .matchBet

def applyRaise (seatIndex totalBet : ℕ) : PokerL1Result (Exec G) :=
  s.applyPlayerAction seatIndex (.raiseTo totalBet)

/-- The first bet of a street after the flop. -/
def applyBet (seatIndex amount : ℕ) : PokerL1Result (Exec G) := do
  let t := s.table
  ensure t.isBettingRound (.serialization "bet: not in betting round")
  ensure (t.isPlayerTurn seatIndex) (.serialization "bet: not player's turn")
  ensure (amount ≠ 0) (.serialization "bet: amount must > 0")
  ensure (t.roundState ≠ roundPreflop)
    (.serialization "bet: not allowed in preflop, use raise instead")
  let currentBet := t.bettingRound.elim 0 BettingRound.currentBet
  let seatBet := (t.seat seatIndex).bet
  ensure (currentBet ≤ seatBet) (.serialization
    s!"bet: current_bet {currentBet} > seat_bet {seatBet}, 应使用 call/raise")
  let totalBet ← checkedAdd seatBet amount (.serialization "bet: total_bet overflow")
  let s ← s.applyRaise seatIndex totalBet
  return s.emit (.playerBet s.table.id seatIndex amount s.table.roundState)

/-! ## Folding out of the deck -/

/-- The deck slots of a seat's own cards in the active reveal. -/
def ownRevealSlots (t : TexasPokerTable G) (seatIndex : ℕ) : List ℕ :=
  t.revealAssignments.filterMap fun a =>
    match a.target with
    | .hole owner _ => if owner = seatIndex then some a.encryptedCardIndex else none
    | .board .. => none

/-- The entries outside the excluded positions. -/
def dropSlots (excluded : List ℕ) (cards : List (ElGamalCiphertext G)) :
    List (ElGamalCiphertext G) :=
  (cards.zipIdx.filter fun (_, i) => i ∉ excluded).map Prod.fst

/-- Fold and take the own key layer off the deck. -/
def applyFoldWithProof (seatIndex : ℕ) (outputCards : List (ElGamalCiphertext G))
    (foldProof : Protocol.LeaveProof G) : PokerL1Result (Exec G) := do
  let t := s.table
  ensure t.isBettingRound (.serialization "fold_with_proof: not in betting round")
  ensure (t.isPlayerTurn seatIndex) (.serialization
    s!"fold_with_proof: not seat {seatIndex}'s turn (current_turn={t.currentTurn})")
  ensure (seatIndex < t.rules.maxPlayers) (.serialization
    (s!"fold_with_proof: seat_index {seatIndex} out of range " ++
      s!"(max_players={t.rules.maxPlayers})"))
  let seat := t.seat seatIndex
  ensure seat.isOccupied
    (.serialization s!"fold_with_proof: seat {seatIndex} not occupied")
  ensure (¬ seat.isFolded)
    (.serialization s!"fold_with_proof: seat {seatIndex} already folded")
  let inputCards := t.deckState.encrypted.toVec
  let playerPk ← orErr seat.pk (.serialization "fold seat has no live key")
  let excluded := ownRevealSlots t seatIndex
  excluded.forM fun i => do
    ensure (i < outputCards.length)
      (.serialization s!"fold_with_proof: excluded slot {i} out of range")
    ensure (outputCards[i]? = inputCards[i]?) (.serialization
      s!"fold_with_proof: own hole card slot {i} must stay unchanged (anti-reveal rule)")
  ensure (Protocol.verifyLeave foldProof (dropSlots excluded inputCards)
      (dropSlots excluded outputCards) playerPk)
    (.serialization "fold_with_proof: proof verify failed")
  let t ← t.removeDeckContributor seatIndex
  let encrypted ← CipherDeck.tryFrom outputCards
  let t := { t with deckState := { t.deckState with encrypted } }
  let t := t.setSeat seatIndex (seat.setStatus .folded)
  let t ← t.markActed seatIndex
  let s := (s.withTable t).emit (.playerFolded t.id seatIndex foldReasonManual t.roundState)
  if s.table.countActivePlayers ≤ 1 then s.endWithoutShowdown else s.advanceTurn

end Exec

end TexasPoker
