import TexasPoker.Core.SeatMask

/-! # Events

The events a transition emits, with the payloads of the source.
-/

namespace TexasPoker

/-- Why a player was removed. -/
inductive KickCause where
  | timeout
  | admin
  | reconstructTimeout
  deriving DecidableEq, Repr

inductive TexasPokerEvent where
  | playerJoined (tableId : ObjectID) (seatIndex : ℕ) (player : Address) (buyIn : ℕ)
      (isWaiting : Bool) (activeCountAfter : ℕ)
  | playerLeft (tableId : ObjectID) (seatIndex : ℕ) (player : Address)
  | leaveRequested (tableId : ObjectID) (seatIndex : ℕ) (player : Address) (wantLeave : Bool)
  | handStarted (tableId : ObjectID) (button smallBlind bigBlind : ℕ) (participants : SeatMask)
  | blindsPosted (tableId : ObjectID) (sbSeat bbSeat sbAmount bbAmount firstToAct : ℕ)
  | bettingRoundStarted (tableId : ObjectID)
      (roundState currentBet minRaise firstToAct potBefore : ℕ)
  | roundAdvanced (tableId : ObjectID) (fromRound toRound pot communityCardsCount : ℕ)
  | potCollected (tableId : ObjectID) (roundState potAfter : ℕ) (collectedFromSeats : SeatMask)
  | winnerAwarded (tableId : ObjectID) (seatIndex : ℕ) (player : Address) (amount potType : ℕ)
      (handRank : Option ℕ)
  | handSettled (tableId : ObjectID) (pot : ℕ) (winners : SeatMask)
  | handEndedWithoutShowdown (tableId : ObjectID) (winnerSeat : ℕ) (winnerPlayer : Address)
      (pot : ℕ)
  | handReset (tableId : ObjectID) (reason roundState : ℕ)
  | playerFolded (tableId : ObjectID) (seatIndex reason roundState : ℕ)
  | playerChecked (tableId : ObjectID) (seatIndex roundState : ℕ)
  | playerCalled (tableId : ObjectID) (seatIndex callDelta roundState : ℕ)
  | playerRaised (tableId : ObjectID) (seatIndex raiseDelta totalBet roundState : ℕ)
  | playerAllIn (tableId : ObjectID) (seatIndex triggerAction amount roundState : ℕ)
  | shuffleVerified (tableId : ObjectID) (seatIndex : ℕ) (player : Address)
  | shuffleTurn (tableId : ObjectID) (seatIndex pendingCount completedCount : ℕ)
  | shuffleComplete (tableId : ObjectID) (phase participantCount deckSize : ℕ)
  | shuffleTimeout (tableId : ObjectID) (seatIndex phase startedAt timeoutMs : ℕ)
  | revealPhase (tableId : ObjectID) (phase : ℕ)
  | revealTokenSubmitted (tableId : ObjectID) (seatIndex cardIndex phase : ℕ)
  | revealPhaseComplete (tableId : ObjectID) (phase : ℕ)
  | revealTimeout (tableId : ObjectID) (phase : ℕ) (pendingPlayers : SeatMask)
  | communityCardRevealed (tableId : ObjectID) (phase : ℕ)
      (cardIndices cardRanks cardSuits : List ℕ) (cardCount : ℕ)
  | showdownHoleCardsRevealed (tableId : ObjectID) (seatIndex : ℕ) (player : Address)
      (cardIndices cardRanks cardSuits : List ℕ)
  | reconstructInitiated (tableId : ObjectID) (expectedPlayers : SeatMask) (roundState : ℕ)
  | reconstructDeckSubmitted (tableId : ObjectID) (seatIndex : ℕ)
  | reconstructComplete (tableId : ObjectID)
  | reconstructTimeout (tableId : ObjectID) (pendingPlayers : SeatMask)
  | playerKicked (tableId : ObjectID) (seatIndex : ℕ) (player : Address) (reason : KickCause)
  | playerRefund (tableId : ObjectID) (seatIndex : ℕ) (player : Address) (amount refundType : ℕ)
  | deckRebuilt (tableId : ObjectID) (reason deckSize : ℕ)
  | currentTurnChanged (tableId : ObjectID) (oldTurn newTurn : Option ℕ) (roundState : ℕ)
  | addonRequested (tableId : ObjectID) (seatIndex : ℕ) (player : Address)
      (amount pendingAfter : ℕ)
  | addonCredited (tableId : ObjectID) (seatIndex : ℕ) (player : Address)
      (amount stackAfter : ℕ)
  | rebuyProcessed (tableId : ObjectID) (seatIndex : ℕ) (player : Address)
      (amount stackAfter : ℕ)
  | playerBet (tableId : ObjectID) (seatIndex amount roundState : ℕ)
  | timeBankConsumed (tableId : ObjectID) (seatIndex consumedMs remainingMs : ℕ)
  | antePosted (tableId : ObjectID) (seatIndex amount anteMode : ℕ)
  | rakeCollected (tableId : ObjectID) (potBefore rakeAmount potAfter rakeMode : ℕ)
  | runItTwiceTriggered (tableId : ObjectID) (board1Cards board2Cards : ℕ)
  | settlementPlanCommitted (tableId : ObjectID) (planDigest : Hash)
      (runoutCount grossPot rake totalAwards : ℕ)
  deriving DecidableEq

/-- Whether the event starts a hand. -/
def TexasPokerEvent.isHandStarted : TexasPokerEvent → Bool
  | .handStarted .. => true
  | _ => false

end TexasPoker
