import TexasPoker.Machine.Queries

/-! # Opening a reveal

The assignments of the hole-card, board and showdown reveals, and the run-it-twice
schedule they follow.
-/

namespace TexasPoker

variable {G : Type}

namespace TexasPokerTable

variable (t : TexasPokerTable G)

/-- The identities of all cards in the open; a corrupt or repeated card is an error. -/
def exposedCardIds : PokerL1Result (List ℕ) :=
  t.materializedCards.foldlM (fun seen card => do
    ensure card.isValid (.serialization
      s!"table contains invalid exposed card suit={card.suit} rank={card.rank}")
    ensure (card.index ∉ seen)
      (.serialization s!"table contains duplicate exposed card id {card.index}")
    return card.index :: seen) []

/-- Both boards of two runouts have the same length before a reveal. -/
def validateRunItTwiceProgress : PokerL1Result Unit := do
  let state := t.runItTwiceState
  state.validateCanonical t.communityCards
  if !state.isActive then
    return ()
  else
    ensure (¬ (4 < state.sharedBoardLen ∨ 5 < t.communityCards.len ∨
        t.communityCards.len < state.sharedBoardLen ∨ 5 < state.secondBoardLen))
      (.serialization "run it twice board lengths are outside canonical bounds")
    ensure (state.secondBoardLen = t.communityCards.len)
      (.serialization "run it twice boards have diverging lengths before reveal")
    let _ ← t.exposedCardIds
    return ()

/-- Two hole cards for every seat of the hand, revealed by all the others. -/
def holeAssignments : List (RevealAssignment G) :=
  t.getActiveSeatIndices.zipIdx.flatMap fun (seat, k) =>
    (List.range cardsPerPlayer).map fun slot =>
      let cardIndex := t.deckState.cardsDealt + cardsPerPlayer * k + slot
      { encryptedCardIndex := cardIndex
        target := .hole seat (cardIndex % cardsPerPlayer)
        pendingMask := Mask.erase t.getActiveSeatMask seat
        submittedMask := 0
        revealTokens := [] }

/-- Number of boards being dealt. -/
def runoutCount : ℕ := if t.runItTwiceState.isActive then 2 else 1

/-- `count` cards for each board, revealed by every seat of the hand. -/
def boardAssignments (count : ℕ) : List (RevealAssignment G) :=
  (List.range t.runoutCount).flatMap fun runoutIndex =>
    let boardLen := if runoutIndex = 0 then t.communityCards.len
      else t.runItTwiceState.secondBoardLen
    (List.range count).map fun offset =>
      { encryptedCardIndex := t.deckState.cardsDealt + count * runoutIndex + offset
        target := .board runoutIndex (boardLen + offset)
        pendingMask := t.getActiveSeatMask
        submittedMask := 0
        revealTokens := [] }

/-- The hole cards one seat still has to open itself. -/
def showdownAssignments (seat : ℕ) : PokerL1Result (List (RevealAssignment G)) := do
  let cards := t.deckState.ownerReadableHoleCards.iterForSeat seat
  cards.forM fun (cardSlot, _) => ensure (¬ cardSlot < (t.seat seat).handLen) (.serialization
    (s!"showdown partial ledger overlaps materialized hand: seat={seat}, " ++
      s!"slot={cardSlot}"))
  return cards.map fun (cardSlot, card) =>
    { encryptedCardIndex := card.encryptedCardIndex
      target := .hole seat cardSlot
      pendingMask := seatMaskBit seat
      submittedMask := 0
      revealTokens := [] }

/-- Move the dealing position of the deck. -/
def setCardsDealt (cardsDealt : ℕ) : TexasPokerTable G :=
  { t with deckState := { t.deckState with cardsDealt } }

end TexasPokerTable

namespace Exec

variable (s : Exec G)

/-- Deal two hole cards to every seat of the hand. -/
def startPreflopRevealPhase : PokerL1Result (Exec G) := do
  let assignments := s.table.holeAssignments
  let t := s.table.setCardsDealt (s.table.deckState.cardsDealt + assignments.length)
  let t ← t.enterRevealing roundPreflop ⟨.dealHole, assignments⟩ 0
  return (s.withTable t).emit (.revealPhase t.id revealPhasePreflop)

/-- Deal `count` cards to each board on `street`. -/
def startCommunityRevealPhase (count street : ℕ) : PokerL1Result (Exec G) := do
  ensure (street = roundFlop ∨ street = roundTurn ∨ street = roundRiver)
    (.serialization s!"community reveal cannot start on street {street}")
  s.table.validateRunItTwiceProgress
  let assignments := s.table.boardAssignments count
  let cardsDealt := s.table.deckState.cardsDealt + assignments.length
  ensure (cardsDealt ≤ 255) (.serialization "community reveal card index overflow")
  let t := s.table.setCardsDealt cardsDealt
  let t ← t.enterRevealing street ⟨.board, assignments⟩ 0
  return (s.withTable t).emit (.revealPhase t.id (RevealPurpose.board.legacyPhase street))

/-- Let every seat of the hand open its own cards. -/
def startShowdownRevealPhase : PokerL1Result (Exec G) := do
  let assignments ← s.table.getActiveSeatIndices.foldlM
    (fun acc seat => do return acc ++ (← s.table.showdownAssignments seat)) []
  let t ← s.table.enterRevealing roundShowdown ⟨.showdownOwner, assignments⟩ 0
  return (s.withTable t).emit (.revealPhase t.id revealPhaseShowdown)

/-! ## Run it twice -/

/-- Start two runouts; the cards dealt so far are shared. -/
def triggerRunItTwice : PokerL1Result (Exec G) := do
  let t := s.table
  if t.rules.ritMode = ritModeDisabled then
    return s
  else
    ensure (t.rules.ritMode = ritModeTwice) (.serialization
      s!"trigger_run_it_twice: unsupported rit_mode {t.rules.ritMode}")
    if t.runItTwiceState.isActive then
      return s
    else
      ensure (TexasPokerTable.isBettingStreet t.roundState ∧ t.noFurtherBettingPossible) (.serialization
        ("trigger_run_it_twice requires an all-in betting state with no further contested " ++
          "action"))
      ensure (t.communityCards.len < 5)
        (.serialization "trigger_run_it_twice requires at least one undealt community card")
      let _ ← t.exposedCardIds
      let start ← RitStartStreet.fromSharedBoardLen t.communityCards.len
      let remaining := 5 - t.communityCards.len
      return (s.withTable { t with runItTwiceState := .twice start .empty }).emit
        (.runItTwiceTriggered t.id remaining remaining)

/-- Start two runouts once no contested betting is possible. -/
def maybeTriggerRunItTwice : PokerL1Result (Exec G) :=
  if s.table.rules.ritMode = ritModeDisabled ∨ s.table.runItTwiceState.isActive ∨
      5 ≤ s.table.communityCards.len ∨ ¬ s.table.noFurtherBettingPossible then
    .ok s
  else s.triggerRunItTwice

end Exec

end TexasPoker
