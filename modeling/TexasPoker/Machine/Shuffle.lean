import TexasPoker.Machine.Betting

/-! # Shuffling and reconstruction

The shuffle relay of a fresh or a reconstructed deck, and the collection of
reconstruction contributions after a reveal failed.
-/

namespace TexasPoker

variable {G : Type} [AddCommGroup G] [Protocol G] [DecidableEq G]

namespace TexasPokerTable

/-- Install the deck accumulated by a reconstruction; dealing restarts at its top. -/
def rebuildDeckFromReconstructDeck (t : TexasPokerTable G) :
    PokerL1Result (TexasPokerTable G) := do
  let newCts ← orErr t.deckState.reconstructAccumulated
    (.serialization "rebuild_deck V3 requires at least one verified contribution")
  ensure (newCts.length = 52) (.serialization
    s!"rebuild_deck V3 accumulator has {newCts.length} cards, expected 52")
  let encrypted ← CipherDeck.tryFrom newCts
  return { t with deckState := { t.deckState with encrypted, cardsDealt := 0 } }

/-- Forget every owner-readable hole card. -/
def clearLedger (t : TexasPokerTable G) : TexasPokerTable G :=
  { t with deckState := { t.deckState with ownerReadableHoleCards := .empty } }

end TexasPokerTable

namespace Exec

variable (s : Exec G)

/-- Reopen the reveal of the street after a reconstruction; cards in the open stay. -/
def restartRevealAfterReconstruct : PokerL1Result (Exec G) := do
  s.table.validateRunItTwiceProgress
  let street := s.table.roundState
  let dealt := s.table.communityCards.len
  if street = roundPreflop then
    (s.withTable s.table.clearLedger).startPreflopRevealPhase
  else if street = roundFlop then
    if dealt < 3 then s.startCommunityRevealPhase (3 - dealt) roundFlop else return s
  else if street = roundTurn then
    if dealt < 4 then s.startCommunityRevealPhase (4 - dealt) roundTurn else return s
  else if street = roundRiver then
    if dealt < 5 then s.startCommunityRevealPhase (5 - dealt) roundRiver else return s
  else if street = roundShowdown then s.startShowdownRevealPhase
  else return s

/-- Call the next shuffler, or leave a complete shuffle. -/
def advanceShuffle : PokerL1Result (Exec G) := do
  let phase := s.table.shufflePhase
  if phase ≠ shufflePhaseReconstruct ∧ phase ≠ shufflePhaseBeforePreflop then
    return s
  else
    let state := s.table.shuffleState
    let completedCount := seatMaskCount state.completedMask
    if state.pendingMask = 0 then
      let s := s.emit (.shuffleComplete s.table.id phase completedCount
        s.table.deckState.encrypted.len)
      if phase = shufflePhaseBeforePreflop then s.startPreflopRevealPhase
      else s.restartRevealAfterReconstruct
    else
      let next ← orErr (seatMaskFirst state.pendingMask)
        (.serialization "shuffle pending mask unexpectedly empty")
      let t ← s.table.disarmShuffleDeadline
      return (s.withTable t).emit
        (.shuffleTurn t.id next (seatMaskCount state.pendingMask) completedCount)

/-- Install a fresh deck and let every seat of the hand shuffle again. -/
def rebuildDeckAndShuffleOnTimeout (phase : ℕ) : PokerL1Result (Exec G) := do
  let t := s.table.setInitialEncryptedDeck
  let state : ShuffleState := ⟨t.getActiveSeatMask, 0⟩
  let t ←
    if phase = shufflePhaseReconstruct then do
      let street := t.roundState
      let (suspendedReveal, t) ← t.takeRevealPayload
      t.enterReconstructShuffling street state suspendedReveal 0
    else t.enterInitialShuffling state 0
  return (s.withTable t).emit
    (.deckRebuilt t.id deckRebuiltReasonShuffleTimeout t.deckState.encrypted.len)

/-! ## Submitting a shuffle -/

/-- Verify the current shuffler's deck, add the shuffler's key layer, and pass on. -/
def applySubmitShuffleV2 (seatIndex : ℕ) (outputCards : List (ElGamalCiphertext G))
    (shuffleProof : Protocol.ShuffleProof G) : PokerL1Result (Exec G) := do
  let t := s.table
  ensure (t.shufflePhase ≠ shufflePhaseNone) (.serialization "shuffle phase is NONE")
  ensure (t.seat seatIndex).isOccupied (.serialization "seat not occupied")
  let currentShuffler := t.shuffleState.derivedCurrentShuffler
  ensure (currentShuffler = seatIndex) (.serialization
    s!"not shuffler's turn: expected {currentShuffler}, got {seatIndex}")
  ensure (¬ seatMaskContains t.shuffleState.completedMask seatIndex)
    (.serialization "already completed shuffle")
  let aggPk := (← t.derivedAggregatedPk).getD 0
  labelled "shuffle proof"
    (Protocol.verifyShuffle shuffleProof t.deckState.encrypted.toVec outputCards aggPk)
  let playerPk ← orErr (t.seat seatIndex).pk
    (.serialization "shuffle seat has no live key")
  let encrypted ← CipherDeck.tryFrom (outputCards.map fun ct => addPkToC2 ct playerPk)
  let t := { t with deckState := { t.deckState with encrypted } }
  let t ← match t.handPhase with
    | .shuffling phase =>
      let state : ShuffleState := ⟨seatMaskRemove phase.state.pendingMask seatIndex,
        Mask.insert phase.state.completedMask seatIndex⟩
      pure { t with handPhase := .shuffling (phase.withState state) }
    | _ => throw (.serialization "Texas table is not in an active shuffle phase")
  let s := (s.withTable t).emit (.shuffleVerified t.id seatIndex (t.seat seatIndex).player)
  s.advanceShuffle

/-! ## Reconstruction -/

/-- Suspend the reveal and ask every seat of the hand to reconstruct the deck. -/
def startReconstruct (nowMs : ℕ) : PokerL1Result (Exec G) := do
  let t := s.table
  let _ ← checkedAdd nowMs t.rules.timeoutConfig.reconstructTimeoutMs
    (.serialization "reconstruct deadline overflows u64")
  let activeMask := t.getActiveSeatMask
  let street := t.roundState
  let (suspendedReveal, t) ← t.takeRevealPayload
  let t := { t with deckState := { t.deckState with reconstructAccumulated := none } }
  let t ← t.enterReconstructing street ⟨activeMask⟩ suspendedReveal nowMs
  return (s.withTable t).emit (.reconstructInitiated t.id activeMask t.roundState)

/-- Install the reconstructed deck and let every seat of the hand shuffle it. -/
def onCompleteReconstruct : PokerL1Result (Exec G) := do
  let t ← s.table.rebuildDeckFromReconstructDeck
  let s := ((s.withTable t).emit (.reconstructComplete t.id)).emit
    (.deckRebuilt t.id deckRebuiltReasonReconstructComplete t.deckState.encrypted.len)
  let active := t.getActiveSeatMask
  let street := t.roundState
  let (suspendedReveal, t) ← t.takeRevealPayload
  let t ← t.enterReconstructShuffling street ⟨active, 0⟩ suspendedReveal 0
  (s.withTable t).advanceShuffle

/-- The reconstruction statement the table's own state prescribes for a seat. -/
def expectedStatement (seatIndex : ℕ) (contributions : List (Protocol.Contribution G)) :
    PokerL1Result (ReconstructionStatement G (Protocol.Contribution G)) := do
  let t := s.table
  let aggregatePk ← orErr (← t.derivedAggregatedPk)
    (.serialization "reconstruction V3 requires aggregate public key")
  let ownerPk ← orErr (t.seat seatIndex).pk
    (.serialization "reconstruct seat has no live key")
  let readable := t.deckState.ownerReadableHoleCards.iterForSeat seatIndex
  let epoch ← orErr t.reconstructEpochMs (.serialization
    "reconstruction V3 prior state requires an active reconstruct epoch")
  ensure (readable ≠ []) (.serialization
    "reconstruction V3 requires an authenticated previous-round readable hand")
  return {
    aggregatePk, ownerPk
    cards := generatePlaintextCards
    residualCarriers := readable.map fun r => r.2.ciphertext
    contextDigest := Protocol.contextDigest (G := G) t.id t.handId
    priorStateDigest := Protocol.priorStateDigest t.id t.handId seatIndex epoch aggregatePk
      (readable.map fun r => (r.1, r.2.encryptedCardIndex, r.2.ciphertext))
    reconstructionEpoch := epoch
    contributions }

/-- Verify one reconstruction contribution and add it to the accumulated deck. -/
def applySubmitReconstructDeck (seatIndex : ℕ)
    (statement : ReconstructionStatement G (Protocol.Contribution G))
    (proof : Protocol.ReconstructProof G) : PokerL1Result (Exec G) := do
  let t := s.table
  ensure (t.reconstructPhase = reconstructPhaseCollecting)
    (.serialization "reconstruct not in COLLECTING phase")
  ensure (t.seat seatIndex).isOccupied (.serialization "seat not occupied")
  ensure (seatMaskContains t.reconstructState.pendingMask seatIndex)
    (.serialization "seat not in reconstruct pending")
  let expected ← s.expectedStatement seatIndex statement.contributions
  ensure (statement.aggregatePk = expected.aggregatePk ∧ statement.ownerPk = expected.ownerPk ∧
      statement.cards = expected.cards ∧
      statement.residualCarriers = expected.residualCarriers ∧
      statement.contextDigest = expected.contextDigest ∧
      statement.priorStateDigest = expected.priorStateDigest ∧
      statement.reconstructionEpoch = expected.reconstructionEpoch)
    (.serialization "reconstruction V3 statement does not match authenticated table state")
  labelled "reconstruction V3 proof" (Protocol.verifyReconstruct proof statement)
  let prior ← match t.deckState.reconstructAccumulated with
    | some deck => pure deck
    | none =>
      labelled "reconstruction V3 base deck"
        (Protocol.canonicalBaseDeck expected.cards expected.aggregatePk)
  let accumulated ← labelled s!"reconstruction V3 contribution for seat {seatIndex}"
    (Protocol.applyReconstructionContributions prior statement.contributions)
  let t ← match t.handPhase with
    | .reconstructing street state reveal epochMs deadlineMs =>
      let state : ReconstructState := ⟨seatMaskRemove state.pendingMask seatIndex⟩
      pure { t with handPhase := .reconstructing street state reveal epochMs deadlineMs }
    | _ => throw (.serialization "Texas table is not in an active reconstruct phase")
  let t := { t with deckState := { t.deckState with
      reconstructAccumulated := some accumulated } }
  let s := (s.withTable t).emit (.reconstructDeckSubmitted t.id seatIndex)
  if s.table.reconstructState.pendingMask = 0 then s.onCompleteReconstruct else return s

end Exec

end TexasPoker
