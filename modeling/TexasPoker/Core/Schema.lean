import TexasPoker.Core.Table

/-! # State schema

The checks every committed table passes: rules, seat domain, armed deadlines, card
uniqueness, ledger and mask shapes.
-/

namespace TexasPoker.TexasPokerTable

variable {G : Type} (t : TexasPokerTable G)

/-- An armed deadline not earlier than its timeout. -/
def validateDeadline (deadlineMs timeoutMs : ℕ) (label : String) : PokerL1Result Unit := do
  ensure (deadlineMs ≠ 0) (.serialization s!"Texas active {label} deadline is not armed")
  ensure (timeoutMs ≤ deadlineMs) (.serialization
    s!"Texas {label} deadline {deadlineMs} is smaller than timeout {timeoutMs}")

/-- Purpose, street and targets of a reveal. -/
def validateReveal (street : ℕ) (state : RevealTokenState G) : PokerL1Result Unit := do
  state.validateForStreet street
  state.assignments.zipIdx.forM fun (a, i) =>
    match a.target with
    | .hole seatIndex _ => ensure (seatIndex < t.rules.maxPlayers) (.serialization
      s!"Texas reveal assignment {i} targets out-of-range seat {seatIndex}")
    | .board .. => pure ()

def validateHandPhase : PokerL1Result Unit :=
  match t.handPhase with
  | .waiting => .ok ()
  | .shuffling phase => do
    match phase with
    | .initial .. => pure ()
    | .reconstruct street _ suspendedReveal _ =>
      ensure (isLiveStreet street)
        (.serialization "Texas reconstruct shuffle is outside a live street")
      t.validateReveal street suspendedReveal
    validateDeadline phase.deadlineMs t.rules.timeoutConfig.shuffleTimeoutMs "shuffle"
  | .revealing street state deadlineMs => do
    ensure (isLiveStreet street) (.serialization "Texas reveal phase is outside a live street")
    t.validateReveal street state
    validateDeadline deadlineMs t.rules.timeoutConfig.revealTimeoutMs "reveal"
  | .reconstructing street _ suspendedReveal epochMs deadlineMs => do
    ensure (isLiveStreet street)
      (.serialization "Texas reconstruct phase is not active on a live street")
    t.validateReveal street suspendedReveal
    ensure (epochMs ≠ 0 ∧ deadlineMs ≠ 0)
      (.serialization "Texas active reconstruct epoch/deadline is not armed")
    let expected ← canonicalAbsoluteDeadline epochMs t.rules.timeoutConfig.reconstructTimeoutMs
      "reconstruct"
    ensure (deadlineMs = expected) (.serialization
      s!"Texas reconstruct deadline mismatch: encoded={deadlineMs}, expected={expected}")
  | .betting street _ currentTurn deadlineMs => do
    ensure (isBettingStreet street)
      (.serialization "Texas betting phase is outside a live street")
    ensure (currentTurn = noSeat ∨ currentTurn < t.rules.maxPlayers) (.serialization
      s!"Texas current_turn {currentTurn} is outside max_players {t.rules.maxPlayers}")
    validateDeadline deadlineMs t.rules.timeoutConfig.bettingTimeoutMs "betting"
  | .showdownDisplay deadlineMs =>
    ensure (deadlineMs ≠ 0) (.serialization "Texas active showdown deadline is not armed")

/-- The cards in the open: both boards, then every hand. -/
def materializedCards : List Card :=
  t.communityCards.cards ++ t.runItTwiceState.secondBoardSuffix ++
    (List.finRange maxSeats).flatMap fun i => ((t.seats i).hand.map CardSlots.cards).getD []

/-- The checks of one slot: its data, a player in one seat only, no flag on a vacant slot. -/
def validateSeat [Zero G] [DecidableEq G] (i : Fin maxSeats) : PokerL1Result Unit := do
  (t.seats i).validateCanonical
  ensure ((t.seats i).isOccupied → ∀ j < i, (t.seats j).isOccupied →
      (t.seats j).player ≠ (t.seats i).player)
    (.serialization
      s!"Texas player {(t.seats i).player.text} occupies more than one seat")
  ensure ((t.seats i).isVacant →
      ¬ (seatMaskContains t.actedMask i || seatMaskContains t.leaveAfterHandMask i))
    (.serialization s!"Texas empty seat {i.1} contains live table flags")

/-- The checks of one ledger record against the deck indices seen so far. -/
def validateLedgerRecord (seen : List ℕ) (r : ℕ × ℕ × PartialHoleCard G) :
    PokerL1Result (List ℕ) := do
  ensure (r.2.2.encryptedCardIndex < 52) (.serialization
    (s!"Texas partial hole card seat={r.1} slot={r.2.1} has out-of-range deck index " ++
      s!"{r.2.2.encryptedCardIndex}"))
  ensure (r.1 < t.rules.maxPlayers) (.serialization
    s!"Texas partial hole-card ledger has out-of-range owner seat {r.1}")
  ensure (r.2.2.encryptedCardIndex ∉ seen) (.serialization
    (s!"Texas partial hole-card ledger contains duplicate deck index " ++
      s!"{r.2.2.encryptedCardIndex}"))
  ensure (∀ hand ∈ (t.seat r.1).hand, ¬ r.2.1 < hand.len) (.serialization
    (s!"Texas partial hole-card ledger overlaps materialized hand: seat={r.1}, " ++
      s!"slot={r.2.1}"))
  return r.2.2.encryptedCardIndex :: seen

def validateMask (mask : SeatMask) (label : String) : PokerL1Result Unit :=
  ensure (seatMaskIsCanonical mask t.rules.maxPlayers)
    (.serialization s!"Texas {label} contains out-of-range seat bits")

/-- The masks and tokens of one reveal assignment. -/
def validateAssignmentMasks (a : RevealAssignment G) : PokerL1Result Unit := do
  t.validateMask a.pendingMask "reveal pending mask"
  t.validateMask a.submittedMask "reveal submitted mask"
  ensure (a.pendingMask &&& a.submittedMask = 0)
    (.serialization "Texas reveal pending/submitted masks overlap")
  ensure (seatMaskCount a.submittedMask = a.revealTokens.length)
    (.serialization "Texas reveal submitted mask/token vector length mismatch")

variable [AddCommGroup G] [DecidableEq G]

def validateStateSchema : PokerL1Result Unit := do
  t.rules.validateCanonical
  (List.finRange maxSeats).forM fun i =>
    ensure (i.1 < t.rules.maxPlayers ∨ (t.seats i).isVacant) (.serialization
      s!"Texas seat padding beyond max_players must be vacant: seat {i.1}")
  ensure (seatMaskIsCanonical t.actedMask t.rules.maxPlayers ∧
      seatMaskIsCanonical t.leaveAfterHandMask t.rules.maxPlayers)
    (.serialization "Texas table contains out-of-range seat flag bits")
  ensure (t.button < t.rules.maxPlayers ∧
      (t.lastBbSeat = noSeat ∨ t.lastBbSeat < t.rules.maxPlayers))
    (.serialization "Texas table button/last_bb_seat is outside the seat domain")
  t.validateHandPhase
  (List.finRange maxSeats).forM t.validateSeat
  let _ ← t.derivedAggregatedPk
  labelled "Texas first board is non-canonical" (BoardCards.validateCanonical t.communityCards)
  t.runItTwiceState.validateCanonical t.communityCards
  ensure (t.materializedCards.all Card.isValid ∧ (t.materializedCards.map Card.index).Nodup)
    (.serialization "Texas table contains an invalid or duplicate materialized card")
  let _ ← t.deckState.ownerReadableHoleCards.iter.foldlM t.validateLedgerRecord []
  t.validateMask t.shuffleState.pendingMask "shuffle pending mask"
  t.validateMask t.shuffleState.completedMask "shuffle completed mask"
  ensure (t.shuffleState.pendingMask &&& t.shuffleState.completedMask = 0)
    (.serialization "Texas shuffle pending/completed masks overlap")
  t.revealAssignments.forM t.validateAssignmentMasks
  t.validateMask t.reconstructState.pendingMask "reconstruct pending mask"
  match t.deckState.reconstructAccumulated with
  | some deck => ensure (deck.length = 52) (.serialization
      s!"Texas reconstruct accumulator has {deck.length} cards, expected 52")
  | none => return ()

end TexasPoker.TexasPokerTable
