import TexasPoker.Machine.Seats
import TexasPoker.Machine.Settle

/-! # Starting and timing out a hand

The start of a hand with the promotion of waiting players, and the handlers of the phase
timeouts.
-/

namespace TexasPoker

variable {G : Type}

namespace TexasPokerTable

variable (t : TexasPokerTable G)

/-- Let the first occupied seat after the last big blind play if it waits. -/
def promoteBigBlind : TexasPokerTable G :=
  match t.findNext Seat.isOccupied t.rotationBase with
  | some i => t.setSeat i (t.seat i).promoteWaiting
  | none => t

/-- Promote a waiting seat while fewer than two play. -/
def promoteMissing (acc : TexasPokerTable G × ℕ) (i : ℕ) : TexasPokerTable G × ℕ :=
  if acc.2 < minPlayersToStart ∧ (acc.1.seat i).isWaiting then
    (acc.1.setSeat i (acc.1.seat i).promoteWaiting, acc.2 + 1)
  else acc

/-- Waiting players enter as the big blind reaches them; everybody enters an empty game,
and a game of one is filled up to two. -/
def promoteWaitingForBigBlind : TexasPokerTable G :=
  if t.countActiveOccupied = 0 then t.mapSeats Seat.promoteWaiting
  else
    let t := t.promoteBigBlind
    (((List.range' 1 t.rules.maxPlayers).map fun offset =>
      (t.button + offset) % t.rules.maxPlayers).foldl promoteMissing (t, t.countActiveOccupied)).1

end TexasPokerTable

namespace Exec

variable [AddCommGroup G] [Protocol G] [DecidableEq G] (s : Exec G)

/-- Start a hand: move the button, let players in, and shuffle a fresh deck. -/
def startHand : PokerL1Result (Exec G) := do
  ensure (s.table.roundState = roundWaiting)
    (.serialization s!"not in WAITING state: round_state={s.table.roundState}")
  let t := s.table.moveButton.promoteWaitingForBigBlind
  ensure (minPlayersToStart ≤ t.countActiveOccupied) (.serialization
    (s!"active players {t.countActiveOccupied} < MIN_PLAYERS_TO_START " ++
      s!"{minPlayersToStart}"))
  let t := t.setInitialEncryptedDeck
  let t ← t.enterInitialShuffling ⟨t.getPendingSeatMask 0, 0⟩ 0
  let s := (s.withTable t).emit (.handStarted t.id t.button t.rules.smallBlind
    t.rules.bigBlind t.getActiveSeatMask)
  s.advanceShuffle

/-! ## Timeouts -/

/-- Kick the late shuffler; the others shuffle a fresh deck. -/
def onShuffleTimeout : PokerL1Result (Exec G) := do
  let t := s.table
  let seat := t.shuffleState.derivedCurrentShuffler
  let phase := t.shufflePhase
  let timeoutMs := t.rules.timeoutConfig.shuffleTimeoutMs
  let deadlineMs ← orErr t.shuffleDeadlineMs
    (.serialization "shuffle timeout requires an active deadline")
  let startedAt ← checkedSub deadlineMs timeoutMs
    (.serialization "shuffle deadline is earlier than its configured timeout")
  let s := s.emit (.shuffleTimeout t.id seat phase startedAt timeoutMs)
  let s ← s.kickPlayerInternal seat .timeout
  let active := s.table.countActivePlayers
  if active = 0 then
    let s ← s.refundAllBets
    s.resetForNextHand
  else if active = 1 then s.endWithoutShowdown
  else if s.table.shufflePhase = shufflePhaseNone then return s
  else
    let s ← s.rebuildDeckAndShuffleOnTimeout phase
    s.advanceShuffle

/-- The seats that owe a reveal token. -/
def revealPendingMask (t : TexasPokerTable G) : SeatMask :=
  t.revealAssignments.foldl (fun mask a => mask ||| a.pendingMask) 0

/-- Kick the seats that owe a token; before the flop the hand is void, later the deck is
reconstructed. -/
def onRevealTimeout (nowMs : ℕ) : PokerL1Result (Exec G) := do
  let phase := s.table.revealPhase
  let pendingMask := revealPendingMask s.table
  let pending := seatMaskToIndices pendingMask s.table.rules.maxPlayers
  let s := s.emit (.revealTimeout s.table.id phase pendingMask)
  let s ← pending.foldlM (fun s seat => s.kickSeatRaw seat .timeout) s
  let active := s.table.countActivePlayers
  if active = 0 then
    let s ← s.refundAllBets
    let s ← s.resetForNextHand
    return s.emit (.handReset s.table.id resetReasonTimeout s.table.roundState)
  else if active = 1 then s.endWithoutShowdown
  else if phase = revealPhasePreflop then
    let s ← s.resetForNextHand
    return s.emit (.handReset s.table.id resetReasonTimeout s.table.roundState)
  else s.startReconstruct nowMs

/-- Kick the seats that owe a contribution; continue with the contributions given. -/
def onReconstructTimeout : PokerL1Result (Exec G) := do
  let pendingMask := s.table.reconstructState.pendingMask
  let pending := seatMaskToIndices pendingMask s.table.rules.maxPlayers
  let s := s.emit (.reconstructTimeout s.table.id pendingMask)
  let s ← pending.foldlM (fun s seat => s.kickPlayerInternal seat .reconstructTimeout) s
  let active := s.table.countActivePlayers
  if active = 0 then
    let s ← s.refundAllBets
    s.resetForNextHand
  else if active = 1 then s.endWithoutShowdown
  else if s.table.deckState.reconstructAccumulated.isSome then s.onCompleteReconstruct
  else
    let s ← s.refundAllBets
    let s ← s.resetForNextHand
    return s.emit (.handReset s.table.id resetReasonReconstructFail s.table.roundState)

/-- Fold the late player. -/
def onBettingTimeout : PokerL1Result (Exec G) :=
  s.applyFoldInternal s.table.currentTurn foldReasonAutoTimeout

end Exec

end TexasPoker
