import TexasPoker.Core.Deck
import TexasPoker.Core.Phase
import TexasPoker.Core.Seat
import Mathlib.Logic.Function.Basic

/-! # The table

The table's state, its read-only projections, and the operations that enter, leave
and time one hand phase.
-/

namespace TexasPoker

/-- Phase durations in milliseconds. -/
structure TimeoutConfig where
  shuffleTimeoutMs : ℕ
  revealTimeoutMs : ℕ
  bettingTimeoutMs : ℕ
  reconstructTimeoutMs : ℕ
  showdownDisplayMs : ℕ
  deriving DecidableEq, Repr

def TimeoutConfig.default : TimeoutConfig where
  shuffleTimeoutMs := defaultShuffleTimeoutMs
  revealTimeoutMs := defaultRevealTimeoutMs
  bettingTimeoutMs := defaultBettingTimeoutMs
  reconstructTimeoutMs := defaultReconstructTimeoutMs
  showdownDisplayMs := defaultShowdownDisplayMs

/-- The rules of a table. -/
structure TableRules where
  maxPlayers : ℕ
  smallBlind : ℕ
  bigBlind : ℕ
  timeoutConfig : TimeoutConfig
  anteMode : ℕ
  anteAmount : ℕ
  rakeMode : ℕ
  rakeBps : ℕ
  rakeCap : ℕ
  ritMode : ℕ
  deriving DecidableEq, Repr

namespace TableRules

/-- Default rules around a seat and blind configuration. -/
def new (maxPlayers smallBlind bigBlind : ℕ) : TableRules where
  maxPlayers
  smallBlind
  bigBlind
  timeoutConfig := .default
  anteMode := anteModeNone
  anteAmount := 0
  rakeMode := rakeModeNone
  rakeBps := defaultRakeBps
  rakeCap := defaultRakeCap
  ritMode := ritModeDisabled

def validateCanonical (r : TableRules) : PokerL1Result Unit := do
  ensure (2 ≤ r.maxPlayers ∧ r.maxPlayers ≤ maxSeats)
    (.serialization s!"Texas max_players {r.maxPlayers} is outside 2..={maxSeats}")
  ensure (r.bigBlind ≠ 0 ∧ r.smallBlind ≤ r.bigBlind) (.serialization
    s!"Texas blind configuration small={r.smallBlind} big={r.bigBlind} is not canonical")
  ensure (r.anteMode = anteModeNone ∨ r.anteMode = anteModeNormal ∨ r.anteMode = anteModeBba)
    (.serialization s!"Texas ante mode {r.anteMode} is not canonical")
  ensure ((r.rakeMode = rakeModeNone ∨ r.rakeMode = rakeModePercentage) ∧ r.rakeBps ≤ 10000)
    (.serialization
      s!"Texas rake configuration mode={r.rakeMode} bps={r.rakeBps} is not canonical")
  ensure (r.ritMode = ritModeDisabled ∨ r.ritMode = ritModeTwice)
    (.serialization s!"Texas RIT mode {r.ritMode} is not canonical")

end TableRules

/-- The state of one table. -/
@[ext] structure TexasPokerTable (G : Type) where
  id : ObjectID
  creator : Address
  rules : TableRules
  seats : Fin maxSeats → Seat G
  actedMask : SeatMask
  leaveAfterHandMask : SeatMask
  button : ℕ
  lastBbSeat : ℕ
  pot : ℕ
  communityCards : BoardCards
  handPhase : HandPhase G
  deckState : DeckState G
  chipPool : ℕ
  runItTwiceState : RunItTwiceState
  handId : ℕ
  callSeq : ℕ

-- A derived instance would cast along the equality of the seat functions and not compute.
instance {G : Type} [DecidableEq G] : DecidableEq (TexasPokerTable G) := fun a b =>
  decidable_of_iff (a.id = b.id ∧ a.creator = b.creator ∧ a.rules = b.rules ∧ a.seats = b.seats ∧
    a.actedMask = b.actedMask ∧ a.leaveAfterHandMask = b.leaveAfterHandMask ∧
    a.button = b.button ∧ a.lastBbSeat = b.lastBbSeat ∧ a.pot = b.pot ∧
    a.communityCards = b.communityCards ∧ a.handPhase = b.handPhase ∧
    a.deckState = b.deckState ∧ a.chipPool = b.chipPool ∧
    a.runItTwiceState = b.runItTwiceState ∧ a.handId = b.handId ∧ a.callSeq = b.callSeq)
    (by cases a; cases b; simp)

/-- The deadline `timeoutMs` after `startedAt`; an unarmed start stays unarmed. -/
def canonicalAbsoluteDeadline (startedAt timeoutMs : ℕ) (label : String) : PokerL1Result ℕ :=
  if startedAt = 0 then .ok 0
  else checkedAdd startedAt timeoutMs (.serialization
    (s!"Texas {label} deadline overflows u64: started_at={startedAt}, " ++
      s!"timeout_ms={timeoutMs}"))

namespace TexasPokerTable

variable {G : Type} (t : TexasPokerTable G)

/-- A fresh table: vacant seats, no chips, no hand. -/
def new (id : ObjectID) (creator : Address) (maxPlayers smallBlind bigBlind : ℕ) :
    TexasPokerTable G where
  id
  creator
  rules := .new maxPlayers smallBlind bigBlind
  seats := fun _ => .empty
  actedMask := 0
  leaveAfterHandMask := 0
  button := 0
  lastBbSeat := noSeat
  pot := 0
  communityCards := .empty
  handPhase := .waiting
  deckState := .new
  chipPool := 0
  runItTwiceState := .single
  handId := 0
  callSeq := 0

/-! ## Seats -/

/-- The slot at a seat index. -/
def seat (i : ℕ) : Seat G := if h : i < maxSeats then t.seats ⟨i, h⟩ else .empty

/-- Overwrite the slot at a seat index. -/
def setSeat (i : ℕ) (s : Seat G) : TexasPokerTable G :=
  { t with seats := fun j => if j.1 = i then s else t.seats j }

/-- Apply `f` to every slot. -/
def mapSeats (f : Seat G → Seat G) : TexasPokerTable G := { t with seats := fun i => f (t.seats i) }

@[simp] theorem seat_val (i : Fin maxSeats) : t.seat i.1 = t.seats i := by simp [seat]

/-- Slots beyond the configured seats are vacant. -/
def paddingSeatsAreVacant : Bool :=
  (List.finRange maxSeats).all fun i => i.1 < t.rules.maxPlayers || (t.seats i).isVacant

def findEmptySeat : Option ℕ :=
  ((List.finRange maxSeats).find? fun i => (t.seats i).isVacant).map Fin.val

def seatActedThisRound (i : ℕ) : Bool := seatMaskContains t.actedMask i

def setSeatActedThisRound (i : ℕ) (value : Bool) : TexasPokerTable G :=
  { t with
    actedMask := if value then Mask.insert t.actedMask i else seatMaskRemove t.actedMask i }

def seatWantsLeave (i : ℕ) : Bool := seatMaskContains t.leaveAfterHandMask i

def setSeatWantsLeave (i : ℕ) (value : Bool) : TexasPokerTable G :=
  { t with
    leaveAfterHandMask :=
      if value then Mask.insert t.leaveAfterHandMask i
      else seatMaskRemove t.leaveAfterHandMask i }

/-! ## Projections of the hand phase -/

/-- The street, or waiting between hands and during a fresh shuffle. -/
def roundState : ℕ :=
  match t.handPhase with
  | .waiting => roundWaiting
  | .shuffling phase => phase.street
  | .revealing street .. => street
  | .reconstructing street .. => street
  | .betting street .. => street
  | .showdownDisplay _ => roundShowdown

def bettingRound : Option BettingRound :=
  match t.handPhase with
  | .betting _ round .. => some round
  | _ => none

def currentTurn : ℕ :=
  match t.handPhase with
  | .betting _ _ currentTurn _ => currentTurn
  | _ => noSeat

def currentTurnOption : Option ℕ := if t.currentTurn = noSeat then none else some t.currentTurn

def shuffleState : ShuffleState :=
  match t.handPhase with
  | .shuffling phase => phase.state
  | _ => ⟨0, 0⟩

def shufflePhase : ℕ :=
  match t.handPhase with
  | .shuffling phase =>
    match phase.purpose with
    | .initial => shufflePhaseBeforePreflop
    | .reconstruct => shufflePhaseReconstruct
  | _ => shufflePhaseNone

/-- The active or suspended reveal. -/
def revealTokenState : Option (RevealTokenState G) :=
  match t.handPhase with
  | .revealing _ state _ => some state
  | .reconstructing _ _ suspendedReveal _ _ => some suspendedReveal
  | .shuffling (.reconstruct _ _ suspendedReveal _) => some suspendedReveal
  | _ => none

def revealPhase : ℕ :=
  match t.handPhase with
  | .revealing street state _ => state.purpose.legacyPhase street
  | .reconstructing street _ state _ _ => state.purpose.legacyPhase street
  | .shuffling (.reconstruct street _ state _) => state.purpose.legacyPhase street
  | _ => revealPhaseNone

def revealAssignments : List (RevealAssignment G) :=
  match t.revealTokenState with
  | some state => state.assignments
  | none => []

def reconstructState : ReconstructState :=
  match t.handPhase with
  | .reconstructing _ state .. => state
  | _ => ⟨0⟩

def reconstructPhase : ℕ :=
  match t.handPhase with
  | .reconstructing .. => reconstructPhaseCollecting
  | _ => reconstructPhaseNone

def reconstructEpochMs : Option ℕ :=
  match t.handPhase with
  | .reconstructing _ _ _ epochMs _ => some epochMs
  | _ => none

/-! ## Deadlines -/

def reconstructDeadlineMs : PokerL1Result (Option ℕ) :=
  match t.handPhase with
  | .reconstructing _ _ _ epochMs deadlineMs => do
    let expected ← canonicalAbsoluteDeadline epochMs t.rules.timeoutConfig.reconstructTimeoutMs
      "reconstruct"
    ensure (deadlineMs = expected) (.serialization
      s!"Texas reconstruct deadline mismatch: encoded={deadlineMs}, expected={expected}")
    return some deadlineMs
  | _ => .ok none

def shuffleDeadlineMs : Option ℕ :=
  match t.handPhase with
  | .shuffling phase => some phase.deadlineMs
  | _ => none

def revealDeadlineMs : Option ℕ :=
  match t.handPhase with
  | .revealing _ _ deadlineMs => some deadlineMs
  | _ => none

def bettingDeadlineMs : Option ℕ :=
  match t.handPhase with
  | .betting _ _ _ deadlineMs => some deadlineMs
  | _ => none

def showdownDeadlineMs : Option ℕ :=
  match t.handPhase with
  | .showdownDisplay deadlineMs => some deadlineMs
  | _ => none

/-- Arm the active phase's deadline if it has none yet. -/
def armActiveDeadlineIfNeeded (nowMs : ℕ) : PokerL1Result (TexasPokerTable G) := do
  ensure (nowMs ≠ 0)
    (.serialization "Texas active phase requires a non-zero consensus timestamp")
  match t.handPhase with
  | .shuffling phase =>
    if phase.deadlineMs = 0 then do
      let deadlineMs ← canonicalAbsoluteDeadline nowMs t.rules.timeoutConfig.shuffleTimeoutMs
        "shuffle"
      return { t with handPhase := .shuffling (phase.withDeadline deadlineMs) }
    else return t
  | .revealing street state 0 =>
    let deadlineMs ← canonicalAbsoluteDeadline nowMs t.rules.timeoutConfig.revealTimeoutMs
      "reveal"
    return { t with handPhase := .revealing street state deadlineMs }
  | .reconstructing street state reveal 0 0 =>
    let deadlineMs ← canonicalAbsoluteDeadline nowMs t.rules.timeoutConfig.reconstructTimeoutMs
      "reconstruct"
    return { t with handPhase := .reconstructing street state reveal nowMs deadlineMs }
  | .reconstructing _ _ _ epochMs deadlineMs => do
    ensure (epochMs ≠ 0 ∧ deadlineMs ≠ 0) (.serialization
      "Texas reconstruct epoch/deadline must both be zero or both be armed")
    return t
  | .betting street round turn 0 =>
    let deadlineMs ← canonicalAbsoluteDeadline nowMs t.rules.timeoutConfig.bettingTimeoutMs
      "betting"
    return { t with handPhase := .betting street round turn deadlineMs }
  | .showdownDisplay 0 =>
    let deadlineMs ← checkedAdd nowMs t.rules.timeoutConfig.showdownDisplayMs
      (.serialization "Texas showdown deadline overflows u64")
    return { t with handPhase := .showdownDisplay deadlineMs }
  | _ => return t

/-- Arm the betting deadline from consensus time. -/
def armBettingDeadline (nowMs : ℕ) : PokerL1Result (TexasPokerTable G) := do
  let deadlineMs ← canonicalAbsoluteDeadline nowMs t.rules.timeoutConfig.bettingTimeoutMs "betting"
  match t.handPhase with
  | .betting street round turn _ =>
    return { t with handPhase := .betting street round turn deadlineMs }
  | _ => throw (.serialization "cannot arm betting deadline outside phase")

/-- Extend an armed betting deadline. -/
def extendBettingDeadline (extensionMs : ℕ) : PokerL1Result (TexasPokerTable G × ℕ) :=
  match t.handPhase with
  | .betting street round turn deadlineMs => do
    ensure (deadlineMs ≠ 0) (.serialization "cannot extend an unarmed betting deadline")
    let extended ← checkedAdd deadlineMs extensionMs
      (.serialization "Texas betting deadline extension overflows u64")
    return ({ t with handPhase := .betting street round turn extended }, extended)
  | _ => .error (.serialization "cannot extend an unarmed betting deadline")

def disarmShuffleDeadline : PokerL1Result (TexasPokerTable G) :=
  match t.handPhase with
  | .shuffling phase => .ok { t with handPhase := .shuffling (phase.withDeadline 0) }
  | _ => .error (.serialization "cannot disarm shuffle deadline outside phase")

def disarmBettingDeadline : PokerL1Result (TexasPokerTable G) :=
  match t.handPhase with
  | .betting street round turn _ => .ok { t with handPhase := .betting street round turn 0 }
  | _ => .error (.serialization "cannot disarm betting deadline outside betting")

/-! ## Phase changes -/

/-- Take the active or suspended reveal out of its phase. -/
def takeRevealPayload : PokerL1Result (RevealTokenState G × TexasPokerTable G) := do
  let state ← orErr t.revealTokenState
    (.serialization "Texas phase has no active or suspended reveal payload")
  return (state, { t with handPhase := .waiting })

/-- Set the seat to act and disarm its deadline. -/
def setBettingTurn (turn : ℕ) : PokerL1Result (TexasPokerTable G) := do
  ensure (turn = noSeat ∨ turn < t.rules.maxPlayers) (.serialization
    s!"Texas current turn {turn} is outside max_players {t.rules.maxPlayers}")
  match t.handPhase with
  | .betting street round _ _ => return { t with handPhase := .betting street round turn 0 }
  | _ => throw (.serialization "cannot set current turn outside betting")

/-- Remove a seat from the pending masks of a reveal. -/
def scrubReveal (seatIndex : ℕ) (r : RevealTokenState G) : RevealTokenState G :=
  { r with assignments := r.assignments.map fun a =>
      { a with pendingMask := seatMaskRemove a.pendingMask seatIndex } }

/-- Remove a seat from the payload of the active phase. -/
def removeSeatFromActivePhase (seatIndex : ℕ) : PokerL1Result (TexasPokerTable G) := do
  ensure (seatIndex < t.rules.maxPlayers) (.serialization
    s!"cannot remove out-of-range seat {seatIndex} from Texas phase")
  match t.handPhase with
  | .reconstructing street state reveal epochMs deadlineMs =>
    let state := ⟨seatMaskRemove state.pendingMask seatIndex⟩
    let reveal := scrubReveal seatIndex reveal
    return { t with handPhase := .reconstructing street state reveal epochMs deadlineMs }
  | .shuffling phase =>
    let state := ⟨seatMaskRemove phase.state.pendingMask seatIndex,
      seatMaskRemove phase.state.completedMask seatIndex⟩
    let phase := match phase with
      | .initial _ deadlineMs => .initial state deadlineMs
      | .reconstruct street _ reveal deadlineMs =>
        .reconstruct street state (scrubReveal seatIndex reveal) deadlineMs
    return { t with handPhase := .shuffling phase }
  | .revealing street state deadlineMs =>
    return { t with handPhase := .revealing street (scrubReveal seatIndex state) deadlineMs }
  | .waiting | .betting .. | .showdownDisplay _ => return t

/-- The streets on which protocol work can be active. -/
def isLiveStreet (street : ℕ) : Bool :=
  street = roundPreflop || street = roundFlop || street = roundTurn || street = roundRiver ||
    street = roundShowdown

/-- The streets on which players bet. -/
def isBettingStreet (street : ℕ) : Bool :=
  street = roundPreflop || street = roundFlop || street = roundTurn || street = roundRiver

def enterInitialShuffling (state : ShuffleState) (startedAtMs : ℕ) :
    PokerL1Result (TexasPokerTable G) := do
  let deadlineMs ← canonicalAbsoluteDeadline startedAtMs t.rules.timeoutConfig.shuffleTimeoutMs
    "shuffle"
  return { t with handPhase := .shuffling (.initial state deadlineMs) }

def enterReconstructShuffling (street : ℕ) (state : ShuffleState)
    (suspendedReveal : RevealTokenState G) (startedAtMs : ℕ) :
    PokerL1Result (TexasPokerTable G) := do
  ensure (isLiveStreet street)
    (.serialization "Texas reconstruct shuffle is outside a live street")
  suspendedReveal.validateForStreet street
  let deadlineMs ← canonicalAbsoluteDeadline startedAtMs t.rules.timeoutConfig.shuffleTimeoutMs
    "shuffle"
  return { t with handPhase := .shuffling (.reconstruct street state suspendedReveal deadlineMs) }

def enterRevealing (street : ℕ) (state : RevealTokenState G) (startedAtMs : ℕ) :
    PokerL1Result (TexasPokerTable G) := do
  state.validateForStreet street
  let deadlineMs ← canonicalAbsoluteDeadline startedAtMs t.rules.timeoutConfig.revealTimeoutMs
    "reveal"
  return { t with handPhase := .revealing street state deadlineMs }

def enterReconstructing (street : ℕ) (state : ReconstructState)
    (suspendedReveal : RevealTokenState G) (epochMs : ℕ) :
    PokerL1Result (TexasPokerTable G) := do
  suspendedReveal.validateForStreet street
  let deadlineMs ← canonicalAbsoluteDeadline epochMs t.rules.timeoutConfig.reconstructTimeoutMs
    "reconstruct"
  return { t with handPhase := .reconstructing street state suspendedReveal epochMs deadlineMs }

def enterBetting (street : ℕ) (round : BettingRound) (currentTurn startedAtMs : ℕ) :
    PokerL1Result (TexasPokerTable G) := do
  ensure (currentTurn = noSeat ∨ currentTurn < t.rules.maxPlayers) (.serialization
    s!"Texas current turn {currentTurn} is outside max_players {t.rules.maxPlayers}")
  let deadlineMs ← canonicalAbsoluteDeadline startedAtMs t.rules.timeoutConfig.bettingTimeoutMs
    "betting"
  return { t with handPhase := .betting street round currentTurn deadlineMs }

def enterShowdownDisplay (deadlineMs : ℕ) : TexasPokerTable G :=
  { t with handPhase := .showdownDisplay deadlineMs }

/-! ## Deck contributors -/

section Contributors

variable [AddCommGroup G] [DecidableEq G]

/-- The sum of the contributors' live keys; none without a contributor. -/
def aggregatedPkForContributorMask (mask : SeatMask) : PokerL1Result (Option G) := do
  ensure (seatMaskIsCanonical mask t.rules.maxPlayers)
    (.serialization "Texas deck contributor mask contains out-of-range bits")
  let aggregate ← (seatMaskToIndices mask t.rules.maxPlayers).foldlM
    (fun (aggregate : Option G) i => do
      let pk ← orErr (t.seat i).pk
        (.serialization s!"Texas deck contributor seat {i} has no live key")
      ensure ((t.seat i).isOccupied ∧ pk ≠ 0) (.serialization
        s!"Texas deck contributor seat {i} is empty, out, or has identity pk")
      return some (match aggregate with
        | none => pk
        | some current => current + pk)) none
  ensure (aggregate ≠ some 0)
    (.serialization "Texas non-empty contributor set has identity aggregate pk")
  return aggregate

def derivedAggregatedPk : PokerL1Result (Option G) :=
  t.aggregatedPkForContributorMask t.deckState.contributorMask

def addDeckContributor (seatIndex : ℕ) : PokerL1Result (TexasPokerTable G) := do
  ensure (seatIndex < t.rules.maxPlayers)
    (.serialization s!"Texas contributor seat {seatIndex} is out of range")
  let mask := Mask.insert t.deckState.contributorMask seatIndex
  let _ ← t.aggregatedPkForContributorMask mask
  return { t with deckState := { t.deckState with contributorMask := mask } }

def removeDeckContributor (seatIndex : ℕ) : PokerL1Result (TexasPokerTable G) := do
  let mask := seatMaskRemove t.deckState.contributorMask seatIndex
  let _ ← t.aggregatedPkForContributorMask mask
  return { t with deckState := { t.deckState with contributorMask := mask } }

end Contributors

end TexasPokerTable

end TexasPoker
