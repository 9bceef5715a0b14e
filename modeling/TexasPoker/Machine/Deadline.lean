import TexasPoker.Core.Schema
import TexasPoker.Machine.Hand

/-! # Normalization and deadlines

The deterministic stages that run after every command until the table needs new input,
and the consumption of the active phase's deadline.
-/

namespace TexasPoker

/-- The deterministic stages. -/
inductive NormalizationStep where
  | completeReconstruct
  | advanceShuffle
  | completeReveal
  | endWithoutShowdown
  | advanceBettingRound
  deriving DecidableEq, Repr

/-- The stage's name, as error texts print it. -/
def NormalizationStep.text : NormalizationStep → String
  | .completeReconstruct => "CompleteReconstruct"
  | .advanceShuffle => "AdvanceShuffle"
  | .completeReveal => "CompleteReveal"
  | .endWithoutShowdown => "EndWithoutShowdown"
  | .advanceBettingRound => "AdvanceBettingRound"

/-- The deadline of one phase. -/
inductive DeadlineKind where
  | reconstruct
  | shuffle
  | reveal
  | betting
  | showdownDisplay
  deriving DecidableEq, Repr

/-- What consuming a deadline did. -/
inductive AdvanceDeadlineOutcome where
  | noDeadline
  | notDue (kind : DeadlineKind) (subject deadlineMs : ℕ)
  | timeBankExtended (seatIndex deadlineMs : ℕ)
  | advanced (kind : DeadlineKind) (subject : ℕ)
  deriving DecidableEq, Repr

/-- The outcome with the stages run before and after it. -/
structure AdvanceDeadlineExecution where
  preNormalization : List NormalizationStep
  outcome : AdvanceDeadlineOutcome
  postNormalization : List NormalizationStep
  deriving DecidableEq, Repr

variable {G : Type}

namespace TexasPokerTable

variable (t : TexasPokerTable G)

/-- The stage the table is ready for. -/
def nextNormalizationStep : PokerL1Result (Option NormalizationStep) := do
  if t.reconstructPhase ≠ reconstructPhaseNone then
    if t.reconstructState.pendingMask ≠ 0 then return none
    else
      ensure t.deckState.reconstructAccumulated.isSome
        (.serialization "normalize: completed reconstruct has no player contribution")
      return some .completeReconstruct
  else if t.shufflePhase = shufflePhaseReconstruct ∨
      t.shufflePhase = shufflePhaseBeforePreflop then
    if t.shuffleState.pendingMask = 0 then return some .advanceShuffle else return none
  else if t.revealTokenState.isSome then
    if t.revealAssignments.all RevealAssignment.isReady then return some .completeReveal
    else return none
  else if t.isBettingRound then
    if t.countActivePlayers ≤ 1 then return some .endWithoutShowdown
    else if t.currentTurn = noSeat ∨ t.isBettingComplete ∨ t.noFurtherBettingPossible then
      return some .advanceBettingRound
    else return none
  else if t.roundState = roundShowdown then return none
  else
    ensure (¬ isBettingStreet t.roundState) (.serialization
      (s!"normalize: round {t.roundState} has no betting, reveal, shuffle, or " ++
        s!"reconstruct phase"))
    return none

end TexasPokerTable

namespace Exec

variable [AddCommGroup G] [Protocol G] [DecidableEq G]

/-- Run one stage. -/
def runNormalizationStep (s : Exec G) : NormalizationStep → PokerL1Result (Exec G)
  | .completeReconstruct => s.onCompleteReconstruct
  | .advanceShuffle => s.advanceShuffle
  | .completeReveal => s.checkRevealPhaseComplete
  | .endWithoutShowdown => s.endWithoutShowdown
  | .advanceBettingRound => do
    let s ← s.collectBetsToPot
    s.advanceRound

/-- Run one stage, arm the clock it exposes and check the table. -/
def normalizeOnce (nowMs : ℕ) (s : Exec G) (step : NormalizationStep) :
    PokerL1Result (Exec G) := do
  let next ← s.runNormalizationStep step
  ensure (next.table ≠ s.table)
    (.serialization s!"normalize: stage {step.text} made no progress")
  let t ← next.table.armActiveDeadlineIfNeeded nowMs
  t.validateStateSchema
  t.validateHandPhase
  return next.withTable t

/-- Run stages until none is ready, at most as many as there is fuel. -/
def normalizeLoop (nowMs : ℕ) :
    ℕ → Exec G → List NormalizationStep → PokerL1Result (Exec G × List NormalizationStep)
  | 0, _, _ => .error (.serialization
      s!"normalize: exceeded {maxNormalizationSteps} deterministic stages")
  | fuel + 1, s, report => do
    match ← s.table.nextNormalizationStep with
    | none => return (s, report)
    | some step =>
      let next ← normalizeOnce nowMs s step
      normalizeLoop nowMs fuel next (report ++ [step])

/-- Advance the table until it needs new input. -/
def normalizeUntilBlocked (s : Exec G) (nowMs : ℕ) :
    PokerL1Result (Exec G × List NormalizationStep) := do
  let t ← s.table.armActiveDeadlineIfNeeded nowMs
  t.validateStateSchema
  normalizeLoop nowMs maxNormalizationSteps (s.withTable t) []

/-- Run a due phase transition and normalize after it. -/
def advancePhase (nowMs : ℕ) (pre : List NormalizationStep) (kind : DeadlineKind) (subject : ℕ)
    (deadlineMs : ℕ) (s : Exec G) (onTimeout : Exec G → PokerL1Result (Exec G)) :
    PokerL1Result (Exec G × AdvanceDeadlineExecution) := do
  if nowMs < deadlineMs then
    return (s, ⟨pre, .notDue kind subject deadlineMs, []⟩)
  else
    let s ← onTimeout s
    let (s, post) ← s.normalizeUntilBlocked nowMs
    return (s, ⟨pre, .advanced kind subject, post⟩)

/-- Extend a due betting deadline from the time bank, or fold the late player. -/
def advanceBetting (nowMs : ℕ) (pre : List NormalizationStep) (s : Exec G) :
    PokerL1Result (Exec G × AdvanceDeadlineExecution) := do
  let t := s.table
  let subject := t.currentTurn
  ensure (subject ≠ noSeat ∧ subject < t.rules.maxPlayers) (.serialization
    "advance_deadline: betting phase has no canonical current seat")
  let deadlineMs ← orErr t.bettingDeadlineMs
    (.serialization "betting phase has no deadline projection")
  let timeBank := (t.seat subject).timeBankMs
  if deadlineMs ≤ nowMs ∧ 0 < timeBank then
    let consume := min timeBank t.rules.timeoutConfig.bettingTimeoutMs
    let s ← s.consumeTimeBank subject consume
    let (t, extended) ← s.table.extendBettingDeadline consume
    return (s.withTable t, ⟨pre, .timeBankExtended subject extended, []⟩)
  else advancePhase nowMs pre .betting subject deadlineMs s onBettingTimeout

/-- Consume the deadline of the active phase. -/
def advanceDeadlineWithReport (s : Exec G) (nowMs : ℕ) :
    PokerL1Result (Exec G × AdvanceDeadlineExecution) := do
  s.table.validateStateSchema
  let (s, pre) ← s.normalizeUntilBlocked nowMs
  let t := s.table
  if t.reconstructPhase ≠ reconstructPhaseNone then
    let deadlineMs ← orErr (← t.reconstructDeadlineMs)
      (.serialization "reconstruct phase has no deadline projection")
    advancePhase nowMs pre .reconstruct noSeat deadlineMs s onReconstructTimeout
  else if t.shufflePhase = shufflePhaseReconstruct ∨
      t.shufflePhase = shufflePhaseBeforePreflop then
    let deadlineMs ← orErr t.shuffleDeadlineMs
      (.serialization "shuffle phase has no deadline projection")
    advancePhase nowMs pre .shuffle t.shuffleState.derivedCurrentShuffler deadlineMs s
      onShuffleTimeout
  else if t.revealTokenState.isSome then
    let deadlineMs ← orErr t.revealDeadlineMs
      (.serialization "reveal phase has no deadline projection")
    advancePhase nowMs pre .reveal ((seatMaskFirst (revealPendingMask t)).getD noSeat) deadlineMs
      s fun s => s.onRevealTimeout nowMs
  else if t.isBettingRound then advanceBetting nowMs pre s
  else if t.roundState = roundShowdown then
    let deadlineMs ← orErr t.showdownDeadlineMs
      (.serialization "showdown phase has no deadline projection")
    advancePhase nowMs pre .showdownDisplay noSeat deadlineMs s settleHand
  else return (s, ⟨pre, .noDeadline, []⟩)

end Exec

end TexasPoker
