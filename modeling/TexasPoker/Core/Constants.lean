import Mathlib.Data.Nat.Notation

/-! # Table constants

The `u8` codes and limits of `constants.rs`, `types.rs` and `events.rs`, under the
source's names.
-/

namespace TexasPoker

/-! ## Players and cards -/

abbrev minPlayersToStart : ℕ := 2

abbrev maxPlayers : ℕ := 9

abbrev cardsPerPlayer : ℕ := 2

/-- Number of seat slots of every table. -/
abbrev maxSeats : ℕ := 9

/-- The missing seat index. -/
abbrev noSeat : ℕ := 15

abbrev cipherDeckSize : ℕ := 52

abbrev holeCardSlots : ℕ := 2

/-! ## Rounds -/

abbrev roundWaiting : ℕ := 0

abbrev roundPreflop : ℕ := 2

abbrev roundFlop : ℕ := 3

abbrev roundTurn : ℕ := 4

abbrev roundRiver : ℕ := 5

abbrev roundShowdown : ℕ := 6

/-! ## Protocol phases -/

abbrev shufflePhaseNone : ℕ := 0

abbrev shufflePhaseReconstruct : ℕ := 2

abbrev shufflePhaseBeforePreflop : ℕ := 3

abbrev revealPhaseNone : ℕ := 0

abbrev revealPhasePreflop : ℕ := 1

abbrev revealPhaseFlop : ℕ := 3

abbrev revealPhaseTurn : ℕ := 4

abbrev revealPhaseRiver : ℕ := 5

abbrev revealPhaseShowdown : ℕ := 6

abbrev reconstructPhaseNone : ℕ := 0

abbrev reconstructPhaseCollecting : ℕ := 1

/-! ## Reasons -/

abbrev refundTypeStackOnly : ℕ := 0

abbrev refundTypeBetOnly : ℕ := 2

abbrev resetReasonTimeout : ℕ := 0

abbrev resetReasonReconstructFail : ℕ := 2

abbrev foldReasonManual : ℕ := 0

abbrev foldReasonAutoTimeout : ℕ := 1

abbrev foldReasonForceAdmin : ℕ := 2

abbrev deckRebuiltReasonShuffleTimeout : ℕ := 0

abbrev deckRebuiltReasonReconstructComplete : ℕ := 1

abbrev triggerActionCallAllIn : ℕ := 0

abbrev triggerActionRaiseAllIn : ℕ := 1

abbrev potTypeMain : ℕ := 0

abbrev potTypeSide : ℕ := 1

/-! ## Amounts and times -/

abbrev defaultShuffleTimeoutMs : ℕ := 10000

abbrev defaultRevealTimeoutMs : ℕ := 10000

abbrev defaultBettingTimeoutMs : ℕ := 30000

abbrev defaultReconstructTimeoutMs : ℕ := 10000

abbrev defaultShowdownDisplayMs : ℕ := 3000

/-- Upper bound of the chips one table may hold. -/
abbrev maxTotalBet : ℕ := 1000000000000000000

abbrev defaultTimeBankMs : ℕ := 30000

abbrev timeBankRefillPerHandMs : ℕ := 10000

/-! ## Modes -/

abbrev anteModeNone : ℕ := 0

abbrev anteModeNormal : ℕ := 1

abbrev anteModeBba : ℕ := 2

abbrev rakeModeNone : ℕ := 0

abbrev rakeModePercentage : ℕ := 1

abbrev defaultRakeBps : ℕ := 500

abbrev defaultRakeCap : ℕ := 1000

abbrev ritModeDisabled : ℕ := 0

abbrev ritModeTwice : ℕ := 1

/-- Largest number of deterministic stages one normalization may run. -/
abbrev maxNormalizationSteps : ℕ := 32

/-! ## Record widths -/

abbrev seatRecordWidth : ℕ := 512

abbrev handPhaseRecordWidth : ℕ := 4096

end TexasPoker
