import TexasPoker.Core.Card
import TexasPoker.Core.Protocol
import TexasPoker.Core.SeatMask

/-! # Hand phases

The single active phase of a hand with its payload. A reveal suspended by a
reconstruction travels inside the phase that suspends it.
-/

namespace TexasPoker

variable {G : Type}

/-- Reason of the active shuffle. -/
inductive ShufflingPurpose where
  | initial
  | reconstruct
  deriving DecidableEq, Repr

/-- Who still has to shuffle and who has. -/
structure ShuffleState where
  pendingMask : SeatMask
  completedMask : SeatMask
  deriving DecidableEq

/-- The shuffler is the lowest pending seat. -/
def ShuffleState.derivedCurrentShuffler (s : ShuffleState) : ℕ :=
  (seatMaskFirst s.pendingMask).getD noSeat

/-- Where a revealed card goes. -/
inductive RevealTarget where
  | hole (seatIndex cardSlot : ℕ)
  | board (runoutIndex boardPosition : ℕ)
  deriving DecidableEq, Repr

/-- Sort key of the reveal assignments. -/
def RevealTarget.canonicalKey : RevealTarget → ℕ × ℕ × ℕ
  | .hole seatIndex cardSlot => (0, seatIndex, cardSlot)
  | .board runoutIndex boardPosition => (1, runoutIndex, boardPosition)

/-- Lexicographic order of sort keys. -/
def keyLt (a b : ℕ × ℕ × ℕ) : Bool :=
  a.1 < b.1 || a.1 = b.1 && (a.2.1 < b.2.1 || a.2.1 = b.2.1 && a.2.2 < b.2.2)

/-- One card being revealed: who owes a token, who gave one, and the tokens. -/
structure RevealAssignment (G : Type) where
  encryptedCardIndex : ℕ
  target : RevealTarget
  pendingMask : SeatMask
  submittedMask : SeatMask
  revealTokens : List G
  deriving DecidableEq

def RevealAssignment.isReady (a : RevealAssignment G) : Bool := a.pendingMask = 0

/-- Street at which two runouts started. -/
inductive RitStartStreet where
  | preflop
  | flop
  | turn
  deriving DecidableEq, Repr

def RitStartStreet.sharedBoardLen : RitStartStreet → ℕ
  | .preflop => 0
  | .flop => 3
  | .turn => 4

def RitStartStreet.fromSharedBoardLen : ℕ → PokerL1Result RitStartStreet
  | 0 => .ok .preflop
  | 3 => .ok .flop
  | 4 => .ok .turn
  | value => .error (.serialization
      s!"Texas RIT shared prefix {value} has no canonical start street")

/-- One runout, or two with the suffix of the second board. -/
inductive RunItTwiceState where
  | single
  | twice (start : RitStartStreet) (secondBoardSuffix : BoardCards)
  deriving DecidableEq, Repr

namespace RunItTwiceState

def isActive : RunItTwiceState → Bool
  | .single => false
  | .twice .. => true

def sharedBoardLen : RunItTwiceState → ℕ
  | .single => 0
  | .twice start _ => start.sharedBoardLen

def secondBoardSuffix : RunItTwiceState → List Card
  | .single => []
  | .twice _ suffix => suffix.cards

def secondBoardLen (s : RunItTwiceState) : ℕ := s.sharedBoardLen + s.secondBoardSuffix.length

/-- The shared prefix of the first board followed by the second board's suffix. -/
def fullSecondBoard (s : RunItTwiceState) (first : BoardCards) : PokerL1Result (List Card) := do
  ensure (s.sharedBoardLen ≤ first.len)
    (.serialization "Texas RIT shared prefix exceeds first board")
  return first.cards.take s.sharedBoardLen ++ s.secondBoardSuffix

def validateCanonical (s : RunItTwiceState) (first : BoardCards) : PokerL1Result Unit :=
  match s with
  | .single => .ok ()
  | .twice start suffix => do
    labelled "Texas RIT second-board suffix is non-canonical"
      (BoardCards.validateCanonical suffix)
    ensure (start.sharedBoardLen ≤ 4 ∧ start.sharedBoardLen ≤ first.len)
      (.serialization "Texas RIT shared prefix is outside the first board")
    ensure (start.sharedBoardLen + suffix.len ≤ 5)
      (.serialization "Texas RIT second board exceeds five cards")

end RunItTwiceState

/-- Purpose of a reveal. -/
inductive RevealPurpose where
  | dealHole
  | board
  | showdownOwner
  deriving DecidableEq, Repr

/-- Numeric reveal phase of a purpose on a street; `revealPhaseNone` when they disagree. -/
def RevealPurpose.legacyPhase (purpose : RevealPurpose) (street : ℕ) : ℕ :=
  match purpose with
  | .dealHole => if street = roundPreflop then revealPhasePreflop else revealPhaseNone
  | .board =>
    if street = roundFlop then revealPhaseFlop
    else if street = roundTurn then revealPhaseTurn
    else if street = roundRiver then revealPhaseRiver
    else revealPhaseNone
  | .showdownOwner => if street = roundShowdown then revealPhaseShowdown else revealPhaseNone

/-- The purpose's name, as error texts print it. -/
def RevealPurpose.text : RevealPurpose → String
  | .dealHole => "DealHole"
  | .board => "Board"
  | .showdownOwner => "ShowdownOwner"

/-- Reveal tokens being collected. -/
structure RevealTokenState (G : Type) where
  purpose : RevealPurpose
  assignments : List (RevealAssignment G)
  deriving DecidableEq

namespace RevealTokenState

/-- The target's shape fits the purpose. -/
def targetMatches (purpose : RevealPurpose) : RevealTarget → Bool
  | .hole _ cardSlot => (purpose = .dealHole || purpose = .showdownOwner) && cardSlot < 2
  | .board runoutIndex boardPosition =>
    purpose = .board && runoutIndex < 2 && boardPosition < 5

/-- Check the assignments from position `i` on, after the key and card indices seen so far. -/
def validateAssignments (purpose : RevealPurpose) :
    ℕ → Option (ℕ × ℕ × ℕ) → List ℕ → List (RevealAssignment G) → PokerL1Result Unit
  | _, _, _, [] => .ok ()
  | i, prior, seen, a :: rest => do
    ensure (targetMatches purpose a.target)
      (.serialization
        s!"Texas reveal assignment {i} target is incompatible with purpose {purpose.text}")
    let key := a.target.canonicalKey
    ensure (∀ p ∈ prior, keyLt p key)
      (.serialization s!"Texas reveal assignment {i} target order is not canonical")
    ensure (a.encryptedCardIndex < 52 ∧ a.encryptedCardIndex ∉ seen)
      (.serialization (s!"Texas reveal assignment {i} has duplicate/out-of-range encrypted " ++
        s!"card index {a.encryptedCardIndex}"))
    validateAssignments purpose (i + 1) (some key) (a.encryptedCardIndex :: seen) rest

def validateForStreet (s : RevealTokenState G) (street : ℕ) : PokerL1Result Unit := do
  ensure (s.purpose.legacyPhase street ≠ revealPhaseNone)
    (.serialization
      s!"Texas reveal purpose {s.purpose.text} is incompatible with street {street}")
  validateAssignments s.purpose 0 none [] s.assignments

end RevealTokenState

/-- Who still owes a reconstruction contribution. -/
structure ReconstructState where
  pendingMask : SeatMask
  deriving DecidableEq

/-- Price of the betting round and its smallest raise. -/
structure BettingRound where
  currentBet : ℕ
  minRaise : ℕ
  deriving DecidableEq, Repr

/-- The two kinds of shuffle; only a reconstruct shuffle suspends a reveal. -/
inductive ShufflingPhase (G : Type) where
  | initial (state : ShuffleState) (deadlineMs : ℕ)
  | reconstruct (street : ℕ) (state : ShuffleState) (suspendedReveal : RevealTokenState G)
      (deadlineMs : ℕ)
  deriving DecidableEq

namespace ShufflingPhase

def purpose : ShufflingPhase G → ShufflingPurpose
  | .initial .. => .initial
  | .reconstruct .. => .reconstruct

def street : ShufflingPhase G → ℕ
  | .initial .. => roundWaiting
  | .reconstruct street .. => street

def state : ShufflingPhase G → ShuffleState
  | .initial state _ => state
  | .reconstruct _ state _ _ => state

def deadlineMs : ShufflingPhase G → ℕ
  | .initial _ deadlineMs => deadlineMs
  | .reconstruct _ _ _ deadlineMs => deadlineMs

def withState (state : ShuffleState) : ShufflingPhase G → ShufflingPhase G
  | .initial _ d => .initial state d
  | .reconstruct street _ r d => .reconstruct street state r d

def withDeadline (deadlineMs : ℕ) : ShufflingPhase G → ShufflingPhase G
  | .initial state _ => .initial state deadlineMs
  | .reconstruct street state r _ => .reconstruct street state r deadlineMs

@[simp] theorem state_withState (phase : ShufflingPhase G) (state : ShuffleState) :
    (phase.withState state).state = state := by
  cases phase <;> rfl

end ShufflingPhase

/-- The single active phase of a hand. -/
inductive HandPhase (G : Type) where
  | waiting
  | shuffling (phase : ShufflingPhase G)
  | revealing (street : ℕ) (state : RevealTokenState G) (deadlineMs : ℕ)
  | reconstructing (street : ℕ) (state : ReconstructState)
      (suspendedReveal : RevealTokenState G) (epochMs deadlineMs : ℕ)
  | betting (street : ℕ) (round : BettingRound) (currentTurn deadlineMs : ℕ)
  | showdownDisplay (deadlineMs : ℕ)
  deriving DecidableEq

end TexasPoker
