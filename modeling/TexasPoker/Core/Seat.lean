import TexasPoker.Core.Card
import TexasPoker.Core.Protocol

/-! # Seats

A slot is vacant, occupied by a player who waits for the next hand, playing in the
current hand, or departed from it; each variant carries only its own data.
-/

namespace TexasPoker

variable {G : Type}

/-- Lifecycle of a slot, without its data. -/
inductive SeatStatus where
  | empty
  | waiting
  | active
  | folded
  | allIn
  | out
  deriving DecidableEq, Repr

/-- Identity and custody data of an occupied seat. -/
structure OccupiedSeat (G : Type) where
  player : Address
  stack : ℕ
  pk : G
  txPk : StarkTxPubkey
  pendingAddon : ℕ
  timeBankMs : ℕ
  deriving DecidableEq

/-- Status of a player of the current hand. -/
inductive PlayingSeatStatus where
  | active
  | folded
  | allIn
  deriving DecidableEq, Repr

/-- Data of a player of the current hand. -/
structure PlayingSeat (G : Type) where
  occupied : OccupiedSeat G
  hand : HoleCards
  bet : ℕ
  totalBet : ℕ
  status : PlayingSeatStatus
  deriving DecidableEq

/-- One slot of the table. -/
inductive Seat (G : Type) where
  | vacant (timeBankMs : ℕ)
  | waiting (occupied : OccupiedSeat G)
  | playing (playing : PlayingSeat G)
  | departedThisHand (player : Address) (totalBet timeBankMs : ℕ)
  deriving DecidableEq

namespace Seat

/-- The unique vacant slot of a fresh table. -/
def empty : Seat G := .vacant defaultTimeBankMs

instance : Inhabited (Seat G) := ⟨empty⟩

/-- A player's clean data at the start of a hand. -/
def newPlaying (occupied : OccupiedSeat G) : PlayingSeat G where
  occupied
  hand := .empty
  bet := 0
  totalBet := 0
  status := .active

/-- Seat a new player, waiting or already active. -/
def newOccupied [Zero G] [DecidableEq G] (player : Address) (stack : ℕ) (pk : G)
    (txPk : TaggedPubkey) (status : SeatStatus) : PokerL1Result (Seat G) := do
  ensure (player ≠ emptyPlayer)
    (.serialization "Texas occupied seat cannot use the empty player address")
  ensure (status = .waiting ∨ status = .active)
    (.serialization "Texas newly occupied seat must be waiting or active")
  ensure (pk ≠ 0)
    (.serialization "Texas newly occupied seat cannot use an identity public key")
  let txPk ← orErr (StarkTxPubkey.fromTagged txPk)
    (.serialization "Texas join tx_pk must be a Stark-scheme 32-byte compressed point")
  let occupied : OccupiedSeat G :=
    { player, stack, pk, txPk, pendingAddon := 0, timeBankMs := defaultTimeBankMs }
  return if status = .waiting then .waiting occupied else .playing (newPlaying occupied)

/-- Keep a leaving player's contribution until the hand is settled. -/
def departThisHand : Seat G → PokerL1Result (Seat G)
  | .waiting o => .ok (.departedThisHand o.player 0 o.timeBankMs)
  | .playing p => .ok (.departedThisHand p.occupied.player p.totalBet p.occupied.timeBankMs)
  | .vacant _ => .error (.serialization "Texas cannot depart a vacant seat")
  | s@(.departedThisHand ..) => .ok s

/-- Clear a player's hand for the next one; a waiting seat keeps waiting. -/
def prepareNextHand : Seat G → Seat G
  | .playing p => .playing (newPlaying p.occupied)
  | s => s

/-- Take the live bet away. -/
def clearBet : Seat G → Seat G
  | .playing p => .playing { p with bet := 0 }
  | s => s

/-- Let a waiting player take part in the next hand. -/
def promoteWaiting : Seat G → Seat G
  | .waiting o => .playing (newPlaying o)
  | s => s

def isVacant : Seat G → Bool
  | .vacant _ => true
  | _ => false

def isOccupied : Seat G → Bool
  | .waiting _ | .playing _ => true
  | _ => false

def status : Seat G → SeatStatus
  | .vacant _ => .empty
  | .waiting _ => .waiting
  | .playing p =>
    match p.status with
    | .active => .active
    | .folded => .folded
    | .allIn => .allIn
  | .departedThisHand .. => .out

def isFolded (s : Seat G) : Bool := s.status = .folded

def isAllIn (s : Seat G) : Bool := s.status = .allIn

def isWaiting : Seat G → Bool
  | .waiting _ => true
  | _ => false

def hasLeftHand : Seat G → Bool
  | .departedThisHand .. => true
  | _ => false

/-- Set the status of a seat that takes part in the hand; the source panics on any other. -/
def setStatus (status : PlayingSeatStatus) : Seat G → Seat G
  | .playing p => .playing { p with status }
  | s => s

def player : Seat G → Address
  | .vacant _ => emptyPlayer
  | .waiting o => o.player
  | .playing p => p.occupied.player
  | .departedThisHand player .. => player

def stack : Seat G → ℕ
  | .waiting o => o.stack
  | .playing p => p.occupied.stack
  | _ => 0

def bet : Seat G → ℕ
  | .playing p => p.bet
  | _ => 0

def totalBet : Seat G → ℕ
  | .playing p => p.totalBet
  | .departedThisHand _ totalBet _ => totalBet
  | _ => 0

def pendingAddon : Seat G → ℕ
  | .waiting o => o.pendingAddon
  | .playing p => p.occupied.pendingAddon
  | _ => 0

def timeBankMs : Seat G → ℕ
  | .vacant t => t
  | .waiting o => o.timeBankMs
  | .playing p => p.occupied.timeBankMs
  | .departedThisHand _ _ t => t

def pk : Seat G → Option G
  | .waiting o => some o.pk
  | .playing p => some p.occupied.pk
  | _ => none

def hand : Seat G → Option HoleCards
  | .playing p => some p.hand
  | _ => none

/-- Number of cards in hand. -/
def handLen (s : Seat G) : ℕ := (s.hand.map CardSlots.len).getD 0

/-- The data of a player of the current hand. -/
def playingMut : Seat G → PokerL1Result (PlayingSeat G)
  | .playing p => .ok p
  | _ => .error (.serialization "Texas seat is not participating in the current hand")

def setStack (stack : ℕ) : Seat G → PokerL1Result (Seat G)
  | .waiting o => .ok (.waiting { o with stack })
  | .playing p => .ok (.playing { p with occupied := { p.occupied with stack } })
  | s => if stack = 0 then .ok s
      else .error (.serialization "Texas vacant/departed seat cannot carry a stack")

def setBet (bet : ℕ) : Seat G → PokerL1Result (Seat G)
  | .playing p => .ok (.playing { p with bet })
  | s => if bet = 0 then .ok s
      else .error (.serialization "Texas non-playing seat cannot carry a round wager")

def setTotalBet (totalBet : ℕ) : Seat G → PokerL1Result (Seat G)
  | .playing p => .ok (.playing { p with totalBet })
  | .departedThisHand player _ t => .ok (.departedThisHand player totalBet t)
  | s => if totalBet = 0 then .ok s
      else .error (.serialization "Texas non-playing seat cannot carry a hand contribution")

def setPendingAddon (pendingAddon : ℕ) : Seat G → PokerL1Result (Seat G)
  | .waiting o => .ok (.waiting { o with pendingAddon })
  | .playing p => .ok (.playing { p with occupied := { p.occupied with pendingAddon } })
  | s => if pendingAddon = 0 then .ok s
      else .error (.serialization "Texas vacant/departed seat cannot carry a pending addon")

def setTimeBankMs (value : ℕ) : Seat G → Seat G
  | .vacant _ => .vacant value
  | .waiting o => .waiting { o with timeBankMs := value }
  | .playing p => .playing { p with occupied := { p.occupied with timeBankMs := value } }
  | .departedThisHand player totalBet _ => .departedThisHand player totalBet value

/-- Identity and key of an occupied seat. -/
def validateOccupiedSeat [Zero G] [DecidableEq G] (o : OccupiedSeat G) : PokerL1Result Unit := do
  ensure (o.player ≠ emptyPlayer)
    (.serialization "Texas occupied seat cannot use the empty player address")
  ensure (o.pk ≠ 0) (.serialization "Texas occupied seat cannot use an identity public key")

def validateCanonical [Zero G] [DecidableEq G] : Seat G → PokerL1Result Unit
  | .vacant _ => .ok ()
  | .waiting o => validateOccupiedSeat o
  | .playing p => do
    validateOccupiedSeat p.occupied
    labelled "Texas seat hand is non-canonical" (HoleCards.validateCanonical p.hand)
  | .departedThisHand player .. =>
    ensure (player ≠ emptyPlayer)
      (.serialization "Texas departed seat cannot use the empty player address")

/-- Credit the pending addon of an occupied seat. -/
def mergeAddon : Seat G → Seat G
  | .waiting o => .waiting { o with stack := o.stack + o.pendingAddon, pendingAddon := 0 }
  | .playing p =>
    let occupied := { p.occupied with
      stack := p.occupied.stack + p.occupied.pendingAddon, pendingAddon := 0 }
    .playing { p with occupied }
  | s => s

/-- Refill the time bank of an occupied seat up to its cap. -/
def refillTimeBank (s : Seat G) : Seat G :=
  if s.isOccupied then
    s.setTimeBankMs (min (min (s.timeBankMs + timeBankRefillPerHandMs) u32Max) defaultTimeBankMs)
  else s

theorem isWaiting_iff {s : Seat G} : s.isWaiting = true ↔ ∃ o, s = .waiting o := by
  cases s <;> simp [isWaiting]

/-- Two seats agree on everything a stack update keeps. -/
structure SameButStack (s s' : Seat G) : Prop where
  addon : s'.pendingAddon = s.pendingAddon
  bet : s'.bet = s.bet
  totalBet : s'.totalBet = s.totalBet
  status : s'.status = s.status
  hand : s'.hand = s.hand
  pk : s'.pk = s.pk
  player : s'.player = s.player

theorem setStack_eq_ok {s s' : Seat G} {stack : ℕ} (h : s.setStack stack = .ok s') :
    s'.stack = stack ∧ SameButStack s s' := by
  cases s with
  | waiting o =>
    cases h
    exact ⟨rfl, rfl, rfl, rfl, rfl, rfl, rfl, rfl⟩
  | playing p =>
    cases h
    exact ⟨rfl, rfl, rfl, rfl, rfl, rfl, rfl, rfl⟩
  | vacant _ =>
    simp only [setStack] at h
    split at h
    · rename_i h0
      cases h
      exact ⟨h0.symm, rfl, rfl, rfl, rfl, rfl, rfl, rfl⟩
    · cases h
  | departedThisHand _ _ _ =>
    simp only [setStack] at h
    split at h
    · rename_i h0
      cases h
      exact ⟨h0.symm, rfl, rfl, rfl, rfl, rfl, rfl, rfl⟩
    · cases h

/-! ## Predicates of the current hand -/

/-- In the current hand: occupied and not waiting. -/
def participates (s : Seat G) : Bool := s.isOccupied && !s.isWaiting

/-- In the current hand and not folded. -/
def isLive (s : Seat G) : Bool := s.isOccupied && !s.isFolded && !s.isWaiting

/-- Able to act in a betting round. -/
def isActionable (s : Seat G) : Bool :=
  s.isOccupied && !s.isFolded && !s.isAllIn && !s.isWaiting

end Seat

end TexasPoker
