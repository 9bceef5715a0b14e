import TexasPoker.Core.Event
import TexasPoker.Core.Schema

/-! # Seat queries

Execution states of the table's transitions and the read-only scans over its seats.
-/

namespace TexasPoker

/-- A table under a transition and the events emitted so far. -/
structure Exec (G : Type) where
  table : TexasPokerTable G
  events : List TexasPokerEvent

namespace Exec

variable {G : Type} (s : Exec G)

def emit (e : TexasPokerEvent) : Exec G := { s with events := s.events ++ [e] }

/-- Replace the table. -/
def withTable (t : TexasPokerTable G) : Exec G := { s with table := t }

@[simp] theorem emit_table (e : TexasPokerEvent) : (s.emit e).table = s.table := rfl

@[simp] theorem withTable_table (t : TexasPokerTable G) : (s.withTable t).table = t := rfl

@[simp] theorem withTable_events (t : TexasPokerTable G) : (s.withTable t).events = s.events := rfl

end Exec

/-- The seats with a property as a mask. -/
def maskOf (p : Fin maxSeats → Bool) : SeatMask :=
  (List.finRange maxSeats).foldl (fun mask i => if p i then Mask.insert mask i else mask) 0

theorem mem_maskOf_iff {p : Fin maxSeats → Bool} {j : ℕ} :
    Mask.mem (maskOf p) j = true ↔ ∃ i, p i = true ∧ j = i.1 := by
  rw [maskOf, Mask.mem_foldl_insert fun i _ _ => i.isLt.trans (by decide)]
  simp

@[simp] theorem mem_maskOf {p : Fin maxSeats → Bool} {j : Fin maxSeats} :
    Mask.mem (maskOf p) j = p j := by
  rw [Bool.eq_iff_iff, mem_maskOf_iff]
  simp [← Fin.ext_iff]

namespace TexasPokerTable

variable {G : Type} (t : TexasPokerTable G)

/-- Apply a fallible update to every slot, in seat order. -/
def mapSeatsM (f : Fin maxSeats → Seat G → PokerL1Result (Seat G)) :
    PokerL1Result (TexasPokerTable G) :=
  (List.finRange maxSeats).foldlM (fun t i => do return t.setSeat i (← f i (t.seats i))) t

/-- Between hands or during a fresh shuffle. -/
def canJoinState : Bool := t.roundState = roundWaiting

def canLeaveState : Bool := t.canJoinState

/-- In a betting phase on a betting street. -/
def isBettingRound : Bool := t.bettingRound.isSome && isBettingStreet t.roundState

def isPlayerTurn (seatIndex : ℕ) : Bool := t.currentTurn = seatIndex

def isPkRegistered [DecidableEq G] (pk : G) : Bool :=
  (List.finRange maxSeats).any fun i => (t.seats i).pk = some pk

/-- Occupied seats that neither folded nor wait. -/
def countActivePlayers : ℕ := (List.finRange maxSeats).countP fun i => (t.seats i).isLive

/-- Seats of the current hand, folded ones included. -/
def countActiveOccupied : ℕ := (List.finRange maxSeats).countP fun i => (t.seats i).participates

def getActiveSeatIndices : List ℕ :=
  ((List.finRange maxSeats).filter fun i => (t.seats i).participates).map Fin.val

def getActiveSeatMask : SeatMask := maskOf fun i => (t.seats i).participates

/-- The seats of the current hand that have not completed a shuffle. -/
def getPendingSeatMask (completed : SeatMask) : SeatMask :=
  maskOf fun i => (t.seats i).participates && !seatMaskContains completed i

/-- The first seat clockwise after `start` with a property. -/
def findNext (p : Seat G → Bool) (start : ℕ) : Option ℕ :=
  ((List.range' 1 t.rules.maxPlayers).map fun offset => (start + offset) % t.rules.maxPlayers).find?
    fun i => p (t.seat i)

def findNextActiveSeat (start : ℕ) : Option ℕ := t.findNext Seat.isActionable start

def findNextParticipatingSeat (start : ℕ) : Option ℕ := t.findNext Seat.participates start

def hasActionablePlayer : Bool := (List.finRange maxSeats).any fun i => (t.seats i).isActionable

/-- Live players who can still wager. -/
def countActionablePlayers : ℕ :=
  (List.finRange maxSeats).countP fun i => (t.seats i).isActionable && !(t.seats i).hasLeftHand

/-- Two or more unfolded players, at most one of them able to wager, and that one owes
nothing. -/
def noFurtherBettingPossible : Bool :=
  if t.countActivePlayers < 2 ∨ 1 < t.countActionablePlayers then false
  else
    match t.bettingRound with
    | none => false
    | some round =>
      (List.finRange maxSeats).all fun i =>
        !((t.seats i).isActionable && !(t.seats i).hasLeftHand) ||
          (t.seats i).bet = round.currentBet

/-- Everybody able to act has acted and matched the price. -/
def isBettingComplete : Bool :=
  match t.bettingRound with
  | none => true
  | some round =>
    (List.finRange maxSeats).all fun i =>
      !(t.seats i).isActionable ||
        (t.seatActedThisRound i && (t.seats i).bet = round.currentBet)

/-! ## The vault -/

def sumStacks : ℕ := (List.ofFn fun i => (t.seats i).stack).sum

def sumPendingAddons : ℕ := (List.ofFn fun i => (t.seats i).pendingAddon).sum

def sumBets : ℕ := (List.ofFn fun i => (t.seats i).bet).sum

def sumTotalBets : ℕ := (List.ofFn fun i => (t.seats i).totalBet).sum

/-- Check that stacks, addons, the pot and the live bets make up the chip pool, and the pot
and the live bets the contributions. -/
def reconcileTableVault [AddCommGroup G] [DecidableEq G] : PokerL1Result ℕ := do
  t.validateStateSchema
  let stackSum ← checkedSum (List.ofFn fun i => (t.seats i).stack)
    (.other "Texas seat stack sum overflow")
  let pendingAddons ← checkedSum (List.ofFn fun i => (t.seats i).pendingAddon)
    (.other "Texas pending addon sum overflow")
  let currentBets ← checkedSum (List.ofFn fun i => (t.seats i).bet)
    (.other "Texas current bet sum overflow")
  let totalBets ← checkedSum (List.ofFn fun i => (t.seats i).totalBet)
    (.other "Texas total bet sum overflow")
  let wagersInCustody ← checkedAdd t.pot currentBets
    (.other "Texas wager custody sum overflow")
  ensure (wagersInCustody = totalBets) (.other
    (s!"Texas wager ledger mismatch: pot={t.pot} current_bets={currentBets}, " ++
      s!"total_bets={totalBets}"))
  let held ← checkedAdd stackSum pendingAddons (.other "Texas TableVault accounting overflow")
  let accounted ← checkedAdd held wagersInCustody
    (.other "Texas TableVault accounting overflow")
  ensure (accounted = t.chipPool) (.other
    (s!"Texas TableVault invariant violated: stacks={stackSum}, " ++
      s!"pending_addons={pendingAddons}, pot={t.pot}, current_bets={currentBets}, " ++
      s!"accounted={accounted}, chip_pool={t.chipPool}"))
  return accounted

end TexasPokerTable

end TexasPoker
