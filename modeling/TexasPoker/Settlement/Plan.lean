import TexasPoker.Core.Phase
import TexasPoker.Poker.HandRank
import TexasPoker.Poker.SidePot

/-! # Settlement plans

Boards and plans of a settlement, and the conservation checks a plan must pass before it
is applied.
-/

namespace TexasPoker

/-- One amount for every seat. -/
abbrev SeatAmounts := Fin maxSeats → ℕ

namespace SeatAmounts

def zero : SeatAmounts := fun _ => 0

/-- Overwrite the amount of one seat. -/
def put (a : SeatAmounts) (seat amount : ℕ) : SeatAmounts :=
  fun i => if i.1 = seat then amount else a i

/-- Seatwise addition, failing on overflow. -/
def add (a b : SeatAmounts) (e : PokerL1Error) : PokerL1Result SeatAmounts :=
  if ∀ i, a i + b i ≤ u64Max then .ok fun i => a i + b i else .error e

/-- The sum over all seats, failing on overflow. -/
def total (a : SeatAmounts) (e : PokerL1Error) : PokerL1Result ℕ := checkedSum (List.ofFn a) e

@[simp] theorem add_eq_ok {a b c : SeatAmounts} {e : PokerL1Error} :
    a.add b e = .ok c ↔ (∀ i, a i + b i ≤ u64Max) ∧ c = fun i => a i + b i := by
  unfold add
  split <;> simp_all [eq_comm]

end SeatAmounts

/-! ## Boards -/

/-- The boards of a settlement: one, or two with a shared prefix. -/
inductive SettlementBoards where
  | single (board : List Card)
  | twice (start : RitStartStreet) (board1 board2 : List Card)
  deriving DecidableEq, Repr

/-- Number and shared prefix of the runouts. -/
inductive SettlementRunoutSchedule where
  | single
  | twice (start : RitStartStreet)
  deriving DecidableEq, Repr

def SettlementRunoutSchedule.count : SettlementRunoutSchedule → ℕ
  | .single => 1
  | .twice _ => 2

def SettlementRunoutSchedule.sharedBoardLen : SettlementRunoutSchedule → ℕ
  | .single => 0
  | .twice start => start.sharedBoardLen

namespace SettlementBoards

def schedule : SettlementBoards → SettlementRunoutSchedule
  | .single _ => .single
  | .twice start .. => .twice start

def runoutCount (b : SettlementBoards) : ℕ := b.schedule.count

def sharedBoardLen (b : SettlementBoards) : ℕ := b.schedule.sharedBoardLen

def board1 : SettlementBoards → List Card
  | .single board => board
  | .twice _ board1 _ => board1

def board2 : SettlementBoards → List Card
  | .single _ => []
  | .twice _ _ board2 => board2

def board (b : SettlementBoards) (runoutIndex : ℕ) : List Card :=
  if runoutIndex = 0 then b.board1 else b.board2

/-- Five valid cards a board, one shared prefix, no repeated card. -/
def validate (b : SettlementBoards) : PokerL1Result Unit := do
  ensure (b.board1.length = 5) (.serialization
    s!"settlement: board 1 must contain exactly 5 cards, got {b.board1.length}")
  match b with
  | .single _ => pure ()
  | .twice start board1 board2 =>
    ensure (board2.length = 5) (.serialization
      s!"settlement: board 2 must contain exactly 5 cards, got {board2.length}")
    ensure (board1.take start.sharedBoardLen = board2.take start.sharedBoardLen)
      (.serialization "settlement: runout boards disagree on their shared prefix")
  ensure ((b.board1 ++ b.board2).all Card.isValid)
    (.serialization "settlement: runout contains an invalid card")
  ensure (b.board1.map Card.index).Nodup
    (.serialization "settlement: duplicate card within board 1")
  ensure ((b.board1 ++ b.board2.drop b.sharedBoardLen).map Card.index).Nodup
    (.serialization "settlement: duplicate non-shared card across runouts")

end SettlementBoards

/-! ## Plans -/

/-- One pot on one runout. -/
structure RunoutPotPlan where
  amount : ℕ
  winnerMask : SeatMask
  ranks : Fin maxSeats → Option HandRank
  awards : SeatAmounts
  deriving DecidableEq

def RunoutPotPlan.inactive : RunoutPotPlan := ⟨0, 0, fun _ => none, .zero⟩

def RunoutPotPlan.isActive (r : RunoutPotPlan) : Bool := r.winnerMask ≠ 0

/-- The two runouts are numbered. -/
instance runoutCount_neZero : NeZero 2 := ⟨by decide⟩

/-- One layer of the pot. -/
structure SettlementPotPlan where
  potIndex : ℕ
  grossAmount : ℕ
  rake : ℕ
  netAmount : ℕ
  eligibleMask : SeatMask
  runouts : Fin 2 → RunoutPotPlan
  deriving DecidableEq

def SettlementPotPlan.inactive : SettlementPotPlan := ⟨0, 0, 0, 0, 0, fun _ => .inactive⟩

/-- Two or more seats may win the layer. -/
def SettlementPotPlan.isContested (p : SettlementPotPlan) : Bool := 2 ≤ seatMaskCount p.eligibleMask

abbrev settlementPlanVersion : ℕ := 3

/-- A complete settlement: nine pot slots, the first `potCount` active. -/
structure SettlementPlan where
  version : ℕ
  schedule : SettlementRunoutSchedule
  grossPot : ℕ
  rake : ℕ
  totalAwards : ℕ
  winnerMask : SeatMask
  awards : SeatAmounts
  potCount : ℕ
  pots : Fin maxSeats → SettlementPotPlan
  deriving DecidableEq

namespace SettlementPlan

/-- Overwrite one pot slot. -/
def putPot (p : SettlementPlan) (index : ℕ) (pot : SettlementPotPlan) : SettlementPlan :=
  { p with pots := fun i => if i.1 = index then pot else p.pots i }

/-- The active layers, main pot first. -/
def activePots (p : SettlementPlan) : List SettlementPotPlan := (List.ofFn p.pots).take p.potCount

/-- What the layers of a plan sum up to. -/
structure Totals where
  gross : ℕ
  rake : ℕ
  awards : SeatAmounts
  winnerMask : SeatMask

/-- Check one runout of a layer and add its awards. -/
def checkRunout (schedule : SettlementRunoutSchedule) (pot : SettlementPotPlan)
    (acc : ℕ × Totals) (runoutIndex : Fin 2) : PokerL1Result (ℕ × Totals) := do
  let runout := pot.runouts runoutIndex
  let activeRunouts := if pot.isContested then schedule.count else 1
  if activeRunouts ≤ runoutIndex.1 then
    ensure (runout = .inactive)
      (.serialization "settlement: inactive runout slot is non-zero")
    return acc
  else
    ensure runout.isActive (.serialization "settlement: active runout has no winners")
    ensure (runout.winnerMask &&& ~~~pot.eligibleMask = 0)
      (.serialization "settlement: runout winner is not eligible for the pot")
    ensure (pot.isContested ∨ (runout.winnerMask = pot.eligibleMask ∧
        runout.amount = pot.netAmount ∧ ∀ i, runout.ranks i = none))
      (.serialization "settlement: uncontested pot projection is non-canonical")
    let runoutAwards ← runout.awards.total
      (.serialization "settlement: runout award overflow")
    ensure (runoutAwards = runout.amount)
      (.serialization "settlement: runout amount != awards")
    let runoutTotal ← checkedAdd acc.1 runout.amount
      (.serialization "settlement: runout total overflow")
    let awards ← acc.2.awards.add runout.awards
      (.serialization "settlement: seat award overflow")
    return (runoutTotal,
      { acc.2 with awards, winnerMask := acc.2.winnerMask ||| runout.winnerMask })

/-- The seats of a table as a mask. -/
def validSeatMask (seatCount : ℕ) : SeatMask :=
  if 16 ≤ seatCount then BitVec.allOnes 16 else BitVec.ofNat 16 (2 ^ seatCount - 1)

/-- Check one layer and add it to the totals. -/
def checkPot (schedule : SettlementRunoutSchedule) (seatCount : ℕ) (acc : Totals)
    (entry : SettlementPotPlan × ℕ) : PokerL1Result Totals := do
  let (pot, index) := entry
  ensure (pot.potIndex = index) (.serialization "settlement: non-canonical pot index")
  ensure (pot.eligibleMask &&& ~~~validSeatMask seatCount = 0)
    (.serialization "settlement: pot eligible mask exceeds seat bounds")
  ensure (pot.rake ≤ pot.grossAmount ∧ pot.grossAmount - pot.rake = pot.netAmount)
    (.serialization "settlement: pot gross/rake/net mismatch")
  ensure (seatMaskCount pot.eligibleMask ≠ 0)
    (.serialization "settlement: pot has no eligible seats")
  let gross ← checkedAdd acc.gross pot.grossAmount
    (.serialization "settlement: gross pot sum overflow")
  let rake ← checkedAdd acc.rake pot.rake (.serialization "settlement: rake sum overflow")
  let (runoutTotal, acc) ← (List.finRange 2).foldlM (checkRunout schedule pot)
    (0, { acc with gross, rake })
  ensure (runoutTotal = pot.netAmount)
    (.serialization "settlement: runout split does not equal pot net amount")
  return acc

/-- Recheck conservation and shape without recomputing any poker logic. -/
def validate (p : SettlementPlan) (seatCount : ℕ) : PokerL1Result Unit := do
  ensure (p.version = settlementPlanVersion)
    (.serialization s!"settlement: unsupported plan version {p.version}")
  ensure (p.potCount ≤ maxSeats)
    (.serialization "settlement: pot_count exceeds fixed width")
  ensure (seatCount ≤ maxSeats)
    (.serialization "settlement: plan exceeds fixed seat/pot bounds")
  ensure (∀ i : Fin maxSeats, p.potCount ≤ i.1 → p.pots i = .inactive)
    (.serialization "settlement: inactive pot slot is non-canonical")
  ensure (p.rake ≤ p.grossPot ∧ p.grossPot - p.rake = p.totalAwards)
    (.serialization "settlement: gross_pot != rake + total_awards")
  let totals ← p.activePots.zipIdx.foldlM (checkPot p.schedule seatCount) ⟨0, 0, .zero, 0⟩
  ensure (totals.gross = p.grossPot ∧ totals.rake = p.rake ∧ totals.awards = p.awards ∧
      totals.winnerMask = p.winnerMask)
    (.serialization "settlement: aggregate projection mismatch")
  ensure (p.winnerMask &&& ~~~validSeatMask seatCount = 0)
    (.serialization "settlement: winner mask exceeds seat bounds")
  ensure (∀ i : Fin maxSeats, 0 < p.awards i → Mask.mem p.winnerMask i)
    (.serialization "settlement: award paid to non-winner seat")
  ensure (∀ i : Fin maxSeats, seatCount ≤ i.1 → p.awards i = 0)
    (.serialization "settlement: award exceeds seat bounds")

end SettlementPlan

end TexasPoker
