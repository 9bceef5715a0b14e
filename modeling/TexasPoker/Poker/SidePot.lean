import TexasPoker.Core.SeatMask

/-! # Side pots

Contributions are cut into layers at the all-in levels; a layer belongs to the unfolded
seats that reach into it.
-/

namespace TexasPoker

/-- One layer: its chips and the seats that may win them. -/
structure SidePot where
  amount : ℕ
  eligibleSeats : SeatMask
  deriving DecidableEq, Repr

namespace SidePot

/-- Layers of one table. -/
abbrev maxSidePots : ℕ := 9

inductive SidePotError where
  | betOverflow
  | lengthMismatch
  deriving DecidableEq, Repr

/-- The message of a side-pot error. -/
def SidePotError.text : SidePotError → String
  | .betOverflow => "total bets exceed MAX_TOTAL_BET, possible overflow"
  | .lengthMismatch => "bets/folded/all_in vectors must have same length"

/-- The sum of the bets, within the table bound. -/
def sumBets (bets : List ℕ) : Except SidePotError ℕ :=
  bets.foldlM (fun total bet => do
    let total ← checkedAdd total bet .betOverflow
    ensure (total ≤ maxTotalBet) .betOverflow
    return total) 0

/-- One seat's bet, whether it folded, and whether it is all in. -/
structure Contribution where
  bet : ℕ
  folded : Bool
  allIn : Bool

/-- Whether the seat sets an all-in level. -/
def Contribution.isLevel (c : Contribution) : Bool := c.allIn && c.bet ≠ 0

/-- The number of levels below seat `j`'s: smaller bets, and equal ones of earlier seats. -/
def levelRank (cs : List Contribution) (j : ℕ) (c : Contribution) : ℕ :=
  (cs.zipIdx.filter fun (other, k) =>
    k ≠ j && other.isLevel && (other.bet < c.bet || other.bet = c.bet && k < j)).length

/-- The all-in levels in nine slots, each at its rank; unused slots are zero. -/
def levels (cs : List Contribution) : List ℕ :=
  cs.zipIdx.foldl (fun slots (c, j) =>
    if c.isLevel then slots.set (levelRank cs j c) c.bet else slots)
    (List.replicate maxSidePots 0)

/-- The chips between two levels and the unfolded seats that reach above the lower one;
no upper level takes everything. -/
def sliceLayer (cs : List Contribution) (prevLevel : ℕ) (level : Option ℕ) : SidePot where
  amount := (cs.map fun c =>
    if prevLevel < c.bet then
      (match level with
        | some l => min c.bet l
        | none => c.bet) - prevLevel
    else 0).sum
  eligibleSeats := cs.zipIdx.foldl (fun mask (c, j) =>
    if prevLevel < c.bet ∧ ¬ c.folded then Mask.insert mask j else mask) 0

/-- Nine layer slots, the active ones first. -/
structure SidePotResult where
  pots : List SidePot
  potCount : ℕ
  deriving DecidableEq, Repr

/-- All slots empty. -/
def SidePotResult.empty : SidePotResult := ⟨List.replicate maxSidePots ⟨0, 0⟩, 0⟩

/-- The active layers, main pot first. -/
def SidePotResult.active (r : SidePotResult) : List SidePot := r.pots.take r.potCount

/-- All chips of the layers. -/
def SidePotResult.total (r : SidePotResult) : ℕ := (r.pots.map SidePot.amount).sum

/-- Record a layer: an empty one is dropped, one nobody can win joins the last. -/
def recordLayer (r : SidePotResult) (layer : SidePot) : SidePotResult :=
  if layer.amount = 0 then r
  else if layer.eligibleSeats = 0 ∧ 0 < r.potCount then
    let merge (last : SidePot) := { last with amount := last.amount + layer.amount }
    { r with pots := r.pots.modify (r.potCount - 1) merge }
  else ⟨r.pots.set r.potCount layer, r.potCount + 1⟩

/-- Cut at one level, unless it is unused or repeated. -/
def sliceLevel (cs : List Contribution) (acc : SidePotResult × ℕ) (level : ℕ) :
    SidePotResult × ℕ :=
  if level = 0 ∨ level ≤ acc.2 then acc
  else (recordLayer acc.1 (sliceLayer cs acc.2 (some level)), level)

/-- Layer the contributions at the all-in levels; what exceeds the last level forms the
outermost layer. -/
def calculateSidePots (cs : List Contribution) : Except SidePotError SidePotResult := do
  ensure (cs.length ≤ maxSidePots) .lengthMismatch
  let totalPot ← sumBets (cs.map Contribution.bet)
  let (result, prevLevel) := (levels cs).foldl (sliceLevel cs) (.empty, 0)
  let result :=
    if prevLevel < totalPot then recordLayer result (sliceLayer cs prevLevel none) else result
  return if result.potCount = 0 then ⟨result.pots.set 0 ⟨totalPot, 0⟩, 1⟩ else result

end SidePot

end TexasPoker
