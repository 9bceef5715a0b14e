import Mathlib.Algebra.BigOperators.Group.List.Basic
import Mathlib.Data.List.Sort
import TexasPoker.PokerGame.Table

/-! # The pots of the game server

The server cuts the bets into layers at the bets of the seats that have no stack left, takes its
rake from the contested layers and pays each layer to its best hands.
-/

namespace TexasPoker.PokerGame

structure SidePot where
  amount : ℕ
  players : List ℕ
  deriving DecidableEq

/-- A seat that bet; one without a stack is all-in. -/
structure PlayerBet where
  id : ℕ
  bet : ℕ
  folded : Bool
  allIn : Bool
  deriving DecidableEq

structure RakeParams where
  rakeBps : ℕ
  rakeCap : ℕ

/-! ## Layers -/

/-- The unfolded seats that bet more than `prev`. -/
def eligibleAbove (bets : List PlayerBet) (prev : ℕ) : List ℕ :=
  (bets.filter fun b => prev < b.bet && !b.folded).map PlayerBet.id

/-- The bets between two levels. -/
def layer (bets : List PlayerBet) (prev level : ℕ) : SidePot where
  amount := (bets.map fun b =>
    if prev < b.bet then if b.bet < level then b.bet - prev else level - prev else 0).sum
  players := eligibleAbove bets prev

/-- The bets above the last level. -/
def outerLayer (bets : List PlayerBet) (prev : ℕ) : SidePot where
  amount := (bets.map fun b => if prev < b.bet then b.bet - prev else 0).sum
  players := eligibleAbove bets prev

/-- Cut the bets above `prev` at the levels. -/
def cutLayers (bets : List PlayerBet) : ℕ → List ℕ → List SidePot
  | prev, [] => if 0 < (outerLayer bets prev).amount then [outerLayer bets prev] else []
  | prev, level :: rest =>
    if level ≤ prev then cutLayers bets prev rest
    else if 0 < (layer bets prev level).amount then
      layer bets prev level :: cutLayers bets level rest
    else cutLayers bets level rest

/-- The last layer that somebody can win, or the first one. -/
def lastEligible (pots : List SidePot) : ℕ :=
  ((List.range pots.length).reverse.find? fun k => pots[k]?.any fun p => p.players ≠ []).getD 0

/-- Merge the last layer downwards when nobody can win it. -/
def mergeLast (pots : List SidePot) : List SidePot :=
  match pots.getLast? with
  | none => pots
  | some last =>
    if last.players = [] ∧ 0 < last.amount then
      let rest := pots.dropLast
      if rest = [] then [⟨last.amount, []⟩]
      else rest.modify (lastEligible rest) fun p => { p with amount := p.amount + last.amount }
    else pots

/-! ## Rake -/

def computeRake (pot : ℕ) (params : RakeParams) : ℕ :=
  if pot = 0 then 0
  else min (min (pot * params.rakeBps / 10000 % 2 ^ 64) params.rakeCap) pot

/-- Hand the rest of the rake to the contested layers in order. -/
def spreadRemainder : List (ℕ × ℕ) → List ℕ → ℕ → List ℕ
  | (amount, eligible) :: layers, share :: shares, remainder =>
    if eligible < 2 then share :: spreadRemainder layers shares remainder
    else
      let take := min remainder (amount - share)
      (share + take) :: spreadRemainder layers shares (remainder - take)
  | _, shares, _ => shares

/-- Split the rake over the contested layers, given as amounts and numbers of seats. -/
def allocateRake (layers : List (ℕ × ℕ)) (totalRake grossPot : ℕ) : List ℕ :=
  if totalRake = 0 ∨ layers = [] ∨ grossPot = 0 then layers.map fun _ => 0
  else
    let shares := layers.map fun l => if 2 ≤ l.2 then l.1 * totalRake / grossPot else 0
    spreadRemainder layers shares (totalRake - shares.sum)

/-! ## Payouts -/

/-- The part of the table that a payout reads and writes. -/
structure Showdown (maxPlayers : ℕ) where
  seats : Seats maxPlayers
  pot : ℕ
  sidePots : List SidePot
  rakeCollected : ℕ

/-- An even split, the odd chips to the first ones. -/
def evenSplit (amount : ℕ) (winners : List ℕ) : List (ℕ × ℕ) :=
  winners.zipIdx.map fun w =>
    (w.1, amount / winners.length + if w.2 < amount % winners.length then 1 else 0)

namespace Seats

variable {maxPlayers : ℕ} (seats : Seats maxPlayers)

def isUnfolded (id : ℕ) : Bool := (seats.get id).any fun s => !s.folded

/-- Give the amounts to the seats. -/
def pay (payouts : List (ℕ × ℕ)) : Seats maxPlayers :=
  payouts.foldl (fun seats w => seats.modify w.1 (·.winHand w.2)) seats

def playerBets : List PlayerBet :=
  (seats.entries.filter fun e => 0 < e.2.totalBet).map fun e =>
    ⟨e.1, e.2.totalBet, e.2.folded, e.2.stack = 0⟩

/-- The bets of the all-in seats in ascending order. -/
def allInBets : List ℕ :=
  (((seats.playerBets.filter PlayerBet.allIn).map PlayerBet.bet).insertionSort (· ≤ ·)).dedup

end Seats

namespace Showdown

variable {maxPlayers : ℕ} {R : Type} [DecidableEq R] (s : Showdown maxPlayers)

def mainPot : ℕ := s.pot - (s.sidePots.map SidePot.amount).sum

/-- Cut the bets into the side pots; the first layer is the main pot. -/
def calculateSidePots : Showdown maxPlayers :=
  if s.seats.playerBets = [] ∨ s.seats.allInBets = [] then { s with sidePots := [] }
  else { s with sidePots := (mergeLast (cutLayers s.seats.playerBets 0 s.seats.allInBets)).tail }

/-- The layers of the rake: the main pot and the side pots. -/
def rakeLayers : List (ℕ × ℕ) :=
  (s.mainPot, (s.seats.values.filter fun x => !x.folded && !x.sittingOut).length) ::
    s.sidePots.map fun p => (p.amount, (p.players.filter s.seats.isUnfolded).length)

def collectRakeForSettlement (params : RakeParams) : Showdown maxPlayers :=
  let contestedGross := ((s.rakeLayers.filter fun l => 2 ≤ l.2).map Prod.fst).sum
  let totalRake := computeRake contestedGross params
  if totalRake = 0 then s
  else
    let allocations := allocateRake s.rakeLayers totalRake contestedGross
    { s with
      rakeCollected := totalRake
      pot := s.pot - totalRake
      sidePots := s.sidePots.zipIdx.map fun p =>
        { p.1 with amount := p.1.amount - allocations.getD (p.2 + 1) 0 } }

/-- Pay an amount to the best of some seats; `hands` are the evaluated hands, best first. -/
def determineWinnerByIds (hands : List (ℕ × R)) (amount : ℕ) (eligibleIds : List ℕ) :
    Showdown maxPlayers :=
  match eligibleIds with
  | [] => s
  | [winner] => { s with seats := s.seats.pay [(winner, amount)] }
  | _ =>
    match hands.filter fun h => h.1 ∈ eligibleIds with
    | [] => { s with seats := s.seats.pay (evenSplit amount eligibleIds) }
    | best :: rest =>
      let winners := ((best :: rest).filter fun h => h.2 = best.2).map Prod.fst
      { s with seats := s.seats.pay (evenSplit amount winners) }

/-- Pay every side pot that somebody can win. -/
def determineSidePotWinners (hands : List (ℕ × R)) : Showdown maxPlayers :=
  (s.sidePots.map fun p => (p.amount, p.players.filter s.seats.isUnfolded)).foldl
    (fun s p => s.determineWinnerByIds hands p.1 p.2) s

def determineMainPotWinner (hands : List (ℕ × R)) : Showdown maxPlayers :=
  s.determineWinnerByIds hands s.mainPot
    ((s.seats.entries.filter fun e => !e.2.folded).map Prod.fst)

/-- The payout of a showdown. -/
def settleHand (params : RakeParams) (hands : List (ℕ × R)) : Showdown maxPlayers :=
  ((s.calculateSidePots.collectRakeForSettlement params).determineSidePotWinners
    hands).determineMainPotWinner hands

end Showdown

end TexasPoker.PokerGame
