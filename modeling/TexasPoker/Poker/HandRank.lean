import Mathlib.Data.List.Sublists
import TexasPoker.Core.Card

/-! # Hand ranks

The best five of up to seven cards: category first, then kickers in order.
-/

namespace TexasPoker

namespace HandCategory

abbrev highCard : ℕ := 0

abbrev onePair : ℕ := 1

abbrev twoPair : ℕ := 2

abbrev threeOfAKind : ℕ := 3

abbrev straight : ℕ := 4

abbrev flush : ℕ := 5

abbrev fullHouse : ℕ := 6

abbrev fourOfAKind : ℕ := 7

abbrev straightFlush : ℕ := 8

abbrev royalFlush : ℕ := 9

end HandCategory

/-- A category with its five tie-breaking ranks. -/
structure HandRank where
  category : ℕ
  kickers : List ℕ
  deriving DecidableEq, Repr

namespace HandRank

open HandCategory

/-- A rank whose kickers are padded to five. -/
def new (category : ℕ) (kickers : List ℕ) : HandRank :=
  ⟨category, (kickers.take 5) ++ List.replicate (5 - kickers.length) 0⟩

/-- Category first, then the kickers in order. -/
def lt (a b : HandRank) : Bool :=
  a.category < b.category || a.category = b.category && decide (a.kickers < b.kickers)

/-! ## Comparator networks -/

/-- Put the larger of the entries at `i` and `j` first. -/
def compareExchange {α : Type} [Inhabited α] (lt : α → α → Bool) (l : List α) (i j : ℕ) :
    List α :=
  if lt (l.getD i default) (l.getD j default) then
    (l.set i (l.getD j default)).set j (l.getD i default)
  else l

/-- Sort five ranks descending by neighbour exchanges. -/
def sortFiveDesc (ranks : List ℕ) : List ℕ :=
  (List.range' 1 4).foldl (fun l j =>
    (List.range j).reverse.foldl (fun l i => compareExchange (· < ·) l i (i + 1)) l) ranks

/-- Order of count and rank pairs. -/
def groupLt (a b : ℕ × ℕ) : Bool := a.1 < b.1 || a.1 = b.1 && a.2 < b.2

/-- Merge the two sorted halves of `n` entries from `lo`, taking every `r`-th; the depth
bounds the recursion. -/
def oddEvenMerge (a : List (ℕ × ℕ)) (lo n r : ℕ) : ℕ → List (ℕ × ℕ)
  | 0 => a
  | depth + 1 =>
    let step := r * 2
    if step < n then
      let a := oddEvenMerge a lo n step depth
      let a := oddEvenMerge a (lo + r) n step depth
      ((List.range n).filter fun k => r ≤ k ∧ (k - r) % step = 0 ∧ k + r < n).foldl
        (fun a k => compareExchange groupLt a (lo + k) (lo + k + r)) a
    else compareExchange groupLt a lo (lo + r)

/-- Sort the `n` entries from `lo`; the depth bounds the recursion. -/
def sortNetworkRange (a : List (ℕ × ℕ)) (lo n : ℕ) : ℕ → List (ℕ × ℕ)
  | 0 => a
  | depth + 1 =>
    if n ≤ 1 then a
    else
      let mid := n / 2
      let a := sortNetworkRange a lo mid depth
      let a := sortNetworkRange a (lo + mid) mid depth
      oddEvenMerge a lo n 1 5

/-- Sort sixteen pairs descending. -/
def sortGroupsDesc (groups : List (ℕ × ℕ)) : List (ℕ × ℕ) := sortNetworkRange groups 0 16 5

/-! ## Evaluation -/

/-- The high card of five descending ranks in sequence; ace to five counts as five. -/
def straightHigh (ranks : List ℕ) : Option ℕ :=
  if ranks = [14, 5, 4, 3, 2] then some 5
  else if (ranks.zip ranks.tail).all (fun (a, b) => a = b + 1) then ranks.head?
  else none

/-- Count and rank of every rank from two to ace in sixteen slots, sorted. -/
def groups (cards : List Card) : List (ℕ × ℕ) :=
  sortGroupsDesc
    (((List.range 13).map fun slot => ((cards.map Card.rank).count (slot + 2), slot + 2)) ++
      List.replicate 3 (0, 0))

/-- The rank of exactly five cards. -/
def evaluateFive (cards : List Card) : HandRank :=
  let suits := cards.map Card.suit
  let isFlush := suits.all fun s => s = suits.headD 0
  let ranks := sortFiveDesc (cards.map Card.rank)
  let straight := straightHigh ranks
  let gs := groups cards
  let count i := (gs.getD i (0, 0)).1
  let rank i := (gs.getD i (0, 0)).2
  match isFlush, straight with
  | true, some high =>
    if high = 14 then new royalFlush [14] else new straightFlush [high]
  | _, _ =>
    if count 0 = 4 then new fourOfAKind [rank 0, rank 1]
    else if count 0 = 3 ∧ 2 ≤ count 1 then new fullHouse [rank 0, rank 1]
    else if isFlush then new flush ranks
    else
      match straight with
      | some high => new HandCategory.straight [high]
      | none =>
        if count 0 = 3 then new threeOfAKind [rank 0, rank 1, rank 2]
        else if count 0 = 2 ∧ count 1 = 2 then
          new twoPair [max (rank 0) (rank 1), min (rank 0) (rank 1), rank 2]
        else if count 0 = 2 then new onePair [rank 0, rank 1, rank 2, rank 3]
        else new highCard ranks

/-- Pad short hands with rankless cards of the rarest suit. -/
def padToFive (cards : List Card) : ℕ → List Card
  | 0 => cards
  | n + 1 =>
    let occurrences s := (cards.filter fun c => c.suit = s).length
    let minSuit := (List.range 4).foldl
      (fun best s => if occurrences s < occurrences best then s else best) 0
    padToFive (cards ++ [Card.new minSuit 0]) n

/-- The best rank of any five of the cards. -/
def evaluateBest (cards : List Card) : HandRank :=
  if cards.length < 5 then evaluateFive (padToFive cards (5 - cards.length))
  else (List.sublistsLen 5 cards).foldl
    (fun best five =>
      let rank := evaluateFive five
      if best.lt rank then rank else best) (new highCard [0, 0, 0, 0, 0])

end HandRank

end TexasPoker
