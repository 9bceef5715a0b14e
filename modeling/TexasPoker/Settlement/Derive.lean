import TexasPoker.Core.Table
import TexasPoker.Settlement.Plan

/-! # Deriving a settlement

The pure functions that turn a table and its boards into a plan: card exposure, side
pots, rake, winners and odd chips.
-/

namespace TexasPoker

open SidePot

/-! ## Rake -/

/-- The rake of a pot under the table's rules. -/
def computeRake (rules : TableRules) (grossPot : ℕ) : PokerL1Result ℕ :=
  if rules.rakeMode = rakeModeNone then .ok 0
  else if rules.rakeMode = rakeModePercentage then
    .ok (min (min (grossPot * rules.rakeBps / 10000) rules.rakeCap) grossPot)
  else .error (.serialization s!"settlement: unsupported rake mode {rules.rakeMode}")

/-- The rake of each layer at a fixed rate, while the cap lasts; an uncontested layer pays
none. -/
def fixedRateRakes (rakeBps : ℕ) : ℕ → List SidePot → List ℕ
  | _, [] => []
  | capRemaining, pot :: pots =>
    if seatMaskCount pot.eligibleSeats < 2 then 0 :: fixedRateRakes rakeBps capRemaining pots
    else
      let raw := pot.amount * rakeBps / 10000
      let take := min raw capRemaining
      take :: fixedRateRakes rakeBps (capRemaining - take) pots

def allocateRakeFixedRate (pots : List SidePot) (rules : TableRules) : PokerL1Result (List ℕ) :=
  if rules.rakeMode = rakeModeNone then .ok (pots.map fun _ => 0)
  else if rules.rakeMode = rakeModePercentage then
    .ok (fixedRateRakes rules.rakeBps rules.rakeCap pots)
  else .error (.serialization s!"settlement: unsupported rake mode {rules.rakeMode}")

/-! ## Splitting -/

/-- Halves for two runouts; the first board takes the odd chip. -/
def splitAcrossRunouts (amount runoutCount : ℕ) : Fin 2 → ℕ :=
  if runoutCount = 1 then fun r => if r.1 = 0 then amount else 0
  else fun r => if r.1 = 0 then amount / 2 + amount % 2 else amount / 2

/-- The winners in clockwise order from the seat after the button. -/
def orderedWinners (winnerMask : SeatMask) (button seatCount : ℕ) : List ℕ :=
  ((List.range' 1 seatCount).map fun offset => (button + offset) % seatCount).filter
    fun seat => Mask.mem winnerMask seat

/-- Equal shares; the first seats after the button take the odd chips. -/
def splitAmongWinners (amount : ℕ) (winnerMask : SeatMask) (button seatCount : ℕ) :
    PokerL1Result SeatAmounts := do
  let ordered := orderedWinners winnerMask button seatCount
  ensure (ordered ≠ [])
    (.serialization "settlement: winner mask is empty or outside the table")
  let share := amount / ordered.length
  let remainder := amount % ordered.length
  return ordered.zipIdx.foldl (fun awards (seat, position) =>
    awards.put seat (share + if position < remainder then 1 else 0)) .zero

namespace TexasPokerTable

variable {G : Type} (t : TexasPokerTable G)

/-! ## Cards -/

/-- The hand of one seat, checked for exposure, after the hole cards seen so far. -/
def exposeHand (seen : List ℕ) (i : Fin maxSeats) : PokerL1Result (List ℕ) := do
  let seat := t.seats i
  if !seat.isOccupied || seat.isFolded || seat.hasLeftHand then
    return seen
  else
    let hand ← orErr seat.hand
      (.serialization s!"settlement: eligible seat {i.1} has no in-hand payload")
    ensure (hand.len = 2 ∧ hand.cards.all Card.isValid) (.serialization
      s!"settlement: eligible seat {i.1} must expose exactly two valid cards")
    ensure (seen ++ hand.cards.map Card.index).Nodup
      (.serialization "settlement: duplicate exposed hole card")
    return seen ++ hand.cards.map Card.index

/-- Every unfolded seat shows two valid cards that repeat neither each other nor a board. -/
def validateExposedCards (boards : SettlementBoards) : PokerL1Result Unit := do
  let seen ← (List.finRange maxSeats).foldlM t.exposeHand []
  ensure (∀ c ∈ boards.board1, c.index ∉ seen)
    (.serialization "settlement: board card duplicates an exposed hole card")
  ensure (boards.runoutCount = 2 →
      ∀ c ∈ boards.board2.drop boards.sharedBoardLen, c.index ∉ seen)
    (.serialization "settlement: second board duplicates an exposed hole card")

/-- The best rank so far, its seats, and the rank of every eligible seat. -/
structure Ranking where
  best : Option HandRank
  winnerMask : SeatMask
  ranks : Fin maxSeats → Option HandRank

/-- Rank one eligible seat against the best so far. -/
def rankSeat (eligibleMask : SeatMask) (board : List Card) (acc : Ranking) (i : ℕ) :
    PokerL1Result Ranking := do
  if !Mask.mem eligibleMask i then
    return acc
  else
    let hand ← orErr (t.seat i).hand
      (.serialization s!"settlement: eligible seat {i} has no in-hand payload")
    ensure (hand.len = 2)
      (.serialization s!"settlement: eligible seat {i} has no complete hand")
    let rank := HandRank.evaluateBest (hand.cards ++ board)
    let ranks : Fin maxSeats → Option HandRank :=
      fun j => if j.1 = i then some rank else acc.ranks j
    match acc.best with
    | none => return ⟨some rank, seatMaskBit i, ranks⟩
    | some best =>
      if best.lt rank then return ⟨some rank, seatMaskBit i, ranks⟩
      else if rank = best then return ⟨some best, Mask.insert acc.winnerMask i, ranks⟩
      else return ⟨some best, acc.winnerMask, ranks⟩

/-- The best hands among the eligible seats on one board. -/
def findWinners (eligibleMask : SeatMask) (board : List Card) :
    PokerL1Result (SeatMask × (Fin maxSeats → Option HandRank)) := do
  let ranking ← (List.range t.rules.maxPlayers).foldlM (t.rankSeat eligibleMask board)
    ⟨none, 0, fun _ => none⟩
  ensure (ranking.winnerMask ≠ 0)
    (.serialization "settlement: side pot has no ranked eligible winner")
  return (ranking.winnerMask, ranking.ranks)

/-! ## Plans -/

/-- Every seat's contribution, in seat order. -/
def contributions : List Contribution :=
  List.ofFn fun i => ⟨(t.seats i).totalBet, (t.seats i).isFolded || (t.seats i).hasLeftHand,
    (t.seats i).isAllIn⟩

/-- Pay one runout of a layer and record its winners. -/
def planRunout (boards : SettlementBoards) (side : SidePot) (netAmount : ℕ)
    (acc : SettlementPlan × (Fin 2 → RunoutPotPlan)) (runoutIndex : ℕ) :
    PokerL1Result (SettlementPlan × (Fin 2 → RunoutPotPlan)) := do
  let amount := splitAcrossRunouts netAmount boards.runoutCount (Fin.ofNat 2 runoutIndex)
  let (winnerMask, ranks) ← t.findWinners side.eligibleSeats (boards.board runoutIndex)
  let awards ← splitAmongWinners amount winnerMask t.button t.rules.maxPlayers
  let total ← acc.1.awards.add awards (.serialization "settlement: aggregate award overflow")
  return ({ acc.1 with winnerMask := acc.1.winnerMask ||| winnerMask, awards := total },
    fun r => if r.1 = runoutIndex then ⟨amount, winnerMask, ranks, awards⟩ else acc.2 r)

/-- Return an uncontested layer to its seat. -/
def planUncontested (side : SidePot) (netAmount : ℕ) (plan : SettlementPlan) :
    PokerL1Result (SettlementPlan × (Fin 2 → RunoutPotPlan)) := do
  let awards ← splitAmongWinners netAmount side.eligibleSeats t.button t.rules.maxPlayers
  let total ← plan.awards.add awards (.serialization "settlement: aggregate award overflow")
  return ({ plan with winnerMask := plan.winnerMask ||| side.eligibleSeats, awards := total },
    fun r => if r.1 = 0 then ⟨netAmount, side.eligibleSeats, fun _ => none, awards⟩
      else .inactive)

/-- Settle one layer with its rake. -/
def planPot (boards : SettlementBoards) (plan : SettlementPlan)
    (entry : (SidePot × ℕ) × ℕ) : PokerL1Result SettlementPlan := do
  let ((side, potRake), potIndex) := entry
  ensure (¬ (side.amount = 0 ∨ side.eligibleSeats = 0)) (.serialization
    s!"settlement: pot {potIndex} has zero amount or no eligible player")
  let netAmount ← checkedSub side.amount potRake
    (.serialization "settlement: pot rake exceeds gross amount")
  let (plan, runouts) ←
    if 2 ≤ seatMaskCount side.eligibleSeats then
      (List.range boards.runoutCount).foldlM (t.planRunout boards side netAmount)
        (plan, fun _ => .inactive)
    else t.planUncontested side netAmount plan
  return plan.putPot potIndex
    ⟨potIndex, side.amount, potRake, netAmount, side.eligibleSeats, runouts⟩

/-- The plan of a showdown on one or two boards. -/
def deriveSettlementPlanForBoards (boards : SettlementBoards) :
    PokerL1Result SettlementPlan := do
  boards.validate
  ensure (t.rules.maxPlayers ≤ maxSeats)
    (.serialization "settlement: table exceeds MAX_PLAYERS")
  t.validateExposedCards boards
  let result ← (calculateSidePots t.contributions).mapError fun error =>
    .serialization s!"settlement: side-pot calculation failed: {error.text}"
  let grossPot := result.total
  ensure (grossPot ≤ maxTotalBet ∧ grossPot = t.pot) (.serialization
    s!"settlement: contribution total {grossPot} does not match table pot {t.pot}")
  let _ ← checkedSum
    ((result.active.filter fun pot => 2 ≤ seatMaskCount pot.eligibleSeats).map SidePot.amount)
    (.serialization "settlement: contested pot sum overflow")
  let potRakes ← allocateRakeFixedRate result.active t.rules
  let rake ← checkedSum potRakes (.serialization "settlement: rake sum overflow")
  let plan : SettlementPlan :=
    { version := settlementPlanVersion, schedule := boards.schedule, grossPot, rake,
      totalAwards := 0, winnerMask := 0, awards := .zero, potCount := result.potCount,
      pots := fun _ => .inactive }
  let plan ← (result.active.zip potRakes).zipIdx.foldlM (t.planPot boards) plan
  let totalAwards ← plan.awards.total (.serialization "settlement: total award overflow")
  let plan := { plan with totalAwards }
  plan.validate t.rules.maxPlayers
  return plan

/-- The plan of a showdown on the community cards. -/
def deriveSettlementPlan : PokerL1Result SettlementPlan :=
  t.deriveSettlementPlanForBoards (.single t.communityCards.cards)

/-- The seats a fold win counts as unfolded. -/
def unfoldedSeats : List ℕ :=
  ((List.finRange maxSeats).filter fun i => (t.seats i).isOccupied &&
    !(t.seats i).isFolded && !(t.seats i).hasLeftHand).map Fin.val

/-- What the only unfolded seat bet above everybody else. -/
def uncalledBet (winner : ℕ) : ℕ :=
  (t.seat winner).totalBet -
    (((List.range maxSeats).filter fun i => i ≠ winner).map fun i => (t.seat i).totalBet).foldl
      max 0

/-- The plan when a single player is left: no cards, and no rake before the flop. -/
def deriveFoldWinPlan : PokerL1Result SettlementPlan := do
  ensure (t.rules.maxPlayers ≤ maxSeats)
    (.serialization "settlement: table exceeds MAX_PLAYERS")
  let winner ← match t.unfoldedSeats with
    | [only] => pure only
    | unfolded => throw (.serialization (s!"settlement: fold-win plan requires exactly one " ++
        s!"unfolded seat, got {unfolded.length}"))
  let grossPot ← checkedSum (List.ofFn fun i => (t.seats i).totalBet)
    (.serialization "settlement: bet sum overflow")
  ensure (grossPot ≤ maxTotalBet ∧ grossPot = t.pot) (.serialization
    s!"settlement: contribution total {grossPot} does not match table pot {t.pot}")
  let contestedGross := grossPot - t.uncalledBet winner
  let rake ← if 3 ≤ t.communityCards.len then computeRake t.rules contestedGross else pure 0
  let net ← checkedSub grossPot rake (.serialization "settlement: rake exceeds pot")
  let winnerBit := seatMaskBit winner
  let awards := SeatAmounts.zero.put winner net
  let runout : RunoutPotPlan := ⟨net, winnerBit, fun _ => none, awards⟩
  let plan : SettlementPlan :=
    { version := settlementPlanVersion, schedule := .single, grossPot, rake,
      totalAwards := net, winnerMask := winnerBit, awards, potCount := 1,
      pots := fun _ => .inactive }
  let plan := plan.putPot 0 ⟨0, grossPot, rake, net, winnerBit,
    fun r => if r.1 = 0 then runout else .inactive⟩
  plan.validate t.rules.maxPlayers
  return plan

end TexasPokerTable

end TexasPoker
