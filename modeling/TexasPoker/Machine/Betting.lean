import TexasPoker.Machine.Reset
import TexasPoker.Machine.Reveal
import TexasPoker.Poker.Betting

/-! # Betting rounds of a hand

Blinds, antes, the rotation of turns, and the step from one street to the next.
-/

namespace TexasPoker

variable {G : Type}

namespace TexasPokerTable

variable (t : TexasPokerTable G)

/-- The button moves one slot, occupied or not. -/
def moveButton : TexasPokerTable G := { t with button := (t.button + 1) % t.rules.maxPlayers }

/-- Where the big blind rotates from. -/
def rotationBase : ℕ := if t.lastBbSeat ≠ noSeat then t.lastBbSeat else t.button

/-- The small and the big blind of the next hand; `noSeat` is a dead small blind. -/
def blindSeats : ℕ × ℕ :=
  let bb := (t.findNextParticipatingSeat t.rotationBase).getD t.rotationBase
  if t.countActiveOccupied = 2 then ((t.findNextParticipatingSeat bb).getD bb, bb)
  else
    (if t.rotationBase ≠ bb ∧ (t.seat t.rotationBase).participates then t.rotationBase
      else noSeat, bb)

/-- Take one blind from a seat; a seat left without chips is all in. -/
def postBlind (seatIndex amount : ℕ) (label : String) : PokerL1Result (TexasPokerTable G) := do
  let p ← (t.seat seatIndex).playingMut
  let stack ← checkedSub p.occupied.stack amount
    (.serialization s!"post_blinds: {label} stack -= {label}_amt underflow")
  let totalBet ← checkedAdd p.totalBet amount
    (.serialization s!"post_blinds: {label} total_bet += {label}_amt overflow")
  let status := if stack = 0 then .allIn else p.status
  let occupied := { p.occupied with stack }
  return t.setSeat seatIndex (.playing { p with occupied, bet := amount, totalBet, status })

/-- The seats that pay an ante and what each can pay. -/
def antes (bbSeat : ℕ) : List (ℕ × ℕ) :=
  let payers := if t.rules.anteMode = anteModeBba then [bbSeat] else t.getActiveSeatIndices
  payers.map fun i => (i, min t.rules.anteAmount (t.seat i).stack)

/-- Take one ante: dead money that counts as a contribution and not as a bet. -/
def postAnte (ante : ℕ × ℕ) : PokerL1Result (TexasPokerTable G) := do
  let p ← (t.seat ante.1).playingMut
  let stack := p.occupied.stack - ante.2
  let status := if stack = 0 then .allIn else p.status
  let occupied := { p.occupied with stack }
  return t.setSeat ante.1
    (.playing { p with occupied, totalBet := p.totalBet + ante.2, status })

/-- The price of the first round: the largest blind, at least the big blind. -/
def openingBet : ℕ := (List.ofFn fun i => (t.seats i).bet).foldl max t.rules.bigBlind

/-- The first seat to act. -/
def firstToAct (isPreflop : Bool) (bbSeat : Option ℕ) : Option ℕ :=
  if isPreflop then bbSeat.bind t.findNextActiveSeat
  else if t.countActiveOccupied = 2 then
    if (t.seat t.rotationBase).isActionable then some t.rotationBase
    else t.findNextActiveSeat t.rotationBase
  else t.findNextActiveSeat t.button

end TexasPokerTable

namespace Exec

/-! ## Blinds and antes -/

/-- Post the blinds; the seat of the big blind. -/
def postBlinds (s : Exec G) : PokerL1Result (Exec G × ℕ) := do
  let t := s.table
  let (sbSeat, bbSeat) := t.blindSeats
  let bbAmt := min t.rules.bigBlind (t.seat bbSeat).stack
  let sbAmt := if sbSeat = noSeat then 0 else min t.rules.smallBlind (t.seat sbSeat).stack
  let t := { t with lastBbSeat := bbSeat }
  let t ← if sbSeat ≠ noSeat then t.postBlind sbSeat sbAmt "sb" else pure t
  let t ← t.postBlind bbSeat bbAmt "bb"
  return ((s.withTable t).emit (.blindsPosted t.id sbSeat bbSeat sbAmt bbAmt bbSeat), bbSeat)

/-- Collect the antes straight into the pot. -/
def collectAnte (s : Exec G) (bbSeat : ℕ) : PokerL1Result (Exec G) := do
  let t := s.table
  if t.rules.anteMode = anteModeNone ∨ t.rules.anteAmount = 0 then
    return s
  else
    let antes := t.antes bbSeat
    let totalAnte ← checkedSum (antes.map Prod.snd) (.serialization "collect_ante: total overflow")
    let pot ← checkedAdd t.pot totalAnte (.serialization "collect_ante: pot overflow")
    antes.forM fun a => ensure ((t.seat a.1).totalBet + a.2 ≤ u64Max)
      (.serialization "collect_ante: total_bet overflow")
    antes.foldlM (fun s a => do
      let t ← s.table.postAnte a
      return (s.withTable t).emit (.antePosted t.id a.1 a.2 t.rules.anteMode))
      (s.withTable { t with pot })

/-! ## Turns and streets -/

/-- Hand the turn over; an unchanged turn is silent. -/
def setCurrentTurn (s : Exec G) (turn : Option ℕ) : PokerL1Result (Exec G) := do
  let old := s.table.currentTurnOption
  let t ← s.table.setBettingTurn (turn.getD noSeat)
  if old = turn then
    return s.withTable t
  else
    return (s.withTable t).emit (.currentTurnChanged t.id old turn t.roundState)

variable [AddCommGroup G] [Protocol G] [DecidableEq G]

/-- Leave the closed betting round: settle an uncontested hand, or deal the next street. -/
def advanceRound (s : Exec G) : PokerL1Result (Exec G) := do
  if s.table.countActivePlayers ≤ 1 then
    s.endWithoutShowdown
  else
    let s ← s.maybeTriggerRunItTwice
    let start := s.table.roundState
    let oldTurn := s.table.currentTurnOption
    let next :=
      if start = roundPreflop then some (roundFlop, s.startCommunityRevealPhase 3 roundFlop)
      else if start = roundFlop then some (roundTurn, s.startCommunityRevealPhase 1 roundTurn)
      else if start = roundTurn then some (roundRiver, s.startCommunityRevealPhase 1 roundRiver)
      else if start = roundRiver then some (roundShowdown, s.startShowdownRevealPhase)
      else none
    match next with
    | none => return s
    | some (street, opened) => do
      let s ← opened
      return (s.emit (.currentTurnChanged s.table.id oldTurn none street)).emit
        (.roundAdvanced s.table.id start street s.table.pot s.table.communityCards.len)

/-- Pass the turn, or close a complete round. -/
def advanceTurn (s : Exec G) : PokerL1Result (Exec G) := do
  if s.table.isBettingComplete then
    let s ← s.setCurrentTurn none
    let s ← s.collectBetsToPot
    s.advanceRound
  else
    let cur := s.table.currentTurnOption.getD 0
    s.setCurrentTurn (s.table.findNextActiveSeat cur)

/-- Open a betting round; without contested action it closes at once. -/
def startBettingRound (s : Exec G) (isPreflop : Bool) (bbSeat : Option ℕ) :
    PokerL1Result (Exec G) := do
  let bb := s.table.rules.bigBlind
  let t := if isPreflop then s.table else s.table.mapSeats Seat.clearBet
  let round := if isPreflop then ⟨t.openingBet, bb⟩ else BettingRound.new bb 0
  let t ← t.enterBetting t.roundState round noSeat 0
  let actedMask := maskOf fun i => (t.seats i).isAllIn || (t.seats i).isFolded
  let t := { t with actedMask }
  let startSeat := t.firstToAct isPreflop bbSeat
  let s ← (s.withTable t).setCurrentTurn startSeat
  if s.table.noFurtherBettingPossible then
    let s ← s.setCurrentTurn none
    let s ← s.collectBetsToPot
    s.advanceRound
  else
    let currentBet := s.table.bettingRound.elim 0 BettingRound.currentBet
    return s.emit (.bettingRoundStarted s.table.id s.table.roundState currentBet bb
      (startSeat.getD 0) s.table.pot)

/-- Leave a reveal whose assignments are all materialized. -/
def checkRevealPhaseComplete (s : Exec G) : PokerL1Result (Exec G) := do
  let reveal ← orErr s.table.revealTokenState
    (.serialization "reveal completion checked outside reveal state")
  if reveal.assignments ≠ [] then
    return s
  else
    let s := s.emit (.revealPhaseComplete s.table.id s.table.revealPhase)
    match reveal.purpose with
    | .dealHole =>
      let (s, bbSeat) ← s.postBlinds
      let s ← s.collectAnte bbSeat
      s.startBettingRound true (some bbSeat)
    | .board => s.startBettingRound false none
    | .showdownOwner => return s.withTable (s.table.enterShowdownDisplay 0)

end Exec

end TexasPoker
