import TexasPoker.Machine.Shuffle

/-! # Reveal tokens

Collecting reveal tokens and writing every completed card to its place: the ledger, a
board, or the owner's hand.
-/

namespace TexasPoker

variable {G : Type} [AddCommGroup G] [Protocol G] [DecidableEq G]

/-- The card of a plaintext point. -/
def cardFromPlaintext (plaintext : G) : PokerL1Result Card := do
  let index ← orErr ((generatePlaintextCards (G := G)).findIdx? fun m => m = plaintext)
    (.serialization "decrypted plaintext is not a canonical Texas Poker card")
  return ⟨index⟩

/-- The tokens of a completed assignment. -/
def completedRevealTokens (a : RevealAssignment G) : PokerL1Result (List G) := do
  ensure (a.pendingMask = 0)
    (.serialization "reveal assignment is not a freshly completed collection")
  ensure (seatMaskCount a.submittedMask = a.revealTokens.length)
    (.serialization "completed reveal assignment has a non-canonical token vector")
  return a.revealTokens

/-- The rank and suit events pad their card lists to a fixed width. -/
def padTo (n : ℕ) (l : List ℕ) : List ℕ := l ++ List.replicate (n - l.length) 0

namespace TexasPokerTable

variable (t : TexasPokerTable G)

/-- The ciphertext a reveal token is proved against: at showdown the one dealt, otherwise
the deck's. -/
def revealCiphertext (seatIndex : ℕ) (a : RevealAssignment G) :
    PokerL1Result (ElGamalCiphertext G) :=
  if t.revealPhase = revealPhaseShowdown then
    match a.target with
    | .board .. => throw (.serialization
        "showdown reveal assignment must target a hole-card slot")
    | .hole owner cardSlot => do
      ensure (owner = seatIndex) (.serialization
        s!"showdown reveal submitter {seatIndex} does not own target seat {owner}")
      let partialCard ← orErr (t.deckState.ownerReadableHoleCards.get owner cardSlot)
        (.serialization
          s!"showdown partial ciphertext is missing: seat={owner}, slot={cardSlot}")
      ensure (partialCard.encryptedCardIndex = a.encryptedCardIndex) (.serialization
        (s!"showdown assignment/ledger lineage mismatch: " ++
          s!"assignment={a.encryptedCardIndex}, ledger={partialCard.encryptedCardIndex}"))
      return partialCard.fullCiphertext
  else orErr (t.deckState.encrypted.get a.encryptedCardIndex)
    (.serialization s!"card_index {a.encryptedCardIndex} out of range")

/-- Record a token on the assignment at `ai` of the active reveal. -/
def recordToken (seatIndex ai : ℕ) (token : G) : PokerL1Result (TexasPokerTable G) :=
  match t.handPhase with
  | .revealing street state deadlineMs => do
    let a ← orErr state.assignments[ai]?
      (.serialization s!"assignment_index {ai} out of range")
    let insertIndex := seatMaskCount a.submittedMask
    ensure (insertIndex = a.revealTokens.length)
      (.serialization s!"assignment {ai} token vector is not canonical")
    let a := { a with
      revealTokens := a.revealTokens.insertIdx insertIndex token
      pendingMask := seatMaskRemove a.pendingMask seatIndex
      submittedMask := Mask.insert a.submittedMask seatIndex }
    let state := { state with assignments := state.assignments.set ai a }
    return { t with handPhase := .revealing street state deadlineMs }
  | _ => .error (.serialization "Texas table is not in an active reveal phase")

/-- Drop the completed assignments of the active reveal. -/
def drainCompleted : PokerL1Result (TexasPokerTable G) :=
  match t.handPhase with
  | .revealing street state deadlineMs =>
    let state := { state with
      assignments := state.assignments.filter fun a => a.pendingMask ≠ 0 }
    .ok { t with handPhase := .revealing street state deadlineMs }
  | _ => .error (.serialization "Texas table is not in an active reveal phase")

/-- Enter one dealt card into the ledger. -/
def materializeHole (a : RevealAssignment G) : PokerL1Result (TexasPokerTable G) :=
  match a.target with
  | .board .. => .error (.serialization "preflop reveal completed a non-hole assignment")
  | .hole seatIndex cardSlot => do
    let encrypted ← orErr (t.deckState.encrypted.get a.encryptedCardIndex)
      (.serialization s!"preflop reveal card index {a.encryptedCardIndex} is out of range")
    let tokens ← completedRevealTokens a
    let card : PartialHoleCard G :=
      ⟨a.encryptedCardIndex, ⟨encrypted.c1, partialDecryptC2 encrypted.c2 tokens⟩, encrypted⟩
    let ledger ← t.deckState.ownerReadableHoleCards.insert seatIndex cardSlot card
    return { t with deckState := { t.deckState with ownerReadableHoleCards := ledger } }

/-- The next free positions of both boards, the cards seen, and the cards decrypted. -/
structure BoardScan where
  seen : List ℕ
  first : ℕ
  second : ℕ
  cards : List (ℕ × ℕ × Card)

/-- Decrypt one board card; it must take the next position of its board. -/
def scanBoardCard (acc : BoardScan) (a : RevealAssignment G) : PokerL1Result BoardScan :=
  match a.target with
  | .hole .. => .error (.serialization "community reveal completed a hole assignment")
  | .board runout position => do
    let expected := if runout = 0 then acc.first else acc.second
    ensure (¬ (t.runoutCount ≤ runout ∨ position ≠ expected)) (.serialization
      (s!"community reveal target is not the canonical next position for runout " ++
        s!"{runout}"))
    let encrypted ← orErr (t.deckState.encrypted.get a.encryptedCardIndex)
      (.serialization "community reveal card index is out of range")
    let tokens ← completedRevealTokens a
    let card ← cardFromPlaintext (partialDecryptC2 encrypted.c2 tokens)
    ensure (card.index ∉ acc.seen) (.serialization
      s!"duplicate decrypted card id {card.index} while writing community cards")
    return {
      seen := card.index :: acc.seen
      first := if runout = 0 then acc.first + 1 else acc.first
      second := if runout = 0 then acc.second else acc.second + 1
      cards := acc.cards ++ [(a.encryptedCardIndex, runout, card)] }

/-- Append one decrypted card to its board. -/
def pushBoardCard (t : TexasPokerTable G) (entry : ℕ × ℕ × Card) :
    PokerL1Result (TexasPokerTable G) :=
  if entry.2.1 = 0 then do
    let communityCards ← labelled "cannot append first-board card"
      (BoardCards.tryPush t.communityCards entry.2.2)
    return { t with communityCards }
  else
    match t.runItTwiceState with
    | .single => .error (.serialization "Texas single runout has no second-board suffix")
    | .twice start suffix => do
      let suffix ← labelled "cannot append second-board suffix card"
        (BoardCards.tryPush suffix entry.2.2)
      return { t with runItTwiceState := .twice start suffix }

/-- Decrypt one showdown card with its owner's token. -/
def scanShowdownCard (acc : List ℕ × List (ℕ × ℕ × ℕ × Card)) (a : RevealAssignment G) :
    PokerL1Result (List ℕ × List (ℕ × ℕ × ℕ × Card)) :=
  match a.target with
  | .board .. => .error (.serialization "showdown reveal completed a board assignment")
  | .hole seatIndex cardSlot => do
    let record ← orErr (t.deckState.ownerReadableHoleCards.get seatIndex cardSlot)
      (.serialization
        s!"showdown partial ledger slot is missing: seat={seatIndex}, slot={cardSlot}")
    ensure (record.encryptedCardIndex = a.encryptedCardIndex) (.serialization
      (s!"showdown assignment/ledger lineage mismatch: assignment={a.encryptedCardIndex}, " ++
        s!"ledger={record.encryptedCardIndex}"))
    let tokens ← completedRevealTokens a
    let card ← cardFromPlaintext (partialDecryptC2 record.ciphertext.c2 tokens)
    ensure (card.index ∉ acc.1) (.serialization
      s!"duplicate decrypted card id {card.index} while writing hole cards")
    return (card.index :: acc.1,
      acc.2 ++ [(seatIndex, cardSlot, a.encryptedCardIndex, card)])

end TexasPokerTable

namespace Exec

variable (s : Exec G)

/-- Append the board cards of a completed street. -/
def materializeCommunity (completed : List (RevealAssignment G)) : PokerL1Result (Exec G) := do
  let t := s.table
  let seen ← t.exposedCardIds
  let scan ← completed.foldlM t.scanBoardCard
    ⟨seen, t.communityCards.len, t.runItTwiceState.secondBoardLen, []⟩
  let t ← scan.cards.foldlM TexasPokerTable.pushBoardCard t
  return (s.withTable t).emit (.communityCardRevealed t.id t.revealPhase
    (padTo 6 (scan.cards.map fun c => c.1)) (padTo 6 (scan.cards.map fun c => c.2.2.rank))
    (padTo 6 (scan.cards.map fun c => c.2.2.suit)) scan.cards.length)

/-- Move one opened card from the ledger to its owner's hand. -/
def pushShowdownCard (s : Exec G) (entry : ℕ × ℕ × ℕ × Card) : PokerL1Result (Exec G) := do
  let (seatIndex, cardSlot, cardIndex, card) := entry
  let t := s.table
  ensure (seatIndex < maxSeats) (.serialization "showdown owner is out of range")
  let seat := t.seat seatIndex
  ensure (seat.isOccupied ∧ cardSlot = seat.handLen) (.serialization
    s!"showdown hole-card slot {cardSlot} is not canonical for seat {seatIndex}")
  let p ← seat.playingMut
  let hand ← labelled s!"cannot append hole card for seat {seatIndex}"
    (HoleCards.tryPush p.hand card)
  let ledger ← t.deckState.ownerReadableHoleCards.remove seatIndex cardSlot
  let t := t.setSeat seatIndex (.playing { p with hand })
  let s := s.withTable { t with deckState := { t.deckState with
    ownerReadableHoleCards := ledger } }
  if seat.isFolded then return s
  else return s.emit (.showdownHoleCardsRevealed t.id seatIndex seat.player [cardIndex, 0]
    [card.rank, 0] [card.suit, 0])

/-- Open the completed hole cards of a showdown. -/
def materializeShowdown (completed : List (RevealAssignment G)) : PokerL1Result (Exec G) := do
  let seen ← s.table.exposedCardIds
  let (_, cards) ← completed.foldlM s.table.scanShowdownCard (seen, [])
  cards.foldlM pushShowdownCard s

/-- Write every completed assignment to its place and drop it from the reveal. -/
def materializeCompletedRevealAssignments : PokerL1Result (Exec G) := do
  let reveal ← orErr s.table.revealTokenState
    (.serialization "cannot materialize outside reveal state")
  let completed := reveal.assignments.filter fun a => a.pendingMask = 0
  if completed = [] then
    return s
  else
    let s ←
      match reveal.purpose with
      | .dealHole =>
        let t ← completed.foldlM TexasPokerTable.materializeHole s.table
        pure (s.withTable t)
      | .board =>
        ensure (completed.length = reveal.assignments.length) (.serialization
          "community reveal assignments did not complete as one canonical batch")
        s.materializeCommunity completed
      | .showdownOwner => s.materializeShowdown completed
    let t ← s.table.drainCompleted
    return s.withTable t

/-- Verify and record one token of a submission. -/
def submitRevealToken (seatIndex : ℕ) (pk : G) (s : Exec G)
    (entry : ℕ × G × Protocol.RevealTokenProof G) : PokerL1Result (Exec G) := do
  let (ai, token, proof) := entry
  let t := s.table
  let a ← orErr t.revealAssignments[ai]?
    (.serialization s!"assignment_index {ai} out of range")
  ensure (¬ a.isReady) (.serialization s!"assignment {ai} already resolved")
  ensure (seatMaskContains a.pendingMask seatIndex)
    (.serialization s!"seat {seatIndex} not in pending for assignment {ai}")
  let ciphertext ← t.revealCiphertext seatIndex a
  labelled "reveal token proof" (Protocol.verifyRevealToken proof ciphertext token pk)
  let t ← t.recordToken seatIndex ai token
  return (s.withTable t).emit
    (.revealTokenSubmitted t.id seatIndex a.encryptedCardIndex t.revealPhase)

/-- A seat submits the tokens of all its pending assignments, in order. -/
def applySubmitPlayerRevealTokens (seatIndex : ℕ) (revealTokens : List G)
    (proofs : List (Protocol.RevealTokenProof G)) : PokerL1Result (Exec G) := do
  let t := s.table
  ensure t.revealTokenState.isSome (.phaseWindowClosed "reveal phase is NONE")
  ensure (revealTokens.length = proofs.length)
    (.serialization "reveal_tokens/proofs length mismatch")
  ensure (revealTokens ≠ [])
    (.serialization "reveal token submission must not be empty")
  ensure (t.seat seatIndex).isOccupied (.serialization "seat not occupied")
  let indices := (List.range t.revealAssignments.length).filter fun i =>
    t.revealAssignments[i]?.any fun a => seatMaskContains a.pendingMask seatIndex
  ensure (indices.length = revealTokens.length) (.phaseWindowClosed
    (s!"reveal submission must contain every pending assignment in canonical order: " ++
      s!"expected {indices.length} token/proof pairs, got {revealTokens.length}"))
  let pk ← orErr (t.seat seatIndex).pk (.serialization "reveal seat has no live key")
  let s ← (indices.zip (revealTokens.zip proofs)).foldlM (submitRevealToken seatIndex pk) s
  let s ← s.materializeCompletedRevealAssignments
  s.checkRevealPhaseComplete

end Exec

end TexasPoker
