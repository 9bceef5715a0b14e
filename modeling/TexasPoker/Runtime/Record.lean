import TexasPoker.Core.Schema

/-! # Fixed-width records

Seats and hand phases are stored in records of a fixed width; a table can be stored when
its schema holds and every record fits.
-/

namespace TexasPoker

/-- A payload with its length and tag fits into a record. -/
def recordFits (payloadLen width : ℕ) : Bool := payloadLen + 1 + 4 ≤ width

/-- The encoded length of an occupied seat around an encoded point. -/
def occupiedSeatLen (pointLen : ℕ) : ℕ := 20 + 8 + pointLen + 33 + 8 + 4

/-- The payload length of a seat record. -/
def Seat.payloadLen {G : Type} (pointLen : ℕ) : Seat G → ℕ
  | .vacant _ => 4
  | .waiting _ => occupiedSeatLen pointLen
  | .playing _ => occupiedSeatLen pointLen + 3 + 8 + 8 + 1
  | .departedThisHand .. => 20 + 8 + 4

variable {G : Type}

theorem Seat.recordFits_payloadLen (seat : Seat G) :
    recordFits (seat.payloadLen 32) seatRecordWidth = true := by
  cases seat <;> rfl

/-- The encoded length of a reveal assignment. -/
def RevealAssignment.encodedLen (pointLen : ℕ) (a : RevealAssignment G) : ℕ :=
  1 + 3 + 2 + 2 + (4 + pointLen * a.revealTokens.length)

/-- The encoded length of a reveal. -/
def RevealTokenState.encodedLen (pointLen : ℕ) (s : RevealTokenState G) : ℕ :=
  1 + (4 + (s.assignments.map (RevealAssignment.encodedLen pointLen)).sum)

/-- The payload length of a hand phase record. -/
def HandPhase.payloadLen (pointLen : ℕ) : HandPhase G → ℕ
  | .waiting => 0
  | .shuffling (.initial ..) => 1 + 4 + 8
  | .shuffling (.reconstruct _ _ reveal _) => 1 + (1 + 4 + reveal.encodedLen pointLen + 8)
  | .revealing _ state _ => 1 + state.encodedLen pointLen + 8
  | .reconstructing _ _ reveal _ _ => 1 + 2 + reveal.encodedLen pointLen + 8 + 8
  | .betting .. => 1 + 16 + 1 + 8
  | .showdownDisplay _ => 8

namespace TexasPokerTable

variable (t : TexasPokerTable G)

/-- Every seat and the hand phase fit into their records. -/
def recordsFit (pointLen : ℕ) : Bool :=
  ((List.finRange maxSeats).all fun i => t.rules.maxPlayers ≤ i.1 ||
      recordFits ((t.seats i).payloadLen pointLen) seatRecordWidth) &&
    recordFits (t.handPhase.payloadLen pointLen) handPhaseRecordWidth

/-- The checks a table passes to be stored. -/
def persist [AddCommGroup G] [Protocol G] [DecidableEq G] : Except String Unit := do
  t.validateStateSchema.mapError PokerL1Error.text
  (List.finRange maxSeats).forM fun i =>
    if i.1 < t.rules.maxPlayers then (t.seats i).validateCanonical.mapError PokerL1Error.text
    else .ok ()
  t.validateHandPhase.mapError PokerL1Error.text
  ensure (t.recordsFit (Protocol.pointLen G))
    "fixed-width record payload exceeds record width"

end TexasPokerTable

end TexasPoker
