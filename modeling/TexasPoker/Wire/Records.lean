import TexasPoker.Wire.Fields
import TexasPoker.Wire.PaddedRecord

/-! # Records of seats and hand phases

The two padded records of a stored table, and exactly which byte strings of their widths are
the one record of what they read as.
-/

namespace TexasPoker.Wire

variable {G : Type}

/-- One stored slot. -/
inductive Seat (G : Type) where
  | vacant (timeBankMs : ℕ)
  | waiting (occupied : OccupiedSeat G)
  | playing (playing : PlayingSeat G)
  | departedThisHand (player : Address) (totalBet timeBankMs : ℕ)
  deriving DecidableEq

/-- The payloads of a seat record. -/
def seat (point : Codec G) : TaggedCodec (Seat G) where
  tagOf
    | .vacant _ => 0
    | .waiting _ => 1
    | .playing _ => 2
    | .departedThisHand .. => 3
  payload
    | .vacant timeBankMs => (Codec.uint 4).encode timeBankMs
    | .waiting occupied => (occupiedSeat point).encode occupied
    | .playing playing => (playingSeat point).encode playing
    | .departedThisHand player totalBet timeBankMs =>
      (address.pair ((Codec.uint 8).pair (Codec.uint 4))).encode (player, totalBet, timeBankMs)
  ofPayload
    | 0 => .vacant <$> (Codec.uint 4).decode
    | 1 => .waiting <$> (occupiedSeat point).decode
    | 2 => .playing <$> (playingSeat point).decode
    | 3 => (fun p => .departedThisHand p.1 p.2.1 p.2.2) <$>
      (address.pair ((Codec.uint 8).pair (Codec.uint 4))).decode
    | tag => throw s!"unknown Seat record tag {tag}"
  tagOf_lt := by
    intro seat
    cases seat <;> simp
  ofPayload_payload := by
    intro seat bytes h
    cases seat with
    | vacant timeBankMs => exact Codec.map_decode _ h
    | waiting occupied => exact Codec.map_decode _ h
    | playing playing => exact Codec.map_decode _ h
    | departedThisHand player totalBet timeBankMs => exact Codec.map_decode _ h
  payload_ofPayload := by
    intro tag input seat rest h
    split at h
    case h_5 => exact absurd h Decoder.throw_ne_ok
    all_goals
      obtain ⟨p, bytes, rfl, henc, hin⟩ := Codec.of_map_decode h
      exact ⟨rfl, bytes, henc, hin⟩

/-- The payloads of a hand phase record. -/
def handPhase (point : Codec G) : TaggedCodec (HandPhase G) where
  tagOf
    | .waiting => 0
    | .shuffling _ => 1
    | .revealing .. => 2
    | .reconstructing .. => 3
    | .betting .. => 4
    | .showdownDisplay _ => 5
  payload
    | .waiting => .ok []
    | .shuffling phase => (shufflingPhase point).codec.encode phase
    | .revealing street state deadlineMs =>
      ((Codec.uint 1).pair ((revealTokenState point).pair (Codec.uint 8))).encode
        (street, state, deadlineMs)
    | .reconstructing street state suspendedReveal epochMs deadlineMs =>
      ((Codec.uint 1).pair (reconstructState.pair ((revealTokenState point).pair
        ((Codec.uint 8).pair (Codec.uint 8))))).encode
        (street, state, suspendedReveal, epochMs, deadlineMs)
    | .betting street round currentTurn deadlineMs =>
      ((Codec.uint 1).pair (bettingRound.pair ((Codec.uint 1).pair (Codec.uint 8)))).encode
        (street, round, currentTurn, deadlineMs)
    | .showdownDisplay deadlineMs => (Codec.uint 8).encode deadlineMs
  ofPayload
    | 0 => return .waiting
    | 1 => .shuffling <$> (shufflingPhase point).codec.decode
    | 2 => (fun p => .revealing p.1 p.2.1 p.2.2) <$>
      ((Codec.uint 1).pair ((revealTokenState point).pair (Codec.uint 8))).decode
    | 3 => (fun p => .reconstructing p.1 p.2.1 p.2.2.1 p.2.2.2.1 p.2.2.2.2) <$>
      ((Codec.uint 1).pair (reconstructState.pair ((revealTokenState point).pair
        ((Codec.uint 8).pair (Codec.uint 8))))).decode
    | 4 => (fun p => .betting p.1 p.2.1 p.2.2.1 p.2.2.2) <$>
      ((Codec.uint 1).pair (bettingRound.pair ((Codec.uint 1).pair (Codec.uint 8)))).decode
    | 5 => .showdownDisplay <$> (Codec.uint 8).decode
    | tag => throw s!"unknown HandPhase record tag {tag}"
  tagOf_lt := by
    intro phase
    cases phase <;> simp
  ofPayload_payload := by
    intro phase bytes h
    cases phase with
    | waiting =>
      cases h
      intro rest
      rfl
    | shuffling phase => exact Codec.map_decode _ h
    | revealing street state deadlineMs => exact Codec.map_decode _ h
    | reconstructing street state suspendedReveal epochMs deadlineMs => exact Codec.map_decode _ h
    | betting street round currentTurn deadlineMs => exact Codec.map_decode _ h
    | showdownDisplay deadlineMs => exact Codec.map_decode _ h
  payload_ofPayload := by
    intro tag input phase rest h
    split at h
    case h_1 =>
      obtain ⟨rfl, rfl⟩ := Decoder.pure_eq_ok.mp h
      exact ⟨rfl, [], rfl, rfl⟩
    case h_7 => exact absurd h Decoder.throw_ne_ok
    all_goals
      obtain ⟨p, bytes, rfl, henc, hin⟩ := Codec.of_map_decode h
      exact ⟨rfl, bytes, henc, hin⟩

open Record

/-- A record of either kind is canonical exactly when it is not all zeros and its length field
counts nothing after the payload. -/
theorem records_canonical_iff (point : Codec G) (input : Bytes) :
    (input.length = seatRecordWidth → (CanonicalAt (seat point) seatRecordWidth input ↔
      input ≠ List.replicate seatRecordWidth 0 ∧
        ¬ HasSlack (seat point) seatRecordWidth input)) ∧
    (input.length = handPhaseRecordWidth →
      (CanonicalAt (handPhase point) handPhaseRecordWidth input ↔
        input ≠ List.replicate handPhaseRecordWidth 0 ∧
          ¬ HasSlack (handPhase point) handPhaseRecordWidth input)) :=
  ⟨canonicalAt_iff (by decide) (by decide), canonicalAt_iff (by decide) (by decide)⟩

/-- The buffer of a vacant slot with an empty time bank. -/
abbrev vacantBuffer (slack : Bytes) : Bytes :=
  buffer (seat (Codec.bytes 32)) (.vacant 0) (leBytes 4 0) slack

/-- Zeros panic, and a vacant slot is read from a second record. -/
theorem zeros_panic_and_slack_accepted :
    deserialize (seat (Codec.bytes 32)) seatRecordWidth (List.replicate seatRecordWidth 0) =
        .error .panic ∧
      deserialize (seat (Codec.bytes 32)) seatRecordWidth
        (frame (vacantBuffer [1]) seatRecordWidth) = .ok (.vacant 0, []) ∧
      serialize (seat (Codec.bytes 32)) seatRecordWidth (.vacant 0) ≠
        .ok (frame (vacantBuffer [1]) seatRecordWidth) := by
  have hread : deserialize (seat (Codec.bytes 32)) seatRecordWidth
      (frame (vacantBuffer [1]) seatRecordWidth) = .ok (.vacant 0, []) :=
    (deserialize_eq_ok (by decide)).mpr
      ⟨leBytes 4 0, [1], rfl, by decide, (List.append_nil _).symm⟩
  refine ⟨(deserialize_panic_iff (by decide)).mpr ⟨[], (List.append_nil _).symm⟩, hread, ?_⟩
  intro hout
  obtain ⟨body, hbody, hw, -, hframe⟩ := serialize_eq_ok.mp hout
  cases hbody
  exact absurd (frame_inj (by decide) (by decide) hframe) (by decide)

/-- The one record of a vacant slot. -/
theorem vacant_record_canonical :
    CanonicalAt (seat (Codec.bytes 32)) seatRecordWidth (frame (vacantBuffer []) seatRecordWidth) := by
  refine ((records_canonical_iff (Codec.bytes 32) _).1 (length_frame (by decide))).mpr ⟨?_, ?_⟩
  · rw [← frame_nil (by decide)]
    exact fun h => absurd (frame_inj (by decide) (by decide) h) (by decide)
  · rintro ⟨v, body, slack, hbody, hslack, hw, hframe⟩
    have hbuf := frame_inj (by decide) (lt_of_le_u32Max (by decide) hw) hframe
    obtain ⟨htag, hrest⟩ := buffer_inj hbuf
    cases v with
    | vacant timeBankMs =>
      have hlen : body.length = 4 := by
        change (if timeBankMs < 256 ^ 4 then Except.ok (leBytes 4 timeBankMs) else _) = _ at hbody
        split at hbody <;> cases hbody
        exact length_leBytes 4 timeBankMs
      have hlen' := congrArg List.length hrest
      simp only [List.append_nil, List.length_append, length_leBytes, hlen] at hlen'
      exact hslack (List.eq_nil_of_length_eq_zero (by omega))
    | waiting occupied => exact absurd htag Nat.zero_ne_one
    | playing playing => exact absurd htag (Nat.succ_ne_zero 1).symm
    | departedThisHand player totalBet timeBankMs => exact absurd htag (Nat.succ_ne_zero 2).symm

end TexasPoker.Wire
