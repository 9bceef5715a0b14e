import Mathlib.Algebra.Order.BigOperators.Group.List
import TexasPoker.Lib.Writes
import TexasPoker.Wire.RoundTrip

/-! # Tables that can be stored

A table whose numbers fit their machine types is stored whenever its schema holds and its hand
phase fits its record; hot, when it has a creator too.
-/

namespace TexasPoker

/-! ## Machine types -/

abbrev Card.Sized (c : Card) : Prop := c.index < 2 ^ 8

abbrev ObjectID.Sized (id : ObjectID) : Prop := id.creationNonce < 2 ^ 64

structure TimeoutConfig.Sized (c : TimeoutConfig) : Prop where
  shuffle : c.shuffleTimeoutMs < 2 ^ 32
  reveal : c.revealTimeoutMs < 2 ^ 32
  betting : c.bettingTimeoutMs < 2 ^ 32
  reconstruct : c.reconstructTimeoutMs < 2 ^ 32
  display : c.showdownDisplayMs < 2 ^ 32

structure TableRules.Sized (r : TableRules) : Prop where
  maxPlayers : r.maxPlayers < 2 ^ 8
  blinds : r.smallBlind < 2 ^ 64 ∧ r.bigBlind < 2 ^ 64
  timeouts : r.timeoutConfig.Sized
  anteMode : r.anteMode < 2 ^ 8
  anteAmount : r.anteAmount < 2 ^ 64
  rakeMode : r.rakeMode < 2 ^ 8
  rakeBps : r.rakeBps < 2 ^ 16
  rakeCap : r.rakeCap < 2 ^ 64
  ritMode : r.ritMode < 2 ^ 8

def RevealTarget.Sized : RevealTarget → Prop
  | .hole seatIndex cardSlot => seatIndex < 2 ^ 8 ∧ cardSlot < 2 ^ 8
  | .board runoutIndex boardPosition => runoutIndex < 2 ^ 8 ∧ boardPosition < 2 ^ 8

variable {G : Type}

def RevealTokenState.Sized (s : RevealTokenState G) : Prop :=
  ∀ a ∈ s.assignments, a.encryptedCardIndex < 2 ^ 8 ∧ a.target.Sized

def HandPhase.Sized : HandPhase G → Prop
  | .waiting => True
  | .shuffling (.initial _ deadlineMs) => deadlineMs < 2 ^ 64
  | .shuffling (.reconstruct street _ reveal deadlineMs) =>
    street < 2 ^ 8 ∧ reveal.Sized ∧ deadlineMs < 2 ^ 64
  | .revealing street state deadlineMs => street < 2 ^ 8 ∧ state.Sized ∧ deadlineMs < 2 ^ 64
  | .reconstructing street _ reveal epochMs deadlineMs =>
    street < 2 ^ 8 ∧ reveal.Sized ∧ epochMs < 2 ^ 64 ∧ deadlineMs < 2 ^ 64
  | .betting street round currentTurn deadlineMs => street < 2 ^ 8 ∧
    (round.currentBet < 2 ^ 64 ∧ round.minRaise < 2 ^ 64) ∧ currentTurn < 2 ^ 8 ∧
      deadlineMs < 2 ^ 64
  | .showdownDisplay deadlineMs => deadlineMs < 2 ^ 64

structure DeckState.Sized (d : DeckState G) : Prop where
  cardsDealt : d.cardsDealt < 2 ^ 8
  ledger : ∀ seat slot, ∀ c ∈ d.ownerReadableHoleCards.seats seat slot,
    c.encryptedCardIndex < 2 ^ 8

namespace Wire

structure HoleCards.Sized (h : HoleCards) : Prop where
  len : h.len < 2 ^ 8
  cards : h.cards.1.Sized ∧ h.cards.2.Sized

structure OccupiedSeat.Sized (o : OccupiedSeat G) : Prop where
  stack : o.stack < 2 ^ 64
  key : o.txPk.tag < 2 ^ 8 ∧ o.txPk.raw.length = 32
  addon : o.pendingAddon < 2 ^ 64
  timeBank : o.timeBankMs < 2 ^ 32

structure PlayingSeat.Sized (s : PlayingSeat G) : Prop where
  occupied : s.occupied.Sized
  hand : s.hand.Sized
  bet : s.bet < 2 ^ 64
  totalBet : s.totalBet < 2 ^ 64

def Seat.Sized : Seat G → Prop
  | .vacant timeBankMs => timeBankMs < 2 ^ 32
  | .waiting o => o.Sized
  | .playing p => p.Sized
  | .departedThisHand _ totalBet timeBankMs => totalBet < 2 ^ 64 ∧ timeBankMs < 2 ^ 32

structure BoardCards.Sized (b : BoardCards) : Prop where
  len : b.len < 2 ^ 8
  cards : ∀ i, (b.cards i).Sized

def RunItTwiceState.Sized : RunItTwiceState → Prop
  | .single => True
  | .twice _ suffix => suffix.Sized

/-- Every number of the table fits its machine type. -/
structure Table.Sized (w : Table G) : Prop where
  id : w.id.Sized
  rules : w.rules.Sized
  seats : ∀ i, (w.seats i).Sized
  button : w.button < 2 ^ 8
  lastBbSeat : w.lastBbSeat < 2 ^ 8
  pot : w.pot < 2 ^ 64
  board : w.communityCards.Sized
  phase : w.handPhase.Sized
  deck : w.deckState.Sized
  chipPool : w.chipPool < 2 ^ 64
  runs : w.runItTwiceState.Sized
  handId : w.handId < 2 ^ 32
  callSeq : w.callSeq < 2 ^ 32

/-! ## Fields -/

theorem writes_address (a : Address) : address.Writes a 20 := ⟨_, rfl, by simp⟩

theorem writes_seatMask (m : SeatMask) : seatMask.Writes m 2 :=
  (Codec.writes_uint 2 m.isLt).via rfl

theorem writes_card {c : Card} (h : c.Sized) : card.Writes c 1 :=
  (Codec.writes_uint 1 h).via rfl

theorem writes_objectID {id : ObjectID} (h : id.Sized) : objectID.Writes id 28 :=
  ((writes_address _).pair (Codec.writes_uint 8 h)).via rfl

theorem writes_timeoutConfig {c : TimeoutConfig} (h : c.Sized) : timeoutConfig.Writes c 20 :=
  ((Codec.writes_uint 4 h.shuffle).pair ((Codec.writes_uint 4 h.reveal).pair
    ((Codec.writes_uint 4 h.betting).pair
      ((Codec.writes_uint 4 h.reconstruct).pair
        (Codec.writes_uint 4 h.display))))).via rfl

theorem writes_tableRules {r : TableRules} (h : r.Sized) : ∃ n, tableRules.Writes r n :=
  ⟨_, ((Codec.writes_uint 1 h.maxPlayers).pair
    ((Codec.writes_uint 8 h.blinds.1).pair
      ((Codec.writes_uint 8 h.blinds.2).pair ((writes_timeoutConfig h.timeouts).pair
        ((Codec.writes_uint 1 h.anteMode).pair
          ((Codec.writes_uint 8 h.anteAmount).pair
            ((Codec.writes_uint 1 h.rakeMode).pair
              ((Codec.writes_uint 2 h.rakeBps).pair
                ((Codec.writes_uint 8 h.rakeCap).pair
                  (Codec.writes_uint 1 h.ritMode)))))))))).via rfl⟩

theorem writes_holeCards {h : HoleCards} (hs : h.Sized) : holeCards.Writes h 3 :=
  ((Codec.writes_uint 1 hs.len).pair
    ((writes_card hs.cards.1).pair (writes_card hs.cards.2))).via rfl

theorem writes_boardCards {b : BoardCards} (h : b.Sized) : ∃ n, boardCards.Writes b n := by
  obtain ⟨n, hn⟩ := Codec.Writes.array fun i => ⟨1, writes_card (h.cards i)⟩
  exact ⟨_, ((Codec.writes_uint 1 h.len).pair hn).via rfl⟩

theorem writes_playingSeatStatus (status : PlayingSeatStatus) :
    playingSeatStatus.Writes status 1 := by
  cases status <;> exact ⟨_, rfl, rfl⟩

theorem writes_ritStartStreet (start : RitStartStreet) : ritStartStreet.Writes start 1 := by
  cases start <;> exact ⟨_, rfl, rfl⟩

theorem writes_revealPurpose (purpose : RevealPurpose) : revealPurpose.Writes purpose 1 := by
  cases purpose <;> exact ⟨_, rfl, rfl⟩

theorem writes_runItTwiceState {s : RunItTwiceState} (h : s.Sized) :
    ∃ n, runItTwiceState.Writes s n := by
  cases s with
  | single => exact ⟨0, [], rfl, rfl⟩
  | twice start suffix =>
    obtain ⟨n, hn⟩ := writes_boardCards h
    exact ⟨_, (writes_ritStartStreet start).pair hn⟩

theorem writes_shuffleState (s : ShuffleState) : shuffleState.Writes s 4 :=
  ((writes_seatMask _).pair (writes_seatMask _)).via rfl

theorem writes_reconstructState (s : ReconstructState) : reconstructState.Writes s 2 :=
  (writes_seatMask _).via rfl

theorem writes_bettingRound {r : BettingRound} (h : r.currentBet < 2 ^ 64 ∧ r.minRaise < 2 ^ 64) :
    bettingRound.Writes r 16 :=
  ((Codec.writes_uint 8 h.1).pair (Codec.writes_uint 8 h.2)).via rfl

theorem writes_starkTxPubkey {k : StarkTxPubkey} (h : k.tag < 2 ^ 8 ∧ k.raw.length = 32) :
    starkTxPubkey.Writes k 33 :=
  ((Codec.writes_uint 1 h.1).pair (Codec.writes_bytes h.2)).via rfl

theorem writes_revealTarget {target : RevealTarget} (h : target.Sized) :
    revealTarget.Writes target 2 := by
  cases target with
  | hole seatIndex cardSlot =>
    exact (Codec.writes_uint 1 h.1).pair (Codec.writes_uint 1 h.2)
  | board runoutIndex boardPosition =>
    exact (Codec.writes_uint 1 h.1).pair (Codec.writes_uint 1 h.2)

/-! ## Seats and phases -/

section Points

variable {point : Codec G} (hpoint : ∀ g, point.Writes g 32)

include hpoint

theorem writes_occupiedSeat {o : OccupiedSeat G} (h : o.Sized) :
    (occupiedSeat point).Writes o (occupiedSeatLen 32) :=
  ((writes_address _).pair ((Codec.writes_uint 8 h.stack).pair ((hpoint _).pair
    ((writes_starkTxPubkey h.key).pair
      ((Codec.writes_uint 8 h.addon).pair
        (Codec.writes_uint 4 h.timeBank)))))).via rfl

theorem writes_playingSeat {p : PlayingSeat G} (h : p.Sized) :
    (playingSeat point).Writes p (occupiedSeatLen 32 + 3 + 8 + 8 + 1) :=
  ((writes_occupiedSeat hpoint h.occupied).pair ((writes_holeCards h.hand).pair
    ((Codec.writes_uint 8 h.bet).pair ((Codec.writes_uint 8 h.totalBet).pair
      (writes_playingSeatStatus _))))).via rfl

/-- Every seat is written in the length that its record is measured by. -/
theorem writes_seat {s : Seat G} (h : s.Sized) : (seat point).Writes s (s.view.payloadLen 32) := by
  cases s with
  | vacant timeBankMs => exact Codec.writes_uint 4 h
  | waiting o => exact writes_occupiedSeat hpoint h
  | playing p => exact writes_playingSeat hpoint h
  | departedThisHand player totalBet timeBankMs =>
    exact (writes_address player).pair
      ((Codec.writes_uint 8 h.1).pair (Codec.writes_uint 4 h.2))

theorem writes_points {l : List G} (hlen : l.length < 2 ^ 32) :
    point.vec.Writes l (4 + 32 * l.length) := by
  have h := Codec.Writes.vec (fun _ => 32) hlen fun g _ => hpoint g
  simpa [Nat.mul_comm] using h

/-- A reveal of a length that can be counted is written in its measured length. -/
theorem writes_revealTokenState {s : RevealTokenState G} (h : s.Sized)
    (hfits : s.encodedLen 32 < 2 ^ 32) :
    (revealTokenState point).Writes s (s.encodedLen 32) := by
  have hsum : (s.assignments.map (RevealAssignment.encodedLen 32)).sum < 2 ^ 32 := by
    unfold RevealTokenState.encodedLen at hfits
    omega
  have htokens : ∀ a ∈ s.assignments, a.revealTokens.length < 2 ^ 32 := by
    intro a ha
    have hle := List.le_sum_of_mem (List.mem_map_of_mem (f := RevealAssignment.encodedLen 32) ha)
    simp only [RevealAssignment.encodedLen] at hle
    omega
  have hcount : s.assignments.length < 2 ^ 32 := by
    have hle := List.length_le_sum_of_one_le (s.assignments.map (RevealAssignment.encodedLen 32))
      (by simp only [List.forall_mem_map, RevealAssignment.encodedLen]; omega)
    rw [List.length_map] at hle
    omega
  refine ((writes_revealPurpose s.purpose).pair (Codec.Writes.vec _ hcount fun a ha => ?_)).via rfl
  obtain ⟨hindex, htarget⟩ := h a ha
  have hbody := ((Codec.writes_uint 1 hindex).pair ((writes_revealTarget htarget).codec.pair
    ((writes_seatMask a.pendingMask).pair ((writes_seatMask a.submittedMask).pair
      (writes_points hpoint (htokens a ha))))))
  have hlen : 1 + (1 + 2 + (2 + (2 + (4 + 32 * a.revealTokens.length)))) = a.encodedLen 32 := by
    unfold RevealAssignment.encodedLen
    omega
  rw [hlen] at hbody
  exact hbody.via rfl

/-- A hand phase that fits its record is written in its measured length. -/
theorem writes_handPhase {p : HandPhase G} (h : p.Sized)
    (hfits : recordFits (p.payloadLen 32) handPhaseRecordWidth = true) :
    (handPhase point).Writes p (p.payloadLen 32) := by
  have hwidth : handPhaseRecordWidth = 4096 := rfl
  rw [recordFits, decide_eq_true_eq, hwidth] at hfits
  cases p with
  | waiting => exact ⟨[], rfl, rfl⟩
  | shuffling phase =>
    cases phase with
    | initial state deadlineMs =>
      have hinner : (shufflingPhase point).Writes (.initial state deadlineMs) (4 + 8) :=
        (writes_shuffleState state).pair (Codec.writes_uint 8 h)
      exact hinner.codec
    | reconstruct street state reveal deadlineMs =>
      obtain ⟨hstreet, hreveal, hdeadline⟩ := h
      simp only [HandPhase.payloadLen] at hfits ⊢
      have hinner : (shufflingPhase point).Writes (.reconstruct street state reveal deadlineMs)
          (1 + (4 + (reveal.encodedLen 32 + 8))) :=
        (Codec.writes_uint 1 hstreet).pair ((writes_shuffleState state).pair
          ((writes_revealTokenState hpoint hreveal (by omega)).pair
            (Codec.writes_uint 8 hdeadline)))
      have hlen : 1 + (1 + 4 + reveal.encodedLen 32 + 8) =
          1 + (1 + (4 + (reveal.encodedLen 32 + 8))) := by omega
      rw [hlen]
      exact hinner.codec
  | revealing street state deadlineMs =>
    obtain ⟨hstreet, hreveal, hdeadline⟩ := h
    simp only [HandPhase.payloadLen] at hfits ⊢
    rw [Nat.add_assoc]
    exact (Codec.writes_uint 1 hstreet).pair
      ((writes_revealTokenState hpoint hreveal (by omega)).pair
        (Codec.writes_uint 8 hdeadline))
  | reconstructing street state reveal epochMs deadlineMs =>
    obtain ⟨hstreet, hreveal, hepoch, hdeadline⟩ := h
    simp only [HandPhase.payloadLen] at hfits ⊢
    simp only [Nat.add_assoc]
    exact (Codec.writes_uint 1 hstreet).pair ((writes_reconstructState state).pair
      ((writes_revealTokenState hpoint hreveal (by omega)).pair
        ((Codec.writes_uint 8 hepoch).pair (Codec.writes_uint 8 hdeadline))))
  | betting street round currentTurn deadlineMs =>
    obtain ⟨hstreet, hround, hturn, hdeadline⟩ := h
    exact (Codec.writes_uint 1 hstreet).pair
      ((writes_bettingRound hround).pair
        ((Codec.writes_uint 1 hturn).pair (Codec.writes_uint 8 hdeadline)))
  | showdownDisplay deadlineMs => exact Codec.writes_uint 8 h

theorem writes_elGamalCiphertext (ct : ElGamalCiphertext G) :
    (elGamalCiphertext point).Writes ct 64 :=
  ((hpoint _).pair (hpoint _)).via rfl

theorem writes_partialHoleCard {c : PartialHoleCard G} (h : c.encryptedCardIndex < 2 ^ 8) :
    (partialHoleCard point).Writes c 129 :=
  ((Codec.writes_uint 1 h).pair ((writes_elGamalCiphertext hpoint _).pair
    (writes_elGamalCiphertext hpoint _))).via rfl

theorem writes_deckState {d : DeckState G} (h : d.Sized)
    (hdeck : ∀ deck ∈ d.reconstructAccumulated, deck.length = 52) :
    ∃ n, (deckState point).Writes d n := by
  have hencrypted : ∃ n, (cipherDeck point).Writes d.encrypted n := by
    cases d.encrypted with
    | absent => exact ⟨0, [], rfl, rfl⟩
    | active cards => exact Codec.Writes.array fun i => ⟨64, writes_elGamalCiphertext hpoint _⟩
  have hledger : ∃ n, (partialHoleCardLedger point).Writes d.ownerReadableHoleCards n := by
    obtain ⟨n, hn⟩ := Codec.Writes.array fun seat => Codec.Writes.array fun slot =>
      Codec.Writes.option (o := d.ownerReadableHoleCards.seats seat slot) fun c hc =>
        ⟨129, writes_partialHoleCard hpoint (h.ledger seat slot c hc)⟩
    exact ⟨n, hn.via rfl⟩
  have haccumulated : ∃ n, (elGamalCiphertext point).vec.option.Writes d.reconstructAccumulated n :=
    Codec.Writes.option fun deck hd => ⟨_, Codec.Writes.vec (fun _ => 64)
      (by rw [hdeck deck hd]; decide) fun ct _ => writes_elGamalCiphertext hpoint ct⟩
  obtain ⟨_, hencrypted⟩ := hencrypted
  obtain ⟨_, hledger⟩ := hledger
  obtain ⟨_, haccumulated⟩ := haccumulated
  exact ⟨_, (hencrypted.codec.pair ((writes_seatMask _).pair
    ((Codec.writes_uint 1 h.cardsDealt).pair (hledger.pair haccumulated)))).via rfl⟩

end Points

end Wire

end TexasPoker
