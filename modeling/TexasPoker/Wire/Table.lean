import Mathlib.Data.Fintype.Pi
import Mathlib.Data.Vector.Basic
import TexasPoker.Core.Schema
import TexasPoker.Wire.Format
import TexasPoker.Wire.Records

/-! # Stored tables

The table as its bytes say it: containers with a length that need not fit, and session keys
under any tag. Its canonical checks refuse the containers that are no container of the model,
and the rest of the schema is that of the table it is read as.
-/

namespace TexasPoker.Wire

variable {G : Type}

/-! ## Card containers -/

/-- Five card bytes with a length that need not fit them. -/
structure BoardCards where
  len : ℕ
  cards : Fin 5 → Card
  deriving DecidableEq

def boardCards : Codec BoardCards :=
  ((Codec.uint 1).pair (card.array 5)).via (fun p => .ok ⟨p.1, p.2⟩)
    (fun b => .ok (b.len, b.cards)) (by
    rintro ⟨len, cards⟩ b
    cases b
    simp [eq_comm])

/-- Length, live cards and padding of a container. -/
def validateSlots (tooLong invalid padded : String) (cap len : ℕ) (cards : List Card) :
    Except String Unit := do
  ensure (len ≤ cap) tooLong
  ensure ((cards.take len).all Card.isValid) invalid
  ensure (∀ c ∈ cards.drop len, c = Card.padding) padded

def HoleCards.validateCanonical (h : HoleCards) : Except String Unit :=
  validateSlots "hole-card length exceeds capacity 2" "hole cards contain an invalid card id"
    "hole cards contain non-canonical padding" 2 h.len [h.cards.1, h.cards.2]

def BoardCards.validateCanonical (b : BoardCards) : Except String Unit :=
  validateSlots "board length exceeds capacity 5" "board contains an invalid card id"
    "board contains non-canonical padding" 5 b.len (List.ofFn b.cards)

/-- The live cards. -/
def HoleCards.view (h : HoleCards) : TexasPoker.HoleCards where
  cards := [h.cards.1, h.cards.2].take h.len
  length_le := by simp

def BoardCards.view (b : BoardCards) : TexasPoker.BoardCards where
  cards := (List.ofFn b.cards).take b.len
  length_le := by simp

/-! ## Seats -/

/-- A session key, whose tag the table never looks at. -/
def StarkTxPubkey.view (k : StarkTxPubkey) : TexasPoker.StarkTxPubkey where
  raw := (k.raw ++ List.replicate 32 0).take 32
  raw_length := by simp

def OccupiedSeat.view (o : OccupiedSeat G) : TexasPoker.OccupiedSeat G where
  player := o.player
  stack := o.stack
  pk := o.pk
  txPk := o.txPk.view
  pendingAddon := o.pendingAddon
  timeBankMs := o.timeBankMs

namespace Seat

def view : Seat G → TexasPoker.Seat G
  | .vacant timeBankMs => .vacant timeBankMs
  | .waiting o => .waiting o.view
  | .playing p => .playing ⟨p.occupied.view, p.hand.view, p.bet, p.totalBet, p.status⟩
  | .departedThisHand player totalBet timeBankMs => .departedThisHand player totalBet timeBankMs

def empty : Seat G := .vacant defaultTimeBankMs

def validateCanonical [Zero G] [DecidableEq G] : Seat G → PokerL1Result Unit
  | .vacant _ => .ok ()
  | .waiting o => TexasPoker.Seat.validateOccupiedSeat o.view
  | .playing p => do
    TexasPoker.Seat.validateOccupiedSeat p.occupied.view
    labelled "Texas seat hand is non-canonical" p.hand.validateCanonical
  | .departedThisHand player .. =>
    ensure (player ≠ emptyPlayer)
      (.serialization "Texas departed seat cannot use the empty player address")

end Seat

/-! ## Runouts -/

inductive RunItTwiceState where
  | single
  | twice (start : RitStartStreet) (secondBoardSuffix : BoardCards)
  deriving DecidableEq

def RunItTwiceState.view : RunItTwiceState → TexasPoker.RunItTwiceState
  | .single => .single
  | .twice start secondBoardSuffix => .twice start secondBoardSuffix.view

def RunItTwiceState.validateCanonical : RunItTwiceState → PokerL1Result Unit
  | .single => .ok ()
  | .twice _ secondBoardSuffix =>
    labelled "Texas RIT second-board suffix is non-canonical" secondBoardSuffix.validateCanonical

/-! ## Tables -/

/-- A table as it is stored. -/
structure Table (G : Type) where
  id : ObjectID
  creator : Address
  rules : TableRules
  seats : Fin maxSeats → Seat G
  actedMask : SeatMask
  leaveAfterHandMask : SeatMask
  button : ℕ
  lastBbSeat : ℕ
  pot : ℕ
  communityCards : BoardCards
  handPhase : HandPhase G
  deckState : DeckState G
  chipPool : ℕ
  runItTwiceState : RunItTwiceState
  handId : ℕ
  callSeq : ℕ

namespace Table

variable (w : Table G)

/-- The table a stored table is read as. -/
def view : TexasPokerTable G where
  id := w.id
  creator := w.creator
  rules := w.rules
  seats := fun i => (w.seats i).view
  actedMask := w.actedMask
  leaveAfterHandMask := w.leaveAfterHandMask
  button := w.button
  lastBbSeat := w.lastBbSeat
  pot := w.pot
  communityCards := w.communityCards.view
  handPhase := w.handPhase
  deckState := w.deckState
  chipPool := w.chipPool
  runItTwiceState := w.runItTwiceState.view
  handId := w.handId
  callSeq := w.callSeq

/-- The schema: the containers are canonical, and the table they are read as passes its checks. -/
def validateStateSchema [AddCommGroup G] [DecidableEq G] : PokerL1Result Unit := do
  (List.finRange maxSeats).forM fun i => (w.seats i).validateCanonical
  labelled "Texas first board is non-canonical" w.communityCards.validateCanonical
  w.runItTwiceState.validateCanonical
  w.view.validateStateSchema

/-- Slots beyond the configured seats as a restored table has them. -/
def padded : Table G :=
  { w with seats := fun i => if i.1 < w.rules.maxPlayers then w.seats i else .empty }

end Table

/-! ## Field codecs -/

def objectID : Codec ObjectID :=
  (address.pair (Codec.uint 8)).via (fun p => .ok ⟨p.1, p.2⟩)
    (fun id => .ok (id.creatorAddress, id.creationNonce)) (by
    rintro ⟨creator, nonce⟩ id
    cases id
    simp [eq_comm])

def timeoutConfig : Codec TimeoutConfig :=
  ((Codec.uint 4).pair ((Codec.uint 4).pair ((Codec.uint 4).pair
    ((Codec.uint 4).pair (Codec.uint 4))))).via
    (fun p => .ok ⟨p.1, p.2.1, p.2.2.1, p.2.2.2.1, p.2.2.2.2⟩)
    (fun c => .ok (c.shuffleTimeoutMs, c.revealTimeoutMs, c.bettingTimeoutMs,
      c.reconstructTimeoutMs, c.showdownDisplayMs)) (by
    rintro ⟨shuffle, reveal, betting, reconstruct, display⟩ c
    cases c
    simp [eq_comm])

def tableRules : Codec TableRules :=
  ((Codec.uint 1).pair ((Codec.uint 8).pair ((Codec.uint 8).pair (timeoutConfig.pair
    ((Codec.uint 1).pair ((Codec.uint 8).pair ((Codec.uint 1).pair ((Codec.uint 2).pair
      ((Codec.uint 8).pair (Codec.uint 1)))))))))).via
    (fun p => .ok ⟨p.1, p.2.1, p.2.2.1, p.2.2.2.1, p.2.2.2.2.1, p.2.2.2.2.2.1, p.2.2.2.2.2.2.1,
      p.2.2.2.2.2.2.2.1, p.2.2.2.2.2.2.2.2.1, p.2.2.2.2.2.2.2.2.2⟩)
    (fun r => .ok (r.maxPlayers, r.smallBlind, r.bigBlind, r.timeoutConfig, r.anteMode,
      r.anteAmount, r.rakeMode, r.rakeBps, r.rakeCap, r.ritMode)) (by
    rintro ⟨maxPlayers, small, big, timeouts, ante, amount, rake, bps, cap, rit⟩ r
    cases r
    simp [eq_comm])

theorem elGamalCiphertext_eq_iff (p : G × G) (ct : ElGamalCiphertext G) :
    (Except.ok ⟨p.1, p.2⟩ : Except String (ElGamalCiphertext G)) = .ok ct ↔
      (Except.ok (ct.c1, ct.c2) : Except String (G × G)) = .ok p := by
  obtain ⟨c1, c2⟩ := p
  cases ct
  simp [eq_comm]

def elGamalCiphertext (point : Codec G) : Codec (ElGamalCiphertext G) :=
  (point.pair point).via (fun p => .ok ⟨p.1, p.2⟩) (fun ct => .ok (ct.c1, ct.c2))
    elGamalCiphertext_eq_iff

def partialHoleCard (point : Codec G) : Codec (PartialHoleCard G) :=
  ((Codec.uint 1).pair ((elGamalCiphertext point).pair (elGamalCiphertext point))).via
    (fun p => .ok ⟨p.1, p.2.1, p.2.2⟩)
    (fun c => .ok (c.encryptedCardIndex, c.ciphertext, c.fullCiphertext)) (by
    rintro ⟨index, ciphertext, full⟩ c
    cases c
    simp [eq_comm])

def partialHoleCardLedger (point : Codec G) : Codec (PartialHoleCardLedger G) :=
  (((partialHoleCard point).option.array holeCardSlots).array maxSeats).via
    (fun seats => .ok ⟨seats⟩) (fun l => .ok l.seats) (by
    rintro seats ⟨seats'⟩
    simp [eq_comm])

/-- No deck, or its 52 ciphertexts. -/
def cipherDeck (point : Codec G) : TaggedCodec (CipherDeck G) where
  tagOf
    | .absent => 0
    | .active _ => 1
  payload
    | .absent => .ok []
    | .active cards => ((elGamalCiphertext point).array cipherDeckSize).encode cards.get
  ofPayload
    | 0 => return .absent
    | 1 => (fun cards => .active (List.Vector.ofFn cards)) <$>
      ((elGamalCiphertext point).array cipherDeckSize).decode
    | tag => throw s!"Unexpected variant tag: {tag}"
  tagOf_lt := by
    intro deck
    cases deck <;> simp
  ofPayload_payload := by
    intro deck bytes h
    cases deck with
    | absent =>
      cases h
      intro rest
      rfl
    | active cards =>
      intro rest
      have hdec := Codec.map_decode (fun cards => CipherDeck.active (List.Vector.ofFn cards)) h rest
      rwa [List.Vector.ofFn_get] at hdec
  payload_ofPayload := by
    intro tag input deck rest h
    split at h
    · obtain ⟨rfl, rfl⟩ := Decoder.pure_eq_ok.mp h
      exact ⟨rfl, [], rfl, rfl⟩
    · obtain ⟨cards, bytes, rfl, henc, hin⟩ := Codec.of_map_decode h
      refine ⟨rfl, bytes, ?_, hin⟩
      have hget : (List.Vector.ofFn cards).get = cards := funext (List.Vector.get_ofFn cards)
      rw [← henc]
      exact congrArg ((elGamalCiphertext point).array cipherDeckSize).encode hget
    · exact absurd h Decoder.throw_ne_ok

def deckState (point : Codec G) : Codec (DeckState G) :=
  ((cipherDeck point).codec.pair (seatMask.pair ((Codec.uint 1).pair
    ((partialHoleCardLedger point).pair (elGamalCiphertext point).vec.option)))).via
    (fun p => .ok ⟨p.1, p.2.1, p.2.2.1, p.2.2.2.1, p.2.2.2.2⟩)
    (fun d => .ok (d.encrypted, d.contributorMask, d.cardsDealt, d.ownerReadableHoleCards,
      d.reconstructAccumulated)) (by
    rintro ⟨encrypted, contributors, dealt, ledger, accumulated⟩ d
    cases d
    simp [eq_comm])

def ritStartStreet : Codec RitStartStreet :=
  (Codec.uint 1).via
    (fun tag => match tag with
      | 0 => .ok .preflop
      | 1 => .ok .flop
      | 2 => .ok .turn
      | tag => .error s!"Unexpected variant tag: {tag}")
    (fun start => match start with
      | .preflop => .ok 0
      | .flop => .ok 1
      | .turn => .ok 2) (by
    intro tag start
    constructor
    · intro h
      split at h <;> cases h <;> rfl
    · intro h
      cases start <;> cases h <;> rfl)

def runItTwiceState : TaggedCodec RunItTwiceState where
  tagOf
    | .single => 0
    | .twice .. => 1
  payload
    | .single => .ok []
    | .twice start secondBoardSuffix =>
      (ritStartStreet.pair boardCards).encode (start, secondBoardSuffix)
  ofPayload
    | 0 => return .single
    | 1 => (fun p => .twice p.1 p.2) <$> (ritStartStreet.pair boardCards).decode
    | tag => throw s!"Unexpected variant tag: {tag}"
  tagOf_lt := by
    intro state
    cases state <;> simp
  ofPayload_payload := by
    intro state bytes h
    cases state with
    | single =>
      cases h
      intro rest
      rfl
    | twice start secondBoardSuffix => exact Codec.map_decode _ h
  payload_ofPayload := by
    intro tag input state rest h
    split at h
    · obtain ⟨rfl, rfl⟩ := Decoder.pure_eq_ok.mp h
      exact ⟨rfl, [], rfl, rfl⟩
    · obtain ⟨p, bytes, rfl, henc, hin⟩ := Codec.of_map_decode h
      exact ⟨rfl, bytes, henc, hin⟩
    · exact absurd h Decoder.throw_ne_ok

end TexasPoker.Wire
