import TexasPoker.Core.Protocol
import TexasPoker.Core.SeatMask
import Mathlib.Data.List.FinRange
import Mathlib.Data.Fintype.Pi

/-! # Encrypted deck

The deck of ciphertexts, the seats whose key layer it carries, and the ledger of
owner-readable hole cards: one slot for each seat and card position.
-/

namespace TexasPoker

variable {G : Type}

/-- A dealt hole card after every other player removed their layer. -/
structure PartialHoleCard (G : Type) where
  encryptedCardIndex : ℕ
  ciphertext : ElGamalCiphertext G
  fullCiphertext : ElGamalCiphertext G
  deriving DecidableEq

/-- The owner-readable hole cards, by seat and slot. -/
structure PartialHoleCardLedger (G : Type) where
  seats : Fin maxSeats → Fin holeCardSlots → Option (PartialHoleCard G)

namespace PartialHoleCardLedger

instance [DecidableEq G] : DecidableEq (PartialHoleCardLedger G) := fun a b =>
  decidable_of_iff (a.seats = b.seats) (by cases a; cases b; simp)

/-- The ledger without a card. -/
def empty : PartialHoleCardLedger G := ⟨fun _ _ => none⟩

instance : Inhabited (PartialHoleCardLedger G) := ⟨empty⟩

def get (l : PartialHoleCardLedger G) (seatIndex cardSlot : ℕ) : Option (PartialHoleCard G) :=
  if h : seatIndex < maxSeats ∧ cardSlot < holeCardSlots then
    l.seats ⟨seatIndex, h.1⟩ ⟨cardSlot, h.2⟩
  else none

/-- Overwrite one position. -/
def put (l : PartialHoleCardLedger G) (seatIndex cardSlot : ℕ) (c : Option (PartialHoleCard G)) :
    PartialHoleCardLedger G :=
  ⟨fun i j => if i.1 = seatIndex ∧ j.1 = cardSlot then c else l.seats i j⟩

/-- The live cards of one seat with their slots, in slot order. -/
def iterForSeat (l : PartialHoleCardLedger G) (seatIndex : ℕ) : List (ℕ × PartialHoleCard G) :=
  (List.range holeCardSlots).filterMap fun slot => (l.get seatIndex slot).map (slot, ·)

/-- Every live card with its seat and slot, in seat and slot order. -/
def iter (l : PartialHoleCardLedger G) : List (ℕ × ℕ × PartialHoleCard G) :=
  (List.range maxSeats).flatMap fun seat => (l.iterForSeat seat).map (seat, ·)

/-- Record one card at a free position; deck indices may not repeat. -/
def insert (l : PartialHoleCardLedger G) (seatIndex cardSlot : ℕ) (card : PartialHoleCard G) :
    PokerL1Result (PartialHoleCardLedger G) := do
  ensure (seatIndex < maxSeats ∧ cardSlot < holeCardSlots) (.serialization
    s!"Texas partial hole-card position is out of range: seat={seatIndex}, slot={cardSlot}")
  ensure (card.encryptedCardIndex < cipherDeckSize) (.serialization
    s!"Texas partial hole card has out-of-range deck index {card.encryptedCardIndex}")
  ensure (∀ r ∈ l.iter, r.2.2.encryptedCardIndex ≠ card.encryptedCardIndex) (.serialization
    s!"Texas partial hole-card ledger duplicates deck index {card.encryptedCardIndex}")
  ensure (l.get seatIndex cardSlot = none) (.serialization
    s!"Texas partial hole-card slot is already occupied: seat={seatIndex}, slot={cardSlot}")
  return l.put seatIndex cardSlot (some card)

/-- Take the card out of one position. -/
def remove (l : PartialHoleCardLedger G) (seatIndex cardSlot : ℕ) :
    PokerL1Result (PartialHoleCardLedger G) := do
  ensure (seatIndex < maxSeats ∧ cardSlot < holeCardSlots) (.serialization
    s!"Texas partial hole-card position is out of range: seat={seatIndex}, slot={cardSlot}")
  ensure (l.get seatIndex cardSlot ≠ none) (.serialization
    s!"Texas partial hole-card slot is empty: seat={seatIndex}, slot={cardSlot}")
  return l.put seatIndex cardSlot none

end PartialHoleCardLedger

/-- No deck, or a complete one. -/
inductive CipherDeck (G : Type) where
  | absent
  | active (cards : List.Vector (ElGamalCiphertext G) cipherDeckSize)

namespace CipherDeck

/-- The ciphertexts, none when the deck is absent. -/
def toVec : CipherDeck G → List (ElGamalCiphertext G)
  | .absent => []
  | .active cards => cards.toList

theorem toVec_injective : Function.Injective (toVec (G := G)) := by
  intro a b h
  cases a with
  | absent =>
    cases b with
    | absent => rfl
    | active d => simpa [toVec, d.toList_length] using congrArg List.length h
  | active c =>
    cases b with
    | absent => simpa [toVec, c.toList_length] using congrArg List.length h
    | active d => exact congrArg CipherDeck.active (Subtype.ext h)

instance [DecidableEq G] : DecidableEq (CipherDeck G) := fun _ _ =>
  decidable_of_iff _ toVec_injective.eq_iff

def len (d : CipherDeck G) : ℕ := d.toVec.length

def get (d : CipherDeck G) (i : ℕ) : Option (ElGamalCiphertext G) := d.toVec[i]?

/-- An empty list is no deck; any other list must have the size of a deck. -/
def tryFrom (cards : List (ElGamalCiphertext G)) : PokerL1Result (CipherDeck G) :=
  if cards = [] then .ok .absent
  else if h : cards.length = cipherDeckSize then .ok (.active ⟨cards, h⟩)
  else .error (.serialization
    s!"Texas encrypted deck has {cards.length} cards, expected 0 or {cipherDeckSize}")

end CipherDeck

/-- The encrypted deck and its bookkeeping. -/
@[ext] structure DeckState (G : Type) where
  encrypted : CipherDeck G
  contributorMask : SeatMask
  cardsDealt : ℕ
  ownerReadableHoleCards : PartialHoleCardLedger G
  reconstructAccumulated : Option (List (ElGamalCiphertext G))

instance [DecidableEq G] : DecidableEq (DeckState G) := fun a b =>
  decidable_of_iff (a.encrypted = b.encrypted ∧ a.contributorMask = b.contributorMask ∧
    a.cardsDealt = b.cardsDealt ∧ a.ownerReadableHoleCards = b.ownerReadableHoleCards ∧
    a.reconstructAccumulated = b.reconstructAccumulated) (by cases a; cases b; simp)

/-- No deck and no contributor. -/
def DeckState.new : DeckState G where
  encrypted := .absent
  contributorMask := 0
  cardsDealt := 0
  ownerReadableHoleCards := .empty
  reconstructAccumulated := none

end TexasPoker
