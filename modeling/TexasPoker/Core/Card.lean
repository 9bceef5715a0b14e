import TexasPoker.Core.Basic

/-! # Cards

A card is one canonical byte; hands and boards are short lists that never exceed
their capacity.
-/

namespace TexasPoker

/-- A card identifier: `suit * 13 + rank - 2` below 52, transient padding from 52 on. -/
structure Card where
  index : ℕ
  deriving DecidableEq, Repr

namespace Card

/-- The padding value of the card containers. -/
def padding : Card := ⟨255⟩

def new (suit rank : ℕ) : Card :=
  if suit ≤ 3 ∧ 2 ≤ rank ∧ rank ≤ 14 then ⟨suit * 13 + (rank - 2)⟩
  else if suit ≤ 3 ∧ rank = 0 then ⟨52 + suit⟩
  else padding

def isValid (c : Card) : Bool := c.index < 52

def suit (c : Card) : ℕ :=
  if c.index < 52 then c.index / 13 else if c.index < 56 then c.index - 52 else 255

def rank (c : Card) : ℕ := if c.index < 52 then c.index % 13 + 2 else 0

end Card

/-- At most `cap` cards in dealing order. -/
structure CardSlots (cap : ℕ) where
  cards : List Card
  length_le : cards.length ≤ cap
  deriving DecidableEq, Repr

/-- Private cards of one seat. -/
abbrev HoleCards := CardSlots 2

/-- Cards of one board or of one runout's suffix. -/
abbrev BoardCards := CardSlots 5

namespace CardSlots

variable {cap : ℕ}

def empty : CardSlots cap := ⟨[], by simp⟩

instance : Inhabited (CardSlots cap) := ⟨empty⟩

def len (s : CardSlots cap) : ℕ := s.cards.length

def isEmpty (s : CardSlots cap) : Bool := s.len = 0

/-- Append one valid card below the capacity; `label` and `what` name the container. -/
def tryPush (label what : String) (s : CardSlots cap) (c : Card) : Except String (CardSlots cap) :=
  if c.isValid then
    if h : s.len < cap then
      .ok ⟨s.cards ++ [c], by simp only [len] at h; simp only [List.length_append,
        List.length_cons, List.length_nil]; omega⟩
    else .error s!"{what} exceed capacity {cap}"
  else .error s!"{label} card id is outside 0..52"

/-- Every live card is valid; length and padding hold by construction. -/
def validateCanonical (what : String) (s : CardSlots cap) : Except String Unit :=
  ensure (s.cards.all Card.isValid) s!"{what}"

@[simp] theorem len_empty : (empty : CardSlots cap).len = 0 := rfl

@[simp] theorem cards_empty : (empty : CardSlots cap).cards = [] := rfl

theorem tryPush_eq_ok {label what : String} {s s' : CardSlots cap} {c : Card}
    (h : s.tryPush label what c = .ok s') : c.isValid = true ∧ s'.cards = s.cards ++ [c] := by
  unfold tryPush at h
  split at h
  · rename_i hv
    split at h
    · cases h
      exact ⟨hv, rfl⟩
    · cases h
  · cases h

end CardSlots

namespace HoleCards

def tryPush (h : HoleCards) (c : Card) : Except String HoleCards :=
  CardSlots.tryPush "hole" "hole cards" h c

def validateCanonical (h : HoleCards) : Except String Unit :=
  CardSlots.validateCanonical "hole cards contain an invalid card id" h

end HoleCards

namespace BoardCards

def tryPush (b : BoardCards) (c : Card) : Except String BoardCards :=
  CardSlots.tryPush "board" "board cards" b c

def validateCanonical (b : BoardCards) : Except String Unit :=
  CardSlots.validateCanonical "board contains an invalid card id" b

end BoardCards

end TexasPoker
