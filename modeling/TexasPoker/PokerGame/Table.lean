import TexasPoker.Core.Constants
import TexasPoker.Lib.Rotation

/-! # The table of the game server

The server keeps its seats in a map over sparse seat numbers. The order in which the map hands
them out is not specified.
-/

namespace TexasPoker.PokerGame

structure Player where
  walletAddress : String
  pkHex : String
  deriving DecidableEq

structure Seat where
  player : Option Player
  stack : ℕ
  bet : ℕ
  totalBet : ℕ
  folded : Bool
  sittingOut : Bool
  isWaiting : Bool
  deriving DecidableEq

namespace Seat

/-- Seated, and part of the next deal. -/
def participating (s : Seat) : Bool := s.player.isSome && !s.sittingOut && !s.isWaiting

/-- Able to act in a betting round. -/
def isActionable (s : Seat) : Bool :=
  !s.folded && !s.sittingOut && !s.isWaiting && 0 < s.stack

/-- Post a blind, at most the stack. -/
def placeBlind (s : Seat) (amount : ℕ) : Seat :=
  let actual := if s.stack < amount then s.stack else amount
  { s with bet := actual, totalBet := s.totalBet + actual, stack := s.stack - actual }

/-- Take a payout. The stack is a 64-bit number, and its sum wraps around. -/
def winHand (s : Seat) (amount : ℕ) : Seat :=
  { s with bet := 0, totalBet := 0, stack := (s.stack + amount) % 2 ^ 64 }

end Seat

/-- The seats of a table under their numbers, in the order of the map. -/
structure Seats (maxPlayers : ℕ) where
  entries : List (ℕ × Seat)
  nodup : (entries.map Prod.fst).Nodup
  range : ∀ e ∈ entries, 1 ≤ e.1 ∧ e.1 ≤ maxPlayers

namespace Seats

variable {maxPlayers : ℕ} (seats : Seats maxPlayers)

def get (id : ℕ) : Option Seat := (seats.entries.find? fun e => e.1 = id).map Prod.snd

def values : List Seat := seats.entries.map Prod.snd

/-- Change the seat with a number, if there is one. -/
def modify (id : ℕ) (f : Seat → Seat) : Seats maxPlayers where
  entries := seats.entries.map fun e => (e.1, if e.1 = id then f e.2 else e.2)
  nodup := by simpa [Function.comp_def] using seats.nodup
  range := by
    intro e he
    obtain ⟨e', he', rfl⟩ := List.mem_map.mp he
    exact seats.range e' he'

theorem mem_entries {id : ℕ} {s : Seat} : (id, s) ∈ seats.entries ↔ seats.get id = some s := by
  have hnodup := seats.nodup
  simp only [get]
  generalize seats.entries = entries at hnodup
  induction entries with
  | nil => simp
  | cons e entries ih =>
    obtain ⟨i, s'⟩ := e
    rw [List.map_cons, List.nodup_cons] at hnodup
    by_cases hi : i = id
    · subst hi
      have hfresh : (i, s) ∉ entries := fun hmem => hnodup.1 (List.mem_map.mpr ⟨_, hmem, rfl⟩)
      simp [hfresh, eq_comm]
    · simp [hi, Ne.symm hi, ih hnodup.2]

@[simp] theorem get_modify_self {id : ℕ} {f : Seat → Seat} :
    (seats.modify id f).get id = (seats.get id).map f := by
  simp only [get, modify, List.find?_map, Function.comp_def, Option.map_map]
  cases hfound : seats.entries.find? fun e => e.1 = id with
  | none => rfl
  | some e =>
    have : e.1 = id := by simpa using List.find?_some hfound
    simp [this]

theorem get_modify_of_ne {id id' : ℕ} {f : Seat → Seat} (hne : id' ≠ id) :
    (seats.modify id f).get id' = seats.get id' := by
  simp only [get, modify, List.find?_map, Function.comp_def, Option.map_map]
  cases hfound : seats.entries.find? fun e => e.1 = id' with
  | none => rfl
  | some e =>
    have : e.1 = id' := by simpa using List.find?_some hfound
    simp [this, hne]

end Seats

/-- The part of the server's table that positions and payouts read. -/
structure Table where
  maxPlayers : ℕ
  limit : ℕ
  localSeats : Seats maxPlayers
  button : Option ℕ
  lastBbSeat : ℕ
  turn : Option ℕ
  smallBlind : Option ℕ
  bigBlind : Option ℕ
  pot : ℕ
  callAmount : Option ℕ
  minRaise : ℕ

namespace Table

variable (t : Table)

def minBet : ℕ := t.limit / 200

/-- The seat with a number. -/
def seat (id : ℕ) : Option Seat := t.localSeats.get id

def activePlayers : List Seat := t.localSeats.values.filter fun s => !s.sittingOut && !s.isWaiting

/-- The seat number after one, around the table. -/
def nextSeat (current : ℕ) : ℕ := if t.maxPlayers ≤ current then 1 else current + 1

/-- The seat numbers that one lap visits. -/
def visited (player : ℕ) : List ℕ :=
  (List.range t.maxPlayers).map fun i => t.nextSeat^[i + 1] player

/-- The seat some matching places after a player. -/
def nextPlayerByFilter (player places : ℕ) (filter : Seat → Bool) : Option ℕ :=
  if places = 0 then some player
  else ((t.visited player).filter fun id => (t.seat id).any filter)[places - 1]?

def nextUnfoldedPlayer (player places : ℕ) : Option ℕ :=
  t.nextPlayerByFilter player places Seat.isActionable

def nextActivePlayer (player places : ℕ) : Option ℕ :=
  t.nextPlayerByFilter player places fun s => !s.sittingOut && !s.isWaiting

def hasActionablePlayer : Bool := t.localSeats.values.any Seat.isActionable

/-! ## Blinds -/

def rotationBaseParticipating (id : ℕ) : Bool := (t.seat id).any Seat.participating

/-- The seat numbers of the participants, in order. -/
def participantIds : List ℕ :=
  ((t.localSeats.entries.filter fun e => e.2.participating).map Prod.fst).mergeSort

/-- The participant before a seat, around the table. -/
def predecessorParticipant (base : ℕ) : Option ℕ :=
  (t.participantIds.reverse.find? (· < base)).or t.participantIds.getLast?

def hasRotationHistory : Prop := 0 < t.lastBbSeat ∧ t.lastBbSeat ≤ t.maxPlayers

instance : Decidable t.hasRotationHistory := inferInstanceAs (Decidable (_ ∧ _))

/-- Where the blinds rotate from: the last big blind, or the button of a first hand. The
predecessor stands in for a last big blind who is not dealt in. -/
def rotationBase : ℕ :=
  let base := if t.hasRotationHistory then t.lastBbSeat else t.button.getD 1
  if t.hasRotationHistory ∧ !t.rotationBaseParticipating base then
    (t.predecessorParticipant base).getD base
  else base

def bbSeat : ℕ := (t.nextActivePlayer t.rotationBase 1).getD t.rotationBase

/-- The seat of the small blind; a dead small blind has none. -/
def sbSeat : Option ℕ :=
  if t.activePlayers.length = 2 then (t.nextActivePlayer t.bbSeat 1).or (some t.bbSeat)
  else if t.rotationBase ≠ t.bbSeat then
    if (t.seat t.rotationBase).any fun s => !s.sittingOut && !s.isWaiting then
      some t.rotationBase
    else none
  else none

/-- Charge a blind to a seat. -/
def chargeBlind (id amount : ℕ) : Table :=
  { t with localSeats := t.localSeats.modify id (·.placeBlind amount) }

/-- What a seat posts for a blind. -/
def blindOf (id amount : ℕ) : ℕ := ((t.seat id).map fun s => (s.placeBlind amount).bet).getD 0

/-- Post the blinds and give the first turn. -/
def setBlinds : Table :=
  let sb := t.sbSeat
  let bb := t.bbSeat
  let charged := sb.elim t fun sb => t.chargeBlind sb t.minBet
  let sbAmount := sb.elim 0 fun sb => t.blindOf sb t.minBet
  let bbAmount := charged.blindOf bb (t.minBet * 2)
  let charged := charged.chargeBlind bb (t.minBet * 2)
  let turn := if charged.hasActionablePlayer then charged.nextUnfoldedPlayer bb 1 else none
  { charged with
    lastBbSeat := bb
    pot := t.pot + sbAmount + bbAmount
    callAmount := some (t.minBet * 2)
    minRaise := t.minBet * 2
    smallBlind := sb
    bigBlind := some bb
    turn }

end Table

end TexasPoker.PokerGame
