import Mathlib.Data.List.Sort
import TexasPoker.Machine.Betting
import TexasPoker.PokerGame.Table

/-! # The mirror of a hand

The table that the server keeps for the proof seats the participants of a hand without gaps, in
the order of their seat numbers.
-/

namespace TexasPoker.PokerGame

variable {G : Type}

/-- The rank of the participant at or before a seat; the last one stands before all. -/
def rankOfRotationSeat (lastBbSeat : ℕ) (sortedSeatIds : List ℕ) : ℕ :=
  if lastBbSeat = 0 then noSeat
  else
    match sortedSeatIds.reverse.findIdx? (· ≤ lastBbSeat) with
    | some i => sortedSeatIds.length - 1 - i
    | none => sortedSeatIds.length - 1

namespace Table

variable (t : Table)

/-- The rank of the button among the participants. -/
def buttonRank : ℕ := (t.button.bind fun b => t.participantIds.findIdx? (· = b)).getD 0

def lastBbRank : ℕ := rankOfRotationSeat t.lastBbSeat t.participantIds

/-- What holds when a hand was dealt and its blinds are due. -/
structure Dealt : Prop where
  seated : ∀ e ∈ t.localSeats.entries, e.2.player.isSome = true
  button : ∀ b ∈ t.button, 1 ≤ b ∧ b ≤ t.maxPlayers
  lastBbSeat : t.lastBbSeat ≤ t.maxPlayers
  limit : t.limit ≤ u64Max
  two : 2 ≤ t.participantIds.length

end Table

/-- The mirror of a seat is a player who has just joined with its chips. A player without any is
active as well. -/
def Joined (s : Seat) (v : TexasPoker.Seat G) : Prop :=
  ∃ p, v = .playing p ∧ p.occupied.stack = s.stack ∧ p.bet = 0 ∧ p.totalBet = 0 ∧
    p.status = .active

/-- The table of the virtual machine that seats the participants at their ranks. -/
structure Seated (g : Table) (t : TexasPokerTable G) : Prop where
  maxPlayers : t.rules.maxPlayers = maxSeats
  nine : g.participantIds.length ≤ maxSeats
  vacant : ∀ r, g.participantIds.length ≤ r → (t.seat r).isVacant = true

/-- The table of the virtual machine when it has dealt the same hand. -/
structure Mirrors (g : Table) (t : TexasPokerTable G) : Prop extends Seated g t where
  smallBlind : t.rules.smallBlind = max g.minBet 1
  bigBlind : t.rules.bigBlind = min (2 * max g.minBet 1) u64Max
  anteMode : t.rules.anteMode = anteModeNone
  button : t.button = min g.buttonRank (maxSeats - 1)
  lastBbSeat : t.lastBbSeat = g.lastBbRank
  dealt : ∀ r id s, g.participantIds[r]? = some id → g.seat id = some s → Joined s (t.seat r)

/-! ## Ranks -/

/-- The seat number behind a rank of the participant at or before a seat. -/
theorem getElem?_rankOfRotationSeat {ids : List ℕ} {base : ℕ} (hbase : base ≠ 0) :
    ids[rankOfRotationSeat base ids]? =
      (ids.reverse.find? (· ≤ base)).or ids.getLast? := by
  rw [rankOfRotationSeat, if_neg hbase]
  cases hfound : ids.reverse.findIdx? (· ≤ base) with
  | none =>
    have hnone : ids.reverse.find? (· ≤ base) = none := by
      simpa [List.findIdx?_eq_none_iff] using hfound
    rw [hnone, Option.none_or, List.getLast?_eq_getElem?]
  | some i =>
    obtain ⟨hi, hle, hfirst⟩ := List.findIdx?_eq_some_iff_getElem.mp hfound
    have hsome : ids.reverse.find? (· ≤ base) = some ids.reverse[i] := by
      rw [List.find?_eq_some_iff_getElem]
      exact ⟨hle, i, hi, rfl, fun j hj => by simpa using hfirst j hj⟩
    rw [List.length_reverse] at hi
    rw [hsome, Option.some_or, List.getElem_reverse]
    change ids[ids.length - 1 - i]? = _
    exact List.getElem?_eq_getElem (by omega)

namespace Table

variable {g : Table} {t : TexasPokerTable G} {id r : ℕ} {s : Seat}

theorem mem_participantIds :
    id ∈ g.participantIds ↔ ∃ s, g.seat id = some s ∧ s.participating = true := by
  simp only [participantIds, List.mem_mergeSort, List.mem_map, List.mem_filter, seat]
  constructor
  · rintro ⟨⟨i, s⟩, ⟨hmem, hp⟩, rfl⟩
    exact ⟨s, g.localSeats.mem_entries.mp hmem, hp⟩
  · rintro ⟨s, hs, hp⟩
    exact ⟨(id, s), ⟨g.localSeats.mem_entries.mpr hs, hp⟩, rfl⟩

theorem seat_range (hs : g.seat id = some s) : 1 ≤ id ∧ id ≤ g.maxPlayers :=
  g.localSeats.range _ (g.localSeats.mem_entries.mpr hs)

theorem sorted_participantIds : g.participantIds.Pairwise (· < ·) := by
  have hle : g.participantIds.Pairwise (· ≤ ·) := List.pairwise_mergeSort' (· ≤ ·) _
  have hnodup : g.participantIds.Nodup := by
    refine (List.mergeSort_perm _ _).nodup_iff.mpr ?_
    exact (g.localSeats.nodup.sublist (List.filter_sublist.map _))
  exact (hle.and hnodup).imp fun h => lt_of_le_of_ne h.1 h.2

/-- The participants are the seat numbers with a participating seat. -/
theorem participantIds_eq : g.participantIds =
    (List.range' 1 g.maxPlayers).filter fun id => (g.seat id).any Seat.participating := by
  refine sorted_participantIds.eq_of_mem_iff
    ((List.sortedLT_range' 1 _ one_ne_zero).pairwise.filter _) fun id => ?_
  rw [mem_participantIds, List.mem_filter, List.mem_range'_1, Option.any_eq_true]
  constructor
  · rintro ⟨s, hs, hp⟩
    have hrange := seat_range hs
    exact ⟨by omega, s, hs, hp⟩
  · rintro ⟨-, s, hs, hp⟩
    exact ⟨s, hs, hp⟩

/-! ## Scans -/

theorem iterate_nextSeat {start i : ℕ} (h1 : 1 ≤ start) (hmax : start ≤ g.maxPlayers) :
    g.nextSeat^[i] start = (start - 1 + i) % g.maxPlayers + 1 := by
  induction i with
  | zero => rw [Function.iterate_zero_apply, Nat.add_zero, Nat.mod_eq_of_lt (by omega)]; omega
  | succ i ih =>
    rw [Function.iterate_succ_apply', ih, nextSeat]
    have hlt : (start - 1 + i) % g.maxPlayers < g.maxPlayers := Nat.mod_lt _ (by omega)
    rw [← Nat.add_assoc, ← Nat.mod_add_mod (start - 1 + i)]
    generalize (start - 1 + i) % g.maxPlayers = x at hlt
    split
    · rw [show x + 1 = g.maxPlayers by omega, Nat.mod_self]
    · rw [Nat.mod_eq_of_lt (by omega)]

/-- One lap over the seat numbers is their clockwise order. -/
theorem visited_eq {start : ℕ} (h1 : 1 ≤ start) (hmax : start ≤ g.maxPlayers) :
    g.visited start = clockwise (List.range' 1 g.maxPlayers) start := by
  have hrotation : g.visited start = (rotation (start - 1) g.maxPlayers).map (· + 1) := by
    refine List.ext_getElem (by simp [visited, length_rotation]) fun i _ _ => ?_
    simp only [visited, rotation, List.getElem_map, List.getElem_range, List.getElem_range',
      iterate_nextSeat h1 hmax]
    rw [show start - 1 + (i + 1) = start - 1 + (1 + 1 * i) by omega]
  have hrange : List.range' 1 g.maxPlayers = (List.range g.maxPlayers).map (· + 1) := by
    rw [List.range'_eq_map_range]
    exact List.map_congr_left fun i _ => Nat.add_comm 1 i
  rw [hrotation, rotation_eq_clockwise (by omega), hrange]
  conv_rhs => rw [show start = start - 1 + 1 by omega]
  rw [clockwise_map (f := (· + 1)) fun a _ => by omega]

/-- The next matching seat is the first participant in clockwise order that matches. -/
theorem nextPlayerByFilter_eq {start : ℕ} {f : Seat → Bool} (h1 : 1 ≤ start)
    (hmax : start ≤ g.maxPlayers) (hf : ∀ id, (g.seat id).any f → id ∈ g.participantIds) :
    g.nextPlayerByFilter start 1 f =
      (clockwise g.participantIds start).find? fun id => (g.seat id).any f := by
  have hmem (id : ℕ) : (g.seat id).any Seat.participating = true ↔ id ∈ g.participantIds := by
    rw [mem_participantIds, Option.any_eq_true]
  rw [nextPlayerByFilter, if_neg one_ne_zero, Nat.sub_self, ← List.head?_eq_getElem?,
    List.head?_filter, visited_eq h1 hmax, participantIds_eq, ← filter_clockwise,
    List.find?_filter]
  congr 1
  funext id
  rw [Bool.eq_iff_iff, decide_eq_true_eq, hmem]
  exact ⟨fun h => ⟨hf id h, h⟩, fun h => h.2⟩

/-- The seat number of a rank. -/
def idOf (g : Table) (r : ℕ) : ℕ := g.participantIds.getD r 0

theorem idOf_eq (h : r < g.participantIds.length) : g.participantIds[r]? = some (g.idOf r) := by
  rw [idOf, List.getD_eq_getElem?_getD, List.getElem?_eq_getElem h]
  rfl

theorem participantIds_eq_map :
    g.participantIds = (List.range g.participantIds.length).map g.idOf := by
  refine List.ext_getElem (by simp) fun i hi _ => ?_
  rw [List.getElem_map, List.getElem_range, ← Option.some_inj, ← idOf_eq hi,
    List.getElem?_eq_getElem hi]

theorem idOf_lt_idOf {r' : ℕ} (h : r < g.participantIds.length)
    (h' : r' < g.participantIds.length) : g.idOf r < g.idOf r' ↔ r < r' := by
  have hmono {i j : ℕ} (hi : i < g.participantIds.length) (hj : j < g.participantIds.length)
      (hij : i < j) : g.idOf i < g.idOf j := by
    have hsorted := List.pairwise_iff_getElem.mp g.sorted_participantIds i j hi hj hij
    have hgeti := idOf_eq hi
    have hgetj := idOf_eq hj
    rw [List.getElem?_eq_getElem hi, Option.some_inj] at hgeti
    rw [List.getElem?_eq_getElem hj, Option.some_inj] at hgetj
    rwa [hgeti, hgetj] at hsorted
  refine ⟨fun hlt => ?_, hmono h h'⟩
  rcases lt_trichotomy r r' with hr | rfl | hr
  · exact hr
  · omega
  · have := hmono h' h hr
    omega

theorem idOf_inj {i j : ℕ} (hi : i < g.participantIds.length)
    (hj : j < g.participantIds.length) (h : g.idOf i = g.idOf j) : i = j := by
  have hlt := idOf_lt_idOf hi hj
  have hgt := idOf_lt_idOf hj hi
  omega

theorem idOf_mem (h : r < g.participantIds.length) : g.idOf r ∈ g.participantIds :=
  List.mem_of_getElem? (idOf_eq h)

/-- From a participant on, the participants come in the order of their ranks. -/
theorem clockwise_participantIds (h : r < g.participantIds.length) :
    clockwise g.participantIds (g.idOf r) =
      (clockwise (List.range g.participantIds.length) r).map g.idOf := by
  conv_lhs => rw [participantIds_eq_map]
  exact clockwise_map fun a ha => idOf_lt_idOf h (List.mem_range.mp ha)

end Table

/-- A scan of the virtual machine visits the ranks of the participants in clockwise order. -/
theorem Seated.findNext_eq {g : Table} {t : TexasPokerTable G} (hm : Seated g t)
    {p : TexasPoker.Seat G → Bool} {r : ℕ}
    (hr : r < maxSeats) (hp : ∀ s, s.isVacant = true → p s = false) :
    t.findNext p r =
      (clockwise (List.range g.participantIds.length) r).find? fun i => p (t.seat i) := by
  have hrange : List.range g.participantIds.length =
      (List.range maxSeats).filter (· < g.participantIds.length) := by
    refine List.pairwise_lt_range.eq_of_mem_iff (List.pairwise_lt_range.filter _) fun i => ?_
    rw [List.mem_filter, List.mem_range, List.mem_range, decide_eq_true_eq]
    have := hm.nine
    omega
  have hfind : t.findNext p r = (rotation r maxSeats).find? fun i => p (t.seat i) := by
    rw [TexasPokerTable.findNext, hm.maxPlayers]
    rfl
  rw [hfind, rotation_eq_clockwise hr, hrange, ← filter_clockwise, List.find?_filter]
  congr 1
  funext i
  rw [Bool.eq_iff_iff, decide_eq_true_eq]
  refine ⟨fun h => ⟨?_, h⟩, fun h => h.2⟩
  by_contra hlong
  rw [hp _ (hm.vacant i (by simpa using hlong))] at h
  cases h

/-- Scans over the seat numbers and over the ranks that match the same participants find the
same one. -/
theorem Seated.next_eq {g : Table} {t : TexasPokerTable G} (hm : Seated g t) {f : Seat → Bool}
    {p : TexasPoker.Seat G → Bool} {r : ℕ} (hr : r < g.participantIds.length)
    (hf : ∀ id, (g.seat id).any f → id ∈ g.participantIds)
    (hp : ∀ s, s.isVacant = true → p s = false)
    (hfp : ∀ i, i < g.participantIds.length → (g.seat (g.idOf i)).any f = p (t.seat i)) :
    g.nextPlayerByFilter (g.idOf r) 1 f = (t.findNext p r).map g.idOf := by
  obtain ⟨s, hs, -⟩ := Table.mem_participantIds.mp (Table.idOf_mem hr)
  have hrange := Table.seat_range hs
  rw [Table.nextPlayerByFilter_eq hrange.1 hrange.2 hf, Table.clockwise_participantIds hr,
    hm.findNext_eq (hr.trans_le hm.nine) hp, List.find?_map, ← List.head?_filter,
    ← List.head?_filter]
  congr 2
  exact List.filter_congr fun i hi => hfp i (List.mem_range.mp (mem_clockwise.mp hi))

end TexasPoker.PokerGame
