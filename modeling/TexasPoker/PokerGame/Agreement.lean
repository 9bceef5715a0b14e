import TexasPoker.PokerGame.Blinds
import TexasPoker.Runtime.Transparent

/-! # The server and its mirror agree on the blinds

The server after its blinds, compared with the mirror rank by rank, and the exact condition under
which both charge the same blinds and give the same seat the first turn.
-/

namespace TexasPoker.PokerGame

open Fallible Table

variable {G : Type} {g : Table} {t : TexasPokerTable G} {r : ℕ}

/-! ## The server after its blinds -/

/-- A seat after the blind it owes. -/
def Seat.charged (blind : Option ℕ) (s : Seat) : Seat := blind.elim s s.placeBlind

namespace Seat

variable {s : Seat}

theorem stack_charged {blind : Option ℕ} : (s.charged blind).stack = s.stack - blind.getD 0 := by
  cases blind with
  | none => rfl
  | some a =>
    simp only [charged, Option.elim_some, placeBlind, Option.getD_some]
    split <;> omega

theorem bet_charged {a : ℕ} : (s.charged (some a)).bet = min a s.stack := by
  simp only [charged, Option.elim_some, placeBlind]
  split <;> omega

/-- After its blind a participant can act unless it has folded or has no chips left. -/
theorem isActionable_charged {blind : Option ℕ} (hp : s.participating = true) :
    (s.charged blind).isActionable = true ↔ s.folded = false ∧ blind.getD 0 < s.stack := by
  have hflags : (s.charged blind).folded = s.folded ∧
      (s.charged blind).sittingOut = s.sittingOut ∧ (s.charged blind).isWaiting = s.isWaiting := by
    cases blind <;> exact ⟨rfl, rfl, rfl⟩
  simp only [participating, Bool.and_eq_true, Bool.not_eq_true'] at hp
  rw [isActionable, stack_charged, hflags.1, hflags.2.1, hflags.2.2, hp.1.2, hp.2]
  simp [Nat.sub_pos_iff_lt]

end Seat

namespace Table

/-- The seats after both blinds were charged. -/
def afterBlinds (g : Table) (r b : ℕ) : Table :=
  (g.chargeBlind (g.idOf r) g.minBet).chargeBlind (g.idOf b) (g.minBet * 2)

variable {b i : ℕ}

theorem participantIds_afterBlinds : (g.afterBlinds r b).participantIds = g.participantIds := by
  rw [afterBlinds, participantIds_chargeBlind, participantIds_chargeBlind]

theorem seat_afterBlinds (hr : r < g.participantIds.length) (hb : b < g.participantIds.length)
    (hne : r ≠ b) (hi : i < g.participantIds.length) :
    (g.afterBlinds r b).seat (g.idOf i) =
      (g.seat (g.idOf i)).map (·.charged (owed g.minBet (g.minBet * 2) r b i)) := by
  unfold afterBlinds owed Seat.charged
  by_cases hib : i = b
  · subst hib
    rw [seat_chargeBlind_self, seat_chargeBlind_of_ne fun h => hne (idOf_inj hb hr h).symm]
    simp
  · rw [seat_chargeBlind_of_ne fun h => hib (idOf_inj hi hb h)]
    by_cases hir : i = r
    · subst hir
      rw [seat_chargeBlind_self]
      simp [hib]
    · rw [seat_chargeBlind_of_ne fun h => hir (idOf_inj hi hr h)]
      simp [hib, hir]

/-- A participant can act on the server if what is left after its blind is something. -/
theorem any_isActionable_afterBlinds (hr : r < g.participantIds.length)
    (hb : b < g.participantIds.length) (hne : r ≠ b) (hi : i < g.participantIds.length) {s : Seat}
    (hs : g.seat (g.idOf i) = some s) :
    ((g.afterBlinds r b).seat (g.idOf i)).any Seat.isActionable = true ↔
      s.folded = false ∧ (owed g.minBet (g.minBet * 2) r b i).getD 0 < s.stack := by
  obtain ⟨s', hs', hp⟩ := mem_participantIds.mp (idOf_mem hi)
  cases hs.symm.trans hs'
  rw [seat_afterBlinds hr hb hne hi, hs, Option.map_some, Option.any_some,
    Seat.isActionable_charged hp]

/-- The search among the ranks ends at the next one exactly when that one is found. -/
theorem find?_next_iff (hb : b < g.participantIds.length) {p : ℕ → Bool} :
    (∃ i, (clockwise (List.range g.participantIds.length) b).find? p = some i ∧
        g.idOf i = g.idOf ((b + 1) % g.participantIds.length)) ↔
      p ((b + 1) % g.participantIds.length) = true := by
  have hlt := Nat.mod_lt (b + 1) (Nat.zero_lt_of_lt hb)
  rw [← find?_clockwise_range_iff hb (p := p)]
  constructor
  · rintro ⟨i, hi, heq⟩
    have hmem := List.mem_range.mp (mem_clockwise.mp (List.mem_of_find?_eq_some hi))
    rwa [idOf_inj hmem hlt heq] at hi
  · exact fun hi => ⟨_, hi, rfl⟩

/-- The server's seats keep their players. -/
theorem Dealt.afterBlinds_mem (hd : g.Dealt) {id : ℕ}
    (h : ((g.afterBlinds r b).seat id).any Seat.isActionable = true) : id ∈ g.participantIds := by
  have hkeeps {g : Table} {id' amount : ℕ}
      (h : ((g.chargeBlind id' amount).seat id).any (fun s => !s.sittingOut && !s.isWaiting)) :
      (g.seat id).any (fun s => !s.sittingOut && !s.isWaiting) := by
    by_cases hid : id = id'
    · subst hid
      rw [seat_chargeBlind_self] at h
      cases hs : g.seat id with
      | none => simp [hs] at h
      | some s => simpa [hs, Seat.placeBlind] using h
    · rwa [seat_chargeBlind_of_ne hid] at h
  obtain ⟨s, hs, hact⟩ := (Option.any_eq_true _ _).mp h
  refine hd.active_mem (hkeeps (hkeeps ((Option.any_eq_true _ _).mpr ⟨s, hs, ?_⟩)))
  simp only [Seat.isActionable, Bool.and_eq_true] at hact
  rw [hact.1.1.2, hact.1.2]
  rfl

/-- The server's first turn is with the first participant after the big blind that can act. -/
theorem Dealt.turn_afterBlinds (hd : g.Dealt) (hb : b < g.participantIds.length) :
    (if (g.afterBlinds r b).hasActionablePlayer then
        (g.afterBlinds r b).nextUnfoldedPlayer (g.idOf b) 1 else none) =
      ((clockwise (List.range g.participantIds.length) b).find? fun i =>
        ((g.afterBlinds r b).seat (g.idOf i)).any Seat.isActionable).map g.idOf := by
  by_cases hsome : (g.afterBlinds r b).hasActionablePlayer = true
  · have hmem : g.idOf b ∈ (g.afterBlinds r b).participantIds := by
      rw [participantIds_afterBlinds]
      exact idOf_mem hb
    obtain ⟨s, hs, -⟩ := mem_participantIds.mp hmem
    have hrange := seat_range hs
    rw [if_pos hsome, nextUnfoldedPlayer, nextPlayerByFilter_eq hrange.1 hrange.2 fun id h => by
        rw [participantIds_afterBlinds]
        exact hd.afterBlinds_mem h,
      participantIds_afterBlinds, clockwise_participantIds hb, List.find?_map]
    rfl
  · rw [if_neg hsome, List.find?_eq_none.mpr, Option.map_none]
    rintro i - hact
    obtain ⟨s, hs, hact⟩ := (Option.any_eq_true _ _).mp hact
    refine hsome (List.any_eq_true.mpr ⟨s, ?_, hact⟩)
    exact List.mem_map.mpr ⟨(_, s), (Seats.mem_entries _).mpr hs, rfl⟩

end Table

/-! ## Agreement -/

/-- The server and the mirror charged the same blinds, and the same seat acts first. -/
structure Agrees (ids : List ℕ) (server : Table) (sb bb : ℕ)
    (posted opened : TexasPokerTable G) : Prop where
  small : server.smallBlind = if sb = noSeat then none else ids[sb]?
  big : server.bigBlind = ids[bb]?
  charged : ∀ r id, ids[r]? = some id → ∃ s, server.seat id = some s ∧
    (posted.seat r).stack = s.stack ∧ (r = sb ∨ r = bb → (posted.seat r).bet = s.bet)
  first : server.turn = opened.currentTurnOption.bind (ids[·]?)

/-- The blinds are counted from a seat with a rank, or heads up from between the two. They are at
least one chip, unless those who owe them have none. The participant after the big blind has not
folded and has chips; heads up, where that is the small blind, it has more than the blind, or
else the big blind cannot act either. -/
structure BlindsTranslate (g : Table) : Prop where
  base : 0 < g.lastBbSeat ∨ g.button.getD 1 ∈ g.participantIds ∨
    ∃ x y, g.participantIds = [x, y] ∧ x < g.button.getD 1 ∧ g.button.getD 1 < y
  stakes : 0 < g.minBet ∨
    ∀ s, g.order.head? = some s ∨ g.order.getLast? = some s → s.stack = 0
  headsUp : ∀ big small, g.order = [big, small] → small.stack ≤ g.minBet →
    big.folded = true ∨ big.stack ≤ g.minBet * 2
  first : ∀ big next rest, g.order = big :: next :: rest →
    (rest = [] → g.minBet < next.stack) → next.folded = false ∧ 0 < next.stack

theorem setBlinds_eq {b : ℕ} (hsb : g.sbSeat = some (g.idOf r)) (hbb : g.bbSeat = g.idOf b) :
    g.setBlinds.smallBlind = some (g.idOf r) ∧ g.setBlinds.bigBlind = some (g.idOf b) ∧
      g.setBlinds.seat = (g.afterBlinds r b).seat ∧
      g.setBlinds.turn = if (g.afterBlinds r b).hasActionablePlayer then
        (g.afterBlinds r b).nextUnfoldedPlayer (g.idOf b) 1 else none := by
  unfold setBlinds
  rw [hsb, hbb]
  exact ⟨rfl, rfl, rfl, rfl⟩

/-- The order starts with the two ranks after the base and ends with the base. -/
theorem Table.order_eq (htwo : 2 ≤ g.participantIds.length) (hr : r < g.participantIds.length)
    (hbase : clockwise g.participantIds g.base = clockwise g.participantIds (g.idOf r))
    {small big next : Seat} (hsmall : g.seat (g.idOf r) = some small)
    (hbig : g.seat (g.idOf ((r + 1) % g.participantIds.length)) = some big)
    (hnext : g.seat (g.idOf (((r + 1) % g.participantIds.length + 1) % g.participantIds.length)) =
      some next) :
    ∃ rest, g.order = big :: next :: rest ∧ rest.length + 2 = g.participantIds.length ∧
      g.order.getLast? = some small := by
  have hseats : g.order = (rotation r g.participantIds.length).map
      fun i => (g.seat (g.idOf i)).getD small := by
    rw [order, hbase, clockwise_participantIds hr, ← rotation_eq_clockwise hr, List.filterMap_map,
      ← List.filterMap_eq_map]
    refine List.filterMap_congr fun i hi => ?_
    obtain ⟨s, hs, -⟩ := mem_participantIds.mp (idOf_mem ((mem_rotation r).mp hi))
    simp [hs]
  have hlast : g.order.getLast? = some small := by
    obtain ⟨before, heq, -⟩ := exists_rotation_eq_append hr
    rw [hseats, heq, List.map_append, List.map_singleton, List.getLast?_concat, hsmall]
    rfl
  obtain ⟨m, hm⟩ := Nat.exists_eq_add_of_le' htwo
  have hstart : rotation r g.participantIds.length =
      (r + 1) % g.participantIds.length ::
        ((r + 1) % g.participantIds.length + 1) % g.participantIds.length ::
        (List.range' 3 m).map fun offset => (r + offset) % g.participantIds.length := by
    rw [rotation, hm, List.range'_succ, List.range'_succ, List.map_cons, List.map_cons,
      Nat.mod_add_mod]
  let rest := (List.range' 3 m).map fun offset => (r + offset) % g.participantIds.length
  refine ⟨rest.map fun i => (g.seat (g.idOf i)).getD small, ?_, ?_, hlast⟩
  · rw [hseats, hstart, List.map_cons, List.map_cons, hbig, hnext]
    rfl
  · rw [List.length_map, List.length_map, List.length_range', hm]

/-- The condition is about the two who owe a blind and the participant after them. -/
theorem blindsTranslate_iff (hbase : 0 < g.lastBbSeat ∨ g.button.getD 1 ∈ g.participantIds ∨
      ∃ x y, g.participantIds = [x, y] ∧ x < g.button.getD 1 ∧ g.button.getD 1 < y)
    {small big next : Seat} {rest : List Seat} (hlist : g.order = big :: next :: rest)
    (hlength : rest.length + 2 = g.participantIds.length)
    (hlast : g.order.getLast? = some small) :
    BlindsTranslate g ↔ (0 < g.minBet ∨ small.stack = 0 ∧ big.stack = 0) ∧
      if g.participantIds.length = 2 ∧ small.stack ≤ g.minBet then
        big.folded = true ∨ big.stack ≤ g.minBet * 2
      else next.folded = false ∧ 0 < next.stack := by
  have hheadsUp : g.participantIds.length = 2 ↔ rest = [] := by
    rw [← List.length_eq_zero_iff]
    omega
  constructor
  · intro h
    have hhead : g.order.head? = some big := by
      rw [hlist]
      rfl
    constructor
    · exact h.stakes.imp_right fun hbroke => ⟨hbroke small (.inr hlast), hbroke big (.inl hhead)⟩
    · split
      · rename_i hpoor
        obtain rfl := hheadsUp.mp hpoor.1
        rw [hlist] at hlast
        cases hlast
        exact h.headsUp big next hlist hpoor.2
      · rename_i hrich
        refine h.first big next rest hlist fun hnil => ?_
        subst hnil
        rw [hlist] at hlast
        cases hlast
        exact not_le.mp fun h => hrich ⟨hheadsUp.mpr rfl, h⟩
  · rintro ⟨hstakes, hfirst⟩
    refine ⟨hbase, hstakes.imp_right ?_, fun big' small' heq hpoor => ?_,
      fun big' next' rest' heq hrich => ?_⟩
    · rintro ⟨hsmall, hbig⟩ s (hs | hs)
      · rw [hlist] at hs
        cases hs
        exact hbig
      · rw [hlast] at hs
        cases hs
        exact hsmall
    · rw [heq] at hlist hlast
      cases hlist
      cases hlast
      rwa [if_pos ⟨hheadsUp.mpr rfl, hpoor⟩] at hfirst
    · rw [heq] at hlist hlast
      cases hlist
      rw [if_neg] at hfirst
      · exact hfirst
      · rintro ⟨hk, hpoor⟩
        obtain rfl := hheadsUp.mp hk
        cases hlast
        exact absurd hpoor (not_le.mpr (hrich rfl))

section Posted

variable {sb bb b : ℕ} {u : TexasPokerTable G} (hu : Posted g sb bb r b u)

include hu

/-- Both layers leave the participants the same chips and bets exactly when both charge the blinds
the same. -/
theorem Posted.charged_iff {small big : Seat} (hsmall : g.seat (g.idOf r) = some small)
    (hbig : g.seat (g.idOf b) = some big) :
    (∀ i id, g.participantIds[i]? = some id → ∃ s, (g.afterBlinds r b).seat id = some s ∧
        (u.seat i).stack = s.stack ∧ (i = r ∨ i = b → (u.seat i).bet = s.bet)) ↔
      min sb small.stack = min g.minBet small.stack ∧
        min bb big.stack = min (g.minBet * 2) big.stack := by
  have hr := hu.rank
  have hb := hu.rank_bb
  have hne := hu.ne
  constructor
  · intro h
    obtain ⟨s, hs, -, hbet⟩ := h r _ (idOf_eq hr)
    obtain ⟨s', hs', -, hbet'⟩ := h b _ (idOf_eq hb)
    rw [seat_afterBlinds hr hb hne hr, hsmall, Option.map_some, Option.some_inj, owed, if_neg hne,
      if_pos rfl] at hs
    rw [seat_afterBlinds hr hb hne hb, hbig, Option.map_some, Option.some_inj, owed,
      if_pos rfl] at hs'
    rw [(hu.small_paid hsmall).bet, ← hs, Seat.bet_charged, Option.getD_some] at hbet
    rw [(hu.big_paid hbig).bet, ← hs', Seat.bet_charged, Option.getD_some] at hbet'
    exact ⟨hbet (.inl rfl), hbet' (.inr rfl)⟩
  · rintro ⟨hsame, hsame'⟩ i id hid
    have hi := (List.getElem?_eq_some_iff.mp hid).1
    rw [idOf_eq hi, Option.some_inj] at hid
    subst hid
    obtain ⟨s, hs, -, hpaid⟩ := hu.seat hi
    rw [seat_afterBlinds hr hb hne hi, hs]
    refine ⟨_, rfl, ?_⟩
    rw [hpaid.stack, hpaid.bet, Seat.stack_charged]
    unfold owed
    split_ifs with hib hir
    · subst hib
      cases hs.symm.trans hbig
      rw [Seat.bet_charged, Option.getD_some, Option.getD_some]
      exact ⟨by omega, fun _ => hsame'⟩
    · subst hir
      cases hs.symm.trans hsmall
      rw [Seat.bet_charged, Option.getD_some, Option.getD_some]
      exact ⟨by omega, fun _ => hsame⟩
    · exact ⟨rfl, fun h => absurd h (by simp [hib, hir])⟩

/-- The first turns agree when the participant after the big blind can act, and when nobody can
heads up against an all-in small blind. -/
theorem Posted.first_iff (hd : g.Dealt) {small big next : Seat}
    (hsmall : g.seat (g.idOf r) = some small) (hbig : g.seat (g.idOf b) = some big)
    (hnext : g.seat (g.idOf ((b + 1) % g.participantIds.length)) = some next)
    (hsame : min sb small.stack = min g.minBet small.stack) :
    ((if (g.afterBlinds r b).hasActionablePlayer then
        (g.afterBlinds r b).nextUnfoldedPlayer (g.idOf b) 1 else none) =
      (if g.participantIds.length = 2 ∧ small.stack ≤ sb then none
        else some ((b + 1) % g.participantIds.length)).bind (g.participantIds[·]?)) ↔
    if g.participantIds.length = 2 ∧ small.stack ≤ g.minBet then
      big.folded = true ∨ big.stack ≤ g.minBet * 2
    else next.folded = false ∧ 0 < next.stack := by
  have hr := hu.rank
  have hb := hu.rank_bb
  have hne := hu.ne
  have hpoor : small.stack ≤ sb ↔ small.stack ≤ g.minBet := by omega
  have hlt := Nat.mod_lt (b + 1) (Nat.zero_lt_of_lt hb)
  -- who can act on the server
  have hactSmall := any_isActionable_afterBlinds hr hb hne hr hsmall
  have hactBig := any_isActionable_afterBlinds hr hb hne hb hbig
  have hactNext := any_isActionable_afterBlinds hr hb hne hlt hnext
  rw [owed, if_neg hne, if_pos rfl, Option.getD_some] at hactSmall
  rw [owed, if_pos rfl, Option.getD_some] at hactBig
  simp only [hd.turn_afterBlinds hb, hpoor]
  split
  · rename_i hc
    rw [Option.bind_none, Option.map_eq_none_iff, List.find?_eq_none]
    constructor
    · intro hnobody
      have hidle := hnobody b (mem_clockwise.mpr (List.mem_range.mpr hb))
      rw [hactBig, not_and_or, not_lt, Bool.not_eq_false] at hidle
      exact hidle
    · intro hidle i hi
      rw [mem_clockwise, List.mem_range] at hi
      rcases (by omega : i = r ∨ i = b) with rfl | rfl
      · rw [hactSmall]
        exact fun h => absurd h.2 (by omega)
      · rw [hactBig, not_and_or, not_lt, Bool.not_eq_false]
        exact hidle
  · rename_i hc
    rw [Option.bind_some, idOf_eq hlt, Option.map_eq_some_iff, find?_next_iff hb, hactNext]
    have hwho := hu.next_next
    split at hwho
    · rename_i htwo
      rw [hwho] at hnext ⊢
      cases hsmall.symm.trans hnext
      rw [owed, if_neg hne, if_pos rfl, Option.getD_some]
      have hrich : g.minBet < small.stack := not_le.mp fun h => hc ⟨htwo, h⟩
      exact and_congr_right fun _ => ⟨fun _ => by omega, fun _ => hrich⟩
    · rw [owed, if_neg hwho.2, if_neg hwho.1, Option.getD_none]

end Posted

/-- A dead button of a first hand stands for the first rank in the mirror, and not in the server. -/
theorem not_agrees_of_dead (hd : g.Dealt) (hfirst : g.lastBbSeat = 0)
    (hdead : g.button.getD 1 ∉ g.participantIds)
    (hbetween : ¬ ∃ x y, g.participantIds = [x, y] ∧ x < g.button.getD 1 ∧ g.button.getD 1 < y)
    {posted opened : TexasPokerTable G} :
    ¬ Agrees g.participantIds g.setBlinds 0 1 posted opened := by
  intro ha
  have hr : 0 < g.participantIds.length := by
    have := hd.two
    omega
  by_cases hheadsUp : g.participantIds.length = 2
  · -- the server's big blind is the lower seat
    obtain ⟨x, y, hids⟩ := List.length_eq_two.mp hheadsUp
    have hlt : x < y := by
      have hsorted := g.sorted_participantIds
      rw [hids] at hsorted
      simpa using hsorted
    have hx : g.button.getD 1 ≠ x := fun h => hdead (by simp [h, hids])
    have hy : g.button.getD 1 ≠ y := fun h => hdead (by simp [h, hids])
    have hout : ¬ (x < g.button.getD 1 ∧ g.button.getD 1 < y) := fun h =>
      hbetween ⟨x, y, hids, h⟩
    have hbb : g.bbSeat = x := by
      rw [hd.bbSeat_dead hfirst, hids, clockwise]
      rcases Nat.lt_or_ge (g.button.getD 1) x with h | h
      · simp [h]
      · simp [show ¬ g.button.getD 1 < x by omega, show ¬ g.button.getD 1 < y by omega,
          show x ≤ g.button.getD 1 by omega]
    have hbig := ha.big
    change some g.bbSeat = _ at hbig
    rw [hbb, hids] at hbig
    simp [hlt.ne] at hbig
  · -- the server has no small blind
    have hsb : g.sbSeat = none := by
      rw [sbSeat, if_neg (by rw [hd.length_activePlayers]; exact hheadsUp),
        rotationBase_of_first hd hfirst]
      have hnobody : ¬ (g.seat (g.button.getD 1)).any
          (fun s => !s.sittingOut && !s.isWaiting) = true := fun h => hdead (hd.active_mem h)
      rw [if_neg hnobody, ite_self]
    have hsmall := ha.small
    change g.sbSeat = _ at hsmall
    rw [hsb, if_neg (by decide), idOf_eq hr] at hsmall
    cases hsmall

section Agreement

variable [AddCommGroup G] [Protocol G] [DecidableEq G]

/-- The mirror's first turn after a hand was dealt and its blinds were posted. -/
theorem Posted.opened_turn {posted opened : Exec G} {sb bb b : ℕ}
    (hu : Posted g sb bb r b posted.table) {small : Seat}
    (hsmall : g.seat (g.idOf r) = some small) (hante : posted.table.rules.anteMode = anteModeNone)
    (h : (do
      let s ← posted.collectAnte b
      s.startBettingRound true (some b)) = .ok opened) :
    opened.table.currentTurnOption =
      if g.participantIds.length = 2 ∧ small.stack ≤ sb then none
      else some ((b + 1) % g.participantIds.length) := by
  have hcollect : posted.collectAnte b = .ok posted := by
    unfold Exec.collectAnte
    exact if_pos (.inl hante)
  rw [hcollect, ok_bind] at h
  rw [← hu.turn_eq hsmall]
  refine startBettingRound_currentTurnOption h ?_ fun i hi => ?_
  · rw [hu.countActivePlayers]
    exact hu.two
  · have hact := List.find?_some (Option.mem_def.mp hi)
    have hlt := hu.rank_of_isActionable hact
    have hnine := hu.nine
    have : noSeat = 15 := rfl
    have : maxSeats = 9 := rfl
    omega

omit [AddCommGroup G] [Protocol G] [DecidableEq G] in
/-- The mirror's blinds are those of the server, or one and two chips in place of none. -/
theorem Mirrors.blinds_eq (hm : Mirrors g t) (hd : g.Dealt) :
    0 < g.minBet ∧ t.rules.smallBlind = g.minBet ∧ t.rules.bigBlind = g.minBet * 2 ∨
      g.minBet = 0 ∧ t.rules.smallBlind = 1 ∧ t.rules.bigBlind = 2 := by
  have hlimit := hd.limit
  have hu64 : u64Max = 18446744073709551615 := rfl
  rw [hm.smallBlind, hm.bigBlind, minBet]
  omega

/-- Server and mirror charge the same seats the same blinds and give the same seat the first turn
exactly when the positions, the chips and the folds of the hand let the blinds translate. -/
theorem blinds_translate_iff (hd : g.Dealt) (hm : Mirrors g t) {l : List TexasPokerEvent} :
    ∃ posted, Exec.postBlinds ⟨t, l⟩ = .ok (posted, t.blindSeats.2) ∧
      ∀ opened, (do
          let s ← posted.collectAnte t.blindSeats.2
          s.startBettingRound true (some t.blindSeats.2)) = .ok opened →
        (Agrees g.participantIds g.setBlinds t.blindSeats.1 t.blindSeats.2 posted.table
          opened.table ↔ BlindsTranslate g) := by
  have htwo := hd.two
  have hnine := hm.nine
  have hmax : maxSeats = 9 := rfl
  have hseats : noSeat = 15 := rfl
  by_cases hcount : 0 < g.lastBbSeat ∨ g.button.getD 1 ∈ g.participantIds ∨
      ∃ x y, g.participantIds = [x, y] ∧ x < g.button.getD 1 ∧ g.button.getD 1 < y
  · obtain ⟨r, hr, hbase, hsb, hbb, horder⟩ := hm.shared_positions hd hcount
    have hpos := hm.blindSeats htwo hr hbase
    have hb : (r + 1) % g.participantIds.length < g.participantIds.length :=
      Nat.mod_lt _ (by omega)
    rw [hpos]
    obtain ⟨posted, hpost, hseated, hrules, hpaid⟩ :=
      hm.postBlinds (l := l) hd hpos hr hb (self_ne_succ_mod htwo hr)
    have hamounts := hm.blinds_eq hd
    have hu : Posted g t.rules.smallBlind t.rules.bigBlind r _ posted.table :=
      ⟨hseated, htwo, hr, rfl, by omega, by rw [hrules], hpaid⟩
    obtain ⟨small, hsmall, -⟩ := hu.seat hr
    obtain ⟨big, hbig, -⟩ := hu.seat hb
    obtain ⟨next, hnext, -⟩ := hu.seat (Nat.mod_lt _ (by omega))
    obtain ⟨rest, hlist, hlength, hlast⟩ := order_eq htwo hr horder hsmall hbig hnext
    refine ⟨posted, hpost, fun opened hopened => ?_⟩
    obtain ⟨hsmall', hbig', hseat, hturn⟩ := setBlinds_eq hsb hbb
    have hmirror := hu.opened_turn hsmall (by rw [hrules]; exact hm.anteMode) hopened
    have hcharged := hu.charged_iff hsmall hbig
    have hstakes : min t.rules.smallBlind small.stack = min g.minBet small.stack ∧
        min t.rules.bigBlind big.stack = min (g.minBet * 2) big.stack ↔
          0 < g.minBet ∨ small.stack = 0 ∧ big.stack = 0 := by
      rcases hamounts with ⟨hpos, h, h'⟩ | ⟨hzero, h, h'⟩ <;> rw [h, h'] <;> omega
    rw [blindsTranslate_iff hcount hlist hlength hlast, ← hstakes]
    constructor
    · intro ha
      have hchips := ha.charged
      rw [hseat, hcharged] at hchips
      have hfirst := ha.first
      rw [hturn, hmirror, hu.first_iff hd hsmall hbig hnext hchips.1] at hfirst
      exact ⟨hchips, hfirst⟩
    · rintro ⟨hchips, hfirst⟩
      constructor
      · rw [if_neg (by omega), hsmall', idOf_eq hr]
      · rw [hbig', idOf_eq hb]
      · rw [hseat, hcharged]
        exact hchips
      · rw [hturn, hmirror, hu.first_iff hd hsmall hbig hnext hchips.1]
        exact hfirst
  · rw [not_or, not_or, not_lt, Nat.le_zero] at hcount
    obtain ⟨hfirst, hdead, hbetween⟩ := hcount
    have hbase := hm.rotationBase_dead hfirst hdead
    have hr : 0 < g.participantIds.length := by omega
    have hb : (0 + 1) % g.participantIds.length < g.participantIds.length := Nat.mod_lt _ hr
    have hone : (0 + 1) % g.participantIds.length = 1 := Nat.mod_eq_of_lt (by omega)
    have hpos := hm.blindSeats htwo hr hbase
    rw [hone] at hb hpos
    obtain ⟨posted, hpost, -⟩ := hm.postBlinds (l := l) hd hpos hr hb (by decide)
    rw [hpos]
    refine ⟨posted, hpost, fun opened _ => iff_of_false (fun ha => ?_) fun hc => ?_⟩
    · exact not_agrees_of_dead hd hfirst hdead hbetween ha
    · rcases hc.base with h | h | h
      · omega
      · exact hdead h
      · exact hbetween h

end Agreement

/-! ## Hands of three -/

/-- A participant with some chips. -/
def newcomer (stack : ℕ) : Seat where
  player := some ⟨"0x1", "02"⟩
  stack
  bet := 0
  totalBet := 0
  folded := false
  sittingOut := false
  isWaiting := false

/-- Three participants on seats two to four. -/
def threeSeats : Seats 9 :=
  ⟨[(4, newcomer 1000), (2, newcomer 1000), (3, newcomer 1000)], by decide, by decide⟩

/-- A hand of three with the button on the empty first seat. -/
def threeHanded (lastBbSeat : ℕ) : Table where
  maxPlayers := 9
  limit := 10000
  localSeats := threeSeats
  button := some 1
  lastBbSeat
  turn := none
  smallBlind := none
  bigBlind := none
  pot := 0
  callAmount := none
  minRaise := 0

/-- Its mirror, when the hole cards are revealed. -/
def threeHandedMirror (lastBbSeat : ℕ) : TexasPokerTable ℤ :=
  let seat (i : Fin maxSeats) : TexasPoker.Seat ℤ :=
    .playing (TexasPoker.Seat.newPlaying {
      player := BitVec.ofNat _ (i.1 + 1), stack := 1000, pk := Int.ofNat (i.1 + 1)
      txPk := ⟨List.replicate 32 0, rfl⟩, pendingAddon := 0, timeBankMs := 0 })
  { TexasPokerTable.new ⟨7, 0⟩ 7 maxSeats 50 100 with
    seats := fun i => if i.1 < 3 then seat i else .empty
    lastBbSeat
    handPhase := .revealing roundPreflop ⟨.dealHole, []⟩ 0 }

variable {lastBbSeat : ℕ}

theorem threeHanded_ids : (threeHanded lastBbSeat).participantIds = [2, 3, 4] := by
  rw [participantIds_eq]
  change ((List.range' 1 9).filter fun id => (threeSeats.get id).any Seat.participating) = _
  decide

theorem seat_threeHanded {id : ℕ} {s : Seat} (h : (threeHanded lastBbSeat).seat id = some s) :
    s = newcomer 1000 := by
  have hmem : (id, s) ∈ threeSeats.entries := (Seats.mem_entries _).mpr h
  have hall : ∀ e ∈ threeSeats.entries, e.2 = newcomer 1000 := by decide
  exact hall _ hmem

theorem threeHanded_dealt (h : lastBbSeat ≤ 9) : (threeHanded lastBbSeat).Dealt where
  seated e he := by
    have hall : ∀ e ∈ threeSeats.entries, e.2.player.isSome = true := by decide
    exact hall e he
  button b hb := by
    cases hb
    exact ⟨le_rfl, show 1 ≤ 9 by decide⟩
  lastBbSeat := h
  limit := show 10000 ≤ u64Max by decide
  two := by rw [threeHanded_ids]; decide

theorem threeHanded_mirrors : Mirrors (threeHanded lastBbSeat)
    (threeHandedMirror (rankOfRotationSeat lastBbSeat [2, 3, 4])) where
  maxPlayers := rfl
  nine := by rw [threeHanded_ids]; decide
  vacant r hr := by
    rw [threeHanded_ids] at hr
    simp only [TexasPokerTable.seat, threeHandedMirror]
    split
    · rw [if_neg (by simpa using hr)]
      rfl
    · rfl
  smallBlind := show 50 = max (10000 / 200) 1 by decide
  bigBlind := show 100 = min (2 * max (10000 / 200) 1) u64Max by decide
  anteMode := rfl
  button := by
    rw [buttonRank, threeHanded_ids]
    rfl
  lastBbSeat := by
    rw [lastBbRank, threeHanded_ids]
    rfl
  dealt r id s hr hs := by
    rw [threeHanded_ids] at hr
    have hlt : r < 3 := (List.getElem?_eq_some_iff.mp hr).1
    rw [seat_threeHanded hs]
    simp only [TexasPokerTable.seat, threeHandedMirror]
    rw [dif_pos (hlt.trans (by decide)), if_pos hlt]
    exact ⟨_, rfl, rfl, rfl, rfl, rfl⟩

/-- The hole cards of the mirror are revealed: its blinds are posted and a round opens. -/
theorem threeHanded_opens (h : ((Exec.postBlinds ⟨threeHandedMirror lastBbSeat, []⟩) >>= fun p =>
      p.1.collectAnte p.2 >>= fun s => s.startBettingRound true (some p.2)).isOk = true)
    {posted : Exec ℤ} {b : ℕ}
    (hp : Exec.postBlinds ⟨threeHandedMirror lastBbSeat, []⟩ = .ok (posted, b)) :
    ∃ opened, (do
      let s ← posted.collectAnte b
      s.startBettingRound true (some b)) = .ok opened := by
  obtain ⟨opened, hopened⟩ := isOk_iff.mp h
  rw [hp, ok_bind] at hopened
  exact ⟨opened, hopened⟩

/-- The last big blind has left the empty first seat: both layers agree. -/
theorem departed_base_agrees : ∃ posted opened,
    Exec.postBlinds ⟨threeHandedMirror 2, []⟩ = .ok (posted, 0) ∧
      (do
        let s ← posted.collectAnte 0
        s.startBettingRound true (some 0)) = .ok opened ∧
      Agrees (threeHanded 1).participantIds (threeHanded 1).setBlinds 2 0 posted.table
        opened.table := by
  have hpos : (threeHandedMirror 2).blindSeats = (2, 0) := by decide
  have hmirrors : Mirrors (threeHanded 1) _ := threeHanded_mirrors
  rw [show rankOfRotationSeat 1 [2, 3, 4] = 2 by decide] at hmirrors
  have hiff := blinds_translate_iff (threeHanded_dealt (by decide)) hmirrors (l := [])
  rw [hpos] at hiff
  obtain ⟨posted, hp, hiff⟩ := hiff
  obtain ⟨opened, ho⟩ := threeHanded_opens (by decide +kernel) hp
  have horder : (threeHanded 1).order = [newcomer 1000, newcomer 1000, newcomer 1000] := by
    rw [order, threeHanded_ids]
    decide
  refine ⟨posted, opened, hp, ho, (hiff opened ho).mpr ⟨.inl (by decide), .inl (by decide), ?_, ?_⟩⟩
  · intro big small heq
    simp [horder] at heq
  · intro big next rest heq _
    rw [horder] at heq
    cases heq
    decide

/-- The button of a first hand is on the empty first seat: the mirror charges a small blind that
the server does not charge. -/
theorem dead_button_disagrees : ∃ (g : Table) (t : TexasPokerTable ℤ) (posted opened : Exec ℤ),
    g.Dealt ∧ Mirrors g t ∧ t.blindSeats = (0, 1) ∧
      Exec.postBlinds ⟨t, []⟩ = .ok (posted, 1) ∧
      (do
        let s ← posted.collectAnte 1
        s.startBettingRound true (some 1)) = .ok opened ∧
      ¬ Agrees g.participantIds g.setBlinds 0 1 posted.table opened.table := by
  have hd : (threeHanded 0).Dealt := threeHanded_dealt (by decide)
  have hok : (Exec.postBlinds ⟨threeHandedMirror 15, []⟩).isOk = true := by decide +kernel
  obtain ⟨⟨posted, b⟩, hp⟩ := isOk_iff.mp hok
  have hb : b = 1 := (Exec.postBlinds_eq_ok hp).1.trans (by decide)
  subst hb
  obtain ⟨opened, ho⟩ := threeHanded_opens (by decide +kernel) hp
  refine ⟨threeHanded 0, threeHandedMirror 15, posted, opened, hd, threeHanded_mirrors, by decide,
    hp, ho, not_agrees_of_dead hd rfl ?_ ?_⟩
  · rw [threeHanded_ids]
    decide
  · rintro ⟨x, y, hids, -⟩
    rw [threeHanded_ids] at hids
    simp at hids

end TexasPoker.PokerGame
