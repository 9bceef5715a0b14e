import TexasPoker.PokerGame.Mirror
import TexasPoker.Spec.Hand
import TexasPoker.Spec.Moves

/-! # Positions of the blinds

Both layers rotate the blinds from the last big blind, or from the button of a first hand. They
charge the same seats when that seat has a rank; a button that is not dealt in is given the first
rank.
-/

namespace TexasPoker.PokerGame

open Fallible

variable {G : Type} {g : Table} {t : TexasPokerTable G} {r : ℕ}

namespace Table

/-! ## Positions -/

/-- The seat that the blinds are counted from. -/
def base (g : Table) : ℕ := if 0 < g.lastBbSeat then g.lastBbSeat else g.button.getD 1

/-- The participants from the one after the base on: the big blind first, and the small blind
last. -/
def order (g : Table) : List Seat := (clockwise g.participantIds g.base).filterMap g.seat

theorem Dealt.rotationHistory (hd : g.Dealt) : g.hasRotationHistory ↔ 0 < g.lastBbSeat :=
  and_iff_left hd.lastBbSeat

theorem rotationBaseParticipating_iff {id : ℕ} :
    g.rotationBaseParticipating id = true ↔ id ∈ g.participantIds := by
  rw [rotationBaseParticipating, mem_participantIds, Option.any_eq_true]

/-- The first element up to one of a descending list is that element. -/
theorem find?_le_of_mem {l : List ℕ} {a : ℕ} (hl : l.Pairwise (· > ·)) (ha : a ∈ l) :
    l.find? (· ≤ a) = some a := by
  induction l with
  | nil => cases ha
  | cons b l ih =>
    obtain ⟨hb, hl⟩ := List.pairwise_cons.mp hl
    rcases List.mem_cons.mp ha with rfl | ha
    · simp
    · have hgt : b > a := hb a ha
      rw [List.find?_cons_of_neg (by simpa using hgt), ih hl ha]

/-- After a big blind the base is the participant at or before it. -/
theorem rotationBase_of_history (hd : g.Dealt) (h : 0 < g.lastBbSeat) :
    g.participantIds[g.lastBbRank]? = some g.rotationBase := by
  have hne : g.participantIds ≠ [] := by
    have := hd.two
    rintro hnil
    simp [hnil] at this
  have hlast := List.getLast?_eq_some_getLast hne
  rw [lastBbRank, getElem?_rankOfRotationSeat (by omega), rotationBase,
    if_pos (hd.rotationHistory.mpr h)]
  by_cases hmem : g.lastBbSeat ∈ g.participantIds
  · rw [if_neg (by simp [rotationBaseParticipating_iff.mpr hmem])]
    have hfound : g.participantIds.reverse.find? (· ≤ g.lastBbSeat) = some g.lastBbSeat := by
      refine find?_le_of_mem ?_ (List.mem_reverse.mpr hmem)
      exact List.pairwise_reverse.mpr g.sorted_participantIds
    rw [hfound, Option.some_or]
  · have hp : g.rotationBaseParticipating g.lastBbSeat = false := by
      simpa using mt rotationBaseParticipating_iff.mp hmem
    have hpred : g.participantIds.reverse.find? (· ≤ g.lastBbSeat) =
        g.participantIds.reverse.find? (· < g.lastBbSeat) := by
      rw [← List.head?_filter, ← List.head?_filter]
      refine congrArg _ (List.filter_congr fun id hid => ?_)
      have hne : id ≠ g.lastBbSeat := fun heq => hmem (heq ▸ List.mem_reverse.mp hid)
      simp only [decide_eq_decide]
      omega
    rw [if_pos ⟨hd.rotationHistory.mpr h, by simp [hp]⟩, predecessorParticipant, hpred, hlast]
    cases g.participantIds.reverse.find? (· < g.lastBbSeat) <;> rfl

/-- The base of a first hand is the button. -/
theorem rotationBase_of_first (hd : g.Dealt) (h : g.lastBbSeat = 0) :
    g.rotationBase = g.button.getD 1 := by
  have hnone : ¬ g.hasRotationHistory := by
    rw [hd.rotationHistory]
    omega
  rw [rotationBase, if_neg hnone, if_neg fun h => hnone h.1]

/-- A button that is dealt in has a rank. -/
theorem getElem?_buttonRank (h : g.button.getD 1 ∈ g.participantIds) :
    g.participantIds[g.buttonRank]? = some (g.button.getD 1) := by
  unfold buttonRank
  cases hb : g.button with
  | none =>
    rw [hb, Option.getD_none] at h
    obtain ⟨i, hi⟩ := List.mem_iff_getElem?.mp h
    have hlt : i < g.participantIds.length := (List.getElem?_eq_some_iff.mp hi).1
    have hzero : i = 0 := by
      by_contra hpos
      have hless := (idOf_lt_idOf (by omega : 0 < g.participantIds.length) hlt).mpr (by omega)
      obtain ⟨s, hs, -⟩ := mem_participantIds.mp (idOf_mem (by omega : 0 < g.participantIds.length))
      have hone := (seat_range hs).1
      rw [idOf_eq hlt, Option.some_inj] at hi
      omega
    subst hzero
    simpa using hi
  | some b =>
    rw [hb, Option.getD_some] at h
    have hsome : (g.participantIds.findIdx? (· = b)).isSome = true := by
      rw [List.findIdx?_isSome, List.any_eq_true]
      exact ⟨b, h, by simp⟩
    obtain ⟨i, hi⟩ := Option.isSome_iff_exists.mp hsome
    obtain ⟨hlt, hb, -⟩ := List.findIdx?_eq_some_iff_getElem.mp hi
    rw [Option.bind_some, hi, Option.getD_some, Option.getD_some, List.getElem?_eq_getElem hlt,
      of_decide_eq_true hb]

/-- A button that is not dealt in is given the first rank. -/
theorem buttonRank_of_not_mem (h : g.button.getD 1 ∉ g.participantIds) : g.buttonRank = 0 := by
  unfold buttonRank
  cases hb : g.button with
  | none => rfl
  | some b =>
    rw [hb, Option.getD_some] at h
    have hnone : g.participantIds.findIdx? (· = b) = none := by
      rw [List.findIdx?_eq_none_iff]
      rintro id hid
      have hne : id ≠ b := by
        rintro rfl
        exact h hid
      simpa using hne
    rw [Option.bind_some, hnone]
    rfl

theorem lastBbRank_of_first (h : g.lastBbSeat = 0) : g.lastBbRank = noSeat := by
  rw [lastBbRank, rankOfRotationSeat, if_pos h]

end Table

open Table

/-- After a first hand, or with the button dealt in, both layers count from the same seat. -/
theorem Mirrors.rotationBase (hm : Mirrors g t) (hd : g.Dealt)
    (h : 0 < g.lastBbSeat ∨ g.button.getD 1 ∈ g.participantIds) :
    ∃ r < g.participantIds.length, g.rotationBase = g.idOf r ∧ t.rotationBase = r := by
  have hrank {r : ℕ} (hr : g.participantIds[r]? = some g.rotationBase) :
      r < g.participantIds.length ∧ g.rotationBase = g.idOf r := by
    have hlt := (List.getElem?_eq_some_iff.mp hr).1
    rw [idOf_eq hlt, Option.some_inj] at hr
    exact ⟨hlt, hr.symm⟩
  have hnine := hm.nine
  rcases Nat.eq_zero_or_pos g.lastBbSeat with hfirst | hlast
  · have hmem := h.resolve_left (by omega)
    obtain ⟨hlt, hbase⟩ := hrank (rotationBase_of_first hd hfirst ▸ getElem?_buttonRank hmem)
    refine ⟨g.buttonRank, hlt, hbase, ?_⟩
    rw [TexasPokerTable.rotationBase, hm.lastBbSeat, lastBbRank_of_first hfirst,
      if_neg (by simp), hm.button]
    exact min_eq_left (by omega)
  · obtain ⟨hlt, hbase⟩ := hrank (rotationBase_of_history hd hlast)
    refine ⟨g.lastBbRank, hlt, hbase, ?_⟩
    have hne : g.lastBbRank ≠ noSeat := by
      have : noSeat = 15 := rfl
      have : maxSeats = 9 := rfl
      omega
    rw [TexasPokerTable.rotationBase, hm.lastBbSeat, if_pos hne]

/-- A dead button of a first hand counts as the first rank. -/
theorem Mirrors.rotationBase_dead (hm : Mirrors g t) (hfirst : g.lastBbSeat = 0)
    (hdead : g.button.getD 1 ∉ g.participantIds) : t.rotationBase = 0 := by
  rw [TexasPokerTable.rotationBase, hm.lastBbSeat, lastBbRank_of_first hfirst, if_neg (by simp),
    hm.button, buttonRank_of_not_mem hdead]
  rfl

/-! ### The mirror's positions -/

theorem Joined.participates {s : Seat} {v : TexasPoker.Seat G} (h : Joined s v) :
    v.participates = true := by
  obtain ⟨p, rfl, -⟩ := h
  rfl

theorem participates_of_vacant {v : TexasPoker.Seat G} (h : v.isVacant = true) :
    v.participates = false := by
  cases v with
  | vacant => rfl
  | _ => cases h

theorem isActionable_of_vacant {v : TexasPoker.Seat G} (h : v.isVacant = true) :
    v.isActionable = false := by
  cases v with
  | vacant => rfl
  | _ => cases h

/-- Every rank of the hand has a mirrored seat. -/
theorem Mirrors.joined (hm : Mirrors g t) (hr : r < g.participantIds.length) :
    ∃ s, g.seat (g.idOf r) = some s ∧ s.participating = true ∧ Joined s (t.seat r) := by
  obtain ⟨s, hs, hp⟩ := mem_participantIds.mp (idOf_mem hr)
  exact ⟨s, hs, hp, hm.dealt r _ s (idOf_eq hr) hs⟩

/-- The rank after one comes first in clockwise order. -/
theorem clockwise_range_eq_cons {k : ℕ} (hr : r < k) :
    ∃ rest, clockwise (List.range k) r = (r + 1) % k :: rest := by
  obtain ⟨m, rfl⟩ := Nat.exists_eq_succ_of_ne_zero (Nat.ne_zero_of_lt hr)
  rw [← rotation_eq_clockwise hr, rotation, List.range'_succ, List.map_cons]
  exact ⟨_, rfl⟩

/-- A scan finds the rank after one exactly when that rank matches. -/
theorem find?_clockwise_range_iff {k : ℕ} {p : ℕ → Bool} (hr : r < k) :
    (clockwise (List.range k) r).find? p = some ((r + 1) % k) ↔ p ((r + 1) % k) = true := by
  obtain ⟨rest, hrest⟩ := clockwise_range_eq_cons hr
  rw [hrest]
  exact ⟨fun h => List.find?_some h, fun h => List.find?_cons_of_pos h⟩

theorem Mirrors.findNextParticipatingSeat (hm : Mirrors g t) (hr : r < g.participantIds.length) :
    t.findNextParticipatingSeat r = some ((r + 1) % g.participantIds.length) := by
  rw [TexasPokerTable.findNextParticipatingSeat, hm.toSeated.findNext_eq
    (hr.trans_le hm.nine) fun s hs => participates_of_vacant hs]
  obtain ⟨s, -, -, hs⟩ := hm.joined (Nat.mod_lt (r + 1) (Nat.zero_lt_of_lt hr))
  exact (find?_clockwise_range_iff hr).mpr hs.participates

/-- A property of the ranks of the hand holds of as many seats. -/
theorem countP_seats {k : ℕ} {p : TexasPoker.Seat G → Bool} (hk : k ≤ maxSeats)
    (hp : ∀ i, p (t.seat i) = true ↔ i < k) :
    (List.finRange maxSeats).countP (fun i => p (t.seats i)) = k := by
  have hcount : ∀ k ≤ maxSeats, (List.finRange maxSeats).countP (fun i => i.1 < k) = k := by
    decide
  rw [← hcount k hk]
  refine List.countP_congr fun i _ => ?_
  rw [← t.seat_val, hp, decide_eq_true_eq]

theorem Mirrors.countActiveOccupied (hm : Mirrors g t) :
    t.countActiveOccupied = g.participantIds.length := by
  refine countP_seats hm.nine fun i => ?_
  by_cases hi : i < g.participantIds.length
  · obtain ⟨s, -, -, hs⟩ := hm.joined hi
    exact iff_of_true hs.participates hi
  · rw [participates_of_vacant (hm.vacant i (not_lt.mp hi))]
    exact iff_of_false Bool.false_ne_true hi

theorem self_ne_succ_mod {k : ℕ} (htwo : 2 ≤ k) (hr : r < k) : r ≠ (r + 1) % k := by
  rcases Nat.lt_or_ge (r + 1) k with hlt | hge
  · rw [Nat.mod_eq_of_lt hlt]
    omega
  · rw [show r + 1 = k by omega, Nat.mod_self]
    omega

/-- The mirror charges the rank it counts from and the one after it. -/
theorem Mirrors.blindSeats (hm : Mirrors g t) (htwo : 2 ≤ g.participantIds.length)
    (hr : r < g.participantIds.length) (hbase : t.rotationBase = r) :
    t.blindSeats = (r, (r + 1) % g.participantIds.length) := by
  have hnext := hm.findNextParticipatingSeat hr
  have hlt : (r + 1) % g.participantIds.length < g.participantIds.length :=
    Nat.mod_lt _ (by omega)
  unfold TexasPokerTable.blindSeats
  dsimp only
  rw [hbase, hnext, Option.getD_some, hm.countActiveOccupied]
  split
  · rename_i hk
    rw [hm.findNextParticipatingSeat hlt, Option.getD_some, hk]
    rw [hk] at hr
    have : ((r + 1) % 2 + 1) % 2 = r := by omega
    rw [this]
  · obtain ⟨s, -, -, hs⟩ := hm.joined hr
    rw [if_pos ⟨self_ne_succ_mod htwo hr, hs.participates⟩]

/-! ### The server's positions -/

namespace Table

theorem Dealt.active_iff (hd : g.Dealt) {id : ℕ} {s : Seat} (hs : g.seat id = some s) :
    (!s.sittingOut && !s.isWaiting) = s.participating := by
  have hseated := hd.seated _ (g.localSeats.mem_entries.mpr hs)
  rw [Seat.participating, hseated, Bool.true_and]

theorem Dealt.active_mem (hd : g.Dealt) {id : ℕ}
    (h : (g.seat id).any (fun s => !s.sittingOut && !s.isWaiting) = true) :
    id ∈ g.participantIds := by
  obtain ⟨s, hs, hactive⟩ := (Option.any_eq_true _ _).mp h
  exact mem_participantIds.mpr ⟨s, hs, hd.active_iff hs ▸ hactive⟩

theorem Dealt.length_activePlayers (hd : g.Dealt) :
    g.activePlayers.length = g.participantIds.length := by
  rw [activePlayers, Seats.values, participantIds, List.length_mergeSort, List.length_map,
    List.filter_map, List.length_map]
  refine congrArg _ (List.filter_congr fun e he => ?_)
  exact hd.active_iff (g.localSeats.mem_entries.mp he)

/-- The first participant after a dead button of a first hand. -/
theorem Dealt.bbSeat_dead (hd : g.Dealt) (hfirst : g.lastBbSeat = 0) :
    g.bbSeat = ((clockwise g.participantIds (g.button.getD 1)).head?).getD (g.button.getD 1) := by
  have hrange : 1 ≤ g.button.getD 1 ∧ g.button.getD 1 ≤ g.maxPlayers := by
    cases hb : g.button with
    | none =>
      have hlt : 0 < g.participantIds.length := by
        have := hd.two
        omega
      obtain ⟨s, hs, -⟩ := mem_participantIds.mp (idOf_mem hlt)
      have := Table.seat_range hs
      rw [Option.getD_none]
      omega
    | some b => exact hd.button b hb
  rw [bbSeat, rotationBase_of_first hd hfirst, Table.nextActivePlayer,
    nextPlayerByFilter_eq hrange.1 hrange.2 fun _ => hd.active_mem, ← List.head?_filter,
    List.filter_eq_self.mpr]
  intro id hid
  obtain ⟨s, hs, hp⟩ := mem_participantIds.mp (mem_clockwise.mp hid)
  rw [hs, Option.any_some, hd.active_iff hs, hp]

end Table

section Positions

variable (hm : Mirrors g t) (hd : g.Dealt)

include hm hd

theorem Mirrors.nextActivePlayer (hr : r < g.participantIds.length) :
    g.nextActivePlayer (g.idOf r) 1 = some (g.idOf ((r + 1) % g.participantIds.length)) := by
  have hnext := hm.findNextParticipatingSeat hr
  rw [TexasPokerTable.findNextParticipatingSeat] at hnext
  rw [Table.nextActivePlayer, hm.toSeated.next_eq hr (fun _ => hd.active_mem)
    (fun _ hs => participates_of_vacant hs) fun i hi => ?_, hnext, Option.map_some]
  obtain ⟨s, hs, hp, hjoined⟩ := hm.joined hi
  rw [hs, Option.any_some, hd.active_iff hs, hp, hjoined.participates]

/-- Heads up the small blind is the other participant. -/
theorem Mirrors.sbSeat_headsUp (htwo : g.participantIds.length = 2) (hr : r < 2)
    (hbb : g.bbSeat = g.idOf ((r + 1) % 2)) : g.sbSeat = some (g.idOf r) := by
  have hlt : (r + 1) % 2 < g.participantIds.length := by omega
  have hnext := hm.nextActivePlayer hd hlt
  rw [htwo, show ((r + 1) % 2 + 1) % 2 = r by omega] at hnext
  rw [sbSeat, if_pos (hd.length_activePlayers.trans htwo), hbb, hnext, Option.some_or]

/-- The server charges the seat it counts from and the one after it. -/
theorem Mirrors.positions (hr : r < g.participantIds.length) (hbase : g.rotationBase = g.idOf r) :
    g.bbSeat = g.idOf ((r + 1) % g.participantIds.length) ∧ g.sbSeat = some (g.idOf r) := by
  have htwo := hd.two
  have hbb : g.bbSeat = g.idOf ((r + 1) % g.participantIds.length) := by
    rw [bbSeat, hbase, hm.nextActivePlayer hd hr, Option.getD_some]
  refine ⟨hbb, ?_⟩
  by_cases hk : g.participantIds.length = 2
  · exact hm.sbSeat_headsUp hd hk (hk ▸ hr) (hk ▸ hbb)
  · have hmod : (r + 1) % g.participantIds.length < g.participantIds.length :=
      Nat.mod_lt _ (by omega)
    have hne : g.idOf r ≠ g.idOf ((r + 1) % g.participantIds.length) :=
      fun heq => self_ne_succ_mod htwo hr (idOf_inj hr hmod heq)
    obtain ⟨s, hs, hp, -⟩ := hm.joined hr
    rw [sbSeat, if_neg (by rw [hd.length_activePlayers]; exact hk), hbb, hbase, if_pos hne,
      if_pos (by rw [hs, Option.any_some, hd.active_iff hs, hp])]

end Positions

/-! ### Both layers -/

/-- After a big blind, the participants come in the same order from its seat and from the one that
stands in for it. -/
theorem Table.clockwise_lastBbSeat (hd : g.Dealt) (h : 0 < g.lastBbSeat) :
    clockwise g.participantIds g.lastBbSeat = clockwise g.participantIds g.rotationBase := by
  have hbase := rotationBase_of_history hd h
  have hsorted := List.pairwise_reverse.mpr g.sorted_participantIds
  rw [lastBbRank, getElem?_rankOfRotationSeat (by omega)] at hbase
  cases hfound : g.participantIds.reverse.find? (· ≤ g.lastBbSeat) with
  | none =>
    -- every participant sits after the last big blind, and the last one stands in for it
    rw [hfound, Option.none_or] at hbase
    have hafter : ∀ a ∈ g.participantIds, g.lastBbSeat < a := by
      simpa using hfound
    have hupto : ∀ a ∈ g.participantIds, a ≤ g.rotationBase := by
      intro a ha
      obtain ⟨before, heq⟩ := List.getLast?_eq_some_iff.mp hbase
      have hlt := g.sorted_participantIds
      rw [heq, List.pairwise_append] at hlt
      rw [heq, List.mem_append, List.mem_singleton] at ha
      rcases ha with ha | rfl
      · exact (hlt.2.2 a ha _ (List.mem_singleton_self _)).le
      · exact le_rfl
    rw [clockwise_of_forall_lt hafter, clockwise_of_forall_le hupto]
  | some x =>
    rw [hfound, Option.some_or, Option.some_inj] at hbase
    have hle : x ≤ g.lastBbSeat := by simpa using List.find?_some hfound
    obtain ⟨-, as, bs, heq, has⟩ := List.find?_eq_some_iff_append.mp hfound
    apply clockwise_congr
    intro a ha
    rw [← hbase]
    refine ⟨hle.trans_lt, fun hlt => ?_⟩
    rw [← List.mem_reverse, heq, List.mem_append, List.mem_cons] at ha
    rw [heq, List.pairwise_append, List.pairwise_cons] at hsorted
    rcases ha with ha | rfl | ha
    · simpa using has a ha
    · omega
    · have := hsorted.2.1.1 a ha
      omega

/-- Both layers charge the same ranks when they count the blinds from a seat with a rank. -/
theorem Mirrors.shared_positions (hm : Mirrors g t) (hd : g.Dealt)
    (h : 0 < g.lastBbSeat ∨ g.button.getD 1 ∈ g.participantIds ∨
      ∃ x y, g.participantIds = [x, y] ∧ x < g.button.getD 1 ∧ g.button.getD 1 < y) :
    ∃ r < g.participantIds.length, t.rotationBase = r ∧ g.sbSeat = some (g.idOf r) ∧
      g.bbSeat = g.idOf ((r + 1) % g.participantIds.length) ∧
      clockwise g.participantIds g.base = clockwise g.participantIds (g.idOf r) := by
  by_cases hshared : 0 < g.lastBbSeat ∨ g.button.getD 1 ∈ g.participantIds
  · obtain ⟨r, hr, hbase, hmirror⟩ := hm.rotationBase hd hshared
    obtain ⟨hbb, hsb⟩ := hm.positions hd hr hbase
    refine ⟨r, hr, hmirror, hsb, hbb, ?_⟩
    rw [← hbase, base]
    split
    · exact clockwise_lastBbSeat hd ‹_›
    · rw [rotationBase_of_first hd (by omega)]
  · rw [not_or, not_lt, Nat.le_zero] at hshared
    obtain ⟨hfirst, hdead⟩ := hshared
    obtain ⟨x, y, hids, hx, hy⟩ := (h.resolve_left (by omega)).resolve_left hdead
    have htwo : g.participantIds.length = 2 := by rw [hids]; rfl
    have hbb : g.bbSeat = g.idOf 1 := by
      rw [hd.bbSeat_dead hfirst, idOf, hids, clockwise]
      simp [hy, not_lt.mpr hx.le]
    refine ⟨0, by omega, hm.rotationBase_dead hfirst hdead, ?_, ?_, ?_⟩
    · exact hm.sbSeat_headsUp hd htwo (by decide) hbb
    · rw [hbb, htwo]
    · have hbase : g.base = g.button.getD 1 := if_neg (by omega)
      have hzero : g.idOf 0 = x := by rw [idOf, hids]; rfl
      rw [hbase, hzero, hids, clockwise, clockwise]
      simp [hy, hx.le, hx.trans hy, hy.not_ge, (hx.trans hy).not_ge]

end TexasPoker.PokerGame
