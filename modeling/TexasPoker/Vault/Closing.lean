import TexasPoker.Spec.Reset

/-! # Chips at the end of a hand

A reset keeps the stacks and the addons of every seat and forgets the chips in play. Awarding
the pot first saves them; a refund saves the contributions of the unfolded seats.
-/

namespace TexasPoker

variable {G : Type}

/-- The contribution of a folded or departed player, which a refund does not return. -/
def Seat.forfeit (seat : Seat G) : ℕ :=
  if seat.isFolded || seat.hasLeftHand then seat.totalBet else 0

namespace TexasPokerTable

variable {t : TexasPokerTable G}

theorem sum_map_filter {ι : Type} {l : List ι} {p : ι → Bool} {f : ι → ℕ} :
    ((l.filter p).map f).sum = (l.map fun i => if p i then f i else 0).sum := by
  induction l with
  | nil => rfl
  | cons i l ih =>
    rw [List.filter_cons]
    split <;> simp_all

theorem leaveRefund_eq : t.leaveRefund =
    ∑ i, if t.leaves i then (t.seats i).stack + (t.seats i).pendingAddon else 0 := by
  rw [Fin.sum_univ_def]
  exact sum_map_filter

theorem stack_preparedSeat (i : Fin maxSeats) :
    (t.preparedSeat i).stack = (t.seats i).stack + (t.seats i).pendingAddon := by
  unfold preparedSeat
  cases t.seats i <;> rfl

theorem pendingAddon_preparedSeat (i : Fin maxSeats) : (t.preparedSeat i).pendingAddon = 0 := by
  unfold preparedSeat
  cases t.seats i <;> rfl

theorem bet_preparedSeat (i : Fin maxSeats) : (t.preparedSeat i).bet = 0 := by
  unfold preparedSeat
  cases t.seats i <;> rfl

theorem nextSeat_cases (i : Fin maxSeats) :
    t.nextSeat i = .empty ∨ t.nextSeat i = t.preparedSeat i ∧
      (t.preparedSeat i).hasLeftHand = false ∧ t.leaves i = false ∧
      ((t.preparedSeat i).isOccupied = true → 0 < (t.preparedSeat i).stack) := by
  unfold nextSeat
  by_cases hl : t.leaves i = true
  · exact .inl (if_pos hl)
  · rw [if_neg hl]
    split
    · exact .inl rfl
    · rename_i hb
      simp only [Bool.or_eq_true, Bool.and_eq_true, decide_eq_true_eq, not_or, not_and,
        Bool.not_eq_true] at hb hl
      exact .inr ⟨rfl, hb.1, hl, fun ho => Nat.pos_of_ne_zero (hb.2 ho)⟩

theorem bet_nextSeat (i : Fin maxSeats) : (t.nextSeat i).bet = 0 := by
  rcases nextSeat_cases (t := t) i with h | ⟨h, -⟩ <;> rw [h]
  · rfl
  · exact bet_preparedSeat i

theorem totalBet_nextSeat (i : Fin maxSeats) : (t.nextSeat i).totalBet = 0 := by
  rcases nextSeat_cases (t := t) i with h | ⟨h, hl, -⟩ <;> rw [h]
  · rfl
  · unfold preparedSeat at hl ⊢
    cases hs : t.seats i <;> rw [hs] at hl
    · rfl
    · rfl
    · rfl
    · cases hl

/-- A seat keeps its stack and its addon, or takes them along. -/
theorem chips_nextSeat (i : Fin maxSeats) :
    (t.nextSeat i).chips +
        (if t.leaves i then (t.seats i).stack + (t.seats i).pendingAddon else 0) =
      (t.seats i).stack + (t.seats i).pendingAddon := by
  unfold nextSeat
  by_cases hl : t.leaves i = true
  · rw [if_pos hl, if_pos hl]
    exact Nat.zero_add _
  · rw [if_neg hl, if_neg hl, Nat.add_zero]
    split
    · rename_i hb
      rw [← stack_preparedSeat i]
      simp only [Bool.or_eq_true, Bool.and_eq_true, decide_eq_true_eq] at hb
      rcases hb with hb | hb
      · cases hs : t.preparedSeat i <;> rw [hs] at hb <;> first | rfl | cases hb
      · rw [hb.2]
        rfl
    · rw [Seat.chips, stack_preparedSeat, pendingAddon_preparedSeat, bet_preparedSeat]
      rfl

/-! ## Collected bets -/

theorem seatSum_collected_of_eq {g : Seat G → ℕ} (h : ∀ s, g s.clearBet = g s) :
    t.collected.seatSum g = t.seatSum g :=
  seatSum_congr fun i => h (t.seats i)

theorem sumBets_collected : t.collected.sumBets = 0 := by
  rw [sumBets_eq, seatSum_eq_zero_iff]
  intro i
  change (t.seats i).clearBet.bet = 0
  cases t.seats i <;> rfl

theorem sumTotalBets_collected : t.collected.sumTotalBets = t.sumTotalBets := by
  rw [sumTotalBets_eq, sumTotalBets_eq]
  exact seatSum_collected_of_eq fun s => by cases s <;> rfl

theorem held_collected : t.collected.held = t.held := by
  have hs : t.collected.seatSum Seat.stack = t.seatSum Seat.stack :=
    seatSum_collected_of_eq fun s => by cases s <;> rfl
  have ha : t.collected.seatSum Seat.pendingAddon = t.seatSum Seat.pendingAddon :=
    seatSum_collected_of_eq fun s => by cases s <;> rfl
  have hp : t.collected.pot = t.pot + t.sumBets := rfl
  rw [held, held, sumStacks_eq, sumPendingAddons_eq, sumBets_collected, hs, ha, hp,
    sumStacks_eq, sumPendingAddons_eq]
  omega

theorem wagers_collected : t.collected.wagers = t.wagers := by
  rw [wagers, sumBets_collected]
  rfl

theorem wagersMatch_collected : t.collected.WagersMatch ↔ t.WagersMatch := by
  rw [WagersMatch, WagersMatch, wagers_collected, sumTotalBets_collected]

/-! ## The table after a hand -/

variable [AddCommGroup G] [Protocol G] [DecidableEq G]

theorem held_afterHand : t.afterHand.held + t.leaveRefund + t.wagers = t.held := by
  have hseats : t.afterHand.seatSum Seat.chips = ∑ i, (t.nextSeat i).chips := rfl
  have hpot : t.afterHand.pot = 0 := rfl
  have hsum : (∑ i, (t.nextSeat i).chips) + t.leaveRefund =
      t.seatSum Seat.stack + t.seatSum Seat.pendingAddon := by
    rw [leaveRefund_eq, ← Finset.sum_add_distrib, seatSum, seatSum, ← Finset.sum_add_distrib]
    exact Finset.sum_congr rfl fun i _ => chips_nextSeat i
  rw [held_eq, hseats, hpot, held, wagers, sumStacks_eq, sumPendingAddons_eq]
  omega

theorem sumBets_afterHand : t.afterHand.sumBets = 0 := by
  rw [sumBets_eq, seatSum_eq_zero_iff]
  exact bet_nextSeat

theorem sumTotalBets_afterHand : t.afterHand.sumTotalBets = 0 := by
  rw [sumTotalBets_eq, seatSum_eq_zero_iff]
  exact totalBet_nextSeat

theorem wagers_afterHand : t.afterHand.wagers = 0 := by
  rw [wagers, sumBets_afterHand]
  rfl

theorem wagersMatch_afterHand : t.afterHand.WagersMatch := by
  rw [WagersMatch, wagers_afterHand, sumTotalBets_afterHand]

end TexasPokerTable

namespace Exec

variable {s s' : Exec G}

theorem collectBetsToPot_flow (h : s.collectBetsToPot = .ok s') : Flow s s' 0 0 0 := by
  obtain ⟨ht, hr, hd, hk⟩ := collectBetsToPot_eq_ok h
  have hp : s'.table.chipPool = s.table.chipPool := by rw [ht]; rfl
  have hh : s'.table.held = s.table.held := by rw [ht, TexasPokerTable.held_collected]
  constructor <;> omega

/-! ## Payments of a reset -/

theorem mergeAddons_payments : s.SamePayments s.mergeAddons := by
  refine .of_events rfl fun e he => ?_
  obtain ⟨i, -, rfl⟩ := List.mem_map.mp he
  exact ⟨rfl, rfl, rfl⟩

theorem removeLeaver_payments (i : Fin maxSeats) :
    (s.removeLeaver i).refunded =
        s.refunded + ((s.table.seats i).stack + (s.table.seats i).pendingAddon) ∧
      (s.removeLeaver i).deposited = s.deposited ∧ (s.removeLeaver i).raked = s.raked := by
  by_cases h : 0 < (s.table.seats i).stack + (s.table.seats i).pendingAddon
  · simp [removeLeaver, refunded, deposited, raked, h, TexasPokerEvent.refund,
      TexasPokerEvent.deposit, TexasPokerEvent.rake]
  · have hz : (s.table.seats i).stack + (s.table.seats i).pendingAddon = 0 := by omega
    simp [removeLeaver, refunded, deposited, raked, hz, TexasPokerEvent.refund,
      TexasPokerEvent.deposit, TexasPokerEvent.rake]

theorem foldl_removeLeaver_payments {l : List (Fin maxSeats)} (hl : l.Nodup) :
    (l.foldl removeLeaver s).refunded = s.refunded +
        (l.map fun i => (s.table.seats i).stack + (s.table.seats i).pendingAddon).sum ∧
      (l.foldl removeLeaver s).deposited = s.deposited ∧
      (l.foldl removeLeaver s).raked = s.raked := by
  induction l generalizing s with
  | nil => exact ⟨rfl, rfl, rfl⟩
  | cons i l ih =>
    obtain ⟨hi, hl⟩ := List.nodup_cons.mp hl
    obtain ⟨hr, hd, hk⟩ := removeLeaver_payments (s := s) i
    obtain ⟨hr', hd', hk'⟩ := ih (s := s.removeLeaver i) hl
    have hrest : (l.map fun j => ((s.removeLeaver i).table.seats j).stack +
          ((s.removeLeaver i).table.seats j).pendingAddon) =
        l.map fun j => (s.table.seats j).stack + (s.table.seats j).pendingAddon := by
      refine List.map_congr_left fun j hj => ?_
      have hne : j.1 ≠ i.1 := fun he => hi (Fin.ext he ▸ hj)
      have : (s.removeLeaver i).table.seats j = s.table.seats j :=
        TexasPokerTable.seats_setSeat_of_ne hne _
      rw [this]
    rw [List.foldl_cons, hr', hd', hk', hd, hk, hr, hrest, List.map_cons, List.sum_cons]
    exact ⟨by omega, rfl, rfl⟩

theorem foldl_removeBusted_payments {l : List (Fin maxSeats)} :
    s.SamePayments (l.foldl removeBusted s) := by
  induction l generalizing s with
  | nil => exact .refl s
  | cons i l ih =>
    have h : s.SamePayments (s.removeBusted i) := .of_event rfl ⟨rfl, rfl, rfl⟩
    exact h.trans ih

variable [AddCommGroup G] [Protocol G] [DecidableEq G]

theorem resetForNextHand_payments (h : s.resetForNextHand = .ok s') :
    s'.refunded = s.refunded + s.table.leaveRefund ∧ s'.deposited = s.deposited ∧
      s'.raked = s.raked := by
  simp only [resetForNextHand, Fallible.bind_eq_ok] at h
  obtain ⟨post, -, h⟩ := h
  cases h
  have hm : s.SamePayments s.mergeAddons.prepareSeats := mergeAddons_payments.trans ⟨rfl, rfl, rfl⟩
  have hn : s.table.leavingSeats.Nodup := (List.nodup_finRange maxSeats).filter _
  obtain ⟨hr, hd, hk⟩ := foldl_removeLeaver_payments (s := s.mergeAddons.prepareSeats) hn
  have hrefund : (s.table.leavingSeats.map fun i =>
        (s.mergeAddons.prepareSeats.table.seats i).stack +
          (s.mergeAddons.prepareSeats.table.seats i).pendingAddon).sum = s.table.leaveRefund := by
    refine congrArg List.sum (List.map_congr_left fun i _ => ?_)
    have : s.mergeAddons.prepareSeats.table.seats i = s.table.preparedSeat i := rfl
    rw [this, TexasPokerTable.stack_preparedSeat, TexasPokerTable.pendingAddon_preparedSeat]
    rfl
  rw [hrefund] at hr
  generalize s.table.leavingSeats.foldl removeLeaver s.mergeAddons.prepareSeats = q at hr hd hk ⊢
  have hb := foldl_removeBusted_payments (s := q.withTable { q.table with chipPool := post })
    (l := ({ q.table with chipPool := post } : TexasPokerTable G).bustedSeats)
  refine ⟨?_, ?_, ?_⟩
  · exact hb.refunded.trans (hr.trans (by rw [hm.refunded]))
  · exact hb.deposited.trans (hd.trans hm.deposited)
  · exact hb.raked.trans (hk.trans hm.raked)

/-- A reset loses the chips in play. -/
theorem resetForNextHand_loses (h : s.resetForNextHand = .ok s') :
    Loses s s' s.table.wagers ∧ s'.table.Settled := by
  obtain ⟨hle, ht⟩ := resetForNextHand_table h
  obtain ⟨hr, hd, hk⟩ := resetForNextHand_payments h
  have hh := TexasPokerTable.held_afterHand (t := s.table)
  have hp : s'.table.chipPool = s.table.chipPool - s.table.leaveRefund := by rw [ht]; rfl
  have hw : s'.table.Settled := by
    rw [ht]
    exact ⟨rfl, TexasPokerTable.wagers_afterHand⟩
  rw [← ht] at hh
  refine ⟨⟨by constructor <;> omega, fun _ => ?_⟩, hw⟩
  rw [ht]
  exact TexasPokerTable.wagersMatch_afterHand

/-! ## The last unfolded player -/

omit [AddCommGroup G] [Protocol G] [DecidableEq G]

theorem soleSurvivor_eq_none {t : TexasPokerTable G} :
    soleSurvivor t = none ↔ t.countActivePlayers = 0 := by
  rw [soleSurvivor, List.find?_eq_none, TexasPokerTable.countActivePlayers, List.countP_eq_zero]

theorem isLive_of_soleSurvivor {t : TexasPokerTable G} {winner : Fin maxSeats}
    (h : soleSurvivor t = some winner) : (t.seats winner).isLive = true := by
  simpa using List.find?_some h

/-- Awarding the pot moves it to a stack; without a survivor it stays. -/
theorem awardSurvivor_flow (h : s.awardSurvivor = .ok s') :
    Flow s s' 0 0 0 ∧ s'.table.sumBets = s.table.sumBets ∧
      s'.table.pot = if s.table.countActivePlayers = 0 then s.table.pot else 0 := by
  obtain ⟨⟨hr, hd, hk⟩, ⟨hnone, rfl⟩ | ⟨winner, seat, hw, hs, ht⟩⟩ := awardSurvivor_eq_ok h
  · rw [if_pos (soleSurvivor_eq_none.mp hnone)]
    exact ⟨.refl _, rfl, rfl⟩
  · have hne : s.table.countActivePlayers ≠ 0 := fun h0 => by
      rw [soleSurvivor_eq_none.mpr h0] at hw
      cases hw
    obtain ⟨hstack, hrest⟩ := Seat.setStack_eq_ok hs
    have hchips : seat.chips = (s.table.seats winner).chips + s.table.pot := by
      simp only [Seat.chips, hstack, hrest.addon, hrest.bet]
      omega
    have hsum := TexasPokerTable.seatSum_setSeat (t := s.table) (g := Seat.chips) winner seat
    have hheld : s'.table.held = s.table.held := by
      have hc : s'.table.seatSum Seat.chips = (s.table.setSeat winner seat).seatSum Seat.chips := by
        rw [ht]; rfl
      have hp : s'.table.pot = 0 := by rw [ht]
      rw [TexasPokerTable.held_eq, TexasPokerTable.held_eq, hc, hp]
      omega
    have hpool : s'.table.chipPool = s.table.chipPool := by rw [ht]; rfl
    refine ⟨by constructor <;> omega, ?_, ?_⟩
    · rw [ht, TexasPokerTable.sumBets_eq, TexasPokerTable.sumBets_eq]
      exact TexasPokerTable.seatSum_setSeat_of_eq (g := Seat.bet) hrest.bet
    · rw [if_neg hne, ht]

theorem countActivePlayers_collected {t : TexasPokerTable G} :
    t.collected.countActivePlayers = t.countActivePlayers := by
  refine List.countP_congr fun i _ => ?_
  change (t.seats i).clearBet.isLive = true ↔ (t.seats i).isLive = true
  cases t.seats i <;> rfl

variable [AddCommGroup G] [Protocol G] [DecidableEq G]

/-- A hand that ends without a showdown loses its chips only when nobody is left to win them. -/
theorem endWithoutShowdown_loses (h : s.endWithoutShowdown = .ok s') :
    Loses s s' (if s.table.countActivePlayers = 0 then s.table.wagers else 0) ∧
      s'.table.Settled := by
  simp only [endWithoutShowdown, Fallible.bind_eq_ok] at h
  obtain ⟨c, hc, a, ha, hr⟩ := h
  obtain ⟨hct, -⟩ := collectBetsToPot_eq_ok hc
  obtain ⟨haf, hbets, hpot⟩ := awardSurvivor_flow ha
  obtain ⟨⟨hrf, -⟩, hrw⟩ := resetForNextHand_loses hr
  have hflow := (hrf.after haf).after (collectBetsToPot_flow hc)
  have hlost : a.table.wagers = if s.table.countActivePlayers = 0 then s.table.wagers else 0 := by
    rw [TexasPokerTable.wagers, hbets, hpot, hct, TexasPokerTable.sumBets_collected,
      countActivePlayers_collected]
    split <;> rfl
  rw [hlost] at hflow
  refine ⟨⟨hflow, fun _ => ?_⟩, hrw⟩
  rw [(resetForNextHand_table hr).2]
  exact TexasPokerTable.wagersMatch_afterHand

/-! ## Refunds -/

omit [AddCommGroup G] [Protocol G] [DecidableEq G]

theorem chips_refundedSeat (seat : Seat G) :
    (refundedSeat seat).chips + seat.bet + seat.forfeit = seat.chips + seat.totalBet := by
  cases seat with
  | playing p =>
    cases hs : p.status <;>
      simp [refundedSeat, Seat.chips, Seat.forfeit, Seat.stack, Seat.pendingAddon, Seat.bet,
        Seat.totalBet, Seat.isFolded, Seat.hasLeftHand, Seat.status, hs] <;> omega
  | vacant _ => rfl
  | waiting _ => rfl
  | departedThisHand _ _ _ => simp [refundedSeat, Seat.chips, Seat.forfeit, Seat.stack,
      Seat.pendingAddon, Seat.bet, Seat.totalBet, Seat.hasLeftHand]

/-- A refund loses the contributions of the folded and departed players. -/
theorem refundAllBets_loses (h : s.refundAllBets = .ok s') (hw : s.table.WagersMatch) :
    Loses s s' (s.table.seatSum Seat.forfeit) ∧ s'.table.wagers = 0 := by
  obtain ⟨ht, hr, hd, hk⟩ := refundAllBets_eq_ok h
  have hseats (g : Seat G → ℕ) : s'.table.seatSum g = s.table.seatSum fun x => g (refundedSeat x) := by
    rw [ht]; rfl
  have hpot : s'.table.pot = 0 := by rw [ht]
  have hpool : s'.table.chipPool = s.table.chipPool := by rw [ht]; rfl
  have hsum : s'.table.seatSum Seat.chips + s.table.seatSum Seat.bet + s.table.seatSum Seat.forfeit =
      s.table.seatSum Seat.chips + s.table.seatSum Seat.totalBet := by
    rw [hseats]
    simp only [TexasPokerTable.seatSum, ← Finset.sum_add_distrib, chips_refundedSeat]
  have hheld : s'.table.held + s.table.seatSum Seat.forfeit = s.table.held := by
    rw [TexasPokerTable.WagersMatch, TexasPokerTable.wagers, TexasPokerTable.sumBets_eq,
      TexasPokerTable.sumTotalBets_eq] at hw
    rw [TexasPokerTable.held_eq, TexasPokerTable.held_eq, hpot]
    omega
  have hwagers : s'.table.wagers = 0 := by
    rw [TexasPokerTable.wagers, hpot, TexasPokerTable.sumBets_eq, hseats, Nat.zero_add,
      TexasPokerTable.seatSum_eq_zero_iff]
    intro i
    cases s.table.seats i <;> rfl
  have htotals : s'.table.sumTotalBets = 0 := by
    rw [TexasPokerTable.sumTotalBets_eq, hseats, TexasPokerTable.seatSum_eq_zero_iff]
    intro i
    cases s.table.seats i <;> rfl
  exact ⟨⟨by constructor <;> omega, fun _ => hwagers.trans htotals.symm⟩, hwagers⟩

end Exec

end TexasPoker
