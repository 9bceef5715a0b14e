import TexasPoker.Machine.Queries
import TexasPoker.Settlement.Validity

/-! # Fold wins

When the plan of a fold win exists, and what it pays.
-/

namespace TexasPoker

open SettlementPlan

/-- The plan that pays a pot, after its rake, to one seat. -/
def foldWinPlan (winner grossPot rake : ℕ) : SettlementPlan :=
  let net := grossPot - rake
  let winnerBit := seatMaskBit winner
  let awards := SeatAmounts.zero.put winner net
  let runout : RunoutPotPlan := ⟨net, winnerBit, fun _ => none, awards⟩
  let plan : SettlementPlan :=
    { version := settlementPlanVersion, schedule := .single, grossPot, rake,
      totalAwards := net, winnerMask := winnerBit, awards, potCount := 1,
      pots := fun _ => .inactive }
  plan.putPot 0 ⟨0, grossPot, rake, net, winnerBit, fun r => if r.1 = 0 then runout else .inactive⟩

theorem computeRake_le {rules : TableRules} {gross rake : ℕ}
    (h : computeRake rules gross = .ok rake) : rake ≤ gross := by
  unfold computeRake at h
  split at h
  · cases h
    exact Nat.zero_le _
  split at h
  · cases h
    exact min_le_right _ _
  · cases h

/-- The only layer of a fold win. -/
def foldWinPot (winner grossPot rake : ℕ) : SettlementPotPlan :=
  ⟨0, grossPot, rake, grossPot - rake, seatMaskBit winner, fun r =>
    if r.1 = 0 then
      ⟨grossPot - rake, seatMaskBit winner, fun _ => none,
        SeatAmounts.zero.put winner (grossPot - rake)⟩
    else .inactive⟩

section Plan

variable {winner gross rake n : ℕ}

theorem foldWinPlan_activePots :
    (foldWinPlan winner gross rake).activePots = [foldWinPot winner gross rake] := rfl

theorem sum_put_zero (hw : winner < maxSeats) {amount : ℕ} :
    (SeatAmounts.zero.put winner amount).sum = amount := by
  have := SeatAmounts.sum_put (a := .zero) amount ⟨winner, hw⟩ rfl
  simpa using this

theorem foldWinPot_settled (hrake : rake ≤ gross) (hn : n ≤ maxSeats) (hw : winner < n) :
    (foldWinPot winner gross rake).Settled .single n 0 := by
  have hw16 : winner < 16 := hw.trans_le (hn.trans (by decide))
  have hcount : seatMaskCount (seatMaskBit winner) = 1 := Mask.size_single hw16
  have hmem : Mask.mem (seatMaskBit winner) winner = true := by
    simp [seatMaskBit, hw16]
  have hcontested : (foldWinPot winner gross rake).isContested = false := by
    simp [SettlementPotPlan.isContested, foldWinPot, hcount]
  refine ⟨rfl, ?_, ⟨hrake, rfl⟩, ?_, fun r => ?_, ?_⟩
  · rw [and_not_validSeatMask hn]
    intro j hj
    simp only [foldWinPot, seatMaskBit, Mask.mem_single, decide_eq_true_eq] at hj
    omega
  · simp [foldWinPot, hcount]
  · unfold SettlementPotPlan.RunoutValid SettlementPotPlan.activeRunouts
    rw [hcontested]
    match r with
    | 0 =>
      refine ⟨?_, ?_, .inr ⟨rfl, rfl, fun _ => rfl⟩, sum_put_zero (hw.trans_le hn)⟩
      · simpa [RunoutPotPlan.isActive, foldWinPot] using Mask.ne_zero_iff.mpr ⟨_, hmem⟩
      · simp [foldWinPot]
    | 1 => rfl
  · rfl

/-- A plan for one winner is valid exactly when the winner has a seat. -/
theorem validate_foldWinPlan (hrake : rake ≤ gross) (hn : n ≤ maxSeats) (hgross : gross ≤ u64Max) :
    (foldWinPlan winner gross rake).validate n = .ok () ↔ winner < n := by
  constructor
  · intro h
    have hset := (valid_of_validate h).settled
    rw [foldWinPlan_activePots] at hset
    have hpot := hset (foldWinPot winner gross rake, 0) (by simp)
    have hne := Mask.ne_zero_iff.mp fun h0 => hpot.eligible (Mask.size_eq_zero_iff.mpr h0)
    obtain ⟨j, hj⟩ := hne
    have := (and_not_validSeatMask hn).mp hpot.seats j hj
    simp only [foldWinPot, seatMaskBit, Mask.mem_single, decide_eq_true_eq] at hj
    omega
  · intro hw
    refine validate_of_valid (p := foldWinPlan winner gross rake) ?_ hgross
    have hw16 : winner < 16 := hw.trans_le (hn.trans (by decide))
    refine ⟨rfl, show 1 ≤ maxSeats by decide, hn, fun i hi => ?_, ⟨hrake, rfl⟩, ?_, ?_, ?_,
      fun i hi => ?_, fun i hi => ?_⟩
    · have : i.1 ≠ 0 := by
        have : 1 ≤ i.1 := hi
        omega
      exact if_neg this
    · rw [foldWinPlan_activePots]
      intro e he
      rw [List.zipIdx_singleton, List.mem_singleton] at he
      rw [he]
      exact foldWinPot_settled hrake hn hw
    · rw [foldWinPlan_activePots]
      simp [Totals.none, Totals.addPot, SettlementPotPlan.awards, SettlementPotPlan.winnerMask,
        foldWinPot, foldWinPlan, RunoutPotPlan.inactive, SeatAmounts.zero, SettlementPlan.putPot]
    · exact (foldWinPot_settled hrake hn hw).seats
    · have : i.1 = winner := by
        by_contra hne
        exact hi.ne' (SeatAmounts.put_of_ne hne)
      change Mask.mem (seatMaskBit winner) i = true
      simp [seatMaskBit, this, hw16]
    · exact SeatAmounts.put_of_ne (by omega)

end Plan

namespace TexasPokerTable

variable {G : Type} (t : TexasPokerTable G)

/-- The rake of a fold win: none before the flop. -/
def foldWinRake (winner : ℕ) : PokerL1Result ℕ :=
  if 3 ≤ t.communityCards.len then computeRake t.rules (t.sumTotalBets - t.uncalledBet winner)
  else .ok 0

theorem foldWinRake_le {t : TexasPokerTable G} {winner rake : ℕ}
    (h : t.foldWinRake winner = .ok rake) : rake ≤ t.sumTotalBets := by
  unfold foldWinRake at h
  split at h
  · exact (computeRake_le h).trans (Nat.sub_le _ _)
  · cases h
    exact Nat.zero_le _

/-- A fold win has a plan exactly when one seat is unfolded, the pot holds the bets, and the
rake mode is known. -/
theorem deriveFoldWinPlan_eq_ok {t : TexasPokerTable G} {plan : SettlementPlan} :
    t.deriveFoldWinPlan = .ok plan ↔
      t.rules.maxPlayers ≤ maxSeats ∧ t.sumTotalBets ≤ maxTotalBet ∧ t.sumTotalBets = t.pot ∧
        ∃ winner rake, t.unfoldedSeats = [winner] ∧ winner < t.rules.maxPlayers ∧
          t.foldWinRake winner = .ok rake ∧ plan = foldWinPlan winner t.pot rake := by
  have hsum : (List.ofFn fun i => (t.seats i).totalBet).sum = t.sumTotalBets := rfl
  have hu : maxTotalBet ≤ u64Max := by decide
  unfold deriveFoldWinPlan
  rcases hw : t.unfoldedSeats with _ | ⟨winner, _ | ⟨next, rest⟩⟩
  · simp
  · have hrake (f : ℕ → PokerL1Result SettlementPlan) :
        (if 3 ≤ t.communityCards.len then do
          let rake ← computeRake t.rules (t.sumTotalBets - t.uncalledBet winner)
          f rake
        else do
          let rake ← pure 0
          f rake) = t.foldWinRake winner >>= f := by
      unfold foldWinRake
      split <;> rfl
    simp only [Fallible.bind_eq_ok, Fallible.ensure_eq_ok, Fallible.checkedSum_eq_ok, hsum,
      Fallible.pure_eq_ok]
    constructor
    · rintro ⟨-, hn, _, rfl, gross, ⟨-, rfl⟩, -, ⟨hmax, hpot⟩, h⟩
      rw [hrake] at h
      simp only [Fallible.bind_eq_ok, Fallible.checkedSub_eq_ok, Fallible.pure_eq_ok] at h
      obtain ⟨rake, hr, _, ⟨hle, rfl⟩, _, hv, rfl⟩ := h
      refine ⟨hn, hmax, hpot, winner, rake, rfl, ?_, hr, by rw [← hpot]; rfl⟩
      exact (validate_foldWinPlan hle hn (hmax.trans hu)).mp hv
    · rintro ⟨hn, hmax, hpot, winner', rake, hw', hlt, hr, rfl⟩
      obtain rfl : winner = winner' := by simpa using hw'
      have hle := foldWinRake_le hr
      refine ⟨(), hn, winner, rfl, _, ⟨hmax.trans hu, rfl⟩, (), ⟨hmax, hpot⟩, ?_⟩
      rw [hrake]
      simp only [Fallible.bind_eq_ok, Fallible.checkedSub_eq_ok, Fallible.pure_eq_ok]
      refine ⟨rake, hr, _, ⟨hle, rfl⟩, (), ?_, by rw [← hpot]; rfl⟩
      exact (validate_foldWinPlan hle hn (hmax.trans hu)).mpr hlt
  · simp

end TexasPokerTable

end TexasPoker
