import TexasPoker.Invariants.Stored
import TexasPoker.Settlement.FoldWin
import TexasPoker.Vault.Custody

/-! # Two payouts of the last fold

A hand that a fold ends is paid by the table itself and by the plan made for the chain. The two
agree when the plan takes no rake and nobody waits at the table.
-/

namespace TexasPoker

variable {G : Type}

theorem foldl_max_le {l : List ℕ} {a b : ℕ} : l.foldl max a ≤ b ↔ a ≤ b ∧ ∀ x ∈ l, x ≤ b := by
  induction l generalizing a with
  | nil => simp
  | cons x l ih =>
    rw [List.foldl_cons, ih, max_le_iff, List.forall_mem_cons, and_assoc]

theorem Seat.isLive_iff {x : Seat G} (h : x.isWaiting = false) :
    (x.isOccupied && !x.isFolded && !x.hasLeftHand) = x.isLive := by
  cases x <;> simp_all [isLive, isOccupied, isWaiting, hasLeftHand, isFolded, status]

theorem Seat.playing_of_isLive {x : Seat G} (h : x.isLive = true) : ∃ p, x = .playing p := by
  cases x with
  | playing p => exact ⟨p, rfl⟩
  | vacant _ | waiting _ | departedThisHand _ _ _ => cases h

namespace TexasPokerTable

variable {t t' : TexasPokerTable G}

/-- The largest contribution of the other seats. -/
def largestOther (t : TexasPokerTable G) (i : Fin maxSeats) : ℕ :=
  ((List.finRange maxSeats).map fun j => if j = i then 0 else (t.seats j).totalBet).foldl max 0

/-- The contributions without what a live seat put above everybody else. -/
def calledChips (t : TexasPokerTable G) : ℕ :=
  t.sumTotalBets - ∑ i, if (t.seats i).isLive then (t.seats i).totalBet - t.largestOther i else 0

/-- The plan of a fold win takes nothing. -/
def RakeFree (t : TexasPokerTable G) : Prop :=
  t.communityCards.len < 3 ∨ t.rules.rakeMode = rakeModeNone ∨
    t.calledChips * t.rules.rakeBps < 10000 ∨ t.rules.rakeCap = 0

instance : Decidable t.RakeFree := inferInstanceAs (Decidable (_ ∨ _))

theorem uncalledBet_eq (w : Fin maxSeats) :
    t.uncalledBet w = (t.seats w).totalBet - t.largestOther w := by
  rw [uncalledBet, seat_val]
  refine congrArg _ (eq_of_forall_ge_iff fun b => ?_)
  rw [foldl_max_le, largestOther, foldl_max_le]
  simp only [Nat.zero_le, true_and, List.forall_mem_map, List.mem_filter, List.mem_range,
    List.mem_finRange, true_imp_iff, decide_eq_true_eq]
  constructor
  · intro h j
    split
    · exact Nat.zero_le b
    · rename_i hj
      have := h j ⟨j.isLt, fun he => hj (Fin.ext he)⟩
      rwa [seat_val] at this
  · rintro h j ⟨hlt, hj⟩
    have := h ⟨j, hlt⟩
    rwa [if_neg fun he => hj (congrArg Fin.val he), ← seat_val] at this

/-- The last player. -/
structure LastPlayer (t : TexasPokerTable G) (w : Fin maxSeats) : Prop where
  live : (t.seats w).isLive = true
  only : ∀ i, (t.seats i).isLive = true → i = w

theorem exists_lastPlayer (h : t.countActivePlayers = 1) : ∃ w, t.LastPlayer w := by
  rw [countActivePlayers, List.countP_eq_length_filter, List.length_eq_one_iff] at h
  obtain ⟨w, hw⟩ := h
  have hmem {i : Fin maxSeats} : (t.seats i).isLive = true ↔ i = w := by
    rw [← List.mem_singleton (a := i), ← hw, List.mem_filter]
    simp
  exact ⟨w, hmem.mpr rfl, fun i => hmem.mp⟩

variable {w : Fin maxSeats}

theorem LastPlayer.calledChips (h : t.LastPlayer w) :
    t.calledChips = t.sumTotalBets - t.uncalledBet w := by
  rw [TexasPokerTable.calledChips, uncalledBet_eq, Finset.sum_eq_single w, if_pos h.live]
  · exact fun i _ hi => if_neg fun hl => hi (h.only i hl)
  · exact fun hn => absurd (Finset.mem_univ w) hn

theorem LastPlayer.unfoldedSeats (h : t.LastPlayer w)
    (hn : ∀ i, (t.seats i).isWaiting = false) : t.unfoldedSeats = [w.1] := by
  have hfilter : (List.finRange maxSeats).filter (fun i => (t.seats i).isLive) = [w] := by
    have hone : (List.finRange maxSeats).filter (fun i => (t.seats i).isLive) =
        (List.finRange maxSeats).filter fun i => i == w := by
      refine List.filter_congr fun i _ => ?_
      rw [Bool.eq_iff_iff, beq_iff_eq]
      exact ⟨h.only i, fun hi => hi ▸ h.live⟩
    rw [hone, List.filter_beq, List.count_eq_one_of_mem (List.nodup_finRange _)
      (List.mem_finRange w)]
    rfl
  rw [TexasPokerTable.unfoldedSeats]
  simp only [Seat.isLive_iff (hn _), hfilter, List.map_cons, List.map_nil]

theorem LastPlayer.soleSurvivor (h : t.LastPlayer w) : Exec.soleSurvivor t = some w := by
  obtain ⟨j, hj⟩ : ∃ j, Exec.soleSurvivor t = some j := by
    rw [← Option.isSome_iff_exists, Exec.soleSurvivor, List.find?_isSome]
    exact ⟨w, List.mem_finRange w, h.live⟩
  rw [hj, h.only j (Exec.isLive_of_soleSurvivor hj)]

theorem computeRake_eq_zero {rules : TableRules} {gross : ℕ}
    (hr : rules.rakeMode = rakeModeNone ∨ rules.rakeMode = rakeModePercentage) :
    computeRake rules gross = .ok 0 ↔
      rules.rakeMode = rakeModeNone ∨ gross * rules.rakeBps < 10000 ∨ rules.rakeCap = 0 := by
  unfold computeRake
  by_cases hnone : rules.rakeMode = rakeModeNone
  · simp [hnone]
  rw [if_neg hnone, if_pos (hr.resolve_left hnone), Except.ok.injEq, Nat.min_eq_zero_iff,
    Nat.min_eq_zero_iff, Nat.div_eq_zero_iff]
  have hzero : gross = 0 → gross * rules.rakeBps < 10000 := by
    rintro rfl
    rw [Nat.zero_mul]
    decide
  constructor
  · rintro (((h | h) | h) | h)
    · cases h
    · exact .inr (.inl h)
    · exact .inr (.inr h)
    · exact .inr (.inl (hzero h))
  · rintro (h | h | h)
    · exact absurd h hnone
    · exact .inl (.inl (.inr h))
    · exact .inl (.inr h)

theorem foldWinRake_eq_zero (h : t.LastPlayer w)
    (hr : t.rules.rakeMode = rakeModeNone ∨ t.rules.rakeMode = rakeModePercentage) :
    t.foldWinRake w = .ok 0 ↔ t.RakeFree := by
  unfold foldWinRake RakeFree
  rw [← h.calledChips]
  split
  · rename_i hflop
    rw [computeRake_eq_zero hr, or_iff_right (by omega : ¬ t.communityCards.len < 3)]
  · rename_i hflop
    simp [not_le.mp hflop]

theorem mem_unfoldedSeats_iff_live {i : Fin maxSeats} :
    i.1 ∈ t.unfoldedSeats ↔ (t.seats i).isLive = true ∨ (t.seats i).isWaiting = true := by
  have hseat (x : Seat G) : (x.isOccupied && !x.isFolded && !x.hasLeftHand) = true ↔
      x.isLive = true ∨ x.isWaiting = true := by
    cases x <;> simp [Seat.isLive, Seat.isOccupied, Seat.isWaiting, Seat.hasLeftHand, Seat.isFolded,
      Seat.status]
  rw [TexasPokerTable.unfoldedSeats, ← hseat, List.mem_map]
  constructor
  · rintro ⟨j, hj, hij⟩
    rw [← Fin.ext hij]
    exact (List.mem_filter.mp hj).2
  · exact fun h => ⟨i, List.mem_filter.mpr ⟨List.mem_finRange i, h⟩, rfl⟩

theorem isLive_collected (i : Fin maxSeats) : (t.collected.seats i).isLive = (t.seats i).isLive := by
  change (t.seats i).clearBet.isLive = _
  cases t.seats i <;> rfl

theorem isWaiting_collected (i : Fin maxSeats) :
    (t.collected.seats i).isWaiting = (t.seats i).isWaiting := by
  change (t.seats i).clearBet.isWaiting = _
  cases t.seats i <;> rfl

theorem totalBet_collected (i : Fin maxSeats) :
    (t.collected.seats i).totalBet = (t.seats i).totalBet := by
  change (t.seats i).clearBet.totalBet = _
  cases t.seats i <;> rfl

theorem LastPlayer.collected (h : t.LastPlayer w) : t.collected.LastPlayer w :=
  ⟨by rw [isLive_collected, h.live], fun i hi => h.only i (by rwa [← isLive_collected])⟩

theorem rakeFree_collected : t.collected.RakeFree ↔ t.RakeFree := by
  have hcalled : t.collected.calledChips = t.calledChips := by
    simp only [TexasPokerTable.calledChips, largestOther, sumTotalBets_collected, isLive_collected,
      totalBet_collected]
  rw [RakeFree, hcalled]
  rfl

end TexasPokerTable

namespace Exec

open TexasPokerTable

variable {s m s' : Exec G}

theorem exists_collectBetsToPot (hc : s.table.Custody) :
    ∃ c, s.collectBetsToPot = .ok c ∧ c.table = s.table.collected := by
  have hle : s.table.pot + s.table.sumBets ≤ u64Max := by
    have hheld := hc.held
    have hpool := hc.pool
    have hu : maxTotalBet ≤ u64Max := by decide
    rw [held] at hheld
    omega
  have hsum (e : PokerL1Error) :
      checkedSum (List.ofFn fun i => (s.table.seats i).bet) e = .ok s.table.sumBets :=
    Fallible.checkedSum_eq_ok.mpr ⟨(Nat.le_add_left ..).trans hle, rfl⟩
  have hadd (e : PokerL1Error) :
      checkedAdd s.table.pot s.table.sumBets e = .ok (s.table.pot + s.table.sumBets) :=
    Fallible.checkedAdd_eq_ok.mpr ⟨hle, rfl⟩
  obtain ⟨c, h⟩ : ∃ c, s.collectBetsToPot = .ok c := by
    rw [collectBetsToPot, hsum, Fallible.ok_bind, hadd, Fallible.ok_bind]
    by_cases h : (maskOf fun i => decide (0 < (s.table.seats i).bet)) ≠ 0
    · exact ⟨_, if_pos h⟩
    · exact ⟨_, if_neg h⟩
  exact ⟨c, h, (collectBetsToPot_eq_ok h).1⟩

theorem exists_awardSurvivor {w : Fin maxSeats} (hc : s.table.Custody)
    (hw : s.table.LastPlayer w) :
    ∃ a, s.awardSurvivor = .ok a ∧ a.table.chipPool = s.table.chipPool ∧
      (a.table.seats w).stack = (s.table.seats w).stack + s.table.pot ∧
      ∀ i ≠ w, a.table.seats i = s.table.seats i := by
  have hle : (s.table.seats w).stack + s.table.pot ≤ u64Max := by
    have hheld := hc.held
    have hpool := hc.pool
    have hu : maxTotalBet ≤ u64Max := by decide
    have hstack := le_seatSum (t := s.table) (g := Seat.stack) w
    rw [← sumStacks_eq] at hstack
    rw [held] at hheld
    omega
  obtain ⟨p, hp⟩ := Seat.playing_of_isLive hw.live
  have hadd (e : PokerL1Error) : checkedAdd (s.table.seats w).stack s.table.pot e =
      .ok ((s.table.seats w).stack + s.table.pot) :=
    Fallible.checkedAdd_eq_ok.mpr ⟨hle, rfl⟩
  obtain ⟨a, h⟩ : ∃ a, s.awardSurvivor = .ok a := by
    unfold awardSurvivor
    rw [hw.soleSurvivor]
    simp only
    rw [hadd, Fallible.ok_bind, hp]
    exact ⟨_, rfl⟩
  obtain ⟨-, ⟨hnone, -⟩ | ⟨w', seat, hw', hseat, ht⟩⟩ := awardSurvivor_eq_ok h
  · rw [hw.soleSurvivor] at hnone
    cases hnone
  · rw [hw.soleSurvivor, Option.some.injEq] at hw'
    subst hw'
    refine ⟨a, h, by rw [ht]; rfl, ?_, fun i hi => ?_⟩
    · rw [ht]
      change ((s.table.setSeat w seat).seats w).stack = _
      rw [seats_setSeat_self]
      exact (Seat.setStack_eq_ok hseat).1
    · rw [ht]
      exact seats_setSeat_of_ne (fun he => hi (Fin.ext he)) _

/-- The table pays the last player what the plan awards, and takes the plan's rake from the
pool. -/
def PaysAlike (m : Exec G) : Prop :=
  ∃ c a plan, m.collectBetsToPot = .ok c ∧ c.awardSurvivor = .ok a ∧
    c.table.deriveFoldWinPlan = .ok plan ∧
    (∀ i, (a.table.seats i).stack = (c.table.seats i).stack + plan.awards i) ∧
    a.table.chipPool + plan.rake = c.table.chipPool

/-- The two payouts agree exactly when the plan takes no rake and nobody waits at the table. -/
theorem paysAlike_iff_of_custody (hc : m.table.Custody)
    (hrules : m.table.rules.validateCanonical = .ok ()) (hone : m.table.countActivePlayers = 1) :
    PaysAlike m ↔ (∀ i, (m.table.seats i).isWaiting = false) ∧ m.table.RakeFree := by
  obtain ⟨w, hw⟩ := exists_lastPlayer hone
  obtain ⟨c, hcollect, hct⟩ := exists_collectBetsToPot hc
  obtain ⟨hcc, hbets⟩ := collectBetsToPot_custody hcollect hc
  have hwc : c.table.LastPlayer w := hct ▸ hw.collected
  obtain ⟨a, haward, hapool, hwon, hrest⟩ := exists_awardSurvivor hcc hwc
  simp only [TableRules.validateCanonical, Fallible.bind_eq_ok, Fallible.ensure_eq_ok] at hrules
  obtain ⟨_, ⟨-, hmax⟩, _, -, _, -, _, ⟨hmode, -⟩, -⟩ := hrules
  have hcr : c.table.rules = m.table.rules := by rw [hct]; rfl
  have hfree := foldWinRake_eq_zero hwc (by rwa [hcr])
  rw [show c.table.RakeFree ↔ m.table.RakeFree by rw [hct]; exact rakeFree_collected] at hfree
  have hwaits (i : Fin maxSeats) : (c.table.seats i).isWaiting = (m.table.seats i).isWaiting := by
    rw [hct]
    exact isWaiting_collected i
  constructor
  · rintro ⟨c', a', plan, hcollect', haward', hplan, -, hpool⟩
    rw [hcollect, Except.ok.injEq] at hcollect'
    subst hcollect'
    rw [haward, Except.ok.injEq] at haward'
    subst haward'
    obtain ⟨-, -, -, winner, rake, hunfolded, -, hrake, rfl⟩ := deriveFoldWinPlan_eq_ok.mp hplan
    have hone {i : Fin maxSeats} (hi : i.1 ∈ c.table.unfoldedSeats) : i.1 = winner := by
      rwa [hunfolded, List.mem_singleton] at hi
    have hwin : w.1 = winner := hone (mem_unfoldedSeats_iff_live.mpr (.inl hwc.live))
    have hzero : rake = 0 := by
      have hr : (foldWinPlan winner c.table.pot rake).rake = rake := rfl
      rw [hapool, hr] at hpool
      omega
    subst hwin hzero
    refine ⟨fun i => ?_, hfree.mp hrake⟩
    rw [← hwaits i, Bool.eq_false_iff]
    intro hi
    obtain rfl : i = w := Fin.ext (hone (mem_unfoldedSeats_iff_live.mpr (.inr hi)))
    obtain ⟨p, hp⟩ := Seat.playing_of_isLive hwc.live
    rw [hp] at hi
    cases hi
  · rintro ⟨hwait, hrake⟩
    refine ⟨c, a, foldWinPlan w.1 c.table.pot 0, hcollect, haward, ?_, fun i => ?_, by
      rw [hapool]; rfl⟩
    · have hpot : c.table.sumTotalBets = c.table.pot := by
        have hw := hcc.wagers
        rwa [WagersMatch, TexasPokerTable.wagers, hbets, Nat.add_zero, eq_comm] at hw
      refine deriveFoldWinPlan_eq_ok.mpr ⟨by rwa [hcr], ?_, hpot, w.1, 0,
        hwc.unfoldedSeats fun i => by rw [hwaits, hwait], ?_, hfree.mpr hrake, rfl⟩
      · have hheld := hcc.held
        have hpool := hcc.pool
        rw [TexasPokerTable.held] at hheld
        omega
      · by_contra hle
        have hvacant := hcc.padding w (not_lt.mp hle)
        obtain ⟨p, hp⟩ := Seat.playing_of_isLive hwc.live
        rw [hp] at hvacant
        cases hvacant
    · change _ = _ + SeatAmounts.zero.put w.1 (c.table.pot - 0) i
      by_cases hi : i = w
      · subst hi
        rw [hwon]
        simp [SeatAmounts.put]
      · rw [hrest i hi]
        simp [SeatAmounts.put, SeatAmounts.zero, Fin.val_inj, hi]

section Pays

variable [AddCommGroup G] [Protocol G] [DecidableEq G]

/-- An accepted fold out of `s` leaves a single player at `m`. -/
inductive LastFold (s m : Exec G) : Prop where
  | fold {s' : Exec G} {i reason : ℕ} : s.applyPlayerAction i (.fold reason) = .ok s' →
      s.foldSeat i reason = .ok m → m.table.countActivePlayers = 1 → LastFold s m
  | foldWithProof {s' : Exec G} {i : ℕ} {outputCards : List (ElGamalCiphertext G)}
      {encrypted : CipherDeck G} {proof : Protocol.LeaveProof G} :
      s.applyFoldWithProof i outputCards proof = .ok s' →
      CipherDeck.tryFrom outputCards = .ok encrypted →
      m = (s.withTable (foldedOut s.table i encrypted)).emit
        (.playerFolded s.table.id i foldReasonManual s.table.roundState) →
      m.table.countActivePlayers = 1 → LastFold s m

theorem LastFold.custody (h : LastFold s m) (hc : s.table.Custody) : m.table.Custody := by
  cases h with
  | fold haccept hfold =>
    simp only [applyPlayerAction, Fallible.bind_eq_ok, Fallible.ensure_eq_ok] at haccept
    obtain ⟨_, hi, _, -, _, hturn, -⟩ := haccept
    exact (Play.fold (of_decide_eq_true hturn) hi hfold).custody hc
  | foldWithProof haccept _ hm =>
    obtain ⟨_, _, _, hb, -⟩ := applyFoldWithProof_eq_ok haccept
    exact (PlainStep.foldOut hb (by rw [hm]; rfl)).custody hc

theorem LastFold.rules (h : LastFold s m) : m.table.rules = s.table.rules := by
  cases h with
  | fold _ hfold =>
    obtain ⟨-, -, ht, -⟩ := foldSeat_eq_ok hfold
    rw [ht]
    rfl
  | foldWithProof _ _ hm =>
    rw [hm]
    rfl

theorem LastFold.single (h : LastFold s m) : m.table.countActivePlayers = 1 := by
  cases h with
  | fold _ _ hone => exact hone
  | foldWithProof _ _ _ hone => exact hone

theorem LastFold.invariants (h : LastFold s m) (hs : s.table.Reachable) :
    m.table.Custody ∧ m.table.rules.validateCanonical = .ok () := by
  obtain ⟨events, hs⟩ := hs
  have hc := custody_isInvariant.of_reachable hs
  have hp := (persist_eq_ok.mp (persist_isInvariant.of_reachable hs)).1.rules
  exact ⟨h.custody hc, h.rules ▸ hp⟩

/-- After the last fold of a reachable table the two payouts agree exactly when the plan takes no
rake and nobody waits at the table. -/
theorem paysAlike_iff (hs : s.table.Reachable) (h : LastFold s m) :
    PaysAlike m ↔ (∀ i, (m.table.seats i).isWaiting = false) ∧ m.table.RakeFree := by
  obtain ⟨hc, hrules⟩ := h.invariants hs
  exact paysAlike_iff_of_custody hc hrules h.single

end Pays

end Exec

section Transparent

open Transparent

/-- Two players have limped to the flop of a table with rake. -/
@[irreducible] def rakedFlop : TexasPokerTable ℤ :=
  played { TableRules.new 4 50 100 with rakeMode := rakeModePercentage, rakeBps := 500, rakeCap := 1000 }
    [.join 1 1000 2, .join 2 1000 3, .start, .shuffle 0, .shuffle 1, .reveal 0, .reveal 1,
      .act .call 1 [], .act .check 0 [], .reveal 0, .reveal 1]

/-- Two players have posted their blinds. -/
@[irreducible] def postedBlinds : TexasPokerTable ℤ :=
  played (.new 4 50 100) [.join 1 1000 2, .join 2 1000 3, .start, .shuffle 0, .shuffle 1,
    .reveal 0, .reveal 1]

/-- What an accepted fold runs. -/
def foldRun (t : TexasPokerTable ℤ) (i : ℕ) : PokerL1Result (Exec ℤ × Exec ℤ) := do
  let s ← Exec.applyPlayerAction ⟨t, []⟩ i (.fold foldReasonManual)
  return (s, ← Exec.foldSeat ⟨t, []⟩ i foldReasonManual)

theorem lastFold_of_run {t : TexasPokerTable ℤ} {i : ℕ} {p : Exec ℤ → Bool}
    (h : Fallible.holds (foldRun t i) (fun r =>
      decide (r.2.table.countActivePlayers = 1) && p r.2) = true) :
    ∃ m, Exec.LastFold ⟨t, []⟩ m ∧ p m = true := by
  obtain ⟨⟨s, m⟩, hrun, hp⟩ := Fallible.holds_iff.mp h
  obtain ⟨hone, hp⟩ := Bool.and_eq_true_iff.mp hp
  simp only [foldRun, Fallible.bind_eq_ok] at hrun
  obtain ⟨s', hs, m', hm, hrun⟩ := hrun
  cases hrun
  exact ⟨m, .fold hs hm (of_decide_eq_true hone), hp⟩

theorem exists_fold_rakedFlop : ∃ m, Exec.LastFold ⟨rakedFlop, []⟩ m ∧
    decide (¬ m.table.RakeFree) = true := by
  refine lastFold_of_run (i := 0) ?_
  unfold rakedFlop
  decide +kernel

theorem exists_fold_postedBlinds : ∃ m, Exec.LastFold ⟨postedBlinds, []⟩ m ∧
    decide ((∀ i, (m.table.seats i).isWaiting = false) ∧ m.table.RakeFree) = true := by
  refine lastFold_of_run (i := 1) ?_
  unfold postedBlinds
  decide +kernel

/-- Before the flop the last fold pays alike. -/
theorem postedBlinds_paysAlike : ∃ m, Exec.LastFold ⟨postedBlinds, []⟩ m ∧ m.PaysAlike := by
  obtain ⟨m, h, hp⟩ := exists_fold_postedBlinds
  have hr : postedBlinds.Reachable := by
    unfold postedBlinds
    exact played_reachable (by decide) _
  exact ⟨m, h, (Exec.paysAlike_iff hr h).mpr (of_decide_eq_true hp)⟩

/-- On the flop the table pays the whole pot where the plan takes its rake. -/
theorem rakedFlop_paysMore : ∃ (t : TexasPokerTable ℤ) (m : Exec ℤ), t.Reachable ∧
    Exec.LastFold ⟨t, []⟩ m ∧ ¬ m.PaysAlike := by
  obtain ⟨m, h, hp⟩ := exists_fold_rakedFlop
  have hr : rakedFlop.Reachable := by
    unfold rakedFlop
    exact played_reachable (by decide) _
  refine ⟨rakedFlop, m, hr, h, fun hpays => ?_⟩
  obtain ⟨hc, hrules⟩ := h.invariants hr
  exact of_decide_eq_true hp ((Exec.paysAlike_iff_of_custody hc hrules h.single).mp hpays).2

end Transparent

end TexasPoker
