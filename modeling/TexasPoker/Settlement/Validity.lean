import TexasPoker.Settlement.Amounts
import TexasPoker.Settlement.Derive

/-! # Valid plans

The meaning of the conservation check: every layer is settled, and the layers add up to
the plan. A valid plan pays out exactly what it does not rake.
-/

namespace TexasPoker

/-- Number of runouts a layer is paid on. -/
def SettlementPotPlan.activeRunouts (schedule : SettlementRunoutSchedule)
    (pot : SettlementPotPlan) : ℕ := if pot.isContested then schedule.count else 1

/-- The awards of a layer over its runouts. -/
def SettlementPotPlan.awards (pot : SettlementPotPlan) : SeatAmounts :=
  fun i => (pot.runouts 0).awards i + (pot.runouts 1).awards i

/-- The winners of a layer over its runouts. -/
def SettlementPotPlan.winnerMask (pot : SettlementPotPlan) : SeatMask :=
  (pot.runouts 0).winnerMask ||| (pot.runouts 1).winnerMask

/-- One paid runout: eligible winners share its amount. -/
structure RunoutPotPlan.Settled (pot : SettlementPotPlan) (runout : RunoutPotPlan) : Prop where
  active : runout.isActive = true
  winners : runout.winnerMask &&& ~~~pot.eligibleMask = 0
  canonical : pot.isContested = true ∨ (runout.winnerMask = pot.eligibleMask ∧
    runout.amount = pot.netAmount ∧ ∀ i, runout.ranks i = none)
  paid : runout.awards.sum = runout.amount

/-- A runout of a layer is settled when it is paid, and empty otherwise. -/
def SettlementPotPlan.RunoutValid (schedule : SettlementRunoutSchedule) (pot : SettlementPotPlan)
    (r : Fin 2) : Prop :=
  if pot.activeRunouts schedule ≤ r.1 then pot.runouts r = .inactive
  else (pot.runouts r).Settled pot

/-- One layer: rake and net amount make up its chips, and its runouts share the net amount. -/
structure SettlementPotPlan.Settled (schedule : SettlementRunoutSchedule) (seatCount index : ℕ)
    (pot : SettlementPotPlan) : Prop where
  index : pot.potIndex = index
  seats : pot.eligibleMask &&& ~~~SettlementPlan.validSeatMask seatCount = 0
  net : pot.rake ≤ pot.grossAmount ∧ pot.grossAmount - pot.rake = pot.netAmount
  eligible : seatMaskCount pot.eligibleMask ≠ 0
  runouts : ∀ r, pot.RunoutValid schedule r
  split : (pot.runouts 0).amount + (pot.runouts 1).amount = pot.netAmount

namespace SettlementPlan

theorem mem_validSeatMask {n j : ℕ} (hn : n ≤ 16) :
    Mask.mem (validSeatMask n) j = decide (j < n) := by
  unfold validSeatMask Mask.mem
  split
  · obtain rfl : n = 16 := by omega
    exact BitVec.getLsbD_allOnes
  · rw [BitVec.getLsbD_ofNat, Nat.testBit_two_pow_sub_one]
    simp
    omega

/-- A mask inside the table has members below the seat count only. -/
theorem and_not_validSeatMask {mask : SeatMask} {n : ℕ} (hn : n ≤ maxSeats) :
    mask &&& ~~~validSeatMask n = 0 ↔ ∀ j, Mask.mem mask j = true → j < n := by
  have hn' : n ≤ 16 := hn.trans (by decide)
  rw [Mask.and_not_eq_zero_iff]
  simp only [mem_validSeatMask hn', decide_eq_true_eq]

variable {schedule : SettlementRunoutSchedule} {seatCount index : ℕ} {pot : SettlementPotPlan}

/-- Add a layer to the totals. -/
def Totals.addPot (acc : Totals) (pot : SettlementPotPlan) : Totals where
  gross := acc.gross + pot.grossAmount
  rake := acc.rake + pot.rake
  awards := fun i => acc.awards i + pot.awards i
  winnerMask := acc.winnerMask ||| pot.winnerMask

/-- Add one runout to the totals. -/
def Totals.addRunout (acc : Totals) (runout : RunoutPotPlan) : Totals :=
  { acc with
    awards := fun i => acc.awards i + runout.awards i
    winnerMask := acc.winnerMask ||| runout.winnerMask }

theorem Totals.addRunout_inactive (acc : Totals) : acc.addRunout .inactive = acc := by
  simp [addRunout, RunoutPotPlan.inactive, SeatAmounts.zero]

/-- The totals fit into machine words. -/
def Totals.Fits (acc : Totals) : Prop :=
  acc.gross ≤ u64Max ∧ acc.rake ≤ u64Max ∧ ∀ i, acc.awards i ≤ u64Max

theorem checkRunout_of_ok {acc acc' : ℕ × Totals} {r : Fin 2}
    (h : checkRunout schedule pot acc r = .ok acc') :
    pot.RunoutValid schedule r ∧
      acc' = (acc.1 + (pot.runouts r).amount, acc.2.addRunout (pot.runouts r)) := by
  unfold SettlementPotPlan.RunoutValid
  unfold checkRunout at h
  by_cases hr : pot.activeRunouts schedule ≤ r.1
  · have hr' : (if pot.isContested then schedule.count else 1) ≤ r.1 := hr
    simp only [if_pos hr', Fallible.bind_eq_ok, Fallible.ensure_eq_ok, Fallible.pure_eq_ok] at h
    obtain ⟨-, hin, rfl⟩ := h
    rw [if_pos hr, hin, Totals.addRunout_inactive]
    exact ⟨rfl, rfl⟩
  · have hr' : ¬ (if pot.isContested then schedule.count else 1) ≤ r.1 := hr
    simp only [if_neg hr', Fallible.bind_eq_ok, Fallible.ensure_eq_ok, SeatAmounts.total_eq_ok,
      Fallible.checkedAdd_eq_ok, SeatAmounts.add_eq_ok, Fallible.pure_eq_ok] at h
    obtain ⟨-, ha, -, hw, -, hc, _, ⟨-, rfl⟩, -, hs, _, ⟨-, rfl⟩, _, ⟨-, rfl⟩, rfl⟩ := h
    rw [if_neg hr]
    exact ⟨⟨ha, hw, hc, hs⟩, rfl⟩

theorem checkRunout_ok (acc : ℕ × Totals) {r : Fin 2} (h : pot.RunoutValid schedule r)
    (hsum : acc.1 + (pot.runouts r).amount ≤ u64Max)
    (hawards : ∀ i, acc.2.awards i + (pot.runouts r).awards i ≤ u64Max) :
    checkRunout schedule pot acc r =
      .ok (acc.1 + (pot.runouts r).amount, acc.2.addRunout (pot.runouts r)) := by
  unfold SettlementPotPlan.RunoutValid at h
  unfold checkRunout
  by_cases hr : pot.activeRunouts schedule ≤ r.1
  · have hr' : (if pot.isContested then schedule.count else 1) ≤ r.1 := hr
    rw [if_pos hr] at h
    simp only [if_pos hr', Fallible.bind_eq_ok, Fallible.ensure_eq_ok, Fallible.pure_eq_ok]
    refine ⟨(), h, ?_⟩
    rw [h, Totals.addRunout_inactive]
    rfl
  · have hr' : ¬ (if pot.isContested then schedule.count else 1) ≤ r.1 := hr
    rw [if_neg hr] at h
    simp only [if_neg hr', Fallible.bind_eq_ok, Fallible.ensure_eq_ok, SeatAmounts.total_eq_ok,
      Fallible.checkedAdd_eq_ok, SeatAmounts.add_eq_ok, Fallible.pure_eq_ok]
    refine ⟨(), h.active, (), h.winners, (), h.canonical, _, ⟨?_, rfl⟩, (), h.paid, _,
      ⟨hsum, rfl⟩, _, ⟨hawards, rfl⟩, rfl⟩
    rw [h.paid]
    omega

theorem checkPot_of_ok {acc acc' : Totals}
    (h : checkPot schedule seatCount acc (pot, index) = .ok acc') :
    pot.Settled schedule seatCount index ∧ acc' = acc.addPot pot := by
  simp only [checkPot, Fallible.bind_eq_ok, Fallible.ensure_eq_ok, Fallible.checkedAdd_eq_ok,
    List.finRange_succ, List.finRange_zero, List.map_nil, List.map_cons, List.foldlM_cons,
    List.foldlM_nil, Fallible.pure_eq_ok] at h
  obtain ⟨-, hi, -, hs, -, hn, -, he, _, ⟨-, rfl⟩, _, ⟨-, rfl⟩, ⟨total, u⟩,
    ⟨v, h0, v', h1, rfl⟩, -, hsplit, rfl⟩ := h
  obtain ⟨hv0, rfl⟩ := checkRunout_of_ok h0
  obtain ⟨hv1, hu⟩ := checkRunout_of_ok h1
  obtain ⟨rfl, rfl⟩ := Prod.mk.inj hu
  refine ⟨⟨hi, hs, hn, he, Fin.forall_fin_two.mpr ⟨hv0, hv1⟩, ?_⟩, ?_⟩
  · simpa using hsplit
  · simp [Totals.addPot, Totals.addRunout, SettlementPotPlan.awards, SettlementPotPlan.winnerMask,
      add_assoc, BitVec.or_assoc]

theorem checkPot_ok {acc : Totals} (h : pot.Settled schedule seatCount index)
    (hfit : (acc.addPot pot).Fits) :
    checkPot schedule seatCount acc (pot, index) = .ok (acc.addPot pot) := by
  obtain ⟨hg, hr, ha⟩ := hfit
  simp only [Totals.addPot, SettlementPotPlan.awards] at hg hr ha
  have hsplit := h.split
  have hnet := h.net
  have h0 := checkRunout_ok (0, { acc with
      gross := acc.gross + pot.grossAmount, rake := acc.rake + pot.rake }) (h.runouts 0)
    (by dsimp only; omega) (fun i => by have := ha i; dsimp only; omega)
  have h1 := checkRunout_ok (0 + (pot.runouts 0).amount, Totals.addRunout { acc with
      gross := acc.gross + pot.grossAmount, rake := acc.rake + pot.rake } (pot.runouts 0))
    (h.runouts 1) (by dsimp only; omega)
    (fun i => by have := ha i; simp only [Totals.addRunout]; omega)
  simp only [checkPot, Fallible.bind_eq_ok, Fallible.ensure_eq_ok, Fallible.checkedAdd_eq_ok,
    List.finRange_succ, List.finRange_zero, List.map_nil, List.map_cons, List.foldlM_cons,
    List.foldlM_nil, Fallible.pure_eq_ok]
  refine ⟨(), h.index, (), h.seats, (), h.net, (), h.eligible, _, ⟨hg, rfl⟩, _, ⟨hr, rfl⟩, _,
    ⟨_, h0, _, h1, rfl⟩, (), ?_, ?_⟩
  · simpa using hsplit
  · simp [Totals.addPot, Totals.addRunout, SettlementPotPlan.awards, SettlementPotPlan.winnerMask,
      add_assoc, BitVec.or_assoc]

/-- The totals of a list of layers. -/
def Totals.addPots (acc : Totals) (pots : List SettlementPotPlan) : Totals :=
  pots.foldl addPot acc

@[simp] theorem Totals.addPots_nil (acc : Totals) : acc.addPots [] = acc := rfl

@[simp] theorem Totals.addPots_cons (acc : Totals) (pot : SettlementPotPlan)
    (pots : List SettlementPotPlan) : acc.addPots (pot :: pots) = (acc.addPot pot).addPots pots :=
  rfl

theorem Totals.addPots_gross (acc : Totals) (pots : List SettlementPotPlan) :
    (acc.addPots pots).gross = acc.gross + (pots.map SettlementPotPlan.grossAmount).sum := by
  induction pots generalizing acc with
  | nil => rfl
  | cons pot pots ih => simp [ih, addPot, add_assoc]

theorem Totals.addPots_rake (acc : Totals) (pots : List SettlementPotPlan) :
    (acc.addPots pots).rake = acc.rake + (pots.map SettlementPotPlan.rake).sum := by
  induction pots generalizing acc with
  | nil => rfl
  | cons pot pots ih => simp [ih, addPot, add_assoc]

theorem Totals.addPots_awards (acc : Totals) (pots : List SettlementPotPlan) (i : Fin maxSeats) :
    (acc.addPots pots).awards i = acc.awards i + (pots.map fun pot => pot.awards i).sum := by
  induction pots generalizing acc with
  | nil => rfl
  | cons pot pots ih => simp [ih, addPot, add_assoc]

theorem Totals.Fits.of_addPots {acc : Totals} {pots : List SettlementPotPlan}
    (h : (acc.addPots pots).Fits) : acc.Fits := by
  obtain ⟨hg, hr, ha⟩ := h
  rw [addPots_gross] at hg
  rw [addPots_rake] at hr
  refine ⟨by omega, by omega, fun i => ?_⟩
  have := ha i
  rw [addPots_awards] at this
  omega

theorem foldlM_checkPot_of_ok {pots : List SettlementPotPlan} {k : ℕ} {acc acc' : Totals}
    (h : (pots.zipIdx k).foldlM (checkPot schedule seatCount) acc = .ok acc') :
    (∀ e ∈ pots.zipIdx k, e.1.Settled schedule seatCount e.2) ∧ acc' = acc.addPots pots := by
  induction pots generalizing k acc with
  | nil =>
    rw [List.zipIdx_nil, List.foldlM_nil, Fallible.pure_eq_ok] at h
    exact ⟨by simp, h.symm⟩
  | cons pot pots ih =>
    rw [List.zipIdx_cons, List.foldlM_cons, Fallible.bind_eq_ok] at h
    obtain ⟨u, hu, h⟩ := h
    obtain ⟨hset, rfl⟩ := checkPot_of_ok hu
    obtain ⟨hall, rfl⟩ := ih h
    refine ⟨fun e he => ?_, rfl⟩
    rcases List.mem_cons.mp (List.zipIdx_cons ▸ he) with rfl | he
    · exact hset
    · exact hall e he

theorem foldlM_checkPot_ok {pots : List SettlementPotPlan} {k : ℕ} {acc : Totals}
    (h : ∀ e ∈ pots.zipIdx k, e.1.Settled schedule seatCount e.2)
    (hfit : (acc.addPots pots).Fits) :
    (pots.zipIdx k).foldlM (checkPot schedule seatCount) acc = .ok (acc.addPots pots) := by
  induction pots generalizing k acc with
  | nil => rfl
  | cons pot pots ih =>
    rw [List.zipIdx_cons] at h ⊢
    rw [List.foldlM_cons,
      checkPot_ok (h (pot, k) List.mem_cons_self) (Totals.Fits.of_addPots hfit)]
    exact ih (fun e he => h e (List.mem_cons_of_mem _ he)) hfit

/-- Without totals. -/
def Totals.none : Totals := ⟨0, 0, .zero, 0⟩

/-- What the conservation check establishes. -/
structure Valid (p : SettlementPlan) (seatCount : ℕ) : Prop where
  version : p.version = settlementPlanVersion
  potBound : p.potCount ≤ maxSeats
  seatBound : seatCount ≤ maxSeats
  inactive : ∀ i : Fin maxSeats, p.potCount ≤ i.1 → p.pots i = .inactive
  balance : p.rake ≤ p.grossPot ∧ p.grossPot - p.rake = p.totalAwards
  settled : ∀ e ∈ p.activePots.zipIdx, e.1.Settled p.schedule seatCount e.2
  totals : Totals.none.addPots p.activePots = ⟨p.grossPot, p.rake, p.awards, p.winnerMask⟩
  winners : p.winnerMask &&& ~~~validSeatMask seatCount = 0
  paid : ∀ i : Fin maxSeats, 0 < p.awards i → Mask.mem p.winnerMask i
  seats : ∀ i : Fin maxSeats, seatCount ≤ i.1 → p.awards i = 0

theorem valid_of_validate {p : SettlementPlan} {u : Unit} (h : p.validate seatCount = .ok u) :
    p.Valid seatCount := by
  simp only [validate, Fallible.bind_eq_ok, Fallible.ensure_eq_ok] at h
  obtain ⟨-, hv, -, hp, -, hs, -, hin, -, hb, totals, ht, -, ⟨hg, hr, ha, hw⟩, -, hm, -, hpaid,
    hseats⟩ := h
  obtain ⟨hset, rfl⟩ := foldlM_checkPot_of_ok ht
  refine ⟨hv, hp, hs, hin, hb, hset, ?_, hm, hpaid, hseats⟩
  rw [← hg, ← hr, ← ha, ← hw]
  rfl

/-- The awards of a settled layer are its net amount. -/
theorem sum_awards (hr : ∀ r, pot.RunoutValid schedule r)
    (hs : (pot.runouts 0).amount + (pot.runouts 1).amount = pot.netAmount) :
    pot.awards.sum = pot.netAmount := by
  have hrunout : ∀ r, (pot.runouts r).awards.sum = (pot.runouts r).amount := fun r => by
    have hv := hr r
    unfold SettlementPotPlan.RunoutValid at hv
    split at hv
    · rw [hv]
      exact SeatAmounts.sum_zero
    · exact hv.paid
  rw [← hs, ← hrunout 0, ← hrunout 1]
  exact SeatAmounts.sum_add

theorem sum_addPots {pots : List SettlementPotPlan} {k : ℕ} (acc : Totals)
    (h : ∀ e ∈ pots.zipIdx k, e.1.Settled schedule seatCount e.2) :
    (acc.addPots pots).awards.sum + (acc.addPots pots).rake + acc.gross =
      (acc.addPots pots).gross + acc.awards.sum + acc.rake := by
  induction pots generalizing k acc with
  | nil =>
    rw [Totals.addPots_nil]
    omega
  | cons pot pots ih =>
    rw [List.zipIdx_cons] at h
    have hpot : pot.Settled schedule seatCount k := h (pot, k) List.mem_cons_self
    have hsum := sum_awards hpot.runouts hpot.split
    have hnet := hpot.net
    have hadd : (acc.addPot pot).awards.sum = acc.awards.sum + pot.awards.sum :=
      SeatAmounts.sum_add
    have := ih (acc.addPot pot) fun e he => h e (List.mem_cons_of_mem _ he)
    rw [Totals.addPots_cons]
    simp only [Totals.addPot] at this hadd ⊢
    omega

/-- A valid plan pays out what it does not rake. -/
theorem Valid.conserves {p : SettlementPlan} (h : p.Valid seatCount) :
    p.awards.sum + p.rake = p.grossPot := by
  have := sum_addPots .none h.settled
  rw [h.totals] at this
  simpa [Totals.none] using this

theorem validate_of_valid {p : SettlementPlan} (h : p.Valid seatCount)
    (hg : p.grossPot ≤ u64Max) : p.validate seatCount = .ok () := by
  have hfit : (Totals.none.addPots p.activePots).Fits := by
    have hc := h.conserves
    rw [h.totals]
    exact ⟨hg, h.balance.1.trans hg, fun i => (p.awards.le_sum i).trans (by omega)⟩
  have hfold := foldlM_checkPot_ok h.settled hfit
  rw [h.totals] at hfold
  simp only [validate, Fallible.bind_eq_ok, Fallible.ensure_eq_ok]
  exact ⟨(), h.version, (), h.potBound, (), h.seatBound, (), h.inactive, (), h.balance, _, hfold,
    (), ⟨rfl, rfl, rfl, rfl⟩, (), h.winners, (), h.paid, h.seats⟩

end SettlementPlan

end TexasPoker
