import TexasPoker.Machine.Queries
import TexasPoker.Settlement.PotPlan

/-! # When a showdown has a plan

The derivation of a showdown's plan succeeds exactly on tables whose boards and hands are
valid, whose pot holds the bets, and on which some unfolded seat has a bet.
-/

namespace TexasPoker

open SidePot SettlementPlan

namespace SettlementPlan

/-- Record consecutive layers. -/
def recordAll (plan : SettlementPlan) : ℕ → List SettlementPotPlan → SettlementPlan
  | _, [] => plan
  | k, pot :: pots => (plan.record k pot).recordAll (k + 1) pots

variable {plan : SettlementPlan} {k : ℕ} {pots : List SettlementPotPlan}

theorem recordAll_pots (i : Fin maxSeats) :
    (plan.recordAll k pots).pots i =
      if k ≤ i.1 then (pots[i.1 - k]?).getD (plan.pots i) else plan.pots i := by
  induction pots generalizing plan k with
  | nil => simp [recordAll]
  | cons pot pots ih =>
    rw [recordAll, ih]
    have hrec : (plan.record k pot).pots i = if i.1 = k then pot else plan.pots i := rfl
    rw [hrec]
    rcases lt_trichotomy i.1 k with h | h | h
    · rw [if_neg (by omega), if_neg (by omega), if_neg (by omega)]
    · rw [if_neg (by omega), if_pos (by omega), if_pos (by omega), h, Nat.sub_self]
      rfl
    · obtain ⟨d, hd⟩ : ∃ d, i.1 - k = d + 1 := ⟨i.1 - k - 1, by omega⟩
      have hd' : i.1 - (k + 1) = d := by omega
      have hk : k + 1 ≤ i.1 := h
      rw [if_pos hk, if_neg h.ne', if_pos h.le, hd, hd', List.getElem?_cons_succ]

theorem recordAll_awards (i : Fin maxSeats) :
    (plan.recordAll k pots).awards i = plan.awards i + (pots.map fun pot => pot.awards i).sum := by
  induction pots generalizing plan k with
  | nil => simp [recordAll]
  | cons pot pots ih =>
    rw [recordAll, ih, List.map_cons, List.sum_cons, ← add_assoc]
    rfl

theorem mem_recordAll_winnerMask {j : ℕ} :
    Mask.mem (plan.recordAll k pots).winnerMask j = true ↔
      Mask.mem plan.winnerMask j = true ∨ ∃ pot ∈ pots, Mask.mem pot.winnerMask j = true := by
  induction pots generalizing plan k with
  | nil => simp [recordAll]
  | cons pot pots ih =>
    rw [recordAll, ih]
    have hrec : (plan.record k pot).winnerMask = plan.winnerMask ||| pot.winnerMask := rfl
    rw [hrec, Mask.mem_or, Bool.or_eq_true, List.exists_mem_cons_iff, or_assoc]

theorem recordAll_totals (acc : Totals) (plan : SettlementPlan) (k : ℕ)
    (pots : List SettlementPotPlan) (ha : acc.awards = plan.awards)
    (hw : acc.winnerMask = plan.winnerMask) :
    (acc.addPots pots).awards = (plan.recordAll k pots).awards ∧
      (acc.addPots pots).winnerMask = (plan.recordAll k pots).winnerMask := by
  induction pots generalizing plan k acc with
  | nil => exact ⟨ha, hw⟩
  | cons pot pots ih =>
    refine ih _ _ _ ?_ ?_
    · funext i
      change acc.awards i + pot.awards i = plan.awards i + pot.awards i
      rw [ha]
    · change acc.winnerMask ||| pot.winnerMask = plan.winnerMask ||| pot.winnerMask
      rw [hw]

/-- Only awards, winners and layers change. -/
theorem recordAll_frame (plan : SettlementPlan) (k : ℕ) (pots : List SettlementPotPlan) :
    (plan.recordAll k pots).version = plan.version ∧
      (plan.recordAll k pots).schedule = plan.schedule ∧
      (plan.recordAll k pots).grossPot = plan.grossPot ∧
      (plan.recordAll k pots).rake = plan.rake ∧
      (plan.recordAll k pots).potCount = plan.potCount := by
  induction pots generalizing plan k with
  | nil => exact ⟨rfl, rfl, rfl, rfl, rfl⟩
  | cons pot pots ih => exact ih _ _

theorem recordAll_activePots (hp : plan.potCount = pots.length) (hl : pots.length ≤ maxSeats) :
    (plan.recordAll 0 pots).activePots = pots := by
  rw [activePots, (recordAll_frame _ _ _).2.2.2.2, hp]
  refine List.ext_getElem? fun j => ?_
  rw [List.getElem?_take]
  by_cases hj : j < pots.length
  · rw [if_pos hj, List.getElem?_ofFn, dif_pos (hj.trans_le hl), recordAll_pots]
    simp [hj]
  · rw [if_neg hj, List.getElem?_eq_none (not_lt.mp hj)]

end SettlementPlan

namespace TexasPokerTable

variable {G : Type} {t : TexasPokerTable G} {boards : SettlementBoards}

/-! ## Planning all layers -/

theorem foldlM_planPot_of_ok {entries : List (SidePot × ℕ)} {k : ℕ} {plan plan' : SettlementPlan}
    (hn : t.rules.maxPlayers ≤ maxSeats)
    (h : (entries.zipIdx k).foldlM (t.planPot boards) plan = .ok plan') :
    ∃ pots, List.Forall₂ (fun (e : (SidePot × ℕ) × ℕ) pot =>
        SettlementPotPlan.Planned boards.schedule e.1.1 e.1.2 e.2 pot) (entries.zipIdx k) pots ∧
      plan' = plan.recordAll k pots ∧ ∀ pot ∈ pots, t.Drawn boards pot := by
  induction entries generalizing k plan with
  | nil =>
    rw [List.zipIdx_nil, List.foldlM_nil, Fallible.pure_eq_ok] at h
    exact ⟨[], .nil, h.symm, nofun⟩
  | cons e entries ih =>
    rw [List.zipIdx_cons, List.foldlM_cons, Fallible.bind_eq_ok] at h
    obtain ⟨u, hu, h⟩ := h
    obtain ⟨pot, hpot, rfl, hd⟩ := planPot_of_ok hn hu
    obtain ⟨pots, hpots, rfl, hall⟩ := ih h
    exact ⟨pot :: pots, .cons hpot hpots, rfl, List.forall_mem_cons.mpr ⟨hd, hall⟩⟩

theorem exists_foldlM_planPot {entries : List (SidePot × ℕ)} (boards : SettlementBoards) (k : ℕ)
    (plan : SettlementPlan)
    (hn : t.rules.maxPlayers ≤ maxSeats)
    (hpos : ∀ e ∈ entries, e.1.amount ≠ 0 ∧ e.2 ≤ e.1.amount)
    (hw : ∀ e ∈ entries, ∃ w < t.rules.maxPlayers, Mask.mem e.1.eligibleSeats w = true)
    (hhand : ∀ e ∈ entries, ∀ i < t.rules.maxPlayers, Mask.mem e.1.eligibleSeats i = true →
      t.ShowsHand i)
    (hsum : plan.awards.sum + (entries.map fun e => e.1.amount).sum ≤ u64Max) :
    ∃ plan', (entries.zipIdx k).foldlM (t.planPot boards) plan = .ok plan' := by
  induction entries generalizing k plan with
  | nil => exact ⟨plan, rfl⟩
  | cons e entries ih =>
    simp only [List.mem_cons, forall_eq_or_imp, List.map_cons, List.sum_cons] at hpos hw hhand hsum
    obtain ⟨u, hu⟩ := exists_planPot hn hw.1 hhand.1 boards plan k
      hpos.1.1 hpos.1.2 (by omega)
    obtain ⟨pot, hpot, rfl, -⟩ := planPot_of_ok hn hu
    have hs : (plan.record k pot).awards.sum = plan.awards.sum + pot.awards.sum :=
      SeatAmounts.sum_add
    have hnet := sum_awards hpot.runouts hpot.split
    rw [hpot.net_eq] at hnet
    obtain ⟨plan', hplan'⟩ := ih (k + 1) (plan.record k pot) hpos.2 hw.2 hhand.2
      (by omega)
    exact ⟨plan', by rw [List.zipIdx_cons, List.foldlM_cons, hu]; exact hplan'⟩

/-! ## Contenders -/

/-- An unfolded seat with a contribution. -/
def Contends (t : TexasPokerTable G) (i : Fin maxSeats) : Prop :=
  0 < (t.seats i).totalBet ∧ (t.seats i).isFolded = false ∧ (t.seats i).hasLeftHand = false

theorem exposeHand_of_ok {seen seen' : List ℕ} {i : Fin maxSeats}
    (h : t.exposeHand seen i = .ok seen') (ho : (t.seats i).isOccupied = true)
    (hf : (t.seats i).isFolded = false) (hl : (t.seats i).hasLeftHand = false) :
    t.ShowsHand i := by
  simp only [exposeHand, ho, hf, hl, Bool.not_true, Bool.or_false, Bool.false_eq_true, if_false,
    Fallible.bind_eq_ok, Fallible.orErr_eq_ok, Fallible.ensure_eq_ok] at h
  obtain ⟨hand, hh, -, ⟨hlen, -⟩, -⟩ := h
  exact ⟨hand, by rwa [seat_val], hlen⟩

/-- Accepted cards show the hand of every occupied unfolded seat. -/
theorem showsHand_of_validateExposedCards {u : Unit} (h : t.validateExposedCards boards = .ok u)
    (i : Fin maxSeats) (ho : (t.seats i).isOccupied = true) (hf : (t.seats i).isFolded = false)
    (hl : (t.seats i).hasLeftHand = false) : t.ShowsHand i := by
  rw [validateExposedCards, Fallible.bind_eq_ok] at h
  obtain ⟨seen, hseen, -⟩ := h
  exact Fallible.forall_of_foldlM (Q := fun i => (t.seats i).isOccupied = true →
      (t.seats i).isFolded = false → (t.seats i).hasLeftHand = false → t.ShowsHand i)
    (fun i _ _ _ hi => exposeHand_of_ok hi) hseen i (List.mem_finRange i) ho hf hl

theorem occupied_of_contends {i : Fin maxSeats} (h : t.Contends i) :
    (t.seats i).isOccupied = true := by
  obtain ⟨hb, -, hl⟩ := h
  cases hs : t.seats i <;> simp_all [Seat.totalBet, Seat.hasLeftHand, Seat.isOccupied]

@[simp] theorem length_contributions : t.contributions.length = maxSeats := by
  simp [contributions]

theorem contributions_bets : (t.contributions.map Contribution.bet).sum = t.sumTotalBets := by
  rw [contributions, List.map_ofFn]
  rfl

/-- The first layer belongs to the contenders. -/
theorem mem_reach_contributions {j : ℕ} :
    Mask.mem (reach t.contributions 0) j = true ↔ ∃ i : Fin maxSeats, i.1 = j ∧ t.Contends i := by
  rw [mem_reach length_contributions.le]
  simp only [contributions, List.getElem?_ofFn]
  constructor
  · rintro ⟨c, hc, hb, hf⟩
    split at hc
    · rename_i hj
      cases hc
      simp only [Bool.or_eq_true, not_or, Bool.not_eq_true] at hf
      exact ⟨⟨j, hj⟩, rfl, hb, hf⟩
    · cases hc
  · rintro ⟨i, rfl, hb, hf, hl⟩
    exact ⟨_, dif_pos i.isLt, hb, by simp [hf, hl]⟩

theorem reach_contributions_ne_zero : reach t.contributions 0 ≠ 0 ↔ ∃ i, t.Contends i := by
  rw [Mask.ne_zero_iff]
  constructor
  · rintro ⟨j, hj⟩
    obtain ⟨i, -, hi⟩ := mem_reach_contributions.mp hj
    exact ⟨i, hi⟩
  · rintro ⟨i, hi⟩
    exact ⟨i, mem_reach_contributions.mpr ⟨i, rfl, hi⟩⟩

/-! ## Readiness -/

/-- Under a known rake mode no layer is raked above its chips. -/
def LayerRakesFit (t : TexasPokerTable G) : Prop :=
  ∃ r rakes, calculateSidePots t.contributions = .ok r ∧
    allocateRakeFixedRate r.active t.rules = .ok rakes ∧
      ∀ e ∈ r.active.zip rakes, e.2 ≤ e.1.amount

/-- What a showdown needs to be settled. -/
structure ShowdownReady (t : TexasPokerTable G) (boards : SettlementBoards) : Prop where
  valid : boards.validate = .ok ()
  seats : t.rules.maxPlayers ≤ maxSeats
  cards : t.validateExposedCards boards = .ok ()
  pot : t.sumTotalBets = t.pot
  bound : t.sumTotalBets ≤ maxTotalBet
  contested : ∃ i, t.Contends i
  inside : ∀ i, t.Contends i → i.1 < t.rules.maxPlayers
  rakes : t.LayerRakesFit

theorem length_fixedRateRakes (bps cap : ℕ) (pots : List SidePot) :
    (fixedRateRakes bps cap pots).length = pots.length := by
  induction pots generalizing cap with
  | nil => rfl
  | cons pot pots ih =>
    unfold fixedRateRakes
    split <;> simp [ih]

theorem length_allocateRake {pots : List SidePot} {rules : TableRules} {rakes : List ℕ}
    (h : allocateRakeFixedRate pots rules = .ok rakes) : rakes.length = pots.length := by
  unfold allocateRakeFixedRate at h
  split at h
  · cases h
    simp
  split at h
  · cases h
    exact length_fixedRateRakes _ _ _
  · cases h

/-- The layers the derivation plans: the contributions' layers, or one empty layer. -/
theorem exists_layers (hbound : t.sumTotalBets ≤ maxTotalBet) :
    ∃ l, calculateSidePots t.contributions = .ok (ofActive l) ∧ l.length ≤ maxSeats ∧ l ≠ [] ∧
      (l.map SidePot.amount).sum = t.sumTotalBets ∧
      (∀ p ∈ l, ∀ j, Mask.mem p.eligibleSeats j = true → ∃ i : Fin maxSeats, i.1 = j ∧ t.Contends i) ∧
      ((∃ i, t.Contends i) → (∀ p ∈ l, p.amount ≠ 0 ∧ p.eligibleSeats ≠ 0) ∧
        ∀ p ∈ l.head?, p.eligibleSeats = reach t.contributions 0) ∧
      ((¬ ∃ i, t.Contends i) → ∀ p ∈ l.head?, p.amount = 0 ∨ p.eligibleSeats = 0) := by
  have hcs : t.contributions.length ≤ maxSidePots := length_contributions.le
  obtain ⟨l, hl, hr⟩ := calculateSidePots_eq_ok hcs (by rwa [contributions_bets])
  have hsum := hl.total
  have hle : ∀ c ∈ t.contributions, c.bet ≤ (t.contributions.map Contribution.bet).sum :=
    fun c hc => List.single_le_sum (by simp) _ (List.mem_map_of_mem hc)
  rw [covered_of_le hle, contributions_bets] at hsum
  by_cases hnil : l = []
  · subst hnil
    rw [if_pos rfl] at hr
    have hz : t.sumTotalBets = 0 := by simpa using hsum.symm
    have hnone : ¬ ∃ i, t.Contends i := by
      rintro ⟨i, hb, -⟩
      have : (t.seats i).totalBet ≤ t.sumTotalBets :=
        List.single_le_sum (by simp) _ (List.mem_ofFn.mpr ⟨i, rfl⟩)
      omega
    refine ⟨_, hr, by decide, by simp, by simp [hz], by simp, fun h => absurd h hnone, ?_⟩
    intro _ p hp
    cases hp
    exact .inl rfl
  · rw [if_neg hnil] at hr
    refine ⟨l, hr, ?_, hnil, hsum, fun p hp j hj => ?_, fun hc => ⟨fun p hp => ⟨?_, ?_⟩, ?_⟩,
      fun hc p hp => .inr ?_⟩
    · exact (hl.length_le.trans card_betValues_le).trans hcs
    · obtain ⟨q, hq⟩ := hl.eligible p hp
      refine mem_reach_contributions.mp ?_
      rw [hq, mem_reach hcs] at hj
      obtain ⟨c, hc, hb, hf⟩ := hj
      exact (mem_reach hcs).mpr ⟨c, hc, by omega, hf⟩
    · exact (hl.pos p hp).ne'
    · exact hl.eligible_ne_zero (reach_contributions_ne_zero.mpr hc) hp
    · intro p hp
      exact hl.head _ (by rw [List.head?_map]; exact Option.mem_map_of_mem _ hp)
    · have hh := hl.head _ (by rw [List.head?_map]; exact Option.mem_map_of_mem _ hp)
      rw [hh]
      by_contra h0
      exact hc (reach_contributions_ne_zero.mp h0)

/-- The plan a derivation starts from. -/
def startPlan (t : TexasPokerTable G) (boards : SettlementBoards) (l : List SidePot) (rake : ℕ) :
    SettlementPlan :=
  { version := settlementPlanVersion, schedule := boards.schedule, grossPot := t.sumTotalBets, rake,
    totalAwards := 0, winnerMask := 0, awards := .zero, potCount := l.length,
    pots := fun _ => .inactive }

/-- The plan of given layers. -/
def finalPlan (plan : SettlementPlan) (pots : List SettlementPotPlan) : SettlementPlan :=
  { plan.recordAll 0 pots with totalAwards := (plan.recordAll 0 pots).awards.sum }

section Layers

variable {l : List SidePot} {rakes : List ℕ} {pots : List SettlementPotPlan} {n : ℕ}

theorem forall₂_sums (hlen : rakes.length = l.length) {k : ℕ} {schedule : SettlementRunoutSchedule}
    (h : List.Forall₂ (fun (e : (SidePot × ℕ) × ℕ) pot =>
      SettlementPotPlan.Planned schedule e.1.1 e.1.2 e.2 pot) ((l.zip rakes).zipIdx k) pots) :
    pots.length = l.length ∧ (pots.map SettlementPotPlan.grossAmount).sum = (l.map SidePot.amount).sum ∧
      (pots.map SettlementPotPlan.rake).sum = rakes.sum := by
  induction l generalizing rakes pots k with
  | nil =>
    obtain rfl := List.length_eq_zero_iff.mp hlen
    rw [List.zip_nil_left, List.zipIdx_nil, List.forall₂_nil_left_iff] at h
    subst h
    exact ⟨rfl, rfl, rfl⟩
  | cons p l ih =>
    cases rakes with
    | nil => cases hlen
    | cons r rakes =>
      rw [List.zip_cons_cons, List.zipIdx_cons, List.forall₂_cons_left_iff] at h
      obtain ⟨pot, pots, hp, h, rfl⟩ := h
      obtain ⟨h1, h2, h3⟩ := ih (Nat.succ.inj hlen) h
      simp [h1, h2, h3, hp.gross_eq, hp.rake_eq]

theorem forall₂_settled (hn : n ≤ maxSeats) {k : ℕ} {schedule : SettlementRunoutSchedule}
    (h : List.Forall₂ (fun (e : (SidePot × ℕ) × ℕ) pot =>
      SettlementPotPlan.Planned schedule e.1.1 e.1.2 e.2 pot) ((l.zip rakes).zipIdx k) pots)
    (hin : ∀ p ∈ l, ∀ j, Mask.mem p.eligibleSeats j = true → j < n) :
    (∀ e ∈ pots.zipIdx k, e.1.Settled schedule n e.2) ∧
      ∀ pot ∈ pots, ∀ i, pot.awards i ≠ 0 → Mask.mem pot.winnerMask i = true := by
  induction l generalizing rakes pots k with
  | nil =>
    rw [List.zip_nil_left, List.zipIdx_nil, List.forall₂_nil_left_iff] at h
    subst h
    simp
  | cons p l ih =>
    cases rakes with
    | nil =>
      rw [List.zip_nil_right, List.zipIdx_nil, List.forall₂_nil_left_iff] at h
      subst h
      simp
    | cons r rakes =>
      rw [List.zip_cons_cons, List.zipIdx_cons, List.forall₂_cons_left_iff] at h
      obtain ⟨pot, pots, hp, h, rfl⟩ := h
      simp only [List.mem_cons, forall_eq_or_imp] at hin
      obtain ⟨h1, h2⟩ := ih h hin.2
      rw [List.zipIdx_cons]
      simp only [List.mem_cons, forall_eq_or_imp]
      exact ⟨⟨hp.settled hn hin.1, h1⟩, hp.paid, h2⟩

/-- Planned layers at the table make a valid plan. -/
theorem finalPlan_valid (hn : t.rules.maxPlayers ≤ maxSeats) (hlen : rakes.length = l.length)
    (hl : l.length ≤ maxSeats) (hsum : (l.map SidePot.amount).sum = t.sumTotalBets)
    (h : List.Forall₂ (fun (e : (SidePot × ℕ) × ℕ) pot =>
      SettlementPotPlan.Planned boards.schedule e.1.1 e.1.2 e.2 pot) ((l.zip rakes).zipIdx) pots)
    (hin : ∀ p ∈ l, ∀ j, Mask.mem p.eligibleSeats j = true → j < t.rules.maxPlayers) :
    (finalPlan (t.startPlan boards l rakes.sum) pots).Valid t.rules.maxPlayers := by
  obtain ⟨hplen, hgross, hrake⟩ := forall₂_sums hlen h
  obtain ⟨hset, hpaid⟩ := forall₂_settled hn h hin
  have hframe := recordAll_frame (t.startPlan boards l rakes.sum) 0 pots
  have hactive : (finalPlan (t.startPlan boards l rakes.sum) pots).activePots = pots :=
    recordAll_activePots hplen.symm (hplen.trans_le hl)
  have htot := recordAll_totals .none (t.startPlan boards l rakes.sum) 0 pots rfl rfl
  have hg : (Totals.none.addPots pots).gross = t.sumTotalBets := by
    rw [Totals.addPots_gross, hgross, hsum]
    exact Nat.zero_add _
  have hr : (Totals.none.addPots pots).rake = rakes.sum := by
    rw [Totals.addPots_rake, hrake]
    exact Nat.zero_add _
  have hcons := sum_addPots .none hset
  rw [hg, hr, htot.1] at hcons
  have hcons' : ((t.startPlan boards l rakes.sum).recordAll 0 pots).awards.sum + rakes.sum =
      t.sumTotalBets := by simpa [Totals.none] using hcons
  have hwin : ∀ j, Mask.mem ((t.startPlan boards l rakes.sum).recordAll 0 pots).winnerMask j = true →
      j < t.rules.maxPlayers := by
    intro j hj
    rcases mem_recordAll_winnerMask.mp hj with hj | ⟨pot, hpot, hj⟩
    · simp [startPlan] at hj
    · obtain ⟨k, hk⟩ := List.mem_iff_getElem?.mp hpot
      have hs := hset (pot, k) (List.mk_mem_zipIdx_iff_getElem?.mpr hk)
      exact (and_not_validSeatMask hn).mp hs.seats j
        (SettlementPotPlan.mem_eligible_of_winner hs.runouts hj)
  have hpay : ∀ i : Fin maxSeats, 0 < ((t.startPlan boards l rakes.sum).recordAll 0 pots).awards i →
      Mask.mem ((t.startPlan boards l rakes.sum).recordAll 0 pots).winnerMask i = true := by
    intro i hi
    rw [recordAll_awards] at hi
    have hne : (pots.map fun pot => pot.awards i).sum ≠ 0 := by
      have : (t.startPlan boards l rakes.sum).awards i = 0 := rfl
      omega
    obtain ⟨pot, hpot, ha⟩ : ∃ pot ∈ pots, pot.awards i ≠ 0 := by
      by_contra hno
      simp only [not_exists, not_and, not_not] at hno
      exact hne (List.sum_eq_zero (by simpa using hno))
    exact mem_recordAll_winnerMask.mpr (.inr ⟨pot, hpot, hpaid pot hpot i ha⟩)
  refine ⟨hframe.1, ?_, hn, fun i hi => ?_, ?_, ?_, ?_, ?_, hpay, fun i hi => ?_⟩
  · exact hframe.2.2.2.2.trans_le hl
  · have hi' : pots.length ≤ i.1 := by
      rw [hplen]
      exact hframe.2.2.2.2.symm.trans_le hi
    change ((t.startPlan boards l rakes.sum).recordAll 0 pots).pots i = _
    rw [recordAll_pots, if_pos (Nat.zero_le _), Nat.sub_zero, List.getElem?_eq_none hi']
    rfl
  · have hgp : ((t.startPlan boards l rakes.sum).recordAll 0 pots).grossPot = t.sumTotalBets :=
      hframe.2.2.1
    have hrp : ((t.startPlan boards l rakes.sum).recordAll 0 pots).rake = rakes.sum :=
      hframe.2.2.2.1
    simp only [finalPlan, hgp, hrp]
    omega
  · rw [hactive, show (finalPlan (t.startPlan boards l rakes.sum) pots).schedule = boards.schedule
      from hframe.2.1]
    exact hset
  · rw [hactive]
    have heta (acc : Totals) : acc = ⟨acc.gross, acc.rake, acc.awards, acc.winnerMask⟩ := rfl
    rw [heta (Totals.none.addPots pots), hg, hr, htot.1, htot.2]
    simp only [finalPlan, hframe.2.2.1, hframe.2.2.2.1]
    rfl
  · exact (and_not_validSeatMask hn).mpr hwin
  · by_contra hne
    have := hwin i (hpay i (Nat.pos_of_ne_zero hne))
    omega

theorem forall₂_rakes {k : ℕ} {schedule : SettlementRunoutSchedule}
    (h : List.Forall₂ (fun (e : (SidePot × ℕ) × ℕ) pot =>
      SettlementPotPlan.Planned schedule e.1.1 e.1.2 e.2 pot) ((l.zip rakes).zipIdx k) pots) :
    ∀ e ∈ l.zip rakes, e.2 ≤ e.1.amount := by
  induction l generalizing rakes pots k with
  | nil => simp
  | cons p l ih =>
    cases rakes with
    | nil => simp
    | cons r rakes =>
      rw [List.zip_cons_cons, List.zipIdx_cons, List.forall₂_cons_left_iff] at h
      obtain ⟨pot, pots, hp, h, rfl⟩ := h
      rw [List.zip_cons_cons, List.forall_mem_cons]
      exact ⟨hp.rake_le, ih h⟩

theorem sum_rakes_le (hlen : rakes.length = l.length) (h : ∀ e ∈ l.zip rakes, e.2 ≤ e.1.amount) :
    rakes.sum ≤ (l.map SidePot.amount).sum := by
  induction l generalizing rakes with
  | nil =>
    rw [List.length_eq_zero_iff.mp hlen]
    exact le_rfl
  | cons p l ih =>
    cases rakes with
    | nil => cases hlen
    | cons r rakes =>
      rw [List.zip_cons_cons, List.forall_mem_cons] at h
      exact Nat.add_le_add h.1 (ih (Nat.succ.inj hlen) h.2)

end Layers

/-! ## The derivation -/

/-- A plan that is derived is valid, and settles the pot. -/
theorem valid_of_derive {plan : SettlementPlan}
    (h : t.deriveSettlementPlanForBoards boards = .ok plan) :
    plan.validate t.rules.maxPlayers = .ok () := by
  simp only [deriveSettlementPlanForBoards, Fallible.bind_eq_ok, Fallible.pure_eq_ok] at h
  obtain ⟨-, -, -, -, -, -, _, -, -, -, _, -, _, -, _, -, _, -, _, -, _, hv, rfl⟩ := h
  exact hv

/-- The layers a derived plan was built from. -/
structure DerivedFrom (t : TexasPokerTable G) (boards : SettlementBoards) (l : List SidePot)
    (rakes : List ℕ) (pots : List SettlementPotPlan) (plan : SettlementPlan) : Prop where
  sidePots : calculateSidePots t.contributions = .ok (ofActive l)
  rakes_eq : allocateRakeFixedRate l t.rules = .ok rakes
  planned : List.Forall₂ (fun (e : (SidePot × ℕ) × ℕ) pot =>
    SettlementPotPlan.Planned boards.schedule e.1.1 e.1.2 e.2 pot) ((l.zip rakes).zipIdx) pots
  plan_eq : plan = finalPlan (t.startPlan boards l rakes.sum) pots

theorem derive_eq_ok {plan : SettlementPlan}
    (h : t.deriveSettlementPlanForBoards boards = .ok plan) :
    boards.validate = .ok () ∧ t.rules.maxPlayers ≤ maxSeats ∧
      t.validateExposedCards boards = .ok () ∧ t.sumTotalBets = t.pot ∧
      t.sumTotalBets ≤ maxTotalBet ∧ ∃ l rakes pots, t.DerivedFrom boards l rakes pots plan ∧
        ∀ pot ∈ pots, t.Drawn boards pot := by
  simp only [deriveSettlementPlanForBoards, Fallible.bind_eq_ok, Fallible.ensure_eq_ok,
    Fallible.mapError_eq_ok, Fallible.checkedSum_eq_ok, SeatAmounts.total_eq_ok,
    Fallible.pure_eq_ok] at h
  obtain ⟨_, hb, -, hn, _, hcards, r, hr, -, ⟨hmax, hpot⟩, _, -, rakes, hrakes, _, ⟨-, rfl⟩, u, hu,
    _, ⟨-, rfl⟩, _, -, rfl⟩ := h
  have hbound : t.sumTotalBets ≤ maxTotalBet := by
    rw [← contributions_bets]
    exact sum_le_of_calculateSidePots hr
  obtain ⟨l, hl, -, -, hsum, -⟩ := exists_layers hbound
  cases hr.symm.trans hl
  rw [ofActive_total, hsum] at hmax hpot
  rw [ofActive_active] at hrakes hu
  obtain ⟨pots, hpots, rfl, hdrawn⟩ := foldlM_planPot_of_ok hn hu
  refine ⟨hb, hn, hcards, hpot, hbound, l, rakes, pots, ⟨hl, hrakes, hpots, ?_⟩, hdrawn⟩
  rw [ofActive_total, hsum]
  rfl

theorem ready_of_derive {plan : SettlementPlan}
    (h : t.deriveSettlementPlanForBoards boards = .ok plan) : t.ShowdownReady boards := by
  obtain ⟨hb, hn, hcards, hpot, hbound, l, rakes, pots, hd, -⟩ := derive_eq_ok h
  obtain ⟨l', hl, hlen, hnil, -, -, hsome, hnone⟩ := exists_layers hbound
  have hll : l' = l := by
    have := congrArg SidePotResult.active (Except.ok.inj (hl.symm.trans hd.sidePots))
    rwa [ofActive_active, ofActive_active] at this
  subst hll
  have hrl := length_allocateRake hd.rakes_eq
  have hplen := (forall₂_sums hrl hd.planned).1
  have hvalid := SettlementPlan.valid_of_validate (valid_of_derive h)
  have hactive : plan.activePots = pots := by
    rw [hd.plan_eq]
    exact recordAll_activePots hplen.symm (hplen.trans_le hlen)
  have hset := hvalid.settled
  rw [hactive] at hset
  have hrakes : t.LayerRakesFit :=
    ⟨_, _, hl, by rw [ofActive_active]; exact hd.rakes_eq, by
      rw [ofActive_active]
      exact forall₂_rakes hd.planned⟩
  obtain ⟨p, l, rfl⟩ := List.exists_cons_of_ne_nil hnil
  obtain ⟨rake, rakes, rfl⟩ := List.exists_cons_of_length_eq_add_one hrl
  have hplanned := hd.planned
  rw [List.zip_cons_cons, List.zipIdx_cons, List.forall₂_cons_left_iff] at hplanned
  obtain ⟨pot, pots, hp, -, rfl⟩ := hplanned
  have hcont : ∃ i, t.Contends i := by
    by_contra hno
    rcases hnone hno p rfl with h0 | h0
    · exact hp.amount h0
    · exact hp.eligible h0
  refine ⟨hb, hn, hcards, hpot, hbound, hcont, fun i hi => ?_, hrakes⟩
  have hs := (hset (pot, 0) (by rw [List.zipIdx_cons]; exact List.mem_cons_self)).seats
  rw [and_not_validSeatMask hn] at hs
  refine hs i ?_
  rw [hp.mask_eq, (hsome hcont).2 p rfl]
  exact mem_reach_contributions.mpr ⟨i, rfl, hi⟩

theorem exists_derive (h : t.ShowdownReady boards) :
    ∃ plan, t.deriveSettlementPlanForBoards boards = .ok plan := by
  obtain ⟨l, hl, hlen, -, hsum, hmem, hsome, -⟩ := exists_layers h.bound
  obtain ⟨r, rakes, hr, hrakes, hfit⟩ := h.rakes
  cases hr.symm.trans hl
  rw [ofActive_active] at hrakes hfit
  have hrl := length_allocateRake hrakes
  have hbig : maxTotalBet ≤ u64Max := by decide
  have hrsum : rakes.sum ≤ t.sumTotalBets := hsum ▸ sum_rakes_le hrl hfit
  obtain ⟨hpos, -⟩ := hsome h.contested
  have hin : ∀ p ∈ l, ∀ j, Mask.mem p.eligibleSeats j = true → j < t.rules.maxPlayers := by
    intro p hp j hj
    obtain ⟨i, rfl, hi⟩ := hmem p hp j hj
    exact h.inside i hi
  have hentry : ∀ e ∈ l.zip rakes, e.1 ∈ l := fun e he => (List.of_mem_zip he).1
  have hamounts : ((l.zip rakes).map fun e => e.1.amount).sum = t.sumTotalBets := by
    rw [← hsum, show ((l.zip rakes).map fun e => e.1.amount) =
      ((l.zip rakes).map Prod.fst).map SidePot.amount from (List.map_map).symm,
      List.map_fst_zip hrl.ge]
  obtain ⟨u, hu⟩ := exists_foldlM_planPot boards 0 (t.startPlan boards l rakes.sum) h.seats
    (fun e he => ⟨(hpos e.1 (hentry e he)).1, hfit e he⟩)
    (fun e he => by
      obtain ⟨j, hj⟩ := Mask.ne_zero_iff.mp (hpos e.1 (hentry e he)).2
      exact ⟨j, hin e.1 (hentry e he) j hj, hj⟩)
    (fun e he i _ hi => by
      obtain ⟨i, rfl, hc⟩ := hmem e.1 (hentry e he) i hi
      exact showsHand_of_validateExposedCards h.cards i (occupied_of_contends hc) hc.2.1 hc.2.2)
    (by
      rw [hamounts, show (t.startPlan boards l rakes.sum).awards.sum = 0 from SeatAmounts.sum_zero]
      have := h.bound
      omega)
  obtain ⟨pots, hpots, rfl, -⟩ := foldlM_planPot_of_ok h.seats hu
  have hvalid := finalPlan_valid h.seats hrl hlen hsum hpots hin
  have hval := SettlementPlan.validate_of_valid hvalid (by
    rw [show (finalPlan (t.startPlan boards l rakes.sum) pots).grossPot = t.sumTotalBets from
      (recordAll_frame _ _ _).2.2.1]
    exact h.bound.trans hbig)
  have hcontested : ((l.filter fun p => 2 ≤ seatMaskCount p.eligibleSeats).map
      SidePot.amount).sum ≤ u64Max := by
    have := (List.filter_sublist (l := l)
      (p := fun p => decide (2 ≤ seatMaskCount p.eligibleSeats))).map SidePot.amount
    have := this.sum_le_sum (fun _ _ => Nat.zero_le _)
    have := h.bound
    omega
  refine ⟨finalPlan (t.startPlan boards l rakes.sum) pots, ?_⟩
  simp only [deriveSettlementPlanForBoards, Fallible.bind_eq_ok, Fallible.ensure_eq_ok,
    Fallible.mapError_eq_ok, Fallible.checkedSum_eq_ok, SeatAmounts.total_eq_ok,
    Fallible.pure_eq_ok]
  refine ⟨(), h.valid, (), h.seats, (), h.cards, _, hl, (), ?_, _, ⟨?_, rfl⟩, rakes, ?_, _,
    ⟨?_, rfl⟩, _, ?_, _, ⟨?_, rfl⟩, (), hval, rfl⟩
  · rw [ofActive_total, hsum]
    exact ⟨h.bound, h.pot⟩
  · rwa [ofActive_active]
  · rwa [ofActive_active]
  · exact hrsum.trans (h.bound.trans hbig)
  · rw [ofActive_active, ofActive_total, hsum]
    exact hu
  · have hc := hvalid.conserves
    have hg : (finalPlan (t.startPlan boards l rakes.sum) pots).grossPot = t.sumTotalBets :=
      (recordAll_frame _ _ _).2.2.1
    have hb := h.bound
    change (finalPlan (t.startPlan boards l rakes.sum) pots).awards.sum ≤ u64Max
    omega

/-- A showdown has a plan exactly when it is ready. -/
theorem exists_derive_iff :
    (∃ plan, t.deriveSettlementPlanForBoards boards = .ok plan) ↔ t.ShowdownReady boards :=
  ⟨fun ⟨_, h⟩ => ready_of_derive h, exists_derive⟩

end TexasPokerTable

end TexasPoker
