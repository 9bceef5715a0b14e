import TexasPoker.Poker.Layers
import TexasPoker.Settlement.Winners

/-! # Planning one layer

A layer is planned exactly when it has chips, an eligible seat at the table, a rake it can
bear, and shown hands; the plan then records a settled layer.
-/

namespace TexasPoker

open SidePot SettlementPlan

/-- Record the plan of one layer. -/
def SettlementPlan.record (plan : SettlementPlan) (index : ℕ) (pot : SettlementPotPlan) :
    SettlementPlan :=
  { plan with
    winnerMask := plan.winnerMask ||| pot.winnerMask
    awards := fun i => plan.awards i + pot.awards i }.putPot index pot

/-- The plan of one layer, apart from the seats of the table. -/
structure SettlementPotPlan.Planned (schedule : SettlementRunoutSchedule) (side : SidePot)
    (rake index : ℕ) (pot : SettlementPotPlan) : Prop where
  amount : side.amount ≠ 0
  eligible : side.eligibleSeats ≠ 0
  rake_le : rake ≤ side.amount
  index_eq : pot.potIndex = index
  gross_eq : pot.grossAmount = side.amount
  rake_eq : pot.rake = rake
  net_eq : pot.netAmount = side.amount - rake
  mask_eq : pot.eligibleMask = side.eligibleSeats
  runouts : ∀ r, pot.RunoutValid schedule r
  split : (pot.runouts 0).amount + (pot.runouts 1).amount = pot.netAmount
  paid : ∀ i, pot.awards i ≠ 0 → Mask.mem pot.winnerMask i = true

namespace SettlementPotPlan

variable {schedule : SettlementRunoutSchedule} {side : SidePot} {rake index n : ℕ}
  {pot : SettlementPotPlan}

theorem mem_eligible_of_winner (h : ∀ r, pot.RunoutValid schedule r) {j : ℕ}
    (hj : Mask.mem pot.winnerMask j = true) : Mask.mem pot.eligibleMask j = true := by
  have hrunout : ∀ r, Mask.mem (pot.runouts r).winnerMask j = true →
      Mask.mem pot.eligibleMask j = true := fun r hr => by
    have hv := h r
    unfold RunoutValid at hv
    split at hv
    · rw [hv] at hr
      simp [RunoutPotPlan.inactive] at hr
    · exact Mask.and_not_eq_zero_iff.mp hv.winners j hr
  rw [winnerMask, Mask.mem_or, Bool.or_eq_true] at hj
  exact hj.elim (hrunout 0) (hrunout 1)

/-- A planned layer whose eligible seats are at the table is settled. -/
theorem Planned.settled (h : pot.Planned schedule side rake index) (hn : n ≤ maxSeats)
    (hin : ∀ j, Mask.mem side.eligibleSeats j = true → j < n) : pot.Settled schedule n index where
  index := h.index_eq
  seats := by rwa [and_not_validSeatMask hn, h.mask_eq]
  net := by rw [h.rake_eq, h.gross_eq, h.net_eq]; exact ⟨h.rake_le, rfl⟩
  eligible := by
    rw [h.mask_eq]
    exact fun h0 => h.eligible (Mask.size_eq_zero_iff.mp h0)
  runouts := h.runouts
  split := h.split

end SettlementPotPlan

namespace TexasPokerTable

variable {G : Type} {t : TexasPokerTable G} {boards : SettlementBoards} {side : SidePot}
  {net rake index : ℕ} {plan plan' : SettlementPlan}

/-- The plan of one contested runout. -/
def runoutPlan (t : TexasPokerTable G) (amount : ℕ) (winners : SeatMask)
    (ranks : Fin maxSeats → Option HandRank) : RunoutPotPlan :=
  ⟨amount, winners, ranks, equalSplit amount winners t.button t.rules.maxPlayers⟩

/-- The runouts of a planned layer: on each board the winners split its part, and an uncontested
layer goes back to its seat. -/
def Drawn (t : TexasPokerTable G) (boards : SettlementBoards) (pot : SettlementPotPlan) : Prop :=
  if pot.isContested then ∀ r : Fin 2, r.1 < boards.runoutCount → ∃ winners ranks,
    t.findWinners pot.eligibleMask (boards.board r) = .ok (winners, ranks) ∧
      pot.runouts r = t.runoutPlan (splitAcrossRunouts pot.netAmount boards.runoutCount r) winners ranks
  else pot.runouts 0 = t.runoutPlan pot.netAmount pot.eligibleMask fun _ => none

theorem planRunout_eq_ok {acc acc' : SettlementPlan × (Fin 2 → RunoutPotPlan)} {k : ℕ} :
    t.planRunout boards side net acc k = .ok acc' ↔
      ∃ winners ranks,
        t.findWinners side.eligibleSeats (boards.board k) = .ok (winners, ranks) ∧
          (∃ w < t.rules.maxPlayers, Mask.mem winners w = true) ∧
          let runout := t.runoutPlan
            (splitAcrossRunouts net boards.runoutCount (Fin.ofNat 2 k)) winners ranks
          (∀ i, acc.1.awards i + runout.awards i ≤ u64Max) ∧
            acc' = ({ acc.1 with
                winnerMask := acc.1.winnerMask ||| runout.winnerMask
                awards := fun i => acc.1.awards i + runout.awards i },
              fun r => if r.1 = k then runout else acc.2 r) := by
  simp only [planRunout, Fallible.bind_eq_ok, splitAmongWinners_eq_ok, SeatAmounts.add_eq_ok,
    Fallible.pure_eq_ok, Prod.exists, runoutPlan]
  constructor
  · rintro ⟨winners, ranks, hf, _, ⟨hw, rfl⟩, _, ⟨ha, rfl⟩, rfl⟩
    exact ⟨winners, ranks, hf, hw, ha, rfl⟩
  · rintro ⟨winners, ranks, hf, hw, ha, rfl⟩
    exact ⟨winners, ranks, hf, _, ⟨hw, rfl⟩, _, ⟨ha, rfl⟩, rfl⟩

theorem planUncontested_eq_ok {acc' : SettlementPlan × (Fin 2 → RunoutPotPlan)} :
    t.planUncontested side net plan = .ok acc' ↔
      (∃ w < t.rules.maxPlayers, Mask.mem side.eligibleSeats w = true) ∧
        let runout := t.runoutPlan net side.eligibleSeats fun _ => none
        (∀ i, plan.awards i + runout.awards i ≤ u64Max) ∧
          acc' = ({ plan with
              winnerMask := plan.winnerMask ||| runout.winnerMask
              awards := fun i => plan.awards i + runout.awards i },
            fun r => if r.1 = 0 then runout else .inactive) := by
  simp only [planUncontested, Fallible.bind_eq_ok, splitAmongWinners_eq_ok,
    SeatAmounts.add_eq_ok, Fallible.pure_eq_ok, runoutPlan]
  constructor
  · rintro ⟨_, ⟨hw, rfl⟩, _, ⟨ha, rfl⟩, rfl⟩
    exact ⟨hw, ha, rfl⟩
  · rintro ⟨hw, ha, rfl⟩
    exact ⟨_, ⟨hw, rfl⟩, _, ⟨ha, rfl⟩, rfl⟩

theorem paid_runoutPlan (t : TexasPokerTable G) (amount : ℕ) {winners : SeatMask}
    (ranks : Fin maxSeats → Option HandRank) {i : Fin maxSeats}
    (h : (t.runoutPlan amount winners ranks).awards i ≠ 0) :
    Mask.mem winners i = true := (mem_of_equalSplit h).2

/-- A contested runout is settled. -/
theorem runoutPlan_settled (pot : SettlementPotPlan) (amount : ℕ) {winners : SeatMask}
    {ranks : Fin maxSeats → Option HandRank} {board : List Card}
    (hn : t.rules.maxPlayers ≤ maxSeats) (hc : pot.isContested = true)
    (hf : t.findWinners pot.eligibleMask board = .ok (winners, ranks))
    (hw : ∃ w < t.rules.maxPlayers, Mask.mem winners w = true) :
    (t.runoutPlan amount winners ranks).Settled pot where
  active := decide_eq_true (findWinners_of_ok hn hf).1
  winners := Mask.and_not_eq_zero_iff.mpr fun j hj => ((findWinners_of_ok hn hf).2 j hj).1
  canonical := .inl hc
  paid := sum_equalSplit hn hw

/-- The pot of a contested layer on one board or two. -/
theorem planned_of_contested {k : ℕ} {runouts : Fin 2 → RunoutPotPlan}
    (hn : t.rules.maxPlayers ≤ maxSeats) (hz : side.amount ≠ 0) (he : side.eligibleSeats ≠ 0)
    (hr : rake ≤ side.amount) (hc : 2 ≤ seatMaskCount side.eligibleSeats)
    (h : (List.range boards.runoutCount).foldlM
      (t.planRunout boards side (side.amount - rake)) (plan, fun _ => .inactive) =
        .ok (plan', runouts)) :
    let pot : SettlementPotPlan :=
      ⟨k, side.amount, rake, side.amount - rake, side.eligibleSeats, runouts⟩
    pot.Planned boards.schedule side rake k ∧ plan'.putPot k pot = plan.record k pot ∧
      t.Drawn boards pot := by
  intro pot
  have hcont : pot.isContested = true := by simpa [SettlementPotPlan.isContested, pot] using hc
  cases boards with
  | single board =>
    have hrange : List.range (SettlementBoards.single board).runoutCount = [0] := rfl
    simp only [hrange, List.foldlM_cons, List.foldlM_nil, Fallible.bind_eq_ok,
      Fallible.pure_eq_ok, planRunout_eq_ok] at h
    obtain ⟨_, ⟨winners, ranks, hf, hw, -, rfl⟩, h⟩ := h
    obtain ⟨rfl, rfl⟩ := Prod.mk.inj h
    have hset := runoutPlan_settled pot (splitAcrossRunouts (side.amount - rake) 1 0) hn hcont hf hw
    refine ⟨⟨hz, he, hr, rfl, rfl, rfl, rfl, rfl, fun r => ?_, ?_, fun i hi => ?_⟩, ?_, ?_⟩
    · unfold SettlementPotPlan.RunoutValid SettlementPotPlan.activeRunouts
      rw [if_pos hcont]
      revert r
      rw [Fin.forall_fin_two]
      exact ⟨hset, rfl⟩
    · exact sum_splitAcrossRunouts (side.amount - rake) 1
    · rw [SettlementPotPlan.winnerMask, Mask.mem_or, Bool.or_eq_true]
      refine .inl (paid_runoutPlan t (splitAcrossRunouts (side.amount - rake) 1 0) ranks
        fun h0 => hi ?_)
      change _ + 0 = 0
      exact h0
    · simp [pot, SettlementPlan.record, SettlementPotPlan.awards, SettlementPotPlan.winnerMask,
        RunoutPotPlan.inactive, SeatAmounts.zero]
    · rw [Drawn, if_pos hcont]
      rintro r hr
      obtain rfl : r = 0 := Fin.ext (Nat.lt_one_iff.mp hr)
      exact ⟨winners, ranks, hf, rfl⟩
  | twice start board1 board2 =>
    have hrange : List.range (SettlementBoards.twice start board1 board2).runoutCount = [0, 1] :=
      rfl
    simp only [hrange, List.foldlM_cons, List.foldlM_nil, Fallible.bind_eq_ok,
      Fallible.pure_eq_ok, planRunout_eq_ok] at h
    obtain ⟨_, ⟨winners, ranks, hf, hw, -, rfl⟩, _, ⟨winners', ranks', hf', hw', -, rfl⟩, h⟩ := h
    obtain ⟨rfl, rfl⟩ := Prod.mk.inj h
    have hset := runoutPlan_settled pot (splitAcrossRunouts (side.amount - rake) 2 0) hn hcont hf hw
    have hset' := runoutPlan_settled pot (splitAcrossRunouts (side.amount - rake) 2 1) hn hcont
      hf' hw'
    refine ⟨⟨hz, he, hr, rfl, rfl, rfl, rfl, rfl, fun r => ?_, ?_, fun i hi => ?_⟩, ?_, ?_⟩
    · unfold SettlementPotPlan.RunoutValid SettlementPotPlan.activeRunouts
      rw [if_pos hcont]
      revert r
      rw [Fin.forall_fin_two]
      exact ⟨hset, hset'⟩
    · exact sum_splitAcrossRunouts (side.amount - rake) 2
    · rw [SettlementPotPlan.winnerMask, Mask.mem_or, Bool.or_eq_true]
      by_cases h0 : (t.runoutPlan (splitAcrossRunouts (side.amount - rake) 2 0) winners
          ranks).awards i = 0
      · refine .inr (paid_runoutPlan t (splitAcrossRunouts (side.amount - rake) 2 1) ranks'
          fun h1 => hi ?_)
        change _ + _ = 0
        exact Nat.add_eq_zero_iff.mpr ⟨h0, h1⟩
      · exact .inl (paid_runoutPlan t _ _ h0)
    · simp [pot, SettlementPlan.record, SettlementPotPlan.awards, SettlementPotPlan.winnerMask,
        BitVec.or_assoc, add_assoc]
    · rw [Drawn, if_pos hcont, Fin.forall_fin_two]
      exact ⟨fun _ => ⟨winners, ranks, hf, rfl⟩, fun _ => ⟨winners', ranks', hf', rfl⟩⟩

/-- The pot of an uncontested layer goes to its seat. -/
theorem planned_of_uncontested {k : ℕ} (boards : SettlementBoards)
    {runouts : Fin 2 → RunoutPotPlan} (hn : t.rules.maxPlayers ≤ maxSeats) (hz : side.amount ≠ 0)
    (he : side.eligibleSeats ≠ 0) (hr : rake ≤ side.amount)
    (hc : ¬ 2 ≤ seatMaskCount side.eligibleSeats)
    (h : t.planUncontested side (side.amount - rake) plan = .ok (plan', runouts)) :
    let pot : SettlementPotPlan :=
      ⟨k, side.amount, rake, side.amount - rake, side.eligibleSeats, runouts⟩
    pot.Planned boards.schedule side rake k ∧ plan'.putPot k pot = plan.record k pot ∧
      t.Drawn boards pot := by
  intro pot
  have hcont : ¬ pot.isContested = true := by simpa [SettlementPotPlan.isContested, pot] using hc
  obtain ⟨hw, -, h⟩ := planUncontested_eq_ok.mp h
  obtain ⟨rfl, rfl⟩ := Prod.mk.inj h
  refine ⟨⟨hz, he, hr, rfl, rfl, rfl, rfl, rfl, fun r => ?_, rfl, fun i hi => ?_⟩, ?_, ?_⟩
  · unfold SettlementPotPlan.RunoutValid SettlementPotPlan.activeRunouts
    rw [if_neg hcont]
    revert r
    rw [Fin.forall_fin_two]
    refine ⟨⟨decide_eq_true he, ?_, .inr ⟨rfl, rfl, fun _ => rfl⟩, sum_equalSplit hn hw⟩, rfl⟩
    exact Mask.and_not_eq_zero_iff.mpr fun j hj => hj
  · rw [SettlementPotPlan.winnerMask, Mask.mem_or, Bool.or_eq_true]
    refine .inl (paid_runoutPlan t (side.amount - rake) (fun _ => none) fun h0 => hi ?_)
    change _ + 0 = 0
    exact h0
  · simp [pot, SettlementPlan.record, SettlementPotPlan.awards, SettlementPotPlan.winnerMask,
      RunoutPotPlan.inactive, SeatAmounts.zero]
  · rw [Drawn, if_neg hcont]
    rfl

/-- An accepted layer is planned and recorded. -/
theorem planPot_of_ok (hn : t.rules.maxPlayers ≤ maxSeats)
    (h : t.planPot boards plan ((side, rake), index) = .ok plan') :
    ∃ pot : SettlementPotPlan, pot.Planned boards.schedule side rake index ∧
      plan' = plan.record index pot ∧ t.Drawn boards pot := by
  simp only [planPot, Fallible.bind_eq_ok, Fallible.ensure_eq_ok, Fallible.checkedSub_eq_ok,
    not_or] at h
  obtain ⟨-, ⟨hz, he⟩, _, ⟨hr, rfl⟩, h⟩ := h
  split at h
  · rename_i hc
    simp only [Fallible.bind_eq_ok, Fallible.pure_eq_ok, Prod.exists] at h
    obtain ⟨u, runouts, h, rfl⟩ := h
    obtain ⟨hp, heq⟩ := planned_of_contested (k := index) hn hz he hr hc h
    exact ⟨_, hp, heq⟩
  · rename_i hc
    simp only [Fallible.bind_eq_ok, Fallible.pure_eq_ok, Prod.exists] at h
    obtain ⟨u, runouts, h, rfl⟩ := h
    obtain ⟨hp, heq⟩ := planned_of_uncontested (k := index) boards hn hz he hr hc h
    exact ⟨_, hp, heq⟩

/-- An award that fits machine words in total fits them seat by seat. -/
theorem awards_fit {a b : SeatAmounts} (h : a.sum + b.sum ≤ u64Max) (i : Fin maxSeats) :
    a i + b i ≤ u64Max := by
  have := a.le_sum i
  have := b.le_sum i
  omega

section Total

variable (hn : t.rules.maxPlayers ≤ maxSeats)
  (hw : ∃ w < t.rules.maxPlayers, Mask.mem side.eligibleSeats w = true)
  (hhand : ∀ i < t.rules.maxPlayers, Mask.mem side.eligibleSeats i = true → t.ShowsHand i)

include hn hw hhand

theorem exists_planRunout (boards : SettlementBoards) (net : ℕ)
    (acc : SettlementPlan × (Fin 2 → RunoutPotPlan)) (k : ℕ)
    (hsum : acc.1.awards.sum + splitAcrossRunouts net boards.runoutCount (Fin.ofNat 2 k) ≤ u64Max) :
    ∃ acc', t.planRunout boards side net acc k = .ok acc' ∧ acc'.1.awards.sum =
      acc.1.awards.sum + splitAcrossRunouts net boards.runoutCount (Fin.ofNat 2 k) := by
  obtain ⟨winners, ranks, hf⟩ := exists_findWinners (boards.board k) hn hw hhand
  obtain ⟨hne, hmem⟩ := findWinners_of_ok hn hf
  obtain ⟨w, hm⟩ := Mask.ne_zero_iff.mp hne
  have hsome : ∃ w < t.rules.maxPlayers, Mask.mem winners w = true := ⟨w, (hmem w hm).2, hm⟩
  have hs : (t.runoutPlan (splitAcrossRunouts net boards.runoutCount (Fin.ofNat 2 k)) winners
      ranks).awards.sum = splitAcrossRunouts net boards.runoutCount (Fin.ofNat 2 k) :=
    sum_equalSplit hn hsome
  refine ⟨_, planRunout_eq_ok.mpr ⟨winners, ranks, hf, hsome, awards_fit (by rwa [hs]), rfl⟩, ?_⟩
  exact (SeatAmounts.sum_add).trans (by rw [hs])

/-- A layer with chips, an eligible seat at the table and shown hands is accepted. -/
theorem exists_planPot (boards : SettlementBoards) (plan : SettlementPlan) (index : ℕ) (hz : side.amount ≠ 0) (hr : rake ≤ side.amount)
    (hsum : plan.awards.sum + side.amount ≤ u64Max) :
    ∃ plan', t.planPot boards plan ((side, rake), index) = .ok plan' := by
  have he : side.eligibleSeats ≠ 0 := Mask.ne_zero_iff.mpr ⟨_, hw.choose_spec.2⟩
  have hnot : ¬ (side.amount = 0 ∨ side.eligibleSeats = 0) := not_or.mpr ⟨hz, he⟩
  have hsub : checkedSub side.amount rake
      (.serialization "settlement: pot rake exceeds gross amount" : PokerL1Error) =
        .ok (side.amount - rake) := if_pos hr
  simp only [planPot, Fallible.ensure_pos hnot, hsub, Fallible.ok_bind]
  split
  · have hfold : ∃ acc, (List.range boards.runoutCount).foldlM
        (t.planRunout boards side (side.amount - rake)) (plan, fun _ => .inactive) = .ok acc := by
      have hsplit := sum_splitAcrossRunouts (side.amount - rake) boards.runoutCount
      obtain ⟨acc, hacc, hs⟩ := exists_planRunout hn hw hhand boards (side.amount - rake)
        (plan, fun _ => .inactive) 0 (by
          change _ + splitAcrossRunouts _ _ 0 ≤ _
          dsimp only
          omega)
      cases boards with
      | single board =>
        have hrange : List.range (SettlementBoards.single board).runoutCount = [0] := rfl
        rw [hrange, List.foldlM_cons, hacc]
        exact ⟨acc, rfl⟩
      | twice start board1 board2 =>
        have hrange : List.range (SettlementBoards.twice start board1 board2).runoutCount = [0, 1] :=
          rfl
        obtain ⟨acc', hacc', -⟩ := exists_planRunout hn hw hhand (.twice start board1 board2)
          (side.amount - rake) acc 1 (by
            rw [hs]
            change _ + splitAcrossRunouts _ _ 0 + splitAcrossRunouts _ _ 1 ≤ _
            dsimp only
            omega)
        rw [hrange, List.foldlM_cons, hacc, Fallible.ok_bind, List.foldlM_cons, hacc']
        exact ⟨acc', rfl⟩
    obtain ⟨acc, hacc⟩ := hfold
    rw [hacc]
    exact ⟨_, rfl⟩
  · have hs : (t.runoutPlan (side.amount - rake) side.eligibleSeats fun _ => none).awards.sum =
        side.amount - rake := sum_equalSplit hn hw
    have h := planUncontested_eq_ok.mpr ⟨hw, awards_fit (a := plan.awards) (by
      rw [hs]
      omega), rfl⟩
    rw [h]
    exact ⟨_, rfl⟩

end Total

end TexasPokerTable

end TexasPoker
