import TexasPoker.Runtime.Client
import TexasPoker.Settlement.FoldWin
import TexasPoker.Settlement.Totality

/-! # Spectators

What a seat that waits for the next hand does to the settlement of the current one. Both
planners count it as unfolded: a showdown then asks it for cards, and a fold win finds one
survivor too many.
-/

namespace TexasPoker

/-- The same plan, or no plan from either. -/
def SameResult (x y : PokerL1Result SettlementPlan) : Prop := ∀ plan, x = .ok plan ↔ y = .ok plan

variable {x y : PokerL1Result SettlementPlan}

theorem SameResult.of_error (hx : ∀ plan, x ≠ .ok plan) :
    SameResult x y ↔ ¬ ∃ plan, y = .ok plan := by
  constructor
  · rintro h ⟨plan, hy⟩
    exact hx plan ((h plan).mpr hy)
  · intro h plan
    exact ⟨fun hp => absurd hp (hx plan), fun hp => absurd ⟨plan, hp⟩ h⟩

namespace TexasPokerTable

variable {G : Type} {t : TexasPokerTable G} {w : Fin maxSeats → Bool} {boards : SettlementBoards}

/-- The table without the players of `w` that wait for the next hand. -/
def vacateWaiting (t : TexasPokerTable G) (w : Fin maxSeats → Bool) : TexasPokerTable G :=
  { t with seats := fun i => if w i && (t.seats i).isWaiting then .empty else t.seats i }

/-- Somebody of `w` waits. -/
def HasSpectator (t : TexasPokerTable G) (w : Fin maxSeats → Bool) : Prop :=
  ∃ i, w i = true ∧ (t.seats i).isWaiting = true

/-- Both planners return the same without the players of `w` that wait. -/
structure IgnoresSpectators (t : TexasPokerTable G) (w : Fin maxSeats → Bool)
    (boards : SettlementBoards) : Prop where
  showdown : SameResult (t.deriveSettlementPlanForBoards boards)
    ((t.vacateWaiting w).deriveSettlementPlanForBoards boards)
  foldWin : SameResult t.deriveFoldWinPlan (t.vacateWaiting w).deriveFoldWinPlan

theorem vacateWaiting_of_none (h : ¬ t.HasSpectator w) : t.vacateWaiting w = t := by
  have hs : (t.vacateWaiting w).seats = t.seats := by
    funext i
    refine if_neg fun hi => h ⟨i, ?_⟩
    simpa using hi
  exact congrArg (fun seats => { t with seats }) hs

theorem seats_vacateWaiting_of_pos {i : Fin maxSeats} (h : (w i && (t.seats i).isWaiting) = true) :
    (t.vacateWaiting w).seats i = .empty := if_pos h

theorem seats_vacateWaiting_of_neg {i : Fin maxSeats} (h : ¬ (w i && (t.seats i).isWaiting) = true) :
    (t.vacateWaiting w).seats i = t.seats i := if_neg h

theorem totalBet_vacateWaiting (i : Fin maxSeats) :
    ((t.vacateWaiting w).seats i).totalBet = (t.seats i).totalBet := by
  by_cases hi : (w i && (t.seats i).isWaiting) = true
  · obtain ⟨o, ho⟩ := Seat.isWaiting_iff.mp (Bool.and_eq_true_iff.mp hi).2
    rw [seats_vacateWaiting_of_pos hi, ho]
    rfl
  · rw [seats_vacateWaiting_of_neg hi]

/-! ## Showdown -/

/-- A waiting player has no cards to show. -/
theorem derive_ne_ok_of_waiting {i : Fin maxSeats} (hi : (t.seats i).isWaiting = true)
    (plan : SettlementPlan) : t.deriveSettlementPlanForBoards boards ≠ .ok plan := by
  intro h
  obtain ⟨o, ho⟩ := Seat.isWaiting_iff.mp hi
  obtain ⟨hand, hh, -⟩ := showsHand_of_validateExposedCards (ready_of_derive h).cards i
    (by rw [ho]; rfl) (by rw [ho]; rfl) (by rw [ho]; rfl)
  rw [seat_val, ho] at hh
  cases hh

theorem sameShowdown_iff :
    SameResult (t.deriveSettlementPlanForBoards boards)
        ((t.vacateWaiting w).deriveSettlementPlanForBoards boards) ↔
      ¬ t.HasSpectator w ∨ ¬ (t.vacateWaiting w).ShowdownReady boards := by
  by_cases hw : t.HasSpectator w
  · have ⟨i, _, hi⟩ := hw
    rw [SameResult.of_error (derive_ne_ok_of_waiting hi), exists_derive_iff]
    simp [hw]
  · simp [vacateWaiting_of_none hw, SameResult, hw]

/-! ## Fold win -/

/-- The pot holds the contributions, and a board of three cards can be raked. -/
structure FoldWinPayable (t : TexasPokerTable G) : Prop where
  seats : t.rules.maxPlayers ≤ maxSeats
  bound : t.sumTotalBets ≤ maxTotalBet
  pot : t.sumTotalBets = t.pot
  rake : 3 ≤ t.communityCards.len →
    t.rules.rakeMode = rakeModeNone ∨ t.rules.rakeMode = rakeModePercentage

/-- Exactly one seat of the table counts as unfolded. -/
def SoleUnfolded (t : TexasPokerTable G) : Prop :=
  ∃ winner < t.rules.maxPlayers, t.unfoldedSeats = [winner]

theorem exists_computeRake {rules : TableRules} {gross : ℕ} :
    (∃ rake, computeRake rules gross = .ok rake) ↔
      rules.rakeMode = rakeModeNone ∨ rules.rakeMode = rakeModePercentage := by
  unfold computeRake
  by_cases hn : rules.rakeMode = rakeModeNone
  · simp [hn]
  by_cases hp : rules.rakeMode = rakeModePercentage <;> simp [hn, hp]

theorem exists_foldWinRake (winner : ℕ) :
    (∃ rake, t.foldWinRake winner = .ok rake) ↔ (3 ≤ t.communityCards.len →
      t.rules.rakeMode = rakeModeNone ∨ t.rules.rakeMode = rakeModePercentage) := by
  unfold foldWinRake
  by_cases h : 3 ≤ t.communityCards.len
  · rw [if_pos h, exists_computeRake]
    simp [h]
  · simp [h]

theorem exists_deriveFoldWinPlan_iff :
    (∃ plan, t.deriveFoldWinPlan = .ok plan) ↔ t.FoldWinPayable ∧ t.SoleUnfolded := by
  simp only [deriveFoldWinPlan_eq_ok]
  constructor
  · rintro ⟨_, hn, hb, hp, winner, rake, hu, hw, hr, -⟩
    exact ⟨⟨hn, hb, hp, (exists_foldWinRake _).mp ⟨rake, hr⟩⟩, winner, hw, hu⟩
  · rintro ⟨⟨hn, hb, hp, hr⟩, winner, hw, hu⟩
    obtain ⟨rake, hr⟩ := (exists_foldWinRake winner).mpr hr
    exact ⟨_, hn, hb, hp, winner, rake, hu, hw, hr, rfl⟩

theorem foldWinPayable_vacateWaiting : (t.vacateWaiting w).FoldWinPayable ↔ t.FoldWinPayable := by
  have hsum : (t.vacateWaiting w).sumTotalBets = t.sumTotalBets := by
    simp only [sumTotalBets, totalBet_vacateWaiting]
  constructor
  · rintro ⟨hn, hb, hp, hr⟩
    exact ⟨hn, hsum ▸ hb, hsum ▸ hp, hr⟩
  · rintro ⟨hn, hb, hp, hr⟩
    exact ⟨hn, hsum.symm ▸ hb, hsum.symm ▸ hp, hr⟩

theorem mem_unfoldedSeats {j : ℕ} :
    j ∈ t.unfoldedSeats ↔ ∃ i : Fin maxSeats, i.1 = j ∧ (t.seats i).isOccupied = true ∧
      (t.seats i).isFolded = false ∧ (t.seats i).hasLeftHand = false := by
  simp [unfoldedSeats, and_comm, and_assoc]

/-- A waiting player counts as unfolded. -/
theorem mem_unfoldedSeats_of_waiting {i : Fin maxSeats} (h : (t.seats i).isWaiting = true) :
    i.1 ∈ t.unfoldedSeats := by
  rw [mem_unfoldedSeats]
  obtain ⟨o, ho⟩ := Seat.isWaiting_iff.mp h
  exact ⟨i, rfl, by rw [ho]; rfl, by rw [ho]; rfl, by rw [ho]; rfl⟩

theorem mem_unfoldedSeats_vacateWaiting {j : ℕ} :
    j ∈ (t.vacateWaiting w).unfoldedSeats ↔ j ∈ t.unfoldedSeats ∧
      ∀ i : Fin maxSeats, i.1 = j → (w i && (t.seats i).isWaiting) = false := by
  simp only [mem_unfoldedSeats]
  constructor
  · rintro ⟨i, rfl, ho, hf, hl⟩
    by_cases hi : (w i && (t.seats i).isWaiting) = true
    · rw [seats_vacateWaiting_of_pos hi] at ho
      cases ho
    · rw [seats_vacateWaiting_of_neg hi] at ho hf hl
      refine ⟨⟨i, rfl, ho, hf, hl⟩, fun j hj => ?_⟩
      rw [Fin.ext hj]
      simpa using hi
  · rintro ⟨⟨i, rfl, ho, hf, hl⟩, h⟩
    refine ⟨i, rfl, ?_⟩
    rw [seats_vacateWaiting_of_neg (Bool.not_eq_true _ ▸ h i rfl)]
    exact ⟨ho, hf, hl⟩

/-- The only unfolded seat is never the same with and without a spectator. -/
theorem not_unfoldedSeats_eq (hw : t.HasSpectator w) {winner winner' : ℕ}
    (h : t.unfoldedSeats = [winner]) : (t.vacateWaiting w).unfoldedSeats ≠ [winner'] := by
  obtain ⟨i, hwi, hi⟩ := hw
  intro h'
  have hmem := mem_unfoldedSeats_of_waiting hi
  rw [h, List.mem_singleton] at hmem
  have hmem' : winner' ∈ (t.vacateWaiting w).unfoldedSeats := by rw [h', List.mem_singleton]
  rw [mem_unfoldedSeats_vacateWaiting, h, List.mem_singleton] at hmem'
  obtain ⟨rfl, hno⟩ := hmem'
  have := hno i hmem
  rw [hwi, hi] at this
  cases this

theorem sameFoldWin_iff :
    SameResult t.deriveFoldWinPlan (t.vacateWaiting w).deriveFoldWinPlan ↔
      ¬ t.HasSpectator w ∨
        ¬ (t.FoldWinPayable ∧ (t.SoleUnfolded ∨ (t.vacateWaiting w).SoleUnfolded)) := by
  by_cases hw : t.HasSpectator w
  · have hne : ¬ (t.SoleUnfolded ∧ (t.vacateWaiting w).SoleUnfolded) := by
      rintro ⟨⟨_, -, h⟩, _, -, h'⟩
      exact not_unfoldedSeats_eq hw h h'
    have hx := exists_deriveFoldWinPlan_iff (t := t)
    have hy := exists_deriveFoldWinPlan_iff (t := t.vacateWaiting w)
    rw [foldWinPayable_vacateWaiting] at hy
    constructor
    · intro h
      refine .inr fun ⟨hp, hs⟩ => ?_
      have : ∃ plan, t.deriveFoldWinPlan = .ok plan ∧
          (t.vacateWaiting w).deriveFoldWinPlan = .ok plan := by
        rcases hs with hs | hs
        · obtain ⟨plan, hplan⟩ := hx.mpr ⟨hp, hs⟩
          exact ⟨plan, hplan, (h plan).mp hplan⟩
        · obtain ⟨plan, hplan⟩ := hy.mpr ⟨hp, hs⟩
          exact ⟨plan, (h plan).mpr hplan, hplan⟩
      obtain ⟨plan, h₁, h₂⟩ := this
      exact hne ⟨(hx.mp ⟨plan, h₁⟩).2, (hy.mp ⟨plan, h₂⟩).2⟩
    · rintro (h | h)
      · exact absurd hw h
      · intro plan
        exact ⟨fun hp => absurd ((hx.mp ⟨plan, hp⟩).imp_right .inl) h,
          fun hp => absurd ((hy.mp ⟨plan, hp⟩).imp_right .inr) h⟩
  · simp [vacateWaiting_of_none hw, SameResult, hw]

/-- Waiting players do not influence the planners exactly when there are none, or when neither
a showdown nor a fold win could be planned anyway. -/
theorem ignoresSpectators_iff (t : TexasPokerTable G) (w : Fin maxSeats → Bool)
    (boards : SettlementBoards) :
    t.IgnoresSpectators w boards ↔ ¬ t.HasSpectator w ∨
      (¬ (t.vacateWaiting w).ShowdownReady boards ∧
        ¬ (t.FoldWinPayable ∧ (t.SoleUnfolded ∨ (t.vacateWaiting w).SoleUnfolded))) := by
  have h : t.IgnoresSpectators w boards ↔ _ ∧ _ := ⟨fun h => ⟨h.1, h.2⟩, fun h => ⟨h.1, h.2⟩⟩
  rw [h, sameShowdown_iff, sameFoldWin_iff, ← or_and_left]

end TexasPokerTable

namespace Transparent

/-- Two players are all in before the flop, and a third, who joined during the shuffle, waits. -/
def spectatedShowdown : TexasPokerTable ℤ :=
  played (.new 4 50 100)
    [.join 1 1000 2, .join 2 1000 3, .start, .join 3 500 5, .shuffle 0, .shuffle 1, .reveal 0,
      .reveal 1, .act .raise 1 (leBytes 8 1000), .act .call 0 [], .reveal 0, .reveal 1, .reveal 0,
      .reveal 1, .reveal 0, .reveal 1, .reveal 0, .reveal 1]

/-- The showdown has a plan without its spectator and none with it. -/
theorem spectator_blocks_showdown :
    spectatedShowdown.Reachable ∧ (spectatedShowdown.seats 2).isWaiting = true ∧
      ¬ spectatedShowdown.IgnoresSpectators (fun i => i = 2)
        (.single spectatedShowdown.communityCards.cards) := by
  obtain ⟨hw, hok⟩ : (spectatedShowdown.seats 2).isWaiting = true ∧
      ((spectatedShowdown.vacateWaiting fun i => i = 2).deriveSettlementPlanForBoards
        (.single spectatedShowdown.communityCards.cards)).isOk = true := by
    decide +kernel
  refine ⟨played_reachable (by decide) _, hw, fun h => ?_⟩
  obtain ⟨plan, hplan⟩ := Fallible.isOk_iff.mp hok
  exact TexasPokerTable.derive_ne_ok_of_waiting hw plan ((h.showdown plan).mpr hplan)

/-- The same players before the flop: nobody is all in, and the third one waits. -/
def spectatedDeal : TexasPokerTable ℤ :=
  played (.new 4 50 100)
    [.join 1 1000 2, .join 2 1000 3, .start, .join 3 500 5, .shuffle 0, .shuffle 1, .reveal 0,
      .reveal 1]

/-- Before the board and with two players in the hand there is nothing to plan, and the spectator
changes nothing. -/
theorem spectatedDeal_ignores :
    spectatedDeal.Reachable ∧ spectatedDeal.HasSpectator (fun i => i = 2) ∧
      spectatedDeal.IgnoresSpectators (fun i => i = 2)
        (.single spectatedDeal.communityCards.cards) := by
  obtain ⟨hw, herr, hall, hrest⟩ : (spectatedDeal.seats 2).isWaiting = true ∧
      ((spectatedDeal.vacateWaiting fun i => i = 2).deriveSettlementPlanForBoards
        (.single spectatedDeal.communityCards.cards)).isOk = false ∧
      spectatedDeal.unfoldedSeats = [0, 1, 2] ∧
      (spectatedDeal.vacateWaiting fun i => i = 2).unfoldedSeats = [0, 1] := by
    decide +kernel
  refine ⟨played_reachable (by decide) _, ⟨2, rfl, hw⟩,
    (TexasPokerTable.ignoresSpectators_iff _ _ _).mpr (.inr ⟨fun hready => ?_, ?_⟩)⟩
  · obtain ⟨plan, hplan⟩ := TexasPokerTable.exists_derive_iff.mpr hready
    rw [hplan] at herr
    cases herr
  · rintro ⟨-, ⟨winner, -, hsole⟩ | ⟨winner, -, hsole⟩⟩
    · rw [hall] at hsole
      cases hsole
    · rw [hrest] at hsole
      cases hsole

end Transparent

end TexasPoker
