import TexasPoker.Runtime.Client
import TexasPoker.Runtime.Commands
import TexasPoker.Vault.Flows

/-! # Run it twice

The second runout starts when a round closes and at most one player can still wager. The price of
the round is read after the bets are collected, so a player who keeps chips seems to owe it.
-/

namespace TexasPoker

variable {G : Type}

namespace TexasPokerTable

variable {t t' : TexasPokerTable G}

/-- Two boards are due: the betting is over with cards still to come. -/
structure DueTwice (t : TexasPokerTable G) : Prop where
  mode : t.rules.ritMode = ritModeTwice
  single : t.runItTwiceState = .single
  contested : 2 ≤ t.countActivePlayers
  settled : t.countActionablePlayers ≤ 1
  board : t.communityCards.len < 5

instance : Decidable t.DueTwice :=
  decidable_of_iff (t.rules.ritMode = ritModeTwice ∧ t.runItTwiceState = .single ∧
      2 ≤ t.countActivePlayers ∧ t.countActionablePlayers ≤ 1 ∧ t.communityCards.len < 5)
    ⟨fun ⟨h, h', h'', h₁, h₂⟩ => ⟨h, h', h'', h₁, h₂⟩,
      fun h => ⟨h.mode, h.single, h.contested, h.settled, h.board⟩⟩

/-- The hand runs twice from `shared` common cards on. -/
def RunsTwice (t : TexasPokerTable G) (shared : ℕ) : Prop :=
  ∃ start, (∃ suffix, t.runItTwiceState = .twice start suffix) ∧ start.sharedBoardLen = shared

/-- The price of the open betting round. -/
def price (t : TexasPokerTable G) : ℕ := t.bettingRound.elim 0 BettingRound.currentBet

theorem countActionablePlayers_eq_zero : t.countActionablePlayers = 0 ↔
    ∀ i, ((t.seats i).isActionable && !(t.seats i).hasLeftHand) = false := by
  simp [countActionablePlayers, List.countP_eq_zero]

theorem countActionablePlayers_collected :
    t.collected.countActionablePlayers = t.countActionablePlayers := by
  refine List.countP_congr fun i _ => ?_
  change ((t.seats i).clearBet.isActionable && !(t.seats i).clearBet.hasLeftHand) = true ↔
    ((t.seats i).isActionable && !(t.seats i).hasLeftHand) = true
  cases t.seats i <;> rfl

/-- After its bets are collected a round is over when nobody can wager or its price is nothing. -/
theorem noFurtherBettingPossible_collected (hr : t.bettingRound.isSome = true)
    (ha : 2 ≤ t.countActivePlayers) (hb : t.countActionablePlayers ≤ 1) :
    t.collected.noFurtherBettingPossible = true ↔ t.countActionablePlayers = 0 ∨ t.price = 0 := by
  obtain ⟨round, hround⟩ := Option.isSome_iff_exists.mp hr
  have hcollected : t.collected.bettingRound = some round := hround
  have hbet (i : Fin maxSeats) : (t.collected.seats i).bet = 0 := by
    change (t.seats i).clearBet.bet = 0
    cases t.seats i <;> rfl
  have hact (i : Fin maxSeats) :
      ((t.collected.seats i).isActionable && !(t.collected.seats i).hasLeftHand) =
        ((t.seats i).isActionable && !(t.seats i).hasLeftHand) := by
    change ((t.seats i).clearBet.isActionable && !(t.seats i).clearBet.hasLeftHand) = _
    cases t.seats i <;> rfl
  have hprice : t.price = round.currentBet := by rw [price, hround]; rfl
  have hopen : ¬ (t.collected.countActivePlayers < 2 ∨ 1 < t.collected.countActionablePlayers) := by
    rw [Exec.countActivePlayers_collected, countActionablePlayers_collected]
    omega
  rw [noFurtherBettingPossible, if_neg hopen, hcollected, countActionablePlayers_eq_zero, hprice]
  simp only [List.all_eq_true, List.mem_finRange, true_imp_iff, hact, hbet, Bool.or_eq_true,
    Bool.not_eq_true', decide_eq_true_eq]
  constructor
  · intro h
    by_cases hz : round.currentBet = 0
    · exact .inr hz
    · exact .inl fun i => (h i).resolve_right fun he => hz he.symm
  · rintro (h | h) i
    · exact .inl (h i)
    · exact .inr h.symm

theorem runItTwiceState_seated : (Exec.seated t).runItTwiceState = t.runItTwiceState := by
  have hbig (u : TexasPokerTable G) : u.promoteBigBlind.runItTwiceState = u.runItTwiceState := by
    unfold promoteBigBlind
    split <;> rfl
  have hfold (l : List ℕ) (acc : TexasPokerTable G × ℕ) :
      (l.foldl promoteMissing acc).1.runItTwiceState = acc.1.runItTwiceState := by
    induction l generalizing acc with
    | nil => rfl
    | cons i l ih =>
      rw [List.foldl_cons, ih]
      unfold promoteMissing
      split <;> rfl
  change t.moveButton.promoteWaitingForBigBlind.runItTwiceState = t.moveButton.runItTwiceState
  generalize t.moveButton = u
  unfold promoteWaitingForBigBlind
  split
  · rfl
  · exact (hfold _ _).trans (hbig u)

end TexasPokerTable

namespace Exec

open TexasPokerTable

variable {s m s' : Exec G}

theorem OpensNext.runItTwiceState (h : OpensNext s s') :
    s'.table.runItTwiceState = s.table.runItTwiceState := by
  cases h with
  | board _ ho ht _ =>
    obtain ⟨-, -, hto, -⟩ := startCommunityRevealPhase_eq_ok ho
    rw [ht, hto]
    rfl
  | showdown _ ho ht _ =>
    obtain ⟨_, -, hto, -⟩ := startShowdownRevealPhase_eq_ok ho
    rw [ht, hto]
    rfl

/-- When two boards are due, the trigger starts them exactly if no bet seems open. -/
theorem maybeTriggerRunItTwice_runsTwice (h : s.maybeTriggerRunItTwice = .ok m)
    (hmode : s.table.rules.ritMode = ritModeTwice) (hsingle : s.table.runItTwiceState = .single)
    (hboard : s.table.communityCards.len < 5) :
    m.table.RunsTwice s.table.communityCards.len ↔
      s.table.noFurtherBettingPossible = true := by
  have hstill : m = s → ¬ m.table.RunsTwice s.table.communityCards.len := by
    rintro rfl ⟨start, ⟨suffix, hstart⟩, -⟩
    rw [hsingle] at hstart
    cases hstart
  constructor
  · intro hm
    rcases maybeTriggerRunItTwice_eq_ok h with hsame | ⟨-, hno, -⟩
    · exact absurd hm (hstill hsame)
    · exact hno
  · intro hno
    have hgo : s.triggerRunItTwice = .ok m := by
      rw [maybeTriggerRunItTwice, if_neg] at h
      · exact h
      · rw [hmode, hsingle, hno]
        simp [RunItTwiceState.isActive, hboard]
    simp only [triggerRunItTwice, hmode, hsingle] at hgo
    rw [if_neg (by decide), Fallible.bind_eq_ok] at hgo
    obtain ⟨_, -, hgo⟩ := hgo
    rw [if_neg (by decide)] at hgo
    simp only [Fallible.bind_eq_ok] at hgo
    obtain ⟨_, -, _, -, _, -, start, hstart, hgo⟩ := hgo
    cases hgo
    refine ⟨start, ⟨_, rfl⟩, ?_⟩
    unfold RitStartStreet.fromSharedBoardLen at hstart
    split at hstart <;> cases hstart <;> symm <;> assumption

variable [AddCommGroup G] [Protocol G] [DecidableEq G]

/-! ## The rest of the hand -/

/-- The hand is over, or it runs twice from the same street. -/
def KeepsRunouts (s s' : Exec G) : Prop :=
  ∀ start, (∃ suffix, s.table.runItTwiceState = .twice start suffix) →
    s'.table.handPhase = .waiting ∨ ∃ suffix, s'.table.runItTwiceState = .twice start suffix

omit [AddCommGroup G] [Protocol G] [DecidableEq G] in
theorem KeepsRunouts.of_same (h : s'.table.runItTwiceState = s.table.runItTwiceState) :
    KeepsRunouts s s' := by
  rintro start ⟨suffix, hs⟩
  exact .inr ⟨suffix, h.trans hs⟩

omit [AddCommGroup G] [Protocol G] [DecidableEq G] in
theorem KeepsRunouts.of_waiting (h : s'.table.handPhase = .waiting) : KeepsRunouts s s' :=
  fun _ _ => .inl h

omit [AddCommGroup G] [Protocol G] [DecidableEq G] in
/-- A move after one that leaves the runouts alone. -/
theorem KeepsRunouts.after (hm : m.table.runItTwiceState = s.table.runItTwiceState)
    (h : KeepsRunouts m s') : KeepsRunouts s s' := by
  rintro start ⟨suffix, hs⟩
  exact h start ⟨suffix, hm.trans hs⟩

omit [AddCommGroup G] [Protocol G] [DecidableEq G] in
theorem setCurrentTurn_runouts {turn : Option ℕ} (h : s.setCurrentTurn turn = .ok s') :
    s'.table.runItTwiceState = s.table.runItTwiceState := by
  obtain ⟨-, -, ht, -⟩ := setCurrentTurn_eq_ok h
  rw [ht]
  rfl

omit [AddCommGroup G] [Protocol G] [DecidableEq G] in
theorem RestartsReveal.runouts (h : RestartsReveal s s') :
    s'.table.runItTwiceState = s.table.runItTwiceState := by
  cases h with
  | hole _ h =>
    rw [(startPreflopRevealPhase_eq_ok h).1]
    rfl
  | board _ _ _ h =>
    rw [(startCommunityRevealPhase_eq_ok h).2.2.1]
    rfl
  | showdown _ h =>
    obtain ⟨_, -, ht, -⟩ := startShowdownRevealPhase_eq_ok h
    rw [ht]
    rfl
  | idle h => rw [h]

omit [AddCommGroup G] [Protocol G] [DecidableEq G] in
theorem PassesShuffle.runouts (h : PassesShuffle s s') :
    s'.table.runItTwiceState = s.table.runItTwiceState := by
  cases h with
  | idle _ h => rw [h]
  | next _ _ ht _ => rw [ht.rest]
  | deal _ _ _ h =>
    rw [(startPreflopRevealPhase_eq_ok h).1]
    rfl
  | restart _ _ _ h => exact RestartsReveal.runouts (s := s.emit _) h

omit [AddCommGroup G] [Protocol G] [DecidableEq G] in
theorem onCompleteReconstruct_runouts (h : s.onCompleteReconstruct = .ok s') :
    s'.table.runItTwiceState = s.table.runItTwiceState := by
  obtain ⟨m, _, _, -, -, hm, -, hpass⟩ := onCompleteReconstruct_eq_ok h
  rw [hpass.runouts, hm]

omit [AddCommGroup G] [Protocol G] [DecidableEq G] in
theorem postBlinds_runouts {bbSeat : ℕ} (h : s.postBlinds = .ok (s', bbSeat)) :
    s'.table.runItTwiceState = s.table.runItTwiceState := by
  obtain ⟨-, -, ht⟩ := postBlinds_eq_ok h
  have hstep : ∀ b ∈ s.table.blinds, ∀ t t' : TexasPokerTable G,
      t.postBlind b.1 b.2.1 b.2.2 = .ok t' → t.runItTwiceState = s.table.runItTwiceState →
      t'.runItTwiceState = s.table.runItTwiceState := by
    rintro b - t t' hb ht
    obtain ⟨k, p, -, -, -, rfl⟩ := postBlind_eq_ok hb
    exact ht
  exact Fallible.foldlM_keeps (P := fun t : TexasPokerTable G =>
    t.runItTwiceState = s.table.runItTwiceState) hstep ht rfl

omit [AddCommGroup G] [Protocol G] [DecidableEq G] in
theorem collectAnte_runouts {bbSeat : ℕ} (h : s.collectAnte bbSeat = .ok s') :
    s'.table.runItTwiceState = s.table.runItTwiceState := by
  obtain ⟨-, ⟨-, rfl⟩ | ⟨-, ht⟩⟩ := collectAnte_eq_ok h
  · rfl
  have hstep : ∀ a ∈ s.table.antes bbSeat, ∀ t t' : TexasPokerTable G, t.postAnte a = .ok t' →
      t.runItTwiceState = s.table.runItTwiceState →
      t'.runItTwiceState = s.table.runItTwiceState := by
    rintro a - t t' ha ht
    obtain ⟨k, p, -, -, rfl⟩ := postAnte_eq_ok ha
    exact ht
  exact Fallible.foldlM_keeps (P := fun t : TexasPokerTable G =>
    t.runItTwiceState = s.table.runItTwiceState) hstep ht rfl

theorem advanceRound_runouts (h : s.advanceRound = .ok s') : KeepsRunouts s s' := by
  rcases advanceRound_eq_ok h with ⟨-, h⟩ | ⟨-, m, hm, hnext⟩
  · exact .of_waiting (endWithoutShowdown_loses h).2.phase
  · rintro start ⟨suffix, hs⟩
    have hsame : m = s := by
      rcases maybeTriggerRunItTwice_eq_ok hm with hsame | ⟨hsingle, -⟩
      · exact hsame
      · rw [hs] at hsingle
        cases hsingle
    subst hsame
    refine .inr ⟨suffix, ?_⟩
    rcases hnext with ⟨-, rfl⟩ | hnext
    · exact hs
    · rw [hnext.runItTwiceState, hs]

theorem Play.runouts (h : Play s s') : KeepsRunouts s s' := by
  cases h with
  | notice _ => exact .of_same rfl
  | clock ht => exact .of_same (by rw [withTable_table, ht.rest])
  | turn _ h => exact .of_same (setCurrentTurn_runouts h)
  | closeRound _ _ hcol h =>
    obtain ⟨hct, -⟩ := collectBetsToPot_eq_ok hcol
    exact .after (by rw [hct]; rfl) (advanceRound_runouts h)
  | ended _ h => exact .of_waiting (endWithoutShowdown_loses h).2.phase
  | openPreflop _ hb ha h =>
    refine .of_same ((setCurrentTurn_runouts h).trans ?_)
    exact (collectAnte_runouts ha).trans (postBlinds_runouts hb)
  | openStreet _ h => exact .of_same ((setCurrentTurn_runouts h).trans rfl)
  | display _ => exact .of_same rfl
  | passShuffle h => exact .of_same (advanceShuffle_eq_ok h).runouts
  | completeReconstruct _ h => exact .of_same (onCompleteReconstruct_runouts h)
  | submitShuffle _ h =>
    obtain ⟨_, _, _, _, m, -, -, -, -, -, -, -, hm, -, hpass⟩ := applySubmitShuffleV2_eq_ok h
    exact .of_same (hpass.runouts.trans (by rw [hm]))
  | submitReconstruct h =>
    obtain ⟨_, _, _, _, _, _, _, _, m, -, -, -, -, -, -, -, hm, -, h⟩ :=
      applySubmitReconstructDeck_eq_ok h
    have hsame : m.table.runItTwiceState = s.table.runItTwiceState := by
      rw [hm]
      rfl
    rcases h with rfl | ⟨-, h⟩
    · exact .of_same hsame
    · exact .of_same ((onCompleteReconstruct_runouts h).trans hsame)
  | fold _ _ h =>
    obtain ⟨-, -, ht, -⟩ := foldSeat_eq_ok h
    exact .of_same (by rw [ht]; rfl)
  | matchBet _ _ h =>
    obtain ⟨-, -, -, _, -, ⟨-, ht⟩ | ⟨-, _, _, -, -, ht⟩⟩ := matchBet_eq_ok h
    · exact .of_same (by rw [ht]; rfl)
    · exact .of_same (by rw [ht]; rfl)
  | raise _ _ h =>
    obtain ⟨-, -, _, _, _, _, _, _, _, _, -, -, -, -, u, hu, ht⟩ := raiseTo_eq_ok h
    refine .of_same ?_
    rw [ht]
    split <;> rw [hu] <;> rfl
  | fund h =>
    obtain ⟨_, _, -, -, -, -, ht, -⟩ := applyFundSeat_eq_ok h
    exact .of_same (by rw [ht]; rfl)
  | askLeave h =>
    obtain ⟨-, -, rfl | ht⟩ := applySetLeaveAfterHand_eq_ok h
    · exact .of_same rfl
    · exact .of_same (by rw [ht]; rfl)
  | timeBank h =>
    obtain ⟨-, -, ht⟩ := consumeTimeBank_eq_ok h
    exact .of_same (by rw [ht]; rfl)
  | settle _ h =>
    rcases settleHand_eq_ok h with rfl | ⟨_, _, -, h⟩
    · exact .of_same rfl
    · exact .of_waiting (resetForNextHand_loses h).2.phase

theorem Repair.runouts (h : Repair s s') : KeepsRunouts s s' := by
  cases h with
  | kick h =>
    rcases kickSeatRaw_eq_ok h with ⟨-, rfl⟩ | ⟨_, -, hk⟩
    · exact .of_same rfl
    · exact .of_same (by rw [hk.table]; rfl)
  | reset h => exact .of_waiting (resetForNextHand_loses h).2.phase
  | refundReset _ h => exact .of_waiting (resetForNextHand_loses h).2.phase
  | suspend h =>
    obtain ⟨-, _, _, -, -, ht⟩ := startReconstruct_eq_ok h
    exact .of_same (by rw [ht])
  | rebuild _ h =>
    obtain ⟨-, ⟨-, _, -, -, ht⟩ | ⟨-, ht⟩⟩ := rebuildDeckAndShuffleOnTimeout_eq_ok h
    · exact .of_same (by rw [ht]; rfl)
    · exact .of_same (by rw [ht]; rfl)

theorem PlainStep.runouts (h : PlainStep s s') : KeepsRunouts s s' := by
  cases h with
  | move h =>
    cases h with
    | play h => exact h.runouts
    | repair h => exact h.runouts
  | create h =>
    simp only [applyCreateTable, Fallible.bind_eq_ok, Fallible.pure_eq_ok] at h
    obtain ⟨_, -, _, -, _, -, _, -, h⟩ := h
    exact .of_waiting (by rw [← h]; rfl)
  | join h =>
    obtain ⟨-, -, -, -, _, _, -, -, -, -, -, -, ht, -⟩ := applyJoinTable_eq_ok h
    exact .of_same (by rw [ht]; rfl)
  | leave h =>
    obtain ⟨-, _, -, -, -, ht, -⟩ := applyLeaveTable_eq_ok h
    exact .of_same (by rw [ht]; rfl)
  | prepare _ ht => exact .of_same (by rw [ht]; exact runItTwiceState_seated)
  | foldOut _ ht => exact .of_same (by rw [ht]; rfl)
  | count h => exact .of_same (by rw [h.rest])

theorem Writes.runouts {reveal : RevealTokenState G} (h : Writes reveal s m) :
    KeepsRunouts s m := by
  rintro start hs
  refine .inr ?_
  cases h with
  | hole _ h =>
    have hstep : ∀ a ∈ completed reveal, ∀ t t' : TexasPokerTable G, t.materializeHole a = .ok t' →
        (∃ suffix, t.runItTwiceState = .twice start suffix) →
        ∃ suffix, t'.runItTwiceState = .twice start suffix := by
      rintro a - t t' ha ht
      unfold materializeHole at ha
      split at ha
      · cases ha
      · simp only [Fallible.bind_eq_ok] at ha
        obtain ⟨_, -, _, -, ledger, -, ha⟩ := ha
        cases ha
        exact ht
    exact Fallible.foldlM_keeps (P := fun t : TexasPokerTable G =>
      ∃ suffix, t.runItTwiceState = .twice start suffix) hstep h hs
  | board _ _ h =>
    simp only [materializeCommunity, Fallible.bind_eq_ok] at h
    obtain ⟨_, -, scan, -, t, ht, h⟩ := h
    cases h
    have hstep : ∀ e ∈ scan.cards, ∀ t t' : TexasPokerTable G, t.pushBoardCard e = .ok t' →
        (∃ suffix, t.runItTwiceState = .twice start suffix) →
        ∃ suffix, t'.runItTwiceState = .twice start suffix := by
      rintro e - t t' he ⟨suffix, ht⟩
      unfold pushBoardCard at he
      split at he
      · simp only [Fallible.bind_eq_ok] at he
        obtain ⟨_, -, he⟩ := he
        cases he
        exact ⟨suffix, ht⟩
      · rw [ht] at he
        simp only [Fallible.bind_eq_ok] at he
        obtain ⟨suffix', -, he⟩ := he
        cases he
        exact ⟨suffix', rfl⟩
    exact Fallible.foldlM_keeps (P := fun t : TexasPokerTable G =>
      ∃ suffix, t.runItTwiceState = .twice start suffix) hstep ht hs
  | showdown _ h =>
    simp only [materializeShowdown, Fallible.bind_eq_ok] at h
    obtain ⟨_, -, cards, -, h⟩ := h
    have hstep : ∀ e ∈ cards.2, ∀ u u' : Exec G, u.pushShowdownCard e = .ok u' →
        (∃ suffix, u.table.runItTwiceState = .twice start suffix) →
        ∃ suffix, u'.table.runItTwiceState = .twice start suffix := by
      rintro e - u u' he hu
      simp only [pushShowdownCard, Fallible.bind_eq_ok, Fallible.ensure_eq_ok] at he
      obtain ⟨_, -, _, -, p, -, hand, -, ledger, -, he⟩ := he
      split at he <;> cases he <;> exact hu
    exact Fallible.foldlM_keeps (P := fun u : Exec G =>
      ∃ suffix, u.table.runItTwiceState = .twice start suffix) hstep h hs

theorem Step.runouts (h : Step s s') : KeepsRunouts s s' := by
  cases h with
  | plain h => exact h.runouts
  | tokens h =>
    cases h with
    | waits _ _ _ ht _ => exact .of_same (by rw [ht]; rfl)
    | writes _ _ hm _ hw ht _ =>
      rintro start hs
      rcases hw.runouts start (by rw [hm]; exact hs) with hwait | hrun
      · obtain ⟨ledger, hrest⟩ := hw.writesCards.1.rest
        rw [hrest, hm] at hwait
        cases hwait
      · rw [ht]
        exact .inr hrun

/-- Steps that do not end the hand. -/
abbrev HandSteps : Exec G → Exec G → Prop :=
  Relation.ReflTransGen fun s s' => Step s s' ∧ s'.table.handPhase ≠ .waiting

/-- A hand that runs twice does so to its end. -/
theorem HandSteps.runouts {start : RitStartStreet} (h : HandSteps s s')
    (hs : ∃ suffix, s.table.runItTwiceState = .twice start suffix) :
    ∃ suffix, s'.table.runItTwiceState = .twice start suffix := by
  induction h with
  | refl => exact hs
  | tail _ h ih => exact (h.1.runouts start ih).resolve_left h.2

/-! ## The closing round -/

/-- A betting round is over, its bets are collected and the hand goes on. -/
structure ClosesRound (s s' : Exec G) : Prop where
  betting : s.table.bettingRound.isSome = true
  closed : s.table.RoundClosed ∨ s.table.currentTurn = noSeat
  advances : ∃ c, s.collectBetsToPot = .ok c ∧ c.advanceRound = .ok s'

theorem ClosesRound.becomesTwice_iff (h : ClosesRound s s') (hdue : s.table.DueTwice) :
    s'.table.RunsTwice s.table.communityCards.len ↔
      s.table.countActionablePlayers = 0 ∨ s.table.price = 0 := by
  obtain ⟨hbet, -, c, hcollect, hadvance⟩ := h
  obtain ⟨hct, -⟩ := collectBetsToPot_eq_ok hcollect
  rw [← noFurtherBettingPossible_collected hbet hdue.contested hdue.settled, ← hct]
  rcases advanceRound_eq_ok hadvance with ⟨hfew, -⟩ | ⟨-, m, hm, hnext⟩
  · rw [hct, countActivePlayers_collected] at hfew
    exact absurd hdue.contested (by omega)
  · have hmode : c.table.rules.ritMode = ritModeTwice := by rw [hct]; exact hdue.mode
    have hsingle : c.table.runItTwiceState = .single := by rw [hct]; exact hdue.single
    have hlen : c.table.communityCards.len = s.table.communityCards.len := by rw [hct]; rfl
    have hstate : s'.table.runItTwiceState = m.table.runItTwiceState := by
      rcases hnext with ⟨-, rfl⟩ | hnext
      · rfl
      · exact hnext.runItTwiceState
    have hiff := maybeTriggerRunItTwice_runsTwice hm hmode hsingle (hlen ▸ hdue.board)
    rw [← hiff, hlen, RunsTwice, RunsTwice, hstate]

/-- A hand whose betting is over runs twice from there to its end exactly when nobody kept chips or
the last street was not bet. -/
theorem runsTwice_iff (h : ClosesRound s s') (hdue : s.table.DueTwice) :
    (∀ u, HandSteps s' u → u.table.RunsTwice s.table.communityCards.len) ↔
      s.table.countActionablePlayers = 0 ∨ s.table.price = 0 := by
  rw [← h.becomesTwice_iff hdue]
  constructor
  · exact fun hall => hall s' .refl
  · rintro ⟨start, hstart, hlen⟩ u hu
    exact ⟨start, hu.runouts hstart, hlen⟩

end Exec

section Transparent

open Transparent

/-- A raise to 1000 waits for the answer of a player who has 1000; the raiser has `stack`. -/
@[irreducible] def facingAllIn (stack : ℕ) : TexasPokerTable ℤ :=
  played { TableRules.new 4 50 100 with ritMode := ritModeTwice }
    [.join 1 1000 2, .join 2 stack 3, .start, .shuffle 0, .shuffle 1, .reveal 0, .reveal 1,
      .act .raise 1 (leBytes 8 1000)]

/-- What a call that closes the round runs. -/
def closingRun (t : TexasPokerTable ℤ) (i : ℕ) :
    PokerL1Result (Exec ℤ × Exec ℤ × Exec ℤ) := do
  let m ← Exec.matchBet ⟨t, []⟩ i
  let n ← m.setCurrentTurn none
  let c ← n.collectBetsToPot
  return (m, n, ← c.advanceRound)

theorem closesRound_of_run {t : TexasPokerTable ℤ} {i : ℕ} {p : Exec ℤ → Exec ℤ → Bool}
    (h : (decide (t.currentTurn = i ∧ i < t.rules.maxPlayers) &&
      Fallible.holds (closingRun t i) fun r => decide (r.1.table.isBettingComplete = true ∧
        r.2.1.table.bettingRound.isSome = true ∧ r.2.1.table.currentTurn = noSeat) &&
          p r.2.1 r.2.2) = true) :
    ∃ n a, Exec.Steps ⟨t, []⟩ n ∧ Exec.ClosesRound n a ∧ p n a = true := by
  obtain ⟨hturn, hrun⟩ := Bool.and_eq_true_iff.mp h
  obtain ⟨hturn, hi⟩ := of_decide_eq_true hturn
  obtain ⟨⟨m, n, a⟩, hrun, hp⟩ := Fallible.holds_iff.mp hrun
  obtain ⟨hclosed, hp⟩ := Bool.and_eq_true_iff.mp hp
  obtain ⟨hcomplete, hopen, hnone⟩ := of_decide_eq_true hclosed
  simp only [closingRun, Fallible.bind_eq_ok] at hrun
  obtain ⟨m', hmatch, n', hnext, c, hcollect, a', hadvance, hrun⟩ := hrun
  cases hrun
  have hcall : Exec.Step ⟨t, []⟩ m := .plain (.move (.play (.matchBet hturn hi hmatch)))
  have hpass : Exec.Step m n := .plain (.move (.play (.turn (fun _ => .inl hcomplete) hnext)))
  exact ⟨n, a, .head hcall (.single hpass), ⟨hopen, .inr hnone, c, hcollect, hadvance⟩, hp⟩

theorem facingAllIn_covered : ∃ n a, Exec.Steps ⟨facingAllIn 2000, []⟩ n ∧
    Exec.ClosesRound n a ∧
    decide (n.table.DueTwice ∧ a.table.runItTwiceState = .single) = true := by
  refine closesRound_of_run (i := 0) ?_
  unfold facingAllIn
  decide +kernel

theorem facingAllIn_even : ∃ n a, Exec.Steps ⟨facingAllIn 1000, []⟩ n ∧ Exec.ClosesRound n a ∧
    decide (n.table.DueTwice ∧ n.table.countActionablePlayers = 0) = true := by
  refine closesRound_of_run (i := 0) ?_
  unfold facingAllIn
  decide +kernel

/-- Two players who are both all-in run it twice. -/
theorem facingAllIn_runsTwice : ∃ n a, Exec.Steps ⟨facingAllIn 1000, []⟩ n ∧
    Exec.ClosesRound n a ∧
    ∀ u, Exec.HandSteps a u → u.table.RunsTwice n.table.communityCards.len := by
  obtain ⟨n, a, hsteps, hcloses, hp⟩ := facingAllIn_even
  obtain ⟨hdue, hnone⟩ := of_decide_eq_true hp
  exact ⟨n, a, hsteps, hcloses, (Exec.runsTwice_iff hcloses hdue).mpr (.inl hnone)⟩

/-- A raiser who keeps 1000 chips against an all-in call sees the flop on one board. -/
theorem facingAllIn_runsOnce : ∃ (t : TexasPokerTable ℤ) (n a : Exec ℤ), t.Reachable ∧
    Exec.Steps ⟨t, []⟩ n ∧ Exec.ClosesRound n a ∧ n.table.DueTwice ∧
    ¬ ∀ u, Exec.HandSteps a u → u.table.RunsTwice n.table.communityCards.len := by
  obtain ⟨n, a, hsteps, hcloses, hp⟩ := facingAllIn_covered
  obtain ⟨hdue, hsingle⟩ := of_decide_eq_true hp
  refine ⟨_, n, a, ?_, hsteps, hcloses, hdue, ?_⟩
  · unfold facingAllIn
    exact played_reachable (by decide) _
  · intro hall
    obtain ⟨start, ⟨suffix, hstart⟩, -⟩ := hall a .refl
    rw [hsingle] at hstart
    cases hstart

end Transparent

end TexasPoker
