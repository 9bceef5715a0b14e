import TexasPoker.Runtime.Commands

/-! # The reveal across the moves

A reveal is opened from the seats, the boards or the ledger; until it is left, only a submission
adds tokens, and every other move at most takes seats off the ones still to submit.
-/

namespace TexasPoker

variable {G : Type}

/-- The assignment when some seats no longer owe their token. -/
def RevealAssignment.without (gone : SeatMask) (a : RevealAssignment G) : RevealAssignment G :=
  { a with pendingMask := a.pendingMask &&& ~~~gone }

/-- The reveal when some seats no longer owe their tokens. -/
def RevealTokenState.without (gone : SeatMask) (reveal : RevealTokenState G) :
    RevealTokenState G :=
  reveal.withAssignments (reveal.assignments.map (RevealAssignment.without gone))

theorem RevealTokenState.without_zero {reveal : RevealTokenState G} :
    reveal.without 0 = reveal := by
  have hid : (RevealAssignment.without 0 : RevealAssignment G → RevealAssignment G) = id :=
    funext fun a => by
      have hm : a.pendingMask &&& ~~~(0 : SeatMask) = a.pendingMask :=
        Mask.ext_mem fun i _ => by rw [Mask.mem_and_not, Mask.mem_zero, Bool.not_false, Bool.and_true]
      rw [RevealAssignment.without, hm]
      rfl
  rw [without, hid, List.map_id]
  rfl

namespace Seat

variable {s s' : Seat G}

theorem isFolded_clearBet (s : Seat G) : s.clearBet.isFolded = s.isFolded := by cases s <;> rfl

theorem isFolded_withoutHand (s : Seat G) : s.withoutHand.isFolded = s.isFolded := by
  cases s <;> rfl

theorem isFolded_setTimeBankMs {timeBankMs : ℕ} (s : Seat G) :
    (s.setTimeBankMs timeBankMs).isFolded = s.isFolded := by
  cases s <;> rfl

theorem isFolded_setPendingAddon {pendingAddon : ℕ} (h : s.setPendingAddon pendingAddon = .ok s') :
    s'.isFolded = s.isFolded := by
  cases s <;> simp only [setPendingAddon] at h <;> try split at h
  all_goals cases h <;> rfl

theorem isFolded_setStack {stack : ℕ} (h : s.setStack stack = .ok s') :
    s'.isFolded = s.isFolded := by
  cases s <;> simp only [setStack] at h <;> try split at h
  all_goals cases h <;> rfl

end Seat

namespace TexasPokerTable

variable {t t' t'' : TexasPokerTable G}

/-- The showdown reveal that a table opens. -/
def ShowdownOpening (t : TexasPokerTable G) (assignments : List (RevealAssignment G)) : Prop :=
  t.getActiveSeatIndices.foldlM
    (fun acc seat => do return acc ++ (← t.showdownAssignments seat)) [] = .ok assignments

/-- The reveals that a table opens, by street. -/
inductive Opening (t : TexasPokerTable G) : ℕ → RevealTokenState G → Prop where
  | hole : Opening t roundPreflop ⟨.dealHole, t.holeAssignments⟩
  | board {count street : ℕ} : street = roundFlop ∨ street = roundTurn ∨ street = roundRiver →
      Opening t street ⟨.board, t.boardAssignments count⟩
  | showdown {assignments : List (RevealAssignment G)} : ShowdownOpening t assignments →
      Opening t roundShowdown ⟨.showdownOwner, assignments⟩

/-- A reveal is open, not suspended. -/
def isRevealing (t : TexasPokerTable G) : Bool := t.revealDeadlineMs.isSome

/-- The same reveal on the same street, with the same folded seats; a suspended one stays so. -/
structure SameReveal (t t' : TexasPokerTable G) : Prop where
  reveal : t'.revealTokenState = t.revealTokenState
  revealing : t'.isRevealing = true → t.isRevealing = true
  round : t'.roundState = t.roundState
  folded : ∀ i, (t'.seats i).isFolded = (t.seats i).isFolded

/-- What a move does to the reveal. -/
inductive RevealStep (t t' : TexasPokerTable G) : Prop where
  | closed : t'.revealTokenState = none → RevealStep t t'
  | kept {gone : SeatMask} {reveal : RevealTokenState G} : t.revealTokenState = some reveal →
      t'.revealTokenState = some (reveal.without gone) →
      (t'.isRevealing = true → t.isRevealing = true) → t'.roundState = t.roundState →
      (∀ i, (t'.seats i).isFolded = true → (t.seats i).isFolded = true) → RevealStep t t'
  | opened {u : TexasPokerTable G} {street : ℕ} {reveal : RevealTokenState G} :
      t.isRevealing = false → (reveal.purpose = .showdownOwner → t.deckState.ownerReadableHoleCards =
        u.deckState.ownerReadableHoleCards) →
      (∀ i, (u.seats i).isFolded = (t.seats i).isFolded) →
      Opening u street reveal → reveal.validateForStreet street = .ok () →
      t'.handPhase = .revealing street reveal 0 → t'.seats = u.seats → RevealStep t t'

theorem SameReveal.refl (t : TexasPokerTable G) : SameReveal t t :=
  ⟨rfl, fun h => h, rfl, fun _ => rfl⟩

theorem RevealStep.of_folded (hr : t'.revealTokenState = t.revealTokenState)
    (ho : t'.isRevealing = true → t.isRevealing = true) (hs : t'.roundState = t.roundState)
    (hf : ∀ i, (t'.seats i).isFolded = true → (t.seats i).isFolded = true) : RevealStep t t' := by
  cases h : t.revealTokenState with
  | none => exact .closed (hr.trans h)
  | some reveal =>
    have hr' : t'.revealTokenState = some (reveal.without 0) := by
      rw [hr, h, RevealTokenState.without_zero]
    exact .kept h hr' ho hs hf

theorem SameReveal.step (h : SameReveal t t') : RevealStep t t' :=
  .of_folded h.reveal h.revealing h.round fun i hi => (h.folded i) ▸ hi

theorem SameReveal.of_phase (hp : t'.handPhase = t.handPhase)
    (hf : ∀ i, (t'.seats i).isFolded = (t.seats i).isFolded) : SameReveal t t' :=
  ⟨by simp only [revealTokenState, hp], by simp only [isRevealing, revealDeadlineMs, hp, imp_self],
    by simp only [roundState, hp], hf⟩

theorem Retimed.sameReveal (h : Retimed t t') : SameReveal t t' := by
  have hf : ∀ i, (t'.seats i).isFolded = (t.seats i).isFolded := fun i => by rw [h.seats]
  refine ⟨?_, ?_, ?_, hf⟩ <;>
    simp only [revealTokenState, isRevealing, revealDeadlineMs, roundState] <;>
    cases hp : t.handPhase with
    | waiting => simp [h.waiting hp]
    | shuffling phase =>
      obtain ⟨d, hp'⟩ := h.shuffling hp
      cases phase <;> simp [hp', ShufflingPhase.withDeadline, ShufflingPhase.street]
    | revealing street state d =>
      obtain ⟨d', hp'⟩ := h.revealing hp
      simp [hp']
    | reconstructing street state reveal e d =>
      obtain ⟨e', d', hp'⟩ := h.reconstructing hp
      simp [hp']
    | betting street round turn d =>
      obtain ⟨d', hp'⟩ := h.betting hp
      simp [hp']
    | showdownDisplay d =>
      obtain ⟨d', hp'⟩ := h.showdownDisplay hp
      simp [hp']

theorem revealTokenState_of_betting (h : t.bettingRound.isSome = true) :
    t.revealTokenState = none := by
  unfold bettingRound at h
  split at h
  · rename_i hp
    simp [revealTokenState, hp]
  · cases h

theorem isRevealing_of_betting (h : t.bettingRound.isSome = true) : t.isRevealing = false := by
  unfold bettingRound at h
  split at h
  · rename_i hp
    simp [isRevealing, revealDeadlineMs, hp]
  · cases h

theorem isRevealing_of_shuffling (h : t.shufflePhase ≠ shufflePhaseNone) :
    t.isRevealing = false := by
  unfold shufflePhase at h
  split at h
  · rename_i hp
    simp [isRevealing, revealDeadlineMs, hp]
  · exact absurd rfl h

theorem revealTokenState_of_waiting (h : t.handPhase = .waiting) : t.revealTokenState = none := by
  simp [revealTokenState, h]

/-- A step after one that leaves the reveal as it was. -/
theorem RevealStep.after (h : SameReveal t t') (hidle : t.isRevealing = false)
    (hl : t'.deckState.ownerReadableHoleCards = t.deckState.ownerReadableHoleCards)
    (h' : RevealStep t' t'') : RevealStep t t'' := by
  cases h' with
  | closed hc => exact .closed hc
  | kept hr hr' ho hs hf =>
    exact .kept (h.reveal ▸ hr) hr' (h.revealing ∘ ho) (hs.trans h.round)
      fun i hi => h.folded i ▸ hf i hi
  | opened _ hled hf ho hv hp hs =>
    exact .opened hidle (fun hpurpose => hl.symm.trans (hled hpurpose))
      (fun i => (hf i).trans (h.folded i)) ho hv hp hs

theorem isFolded_setSeat {k : Fin maxSeats} {seat : Seat G}
    (h : seat.isFolded = (t.seats k).isFolded) (i : Fin maxSeats) :
    ((t.setSeat k seat).seats i).isFolded = (t.seats i).isFolded := by
  by_cases hi : i = k
  · subst hi
    rw [seats_setSeat_self, h]
  · rw [seats_setSeat_of_ne fun he => hi (Fin.ext he)]

end TexasPokerTable

namespace Exec

open TexasPokerTable

variable {s s' : Exec G}

/-- The step takes the reveal along. -/
abbrev RevealStep (s s' : Exec G) : Prop := s.table.RevealStep s'.table

theorem closed_of_waiting (h : s'.table.handPhase = .waiting) : RevealStep s s' :=
  .closed (revealTokenState_of_waiting h)

theorem setCurrentTurn_revealStep {turn : Option ℕ} (h : s.setCurrentTurn turn = .ok s') :
    RevealStep s s' := by
  obtain ⟨-, hb, ht, -⟩ := setCurrentTurn_eq_ok h
  refine .closed (revealTokenState_of_betting ?_)
  rw [ht, bettingRound_withTurn]
  exact hb

theorem startPreflopRevealPhase_step {u : Exec G} (hidle : s.table.isRevealing = false) (hf : ∀ i, (u.table.seats i).isFolded =
    (s.table.seats i).isFolded) (h : u.startPreflopRevealPhase = .ok s') : RevealStep s s' := by
  have ht := (startPreflopRevealPhase_eq_ok h).1
  exact .opened hidle (fun hp => by cases hp) hf .hole (startPreflopRevealPhase_validates h)
    (by rw [ht]; rfl) (by rw [ht]; rfl)

theorem startCommunityRevealPhase_step {u : Exec G} {count street : ℕ}
    (hidle : s.table.isRevealing = false)
    (hf : ∀ i, (u.table.seats i).isFolded = (s.table.seats i).isFolded)
    (h : u.startCommunityRevealPhase count street = .ok s') : RevealStep s s' := by
  obtain ⟨hs, -, ht, -⟩ := startCommunityRevealPhase_eq_ok h
  exact .opened hidle (fun hp => by cases hp) hf (.board hs) (startCommunityRevealPhase_validates h)
    (by rw [ht]; rfl) (by rw [ht]; rfl)

theorem startShowdownRevealPhase_step {u : Exec G} (hidle : s.table.isRevealing = false)
    (hl : s.table.deckState.ownerReadableHoleCards = u.table.deckState.ownerReadableHoleCards)
    (hf : ∀ i, (u.table.seats i).isFolded = (s.table.seats i).isFolded)
    (h : u.startShowdownRevealPhase = .ok s') : RevealStep s s' := by
  obtain ⟨assignments, ha, ht, -⟩ := startShowdownRevealPhase_eq_ok h
  obtain ⟨assignments', hr, hv⟩ := startShowdownRevealPhase_validates h
  obtain rfl : assignments = assignments' := by
    rw [ht] at hr
    cases hr
    rfl
  exact .opened hidle (fun _ => hl) hf (.showdown ha) hv (by rw [ht]; rfl) (by rw [ht]; rfl)

theorem RestartsReveal.revealStep (hidle : s.table.isRevealing = false)
    (h : RestartsReveal s s') : RevealStep s s' := by
  cases h with
  | hole _ h =>
    exact startPreflopRevealPhase_step (u := s.withTable s.table.clearLedger) hidle
      (fun _ => rfl) h
  | board _ _ _ h => exact startCommunityRevealPhase_step hidle (fun _ => rfl) h
  | showdown _ h => exact startShowdownRevealPhase_step hidle rfl (fun _ => rfl) h
  | idle h => exact h ▸ (SameReveal.refl _).step

theorem PassesShuffle.revealStep (h : PassesShuffle s s') : RevealStep s s' := by
  cases h with
  | idle _ h => exact h ▸ (SameReveal.refl _).step
  | next _ _ ht _ => exact ht.sameReveal.step
  | deal hp _ _ h =>
    have hidle := isRevealing_of_shuffling (t := s.table) (by rw [hp]; decide)
    exact startPreflopRevealPhase_step (u := s.emit _) hidle (fun _ => rfl) h
  | restart hp _ _ h =>
    have hidle := isRevealing_of_shuffling (t := s.table) (by rw [hp]; decide)
    exact RestartsReveal.revealStep (s := s.emit _) hidle h

theorem OpensNext.revealStep {c : Exec G} (hidle : c.table.isRevealing = false)
    (hl : c.table.deckState.ownerReadableHoleCards = s.table.deckState.ownerReadableHoleCards)
    (hf : ∀ i, (s.table.seats i).isFolded = (c.table.seats i).isFolded) (h : OpensNext s s') :
    RevealStep c s' := by
  cases h with
  | board _ ho ht _ =>
    rw [RevealStep, ht]
    exact startCommunityRevealPhase_step hidle hf ho
  | showdown _ ho ht _ =>
    rw [RevealStep, ht]
    exact startShowdownRevealPhase_step hidle hl hf ho

variable [AddCommGroup G] [Protocol G] [DecidableEq G]

theorem endWithoutShowdown_revealStep (h : s.endWithoutShowdown = .ok s') : RevealStep s s' :=
  closed_of_waiting (endWithoutShowdown_loses h).2.phase

theorem resetForNextHand_revealStep (h : s.resetForNextHand = .ok s') : RevealStep s s' :=
  closed_of_waiting (resetForNextHand_loses h).2.phase

omit [AddCommGroup G] [Protocol G] [DecidableEq G] in
theorem maybeTriggerRunItTwice_same (h : s.maybeTriggerRunItTwice = .ok s') :
    s'.table.handPhase = s.table.handPhase ∧ s'.table.seats = s.table.seats ∧
      s'.table.deckState = s.table.deckState := by
  rcases maybeTriggerRunItTwice_eq_ok h with rfl | ⟨-, -, _, -, ht, -⟩
  · exact ⟨rfl, rfl, rfl⟩
  · rw [ht]
    exact ⟨rfl, rfl, rfl⟩

/-- A betting round closes into the next reveal, or ends the hand. -/
theorem closeRound_revealStep {c : Exec G} (hb : s.table.bettingRound.isSome = true)
    (hc : s.collectBetsToPot = .ok c) (h : c.advanceRound = .ok s') : RevealStep s s' := by
  obtain ⟨ht, -⟩ := collectBetsToPot_eq_ok hc
  have hfold : ∀ i, (c.table.seats i).isFolded = (s.table.seats i).isFolded := fun i => by
    rw [ht]
    exact Seat.isFolded_clearBet _
  rcases advanceRound_eq_ok h with ⟨-, h⟩ | ⟨-, m, hm, h⟩
  · exact closed_of_waiting (endWithoutShowdown_loses h).2.phase
  obtain ⟨hp, hs, hd⟩ := maybeTriggerRunItTwice_same hm
  rcases h with ⟨-, rfl⟩ | h
  · refine .closed ?_
    have hnone := revealTokenState_of_betting hb
    simp only [revealTokenState, hp, ht] at hnone ⊢
    exact hnone
  · exact OpensNext.revealStep (isRevealing_of_betting hb) (by rw [hd, ht]; rfl)
      (fun i => by rw [hs, hfold]) h

omit [AddCommGroup G] [Protocol G] [DecidableEq G] in
theorem onCompleteReconstruct_revealStep (hidle : s.table.isRevealing = false)
    (h : s.onCompleteReconstruct = .ok s') : RevealStep s s' := by
  obtain ⟨m, reveal, encrypted, hr, -, ht, -, h⟩ := onCompleteReconstruct_eq_ok h
  have hsame : s.table.SameReveal m.table := by
    refine ⟨?_, ?_, ?_, fun i => by rw [ht]⟩ <;> rw [ht]
    · exact hr.symm
    · intro hopen
      cases hopen
    · rfl
  exact .after hsame hidle (by rw [ht]) h.revealStep

theorem applySubmitShuffleV2_revealStep {i : ℕ} {outputCards : List (ElGamalCiphertext G)}
    {proof : Protocol.ShuffleProof G}
    (h : s.applySubmitShuffleV2 i outputCards proof = .ok s') : RevealStep s s' := by
  obtain ⟨phase, _, _, _, m, hp, -, -, -, -, -, -, ht, -, hpass⟩ := applySubmitShuffleV2_eq_ok h
  have hsame : s.table.SameReveal m.table := by
    refine ⟨?_, ?_, ?_, fun i => by rw [ht]⟩
    · rw [ht, revealTokenState, revealTokenState, hp]
      cases phase <;> rfl
    · rw [ht]
      intro hopen
      cases hopen
    · rw [ht, roundState, roundState, hp]
      cases phase <;> rfl
  have hidle : s.table.isRevealing = false := by rw [isRevealing, revealDeadlineMs, hp]; rfl
  exact .after hsame hidle (by rw [ht]) hpass.revealStep

theorem applySubmitReconstructDeck_revealStep {i : ℕ}
    {statement : ReconstructionStatement G (Protocol.Contribution G)}
    {proof : Protocol.ReconstructProof G}
    (h : s.applySubmitReconstructDeck i statement proof = .ok s') : RevealStep s s' := by
  obtain ⟨street, state, reveal, e, d, _, _, accumulated, m, hp, -, -, -, -, -, -, rfl, -, h⟩ :=
    applySubmitReconstructDeck_eq_ok h
  have hsame : s.table.SameReveal (s.contributed i accumulated
      (.reconstructing street ⟨seatMaskRemove state.pendingMask i⟩ reveal e d)).table := by
    refine ⟨?_, ?_, ?_, fun _ => rfl⟩
    · rw [revealTokenState, revealTokenState, hp]
      rfl
    · intro hopen
      cases hopen
    · rw [roundState, roundState, hp]
      rfl
  rcases h with rfl | ⟨-, h⟩
  · exact hsame.step
  · have hidle : s.table.isRevealing = false := by rw [isRevealing, revealDeadlineMs, hp]; rfl
    exact .after hsame hidle rfl (onCompleteReconstruct_revealStep rfl h)

omit [AddCommGroup G] [Protocol G] [DecidableEq G] in
/-- Actions stay in the betting round. -/
theorem closed_of_acted (hb : s.table.bettingRound.isSome = true)
    (h : s'.table.handPhase = s.table.handPhase.undated) : RevealStep s s' := by
  refine .closed (revealTokenState_of_betting ?_)
  unfold bettingRound at hb
  split at hb
  · rename_i hp
    simp [bettingRound, h, hp, HandPhase.undated]
  · cases hb

omit [AddCommGroup G] [Protocol G] [DecidableEq G] in
theorem matchBet_revealStep {i : ℕ} (h : s.matchBet i = .ok s') : RevealStep s s' := by
  obtain ⟨-, -, -, round, hround, ⟨-, ht⟩ | ⟨-, k, p, -, -, ht⟩⟩ := matchBet_eq_ok h
  all_goals exact closed_of_acted (by rw [hround]; rfl) (by rw [ht]; rfl)

omit [AddCommGroup G] [Protocol G] [DecidableEq G] in
theorem raiseTo_revealStep {i totalBet : ℕ} (h : s.raiseTo i totalBet = .ok s') :
    RevealStep s s' := by
  obtain ⟨-, -, street, round, turn, d, newRound, needed, k, p, hp, -, -, -, u, hu, ht⟩ :=
    raiseTo_eq_ok h
  have hb : u.revealTokenState = none := by
    rw [hu]
    rfl
  refine .closed ?_
  rw [ht]
  split
  · exact hb
  · exact hb

omit [AddCommGroup G] [Protocol G] [DecidableEq G] in
theorem applyFundSeat_revealStep {i amount : ℕ} {timing : FundTiming}
    (h : s.applyFundSeat i amount timing = .ok s') : RevealStep s s' := by
  obtain ⟨k, funded, rfl, -, -, hf, ht, -⟩ := applyFundSeat_eq_ok h
  have hfold : funded.isFolded = (s.table.seats k).isFolded := by
    rcases hf with ⟨-, hf⟩ | ⟨-, hf⟩
    · exact Seat.isFolded_setPendingAddon hf
    · exact Seat.isFolded_setStack hf
  refine (SameReveal.of_phase ?_ fun i => ?_).step
  · rw [ht]
    rfl
  · rw [ht]
    exact isFolded_setSeat hfold i

theorem settleHand_revealStep (h : s.settleHand = .ok s') : RevealStep s s' := by
  rw [settleHand] at h
  split at h
  · cases h
    exact (SameReveal.refl _).step
  split at h
  · cases h
    exact (SameReveal.refl _).step
  · simp only [Fallible.bind_eq_ok] at h
    obtain ⟨_, -, _, -, m, -, h⟩ := h
    exact closed_of_waiting (resetForNextHand_loses h).2.phase

/-- Every move of a hand takes the reveal along. -/
theorem Play.revealStep (h : Play s s') : RevealStep s s' := by
  cases h with
  | notice _ => exact (SameReveal.refl _).step
  | clock ht => exact ht.sameReveal.step
  | turn _ h => exact setCurrentTurn_revealStep h
  | closeRound hb _ hc h => exact closeRound_revealStep hb hc h
  | ended _ h => exact endWithoutShowdown_revealStep h
  | openPreflop _ _ _ h =>
    exact .closed (revealTokenState_of_betting (by
      rw [(setCurrentTurn_eq_ok h).2.2.1, bettingRound_withTurn]
      rfl))
  | openStreet _ h =>
    exact .closed (revealTokenState_of_betting (by
      rw [(setCurrentTurn_eq_ok h).2.2.1, bettingRound_withTurn]
      rfl))
  | display _ => exact .closed rfl
  | passShuffle h => exact (advanceShuffle_eq_ok h).revealStep
  | completeReconstruct hd h =>
    exact onCompleteReconstruct_revealStep (by rw [isRevealing, hd]; rfl) h
  | submitShuffle _ h => exact applySubmitShuffleV2_revealStep h
  | submitReconstruct h => exact applySubmitReconstructDeck_revealStep h
  | fold _ _ h =>
    obtain ⟨-, hb, ht, -⟩ := foldSeat_eq_ok h
    exact closed_of_acted hb (by rw [ht]; rfl)
  | matchBet _ _ h => exact matchBet_revealStep h
  | raise _ _ h => exact raiseTo_revealStep h
  | fund h => exact applyFundSeat_revealStep h
  | askLeave h =>
    obtain ⟨-, -, rfl | ht⟩ := applySetLeaveAfterHand_eq_ok h
    · exact (SameReveal.refl _).step
    · refine (SameReveal.of_phase ?_ fun _ => ?_).step <;> rw [ht] <;> rfl
  | timeBank h =>
    obtain ⟨hocc, -, ht⟩ := consumeTimeBank_eq_ok h
    obtain ⟨k, rfl, hk⟩ := isOccupied_seat hocc
    refine (SameReveal.of_phase ?_ fun i => ?_).step
    · rw [ht]
      rfl
    · rw [ht, hk]
      exact isFolded_setSeat (Seat.isFolded_setTimeBankMs _) i
  | settle _ h => exact settleHand_revealStep h

/-! ## Repairs -/

omit [AddCommGroup G] [Protocol G] [DecidableEq G] in
theorem scrubReveal_eq {reveal : RevealTokenState G} {i : ℕ} (hi : i < maxSeats) :
    scrubReveal i reveal = reveal.without (seatMaskBit i) := by
  have hfun : (fun a : RevealAssignment G => { a with pendingMask := seatMaskRemove a.pendingMask i })
      = RevealAssignment.without (seatMaskBit i) := by
    funext a
    rw [RevealAssignment.without, seatMaskRemove, if_pos hi]
    rfl
  rw [scrubReveal, hfun]
  rfl

omit [AddCommGroup G] [Protocol G] [DecidableEq G] in
theorem Kicks.revealStep {k : Fin maxSeats} (h : Kicks s s' k) : RevealStep s s' := by
  have hp : s'.table.handPhase = s.table.handPhase.removeSeat k := by
    rw [h.table]
    rfl
  have hround : s'.table.roundState = s.table.roundState := by
    rw [roundState, roundState, hp]
    cases hph : s.table.handPhase with
    | shuffling phase => cases phase <;> rfl
    | _ => rfl
  have hopen : s'.table.isRevealing = true → s.table.isRevealing = true := by
    rw [isRevealing, isRevealing, revealDeadlineMs, revealDeadlineMs, hp]
    cases hph : s.table.handPhase with
    | shuffling phase => cases phase <;> exact fun h => h
    | _ => exact fun h => h
  have hfold : ∀ i, (s'.table.seats i).isFolded = true → (s.table.seats i).isFolded = true := by
    intro i hi
    rw [h.table] at hi
    change ((s.table.setSeat k (s.table.seats k).departed).seats i).isFolded = true at hi
    by_cases hik : i = k
    · subst hik
      rw [seats_setSeat_self] at hi
      cases hs : s.table.seats i <;> rw [hs] at hi <;> cases hi
    · rwa [seats_setSeat_of_ne fun he => hik (Fin.ext he)] at hi
  cases hr : s.table.revealTokenState with
  | none =>
    refine .closed ?_
    rw [revealTokenState] at hr ⊢
    rw [hp]
    cases hph : s.table.handPhase with
    | shuffling phase => cases phase <;> simp_all [HandPhase.removeSeat]
    | _ => simp_all [HandPhase.removeSeat]
  | some reveal =>
    suffices hr' : s'.table.revealTokenState = some (reveal.without (seatMaskBit k)) from
      .kept hr hr' hopen hround hfold
    rw [← scrubReveal_eq k.isLt]
    rw [revealTokenState] at hr ⊢
    rw [hp]
    cases hph : s.table.handPhase with
    | shuffling phase => cases phase <;> simp_all [HandPhase.removeSeat]
    | _ => simp_all [HandPhase.removeSeat]

/-- Every repair takes the reveal along. -/
theorem Repair.revealStep (h : Repair s s') : RevealStep s s' := by
  cases h with
  | kick h =>
    rcases kickSeatRaw_eq_ok h with ⟨-, rfl⟩ | ⟨k, -, hk⟩
    · exact (SameReveal.refl _).step
    · exact hk.revealStep
  | reset h => exact resetForNextHand_revealStep h
  | refundReset _ h => exact closed_of_waiting (resetForNextHand_loses h).2.phase
  | suspend h =>
    obtain ⟨-, reveal, d, hr, -, ht⟩ := startReconstruct_eq_ok h
    refine SameReveal.step ⟨?_, ?_, ?_, fun i => by rw [ht]⟩ <;> rw [ht]
    · exact hr.symm
    · intro hopen
      cases hopen
    · rfl
  | rebuild _ h =>
    obtain ⟨-, ⟨-, reveal, hr, -, ht⟩ | ⟨-, ht⟩⟩ := rebuildDeckAndShuffleOnTimeout_eq_ok h
    · refine SameReveal.step ⟨?_, ?_, ?_, fun i => by rw [ht]; rfl⟩ <;> rw [ht]
      · exact hr.symm
      · intro hopen
        cases hopen
      · rfl
    · exact .closed (by rw [ht]; rfl)

/-! ## Steps -/

omit [AddCommGroup G] [Protocol G] [DecidableEq G] in
theorem folded_of_setSeat {t : TexasPokerTable G} {k : Fin maxSeats} {seat : Seat G}
    (h : seat.isFolded = false) (i : Fin maxSeats)
    (hi : ((t.setSeat k seat).seats i).isFolded = true) : (t.seats i).isFolded = true := by
  by_cases hik : i = k
  · subst hik
    rw [seats_setSeat_self, h] at hi
    cases hi
  · rwa [seats_setSeat_of_ne fun he => hik (Fin.ext he)] at hi

omit [AddCommGroup G] [Protocol G] [DecidableEq G] in
theorem applyCreateTable_waiting {t : TexasPokerTable G} {caller : Address}
    {maxPlayers smallBlind bigBlind ritMode : ℕ}
    (h : s.table.applyCreateTable caller maxPlayers smallBlind bigBlind ritMode = .ok t) :
    t.handPhase = .waiting := by
  simp only [applyCreateTable, Fallible.bind_eq_ok] at h
  obtain ⟨_, -, _, -, _, -, _, -, h⟩ := h
  cases h
  rfl

/-- Every plain step takes the reveal along. -/
theorem PlainStep.revealStep (h : PlainStep s s') : RevealStep s s' := by
  cases h with
  | move h =>
    cases h with
    | play h => exact h.revealStep
    | repair h => exact h.revealStep
  | create h => exact closed_of_waiting (applyCreateTable_waiting h)
  | join h =>
    obtain ⟨-, -, -, -, k, o, -, -, -, -, -, -, ht, -⟩ := applyJoinTable_eq_ok h
    refine .of_folded ?_ ?_ ?_ ?_ <;> rw [ht]
    · rfl
    · exact fun h => h
    · rfl
    · exact folded_of_setSeat rfl
  | leave h =>
    obtain ⟨-, k, -, -, -, ht, -⟩ := applyLeaveTable_eq_ok h
    refine .of_folded ?_ ?_ ?_ ?_ <;> rw [ht]
    · rfl
    · exact fun h => h
    · rfl
    · exact folded_of_setSeat rfl
  | prepare _ ht => exact .closed (by rw [ht]; rfl)
  | foldOut hb ht => exact closed_of_acted (Bool.and_eq_true_iff.mp hb).1 (by rw [ht]; rfl)
  | count h => refine (SameReveal.of_phase ?_ fun i => ?_).step <;> rw [h.rest]

end Exec

end TexasPoker
