import TexasPoker.Lib.Yields
import TexasPoker.Runtime.Dispatch

/-! # Events

Events are only ever appended, and only the start of a hand announces one.
-/

namespace TexasPoker

variable {G : Type}

namespace Exec

open Fallible

/-- Events are appended, none of which starts a hand. -/
def Appends (s s' : Exec G) : Prop :=
  ∃ es, s'.events = s.events ++ es ∧ ∀ e ∈ es, e.isHandStarted = false

variable {s m s' : Exec G}

theorem Appends.of_events (h : s'.events = s.events) : Appends s s' :=
  ⟨[], by rw [h, List.append_nil], by simp⟩

theorem Appends.refl (s : Exec G) : Appends s s := .of_events rfl

theorem Appends.trans (h : Appends s m) (h' : Appends m s') : Appends s s' := by
  obtain ⟨es, he, hes⟩ := h
  obtain ⟨es', he', hes'⟩ := h'
  refine ⟨es ++ es', by rw [he', he, List.append_assoc], fun e hmem => ?_⟩
  rcases List.mem_append.mp hmem with hmem | hmem
  · exact hes e hmem
  · exact hes' e hmem

theorem Appends.emit (h : Appends s m) {e : TexasPokerEvent} (he : e.isHandStarted = false) :
    Appends s (m.emit e) :=
  h.trans ⟨[e], rfl, fun _ hmem => List.mem_singleton.mp hmem ▸ he⟩

theorem Appends.withTable (h : Appends s m) (t : TexasPokerTable G) : Appends s (m.withTable t) :=
  h.trans (.of_events rfl)

theorem appends_emit (s : Exec G) (t : TexasPokerTable G) {e : TexasPokerEvent}
    (he : e.isHandStarted = false) : Appends s ((s.withTable t).emit e) :=
  ((Appends.refl s).withTable t).emit he

theorem appends_map {ι : Type} (t : TexasPokerTable G) (l : List ι) {f : ι → TexasPokerEvent}
    (hf : ∀ i, (f i).isHandStarted = false) : Appends s ⟨t, s.events ++ l.map f⟩ := by
  refine ⟨_, rfl, fun e he => ?_⟩
  obtain ⟨i, -, rfl⟩ := List.mem_map.mp he
  exact hf i

/-- Every accepted outcome appends to what came before. -/
abbrev Grows (s : Exec G) (x : PokerL1Result (Exec G)) : Prop := Yields x (Appends s)

theorem Grows.after {x : PokerL1Result (Exec G)} (h : Grows m x) (hm : Appends s m) : Grows s x :=
  h.imp fun _ => hm.trans

/-! ## Actions -/

theorem foldSeat_grows (i reason : ℕ) : Grows s (s.foldSeat i reason) :=
  .next fun _ => .next fun _ => .ok (appends_emit _ _ rfl)

theorem matchBet_grows (i : ℕ) : Grows s (s.matchBet i) := by
  refine .next fun round => .next fun _ => .ite (fun _ => ?_) fun _ => ?_
  · exact .next fun _ => .ok (appends_emit _ _ rfl)
  · refine .next fun _ => .next fun _ => .next fun p => .next fun _ =>
      .ite (fun _ => ?_) fun _ => ?_
    · exact .ok ((appends_emit _ _ rfl).emit rfl)
    · exact .ok (appends_emit _ _ rfl)

theorem raiseTo_grows (i totalBet : ℕ) : Grows s (s.raiseTo i totalBet) := by
  unfold raiseTo
  dsimp only
  split
  · refine .next fun _ => .next fun _ => .next fun _ => .next fun p => .next fun _ =>
      .ite (fun _ => ?_) fun _ => ?_
    · exact .ok ((appends_emit _ _ rfl).emit rfl)
    · exact .ok (appends_emit _ _ rfl)
  · exact .error _

theorem kickSeatRaw_grows (i : ℕ) (reason : KickCause) : Grows s (s.kickSeatRaw i reason) := by
  refine .next fun _ => .ite (fun _ => .ok (.refl s)) fun _ => .next fun _ => .next fun _ =>
    .next fun _ => .next fun _ => .next fun _ => .ok (.emit (.withTable ?_ _) rfl)
  split
  · exact .emit (.withTable (.withTable (.refl s) _) _) rfl
  · exact .withTable (.refl s) _

/-! ## Resets -/

theorem resetForNextHand_grows [AddCommGroup G] [Protocol G] [DecidableEq G] :
    Grows s s.resetForNextHand := by
  have hfold {f : Exec G → Fin maxSeats → Exec G} (hf : ∀ u i, Appends u (f u i))
      (l : List (Fin maxSeats)) (u : Exec G) : Appends u (l.foldl f u) := by
    induction l generalizing u with
    | nil => exact .refl u
    | cons i l ih => exact (hf u i).trans (ih _)
  have hleaver (u : Exec G) (i : Fin maxSeats) : Appends u (u.removeLeaver i) := by
    unfold removeLeaver
    dsimp only
    split
    · exact ⟨_, List.append_assoc _ _ _, by simp [TexasPokerEvent.isHandStarted]⟩
    · exact ⟨_, rfl, by simp [TexasPokerEvent.isHandStarted]⟩
  have hbusted (u : Exec G) (i : Fin maxSeats) : Appends u (u.removeBusted i) :=
    ⟨_, rfl, by simp [TexasPokerEvent.isHandStarted]⟩
  have hmerged : Appends s s.mergeAddons := appends_map _ _ fun _ => rfl
  refine .next fun _ => .ok (.withTable (.trans (.withTable (.trans (hmerged.trans ?_)
    (hfold hleaver _ _)) _) (hfold hbusted _ _)) _)
  exact .of_events rfl

theorem collectBetsToPot_grows : Grows s s.collectBetsToPot :=
  .next fun _ => .next fun _ => .ite (fun _ => .ok (appends_emit _ _ rfl))
    fun _ => .ok ((Appends.refl s).withTable _)

theorem awardSurvivor_grows : Grows s s.awardSurvivor := by
  unfold awardSurvivor
  split
  · exact .ok (.refl s)
  · exact .next fun _ => .next fun _ => .ok (appends_emit _ _ rfl)

theorem refundAllBets_grows : Grows s s.refundAllBets :=
  .next fun _ => .ok (appends_map _ _ fun _ => rfl)

variable [AddCommGroup G] [Protocol G] [DecidableEq G]

theorem endWithoutShowdown_grows : Grows s s.endWithoutShowdown :=
  Yields.bind collectBetsToPot_grows fun _ hc => (Grows.after awardSurvivor_grows hc).bind
    fun _ ha => Grows.after resetForNextHand_grows ha

/-- A void hand gives the bets back and resets. -/
theorem refundReset_grows : Grows s (s.refundAllBets >>= resetForNextHand) :=
  Yields.bind refundAllBets_grows fun _ h => Grows.after resetForNextHand_grows h

/-! ## Reveals and shuffles -/

omit [AddCommGroup G] [Protocol G] [DecidableEq G] in
theorem startPreflopRevealPhase_grows : Grows s s.startPreflopRevealPhase :=
  .next fun _ => .ok (appends_emit _ _ rfl)

omit [AddCommGroup G] [Protocol G] [DecidableEq G] in
theorem startCommunityRevealPhase_grows (count street : ℕ) :
    Grows s (s.startCommunityRevealPhase count street) :=
  .next fun _ => .next fun _ => .next fun _ => .next fun _ => .ok (appends_emit _ _ rfl)

omit [AddCommGroup G] [Protocol G] [DecidableEq G] in
theorem startShowdownRevealPhase_grows : Grows s s.startShowdownRevealPhase :=
  .next fun _ => .next fun _ => .ok (appends_emit _ _ rfl)

omit [AddCommGroup G] [Protocol G] [DecidableEq G] in
theorem maybeTriggerRunItTwice_grows : Grows s s.maybeTriggerRunItTwice :=
  .ite (fun _ => .ok (.refl s)) fun _ => .ite (fun _ => .ok (.refl s)) fun _ => .next fun _ =>
    .ite (fun _ => .ok (.refl s)) fun _ => .next fun _ => .next fun _ => .next fun _ =>
      .next fun _ => .ok (appends_emit _ _ rfl)

omit [AddCommGroup G] [Protocol G] [DecidableEq G] in
theorem restartRevealAfterReconstruct_grows : Grows s s.restartRevealAfterReconstruct := by
  have hboard (cards count street : ℕ) : Grows s (if s.table.communityCards.len < cards then
      s.startCommunityRevealPhase count street else .ok s) :=
    .ite (fun _ => startCommunityRevealPhase_grows _ _) fun _ => .ok (.refl s)
  exact .next fun _ => .ite
    (fun _ => Grows.after startPreflopRevealPhase_grows ((Appends.refl s).withTable _)) fun _ =>
    .ite (fun _ => hboard _ _ _) fun _ => .ite (fun _ => hboard _ _ _) fun _ =>
    .ite (fun _ => hboard _ _ _) fun _ => .ite (fun _ => startShowdownRevealPhase_grows)
    fun _ => .ok (.refl s)

omit [AddCommGroup G] [Protocol G] [DecidableEq G] in
theorem advanceShuffle_grows : Grows s s.advanceShuffle := by
  have hdone {e : TexasPokerEvent} (he : e.isHandStarted = false) : Appends s (s.emit e) :=
    (Appends.refl s).emit he
  exact .ite (fun _ => .ok (.refl s)) fun _ => .ite (fun _ => .ite
    (fun _ => Grows.after startPreflopRevealPhase_grows (hdone rfl))
    fun _ => Grows.after restartRevealAfterReconstruct_grows (hdone rfl))
    fun _ => .next fun _ => .next fun _ => .ok (appends_emit _ _ rfl)

omit [DecidableEq G] in
theorem rebuildDeckAndShuffleOnTimeout_grows (phase : ℕ) :
    Grows s (s.rebuildDeckAndShuffleOnTimeout phase) := by
  unfold rebuildDeckAndShuffleOnTimeout
  dsimp only
  split
  · exact .next fun _ => .next fun _ => .ok (appends_emit _ _ rfl)
  · exact .next fun _ => .ok (appends_emit _ _ rfl)

theorem applySubmitShuffleV2_grows (i : ℕ) (outputCards : List (ElGamalCiphertext G))
    (proof : Protocol.ShuffleProof G) : Grows s (s.applySubmitShuffleV2 i outputCards proof) := by
  refine .next fun _ => .next fun _ => .next fun _ => .next fun _ => .next fun _ => .next fun _ =>
    .next fun _ => .next fun _ => ?_
  dsimp only
  split
  · exact .next fun _ => Grows.after advanceShuffle_grows (appends_emit _ _ rfl)
  · exact .next fun _ => Grows.after advanceShuffle_grows (appends_emit _ _ rfl)

omit [AddCommGroup G] [Protocol G] [DecidableEq G] in
theorem startReconstruct_grows (nowMs : ℕ) : Grows s (s.startReconstruct nowMs) :=
  .next fun _ => .next fun _ => .next fun _ => .ok (appends_emit _ _ rfl)

omit [AddCommGroup G] [Protocol G] [DecidableEq G] in
theorem onCompleteReconstruct_grows : Grows s s.onCompleteReconstruct :=
  .next fun _ => .next fun _ => .next fun _ =>
    Grows.after advanceShuffle_grows (((appends_emit _ _ rfl).emit rfl).withTable _)

theorem applySubmitReconstructDeck_grows (i : ℕ)
    (statement : ReconstructionStatement G (Protocol.Contribution G))
    (proof : Protocol.ReconstructProof G) :
    Grows s (s.applySubmitReconstructDeck i statement proof) := by
  refine .next fun _ => .next fun _ => .next fun _ => .next fun _ => .next fun _ =>
    .next fun _ => ?_
  have hgiven (t : TexasPokerTable G) {e : TexasPokerEvent} (he : e.isHandStarted = false) :
      Grows s (if ((s.withTable t).emit e).table.reconstructState.pendingMask = 0 then
        ((s.withTable t).emit e).onCompleteReconstruct else .ok ((s.withTable t).emit e)) :=
    .ite (fun _ => Grows.after onCompleteReconstruct_grows (appends_emit _ _ he))
      fun _ => .ok (appends_emit _ _ he)
  dsimp only
  split <;> refine .next fun _ => .next fun _ => ?_ <;> split
  · exact .next fun _ => hgiven _ rfl
  · exact .next fun _ => hgiven _ rfl
  · exact .next fun _ => hgiven _ rfl
  · exact .next fun _ => hgiven _ rfl

/-! ## Streets -/

omit [AddCommGroup G] [Protocol G] [DecidableEq G] in
theorem postBlinds_grows : Yields s.postBlinds fun b => Appends s b.1 := by
  unfold postBlinds
  dsimp only
  split
  · exact .next fun _ => .next fun _ => .ok (appends_emit _ _ rfl)
  · exact .next fun _ => .next fun _ => .ok (appends_emit _ _ rfl)

omit [AddCommGroup G] [Protocol G] [DecidableEq G] in
theorem collectAnte_grows (bbSeat : ℕ) : Grows s (s.collectAnte bbSeat) :=
  .ite (fun _ => .ok (.refl s)) fun _ => .next fun _ => .next fun _ => .next fun _ =>
    .foldlM (fun _ _ _ h => .next fun _ => .ok ((h.withTable _).emit rfl))
      ((Appends.refl s).withTable _)

omit [AddCommGroup G] [Protocol G] [DecidableEq G] in
theorem setCurrentTurn_grows (turn : Option ℕ) : Grows s (s.setCurrentTurn turn) :=
  .next fun _ => .ite (fun _ => .ok ((Appends.refl s).withTable _))
    fun _ => .ok (appends_emit _ _ rfl)

theorem advanceRound_grows : Grows s s.advanceRound := by
  refine .ite (fun _ => endWithoutShowdown_grows) fun _ => Yields.bind maybeTriggerRunItTwice_grows
    fun m hm => ?_
  have hnext {x : PokerL1Result (Exec G)} (hx : Grows m x) (old : Option ℕ) (start street : ℕ) :
      Grows s (x >>= fun s => .ok ((s.emit (.currentTurnChanged s.table.id old none street)).emit
        (.roundAdvanced s.table.id start street s.table.pot s.table.communityCards.len))) :=
    (hx.after hm).bind fun _ h => .ok ((h.emit rfl).emit rfl)
  dsimp only
  split
  · exact .ok hm
  · rename_i street opened heq
    refine hnext ?_ _ _ _
    split_ifs at heq <;> cases heq
    · exact startCommunityRevealPhase_grows _ _
    · exact startCommunityRevealPhase_grows _ _
    · exact startCommunityRevealPhase_grows _ _
    · exact startShowdownRevealPhase_grows

/-- A betting round that is over is collected and left. -/
theorem closes_grows : Grows s (s.collectBetsToPot >>= advanceRound) :=
  Yields.bind collectBetsToPot_grows fun _ h => Grows.after advanceRound_grows h

theorem advanceTurn_grows : Grows s s.advanceTurn :=
  .ite (fun _ => (setCurrentTurn_grows none).bind fun _ h => Grows.after closes_grows h)
    fun _ => setCurrentTurn_grows _

theorem startBettingRound_grows (isPreflop : Bool) (bbSeat : Option ℕ) :
    Grows s (s.startBettingRound isPreflop bbSeat) :=
  .next fun _ => ((setCurrentTurn_grows _).after ((Appends.refl s).withTable _)).bind fun _ h =>
    .ite (fun _ => ((setCurrentTurn_grows none).after h).bind fun _ h => Grows.after closes_grows h)
      fun _ => .ok (h.emit rfl)

theorem checkRevealPhaseComplete_grows : Grows s s.checkRevealPhaseComplete := by
  have hdone {e : TexasPokerEvent} (he : e.isHandStarted = false) : Appends s (s.emit e) :=
    (Appends.refl s).emit he
  refine .next fun reveal => .ite (fun _ => .ok (.refl s)) fun _ => ?_
  split
  · exact Yields.bind postBlinds_grows fun b hb =>
      ((collectAnte_grows _).after ((hdone rfl).trans hb)).bind fun _ ha =>
        (startBettingRound_grows _ _).after ha
  · exact (startBettingRound_grows _ _).after (hdone rfl)
  · exact .ok ((hdone rfl).withTable _)

/-! ## Commands of players -/

/-- The last unfolded player ends the hand, or the turn passes. -/
theorem ends_grows : Grows s (if s.table.countActivePlayers ≤ 1 then s.endWithoutShowdown
    else s.advanceTurn) :=
  .ite (fun _ => endWithoutShowdown_grows) fun _ => advanceTurn_grows

theorem applyPlayerAction_grows (i : ℕ) (action : PlayerAction) :
    Grows s (s.applyPlayerAction i action) := by
  refine .next fun _ => .next fun _ => .next fun _ => ?_
  cases action with
  | fold reason => exact (foldSeat_grows i reason).bind fun _ h => Grows.after ends_grows h
  | matchBet => exact (matchBet_grows i).bind fun _ h => Grows.after advanceTurn_grows h
  | raiseTo totalBet =>
    exact (raiseTo_grows i totalBet).bind fun _ h => Grows.after advanceTurn_grows h

theorem applyCheck_grows (i : ℕ) : Grows s (s.applyCheck i) :=
  .next fun _ => .next fun _ => .next fun _ => applyPlayerAction_grows _ _

theorem applyCall_grows (i : ℕ) : Grows s (s.applyCall i) :=
  .next fun _ => .next fun _ => .next fun _ => applyPlayerAction_grows _ _

theorem applyBet_grows (i amount : ℕ) : Grows s (s.applyBet i amount) :=
  .next fun _ => .next fun _ => .next fun _ => .next fun _ => .next fun _ => .next fun _ =>
    (applyPlayerAction_grows _ _).bind fun _ h => .ok (h.emit rfl)

theorem applyFoldWithProof_grows (i : ℕ) (outputCards : List (ElGamalCiphertext G))
    (proof : Protocol.LeaveProof G) : Grows s (s.applyFoldWithProof i outputCards proof) :=
  .next fun _ => .next fun _ => .next fun _ => .next fun _ => .next fun _ => .next fun _ =>
    .next fun _ => .next fun _ => .next fun _ => .next fun _ => .next fun _ =>
      Grows.after ends_grows (appends_emit _ _ rfl)

omit [AddCommGroup G] [Protocol G] [DecidableEq G] in
theorem applyFundSeat_grows (i amount : ℕ) (timing : FundTiming) :
    Grows s (s.applyFundSeat i amount timing) := by
  refine .next fun _ => .next fun _ => .next fun _ => .next fun _ => .next fun _ => ?_
  cases timing with
  | nextHand => exact .next fun _ => .next fun _ => .ok (appends_emit _ _ rfl)
  | immediate => exact .next fun _ => .next fun _ => .ok (appends_emit _ _ rfl)

omit [AddCommGroup G] [Protocol G] [DecidableEq G] in
theorem applySetLeaveAfterHand_grows (i : ℕ) (wantLeave : Bool) :
    Grows s (s.applySetLeaveAfterHand i wantLeave) :=
  .next fun _ => .next fun _ => .ite (fun _ => .ok (.refl s)) fun _ => .ok (appends_emit _ _ rfl)

omit [AddCommGroup G] [Protocol G] [DecidableEq G] in
theorem consumeTimeBank_grows (i consumedMs : ℕ) : Grows s (s.consumeTimeBank i consumedMs) :=
  .next fun _ => .next fun _ => .next fun _ => .ok (appends_emit _ _ rfl)

theorem applyJoinTable_grows (player : Address) (buyIn : ℕ) (pk : G) (txPk : TaggedPubkey)
    (proof : Bytes) : Grows s (s.applyJoinTable player buyIn pk txPk proof) :=
  .next fun _ => .next fun _ => .next fun _ => .next fun _ => .next fun _ => .next fun _ =>
    .next fun _ => .next fun _ => .next fun _ => .ok (appends_emit _ _ rfl)

omit [Protocol G] in
theorem applyLeaveTable_grows (i : ℕ) : Grows s (s.applyLeaveTable i) := by
  refine .next fun _ => .next fun _ => .next fun _ => .next fun _ => .next fun _ =>
    .ok (.emit ?_ rfl)
  split
  · exact appends_emit _ _ rfl
  · exact (Appends.refl s).withTable _

omit [DecidableEq G] in
theorem submitRevealToken_grows (i : ℕ) (pk : G) (entry : ℕ × G × Protocol.RevealTokenProof G) :
    Grows s (submitRevealToken i pk s entry) :=
  .next fun _ => .next fun _ => .next fun _ => .next fun _ => .next fun _ => .next fun _ =>
    .ok (appends_emit _ _ rfl)

theorem materializeCommunity_grows (completed : List (RevealAssignment G)) :
    Grows s (s.materializeCommunity completed) :=
  .next fun _ => .next fun _ => .next fun _ => .ok (appends_emit _ _ rfl)

theorem materializeShowdown_grows (completed : List (RevealAssignment G)) :
    Grows s (s.materializeShowdown completed) :=
  .next fun _ => .next fun _ => .foldlM (fun _ _ _ h => .next fun _ => .next fun _ =>
    .next fun _ => .next fun _ => .next fun _ => .ite (fun _ => .ok (h.withTable _))
      fun _ => .ok ((h.withTable _).emit rfl)) (.refl s)

theorem materializeCompletedRevealAssignments_grows :
    Grows s s.materializeCompletedRevealAssignments := by
  have hdrained {x : PokerL1Result (Exec G)} (hx : Grows s x) :
      Grows s (x >>= fun s => s.table.drainCompleted >>= fun t => .ok (s.withTable t)) :=
    hx.bind fun _ h => .next fun _ => .ok (h.withTable _)
  refine .next fun reveal => .ite (fun _ => .ok (.refl s)) fun _ => ?_
  split
  · exact .next fun _ => hdrained (.ok ((Appends.refl s).withTable _))
  · exact .next fun _ => hdrained (materializeCommunity_grows _)
  · exact hdrained (materializeShowdown_grows _)

theorem applySubmitPlayerRevealTokens_grows (i : ℕ) (tokens : List G)
    (proofs : List (Protocol.RevealTokenProof G)) :
    Grows s (s.applySubmitPlayerRevealTokens i tokens proofs) :=
  .next fun _ => .next fun _ => .next fun _ => .next fun _ => .next fun _ => .next fun _ =>
    Yields.bind (Q := Appends s)
      (.foldlM (fun _ _ _ h => (submitRevealToken_grows _ _ _).after h) (.refl s)) fun _ h =>
      (Grows.after materializeCompletedRevealAssignments_grows h).bind fun _ h =>
        Grows.after checkRevealPhaseComplete_grows h

/-! ## Kicks and timeouts -/

theorem closeShortHand_grows : Grows s s.closeShortHand :=
  .ite (fun _ => .ite (fun _ => endWithoutShowdown_grows) fun _ => resetForNextHand_grows)
    fun _ => .ok (.refl s)

theorem kickPlayerInternal_grows (i : ℕ) (reason : KickCause) :
    Grows s (s.kickPlayerInternal i reason) := by
  refine (kickSeatRaw_grows i reason).bind fun r hr => ?_
  have hrest {a : Exec G} (ha : Appends s a) (p : Prop) [Decidable p] :
      Grows s (if p then if a.table.countActivePlayers ≤ 1 then a.endWithoutShowdown
        else a.advanceTurn >>= closeShortHand else a.closeShortHand) :=
    .ite (fun _ => .ite (fun _ => Grows.after endWithoutShowdown_grows ha)
      fun _ => (Grows.after advanceTurn_grows ha).bind fun _ h =>
        Grows.after closeShortHand_grows h)
      fun _ => Grows.after closeShortHand_grows ha
  dsimp only
  split
  · exact (Grows.after advanceShuffle_grows hr).bind fun _ ha => hrest ha _
  · exact hrest hr _

omit [DecidableEq G] in
theorem applySettlementPlan_grows (plan : SettlementPlan) :
    Grows s (s.applySettlementPlan plan) := by
  have hawards {u : Exec G} (hu : Appends s u) (pots : List SettlementPotPlan) (count : ℕ)
      (t : TexasPokerTable G) : Appends s ⟨u.table, u.events ++ pots.flatMap fun pot =>
        ((List.ofFn pot.runouts).take count).flatMap (t.awardEvents pot)⟩ := by
    refine hu.trans ⟨_, rfl, fun e he => ?_⟩
    simp only [List.mem_flatMap, TexasPokerTable.awardEvents, List.mem_map] at he
    obtain ⟨_, -, _, -, _, -, rfl⟩ := he
    rfl
  refine .next fun _ => .next fun _ => .next fun _ => .next fun _ =>
    .ok (.emit (hawards ?_ _ _ _) rfl)
  split
  · exact (appends_emit _ _ rfl).emit rfl
  · exact appends_emit _ _ rfl

theorem settleHand_grows : Grows s s.settleHand :=
  .ite (fun _ => .ok (.refl s)) fun _ => .ite (fun _ => .ok (.refl s)) fun _ =>
    .next fun _ => .next fun _ => (applySettlementPlan_grows _).bind fun _ h =>
      Grows.after resetForNextHand_grows h

theorem onShuffleTimeout_grows : Grows s s.onShuffleTimeout :=
  .next fun _ => .next fun _ =>
    ((kickPlayerInternal_grows _ _).after ((Appends.refl s).emit rfl)).bind fun _ h =>
      .ite (fun _ => Grows.after refundReset_grows h) fun _ =>
      .ite (fun _ => Grows.after endWithoutShowdown_grows h) fun _ => .ite (fun _ => .ok h) fun _ =>
        ((rebuildDeckAndShuffleOnTimeout_grows _).after h).bind fun _ h =>
          Grows.after advanceShuffle_grows h

theorem onRevealTimeout_grows (nowMs : ℕ) : Grows s (s.onRevealTimeout nowMs) := by
  refine Yields.bind (Q := Appends s) (.foldlM (fun _ _ _ h => (kickSeatRaw_grows _ _).after h)
    ((Appends.refl s).emit rfl)) fun k hk => ?_
  refine .ite (fun _ => ?_) fun _ => .ite (fun _ => Grows.after endWithoutShowdown_grows hk)
    fun _ => .ite (fun _ => (Grows.after resetForNextHand_grows hk).bind
      fun _ h => .ok (h.emit rfl))
    fun _ => (startReconstruct_grows nowMs).after hk
  exact (Grows.after refundAllBets_grows hk).bind fun _ h =>
    (Grows.after resetForNextHand_grows h).bind fun _ h => .ok (h.emit rfl)

theorem onReconstructTimeout_grows : Grows s s.onReconstructTimeout := by
  refine Yields.bind (Q := Appends s) (.foldlM
    (fun _ _ _ h => (kickPlayerInternal_grows _ _).after h) ((Appends.refl s).emit rfl))
    fun k hk => ?_
  refine .ite (fun _ => Grows.after refundReset_grows hk) fun _ =>
    .ite (fun _ => Grows.after endWithoutShowdown_grows hk) fun _ =>
    .ite (fun _ => Grows.after onCompleteReconstruct_grows hk) fun _ => ?_
  exact (Grows.after refundAllBets_grows hk).bind fun _ h =>
    (Grows.after resetForNextHand_grows h).bind fun _ h => .ok (h.emit rfl)

/-! ## Normalization and deadlines -/

theorem runNormalizationStep_grows (step : NormalizationStep) :
    Grows s (s.runNormalizationStep step) := by
  cases step with
  | completeReconstruct => exact onCompleteReconstruct_grows
  | advanceShuffle => exact advanceShuffle_grows
  | completeReveal => exact checkRevealPhaseComplete_grows
  | endWithoutShowdown => exact endWithoutShowdown_grows
  | advanceBettingRound => exact closes_grows

theorem normalizeLoop_grows (nowMs fuel : ℕ) (report : List NormalizationStep) :
    Yields (normalizeLoop nowMs fuel s report) fun r => Appends s r.1 := by
  induction fuel generalizing s report with
  | zero => exact .error _
  | succ fuel ih =>
    refine .next fun next => ?_
    cases next with
    | none => exact .ok (.refl s)
    | some step =>
      have honce : Grows s (normalizeOnce nowMs s step) :=
        (runNormalizationStep_grows step).bind fun _ h => .next fun _ => .next fun _ =>
          .next fun _ => .next fun _ => .ok (h.withTable _)
      exact honce.bind fun _ h => (ih _).imp fun _ => h.trans

theorem normalizeUntilBlocked_grows (nowMs : ℕ) :
    Yields (s.normalizeUntilBlocked nowMs) fun r => Appends s r.1 :=
  .next fun _ => .next fun _ => (normalizeLoop_grows nowMs _ _).imp fun _ =>
    ((Appends.refl s).withTable _).trans

theorem advancePhase_grows (nowMs : ℕ) (pre : List NormalizationStep) (kind : DeadlineKind)
    (subject deadlineMs : ℕ) {onTimeout : Exec G → PokerL1Result (Exec G)}
    (h : Grows s (onTimeout s)) :
    Yields (advancePhase nowMs pre kind subject deadlineMs s onTimeout) fun r => Appends s r.1 :=
  .ite (fun _ => .ok (.refl s)) fun _ => h.bind fun _ hm =>
    (normalizeUntilBlocked_grows nowMs).bind fun _ hn => .ok (hm.trans hn)

theorem advanceBetting_grows (nowMs : ℕ) (pre : List NormalizationStep) :
    Yields (advanceBetting nowMs pre s) fun r => Appends s r.1 :=
  .next fun _ => .next fun _ => .ite (fun _ => (consumeTimeBank_grows _ _).bind fun _ h =>
    .next fun _ => .ok (h.withTable _))
    fun _ => advancePhase_grows _ _ _ _ _ (applyPlayerAction_grows _ (.fold _))

theorem advanceDeadlineWithReport_grows (nowMs : ℕ) :
    Yields (s.advanceDeadlineWithReport nowMs) fun r => Appends s r.1 := by
  refine .next fun _ => (normalizeUntilBlocked_grows nowMs).bind fun r hr => ?_
  have hphase {x : PokerL1Result (Exec G × AdvanceDeadlineExecution)}
      (hx : Yields x fun a => Appends r.1 a.1) : Yields x fun a => Appends s a.1 :=
    hx.imp fun _ => hr.trans
  refine .ite (fun _ => .next fun _ => .next fun _ => hphase ?_) fun _ =>
    .ite (fun _ => .next fun _ => hphase ?_) fun _ => .ite (fun _ => .next fun _ => hphase ?_)
    fun _ => .ite (fun _ => hphase (advanceBetting_grows _ _)) fun _ =>
    .ite (fun _ => .next fun _ => hphase ?_) fun _ => .ok hr
  · exact advancePhase_grows _ _ _ _ _ onReconstructTimeout_grows
  · exact advancePhase_grows _ _ _ _ _ onShuffleTimeout_grows
  · exact advancePhase_grows _ _ _ _ _ (onRevealTimeout_grows nowMs)
  · exact advancePhase_grows _ _ _ _ _ settleHand_grows

/-! ## Commands -/

/-- Only the start of a hand announces one. -/
theorem runCommand_grows {context : DispatchContext} {args : Bytes} {command : CanonicalCommand}
    (hc : command ≠ .startHand) : Grows s (runCommand context args s command) := by
  cases command with
  | createTable => exact .next fun _ => .next fun _ => .ok ((Appends.refl s).withTable _)
  | joinTable => exact .next fun _ => .next fun _ => applyJoinTable_grows _ _ _ _ _
  | leaveTable => exact .next fun _ => .next fun _ => applyLeaveTable_grows _
  | startHand => exact absurd rfl hc
  | advanceDeadline =>
    exact .next fun _ => (advanceDeadlineWithReport_grows _).bind fun _ h => .ok h
  | forceFold => exact .next fun _ => .next fun _ => applyPlayerAction_grows _ _
  | kickPlayer => exact .next fun _ => .next fun _ => kickPlayerInternal_grows _ _
  | submitShuffleV2 => exact .next fun _ => .next fun _ => applySubmitShuffleV2_grows _ _ _
  | submitPlayerRevealTokens =>
    exact .next fun _ => .next fun _ => applySubmitPlayerRevealTokens_grows _ _ _
  | submitReconstructDeck =>
    exact .next fun _ => .next fun _ => applySubmitReconstructDeck_grows _ _ _
  | fold => exact .next fun _ => .next fun _ => applyPlayerAction_grows _ _
  | check => exact .next fun _ => .next fun _ => applyCheck_grows _
  | call => exact .next fun _ => .next fun _ => applyCall_grows _
  | raise => exact .next fun _ => .next fun _ => applyPlayerAction_grows _ _
  | bet => exact .next fun _ => .next fun _ => applyBet_grows _ _
  | addon => exact .next fun _ => .next fun _ => applyFundSeat_grows _ _ _
  | rebuy => exact .next fun _ => .next fun _ => applyFundSeat_grows _ _ _
  | setLeaveAfterHand => exact .next fun _ => .next fun _ => applySetLeaveAfterHand_grows _ _
  | foldWithProof => exact .next fun _ => .next fun _ => applyFoldWithProof_grows _ _ _

end Exec

end TexasPoker
