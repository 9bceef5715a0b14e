import TexasPoker.Runtime.Commands

/-! # Beats

The moves of a table with the turns they pass. An action and what follows it are one beat, so
between two beats the seat to act has not acted yet.
-/

namespace TexasPoker

variable {G : Type}

theorem TexasPokerTable.not_betting_of_reveal {t : TexasPokerTable G}
    (h : t.revealTokenState.isSome = true) : t.isBettingRound = false := by
  unfold TexasPokerTable.isBettingRound TexasPokerTable.bettingRound
  unfold TexasPokerTable.revealTokenState at h
  cases hp : t.handPhase with
  | betting _ _ _ _ =>
    rw [hp] at h
    cases h
  | _ => rfl

namespace Exec

variable [AddCommGroup G] [Protocol G] [DecidableEq G]

/-- What the seat to act did, or how it was removed. -/
inductive Acts (s s' : Exec G) (i : ℕ) : Prop where
  | fold {reason : ℕ} : s.foldSeat i reason = .ok s' → Acts s s' i
  | matchBet : s.matchBet i = .ok s' → Acts s s' i
  | raise {totalBet : ℕ} : s.raiseTo i totalBet = .ok s' → Acts s s' i
  | foldOut {encrypted : CipherDeck G} : s'.table = foldedOut s.table i encrypted → Acts s s' i
  | kick {reason : KickCause} : s.kickSeatRaw i reason = .ok s' → Acts s s' i

/-- How the hand goes on after an action. -/
inductive GoesOn (s s' : Exec G) : Prop where
  | ends : s.table.countActivePlayers ≤ 1 → s.endWithoutShowdown = .ok s' → GoesOn s s'
  | closes : s.table.isBettingComplete = true → s.setCurrentTurn none = .ok s' → GoesOn s s'
  | passes : s.table.isBettingComplete = false → s.setCurrentTurn
      (s.table.findNextActiveSeat (s.table.currentTurnOption.getD 0)) = .ok s' → GoesOn s s'

/-- One step of a hand between two decisions. -/
inductive Beat (s : Exec G) : Exec G → Prop where
  | notice {e : TexasPokerEvent} : e.isNotice = true → Beat s (s.emit e)
  | clock {t : TexasPokerTable G} : s.table.Retimed t → Beat s (s.withTable t)
  | noTurn {s' : Exec G} : s.table.noFurtherBettingPossible = true →
      s.setCurrentTurn none = .ok s' → Beat s s'
  | closeRound {c s' : Exec G} : s.table.bettingRound.isSome = true →
      (s.table.RoundClosed ∨ s.table.currentTurn = noSeat) → s.collectBetsToPot = .ok c →
      c.advanceRound = .ok s' → Beat s s'
  | ended {s' : Exec G} : s.table.countActivePlayers ≤ 1 → s.endWithoutShowdown = .ok s' →
      Beat s s'
  | openPreflop {b a s' : Exec G} {bbSeat : ℕ} : s.table.Revealed .dealHole →
      s.postBlinds = .ok (b, bbSeat) → b.collectAnte bbSeat = .ok a →
      (a.withTable (a.table.bettingOpened true)).setCurrentTurn
        ((a.table.bettingOpened true).firstToAct true (some bbSeat)) = .ok s' → Beat s s'
  | openStreet {s' : Exec G} : s.table.Revealed .board →
      (s.withTable (s.table.bettingOpened false)).setCurrentTurn
        ((s.table.bettingOpened false).firstToAct false none) = .ok s' → Beat s s'
  | display : s.table.Revealed .showdownOwner →
      Beat s (s.withTable (s.table.enterShowdownDisplay 0))
  | passShuffle {s' : Exec G} : s.advanceShuffle = .ok s' → Beat s s'
  | completeReconstruct {s' : Exec G} : s.table.revealDeadlineMs = none →
      s.onCompleteReconstruct = .ok s' → Beat s s'
  | submitShuffle {s' : Exec G} {i : ℕ} {outputCards : List (ElGamalCiphertext G)}
      {proof : Protocol.ShuffleProof G} : i < s.table.rules.maxPlayers →
      s.applySubmitShuffleV2 i outputCards proof = .ok s' → Beat s s'
  | submitReconstruct {s' : Exec G} {i : ℕ}
      {statement : ReconstructionStatement G (Protocol.Contribution G)}
      {proof : Protocol.ReconstructProof G} :
      s.applySubmitReconstructDeck i statement proof = .ok s' → Beat s s'
  | act {m s' : Exec G} {i : ℕ} : s.table.isBettingRound = true → s.table.currentTurn = i →
      i < s.table.rules.maxPlayers → Acts s m i → GoesOn m s' → Beat s s'
  | askLeave {s' : Exec G} {i : ℕ} {wantLeave : Bool} :
      s.applySetLeaveAfterHand i wantLeave = .ok s' → Beat s s'
  | timeBank {s' : Exec G} {i consumedMs : ℕ} : s.consumeTimeBank i consumedMs = .ok s' →
      Beat s s'
  | settle {s' : Exec G} : s.table.roundState = roundShowdown → s.settleHand = .ok s' → Beat s s'
  | kick {s' : Exec G} {i : ℕ} {reason : KickCause} :
      ¬ (s.table.currentTurn = i ∧ s.table.isBettingRound = true) →
      s.kickSeatRaw i reason = .ok s' → Beat s s'
  | reset {s' : Exec G} : s.resetForNextHand = .ok s' → Beat s s'
  | refundReset {m s' : Exec G} : s.refundAllBets = .ok m → m.resetForNextHand = .ok s' →
      Beat s s'
  | suspend {s' : Exec G} {nowMs : ℕ} : s.startReconstruct nowMs = .ok s' → Beat s s'
  | rebuild {s' : Exec G} : s.table.shufflePhase ≠ shufflePhaseNone →
      s.rebuildDeckAndShuffleOnTimeout s.table.shufflePhase = .ok s' → Beat s s'

abbrev Beats : Exec G → Exec G → Prop := Relation.ReflTransGen Beat

variable {s s' m : Exec G} {i : ℕ}

theorem Beat.beats (h : Beat s s') : Beats s s' := .single h

/-- A property that every beat keeps. -/
theorem Beats.keeps {P : Exec G → Prop} (step : ∀ {s s'}, Beat s s' → P s → P s')
    (h : Beats s s') (hs : P s) : P s' := by
  induction h with
  | refl => exact hs
  | tail _ hb ih => exact step hb ih

/-! ## Betting -/

/-- A round whose turn is taken away closes. -/
theorem closes_beats {n c : Exec G} (hn : s.setCurrentTurn none = .ok n) (hb : Beat s n)
    (hc : n.collectBetsToPot = .ok c) (h : c.advanceRound = .ok s') : Beats s s' := by
  obtain ⟨-, hround, ht, -⟩ := setCurrentTurn_eq_ok hn
  refine hb.beats.tail (.closeRound ?_ (.inr ?_) hc h)
  · rwa [ht, bettingRound_withTurn]
  · rw [ht]
    exact currentTurn_withTurn hround

/-- An action and the turn it passes. -/
theorem acts_beats (hb : s.table.isBettingRound = true) (hturn : s.table.currentTurn = i)
    (hi : i < s.table.rules.maxPlayers) (hm : Acts s m i) (h : m.advanceTurn = .ok s') :
    Beats s s' := by
  rcases advanceTurn_eq_ok h with ⟨hdone, n, c, hn, hc, h⟩ | ⟨hopen, h⟩
  · obtain ⟨-, hround, ht, -⟩ := setCurrentTurn_eq_ok hn
    refine (Beat.act hb hturn hi hm (.closes hdone hn)).beats.tail (.closeRound ?_ (.inr ?_) hc h)
    · rwa [ht, bettingRound_withTurn]
    · rw [ht]
      exact currentTurn_withTurn hround
  · exact (Beat.act hb hturn hi hm (.passes hopen h)).beats

/-- The last unfolded player wins, or the turn passes. -/
theorem acts_end_beats (hb : s.table.isBettingRound = true) (hturn : s.table.currentTurn = i)
    (hi : i < s.table.rules.maxPlayers) (hm : Acts s m i)
    (h : (if m.table.countActivePlayers ≤ 1 then m.endWithoutShowdown else m.advanceTurn) =
      .ok s') : Beats s s' := by
  split at h
  · rename_i hc
    exact (Beat.act hb hturn hi hm (.ends hc h)).beats
  · exact acts_beats hb hturn hi hm h

/-- Opening a betting round sets its first turn; a round without contested action closes. -/
theorem startBettingRound_beats {isPreflop : Bool} {bbSeat : Option ℕ}
    (h : s.startBettingRound isPreflop bbSeat = .ok s') :
    ∃ m, (s.withTable (s.table.bettingOpened isPreflop)).setCurrentTurn
        ((s.table.bettingOpened isPreflop).firstToAct isPreflop bbSeat) = .ok m ∧ Beats m s' := by
  simp only [startBettingRound] at h
  rw [Fallible.bind_eq_ok] at h
  obtain ⟨t, ht, h⟩ := h
  obtain rfl := TexasPokerTable.enterBetting_eq_ok ht
  rw [Fallible.bind_eq_ok] at h
  obtain ⟨m, hm, h⟩ := h
  refine ⟨m, ?_, ?_⟩
  · rw [← hm]
    cases isPreflop <;> rfl
  · split at h
    · rename_i hno
      simp only [Fallible.bind_eq_ok] at h
      obtain ⟨n, hn, c, hc, h⟩ := h
      exact closes_beats hn (.noTurn hno hn) hc h
    · cases h
      exact (Beat.notice rfl).beats

theorem checkRevealPhaseComplete_beats {street d : ℕ} {state : RevealTokenState G}
    (hp : s.table.handPhase = .revealing street state d)
    (h : s.checkRevealPhaseComplete = .ok s') : Beats s s' := by
  have hreveal : s.table.revealTokenState = some state := by
    simp [TexasPokerTable.revealTokenState, hp]
  rw [checkRevealPhaseComplete, hreveal] at h
  simp only [Fallible.orErr_some, Fallible.ok_bind] at h
  split at h
  · cases h
    exact .refl
  rename_i ha
  have hdone : (s.emit (.revealPhaseComplete s.table.id s.table.revealPhase)).table.Revealed
      state.purpose := by
    refine ⟨street, d, hp.trans ?_⟩
    rw [← not_not.mp ha]
  have hnotice : (TexasPokerEvent.revealPhaseComplete s.table.id s.table.revealPhase).isNotice =
      true := rfl
  refine .head (.notice hnotice) ?_
  split at h <;> rename_i hpurpose <;> rw [hpurpose] at hdone
  · simp only [Fallible.bind_eq_ok] at h
    obtain ⟨⟨b, bbSeat⟩, hb, a, ha, h⟩ := h
    obtain ⟨m, hm, h⟩ := startBettingRound_beats h
    exact .head (.openPreflop hdone hb ha hm) h
  · obtain ⟨m, hm, h⟩ := startBettingRound_beats h
    exact .head (.openStreet hdone hm) h
  · cases h
    exact (Beat.display hdone).beats

/-! ## Actions -/

theorem applyPlayerAction_beats {action : PlayerAction}
    (h : s.applyPlayerAction i action = .ok s') : Beats s s' := by
  simp only [applyPlayerAction, Fallible.bind_eq_ok, Fallible.ensure_eq_ok] at h
  obtain ⟨_, hi, _, hb, _, hturn, h⟩ := h
  have hturn : s.table.currentTurn = i := of_decide_eq_true hturn
  cases action with
  | fold reason =>
    simp only [Fallible.bind_eq_ok] at h
    obtain ⟨m, hm, h⟩ := h
    exact acts_end_beats hb hturn hi (.fold hm) h
  | matchBet =>
    simp only [Fallible.bind_eq_ok] at h
    obtain ⟨m, hm, h⟩ := h
    exact acts_beats hb hturn hi (.matchBet hm) h
  | raiseTo totalBet =>
    simp only [Fallible.bind_eq_ok] at h
    obtain ⟨m, hm, h⟩ := h
    exact acts_beats hb hturn hi (.raise hm) h

theorem applyCheck_beats (h : s.applyCheck i = .ok s') : Beats s s' := by
  simp only [applyCheck, Fallible.bind_eq_ok] at h
  obtain ⟨_, -, _, -, _, -, h⟩ := h
  exact applyPlayerAction_beats h

theorem applyCall_beats (h : s.applyCall i = .ok s') : Beats s s' := by
  simp only [applyCall, Fallible.bind_eq_ok] at h
  obtain ⟨_, -, _, -, _, -, h⟩ := h
  exact applyPlayerAction_beats h

theorem applyBet_beats {amount : ℕ} (h : s.applyBet i amount = .ok s') : Beats s s' := by
  simp only [applyBet, applyRaise, Fallible.bind_eq_ok] at h
  obtain ⟨_, -, _, -, _, -, _, -, _, -, _, -, m, hm, h⟩ := h
  cases h
  exact (applyPlayerAction_beats hm).tail (.notice rfl)

theorem applyFoldWithProof_beats {outputCards : List (ElGamalCiphertext G)}
    {proof : Protocol.LeaveProof G} (h : s.applyFoldWithProof i outputCards proof = .ok s') :
    Beats s s' := by
  obtain ⟨_, encrypted, m, hb, hturn, hi, -, -, -, -, -, ht, -, h⟩ := applyFoldWithProof_eq_ok h
  have hm : Acts s m i := .foldOut ht
  rcases h with ⟨hc, h⟩ | h
  · exact (Beat.act hb hturn hi hm (.ends hc h)).beats
  · exact acts_beats hb hturn hi hm h

theorem applySubmitPlayerRevealTokens_beats {tokens : List G}
    {proofs : List (Protocol.RevealTokenProof G)}
    (h : s.applySubmitPlayerRevealTokens i tokens proofs = .ok s') :
    ∃ m, GivesTokens s m i tokens ∧ Beats m s' := by
  obtain ⟨m, hm, h⟩ := applySubmitPlayerRevealTokens_eq_ok h
  obtain ⟨street, reveal, d, hp⟩ := hm.handPhase
  exact ⟨m, hm, checkRevealPhaseComplete_beats hp h⟩

/-! ## Kicks and timeouts -/

theorem closeShortHand_beats (h : s.closeShortHand = .ok s') : Beats s s' := by
  rcases closeShortHand_eq_ok h with ⟨-, rfl⟩ | ⟨hc, -, h⟩ | ⟨-, -, h⟩
  · exact .refl
  · exact (Beat.ended hc.le h).beats
  · exact (Beat.reset h).beats

theorem kickPlayerInternal_beats {reason : KickCause}
    (h : s.kickPlayerInternal i reason = .ok s') : Beats s s' := by
  simp only [kickPlayerInternal] at h
  rw [Fallible.bind_eq_ok] at h
  obtain ⟨r, hr, h⟩ := h
  obtain ⟨a, ha, hrest⟩ : ∃ a, (a = r ∨ r.table.shufflePhase ≠ shufflePhaseNone ∧
      r.advanceShuffle = .ok a) ∧
      (if (s.table.currentTurn = i ∧ s.table.isBettingRound) ∧ a.table.isBettingRound then
        if a.table.countActivePlayers ≤ 1 then a.endWithoutShowdown
        else do
          let s ← a.advanceTurn
          s.closeShortHand
      else a.closeShortHand) = .ok s' := by
    split at h
    · rename_i hshuffle
      rw [Fallible.bind_eq_ok] at h
      obtain ⟨a, ha, h⟩ := h
      exact ⟨a, .inr ⟨hshuffle.2, ha⟩, h⟩
    · exact ⟨r, .inl rfl, h⟩
  have hi : i < s.table.rules.maxPlayers := by
    simp only [kickSeatRaw] at hr
    rw [Fallible.bind_eq_ok] at hr
    obtain ⟨_, hi, -⟩ := hr
    exact Fallible.ensure_eq_ok.mp hi
  have hsame := (kickSeatRaw_frame hr).1
  by_cases hwas : s.table.currentTurn = i ∧ s.table.isBettingRound = true
  · -- a betting table has no shuffler to replace
    obtain rfl : a = r := by
      refine ha.resolve_right fun hshuffle => ?_
      have hquiet := TexasPokerTable.not_betting_of_shuffling hshuffle.1
      rw [hsame, hwas.2] at hquiet
      cases hquiet
    rw [if_pos ⟨hwas, hsame.trans hwas.2⟩] at hrest
    split at hrest
    · rename_i hc
      exact (Beat.act hwas.2 hwas.1 hi (.kick hr) (.ends hc hrest)).beats
    · obtain ⟨b, hb, hclose⟩ := Fallible.bind_eq_ok.mp hrest
      exact (acts_beats hwas.2 hwas.1 hi (.kick hr) hb).trans (closeShortHand_beats hclose)
  · rw [if_neg fun hc => hwas hc.1] at hrest
    refine .head (.kick hwas hr) (.trans ?_ (closeShortHand_beats hrest))
    rcases ha with rfl | ⟨-, ha⟩
    · exact .refl
    · exact (Beat.passShuffle ha).beats

theorem foldlM_beats {α : Type} {f : Exec G → α → PokerL1Result (Exec G)} {l : List α}
    (step : ∀ a ∈ l, ∀ s s', f s a = .ok s' → Beats s s') (h : l.foldlM f s = .ok s') :
    Beats s s' :=
  Fallible.foldlM_keeps (P := Beats s) (fun a ha _ _ hf hs => hs.trans (step a ha _ _ hf)) h .refl

theorem notice_beats {e : TexasPokerEvent} (he : e.isNotice = true) : Beats s (s.emit e) :=
  (Beat.notice he).beats

omit [AddCommGroup G] [Protocol G] [DecidableEq G] in
theorem shuffling_of_deadline {d : ℕ} (h : s.table.shuffleDeadlineMs = some d) :
    s.table.shufflePhase ≠ shufflePhaseNone := by
  unfold TexasPokerTable.shuffleDeadlineMs at h
  unfold TexasPokerTable.shufflePhase
  split at h
  · rename_i phase _
    cases phase <;> simp [ShufflingPhase.purpose, shufflePhaseNone,
      shufflePhaseBeforePreflop, shufflePhaseReconstruct]
  · cases h

theorem onShuffleTimeout_beats (h : s.onShuffleTimeout = .ok s') : Beats s s' := by
  simp only [onShuffleTimeout] at h
  rw [Fallible.bind_eq_ok] at h
  obtain ⟨_, hdeadline, h⟩ := h
  rw [Fallible.bind_eq_ok] at h
  obtain ⟨_, -, h⟩ := h
  rw [Fallible.bind_eq_ok] at h
  obtain ⟨k, hk, h⟩ := h
  have hshuffling := shuffling_of_deadline (Fallible.orErr_eq_ok.mp hdeadline)
  refine (notice_beats rfl).trans ((kickPlayerInternal_beats hk).trans ?_)
  split at h
  · rw [Fallible.bind_eq_ok] at h
    obtain ⟨m, hm, h⟩ := h
    exact (Beat.refundReset hm h).beats
  split at h
  · rename_i h1
    exact (Beat.ended h1.le h).beats
  split at h
  · cases h
    exact .refl
  · rename_i hp
    rw [Fallible.bind_eq_ok] at h
    obtain ⟨m, hm, h⟩ := h
    have hsame := (kickPlayerInternal_shufflePhase hk hshuffling).resolve_left hp
    exact (Beat.rebuild hp (by rw [hsame]; exact hm)).beats.tail (.passShuffle h)

theorem onRevealTimeout_beats {nowMs : ℕ} (hs : s.table.isBettingRound = false)
    (h : s.onRevealTimeout nowMs = .ok s') : Beats s s' := by
  simp only [onRevealTimeout, Fallible.bind_eq_ok] at h
  obtain ⟨k, hk, h⟩ := h
  have hkicks : Beats (s.emit (.revealTimeout s.table.id s.table.revealPhase
      (revealPendingMask s.table))) k := by
    refine (Fallible.foldlM_keeps (P := fun u => Beats _ u ∧ u.table.isBettingRound = false)
      (fun i _ u u' hu hprev => ?_) hk ⟨.refl, hs⟩).1
    refine ⟨hprev.1.tail (.kick (fun hc => ?_) hu), (kickSeatRaw_frame hu).1.trans hprev.2⟩
    rw [hprev.2] at hc
    cases hc.2
  refine (notice_beats rfl).trans (hkicks.trans ?_)
  split at h
  · simp only [Fallible.bind_eq_ok] at h
    obtain ⟨m, hm, r, hr, h⟩ := h
    cases h
    exact (Beat.refundReset hm hr).beats.tail (.notice rfl)
  split at h
  · rename_i h1
    exact (Beat.ended h1.le h).beats
  split at h
  · simp only [Fallible.bind_eq_ok] at h
    obtain ⟨r, hr, h⟩ := h
    cases h
    exact (Beat.reset hr).beats.tail (.notice rfl)
  · exact (Beat.suspend h).beats

theorem onReconstructTimeout_beats (hs : Rebuilding s.table)
    (h : s.onReconstructTimeout = .ok s') : Beats s s' := by
  simp only [onReconstructTimeout, Fallible.bind_eq_ok] at h
  obtain ⟨k, hk, h⟩ := h
  have hkicked : Rebuilding k.table :=
    Fallible.foldlM_keeps (P := fun u => Rebuilding u.table)
      (fun _ _ _ _ h hu => kickPlayerInternal_rebuilding h hu) hk hs
  refine (notice_beats rfl).trans
    ((foldlM_beats (fun _ _ _ _ h => kickPlayerInternal_beats h) hk).trans ?_)
  split at h
  · simp only [Fallible.bind_eq_ok] at h
    obtain ⟨m, hm, hr⟩ := h
    exact (Beat.refundReset hm hr).beats
  split at h
  · rename_i h1
    exact (Beat.ended h1.le h).beats
  split at h
  · exact (Beat.completeReconstruct hkicked.quiet.2.2 h).beats
  · simp only [Fallible.bind_eq_ok] at h
    obtain ⟨m, hm, r, hr, h⟩ := h
    cases h
    exact (Beat.refundReset hm hr).beats.tail (.notice rfl)

/-! ## Normalization and deadlines -/

theorem runNormalizationStep_beats {step : NormalizationStep}
    (hnext : s.table.nextNormalizationStep = .ok (some step))
    (h : s.runNormalizationStep step = .ok s') : Beats s s' := by
  have hready := nextNormalizationStep_eq_some hnext
  cases step with
  | completeReconstruct =>
    exact (Beat.completeReconstruct (Rebuilding.of_phase hready.1).quiet.2.2 h).beats
  | advanceShuffle => exact (Beat.passShuffle h).beats
  | completeReveal =>
    obtain ⟨_, _, _, hp, -⟩ := hready
    exact checkRevealPhaseComplete_beats hp h
  | endWithoutShowdown => exact (Beat.ended hready.2 h).beats
  | advanceBettingRound =>
    obtain ⟨hb, -, hdone⟩ := hready
    simp only [runNormalizationStep, Fallible.bind_eq_ok] at h
    obtain ⟨c, hc, h⟩ := h
    refine (Beat.closeRound (Bool.and_eq_true_iff.mp hb).1 ?_ hc h).beats
    rcases hdone with h | h | h
    · exact .inr h
    · exact .inl (.inl h)
    · exact .inl (.inr (.inl h))

theorem normalizeLoop_beats {nowMs fuel : ℕ} {report report' : List NormalizationStep}
    (h : normalizeLoop nowMs fuel s report = .ok (s', report')) : Beats s s' := by
  induction fuel generalizing s report with
  | zero => cases h
  | succ fuel ih =>
    rw [normalizeLoop, Fallible.bind_eq_ok] at h
    obtain ⟨next, hnext, h⟩ := h
    split at h
    · cases h
      exact .refl
    · rw [Fallible.bind_eq_ok] at h
      obtain ⟨m, hm, h⟩ := h
      simp only [normalizeOnce, Fallible.bind_eq_ok] at hm
      obtain ⟨n, hn, _, -, t, ht, _, -, _, -, hm⟩ := hm
      cases hm
      exact (runNormalizationStep_beats hnext hn).trans
        (.head (.clock (TexasPokerTable.armActiveDeadlineIfNeeded_retimed ht)) (ih h))

theorem normalizeUntilBlocked_beats {nowMs : ℕ} {report : List NormalizationStep}
    (h : s.normalizeUntilBlocked nowMs = .ok (s', report)) : Beats s s' := by
  simp only [normalizeUntilBlocked, Fallible.bind_eq_ok] at h
  obtain ⟨t, ht, _, -, h⟩ := h
  exact .head (.clock (TexasPokerTable.armActiveDeadlineIfNeeded_retimed ht)) (normalizeLoop_beats h)

theorem advancePhase_beats {nowMs deadlineMs subject : ℕ} {pre : List NormalizationStep}
    {kind : DeadlineKind} {onTimeout : Exec G → PokerL1Result (Exec G)}
    {r : AdvanceDeadlineExecution} (step : ∀ m, onTimeout s = .ok m → Beats s m)
    (h : advancePhase nowMs pre kind subject deadlineMs s onTimeout = .ok (s', r)) :
    Beats s s' := by
  simp only [advancePhase] at h
  split at h
  · cases h
    exact .refl
  · simp only [Fallible.bind_eq_ok] at h
    obtain ⟨m, hm, ⟨n, report⟩, hn, h⟩ := h
    cases h
    exact (step m hm).trans (normalizeUntilBlocked_beats hn)

theorem advanceBetting_beats {nowMs : ℕ} {pre : List NormalizationStep}
    {r : AdvanceDeadlineExecution} (h : advanceBetting nowMs pre s = .ok (s', r)) :
    Beats s s' := by
  simp only [advanceBetting] at h
  rw [Fallible.bind_eq_ok] at h
  obtain ⟨_, -, h⟩ := h
  rw [Fallible.bind_eq_ok] at h
  obtain ⟨_, -, h⟩ := h
  split at h
  · simp only [Fallible.bind_eq_ok] at h
    obtain ⟨m, hm, ⟨t, d⟩, ht, h⟩ := h
    cases h
    exact (Beat.timeBank hm).beats.tail
      (.clock (TexasPokerTable.extendBettingDeadline_retimed ht))
  · refine advancePhase_beats (fun m h => ?_) h
    rw [onBettingTimeout, applyFoldInternal] at h
    exact applyPlayerAction_beats h

theorem advanceDeadlineWithReport_beats {nowMs : ℕ} {r : AdvanceDeadlineExecution}
    (h : s.advanceDeadlineWithReport nowMs = .ok (s', r)) : Beats s s' := by
  simp only [advanceDeadlineWithReport] at h
  rw [Fallible.bind_eq_ok] at h
  obtain ⟨_, -, h⟩ := h
  rw [Fallible.bind_eq_ok] at h
  obtain ⟨⟨m, pre⟩, hm, h⟩ := h
  refine (normalizeUntilBlocked_beats hm).trans ?_
  dsimp only at h
  split at h
  · rename_i hphase
    simp only [Fallible.bind_eq_ok] at h
    obtain ⟨_, -, _, -, h⟩ := h
    exact advancePhase_beats (fun _ h => onReconstructTimeout_beats (.of_phase hphase) h) h
  split at h
  · simp only [Fallible.bind_eq_ok] at h
    obtain ⟨_, -, h⟩ := h
    exact advancePhase_beats (fun _ h => onShuffleTimeout_beats h) h
  split at h
  · rename_i hreveal
    simp only [Fallible.bind_eq_ok] at h
    obtain ⟨_, -, h⟩ := h
    exact advancePhase_beats (fun _ h => onRevealTimeout_beats
      (TexasPokerTable.not_betting_of_reveal hreveal) h) h
  split at h
  · exact advanceBetting_beats h
  split at h
  · rename_i hround
    simp only [Fallible.bind_eq_ok] at h
    obtain ⟨_, -, h⟩ := h
    exact advancePhase_beats (fun _ h => (Beat.settle hround h).beats) h
  · cases h
    exact .refl

end Exec

/-! ## Commands -/

/-- The command of a funding. -/
def FundTiming.command : FundTiming → CanonicalCommand
  | .nextHand => .addon
  | .immediate => .rebuy

namespace Exec

variable [AddCommGroup G] [Protocol G] [DecidableEq G]
variable {context : DispatchContext} {args : Bytes} {s s' m : Exec G}

/-- The player, buy-in and keys that the arguments of a join carry. -/
def readJoin (args : Bytes) : PokerL1Result (Address × ℕ × G × TaggedPubkey × Bytes) :=
  decodeArgs (do
    let player ← readAddress
    let buyIn ← Decoder.uint 8
    let pk : G ← Protocol.readPoint
    let txPk ← readTaggedPubkey
    let proof ← Decoder.vec do return (BitVec.ofNat 8 (← Decoder.uint 1))
    return (player, buyIn, pk, txPk, proof)) args "join_table"

/-- The seat and the chips that the arguments of a funding carry. -/
def readFunding (timing : FundTiming) (args : Bytes) : PokerL1Result (ℕ × ℕ) :=
  decodeArgs (readSeatAnd (Decoder.uint 8)) args timing.label

/-- What an accepted command ran, beat by beat. -/
inductive Ran (context : DispatchContext) (args : Bytes) (s : Exec G) :
    CanonicalCommand → Exec G → Prop where
  | create {t : TexasPokerTable G} {maxPlayers smallBlind bigBlind ritMode : ℕ} :
      s.table.applyCreateTable context.caller maxPlayers smallBlind bigBlind ritMode = .ok t →
      Ran context args s .createTable (s.withTable t)
  | join {s' : Exec G} {player : Address} {buyIn : ℕ} {pk : G} {txPk : TaggedPubkey}
      {proof : Bytes} : readJoin args = .ok (player, buyIn, pk, txPk, proof) →
      s.applyJoinTable player buyIn pk txPk proof = .ok s' → Ran context args s .joinTable s'
  | leave {s' : Exec G} {i : ℕ} : s.applyLeaveTable i = .ok s' → Ran context args s .leaveTable s'
  | start {s' : Exec G} : s.startHand = .ok s' → Ran context args s .startHand s'
  | tokens {m s' : Exec G} {i : ℕ} {tokens : List G} : GivesTokens s m i tokens → Beats m s' →
      Ran context args s .submitPlayerRevealTokens s'
  | fund {s' : Exec G} {i amount : ℕ} {timing : FundTiming} :
      readFunding timing args = .ok (i, amount) → s.applyFundSeat i amount timing = .ok s' →
      Ran context args s timing.command s'
  | beats {s' : Exec G} {command : CanonicalCommand} : Beats s s' →
      Ran context args s command s'

theorem runCommand_ran {command : CanonicalCommand}
    (h : runCommand context args s command = .ok s') : Ran context args s command s' := by
  cases command with
  | createTable =>
    simp only [runCommand, dispatchCreateTable, Fallible.bind_eq_ok] at h
    obtain ⟨⟨maxPlayers, smallBlind, bigBlind, ritMode⟩, -, t, ht, h⟩ := h
    cases h
    exact .create ht
  | joinTable =>
    simp only [runCommand, dispatchJoinTable] at h
    rw [Fallible.bind_eq_ok] at h
    obtain ⟨⟨player, buyIn, pk, txPk, proof⟩, hargs, h⟩ := h
    simp only [Fallible.bind_eq_ok] at h
    obtain ⟨_, -, h⟩ := h
    exact .join hargs h
  | leaveTable =>
    simp only [runCommand, dispatchLeaveTable] at h
    obtain ⟨i, a, -, -, -, h⟩ := dispatchSeat_eq_ok h
    exact .leave h
  | startHand =>
    simp only [runCommand, dispatchStartHand, Fallible.bind_eq_ok] at h
    obtain ⟨_, -, _, -, h⟩ := h
    exact .start h
  | advanceDeadline =>
    simp only [runCommand, dispatchAdvanceDeadline, Fallible.bind_eq_ok] at h
    obtain ⟨_, -, ⟨m, r⟩, hm, h⟩ := h
    cases h
    exact .beats (advanceDeadlineWithReport_beats hm)
  | forceFold =>
    simp only [runCommand, dispatchForceFold, applyFoldInternal, Fallible.bind_eq_ok] at h
    obtain ⟨_, -, _, -, h⟩ := h
    exact .beats (applyPlayerAction_beats h)
  | kickPlayer =>
    simp only [runCommand, dispatchKickPlayer, Fallible.bind_eq_ok] at h
    obtain ⟨i, -, _, -, h⟩ := h
    exact .beats (kickPlayerInternal_beats h)
  | submitShuffleV2 =>
    simp only [runCommand, dispatchSubmitShuffleV2] at h
    obtain ⟨i, a, hi, -, -, h⟩ := dispatchSeat_eq_ok h
    exact .beats (Beat.submitShuffle hi h).beats
  | submitPlayerRevealTokens =>
    simp only [runCommand, dispatchSubmitPlayerRevealTokens] at h
    obtain ⟨i, a, -, -, -, h⟩ := dispatchSeat_eq_ok h
    obtain ⟨m, hm, h⟩ := applySubmitPlayerRevealTokens_beats h
    exact .tokens hm h
  | submitReconstructDeck =>
    simp only [runCommand, dispatchSubmitReconstructDeck] at h
    obtain ⟨i, a, -, -, -, h⟩ := dispatchSeat_eq_ok h
    exact .beats (Beat.submitReconstruct h).beats
  | fold =>
    simp only [runCommand, dispatchFold] at h
    obtain ⟨i, a, -, -, -, h⟩ := dispatchSeat_eq_ok h
    rw [applyFold] at h
    exact .beats (applyPlayerAction_beats h)
  | check =>
    simp only [runCommand, dispatchCheck] at h
    obtain ⟨i, a, -, -, -, h⟩ := dispatchSeat_eq_ok h
    exact .beats (applyCheck_beats h)
  | call =>
    simp only [runCommand, dispatchCall] at h
    obtain ⟨i, a, -, -, -, h⟩ := dispatchSeat_eq_ok h
    exact .beats (applyCall_beats h)
  | raise =>
    simp only [runCommand, dispatchRaise] at h
    obtain ⟨i, a, -, -, -, h⟩ := dispatchSeat_eq_ok h
    rw [applyRaise] at h
    exact .beats (applyPlayerAction_beats h)
  | bet =>
    simp only [runCommand, dispatchBet] at h
    obtain ⟨i, a, -, -, -, h⟩ := dispatchSeat_eq_ok h
    exact .beats (applyBet_beats h)
  | addon =>
    simp only [runCommand, dispatchAddon] at h
    obtain ⟨i, a, -, hargs, -, h⟩ := dispatchSeat_eq_ok h
    exact @Ran.fund _ _ _ _ _ _ _ s' i a .nextHand hargs h
  | rebuy =>
    simp only [runCommand, dispatchRebuy] at h
    obtain ⟨i, a, -, hargs, -, h⟩ := dispatchSeat_eq_ok h
    exact @Ran.fund _ _ _ _ _ _ _ s' i a .immediate hargs h
  | setLeaveAfterHand =>
    simp only [runCommand, dispatchSetLeaveAfterHand] at h
    obtain ⟨i, a, -, -, -, h⟩ := dispatchSeat_eq_ok h
    exact .beats (Beat.askLeave h).beats
  | foldWithProof =>
    simp only [runCommand, dispatchFoldWithProof] at h
    obtain ⟨i, a, -, -, -, h⟩ := dispatchSeat_eq_ok h
    exact .beats (applyFoldWithProof_beats h)

/-- An accepted call ran a command, went on until blocked, armed its clock and counted. -/
theorem call_ran {c : Call} (h : s.call c = .ok s') :
    ∃ command m n u, CanonicalCommand.fromSelector G c.selector = some command ∧
      runCommand c.context c.args ⟨s.table, []⟩ command = .ok m ∧
      Ran c.context c.args ⟨s.table, []⟩ command m ∧ Beats m n ∧
      n.table.nextNormalizationStep = .ok none ∧ n.table.Retimed u ∧ u.Recounted s'.table := by
  obtain ⟨r, hd, -⟩ := call_dispatches h
  obtain ⟨command, m, n, report, u, hc, hm, hn, hu, ht, -⟩ := dispatch_eq_ok hd
  exact ⟨command, m, n, u, hc, hm, runCommand_ran hm, normalizeUntilBlocked_beats hn,
    (normalizeUntilBlocked_deals hn).2, rearmBettingDeadline_retimed hu, advanceCounters_recounted ht⟩

end Exec

end TexasPoker
