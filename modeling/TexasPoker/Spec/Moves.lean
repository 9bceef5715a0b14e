import Mathlib.Logic.Relation
import TexasPoker.Machine.Deadline
import TexasPoker.Spec.Submit
import TexasPoker.Vault.Exits

/-! # Moves

Every transition of a table is a sequence of moves, each one function of the source under the
guard of its callers; only a submission of reveal tokens starts otherwise. An invariant is checked
on the moves once and then holds after every action, timeout and normalization.
-/

namespace TexasPoker

variable {G : Type}

/-- Events that accompany a transition and record neither chips nor players. -/
def TexasPokerEvent.isNotice : TexasPokerEvent → Bool
  | .bettingRoundStarted .. | .revealPhaseComplete .. | .playerBet .. | .handReset ..
  | .shuffleTimeout .. | .revealTimeout .. | .reconstructTimeout .. => true
  | _ => false

namespace TexasPokerTable

variable (t : TexasPokerTable G)

/-- Every assignment of the open reveal is written to its place. -/
def Revealed (purpose : RevealPurpose) : Prop :=
  ∃ street deadlineMs, t.handPhase = .revealing street ⟨purpose, []⟩ deadlineMs

/-- Nobody has to act in the betting round any more. -/
def RoundClosed : Prop :=
  t.isBettingComplete = true ∨ t.noFurtherBettingPossible = true ∨
    ∃ start, t.findNextActiveSeat start = none

/-- The table at the opening of a betting round, before its first turn. -/
def bettingOpened (isPreflop : Bool) : TexasPokerTable G :=
  let t := if isPreflop then t else t.mapSeats Seat.clearBet
  let round := if isPreflop then ⟨t.openingBet, t.rules.bigBlind⟩
    else BettingRound.new t.rules.bigBlind 0
  { t with
    handPhase := .betting t.roundState round noSeat 0
    actedMask := maskOf fun i => (t.seats i).isAllIn || (t.seats i).isFolded }

end TexasPokerTable

namespace Exec

variable [AddCommGroup G] [Protocol G] [DecidableEq G]

/-- The moves of a hand that is played, but for the reveal tokens. -/
inductive Play : Exec G → Exec G → Prop where
  | notice {s : Exec G} {e : TexasPokerEvent} : e.isNotice = true → Play s (s.emit e)
  | clock {s : Exec G} {t : TexasPokerTable G} : s.table.Retimed t → Play s (s.withTable t)
  | turn {s s' : Exec G} {turn : Option ℕ} : (turn = none → s.table.RoundClosed) →
      s.setCurrentTurn turn = .ok s' → Play s s'
  | closeRound {s c s' : Exec G} : s.table.bettingRound.isSome = true →
      (s.table.RoundClosed ∨ s.table.currentTurn = noSeat) → s.collectBetsToPot = .ok c →
      c.advanceRound = .ok s' → Play s s'
  | ended {s s' : Exec G} : s.table.countActivePlayers ≤ 1 → s.endWithoutShowdown = .ok s' →
      Play s s'
  | openPreflop {s b a s' : Exec G} {bbSeat : ℕ} : s.table.Revealed .dealHole →
      s.postBlinds = .ok (b, bbSeat) → b.collectAnte bbSeat = .ok a →
      (a.withTable (a.table.bettingOpened true)).setCurrentTurn
        ((a.table.bettingOpened true).firstToAct true (some bbSeat)) = .ok s' → Play s s'
  | openStreet {s s' : Exec G} : s.table.Revealed .board →
      (s.withTable (s.table.bettingOpened false)).setCurrentTurn
        ((s.table.bettingOpened false).firstToAct false none) = .ok s' → Play s s'
  | display {s : Exec G} : s.table.Revealed .showdownOwner →
      Play s (s.withTable (s.table.enterShowdownDisplay 0))
  | passShuffle {s s' : Exec G} : s.advanceShuffle = .ok s' → Play s s'
  | completeReconstruct {s s' : Exec G} : s.table.revealDeadlineMs = none →
      s.onCompleteReconstruct = .ok s' → Play s s'
  | submitShuffle {s s' : Exec G} {i : ℕ} {outputCards : List (ElGamalCiphertext G)}
      {proof : Protocol.ShuffleProof G} : i < s.table.rules.maxPlayers →
      s.applySubmitShuffleV2 i outputCards proof = .ok s' → Play s s'
  | submitReconstruct {s s' : Exec G} {i : ℕ}
      {statement : ReconstructionStatement G (Protocol.Contribution G)}
      {proof : Protocol.ReconstructProof G} :
      s.applySubmitReconstructDeck i statement proof = .ok s' → Play s s'
  | fold {s s' : Exec G} {i reason : ℕ} : s.table.currentTurn = i → i < s.table.rules.maxPlayers →
      s.foldSeat i reason = .ok s' → Play s s'
  | matchBet {s s' : Exec G} {i : ℕ} : s.table.currentTurn = i → i < s.table.rules.maxPlayers →
      s.matchBet i = .ok s' → Play s s'
  | raise {s s' : Exec G} {i totalBet : ℕ} : s.table.currentTurn = i →
      i < s.table.rules.maxPlayers → s.raiseTo i totalBet = .ok s' → Play s s'
  | fund {s s' : Exec G} {i amount : ℕ} {timing : FundTiming} :
      s.applyFundSeat i amount timing = .ok s' → Play s s'
  | askLeave {s s' : Exec G} {i : ℕ} {wantLeave : Bool} :
      s.applySetLeaveAfterHand i wantLeave = .ok s' → Play s s'
  | timeBank {s s' : Exec G} {i consumedMs : ℕ} : s.consumeTimeBank i consumedMs = .ok s' →
      Play s s'
  | settle {s s' : Exec G} : s.table.roundState = roundShowdown → s.settleHand = .ok s' → Play s s'

/-- The moves the table makes by itself. -/
inductive Deal : Exec G → Exec G → Prop where
  | notice {s : Exec G} {e : TexasPokerEvent} : e.isNotice = true → Deal s (s.emit e)
  | clock {s : Exec G} {t : TexasPokerTable G} : s.table.Retimed t → Deal s (s.withTable t)
  | turn {s s' : Exec G} {turn : Option ℕ} : (turn = none → s.table.RoundClosed) →
      s.setCurrentTurn turn = .ok s' → Deal s s'
  | closeRound {s c s' : Exec G} : s.table.bettingRound.isSome = true →
      (s.table.RoundClosed ∨ s.table.currentTurn = noSeat) → s.collectBetsToPot = .ok c →
      c.advanceRound = .ok s' → Deal s s'
  | ended {s s' : Exec G} : s.table.countActivePlayers ≤ 1 → s.endWithoutShowdown = .ok s' →
      Deal s s'
  | openPreflop {s b a s' : Exec G} {bbSeat : ℕ} : s.table.Revealed .dealHole →
      s.postBlinds = .ok (b, bbSeat) → b.collectAnte bbSeat = .ok a →
      (a.withTable (a.table.bettingOpened true)).setCurrentTurn
        ((a.table.bettingOpened true).firstToAct true (some bbSeat)) = .ok s' → Deal s s'
  | openStreet {s s' : Exec G} : s.table.Revealed .board →
      (s.withTable (s.table.bettingOpened false)).setCurrentTurn
        ((s.table.bettingOpened false).firstToAct false none) = .ok s' → Deal s s'
  | display {s : Exec G} : s.table.Revealed .showdownOwner →
      Deal s (s.withTable (s.table.enterShowdownDisplay 0))
  | passShuffle {s s' : Exec G} : s.advanceShuffle = .ok s' → Deal s s'
  | completeReconstruct {s s' : Exec G} : s.table.revealDeadlineMs = none →
      s.onCompleteReconstruct = .ok s' → Deal s s'

/-- The moves that repair a hand after a kick or a timeout. -/
inductive Repair : Exec G → Exec G → Prop where
  | kick {s s' : Exec G} {i : ℕ} {reason : KickCause} : s.kickSeatRaw i reason = .ok s' →
      Repair s s'
  | reset {s s' : Exec G} : s.resetForNextHand = .ok s' → Repair s s'
  | refundReset {s m s' : Exec G} : s.refundAllBets = .ok m → m.resetForNextHand = .ok s' →
      Repair s s'
  | suspend {s s' : Exec G} {nowMs : ℕ} : s.startReconstruct nowMs = .ok s' → Repair s s'
  | rebuild {s s' : Exec G} : s.table.shufflePhase ≠ shufflePhaseNone →
      s.rebuildDeckAndShuffleOnTimeout s.table.shufflePhase = .ok s' → Repair s s'

/-- Any move. -/
inductive Move (s s' : Exec G) : Prop where
  | play : Play s s' → Move s s'
  | repair : Repair s s' → Move s s'

abbrev Plays : Exec G → Exec G → Prop := Relation.ReflTransGen Play

abbrev Moves : Exec G → Exec G → Prop := Relation.ReflTransGen Move

abbrev Deals : Exec G → Exec G → Prop := Relation.ReflTransGen Deal

variable {s s' s'' : Exec G}

theorem Deal.play (h : Deal s s') : Play s s' := by
  cases h with
  | notice he => exact .notice he
  | clock ht => exact .clock ht
  | turn hn h => exact .turn hn h
  | closeRound hb hr hc h => exact .closeRound hb hr hc h
  | ended hc h => exact .ended hc h
  | openPreflop hr hb ha h => exact .openPreflop hr hb ha h
  | openStreet hr h => exact .openStreet hr h
  | display hr => exact .display hr
  | passShuffle h => exact .passShuffle h
  | completeReconstruct hd h => exact .completeReconstruct hd h

theorem Deals.plays (h : Deals s s') : Plays s s' :=
  Relation.ReflTransGen.mono (fun _ _ h => h.play) _ _ h

theorem Deal.deals (h : Deal s s') : Deals s s' := .single h

theorem Plays.moves (h : Plays s s') : Moves s s' := 
  Relation.ReflTransGen.mono (fun _ _ h => .play h) _ _ h

theorem Play.plays (h : Play s s') : Plays s s' := .single h

theorem Repair.moves (h : Repair s s') : Moves s s' := .single (.repair h)

/-- A property that every move keeps. -/
theorem Moves.keeps {P : Exec G → Prop} (step : ∀ {s s'}, Move s s' → P s → P s')
    (h : Moves s s') (hs : P s) : P s' := by
  induction h with
  | refl => exact hs
  | tail _ hm ih => exact step hm ih

theorem Plays.keeps {P : Exec G → Prop} (step : ∀ {s s'}, Play s s' → P s → P s')
    (h : Plays s s') (hs : P s) : P s' := by
  induction h with
  | refl => exact hs
  | tail _ hm ih => exact step hm ih

/-! ## Betting -/

omit [AddCommGroup G] [Protocol G] [DecidableEq G] in
theorem currentTurn_withTurn {t : TexasPokerTable G} {turn : ℕ}
    (h : t.bettingRound.isSome = true) : (t.withTurn turn).currentTurn = turn := by
  unfold TexasPokerTable.bettingRound at h
  split at h
  · rename_i hp
    simp [TexasPokerTable.withTurn, TexasPokerTable.currentTurn, HandPhase.withTurn, hp]
  · cases h

omit [AddCommGroup G] [Protocol G] [DecidableEq G] in
theorem bettingRound_withTurn {t : TexasPokerTable G} {turn : ℕ} :
    (t.withTurn turn).bettingRound = t.bettingRound := by
  unfold TexasPokerTable.bettingRound TexasPokerTable.withTurn
  cases t.handPhase <;> rfl

/-- A round whose turn is taken away closes. -/
theorem closes_deals {n c : Exec G} (hr : s.table.RoundClosed) (hn : s.setCurrentTurn none = .ok n)
    (hc : n.collectBetsToPot = .ok c) (h : c.advanceRound = .ok s') : Deals s s' := by
  obtain ⟨-, hb, ht, -⟩ := setCurrentTurn_eq_ok hn
  refine (Deal.turn (fun _ => hr) hn).deals.tail (.closeRound ?_ (.inr ?_) hc h)
  · rwa [ht, bettingRound_withTurn]
  · rw [ht]
    exact currentTurn_withTurn hb

theorem advanceTurn_deals (h : s.advanceTurn = .ok s') : Deals s s' := by
  rcases advanceTurn_eq_ok h with ⟨hb, n, c, hn, hc, h⟩ | ⟨-, h⟩
  · exact closes_deals (.inl hb) hn hc h
  · exact (Deal.turn (fun hnone => .inr (.inr ⟨_, hnone⟩)) h).deals

/-- The rest of an opening: a round without contested action closes at once. -/
theorem opened_deals {e : TexasPokerEvent} (he : e.isNotice = true)
    (h : (if s.table.noFurtherBettingPossible = true then do
        let s ← s.setCurrentTurn none
        let s ← s.collectBetsToPot
        s.advanceRound
      else pure (s.emit e)) = .ok s') : Deals s s' := by
  split at h
  · rename_i hno
    simp only [Fallible.bind_eq_ok] at h
    obtain ⟨n, hn, c, hc, h⟩ := h
    exact closes_deals (.inr (.inl hno)) hn hc h
  · cases h
    exact (Deal.notice he).deals

/-- Opening a betting round sets its first turn, and closes a round without action. -/
theorem startBettingRound_eq_ok {isPreflop : Bool} {bbSeat : Option ℕ}
    (h : s.startBettingRound isPreflop bbSeat = .ok s') :
    ∃ m, (s.withTable (s.table.bettingOpened isPreflop)).setCurrentTurn
        ((s.table.bettingOpened isPreflop).firstToAct isPreflop bbSeat) = .ok m ∧ Deals m s' := by
  simp only [startBettingRound] at h
  rw [Fallible.bind_eq_ok] at h
  obtain ⟨t, ht, h⟩ := h
  obtain rfl := TexasPokerTable.enterBetting_eq_ok ht
  rw [Fallible.bind_eq_ok] at h
  obtain ⟨m, hm, h⟩ := h
  refine ⟨m, ?_, opened_deals ?_ h⟩
  · rw [← hm]
    cases isPreflop <;> rfl
  · rfl

/-- Leaving a complete reveal. -/
theorem checkRevealPhaseComplete_deals {street d : ℕ} {state : RevealTokenState G}
    (hp : s.table.handPhase = .revealing street state d)
    (h : s.checkRevealPhaseComplete = .ok s') : Deals s s' := by
  have hreveal : s.table.revealTokenState = some state := by
    simp [TexasPokerTable.revealTokenState, hp]
  rw [checkRevealPhaseComplete, hreveal] at h
  simp only [Fallible.orErr_some, Fallible.ok_bind] at h
  split at h
  · cases h
    exact .refl
  rename_i ha
  have hdone : (s.emit (.revealPhaseComplete s.table.id s.table.revealPhase)).table.Revealed
      state.purpose := by
    refine ⟨street, d, hp.trans ?_⟩
    rw [← not_not.mp ha]
  have hnotice : (TexasPokerEvent.revealPhaseComplete s.table.id s.table.revealPhase).isNotice =
      true := rfl
  refine (Deal.notice hnotice).deals.trans ?_
  split at h <;> rename_i hpurpose <;> rw [hpurpose] at hdone
  · simp only [Fallible.bind_eq_ok] at h
    obtain ⟨⟨b, bbSeat⟩, hb, a, ha, h⟩ := h
    obtain ⟨m, hm, h⟩ := startBettingRound_eq_ok h
    exact (Deal.openPreflop hdone hb ha hm).deals.trans h
  · obtain ⟨m, hm, h⟩ := startBettingRound_eq_ok h
    exact (Deal.openStreet hdone hm).deals.trans h
  · cases h
    exact (Deal.display hdone).deals

/-! ## Actions and submissions -/

theorem applyPlayerAction_plays {i : ℕ} {action : PlayerAction}
    (h : s.applyPlayerAction i action = .ok s') : Plays s s' := by
  simp only [applyPlayerAction, Fallible.bind_eq_ok, Fallible.ensure_eq_ok] at h
  obtain ⟨_, hi, _, -, _, hturn, h⟩ := h
  have hturn : s.table.currentTurn = i := of_decide_eq_true hturn
  cases action with
  | fold reason =>
    simp only [Fallible.bind_eq_ok] at h
    obtain ⟨m, hm, h⟩ := h
    refine .head (.fold hturn hi hm) ?_
    split at h
    · rename_i hc
      exact (Play.ended hc h).plays
    · exact (advanceTurn_deals h).plays
  | matchBet =>
    simp only [Fallible.bind_eq_ok] at h
    obtain ⟨m, hm, h⟩ := h
    exact .head (.matchBet hturn hi hm) ((advanceTurn_deals h).plays)
  | raiseTo totalBet =>
    simp only [Fallible.bind_eq_ok] at h
    obtain ⟨m, hm, h⟩ := h
    exact .head (.raise hturn hi hm) ((advanceTurn_deals h).plays)

theorem applyCheck_plays {i : ℕ} (h : s.applyCheck i = .ok s') : Plays s s' := by
  simp only [applyCheck, Fallible.bind_eq_ok] at h
  obtain ⟨_, -, _, -, _, -, h⟩ := h
  exact applyPlayerAction_plays h

theorem applyCall_plays {i : ℕ} (h : s.applyCall i = .ok s') : Plays s s' := by
  simp only [applyCall, Fallible.bind_eq_ok] at h
  obtain ⟨_, -, _, -, _, -, h⟩ := h
  exact applyPlayerAction_plays h

theorem applyBet_plays {i amount : ℕ} (h : s.applyBet i amount = .ok s') : Plays s s' := by
  simp only [applyBet, applyRaise, Fallible.bind_eq_ok] at h
  obtain ⟨_, -, _, -, _, -, _, -, _, -, _, -, m, hm, h⟩ := h
  cases h
  exact (applyPlayerAction_plays hm).tail (.notice rfl)

/-- A submission leaves its reveal open until the last token is in. -/
theorem GivesTokens.handPhase {i : ℕ} {tokens : List G} (h : GivesTokens s s' i tokens) :
    ∃ street reveal d, s'.table.handPhase = .revealing street reveal d := by
  cases h with
  | waits _ _ _ ht _ => exact ⟨_, _, _, by rw [ht]; rfl⟩
  | writes _ _ _ _ _ ht _ => exact ⟨_, _, _, by rw [ht]; rfl⟩

theorem applySubmitPlayerRevealTokens_plays {i : ℕ} {tokens : List G}
    {proofs : List (Protocol.RevealTokenProof G)}
    (h : s.applySubmitPlayerRevealTokens i tokens proofs = .ok s') :
    ∃ m, GivesTokens s m i tokens ∧ Plays m s' := by
  obtain ⟨m, hm, h⟩ := applySubmitPlayerRevealTokens_eq_ok h
  obtain ⟨street, reveal, d, hp⟩ := hm.handPhase
  exact ⟨m, hm, (checkRevealPhaseComplete_deals hp h).plays⟩

/-! ## Kicks and timeouts -/

theorem closeShortHand_moves (h : s.closeShortHand = .ok s') : Moves s s' := by
  rcases closeShortHand_eq_ok h with ⟨-, rfl⟩ | ⟨hc, -, h⟩ | ⟨-, -, h⟩
  · exact .refl
  · exact (Play.ended hc.le h).plays.moves
  · exact (Repair.reset h).moves

theorem kickPlayerInternal_moves {i : ℕ} {reason : KickCause}
    (h : s.kickPlayerInternal i reason = .ok s') : Moves s s' := by
  obtain ⟨r, a, hr, ha, h⟩ := kickPlayerInternal_eq_ok h
  have hra : Moves r a := by
    rcases ha with rfl | ⟨-, ha⟩
    · exact .refl
    · exact (Play.passShuffle ha).plays.moves
  refine (Repair.kick hr).moves.trans (hra.trans ?_)
  rcases h with h | ⟨-, -, ⟨hc, h⟩ | ⟨-, b, hb, h⟩⟩
  · exact closeShortHand_moves h
  · exact (Play.ended hc h).plays.moves
  · exact (advanceTurn_deals hb).plays.moves.trans (closeShortHand_moves h)

omit [AddCommGroup G] [Protocol G] [DecidableEq G] in
/-- A reconstruction is under way, or no hand at all. -/
def Rebuilding (t : TexasPokerTable G) : Prop :=
  t.handPhase = .waiting ∨
    ∃ street state reveal e d, t.handPhase = .reconstructing street state reveal e d

omit [AddCommGroup G] [Protocol G] [DecidableEq G] in
theorem Rebuilding.quiet {t : TexasPokerTable G} (h : Rebuilding t) :
    t.shufflePhase = shufflePhaseNone ∧ t.isBettingRound = false ∧ t.revealDeadlineMs = none := by
  rcases h with hp | ⟨_, _, _, _, _, hp⟩ <;>
    simp [TexasPokerTable.shufflePhase, TexasPokerTable.isBettingRound,
      TexasPokerTable.bettingRound, TexasPokerTable.revealDeadlineMs, hp]

omit [AddCommGroup G] [Protocol G] [DecidableEq G] in
theorem Rebuilding.of_phase {t : TexasPokerTable G}
    (h : t.reconstructPhase ≠ reconstructPhaseNone) : Rebuilding t := by
  unfold TexasPokerTable.reconstructPhase at h
  split at h
  · exact .inr ⟨_, _, _, _, _, by assumption⟩
  · exact absurd rfl h

/-- A kick leaves a reconstruction open or ends the hand. -/
theorem kickPlayerInternal_rebuilding {i : ℕ} {reason : KickCause}
    (h : s.kickPlayerInternal i reason = .ok s') (hs : Rebuilding s.table) :
    Rebuilding s'.table := by
  obtain ⟨r, a, hr, ha, h⟩ := kickPlayerInternal_eq_ok h
  have hrb : Rebuilding r.table := by
    rcases kickSeatRaw_eq_ok hr with ⟨-, rfl⟩ | ⟨k, -, hk⟩
    · exact hs
    · have hp : r.table.handPhase = s.table.handPhase.removeSeat k := by
        rw [hk.table]
        rfl
      rcases hs with hw | ⟨_, _, _, _, _, hrec⟩
      · exact .inl (by rw [hp, hw]; rfl)
      · exact .inr ⟨_, _, _, _, _, by rw [hp, hrec]; rfl⟩
  obtain rfl : a = r := ha.resolve_right fun hshuffle => hshuffle.1 hrb.quiet.1
  rcases h with h | ⟨-, hb, -⟩
  · rcases closeShortHand_eq_ok h with ⟨-, rfl⟩ | ⟨-, -, h⟩ | ⟨-, -, h⟩
    · exact hrb
    · exact .inl (endWithoutShowdown_loses h).2.phase
    · exact .inl (resetForNextHand_loses h).2.phase
  · rw [hrb.quiet.2.1] at hb
    cases hb

theorem foldlM_moves {α : Type} {f : Exec G → α → PokerL1Result (Exec G)} {l : List α}
    (step : ∀ a ∈ l, ∀ s s', f s a = .ok s' → Moves s s') (h : l.foldlM f s = .ok s') :
    Moves s s' :=
  Fallible.foldlM_keeps (P := Moves s) (fun a ha _ _ hf hs => hs.trans (step a ha _ _ hf)) h .refl

theorem notice_moves {e : TexasPokerEvent} (he : e.isNotice = true) : Moves s (s.emit e) :=
  (Play.notice he).plays.moves

omit [AddCommGroup G] [Protocol G] [DecidableEq G] in
theorem PassesShuffle.shufflePhase (h : PassesShuffle s s') :
    s'.table.shufflePhase = shufflePhaseNone ∨ s'.table.shufflePhase = s.table.shufflePhase := by
  cases h with
  | idle _ h => exact .inr (by rw [h])
  | next hp _ ht _ =>
    unfold TexasPokerTable.shufflePhase at hp
    split at hp
    · rename_i phase hphase
      obtain ⟨d, hd⟩ := ht.shuffling hphase
      refine .inr ?_
      cases phase <;> simp [TexasPokerTable.shufflePhase, hphase, hd,
        ShufflingPhase.withDeadline, ShufflingPhase.purpose]
    · exact absurd rfl hp
  | deal _ _ _ h => exact .inl (by rw [(startPreflopRevealPhase_eq_ok h).1]; rfl)
  | restart _ _ _ h =>
    cases h with
    | hole _ h => exact .inl (by rw [(startPreflopRevealPhase_eq_ok h).1]; rfl)
    | board _ _ _ h => exact .inl (by rw [(startCommunityRevealPhase_eq_ok h).2.2.1]; rfl)
    | showdown _ h =>
      obtain ⟨_, -, ht, -⟩ := startShowdownRevealPhase_eq_ok h
      exact .inl (by rw [ht]; rfl)
    | idle h => exact .inr (by rw [h]; rfl)

/-- A kick during a shuffle ends the shuffle or goes on with it. -/
theorem kickPlayerInternal_shufflePhase {i : ℕ} {reason : KickCause}
    (h : s.kickPlayerInternal i reason = .ok s') (hs : s.table.shufflePhase ≠ shufflePhaseNone) :
    s'.table.shufflePhase = shufflePhaseNone ∨ s'.table.shufflePhase = s.table.shufflePhase := by
  obtain ⟨r, a, hr, ha, h⟩ := kickPlayerInternal_eq_ok h
  obtain ⟨hbetting, hsame, -⟩ := kickSeatRaw_frame hr
  have hpassed : a.table.isBettingRound = r.table.isBettingRound ∧
      (a.table.shufflePhase = shufflePhaseNone ∨ a.table.shufflePhase = s.table.shufflePhase) := by
    rcases ha with rfl | ⟨-, ha⟩
    · exact ⟨rfl, .inr hsame⟩
    · have hpass := advanceShuffle_eq_ok ha
      exact ⟨hpass.isBettingRound, hsame ▸ hpass.shufflePhase⟩
  have hover {u : Exec G} (hu : u.table.Settled) : u.table.shufflePhase = shufflePhaseNone := by
    simp [TexasPokerTable.shufflePhase, hu.phase]
  rcases h with h | ⟨-, hb, -⟩
  · rcases closeShortHand_eq_ok h with ⟨-, rfl⟩ | ⟨-, -, h⟩ | ⟨-, -, h⟩
    · exact hpassed.2
    · exact .inl (hover (endWithoutShowdown_loses h).2)
    · exact .inl (hover (resetForNextHand_loses h).2)
  · rw [hpassed.1, hbetting, TexasPokerTable.not_betting_of_shuffling hs] at hb
    cases hb

theorem onShuffleTimeout_moves (h : s.onShuffleTimeout = .ok s') : Moves s s' := by
  simp only [onShuffleTimeout] at h
  rw [Fallible.bind_eq_ok] at h
  obtain ⟨_, hdeadline, h⟩ := h
  rw [Fallible.bind_eq_ok] at h
  obtain ⟨_, -, h⟩ := h
  rw [Fallible.bind_eq_ok] at h
  obtain ⟨k, hk, h⟩ := h
  have hshuffling : s.table.shufflePhase ≠ shufflePhaseNone := by
    have hsome := Fallible.orErr_eq_ok.mp hdeadline
    unfold TexasPokerTable.shuffleDeadlineMs at hsome
    unfold TexasPokerTable.shufflePhase
    split at hsome
    · rename_i phase _
      cases phase <;> simp [ShufflingPhase.purpose, shufflePhaseNone,
        shufflePhaseBeforePreflop, shufflePhaseReconstruct]
    · cases hsome
  refine (notice_moves rfl).trans ((kickPlayerInternal_moves hk).trans ?_)
  split at h
  · rw [Fallible.bind_eq_ok] at h
    obtain ⟨m, hm, h⟩ := h
    exact (Repair.refundReset hm h).moves
  split at h
  · rename_i h1
    exact (Play.ended h1.le h).plays.moves
  split at h
  · cases h
    exact .refl
  · rename_i hp
    rw [Fallible.bind_eq_ok] at h
    obtain ⟨m, hm, h⟩ := h
    have hsame := (kickPlayerInternal_shufflePhase hk hshuffling).resolve_left hp
    exact (Repair.rebuild hp (by rw [hsame]; exact hm)).moves.tail (.play (.passShuffle h))

theorem onRevealTimeout_moves {nowMs : ℕ} (h : s.onRevealTimeout nowMs = .ok s') :
    Moves s s' := by
  simp only [onRevealTimeout, Fallible.bind_eq_ok] at h
  obtain ⟨k, hk, h⟩ := h
  refine (notice_moves rfl).trans
    ((foldlM_moves (fun _ _ _ _ h => (Repair.kick h).moves) hk).trans ?_)
  split at h
  · simp only [Fallible.bind_eq_ok] at h
    obtain ⟨m, hm, r, hr, h⟩ := h
    cases h
    exact (Repair.refundReset hm hr).moves.tail (.play (.notice rfl))
  split at h
  · rename_i h1
    exact (Play.ended h1.le h).plays.moves
  split at h
  · simp only [Fallible.bind_eq_ok] at h
    obtain ⟨r, hr, h⟩ := h
    cases h
    exact (Repair.reset hr).moves.tail (.play (.notice rfl))
  · exact (Repair.suspend h).moves

theorem onReconstructTimeout_moves (hs : Rebuilding s.table)
    (h : s.onReconstructTimeout = .ok s') : Moves s s' := by
  simp only [onReconstructTimeout, Fallible.bind_eq_ok] at h
  obtain ⟨k, hk, h⟩ := h
  have hkicked : Rebuilding k.table :=
    Fallible.foldlM_keeps (P := fun u => Rebuilding u.table)
      (fun _ _ _ _ h hu => kickPlayerInternal_rebuilding h hu) hk hs
  refine (notice_moves rfl).trans
    ((foldlM_moves (fun _ _ _ _ h => kickPlayerInternal_moves h) hk).trans ?_)
  split at h
  · simp only [Fallible.bind_eq_ok] at h
    obtain ⟨m, hm, hr⟩ := h
    exact (Repair.refundReset hm hr).moves
  split at h
  · rename_i h1
    exact (Play.ended h1.le h).plays.moves
  split at h
  · exact (Play.completeReconstruct hkicked.quiet.2.2 h).plays.moves
  · simp only [Fallible.bind_eq_ok] at h
    obtain ⟨m, hm, r, hr, h⟩ := h
    cases h
    exact (Repair.refundReset hm hr).moves.tail (.play (.notice rfl))

theorem onBettingTimeout_plays (h : s.onBettingTimeout = .ok s') : Plays s s' := by
  rw [onBettingTimeout, applyFoldInternal] at h
  exact applyPlayerAction_plays h

/-! ## Normalization -/

omit [AddCommGroup G] [Protocol G] [DecidableEq G] in
/-- What makes the table ready for a stage. -/
def Ready (t : TexasPokerTable G) : NormalizationStep → Prop
  | .completeReconstruct => t.reconstructPhase ≠ reconstructPhaseNone ∧
      t.reconstructState.pendingMask = 0 ∧ t.deckState.reconstructAccumulated.isSome = true
  | .advanceShuffle => t.shufflePhase ≠ shufflePhaseNone ∧ t.shuffleState.pendingMask = 0
  | .completeReveal => ∃ street state d, t.handPhase = .revealing street state d ∧
      state.assignments.all RevealAssignment.isReady = true
  | .endWithoutShowdown => t.isBettingRound = true ∧ t.countActivePlayers ≤ 1
  | .advanceBettingRound => t.isBettingRound = true ∧ 2 ≤ t.countActivePlayers ∧
      (t.currentTurn = noSeat ∨ t.isBettingComplete = true ∨ t.noFurtherBettingPossible = true)

omit [AddCommGroup G] [Protocol G] [DecidableEq G] in
theorem revealing_of_idle {t : TexasPokerTable G}
    (hr : t.reconstructPhase = reconstructPhaseNone) (hs : t.shufflePhase = shufflePhaseNone)
    (h : t.revealTokenState.isSome = true) :
    ∃ street state d, t.handPhase = .revealing street state d ∧
      t.revealAssignments = state.assignments := by
  cases hp : t.handPhase with
  | revealing street state d =>
    exact ⟨street, state, d, rfl, TexasPokerTable.revealAssignments_of_revealing hp⟩
  | shuffling phase =>
    cases phase <;>
      simp [TexasPokerTable.shufflePhase, hp, ShufflingPhase.purpose, shufflePhaseNone,
        shufflePhaseBeforePreflop, shufflePhaseReconstruct] at hs
  | reconstructing _ _ _ _ _ =>
    simp [TexasPokerTable.reconstructPhase, hp, reconstructPhaseNone,
      reconstructPhaseCollecting] at hr
  | _ => simp [TexasPokerTable.revealTokenState, hp] at h

omit [AddCommGroup G] [Protocol G] [DecidableEq G] in
theorem nextNormalizationStep_eq_some {t : TexasPokerTable G} {step : NormalizationStep}
    (h : t.nextNormalizationStep = .ok (some step)) : Ready t step := by
  unfold TexasPokerTable.nextNormalizationStep at h
  split at h
  · rename_i hr
    split at h
    · cases h
    · rename_i hm
      simp only [Fallible.bind_eq_ok, Fallible.ensure_eq_ok] at h
      obtain ⟨_, hacc, h⟩ := h
      cases h
      exact ⟨hr, not_not.mp hm, hacc⟩
  rename_i hr
  split at h
  · rename_i hs
    split at h
    · rename_i hm
      cases h
      refine ⟨?_, hm⟩
      rcases hs with hs | hs <;> rw [hs] <;> decide
    · cases h
  rename_i hs
  have hs : t.shufflePhase = shufflePhaseNone := by
    rcases shufflePhase_cases t with hn | hc
    · exact hn
    · exact absurd hc hs
  split at h
  · rename_i hsome
    obtain ⟨street, state, d, hp, ha⟩ := revealing_of_idle (not_not.mp hr) hs hsome
    split at h
    · rename_i hall
      cases h
      exact ⟨street, state, d, hp, by rwa [ha] at hall⟩
    · cases h
  split at h
  · rename_i hb
    split at h
    · rename_i hc
      cases h
      exact ⟨hb, hc⟩
    · rename_i hc
      split at h
      · rename_i hdone
        cases h
        exact ⟨hb, by omega, hdone⟩
      · cases h
  split at h
  · cases h
  · simp only [Fallible.bind_eq_ok] at h
    obtain ⟨_, -, h⟩ := h
    cases h

omit [AddCommGroup G] [Protocol G] [DecidableEq G] in
theorem nextNormalizationStep_waiting {t : TexasPokerTable G} (hw : t.handPhase = .waiting) :
    t.nextNormalizationStep = .ok none := by
  simp [TexasPokerTable.nextNormalizationStep, TexasPokerTable.reconstructPhase,
    TexasPokerTable.shufflePhase, TexasPokerTable.revealTokenState,
    TexasPokerTable.isBettingRound, TexasPokerTable.bettingRound, TexasPokerTable.roundState, hw]
  rfl

omit [AddCommGroup G] [Protocol G] [DecidableEq G] in
/-- A clock makes no stage ready. -/
theorem nextNormalizationStep_retimed {t t' : TexasPokerTable G} (h : t.Retimed t') :
    t'.nextNormalizationStep = t.nextNormalizationStep := by
  have hsame {p p' : HandPhase G} (hp : p'.undated = p.undated) :
      ({ t with handPhase := p' } : TexasPokerTable G).nextNormalizationStep =
        ({ t with handPhase := p } : TexasPokerTable G).nextNormalizationStep := by
    cases p with
    | shuffling phase =>
      cases p' with
      | shuffling phase' =>
        cases phase <;> cases phase' <;>
          simp only [HandPhase.undated, ShufflingPhase.withDeadline, HandPhase.shuffling.injEq,
            ShufflingPhase.initial.injEq, ShufflingPhase.reconstruct.injEq, reduceCtorEq] at hp
        · rw [hp.1]
          rfl
        · rw [hp.1, hp.2.1, hp.2.2.1]
          rfl
      | _ => cases hp
    | _ =>
      cases p' <;> cases hp
      rfl
  rw [h.rest]
  exact hsame h.phase

theorem runNormalizationStep_deals {step : NormalizationStep}
    (hnext : s.table.nextNormalizationStep = .ok (some step))
    (h : s.runNormalizationStep step = .ok s') : Deals s s' := by
  have hready := nextNormalizationStep_eq_some hnext
  cases step with
  | completeReconstruct =>
    exact (Deal.completeReconstruct (Rebuilding.of_phase hready.1).quiet.2.2 h).deals
  | advanceShuffle => exact (Deal.passShuffle h).deals
  | completeReveal =>
    obtain ⟨_, _, _, hp, -⟩ := hready
    exact checkRevealPhaseComplete_deals hp h
  | endWithoutShowdown => exact (Deal.ended hready.2 h).deals
  | advanceBettingRound =>
    obtain ⟨hb, -, hdone⟩ := hready
    simp only [runNormalizationStep, Fallible.bind_eq_ok] at h
    obtain ⟨c, hc, h⟩ := h
    refine (Deal.closeRound (Bool.and_eq_true_iff.mp hb).1 ?_ hc h).deals
    rcases hdone with h | h | h
    · exact .inr h
    · exact .inl (.inl h)
    · exact .inl (.inr (.inl h))

theorem normalizeLoop_deals {nowMs fuel : ℕ} {report report' : List NormalizationStep}
    (h : normalizeLoop nowMs fuel s report = .ok (s', report')) :
    Deals s s' ∧ s'.table.nextNormalizationStep = .ok none := by
  induction fuel generalizing s report with
  | zero => cases h
  | succ fuel ih =>
    rw [normalizeLoop, Fallible.bind_eq_ok] at h
    obtain ⟨next, hnext, h⟩ := h
    split at h
    · cases h
      exact ⟨.refl, hnext⟩
    · rw [Fallible.bind_eq_ok] at h
      obtain ⟨m, hm, h⟩ := h
      obtain ⟨hp, hblocked⟩ := ih h
      simp only [normalizeOnce, Fallible.bind_eq_ok] at hm
      obtain ⟨n, hn, _, -, t, ht, _, -, _, -, hm⟩ := hm
      cases hm
      refine ⟨(runNormalizationStep_deals hnext hn).trans (.head ?_ hp), hblocked⟩
      exact .clock (TexasPokerTable.armActiveDeadlineIfNeeded_retimed ht)

theorem normalizeUntilBlocked_deals {nowMs : ℕ} {report : List NormalizationStep}
    (h : s.normalizeUntilBlocked nowMs = .ok (s', report)) :
    Deals s s' ∧ s'.table.nextNormalizationStep = .ok none := by
  simp only [normalizeUntilBlocked, Fallible.bind_eq_ok] at h
  obtain ⟨t, ht, _, -, h⟩ := h
  obtain ⟨hp, hblocked⟩ := normalizeLoop_deals h
  exact ⟨.head (.clock (TexasPokerTable.armActiveDeadlineIfNeeded_retimed ht)) hp, hblocked⟩

/-- A table without a ready stage only gets its clock armed. -/
theorem normalizeUntilBlocked_of_blocked {nowMs : ℕ} {report : List NormalizationStep}
    (hb : s.table.nextNormalizationStep = .ok none)
    (h : s.normalizeUntilBlocked nowMs = .ok (s', report)) :
    ∃ t, s.table.Retimed t ∧ s' = s.withTable t := by
  simp only [normalizeUntilBlocked, Fallible.bind_eq_ok] at h
  obtain ⟨t, ht, _, -, h⟩ := h
  have hretimed := TexasPokerTable.armActiveDeadlineIfNeeded_retimed ht
  have hnext : (s.withTable t).table.nextNormalizationStep = .ok none :=
    (nextNormalizationStep_retimed hretimed).trans hb
  rw [normalizeLoop, hnext] at h
  cases h
  exact ⟨t, hretimed, rfl⟩

/-! ## Deadlines -/

theorem advancePhase_moves {nowMs deadlineMs subject : ℕ} {pre : List NormalizationStep}
    {kind : DeadlineKind} {onTimeout : Exec G → PokerL1Result (Exec G)}
    {r : AdvanceDeadlineExecution} (step : ∀ m, onTimeout s = .ok m → Moves s m)
    (h : advancePhase nowMs pre kind subject deadlineMs s onTimeout = .ok (s', r)) :
    Moves s s' := by
  simp only [advancePhase] at h
  split at h
  · cases h
    exact .refl
  · simp only [Fallible.bind_eq_ok] at h
    obtain ⟨m, hm, ⟨n, report⟩, hn, h⟩ := h
    cases h
    exact (step m hm).trans (normalizeUntilBlocked_deals hn).1.plays.moves

theorem advanceBetting_moves {nowMs : ℕ} {pre : List NormalizationStep}
    {r : AdvanceDeadlineExecution} (h : advanceBetting nowMs pre s = .ok (s', r)) :
    Moves s s' := by
  simp only [advanceBetting] at h
  rw [Fallible.bind_eq_ok] at h
  obtain ⟨_, -, h⟩ := h
  rw [Fallible.bind_eq_ok] at h
  obtain ⟨_, -, h⟩ := h
  split at h
  · simp only [Fallible.bind_eq_ok] at h
    obtain ⟨m, hm, ⟨t, d⟩, ht, h⟩ := h
    cases h
    exact (Play.timeBank hm).plays.moves.tail
      (.play (.clock (TexasPokerTable.extendBettingDeadline_retimed ht)))
  · exact advancePhase_moves (fun _ h => (onBettingTimeout_plays h).moves) h

theorem advanceDeadlineWithReport_moves {nowMs : ℕ} {r : AdvanceDeadlineExecution}
    (h : s.advanceDeadlineWithReport nowMs = .ok (s', r)) : Moves s s' := by
  simp only [advanceDeadlineWithReport] at h
  rw [Fallible.bind_eq_ok] at h
  obtain ⟨_, -, h⟩ := h
  rw [Fallible.bind_eq_ok] at h
  obtain ⟨⟨m, pre⟩, hm, h⟩ := h
  refine (normalizeUntilBlocked_deals hm).1.plays.moves.trans ?_
  dsimp only at h
  split at h
  · rename_i hphase
    simp only [Fallible.bind_eq_ok] at h
    obtain ⟨_, -, _, -, h⟩ := h
    exact advancePhase_moves (fun _ h => onReconstructTimeout_moves (.of_phase hphase) h) h
  split at h
  · simp only [Fallible.bind_eq_ok] at h
    obtain ⟨_, -, h⟩ := h
    exact advancePhase_moves (fun _ h => onShuffleTimeout_moves h) h
  split at h
  · simp only [Fallible.bind_eq_ok] at h
    obtain ⟨_, -, h⟩ := h
    exact advancePhase_moves (fun _ h => onRevealTimeout_moves h) h
  split at h
  · exact advanceBetting_moves h
  split at h
  · rename_i hround
    simp only [Fallible.bind_eq_ok] at h
    obtain ⟨_, -, h⟩ := h
    exact advancePhase_moves (fun _ h => (Play.settle hround h).plays.moves) h
  · cases h
    exact .refl

end Exec

end TexasPoker
