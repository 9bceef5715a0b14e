import TexasPoker.Invariants.Shuffle
import TexasPoker.Vault.Flows

/-! # Custody

The pool of a table covers every chip at its seats. Every step keeps this, together with what it
needs of the phases: bets are live in betting rounds only, and nothing is in play between hands.
-/

namespace TexasPoker

variable {G : Type}

/-- The stages of a hand, as far as chips go. -/
inductive Stage where
  | between
  | dealing (street : ℕ)
  | betting (street : ℕ)
  deriving DecidableEq, Repr

namespace HandPhase

def stage : HandPhase G → Stage
  | .waiting | .shuffling (.initial ..) => .between
  | .shuffling (.reconstruct street ..) => .dealing street
  | .revealing street .. => .dealing street
  | .reconstructing street .. => .dealing street
  | .betting street .. => .betting street
  | .showdownDisplay _ => .dealing roundShowdown

@[simp] theorem stage_undated (p : HandPhase G) : p.undated.stage = p.stage := by
  cases p with
  | shuffling phase => cases phase <;> rfl
  | _ => rfl

@[simp] theorem stage_removeSeat (p : HandPhase G) (i : ℕ) : (p.removeSeat i).stage = p.stage := by
  cases p with
  | shuffling phase => cases phase <;> rfl
  | _ => rfl

@[simp] theorem stage_withTurn (p : HandPhase G) (turn : ℕ) : (p.withTurn turn).stage = p.stage := by
  cases p <;> rfl

end HandPhase

namespace TexasPokerTable

def stage (t : TexasPokerTable G) : Stage := t.handPhase.stage

/-- What the stage says about the chips in play. -/
structure Phased (t : TexasPokerTable G) : Prop where
  idle : (∀ street, t.stage ≠ .betting street) → t.sumBets = 0
  between : t.stage = .between → t.wagers = 0
  live : t.stage ≠ .between → t.roundState ≠ roundWaiting
  padding : ∀ i : Fin maxSeats, t.rules.maxPlayers ≤ i.1 → (t.seats i).kind = .vacant

/-- The pool covers the chips of the table. -/
structure Custody (t : TexasPokerTable G) : Prop extends Phased t where
  wagers : t.WagersMatch
  held : t.held ≤ t.chipPool
  pool : t.chipPool ≤ maxTotalBet

/-- Vacant slots stay vacant under the same rules. -/
structure Pads (t t' : TexasPokerTable G) : Prop where
  rules : t'.rules = t.rules
  vacant : ∀ i, (t.seats i).kind = .vacant → (t'.seats i).kind = .vacant

variable {t t' t'' : TexasPokerTable G}

theorem Pads.trans (h : Pads t t') (h' : Pads t' t'') : Pads t t'' :=
  ⟨h'.rules.trans h.rules, fun i hi => h'.vacant i (h.vacant i hi)⟩

theorem SameMembers.pads (h : SameMembers t t') (hr : t'.rules = t.rules) : Pads t t' :=
  ⟨hr, fun i hi => (h.kinds i).trans hi⟩

theorem OnlyKicks.pads (h : OnlyKicks t t') (hr : t'.rules = t.rules) : Pads t t' := by
  refine ⟨hr, fun i hi => ?_⟩
  rcases h.kinds i with hk | ⟨ho, -⟩
  · exact hk.trans hi
  · rw [Seat.isOccupied_eq, hi] at ho
    cases ho

theorem Pads.of_seats (hs : t'.seats = t.seats) (hr : t'.rules = t.rules) : Pads t t' :=
  ⟨hr, fun i hi => by rwa [hs]⟩

theorem Phased.pads (h : Phased t) (hp : Pads t t') (i : Fin maxSeats)
    (hi : t'.rules.maxPlayers ≤ i.1) : (t'.seats i).kind = .vacant :=
  hp.vacant i (h.padding i (by rwa [← hp.rules]))

theorem Phased.not_participates (h : Phased t) (i : Fin maxSeats)
    (hi : t.rules.maxPlayers ≤ i.1) : (t.seats i).participates = false := by
  rw [Seat.participates_eq, h.padding i hi]
  rfl

/-! ## Stages -/

theorem stage_eq_between (h : t.Phased) (hr : t.roundState = roundWaiting) :
    t.stage = .between := by
  by_contra hne
  exact h.live hne hr

theorem roundState_of_stage {t t' : TexasPokerTable G} (h : t'.stage = t.stage) :
    t'.roundState = t.roundState := by
  have hstage (u : TexasPokerTable G) : u.roundState = match u.stage with
      | .between => roundWaiting
      | .dealing street | .betting street => street := by
    unfold TexasPokerTable.roundState stage
    cases u.handPhase with
    | shuffling phase => cases phase <;> rfl
    | _ => rfl
  rw [hstage, hstage, h]

theorem stage_of_bettingRound (h : t.bettingRound.isSome = true) :
    t.stage = .betting t.roundState := by
  unfold bettingRound at h
  split at h
  · rename_i hp
    simp [stage, TexasPokerTable.roundState, hp, HandPhase.stage]
  · cases h

/-- The stage and the chips in play stay, or chips leave them. -/
theorem Phased.of_stage (h : Phased t) (hs : t'.stage = t.stage) (hb : t'.sumBets ≤ t.sumBets)
    (hw : t'.wagers ≤ t.wagers) (hp : Pads t t') : Phased t' where
  idle hne := Nat.eq_zero_of_le_zero (hb.trans (h.idle (by rwa [← hs])).le)
  between hbetween := Nat.eq_zero_of_le_zero (hw.trans (h.between (hs ▸ hbetween)).le)
  live hne := by
    rw [roundState_of_stage hs]
    exact h.live (hs ▸ hne)
  padding := h.pads hp

/-- The table is in a betting round of a hand. -/
theorem Phased.of_betting (street : ℕ) (h : Phased t) (hs : t'.stage = .betting street)
    (hr : t'.roundState ≠ roundWaiting) (hp : Pads t t') : Phased t' where
  idle hne := absurd hs (hne street)
  between hbetween := by
    rw [hs] at hbetween
    cases hbetween
  live _ := hr
  padding := h.pads hp

/-- The table deals, and nobody has a bet. -/
theorem Phased.of_dealing (street : ℕ) (h : Phased t) (hs : t'.stage = .dealing street)
    (hr : t'.roundState ≠ roundWaiting) (hb : t'.sumBets = 0) (hp : Pads t t') : Phased t' where
  idle _ := hb
  between hbetween := by
    rw [hs] at hbetween
    cases hbetween
  live _ := hr
  padding := h.pads hp

/-- The hand is over. -/
theorem Phased.of_settled (h : Phased t) (hs : t'.Settled) (hp : Pads t t') : Phased t' where
  idle _ := by
    have := hs.wagers
    rw [TexasPokerTable.wagers] at this
    omega
  between _ := hs.wagers
  live hne := absurd (show t'.stage = .between by simp [stage, hs.phase, HandPhase.stage]) hne
  padding := h.pads hp

theorem pads_afterHand [AddCommGroup G] [Protocol G] [DecidableEq G] : Pads t t.afterHand := by
  refine ⟨rfl, fun i hi => ?_⟩
  change (t.nextSeat i).kind = .vacant
  rcases nextSeat_cases (t := t) i with h | ⟨h, -⟩
  · rw [h]
    rfl
  · rw [h, preparedSeat]
    cases hs : t.seats i <;> rw [hs] at hi <;> first | rfl | cases hi

end TexasPokerTable

/-- Waiting players are let into the hand. -/
structure TexasPokerTable.Promotes (t t' : TexasPokerTable G) : Prop where
  seats : ∀ i, t'.seats i = t.seats i ∨ t'.seats i = (t.seats i).promoteWaiting
  pot : t'.pot = t.pot
  chipPool : t'.chipPool = t.chipPool
  rules : t'.rules = t.rules

namespace TexasPokerTable

variable {t t' t'' : TexasPokerTable G}

theorem Promotes.refl (t : TexasPokerTable G) : Promotes t t := ⟨fun _ => .inl rfl, rfl, rfl, rfl⟩

theorem Promotes.trans (h : Promotes t t') (h' : Promotes t' t'') : Promotes t t'' := by
  refine ⟨fun i => ?_, h'.pot.trans h.pot, h'.chipPool.trans h.chipPool, h'.rules.trans h.rules⟩
  have htwice (x : Seat G) : x.promoteWaiting.promoteWaiting = x.promoteWaiting := by
    cases x <;> rfl
  rcases h.seats i with hi | hi <;> rcases h'.seats i with hi' | hi' <;> rw [hi', hi]
  · exact .inl rfl
  · exact .inr rfl
  · exact .inr rfl
  · exact .inr (htwice _)

theorem promotes_setSeat (i : ℕ) : Promotes t (t.setSeat i (t.seat i).promoteWaiting) := by
  refine ⟨fun j => ?_, rfl, rfl, rfl⟩
  by_cases hj : j.1 = i
  · subst hj
    rw [seats_setSeat_self, seat_val]
    exact .inr rfl
  · rw [seats_setSeat_of_ne hj]
    exact .inl rfl

theorem promotes_seated : Promotes t (Exec.seated t) := by
  have hbutton : Promotes t t.moveButton := ⟨fun _ => .inl rfl, rfl, rfl, rfl⟩
  refine hbutton.trans ?_
  rw [Exec.seated]
  generalize t.moveButton = u
  unfold promoteWaitingForBigBlind
  split
  · exact ⟨fun _ => .inr rfl, rfl, rfl, rfl⟩
  have hbig : Promotes u u.promoteBigBlind := by
    unfold promoteBigBlind
    split
    · exact promotes_setSeat _
    · exact .refl u
  refine hbig.trans ?_
  generalize u.promoteBigBlind = v
  have hfold (l : List ℕ) (acc : TexasPokerTable G × ℕ) (h : Promotes v acc.1) :
      Promotes v (l.foldl promoteMissing acc).1 := by
    induction l generalizing acc with
    | nil => exact h
    | cons i l ih =>
      refine ih _ ?_
      unfold promoteMissing
      split
      · exact h.trans (promotes_setSeat i)
      · exact h
  exact hfold _ _ (.refl v)

theorem Promotes.wagers (h : Promotes t t') (i : Fin maxSeats) :
    Wagers (t.seats i) (t'.seats i) 0 := by
  rcases h.seats i with hi | hi <;> rw [hi]
  · exact .refl _
  · cases t.seats i <;> exact ⟨rfl, rfl, rfl⟩

theorem Promotes.pads (h : Promotes t t') : Pads t t' := by
  refine ⟨h.rules, fun i hi => ?_⟩
  rcases h.seats i with hs | hs <;> rw [hs]
  · exact hi
  · cases hk : t.seats i <;> rw [hk] at hi <;> first | rfl | cases hi

end TexasPokerTable

namespace Exec

open TexasPokerTable

variable {s s' : Exec G} {d r l : ℕ}

theorem Accounts.custody (h : Accounts s s' d r l) (hc : s.table.Custody)
    (hp : s'.table.Phased) : s'.table.Custody := by
  refine ⟨hp, h.wagers hc.wagers, ?_, ?_⟩
  · have := h.flow.pool
    have := h.flow.held
    have := hc.held
    omega
  · rcases Nat.eq_zero_or_pos d with rfl | hd
    · have := h.flow.pool
      have := h.refunded
      have := hc.pool
      omega
    · exact h.pool hd

theorem Still.pads (h : Still s s') : Pads s.table s'.table := .of_seats h.seats h.rules

theorem Still.sumBets (h : Still s s') : s'.table.sumBets = s.table.sumBets := by
  rw [sumBets_eq, sumBets_eq, h.seatSum]

/-- No chip moves, and the stage stays. -/
theorem Still.custody_of_stage (h : Still s s') (hs : s'.table.stage = s.table.stage)
    (hc : s.table.Custody) : s'.table.Custody :=
  h.accounts.custody hc (hc.toPhased.of_stage hs h.sumBets.le h.wagers.le h.pads)

/-- No chip moves, and the table deals. -/
theorem Still.custody_of_dealing (street : ℕ) (h : Still s s')
    (hs : s'.table.stage = .dealing street) (hr : s'.table.roundState ≠ roundWaiting)
    (hb : s.table.sumBets = 0) (hc : s.table.Custody) : s'.table.Custody :=
  h.accounts.custody hc (hc.toPhased.of_dealing street hs hr (h.sumBets.trans hb) h.pads)

/-! ## Shuffles and reveals -/

theorem not_betting_of_shufflePhase {t : TexasPokerTable G} (h : t.shufflePhase ≠ shufflePhaseNone)
    (street : ℕ) : t.stage ≠ .betting street := by
  unfold TexasPokerTable.shufflePhase at h
  split at h
  · rename_i phase hp
    unfold TexasPokerTable.stage
    rw [hp]
    cases phase <;> simp [HandPhase.stage]
  · exact absurd rfl h

theorem Still.custody_of_retimed (h : Still s s') (ht : s.table.Retimed s'.table)
    (hc : s.table.Custody) : s'.table.Custody := by
  refine h.custody_of_stage ?_ hc
  rw [TexasPokerTable.stage, ← HandPhase.stage_undated, ht.phase, HandPhase.stage_undated]
  rfl

/-- An opened reveal deals. -/
theorem Still.custody_of_opened {u : TexasPokerTable G} {street dealt : ℕ}
    {purpose : RevealPurpose} {assignments : List (RevealAssignment G)} (h : Still s s')
    (ht : s'.table = u.opened street dealt purpose assignments) (hr : street ≠ roundWaiting)
    (hb : s.table.sumBets = 0) (hc : s.table.Custody) : s'.table.Custody :=
  h.custody_of_dealing street (by rw [ht]; rfl) (by rw [ht]; exact hr) hb hc

theorem startPreflopRevealPhase_custody (h : s.startPreflopRevealPhase = .ok s')
    (hb : s.table.sumBets = 0) (hc : s.table.Custody) : s'.table.Custody :=
  (startPreflopRevealPhase_still h).custody_of_opened (startPreflopRevealPhase_eq_ok h).1
    (by decide) hb hc

theorem startCommunityRevealPhase_custody {count street : ℕ}
    (h : s.startCommunityRevealPhase count street = .ok s') (hb : s.table.sumBets = 0)
    (hc : s.table.Custody) : s'.table.Custody := by
  obtain ⟨hs, -, ht, -⟩ := startCommunityRevealPhase_eq_ok h
  refine (startCommunityRevealPhase_still h).custody_of_opened ht ?_ hb hc
  rcases hs with rfl | rfl | rfl <;> decide

theorem startShowdownRevealPhase_custody (h : s.startShowdownRevealPhase = .ok s')
    (hb : s.table.sumBets = 0) (hc : s.table.Custody) : s'.table.Custody := by
  obtain ⟨_, -, ht, -⟩ := startShowdownRevealPhase_eq_ok h
  exact (startShowdownRevealPhase_still h).custody_of_opened ht (by decide) hb hc

theorem PassesShuffle.custody (h : PassesShuffle s s') (hc : s.table.Custody) :
    s'.table.Custody := by
  cases h with
  | idle _ h => exact h ▸ hc
  | next hp hm ht hpay => exact (PassesShuffle.next hp hm ht hpay).still.custody_of_retimed ht hc
  | deal hp _ hq h =>
    have hb := hc.idle (not_betting_of_shufflePhase (by rw [hp]; decide))
    exact startPreflopRevealPhase_custody (s := s.emit _) h hb hc
  | restart hp _ hq h =>
    have hb := hc.idle (not_betting_of_shufflePhase (by rw [hp]; decide))
    cases h with
    | hole _ h =>
      have hclear : Still s (s.withTable s.table.clearLedger) :=
        ⟨rfl, rfl, rfl, rfl, ⟨rfl, rfl, rfl⟩⟩
      exact startPreflopRevealPhase_custody h hb (hclear.custody_of_stage rfl hc)
    | board _ _ _ h => exact startCommunityRevealPhase_custody (s := s.emit _) h hb hc
    | showdown _ h => exact startShowdownRevealPhase_custody (s := s.emit _) h hb hc
    | idle h => exact h ▸ hc

/-! ## The end of a round -/

theorem setCurrentTurn_custody {turn : Option ℕ} (h : s.setCurrentTurn turn = .ok s')
    (hc : s.table.Custody) : s'.table.Custody := by
  refine (setCurrentTurn_still h).custody_of_stage ?_ hc
  obtain ⟨-, -, ht, -⟩ := setCurrentTurn_eq_ok h
  rw [ht]
  exact HandPhase.stage_withTurn _ _

theorem pads_setSeat {t : TexasPokerTable G} {k : Fin maxSeats} {x : Seat G}
    (h : x.kind = (t.seats k).kind) : Pads t (t.setSeat k x) :=
  (SameMembers.setSeat (by rw [h, seat_val])).pads rfl

theorem collectBetsToPot_custody (h : s.collectBetsToPot = .ok s') (hc : s.table.Custody) :
    s'.table.Custody ∧ s'.table.sumBets = 0 := by
  obtain ⟨ht, hp⟩ := collectBetsToPot_eq_ok h
  have hz : s'.table.sumBets = 0 := by rw [ht, sumBets_collected]
  have ha : Accounts s s' 0 0 0 := by
    refine Loses.accounts ⟨collectBetsToPot_flow h, ?_⟩ hp.refunded.ge
    rw [ht]
    exact wagersMatch_collected.mpr
  refine ⟨ha.custody hc (hc.toPhased.of_stage (by rw [ht]; rfl) (by omega) ?_ ?_), hz⟩
  · rw [ht, wagers_collected]
  · rw [ht]
    exact sameMembers_collected.pads rfl

/-- An accepted action leaves the hand in its betting round. -/
theorem Accounts.custody_of_acted (h : Accounts s s' d r l)
    (ht : s'.table.stage = s.table.stage) (hb : s.table.bettingRound.isSome = true)
    (hp : Pads s.table s'.table) (hc : s.table.Custody) : s'.table.Custody := by
  have hs := stage_of_bettingRound hb
  have hr : s.table.roundState ≠ roundWaiting := hc.live (by rw [hs]; simp)
  refine h.custody hc (hc.toPhased.of_betting _ (ht.trans hs) ?_ hp)
  rwa [roundState_of_stage ht]

/-- A betting round opens out of a reveal. -/
theorem opened_custody {isPreflop : Bool} {turn : Option ℕ} {street d : ℕ}
    {reveal : RevealTokenState G} (hp : s.table.handPhase = .revealing street reveal d)
    (hb : s.table.sumBets = 0 ∨ isPreflop = true)
    (h : (s.withTable (s.table.bettingOpened isPreflop)).setCurrentTurn turn = .ok s')
    (hc : s.table.Custody) : s'.table.Custody := by
  refine setCurrentTurn_custody h ((bettingOpened_accounts hb).custody hc ?_)
  have hs : s.table.stage = .dealing street := by simp [TexasPokerTable.stage, hp, HandPhase.stage]
  have hr : s.table.roundState ≠ roundWaiting := hc.live (by rw [hs]; simp)
  refine hc.toPhased.of_betting s.table.roundState ?_ ?_
    (sameMembers_bettingOpened.pads ?_)
  · cases isPreflop <;> rfl
  · cases isPreflop <;> exact hr
  · cases isPreflop <;> rfl

theorem applyFundSeat_custody {i amount : ℕ} {timing : FundTiming}
    (h : s.applyFundSeat i amount timing = .ok s') (hc : s.table.Custody) : s'.table.Custody := by
  refine (applyFundSeat_accounts h).custody hc ?_
  obtain ⟨k, x, -, -, -, hx, ht, -⟩ := applyFundSeat_eq_ok h
  have hkind : x.kind = (s.table.seats k).kind := by
    rcases hx with ⟨-, hx⟩ | ⟨-, hx⟩
    · exact Seat.kind_setPendingAddon hx
    · exact Seat.kind_setStack hx
  have hbets : s'.table.sumBets = s.table.sumBets := by
    rw [ht, sumBets_eq, sumBets_eq]
    exact seatSum_setSeat_of_eq (g := Seat.bet) (chips_funded hx).2.1
  have hpot : s'.table.pot = s.table.pot := by rw [ht]; rfl
  refine hc.toPhased.of_stage (by rw [ht]; rfl) hbets.le ?_ ?_
  · rw [wagers, wagers, hbets, hpot]
  · have hset := pads_setSeat (t := s.table) hkind
    exact ⟨by rw [ht]; rfl, fun i hi => by rw [ht]; exact hset.vacant i hi⟩

theorem consumeTimeBank_custody {i consumedMs : ℕ} (h : s.consumeTimeBank i consumedMs = .ok s')
    (hc : s.table.Custody) : s'.table.Custody := by
  refine (consumeTimeBank_accounts h).custody hc ?_
  obtain ⟨-, -, ht⟩ := consumeTimeBank_eq_ok h
  have hbets : s'.table.sumBets = s.table.sumBets := by
    rw [ht, sumBets_eq, sumBets_eq]
    exact seatSum_congr fun j => (wagers_setSeat wagers_setTimeBankMs j).bet
  refine hc.toPhased.of_stage (by rw [ht]; rfl) hbets.le ?_ ?_
  · rw [wagers, wagers, hbets, ht]
    rfl
  · rw [ht]
    exact (SameMembers.setSeat (Seat.kind_setTimeBankMs _ _)).pads rfl

/-- A reconstruction is under way on a street. -/
theorem dealing_of_reveal {t : TexasPokerTable G} {reveal : RevealTokenState G}
    (h : t.revealTokenState = some reveal) : t.stage = .dealing t.roundState := by
  unfold TexasPokerTable.revealTokenState at h
  unfold TexasPokerTable.stage TexasPokerTable.roundState
  split at h <;> rename_i hp
  case h_4 => cases h
  all_goals simp [hp, HandPhase.stage, ShufflingPhase.street]

theorem onCompleteReconstruct_custody (h : s.onCompleteReconstruct = .ok s')
    (hc : s.table.Custody) : s'.table.Custody := by
  obtain ⟨m, reveal, encrypted, hr, -, ht, hp, hpass⟩ := onCompleteReconstruct_eq_ok h
  have hs := dealing_of_reveal hr
  have hstill : Still s m := ⟨by rw [ht], by rw [ht], by rw [ht], by rw [ht], hp⟩
  refine hpass.custody (hstill.custody_of_dealing s.table.roundState ?_ ?_
    (hc.idle fun street => by rw [hs]; simp) hc)
  · rw [ht]
    rfl
  · have hlive := hc.live (by rw [hs]; simp)
    rw [ht]
    exact hlive

variable [AddCommGroup G] [Protocol G] [DecidableEq G]

theorem endWithoutShowdown_custody (h : s.endWithoutShowdown = .ok s') (hc : s.table.Custody) :
    s'.table.Custody := by
  refine (endWithoutShowdown_accounts h).custody hc
    (hc.toPhased.of_settled (endWithoutShowdown_loses h).2 ?_)
  simp only [endWithoutShowdown, Fallible.bind_eq_ok] at h
  obtain ⟨c, hcol, a, ha, hr⟩ := h
  have hcollected : Pads s.table c.table := by
    rw [(collectBetsToPot_eq_ok hcol).1]
    exact sameMembers_collected.pads rfl
  have hawarded : Pads c.table a.table := by
    obtain ⟨-, ⟨-, rfl⟩ | ⟨winner, seat, -, hs, ht⟩⟩ := awardSurvivor_eq_ok ha
    · exact .of_seats rfl rfl
    · have hset := pads_setSeat (t := c.table) (k := winner) (Seat.kind_setStack hs)
      exact ⟨by rw [ht]; rfl, fun i hi => by rw [ht]; exact hset.vacant i hi⟩
  rw [(resetForNextHand_table hr).2]
  exact hcollected.trans (hawarded.trans pads_afterHand)

theorem resetForNextHand_custody (h : s.resetForNextHand = .ok s') (hc : s.table.Custody) :
    s'.table.Custody := by
  refine (resetForNextHand_accounts h).custody hc
    (hc.toPhased.of_settled (resetForNextHand_loses h).2 ?_)
  rw [(resetForNextHand_table h).2]
  exact pads_afterHand

theorem advanceRound_custody (h : s.advanceRound = .ok s') (hb : s.table.sumBets = 0)
    (hc : s.table.Custody) : s'.table.Custody := by
  rcases advanceRound_eq_ok h with ⟨-, h⟩ | ⟨-, m, hm, h⟩
  · exact endWithoutShowdown_custody h hc
  have hstill := maybeTriggerRunItTwice_still hm
  have hcm : m.table.Custody := by
    refine hstill.custody_of_stage ?_ hc
    rcases maybeTriggerRunItTwice_eq_ok hm with rfl | ⟨-, -, _, -, ht, -⟩
    · rfl
    · rw [ht]
      rfl
  have hbm : m.table.sumBets = 0 := hstill.sumBets.trans hb
  rcases h with ⟨-, rfl⟩ | h
  · exact hcm
  cases h with
  | board _ ho ht hp =>
    have := startCommunityRevealPhase_custody ho hbm hcm
    rwa [ht]
  | showdown _ ho ht hp =>
    have := startShowdownRevealPhase_custody ho hbm hcm
    rwa [ht]

theorem settleHand_custody (h : s.settleHand = .ok s') (hc : s.table.Custody) :
    s'.table.Custody := by
  rcases settleHand_eq_ok h with rfl | ⟨plan, m, hm, h⟩
  · exact hc
  refine (settle_accounts hm h).custody hc
    (hc.toPhased.of_settled (resetForNextHand_loses h).2 ?_)
  obtain ⟨-, -, -, ht, hseats, -⟩ := applySettlementPlan_eq_ok hm
  have hpaid : Pads s.table m.table :=
    ⟨by rw [ht], fun i hi => (Seat.kind_setStack (hseats i)).trans hi⟩
  rw [(resetForNextHand_table h).2]
  exact hpaid.trans pads_afterHand

/-! ## Moves -/

theorem Play.custody (h : Play s s') (hc : s.table.Custody) : s'.table.Custody := by
  cases h with
  | notice _ => exact hc
  | clock ht => exact (Still.of_retimed ht).custody_of_retimed ht hc
  | turn _ h => exact setCurrentTurn_custody h hc
  | closeRound _ _ hcol h =>
    obtain ⟨hc', hz⟩ := collectBetsToPot_custody hcol hc
    exact advanceRound_custody h hz hc'
  | ended _ h => exact endWithoutShowdown_custody h hc
  | openPreflop hrev hb ha h =>
    obtain ⟨street, d, hp⟩ := hrev
    have hs : s.table.stage = .dealing street := by
      simp [TexasPokerTable.stage, hp, HandPhase.stage]
    have hz : s.table.sumBets = 0 := hc.idle fun st => by rw [hs]; simp
    have hopen := opening_accounts hz hc.not_participates hb ha
    obtain ⟨hpb, hmb⟩ := postBlinds_members hb
    obtain ⟨hpa, hma⟩ := collectAnte_members ha
    refine setCurrentTurn_custody h (((bettingOpened_accounts (.inr rfl)).after hopen).custody hc
      (hc.toPhased.of_betting street ?_ ?_ ?_))
    · simp [TexasPokerTable.stage, bettingOpened, HandPhase.stage, TexasPokerTable.roundState, hpa,
        hpb, hp]
    · have hr := hc.live (by rw [hs]; simp)
      change _ ≠ _ at hr
      simpa [TexasPokerTable.roundState, bettingOpened, hpa, hpb, hp] using hr
    · exact ((hmb.trans hma).pads (opening_rules hb ha)).trans
        (sameMembers_bettingOpened.pads rfl)
  | openStreet hrev h =>
    obtain ⟨street, d, hp⟩ := hrev
    refine opened_custody hp (.inl (hc.idle fun st => ?_)) h hc
    simp [TexasPokerTable.stage, hp, HandPhase.stage]
  | display hrev =>
    obtain ⟨street, d, hp⟩ := hrev
    have hstill : Still s (s.withTable (s.table.enterShowdownDisplay 0)) :=
      ⟨rfl, rfl, rfl, rfl, ⟨rfl, rfl, rfl⟩⟩
    refine hstill.custody_of_dealing roundShowdown rfl ?_ (hc.idle fun st => ?_) hc
    · exact (by decide : roundShowdown ≠ roundWaiting)
    · simp [TexasPokerTable.stage, hp, HandPhase.stage]
  | passShuffle h => exact (advanceShuffle_eq_ok h).custody hc
  | completeReconstruct _ h => exact onCompleteReconstruct_custody h hc
  | submitShuffle _ h =>
    obtain ⟨phase, _, _, _, m, hp, -, -, -, -, -, -, ht, hpay, hpass⟩ := applySubmitShuffleV2_eq_ok h
    have hstill : Still s m := ⟨by rw [ht], by rw [ht], by rw [ht], by rw [ht], hpay⟩
    refine hpass.custody (hstill.custody_of_stage ?_ hc)
    rw [ht, TexasPokerTable.stage, TexasPokerTable.stage, hp]
    cases phase <;> rfl
  | submitReconstruct h =>
    obtain ⟨_, _, _, _, _, _, _, _, m, hp, -, -, -, -, -, -, hm, hpay, h⟩ :=
      applySubmitReconstructDeck_eq_ok h
    have hstill : Still s m := by
      subst hm
      exact ⟨rfl, rfl, rfl, rfl, hpay⟩
    have hcm : m.table.Custody := by
      refine hstill.custody_of_stage ?_ hc
      subst hm
      rw [TexasPokerTable.stage, TexasPokerTable.stage, hp]
      rfl
    rcases h with rfl | ⟨-, h⟩
    · exact hcm
    · exact onCompleteReconstruct_custody h hcm
  | fold _ _ h =>
    obtain ⟨-, hb, ht, -⟩ := foldSeat_eq_ok h
    refine (foldSeat_accounts h).custody_of_acted ?_ hb ?_ hc
    · rw [ht]
      exact HandPhase.stage_undated _
    · rw [ht]
      exact (sameMembers_acted (SameMembers.setSeat (Seat.kind_setStatus _ _))).pads rfl
  | matchBet _ _ h =>
    obtain ⟨-, -, -, round, hb, hcase⟩ := matchBet_eq_ok h
    refine (matchBet_accounts h).custody_of_acted ?_ (by rw [hb]; rfl) ?_ hc
    · rcases hcase with ⟨-, ht⟩ | ⟨-, _, _, -, -, ht⟩ <;> rw [ht] <;>
        exact HandPhase.stage_undated _
    · rcases hcase with ⟨-, ht⟩ | ⟨-, k, p, -, hk, ht⟩ <;> rw [ht]
      · exact .of_seats rfl rfl
      · exact (sameMembers_acted (sameMembers_posted hk)).pads rfl
  | raise _ _ h =>
    obtain ⟨-, -, street, _, turn, d, newRound, needed, k, p, hp, -, -, hk, u, hu, ht⟩ :=
      raiseTo_eq_ok h
    have hphase : s'.table.handPhase = .betting street newRound turn 0 := by
      rw [ht]
      split <;> rw [hu] <;> rfl
    have hsu : SameMembers s.table u := by
      rw [hu]
      exact sameMembers_acted (t := s.table) ⟨(sameMembers_posted
        (t := { s.table with handPhase := .betting street newRound turn d }) hk).kinds, rfl⟩
    refine (raiseTo_accounts h).custody_of_acted ?_ ?_ ?_ hc
    · rw [TexasPokerTable.stage, TexasPokerTable.stage, hphase, hp]
      rfl
    · simp [bettingRound, hp]
    · rw [ht]
      have hpu : Pads s.table u := hsu.pads (by rw [hu]; rfl)
      split
      · exact hpu.trans (.of_seats rfl rfl)
      · exact hpu
  | fund h => exact applyFundSeat_custody h hc
  | askLeave h =>
    obtain ⟨-, hpay, rfl | ht⟩ := applySetLeaveAfterHand_eq_ok h
    · exact hc
    · have hstill : Still s s' :=
        ⟨by rw [ht]; rfl, by rw [ht]; rfl, by rw [ht]; rfl, by rw [ht]; rfl, hpay⟩
      exact hstill.custody_of_stage (by rw [ht]; rfl) hc
  | timeBank h => exact consumeTimeBank_custody h hc
  | settle _ h => exact settleHand_custody h hc

theorem Repair.custody (h : Repair s s') (hc : s.table.Custody) : s'.table.Custody := by
  cases h with
  | kick h =>
    refine (kickSeatRaw_accounts h).custody hc ?_
    rcases kickSeatRaw_eq_ok h with ⟨-, rfl⟩ | ⟨k, -, hk⟩
    · exact hc.toPhased
    have hbets : s'.table.sumBets ≤ s.table.sumBets := by
      rw [hk.table, sumBets_eq, sumBets_eq]
      have := seatSum_setSeat (t := s.table) (g := Seat.bet) k (s.table.seats k).departed
      rw [bet_departed] at this
      change (s.table.setSeat k (s.table.seats k).departed).seatSum Seat.bet ≤ _
      omega
    refine hc.toPhased.of_stage ?_ hbets ?_ ?_
    · rw [hk.table]
      exact HandPhase.stage_removeSeat _ _
    · rw [hk.table, wagers_kicked]
    · rw [hk.table]
      exact (onlyKicks_kicked hk.occupied).pads rfl
  | reset h => exact resetForNextHand_custody h hc
  | refundReset hm h =>
    rename_i m
    have hrefund := refundAllBets_accounts hm hc.wagers
    have hpaid : Pads s.table m.table := by
      rw [(refundAllBets_eq_ok hm).1]
      refine ⟨rfl, fun i hi => ?_⟩
      change (refundedSeat (s.table.seats i)).kind = .vacant
      cases hs : s.table.seats i <;> rw [hs] at hi <;> first | rfl | cases hi
    refine (hrefund.trans (resetForNextHand_accounts h)).custody hc
      (hc.toPhased.of_settled (resetForNextHand_loses h).2 ?_)
    rw [(resetForNextHand_table h).2]
    exact hpaid.trans pads_afterHand
  | suspend h =>
    obtain ⟨-, reveal, d, hr, -, ht⟩ := startReconstruct_eq_ok h
    have hs := dealing_of_reveal hr
    refine (startReconstruct_still h).custody_of_dealing s.table.roundState
      (by rw [ht]; rfl) ?_ (hc.idle fun street => by rw [hs]; simp) hc
    have hlive := hc.live (by rw [hs]; simp)
    rw [ht]
    exact hlive
  | rebuild hp h =>
    have hstill := rebuildDeckAndShuffleOnTimeout_still h
    obtain ⟨-, ⟨-, reveal, hr, -, ht⟩ | ⟨hne, ht⟩⟩ := rebuildDeckAndShuffleOnTimeout_eq_ok h
    · have hs := dealing_of_reveal hr
      refine hstill.custody_of_dealing s.table.roundState
        (by rw [ht]; rfl) ?_ (hc.idle fun street => by rw [hs]; simp) hc
      have hlive := hc.live (by rw [hs]; simp)
      rw [ht]
      exact hlive
    · refine hstill.custody_of_stage ?_ hc
      have hs : s.table.stage = .between := by
        unfold TexasPokerTable.shufflePhase at hp hne
        unfold TexasPokerTable.stage
        split at hp
        · rename_i phase hphase
          rw [hphase] at hne ⊢
          cases phase with
          | initial _ _ => rfl
          | reconstruct _ _ _ _ => exact absurd rfl hne
        · exact absurd rfl hp
      rw [hs, ht]
      rfl

theorem Move.custody (h : Move s s') (hc : s.table.Custody) : s'.table.Custody := by
  cases h with
  | play h => exact h.custody hc
  | repair h => exact h.custody hc

/-! ## Steps -/

omit [AddCommGroup G] [Protocol G] [DecidableEq G] in
/-- Between hands one seat changes hands, and no chip is in play. -/
theorem phased_of_seat {k : Fin maxSeats} {x : Seat G} (hc : s.table.Custody)
    (hs : s.table.stage = .between) (hs' : s'.table.stage = .between)
    (hseats : s'.table.seats = (s.table.setSeat k x).seats) (hpot : s'.table.pot = s.table.pot)
    (hrules : s'.table.rules = s.table.rules) (hx : x.bet = 0)
    (hk : k.1 < s.table.rules.maxPlayers ∨ x.kind = .vacant) : s'.table.Phased := by
  have hz := hc.between hs
  have hb := seatSum_of_setSeat (g := Seat.bet) hseats
  rw [hx] at hb
  have hbets : s'.table.sumBets ≤ s.table.sumBets := by
    rw [sumBets_eq, sumBets_eq]
    omega
  rw [wagers] at hz
  refine ⟨fun _ => by omega, fun _ => by rw [wagers]; omega, fun hne => absurd hs' hne, ?_⟩
  intro i hi
  rw [hrules] at hi
  rw [hseats]
  by_cases hik : i = k
  · subst hik
    rw [seats_setSeat_self]
    exact hk.resolve_left (by omega)
  · rw [seats_setSeat_of_ne fun he => hik (Fin.ext he)]
    exact hc.padding i hi

theorem applyJoinTable_custody {player : Address} {buyIn : ℕ} {pk : G} {txPk : TaggedPubkey}
    {proof : Bytes} (h : s.applyJoinTable player buyIn pk txPk proof = .ok s')
    (hc : s.table.Custody) : s'.table.Custody := by
  refine (applyJoinTable_accounts h).custody hc ?_
  obtain ⟨hjoin, -, -, -, k, o, hk, -, -, -, -, -, ht, -⟩ := applyJoinTable_eq_ok h
  have hs : s.table.stage = .between := stage_eq_between hc.toPhased (of_decide_eq_true hjoin)
  exact phased_of_seat (k := k) (x := .waiting o) hc hs (by rw [ht]; exact hs) (by rw [ht])
    (by rw [ht]; rfl) (by rw [ht]; rfl) rfl (.inl hk)

omit [Protocol G] in
theorem applyLeaveTable_custody {i : ℕ} (h : s.applyLeaveTable i = .ok s')
    (hc : s.table.Custody) : s'.table.Custody := by
  obtain ⟨hleave, k, -, -, -, ht, -⟩ := applyLeaveTable_eq_ok h
  have hs : s.table.stage = .between := stage_eq_between hc.toPhased (of_decide_eq_true hleave)
  refine (applyLeaveTable_accounts (hc.between hs) hc.wagers h).custody hc ?_
  exact phased_of_seat (k := k) (x := .empty) hc hs (by rw [ht]; exact hs) (by rw [ht])
    (by rw [ht]; rfl) (by rw [ht]; rfl) rfl (.inr rfl)

omit [AddCommGroup G] [Protocol G] [DecidableEq G] in
/-- The slots hold what they held. -/
theorem custody_of_slots {t t' : TexasPokerTable G}
    (h : ∀ i, Wagers (t.seats i) (t'.seats i) 0) (hpot : t'.pot = t.pot)
    (hpool : t'.chipPool = t.chipPool) (hs : t'.stage = t.stage) (hp : Pads t t')
    (hc : t.Custody) : t'.Custody := by
  have hb : t'.sumBets = t.sumBets := by
    rw [sumBets_eq, sumBets_eq]
    exact seatSum_congr fun i => (h i).bet
  have hw : t'.wagers = t.wagers := by rw [wagers, wagers, hb, hpot]
  have hheld : t'.held = t.held := by
    rw [held_eq, held_eq, hpot]
    exact congrArg _ (seatSum_congr fun i => (h i).chips)
  have htotal : t'.sumTotalBets = t.sumTotalBets := by
    rw [sumTotalBets_eq, sumTotalBets_eq]
    exact seatSum_congr fun i => (h i).totalBet
  refine ⟨hc.toPhased.of_stage hs hb.le hw.le hp, ?_, ?_, ?_⟩
  · rw [WagersMatch, hw, htotal]
    exact hc.wagers
  · rw [hheld, hpool]
    exact hc.held
  · rw [hpool]
    exact hc.pool

omit [AddCommGroup G] [Protocol G] [DecidableEq G] in
/-- A table without players. -/
theorem custody_of_vacant {t : TexasPokerTable G} (h : ∀ i, t.seats i = .empty) (hpot : t.pot = 0)
    (hpool : t.chipPool = 0) (hp : t.handPhase = .waiting) : t.Custody := by
  have hsum {g : Seat G → ℕ} (hg : g .empty = 0) : t.seatSum g = 0 :=
    seatSum_eq_zero_iff.mpr fun i => by rw [h i, hg]
  have hb : t.sumBets = 0 := by
    rw [sumBets_eq]
    exact hsum rfl
  have hw : t.wagers = 0 := by rw [wagers, hb, hpot]
  refine ⟨⟨fun _ => hb, fun _ => hw, fun hne => ?_, fun i _ => by rw [h i]; rfl⟩, ?_, ?_, ?_⟩
  · exact absurd (by rw [TexasPokerTable.stage, hp]; rfl) hne
  · rw [WagersMatch, hw, sumTotalBets_eq]
    exact (hsum rfl).symm
  · rw [held_eq, hpot, hsum rfl]
    exact Nat.zero_le _
  · rw [hpool]
    exact Nat.zero_le _

theorem PlainStep.custody (h : PlainStep s s') (hc : s.table.Custody) : s'.table.Custody := by
  cases h with
  | move h => exact h.custody hc
  | create h =>
    simp only [applyCreateTable, Fallible.bind_eq_ok, Fallible.pure_eq_ok] at h
    obtain ⟨_, -, _, -, _, -, _, -, h⟩ := h
    exact custody_of_vacant (fun i => by rw [← h]; rfl) (by rw [← h]; rfl) (by rw [← h]; rfl)
      (by rw [← h]; rfl)
  | join h => exact applyJoinTable_custody h hc
  | leave h => exact applyLeaveTable_custody h hc
  | prepare hr ht =>
    have hs := stage_eq_between hc.toPhased hr
    have hp := promotes_seated (t := s.table)
    have hpads : Pads s.table s'.table :=
      ⟨by rw [ht]; exact hp.rules, fun i hi => by rw [ht]; exact hp.pads.vacant i hi⟩
    exact custody_of_slots (by rw [ht]; exact hp.wagers) (by rw [ht]; exact hp.pot)
      (by rw [ht]; exact hp.chipPool) (by rw [hs, ht]; rfl) hpads hc
  | foldOut hb ht =>
    rename_i i encrypted
    have hw : ∀ j, Wagers (s.table.seats j) (s'.table.seats j) 0 := by
      intro j
      rw [ht]
      exact wagers_setSeat wagers_setStatus j
    refine custody_of_slots hw (by rw [ht]; rfl) (by rw [ht]; rfl) ?_ ?_ hc
    · rw [ht]
      exact HandPhase.stage_undated _
    · have hset : SameMembers s.table (s.table.setSeat i ((s.table.seat i).setStatus .folded)) :=
        .setSeat (Seat.kind_setStatus _ _)
      refine ⟨by rw [ht]; rfl, fun j hj => ?_⟩
      rw [ht]
      exact (hset.kinds j).trans hj
  | count h =>
    rw [h.rest]
    exact custody_of_slots (t := s.table) (fun _ => .refl _) rfl rfl rfl (.of_seats rfl rfl) hc

theorem GivesTokens.stage {i : ℕ} {tokens : List G} (h : GivesTokens s s' i tokens) :
    s'.table.stage = s.table.stage := by
  cases h with
  | waits hp _ _ ht _ =>
    rw [ht, TexasPokerTable.stage, TexasPokerTable.stage, hp]
    rfl
  | writes hp _ _ _ _ ht _ =>
    rw [ht, TexasPokerTable.stage, TexasPokerTable.stage, hp]
    rfl

theorem Step.custody (h : Step s s') (hc : s.table.Custody) : s'.table.Custody := by
  cases h with
  | plain h => exact h.custody hc
  | tokens h =>
    have hsame := h.sameChips
    refine custody_of_slots (fun i => wagers_of_withoutHand (hsame.slots i)) hsame.pot
      hsame.chipPool h.stage ⟨hsame.rules, fun i hi => ?_⟩ hc
    exact (Seat.kind_of_withoutHand (hsame.slots i)).trans hi

theorem Steps.custody (h : Steps s s') (hc : s.table.Custody) : s'.table.Custody := by
  induction h with
  | refl => exact hc
  | tail _ h ih => exact h.custody ih

/-- The pool covers the chips of every reachable table. -/
theorem custody_isInvariant : (session G).IsInvariant fun s => s.table.Custody where
  init := by
    rintro _ ⟨id, creator, rules, -, rfl⟩
    exact custody_of_vacant (fun _ => rfl) rfl rfl rfl
  next s c s' _ hc h := by
    obtain ⟨n, hn, hsteps⟩ := call_steps h
    rw [← hn]
    exact Steps.custody hsteps hc

end Exec

end TexasPoker
