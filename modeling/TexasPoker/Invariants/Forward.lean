import TexasPoker.Invariants.Counters
import TexasPoker.Invariants.Onward
import TexasPoker.Invariants.Seating
import TexasPoker.Runtime.Client

/-! # A hand goes forward

Every step of a hand takes its table onward or ends the hand, so two states of a run inside
one hand are in order.
-/

namespace TexasPoker

variable {G : Type}

namespace Exec

open TexasPokerTable

variable {s m s' : Exec G}

/-- A step takes the hand on, or ends it. -/
structure Goes (s s' : Exec G) : Prop where
  composed : s'.table.Composed
  onward : s'.table.Cleared ∨ Onward s.table s'.table

theorem Goes.refl (h : s.table.Composed) : Goes s s := ⟨h, .inr (.refl _)⟩

theorem Goes.concealed (h : Goes s s') (hs : s.table.Concealed) : s'.table.Concealed :=
  h.onward.elim Cleared.concealed fun ho => ho.concealed hs

theorem Goes.of_same (h : SameTurns s.table s'.table) (hs : s.table.Composed)
    (hb : s'.table.communityCards = s.table.communityCards)
    (htwo : s'.table.runItTwiceState = s.table.runItTwiceState)
    (hseats : ∀ i, (s.table.seats i).Onward s'.table.Shows (s'.table.seats i)) : Goes s s' :=
  ⟨h.composed hs, .inr (h.onward hb htwo hseats)⟩

/-- The next dealing of a hand, or the same one. -/
theorem Goes.of_dealing (street : ℕ) (hs : s.table.Composed) (h : Still s s')
    (hstage : s'.table.stage = .dealing street) (hle : s.table.stage.order ≤ 2 * street + 2)
    (hfirst : roundPreflop ≤ street) (hlast : street ≤ roundShowdown)
    (hb : s'.table.communityCards = s.table.communityCards)
    (htwo : s.table.runItTwiceState.secondBoardSuffix <+:
      s'.table.runItTwiceState.secondBoardSuffix)
    (hdealt : ∀ reveal, s'.table.revealTokenState = some reveal →
      RevealPurpose.Fits reveal.purpose street) : Goes s s' := by
  have horder : s.table.stage.order ≤ s'.table.stage.order := hstage ▸ hle
  have hquiet : s'.table.isBettingRound = false :=
    not_betting_of_stage fun st hst => by rw [hstage] at hst; cases hst
  have hround : s'.table.roundState = street :=
    roundState_of_stage (t := { s'.table with handPhase := .revealing street ⟨.board, []⟩ 0 }) hstage
  refine ⟨hs.of_quiet h.rules hquiet horder (fun i => by rw [h.seats]) (hround ▸ hfirst)
    (hround ▸ hlast) (fun reveal hr => hround ▸ hdealt reveal hr), .inr ?_⟩
  · refine ⟨h.rules, horder, hb ▸ List.prefix_rfl, htwo, fun i => ?_, fun hsame => ?_⟩
    · rw [h.seats]
      exact .refl _
    · rw [price_of_not_betting fun st hst => by rw [← hsame, hstage] at hst; cases hst]
      exact Nat.zero_le _

/-- A step that ends the hand, or one inside it. -/
theorem Goes.after (h : Goes m s') (hm : Onward s.table m.table) : Goes s s' :=
  ⟨h.composed, h.onward.imp id hm.trans⟩

theorem OpensNext.goes (h : OpensNext s s') (hs : s.table.Composed)
    (hround : s.table.bettingRound.isSome = true) : Goes s s' := by
  have hstage := stage_of_bettingRound hround
  have htwo := h.runItTwiceState
  have hstill := h.still
  cases h with
  | board hdeal ho ht _ =>
    rename_i count street o hp
    obtain ⟨hstreet, -, hopen, -⟩ := startCommunityRevealPhase_eq_ok ho
    refine .of_dealing street hs hstill (by rw [ht, hopen]; rfl) ?_ ?_ ?_
      (by rw [ht, hopen]; rfl) (htwo ▸ List.prefix_rfl) fun reveal hr => ?_
    · rw [hstage]
      simp only [streetDeals, List.mem_cons, Prod.mk.injEq, List.not_mem_nil, or_false] at hdeal
      simp only [Stage.order]
      rcases hdeal with ⟨h, -, rfl⟩ | ⟨h, -, rfl⟩ | ⟨h, -, rfl⟩ <;> rw [h] <;> decide
    · rcases hstreet with rfl | rfl | rfl <;> decide
    · rcases hstreet with rfl | rfl | rfl <;> decide
    · rw [ht, hopen] at hr
      cases hr
      trivial
  | showdown hriver ho ht _ =>
    obtain ⟨_, -, hopen, -⟩ := startShowdownRevealPhase_eq_ok ho
    refine .of_dealing roundShowdown hs hstill (by rw [ht, hopen]; rfl) ?_ (by decide)
      le_rfl (by rw [ht, hopen]; rfl) (htwo ▸ List.prefix_rfl) fun reveal hr => ?_
    · rw [hstage, hriver]
      decide
    · rw [ht, hopen] at hr
      cases hr
      exact rfl

variable [AddCommGroup G] [Protocol G] [DecidableEq G]

theorem resetForNextHand_goes (hsize : m.table.rules.maxPlayers ≤ maxSeats)
    (h : m.resetForNextHand = .ok s') : Goes s s' where
  composed := by
    rw [(resetForNextHand_table h).2]
    exact composed_afterHand hsize
  onward := .inl ((resetForNextHand_table h).2 ▸ cleared_afterHand)

theorem endWithoutShowdown_goes (hsize : m.table.rules.maxPlayers ≤ maxSeats)
    (h : m.endWithoutShowdown = .ok s') : Goes s s' := by
  simp only [endWithoutShowdown, Fallible.bind_eq_ok] at h
  obtain ⟨c, hc, a, ha, h⟩ := h
  have hrules : a.table.rules = m.table.rules := by
    have hct : c.table.rules = m.table.rules := by
      rw [(collectBetsToPot_eq_ok hc).1]
      rfl
    obtain ⟨-, ⟨-, rfl⟩ | ⟨_, _, -, -, ht⟩⟩ := awardSurvivor_eq_ok ha
    · exact hct
    · rw [ht]
      exact hct
  exact resetForNextHand_goes (hrules ▸ hsize) h

theorem advanceRound_goes (hs : s.table.Composed) (hround : s.table.bettingRound.isSome = true)
    (h : s.advanceRound = .ok s') : Goes s s' := by
  rcases advanceRound_eq_ok h with ⟨-, h⟩ | ⟨-, m, hm, h⟩
  · exact endWithoutShowdown_goes hs.size h
  have htwice : SameTurns s.table m.table ∧ m.table.bettingRound.isSome = true ∧
      Onward s.table m.table := by
    rcases maybeTriggerRunItTwice_eq_ok hm with rfl | ⟨hsingle, -, start, -, ht, -⟩
    · exact ⟨⟨rfl, rfl, rfl, fun _ => rfl, fun _ => rfl⟩, hround, .refl _⟩
    · have hsame : SameTurns s.table m.table := by
        refine ⟨?_, ?_, ?_, fun i => ?_, fun i => ?_⟩ <;> rw [ht]
      refine ⟨hsame, ?_, hsame.rules, hsame.stage ▸ le_rfl, ?_, ?_, fun i => ?_,
        fun _ => hsame.price.ge⟩
      · rw [ht]
        exact hround
      · rw [ht]
      · rw [hsingle]
        exact List.nil_prefix
      · rw [ht]
        exact .refl _
  obtain ⟨hsame, hmround, honward⟩ := htwice
  have hcomposed := hsame.composed hs
  rcases h with ⟨-, rfl⟩ | h
  · exact ⟨hcomposed, .inr honward⟩
  · exact (h.goes hcomposed hmround).after honward

omit [AddCommGroup G] [Protocol G] [DecidableEq G] in
/-- The hand stays at its street while cards are shuffled. -/
theorem Goes.of_still (hs : s.table.Composed) (h : Still s s')
    (hstage : s.table.stage = .dealing s.table.roundState) (hsame : s'.table.stage = s.table.stage)
    (hb : s'.table.communityCards = s.table.communityCards)
    (htwo : s'.table.runItTwiceState = s.table.runItTwiceState)
    (hdealt : ∀ reveal, s'.table.revealTokenState = some reveal →
      RevealPurpose.Fits reveal.purpose s.table.roundState) : Goes s s' :=
  .of_dealing _ hs h (hsame.trans hstage) (hstage ▸ le_rfl)
    (hs.first fun hb => by rw [hb] at hstage; cases hstage) hs.last hb (htwo ▸ List.prefix_rfl)
    hdealt

omit [AddCommGroup G] [Protocol G] [DecidableEq G] in
theorem stage_of_shufflePhase {t : TexasPokerTable G} :
    (t.shufflePhase = shufflePhaseBeforePreflop → t.stage = .between) ∧
      (t.shufflePhase = shufflePhaseReconstruct → t.stage = .dealing t.roundState) := by
  unfold shufflePhase stage roundState
  cases hp : t.handPhase with
  | shuffling phase =>
    cases phase <;> refine ⟨fun h => ?_, fun h => ?_⟩ <;> first | rfl | cases h
  | _ => refine ⟨fun h => ?_, fun h => ?_⟩ <;> cases h

omit [AddCommGroup G] [Protocol G] [DecidableEq G] in
theorem PassesShuffle.goes (h : PassesShuffle s s') (hs : s.table.Composed) : Goes s s' := by
  have hstill := h.still
  cases h with
  | idle _ he =>
    rw [he]
    exact .refl hs
  | next _ _ ht _ =>
    refine .of_same ht.sameTurns hs ?_ ?_ fun i => ?_
    · rw [ht.rest]
    · rw [ht.rest]
    · rw [ht.seats]
      exact .refl _
  | deal hp _ _ h =>
    have ht := (startPreflopRevealPhase_eq_ok h).1
    refine .of_dealing roundPreflop hs hstill (by rw [ht]; rfl) ?_ le_rfl (by decide)
      (by rw [ht]; rfl) (by rw [ht]; exact List.prefix_rfl) fun r hreveal => ?_
    · rw [stage_of_shufflePhase.1 hp]
      exact Nat.zero_le _
    · rw [ht] at hreveal
      cases hreveal
      exact rfl
  | restart hp _ _ h =>
    have hstage := stage_of_shufflePhase.2 hp
    cases h with
    | hole hr h =>
      have ht := (startPreflopRevealPhase_eq_ok h).1
      refine .of_still hs hstill hstage ?_ (by rw [ht]; rfl) (by rw [ht]; rfl) fun r hreveal => ?_
      · rw [hstage, ht]
        exact congrArg Stage.dealing hr.symm
      · rw [ht] at hreveal
        cases hreveal
        exact hr
    | board hr _ _ h =>
      have ht := (startCommunityRevealPhase_eq_ok h).2.2.1
      refine .of_still hs hstill hstage ?_ (by rw [ht]; rfl) (by rw [ht]; rfl) fun r hreveal => ?_
      · rw [hstage, ht]
        exact congrArg Stage.dealing hr.symm
      · rw [ht] at hreveal
        cases hreveal
        trivial
    | showdown hr h =>
      obtain ⟨_, -, ht, -⟩ := startShowdownRevealPhase_eq_ok h
      refine .of_still hs hstill hstage ?_ (by rw [ht]; rfl) (by rw [ht]; rfl) fun r hreveal => ?_
      · rw [hstage, ht]
        exact congrArg Stage.dealing hr.symm
      · rw [ht] at hreveal
        cases hreveal
        exact hr
    | idle he =>
      rw [he]
      exact ⟨hs, .inr (.refl _)⟩

omit [AddCommGroup G] [Protocol G] [DecidableEq G] in
theorem onCompleteReconstruct_goes (h : s.onCompleteReconstruct = .ok s')
    (hs : s.table.Composed) : Goes s s' := by
  obtain ⟨m, reveal, _, hr, -, ht, hp, h⟩ := onCompleteReconstruct_eq_ok h
  have hstill : Still s m := ⟨by rw [ht], by rw [ht], by rw [ht], by rw [ht], hp⟩
  have hm : Goes s m := .of_still hs hstill (dealing_of_reveal hr)
    (by rw [dealing_of_reveal hr, ht]; rfl) (by rw [ht]) (by rw [ht]) fun r hreveal => by
      rw [ht] at hreveal
      cases hreveal
      exact hs.dealt _ hr
  refine (h.goes hm.composed).after (hm.onward.resolve_left fun hw => ?_)
  have hphase := hw.phase
  rw [ht] at hphase
  cases hphase

/-! ## Bets -/

omit [AddCommGroup G] [Protocol G] [DecidableEq G] in
theorem order_of_isBettingRound {t : TexasPokerTable G} (h : t.isBettingRound = true) :
    (Stage.betting roundPreflop).order ≤ t.stage.order ∧ roundPreflop ≤ t.roundState ∧
      t.roundState ≤ roundShowdown := by
  obtain ⟨hround, hstreet⟩ := Bool.and_eq_true_iff.mp h
  rw [stage_of_bettingRound hround]
  simp only [isBettingStreet, Bool.or_eq_true, decide_eq_true_eq] at hstreet
  simp only [Stage.order, roundPreflop, roundFlop, roundTurn, roundRiver, roundShowdown] at *
  omega

omit [AddCommGroup G] [Protocol G] [DecidableEq G] in
/-- The turn of a betting round is with nobody, or with a seat that can act. -/
theorem composed_withTurn {t : TexasPokerTable G} {turn : ℕ} (hsize : t.rules.maxPlayers ≤ maxSeats)
    (hround : t.bettingRound.isSome = true)
    (horder : (Stage.betting roundPreflop).order ≤ t.stage.order) (hfirst : roundPreflop ≤ t.roundState)
    (hlast : t.roundState ≤ roundShowdown) (hable : turn ≠ noSeat → t.able turn = true) :
    (t.withTurn turn).Composed := by
  have hstage : (t.withTurn turn).stage = t.stage := HandPhase.stage_withTurn _ _
  refine ⟨hsize, fun _ hturn => ?_, fun hlt => ?_, fun _ => ?_, ?_, fun reveal hr => ?_⟩
  · rw [currentTurn_withTurn hround] at hturn ⊢
    exact hable hturn
  · rw [hstage] at hlt
    exact absurd hlt (not_lt.mpr horder)
  · rwa [roundState_of_stage hstage]
  · rwa [roundState_of_stage hstage]
  · have hbetting := stage_of_bettingRound hround
    rw [← hstage, dealing_of_reveal hr] at hbetting
    cases hbetting

omit [AddCommGroup G] [Protocol G] [DecidableEq G] in
theorem onward_withTurn {t : TexasPokerTable G} (turn : ℕ) : Onward t (t.withTurn turn) :=
  .of_stage rfl (HandPhase.stage_withTurn _ _) rfl rfl (fun _ => .refl _) (price_withTurn turn).ge

omit [AddCommGroup G] [Protocol G] [DecidableEq G] in
/-- An action of the seat to act takes the round on. -/
theorem Acts.onward {i : ℕ} (h : Acts s m i) (hs : s.table.Composed)
    (hb : s.table.isBettingRound = true) (hturn : s.table.currentTurn = i)
    (hi : i < s.table.rules.maxPlayers) :
    Onward s.table m.table ∧ m.table.stage = s.table.stage := by
  have hable : s.table.able i = true := by
    rw [← hturn]
    exact hs.held hb (by rw [hturn]; exact ((hi.trans_le hs.size).trans (by decide)).ne)
  obtain ⟨k, rfl⟩ : ∃ k : Fin maxSeats, k.1 = i := ⟨⟨i, hi.trans_le hs.size⟩, rfl⟩
  obtain ⟨p, hseat, hactive⟩ := playing_of_able hable
  rw [able, seat_val] at hable
  have hwagered {opens : Prop} {amount bet : ℕ} {allIn : Bool} :
      (s.table.seats k).Onward opens (.playing (p.wagered amount bet allIn)) := by
    rw [hseat]
    exact .wagered hactive
  -- a fold, a check or a call leaves the price alone
  have hacted {t : TexasPokerTable G} (hr : t.rules = s.table.rules)
      (hp : t.handPhase = s.table.handPhase) (hc : t.communityCards = s.table.communityCards)
      (htwo : t.runItTwiceState = s.table.runItTwiceState)
      (hseats : ∀ j, (s.table.seats j).Onward (t.acted k).Shows (t.seats j)) :
      Onward s.table (t.acted k) ∧ (t.acted k).stage = s.table.stage := by
    have hstage : (t.acted k).stage = s.table.stage := by
      change t.handPhase.undated.stage = _
      rw [HandPhase.stage_undated, hp]
      rfl
    refine ⟨.of_stage hr hstage hc htwo hseats (le_of_eq ?_), hstage⟩
    rw [price, price, bettingRound_acted, bettingRound, bettingRound, hp]
  cases h with
  | fold h =>
    obtain ⟨-, -, ht, -⟩ := foldSeat_eq_ok h
    rw [ht, seat_val]
    exact hacted rfl rfl rfl rfl (onward_setSeat rfl (.folded _ hable))
  | foldOut ht =>
    rw [ht, foldedOut, seat_val]
    exact hacted rfl rfl rfl rfl (onward_setSeat rfl (.folded _ hable))
  | matchBet h =>
    obtain ⟨-, -, -, round, -, ⟨-, ht⟩ | ⟨-, k', p', hk', hseat', ht⟩⟩ := matchBet_eq_ok h
    · rw [ht]
      exact hacted rfl rfl rfl rfl fun _ => .refl _
    · obtain rfl := Fin.ext hk'
      obtain rfl : p = p' := by
        rw [hseat] at hseat'
        exact Seat.playing.inj hseat'
      rw [ht]
      exact hacted rfl rfl rfl rfl (onward_setSeat rfl hwagered)
  | raise h =>
    rename_i totalBet
    obtain ⟨-, -, street, round, turn, d, newRound, needed, k', p', hp, hraise, hk', hseat', u, hu,
      ht⟩ := raiseTo_eq_ok h
    obtain rfl := Fin.ext hk'
    obtain rfl : p = p' := by
      rw [hseat] at hseat'
      exact Seat.playing.inj hseat'
    obtain ⟨hup, -, hnew, -⟩ := BettingRound.processRaise_eq_ok hraise
    have hphase : m.table.handPhase = .betting street newRound turn 0 := by
      rw [ht]
      split <;> rw [hu] <;> rfl
    have hstage : m.table.stage = s.table.stage := by
      rw [stage, stage, hphase, hp]
      rfl
    have hseats : m.table.seats =
        (s.table.setSeat k' (.playing (p.wagered needed totalBet true))).seats := by
      rw [ht]
      split <;> rw [hu] <;> rfl
    refine ⟨.of_stage ?_ hstage ?_ ?_ (onward_setSeat hseats hwagered) ?_, hstage⟩
    · rw [ht]
      split <;> rw [hu] <;> rfl
    · rw [ht]
      split <;> rw [hu] <;> rfl
    · rw [ht]
      split <;> rw [hu] <;> rfl
    · rw [price, price, bettingRound, bettingRound, hphase, hp]
      change round.currentBet ≤ newRound.currentBet
      omega
  | kick h =>
    rcases kickSeatRaw_eq_ok h with ⟨-, rfl⟩ | ⟨k', hk', hkick⟩
    · exact ⟨.refl _, rfl⟩
    · obtain rfl := Fin.ext hk'
      rw [hkick.table]
      have hstage : (s.table.kicked k').stage = s.table.stage := HandPhase.stage_removeSeat _ _
      refine ⟨.of_stage rfl hstage rfl rfl (onward_setSeat rfl (.departed _ hkick.occupied))
        (le_of_eq ?_), hstage⟩
      exact (price_kicked k').symm

theorem GoesOn.goes {i : ℕ} (h : GoesOn m s') (hact : Acts s m i) (hs : s.table.Composed)
    (hb : s.table.isBettingRound = true) (hturn : s.table.currentTurn = i)
    (hi : i < s.table.rules.maxPlayers) : Goes s s' := by
  obtain ⟨hm, hstage⟩ := hact.onward hs hb hturn hi
  obtain ⟨horder, hfirst, hlast⟩ := order_of_isBettingRound hb
  have hsize : m.table.rules.maxPlayers ≤ maxSeats := hm.rules ▸ hs.size
  have hhanded {turn : ℕ} (hround : m.table.bettingRound.isSome = true)
      (hable : turn ≠ noSeat → m.table.able turn = true)
      (ht : s'.table = m.table.withTurn turn) : Goes s s' := by
    refine ⟨?_, .inr ?_⟩
    · rw [ht]
      refine composed_withTurn hsize hround (hstage ▸ horder) ?_ ?_ hable
      · rwa [roundState_of_stage hstage]
      · rwa [roundState_of_stage hstage]
    · rw [ht]
      exact hm.trans (onward_withTurn turn)
  cases h with
  | ends _ h => exact endWithoutShowdown_goes hsize h
  | closes _ h =>
    obtain ⟨-, hround, ht, -⟩ := setCurrentTurn_eq_ok h
    exact hhanded hround (fun hne => absurd rfl hne) ht
  | passes _ h =>
    obtain ⟨-, hround, ht, -⟩ := setCurrentTurn_eq_ok h
    refine hhanded hround (fun hne => ?_) ht
    cases hnext : m.table.findNextActiveSeat (m.table.currentTurnOption.getD 0) with
    | none =>
      rw [hnext] at hne
      exact absurd rfl hne
    | some next => exact List.find?_some hnext

/-! ## Beats -/

omit [AddCommGroup G] [Protocol G] [DecidableEq G] in
/-- Blinds and antes of a hand in which nobody has folded. -/
theorem opening_onward {b a : Exec G} {bbSeat : ℕ} (hs : s.table.Composed)
    (hstage : s.table.stage = .dealing roundPreflop) (hb : s.postBlinds = .ok (b, bbSeat))
    (ha : b.collectAnte bbSeat = .ok a) : Onward s.table a.table ∧ a.table.stage = s.table.stage := by
  have hunfolded : ∀ i, (s.table.seats i).status ≠ .folded := fun i =>
    (hs.fresh (by rw [hstage]; decide) i).1
  let P (t : TexasPokerTable G) : Prop := (Onward s.table t ∧ t.handPhase = s.table.handPhase) ∧
    ∀ i, (t.seats i).status ≠ .folded
  have hpay {t : TexasPokerTable G} {k : Fin maxSeats} {p p' : PlayingSeat G} (hP : P t)
      (hk : t.seats k = .playing p) (hplayer : p'.occupied.player = p.occupied.player)
      (hpk : p'.occupied.pk = p.occupied.pk) (hhand : p'.hand = p.hand)
      (hbet : p.totalBet ≤ p'.totalBet) (hstatus : p'.status = .allIn ∨ p'.status = p.status) :
      P (t.setSeat k (.playing p')) := by
    obtain ⟨⟨ho, hphase⟩, hf⟩ := hP
    have hfold : p.status ≠ .folded := fun hp => hf k (by rw [hk]; simp [Seat.status, hp])
    refine ⟨⟨ho.trans (.of_stage rfl rfl rfl rfl (onward_setSeat rfl ?_) le_rfl), hphase⟩,
      fun i => ?_⟩
    · rw [hk]
      refine .plays hplayer hpk (hhand ▸ List.prefix_rfl) (.inr hhand) hbet fun hne => ?_
      rcases hstatus with hstatus | hstatus
      · cases hp : p.status with
        | allIn => exact hstatus
        | active => exact absurd hp hne
        | folded => exact absurd hp hfold
      · exact hstatus
    · by_cases hik : i = k
      · rw [hik, seats_setSeat_self]
        rcases hstatus with hstatus | hstatus <;>
          cases hp : p.status <;> simp [Seat.status, hstatus, hp] at hfold ⊢
      · rw [seats_setSeat_of_ne fun he => hik (Fin.ext he)]
        exact hf i
  obtain ⟨-, -, ht⟩ := postBlinds_eq_ok hb
  have hblinds : P b.table := by
    refine Fallible.foldlM_keeps (P := P) (fun c _ t t' hc hP => ?_) ht ⟨⟨?_, rfl⟩, hunfolded⟩
    · obtain ⟨k, p, -, hk, -, rfl⟩ := postBlind_eq_ok hc
      refine hpay hP hk rfl rfl rfl (Nat.le_add_right _ _) ?_
      change (if _ then _ else _) = _ ∨ (if _ then _ else _) = _
      split
      · exact .inl rfl
      · exact .inr rfl
    · exact ⟨rfl, le_rfl, List.prefix_rfl, List.prefix_rfl, fun _ => .refl _, fun _ => le_rfl⟩
  have hantes : P a.table := by
    obtain ⟨-, ⟨-, rfl⟩ | ⟨-, ht⟩⟩ := collectAnte_eq_ok ha
    · exact hblinds
    refine Fallible.foldlM_keeps (P := P) (fun c _ t t' hc hP => ?_) ht ?_
    · obtain ⟨k, p, -, hk, rfl⟩ := postAnte_eq_ok hc
      refine hpay hP hk rfl rfl rfl (Nat.le_add_right _ _) ?_
      change (if _ then _ else _) = _ ∨ (if _ then _ else _) = _
      split
      · exact .inl rfl
      · exact .inr rfl
    · obtain ⟨⟨ho, hphase⟩, hf⟩ := hblinds
      exact ⟨⟨ho.trans ⟨rfl, le_rfl, List.prefix_rfl, List.prefix_rfl, fun _ => .refl _,
        fun _ => le_rfl⟩, hphase⟩, hf⟩
  exact ⟨hantes.1.1, congrArg HandPhase.stage hantes.1.2⟩

omit [AddCommGroup G] [Protocol G] [DecidableEq G] in
theorem stage_of_revealed {t : TexasPokerTable G} {purpose : RevealPurpose}
    (h : t.Revealed purpose) : t.stage = .dealing t.roundState ∧
      t.revealTokenState = some ⟨purpose, []⟩ := by
  obtain ⟨street, d, hp⟩ := h
  rw [stage, roundState, TexasPokerTable.revealTokenState, hp]
  exact ⟨rfl, rfl⟩

omit [AddCommGroup G] [Protocol G] [DecidableEq G] in
/-- A betting round opens at the street that was dealt. -/
theorem opened_goes {turn : Option ℕ} {isPreflop : Bool} {bbSeat : Option ℕ}
    (hs : s.table.Composed) (hstage : s.table.stage = .dealing s.table.roundState)
    (hm : Onward s.table m.table) (hmstage : m.table.stage = s.table.stage)
    (hturn : turn = (m.table.bettingOpened isPreflop).firstToAct isPreflop bbSeat)
    (h : (m.withTable (m.table.bettingOpened isPreflop)).setCurrentTurn turn = .ok s') :
    Goes s s' := by
  obtain ⟨-, hround, ht, -⟩ := setCurrentTurn_eq_ok h
  have hr : m.table.roundState = s.table.roundState := roundState_of_stage hmstage
  have hfirst := hs.first fun hb => by rw [hb] at hstage; cases hstage
  have hopened : (m.table.bettingOpened isPreflop).stage = .betting s.table.roundState := by
    rw [← hr]
    cases isPreflop <;> rfl
  have hopenedRound : (m.table.bettingOpened isPreflop).roundState = s.table.roundState := by
    rw [← hr]
    cases isPreflop <;> rfl
  have hforward : Onward m.table (m.table.bettingOpened isPreflop) := by
    refine .of_later (by cases isPreflop <;> rfl) ?_ (by cases isPreflop <;> rfl) ?_ fun i => ?_
    · rw [hopened, hmstage, hstage]
      exact Nat.lt_succ_self _
    · cases isPreflop <;> exact List.prefix_rfl
    · cases isPreflop with
      | true => exact .refl _
      | false => exact .clearBet _
  refine ⟨?_, .inr ?_⟩
  · rw [ht]
    refine composed_withTurn ?_ hround ?_ ?_ ?_ fun hne => ?_
    · change (m.table.bettingOpened isPreflop).rules.maxPlayers ≤ maxSeats
      rw [hforward.rules, hm.rules]
      exact hs.size
    · change _ ≤ (m.table.bettingOpened isPreflop).stage.order
      rw [hopened]
      simp only [Stage.order]
      omega
    · exact hopenedRound ▸ hfirst
    · exact hopenedRound ▸ hs.last
    · cases hf : turn with
      | none =>
        rw [hf] at hne
        exact absurd rfl hne
      | some i => exact able_of_firstToAct (hturn ▸ hf)
  · rw [ht]
    exact hm.trans (hforward.trans (onward_withTurn _))

omit [AddCommGroup G] [Protocol G] [DecidableEq G] in
/-- The stage of the hand stays, and what a reveal is for. -/
theorem composed_of_stage {t t' : TexasPokerTable G} (h : t.Composed) (hr : t'.rules = t.rules)
    (hs : t'.stage = t.stage) (hheld : t'.isBettingRound = true → t'.currentTurn ≠ noSeat →
      t'.able t'.currentTurn = true)
    (hf : ∀ i, (t'.seats i).status = (t.seats i).status ∨ (t'.seats i).status = .out)
    (hd : ∀ reveal, t'.revealTokenState = some reveal → ∃ old, t.revealTokenState = some old ∧
      old.purpose = reveal.purpose) : t'.Composed where
  size := hr ▸ h.size
  held := hheld
  fresh hlt i := by
    rcases hf i with hi | hi <;> rw [hi]
    · exact h.fresh (hs ▸ hlt) i
    · exact ⟨by rintro ⟨⟩, by rintro ⟨⟩⟩
  first hin := by
    rw [roundState_of_stage hs]
    exact h.first fun hb => hin (hs.trans hb)
  last := by
    rw [roundState_of_stage hs]
    exact h.last
  dealt reveal hreveal := by
    obtain ⟨old, hold, hpurpose⟩ := hd reveal hreveal
    rw [roundState_of_stage hs]
    exact hpurpose ▸ h.dealt old hold

theorem Beat.goes (h : Beat s s') (hs : s.table.Composed) : Goes s s' := by
  have hsame (u : Exec G) (hu : u.table = s.table) : Goes s u :=
    ⟨hu ▸ hs, .inr (hu ▸ .refl _)⟩
  cases h with
  | notice _ => exact hsame _ rfl
  | clock ht =>
    refine .of_same ht.sameTurns hs ?_ ?_ fun i => ?_
    · rw [withTable_table, ht.rest]
    · rw [withTable_table, ht.rest]
    · rw [withTable_table, ht.seats]
      exact .refl _
  | noTurn _ h =>
    obtain ⟨-, hround, ht, -⟩ := setCurrentTurn_eq_ok h
    have hstage : s'.table.stage = s.table.stage := by
      rw [ht]
      exact HandPhase.stage_withTurn _ _
    have horder := stage_of_bettingRound hround
    refine ⟨⟨?_, fun _ hne => absurd ?_ hne, fun hlt => ?_, fun hin => ?_, ?_, fun r hr => ?_⟩, .inr ?_⟩
    · rw [ht]
      exact hs.size
    · rw [ht]
      exact currentTurn_withTurn hround
    · rw [ht]
      exact hs.fresh (hstage ▸ hlt)
    · rw [roundState_of_stage hstage]
      exact hs.first fun hb => hin (hstage.trans hb)
    · rw [roundState_of_stage hstage]
      exact hs.last
    · rw [dealing_of_reveal hr, horder] at hstage
      cases hstage
    · rw [ht]
      exact onward_withTurn _
  | closeRound hround hclosed hcol h =>
    rename_i c
    obtain ⟨hct, -⟩ := collectBetsToPot_eq_ok hcol
    have hsameTurns : c.table.stage = s.table.stage := by rw [hct]; rfl
    have hc : c.table.Composed := by
      rw [hct]
      refine ⟨hs.size, fun hb hne => ?_, fun hlt i => ?_, hs.first, hs.last, hs.dealt⟩
      · change (s.table.collected.seat s.table.currentTurn).isActionable = true
        have hstatus : (s.table.collected.seat s.table.currentTurn).status =
            (s.table.seat s.table.currentTurn).status := by
          unfold seat
          split
          · exact Seat.status_clearBet _
          · rfl
        rw [Seat.isActionable_congr hstatus]
        exact hs.held hb hne
      · change (s.table.seats i).clearBet.status ≠ _ ∧ (s.table.seats i).clearBet.status ≠ _
        rw [Seat.status_clearBet]
        exact hs.fresh hlt i
    refine (advanceRound_goes hc (by rw [hct]; exact hround) h).after ?_
    rw [hct]
    exact .of_stage rfl rfl rfl rfl (fun i => .clearBet _) le_rfl
  | ended _ h => exact endWithoutShowdown_goes hs.size h
  | openPreflop hrev hb ha h =>
    obtain ⟨hstage, hreveal⟩ := stage_of_revealed hrev
    have hpreflop : s.table.roundState = roundPreflop := hs.dealt _ hreveal
    obtain ⟨honward, hsame⟩ := opening_onward hs (hpreflop ▸ hstage) hb ha
    exact opened_goes hs hstage honward hsame rfl h
  | openStreet hrev h =>
    exact opened_goes hs (stage_of_revealed hrev).1 (.refl _) rfl rfl h
  | display hrev =>
    obtain ⟨hstage, -⟩ := stage_of_revealed hrev
    refine .of_dealing roundShowdown hs ⟨rfl, rfl, rfl, rfl, ⟨rfl, rfl, rfl⟩⟩ rfl ?_
      (by decide) le_rfl rfl List.prefix_rfl fun r hr => ?_
    · rw [hstage]
      have := hs.last
      simp only [Stage.order]
      omega
    · cases hr
  | passShuffle h => exact (advanceShuffle_eq_ok h).goes hs
  | completeReconstruct _ h => exact onCompleteReconstruct_goes h hs
  | submitShuffle _ h =>
    obtain ⟨phase, _, _, _, m, hp, -, -, -, -, -, -, ht, -, h⟩ := applySubmitShuffleV2_eq_ok h
    have hstage : m.table.stage = s.table.stage := by
      rw [stage, stage, ht, hp]
      cases phase <;> rfl
    have hm : m.table.Composed := by
      refine composed_of_stage hs (by rw [ht]) hstage (fun hb => ?_) (fun i => .inl (by rw [ht]))
        fun reveal hr => ⟨reveal, ?_, rfl⟩
      · rw [isBettingRound, bettingRound, ht] at hb
        cases hb
      · rw [← hr, ht, TexasPokerTable.revealTokenState, TexasPokerTable.revealTokenState, hp]
        cases phase <;> rfl
    refine (h.goes hm).after (.of_stage (by rw [ht]) hstage (by rw [ht]) (by rw [ht]) (fun i => ?_) ?_)
    · rw [ht]
      exact .refl _
    · rw [price, price, bettingRound, bettingRound, ht, hp]
  | submitReconstruct h =>
    obtain ⟨street, state, reveal, e, d, _, _, _, m, hp, -, -, -, -, -, -, hcontributed, -, h⟩ :=
      applySubmitReconstructDeck_eq_ok h
    have hstage : m.table.stage = s.table.stage := by
      rw [stage, stage, hcontributed, hp]
      rfl
    have hm : m.table.Composed := by
      refine composed_of_stage hs (by rw [hcontributed]; rfl) hstage (fun hb => ?_)
        (fun i => .inl (by rw [hcontributed]; rfl)) fun r hr => ⟨r, ?_, rfl⟩
      · rw [isBettingRound, bettingRound, hcontributed] at hb
        cases hb
      · rw [← hr, hcontributed, TexasPokerTable.revealTokenState, hp]
        rfl
    have honward : Onward s.table m.table := by
      refine .of_stage ?_ hstage ?_ ?_ (fun i => ?_) ?_ <;> rw [hcontributed]
      · rfl
      · rfl
      · rfl
      · exact .refl _
      · rw [price, bettingRound, hp]
        exact Nat.zero_le _
    rcases h with rfl | ⟨-, h⟩
    · exact ⟨hm, .inr honward⟩
    · exact (onCompleteReconstruct_goes h hm).after honward
  | act hb hturn hi hact hgo => exact hgo.goes hact hs hb hturn hi
  | askLeave h =>
    obtain ⟨-, -, rfl | ht⟩ := applySetLeaveAfterHand_eq_ok h
    · exact .refl hs
    · have hset (i : ℕ) (wants : Bool) : SameTurns s.table (s.table.setSeatWantsLeave i wants) :=
        ⟨rfl, rfl, rfl, fun _ => rfl, fun _ => rfl⟩
      refine .of_same (ht ▸ hset _ _) hs ?_ ?_ fun i => ?_ <;> rw [ht]
      · rfl
      · rfl
      · exact .refl _
  | timeBank h =>
    obtain ⟨hocc, -, ht⟩ := consumeTimeBank_eq_ok h
    obtain ⟨k, rfl, hk⟩ := isOccupied_seat hocc
    rw [hk] at ht hocc
    have hbank (n : ℕ) : ((s.table.seats k).setTimeBankMs n).bet = (s.table.seats k).bet := by
      cases s.table.seats k <;> rfl
    have hsameTurns : SameTurns s.table s'.table := by
      refine .of_seat ?_ ?_ ?_ (congrArg TexasPokerTable.seats ht) (Seat.status_setTimeBankMs _)
        (hbank _) <;> rw [ht] <;> rfl
    refine .of_same hsameTurns hs ?_ ?_
      (onward_setSeat (congrArg TexasPokerTable.seats ht) (.setTimeBankMs _ _ hocc)) <;> rw [ht] <;> rfl
  | settle _ h =>
    rcases settleHand_eq_ok h with rfl | ⟨plan, m, hm, h⟩
    · exact .refl hs
    · obtain ⟨-, -, -, ht, -⟩ := applySettlementPlan_eq_ok hm
      refine resetForNextHand_goes ?_ h
      rw [ht]
      exact hs.size
  | kick hk h =>
    rcases kickSeatRaw_eq_ok h with ⟨-, rfl⟩ | ⟨k, rfl, hkick⟩
    · exact .refl hs
    have hstage : (s.table.kicked k).stage = s.table.stage := HandPhase.stage_removeSeat _ _
    constructor <;> rw [hkick.table]
    · refine composed_of_stage hs rfl hstage (fun hb hne => ?_) (fun i => ?_) fun reveal hr => ?_
      · rw [isBettingRound_kicked] at hb
        have hact := actsOn_kicked (k := k) hb
        rw [hact.turn] at hne ⊢
        rw [able, seat_kicked fun he => hk ⟨he, hb⟩]
        exact hs.held hb hne
      · by_cases hik : i = k
        · refine .inr ?_
          rw [hik]
          change ((s.table.setSeat k (s.table.seats k).departed).seats k).status = _
          have hocc := hkick.occupied
          rw [seats_setSeat_self]
          cases hseat : s.table.seats k <;> rw [hseat] at hocc <;> first | rfl | cases hocc
        · have hseat := seat_kicked (t := s.table) (k := k) (j := i) fun he => hik (Fin.ext he)
          rw [seat_val, seat_val] at hseat
          exact .inl (by rw [hseat])
      · have hphase : (s.table.kicked k).handPhase = s.table.handPhase.removeSeat k := rfl
        rw [TexasPokerTable.revealTokenState, hphase] at hr
        rw [TexasPokerTable.revealTokenState]
        cases hp : s.table.handPhase with
        | shuffling phase =>
          rw [hp] at hr
          cases phase <;> cases hr
          exact ⟨_, rfl, rfl⟩
        | _ =>
          rw [hp] at hr
          cases hr <;> exact ⟨_, rfl, rfl⟩
    · exact .inr (.of_stage rfl hstage rfl rfl (onward_setSeat rfl (.departed _ hkick.occupied))
        (price_kicked k).ge)
  | reset h => exact resetForNextHand_goes hs.size h
  | refundReset hm h =>
    refine resetForNextHand_goes ?_ h
    rw [(refundAllBets_eq_ok hm).1]
    exact hs.size
  | suspend h =>
    obtain ⟨hp, reveal, d, hr, -, ht⟩ := startReconstruct_eq_ok h
    refine .of_still hs (startReconstruct_still h) (dealing_of_reveal hr)
      (by rw [dealing_of_reveal hr, ht]; rfl) (by rw [ht]) (by rw [ht]) fun r hreveal => ?_
    rw [ht] at hreveal
    cases hreveal
    exact hs.dealt _ hr
  | rebuild hp h =>
    have hstill := rebuildDeckAndShuffleOnTimeout_still h
    obtain ⟨-, ⟨-, reveal, hr, -, ht⟩ | ⟨hne, ht⟩⟩ := rebuildDeckAndShuffleOnTimeout_eq_ok h
    · refine .of_still hs hstill (dealing_of_reveal hr) (by rw [dealing_of_reveal hr, ht]; rfl)
        (by rw [ht]; rfl) (by rw [ht]; rfl) fun r hreveal => ?_
      rw [ht] at hreveal
      cases hreveal
      exact hs.dealt _ hr
    · have hbetween : s.table.stage = .between :=
        stage_of_shufflePhase.1 ((shufflePhase_cases s.table).resolve_left hp |>.resolve_left hne)
      have hstage : s'.table.stage = s.table.stage := by
        rw [hbetween, ht]
        rfl
      refine ⟨composed_of_stage hs hstill.rules hstage (fun hb => ?_)
        (fun i => .inl (by rw [hstill.seats])) fun r hreveal => ?_,
        .inr (.of_stage hstill.rules hstage (by rw [ht]; rfl) (by rw [ht]; rfl) (fun i => ?_) ?_)⟩
      · rw [isBettingRound, bettingRound, ht] at hb
        cases hb
      · rw [ht] at hreveal
        cases hreveal
      · rw [hstill.seats]
        exact .refl _
      · rw [price_of_not_betting fun st hst => by rw [hbetween] at hst; cases hst]
        exact Nat.zero_le _

theorem Beat.waiting (h : Beat s s') (hw : s.table.handPhase = .waiting) :
    s'.table.handPhase = .waiting := by
  have hround (hr : s.table.bettingRound.isSome = true) : s'.table.handPhase = .waiting :=
    absurd hw (not_waiting_of_betting hr)
  cases h with
  | notice _ => exact hw
  | clock ht => exact ht.waiting hw
  | noTurn _ h => exact hround (setCurrentTurn_eq_ok h).2.1
  | closeRound hr _ _ _ => exact hround hr
  | ended _ h => exact (endWithoutShowdown_loses h).2.phase
  | openPreflop hrev _ _ _ => exact absurd hw (not_waiting_of_revealed hrev)
  | openStreet hrev _ => exact absurd hw (not_waiting_of_revealed hrev)
  | display hrev => exact absurd hw (not_waiting_of_revealed hrev)
  | passShuffle h =>
    by_contra hne
    exact ((advanceShuffle_eq_ok h).proceeds.members hne).1 hw
  | completeReconstruct _ h =>
    by_contra hne
    exact ((onCompleteReconstruct_proceeds h).members hne).1 hw
  | submitShuffle _ h =>
    by_contra hne
    exact ((applySubmitShuffleV2_proceeds h).members hne).1 hw
  | submitReconstruct h =>
    obtain ⟨_, _, _, _, _, _, _, _, _, hp, -⟩ := applySubmitReconstructDeck_eq_ok h
    rw [hw] at hp
    cases hp
  | act hb _ _ _ _ => exact hround (Bool.and_eq_true_iff.mp hb).1
  | askLeave h =>
    obtain ⟨-, -, rfl | ht⟩ := applySetLeaveAfterHand_eq_ok h
    · exact hw
    · rw [ht]
      exact hw
  | timeBank h =>
    rw [(consumeTimeBank_eq_ok h).2.2]
    exact hw
  | settle hround _ => exact absurd hw (not_waiting_of_round (by rw [hround]; decide))
  | kick _ h =>
    rcases kickSeatRaw_eq_ok h with ⟨-, rfl⟩ | ⟨k, -, hkick⟩
    · exact hw
    · rw [hkick.table]
      change s.table.handPhase.removeSeat k = .waiting
      rw [hw]
      rfl
  | reset h => exact (resetForNextHand_loses h).2.phase
  | refundReset _ h => exact (resetForNextHand_loses h).2.phase
  | suspend h =>
    obtain ⟨-, _, _, hr, -⟩ := startReconstruct_eq_ok h
    exact absurd hw (not_waiting_of_reveal hr)
  | rebuild hp _ => exact absurd hw (not_waiting_of_shufflePhase hp)

theorem Beats.waiting (h : Beats s s') (hw : s.table.handPhase = .waiting) :
    s'.table.handPhase = .waiting :=
  h.keeps (P := fun u => u.table.handPhase = .waiting) (fun hb hu => hb.waiting hu) hw

theorem Beat.cleared (h : Beat s s') (hs : s.table.Composed) (hw : s.table.Cleared) :
    s'.table.Cleared :=
  (h.goes hs).onward.elim id fun ho => ho.cleared hw (h.waiting hw.phase)

theorem Beats.goes (h : Beats s s') (hs : s.table.Composed) : Goes s s' := by
  induction h with
  | refl => exact .refl hs
  | tail _ hb ih =>
    refine ⟨(hb.goes ih.composed).composed, ?_⟩
    rcases ih.onward with hw | hm
    · exact .inl (hb.cleared ih.composed hw)
    · exact ((hb.goes ih.composed).after hm).onward

/-! ## Reveal tokens -/

omit [AddCommGroup G] [Protocol G] [DecidableEq G] in
theorem pushShowdownCard_onward {entry : ℕ × ℕ × ℕ × Card} (hshows : s.table.Shows)
    (h : pushShowdownCard s entry = .ok s') : Onward s.table s'.table := by
  simp only [pushShowdownCard, Fallible.bind_eq_ok, Fallible.ensure_eq_ok, labelled_eq_ok] at h
  obtain ⟨_, hlt, _, -, p, hp, hand, hpush, ledger, -, h⟩ := h
  have hseat : s.table.seats ⟨entry.1, hlt⟩ = .playing p := by
    rw [← seat_val]
    unfold Seat.playingMut at hp
    split at hp <;> cases hp
    assumption
  have hslot : (s.table.seats ⟨entry.1, hlt⟩).Onward s.table.Shows (.playing { p with hand }) := by
    rw [hseat]
    refine .plays rfl rfl ?_ (.inl hshows) le_rfl fun _ => rfl
    rw [(CardSlots.tryPush_eq_ok hpush).2]
    exact List.prefix_append _ _
  split at h <;> cases h <;> exact .of_stage rfl rfl rfl rfl (onward_setSeat rfl hslot) le_rfl

omit [AddCommGroup G] [Protocol G] [DecidableEq G] in
theorem pushBoardCard_onward {t t' : TexasPokerTable G} {entry : ℕ × ℕ × Card}
    (h : pushBoardCard t entry = .ok t') : Onward t t' := by
  unfold pushBoardCard at h
  split at h
  · simp only [Fallible.bind_eq_ok, labelled_eq_ok] at h
    obtain ⟨board, hpush, h⟩ := h
    cases h
    refine ⟨rfl, le_rfl, ?_, List.prefix_rfl, fun _ => .refl _, fun _ => le_rfl⟩
    rw [(CardSlots.tryPush_eq_ok hpush).2]
    exact List.prefix_append _ _
  · split at h
    · cases h
    rename_i hrunout
    simp only [Fallible.bind_eq_ok, labelled_eq_ok] at h
    obtain ⟨suffix, hpush, h⟩ := h
    cases h
    refine ⟨rfl, le_rfl, List.prefix_rfl, ?_, fun _ => .refl _, fun _ => le_rfl⟩
    rw [hrunout]
    change _ <+: suffix.cards
    rw [(CardSlots.tryPush_eq_ok hpush).2]
    exact List.prefix_append _ _

omit [Protocol G] [DecidableEq G] in
theorem materializeHole_onward {t t' : TexasPokerTable G} {a : RevealAssignment G}
    (h : t.materializeHole a = .ok t') : Onward t t' := by
  unfold materializeHole at h
  split at h
  · cases h
  · simp only [Fallible.bind_eq_ok] at h
    obtain ⟨_, -, _, -, ledger, -, h⟩ := h
    cases h
    exact .of_stage rfl rfl rfl rfl (fun _ => .refl _) le_rfl

theorem Writes.onward {reveal : RevealTokenState G}
    (hshows : reveal.purpose = .showdownOwner → s.table.Shows) (h : Writes reveal s s') :
    Onward s.table s'.table := by
  cases h with
  | hole _ h =>
    exact Fallible.foldlM_keeps (P := Onward s.table)
      (fun _ _ _ _ h ht => ht.trans (materializeHole_onward h)) h (.refl _)
  | board _ _ h =>
    simp only [materializeCommunity, Fallible.bind_eq_ok] at h
    obtain ⟨_, -, scan, -, t, ht, h⟩ := h
    cases h
    exact Fallible.foldlM_keeps (P := Onward s.table)
      (fun _ _ _ _ h ht => ht.trans (pushBoardCard_onward h)) ht (.refl _)
  | showdown hp h =>
    simp only [materializeShowdown, Fallible.bind_eq_ok] at h
    obtain ⟨_, -, cards, -, h⟩ := h
    exact Fallible.foldlM_keeps (P := fun u : Exec G => Onward s.table u.table)
      (fun _ _ _ _ h hu => hu.trans (pushShowdownCard_onward ((hshows hp).trans hu.stage) h)) h
      (.refl _)

omit [AddCommGroup G] [Protocol G] [DecidableEq G] in
theorem onward_withReveal {t : TexasPokerTable G} {street d d' : ℕ} {reveal reveal' : RevealTokenState G}
    (hp : t.handPhase = .revealing street reveal d) : Onward t (t.withReveal street reveal' d') := by
  refine .of_stage rfl ?_ rfl rfl (fun _ => .refl _) ?_
  · rw [stage, stage, hp]
    rfl
  · rw [price, bettingRound, hp]
    exact Nat.zero_le _

theorem GivesTokens.onward {i : ℕ} {tokens : List G} (h : GivesTokens s s' i tokens)
    (hs : s.table.Composed) : Onward s.table s'.table := by
  cases h with
  | waits hp _ _ ht _ =>
    rw [ht]
    exact onward_withReveal hp
  | @writes street d reveal m w hp _ hm _ hw ht _ =>
    obtain ⟨ledger, hrest⟩ := hw.writesCards.1.rest
    have hphase : w.table.handPhase = .revealing street (recorded i tokens reveal) d := by
      rw [hrest, hm]
      rfl
    have hmid : Onward s.table m.table := hm ▸ onward_withReveal hp
    have hshows (hpurpose : (recorded i tokens reveal).purpose = .showdownOwner) :
        m.table.Shows := by
      have hr : s.table.revealTokenState = some reveal := by
        rw [TexasPokerTable.revealTokenState, hp]
      have hstreet : s.table.roundState = roundShowdown := by
        have hfits := hs.dealt _ hr
        rwa [show reveal.purpose = .showdownOwner from hpurpose] at hfits
      refine le_trans ?_ hmid.stage
      rw [dealing_of_reveal hr, hstreet]
    rw [ht]
    exact hmid.trans ((hw.onward hshows).trans (onward_withReveal hphase))

/-- A reveal keeps its purpose while tokens are given. -/
theorem GivesTokens.purpose {i : ℕ} {tokens : List G} (h : GivesTokens s s' i tokens)
    {reveal : RevealTokenState G} (hr : s'.table.revealTokenState = some reveal) :
    ∃ old, s.table.revealTokenState = some old ∧ old.purpose = reveal.purpose := by
  cases h with
  | @waits _ _ old hp _ _ ht _ =>
    rw [ht] at hr
    cases hr
    exact ⟨old, by rw [TexasPokerTable.revealTokenState, hp], rfl⟩
  | @writes _ _ old _ _ hp _ _ _ _ ht _ =>
    rw [ht] at hr
    cases hr
    exact ⟨old, by rw [TexasPokerTable.revealTokenState, hp], rfl⟩

theorem GivesTokens.goes {i : ℕ} {tokens : List G} (h : GivesTokens s s' i tokens)
    (hs : s.table.Composed) : Goes s s' := by
  refine ⟨composed_of_stage hs h.sameChips.rules h.stage (fun hb => ?_) (fun k => .inl ?_)
    fun _ hr => h.purpose hr, .inr (h.onward hs)⟩
  · obtain ⟨_, _, _, hp⟩ := h.handPhase
    rw [isBettingRound, bettingRound, hp] at hb
    cases hb
  · exact Seat.status_of_withoutHand (h.sameChips.slots k)

/-! ## Calls -/

omit [AddCommGroup G] [Protocol G] [DecidableEq G] in
theorem applyFundSeat_goes {i amount : ℕ} {timing : FundTiming}
    (h : s.applyFundSeat i amount timing = .ok s') (hs : s.table.Composed) : Goes s s' := by
  obtain ⟨k, x, -, -, -, hx, ht, -⟩ := applyFundSeat_eq_ok h
  have hseats : s'.table.seats = (s.table.setSeat k x).seats := by rw [ht]
  have hsame : x.status = (s.table.seats k).status ∧ x.bet = (s.table.seats k).bet ∧
      ∀ opens, (s.table.seats k).Onward opens x := by
    rcases hx with ⟨-, hx⟩ | ⟨-, hx⟩
    · obtain ⟨hstatus, -, hbet⟩ := Seat.setPendingAddon_same hx
      exact ⟨hstatus, hbet, fun _ => .setPendingAddon hx⟩
    · have honward (opens : Prop) : (s.table.seats k).Onward opens x := .setStack hx
      refine ⟨?_, ?_, honward⟩ <;> cases hseat : s.table.seats k <;> rw [hseat] at hx <;>
        simp only [Seat.setStack] at hx <;> first
          | (cases hx; rfl)
          | (split at hx <;> cases hx; rfl)
  refine .of_same (.of_seat ?_ ?_ ?_ hseats hsame.1 hsame.2.1) hs ?_ ?_
    (onward_setSeat hseats (hsame.2.2 _)) <;> rw [ht] <;> rfl

omit [AddCommGroup G] [Protocol G] [DecidableEq G] in
/-- Between hands nobody has folded or is all in. -/
theorem composed_of_between {t : TexasPokerTable G} (hsize : t.rules.maxPlayers ≤ maxSeats)
    (hs : t.stage = .between) (hf : ∀ i, (t.seats i).status ≠ .folded ∧ (t.seats i).status ≠ .allIn)
    (hl : t.roundState ≤ roundShowdown) : t.Composed where
  size := hsize
  held hb := by
    rw [not_betting_of_stage fun st hst => by rw [hs] at hst; cases hst] at hb
    cases hb
  fresh _ := hf
  first hin := absurd hs hin
  last := hl
  dealt reveal hr := by
    rw [dealing_of_reveal hr] at hs
    cases hs

omit [AddCommGroup G] [Protocol G] [DecidableEq G] in
theorem between_of_canJoinState {t : TexasPokerTable G} (ht : t.Composed)
    (h : t.canJoinState = true) : t.stage = .between := by
  by_contra hin
  have hfirst := ht.first hin
  rw [show t.roundState = roundWaiting from of_decide_eq_true h] at hfirst
  exact absurd hfirst (by decide)

omit [AddCommGroup G] [Protocol G] [DecidableEq G] in
/-- A slot is given or taken between hands. -/
theorem composed_setSeat {t t' : TexasPokerTable G} {k : Fin maxSeats} {x : Seat G}
    (ht : t.Composed) (hjoin : t.canJoinState = true) (hr : t'.rules = t.rules)
    (hp : t'.handPhase = t.handPhase) (hs : t'.seats = (t.setSeat k x).seats)
    (hx : x.status ≠ .folded ∧ x.status ≠ .allIn) : t'.Composed := by
  have hbetween := between_of_canJoinState ht hjoin
  have hstage : t'.stage = t.stage := congrArg HandPhase.stage hp
  refine composed_of_between (hr ▸ ht.size) (hstage.trans hbetween) (fun i => ?_) ?_
  · rw [hs]
    by_cases hik : i = k
    · rw [hik, seats_setSeat_self]
      exact hx
    · rw [seats_setSeat_of_ne fun he => hik (Fin.ext he)]
      exact ht.fresh (by rw [hbetween]; decide) i
  · rw [roundState_of_stage hstage]
    exact ht.last

omit [AddCommGroup G] [Protocol G] [DecidableEq G] in
theorem concealed_setSeat {t t' : TexasPokerTable G} {k : Fin maxSeats} {x : Seat G}
    (ht : t.Composed) (hc : t.Concealed) (hjoin : t.canJoinState = true)
    (hs : t'.seats = (t.setSeat k x).seats) (hx : x.cards = []) : t'.Concealed := by
  intro _ i
  have hnone : ¬ t.Shows := by
    rw [Shows, between_of_canJoinState ht hjoin]
    decide
  rw [hs]
  by_cases hik : i = k
  · rw [hik, seats_setSeat_self]
    exact hx
  · rw [seats_setSeat_of_ne fun he => hik (Fin.ext he)]
    exact hc hnone i

omit [DecidableEq G] in
theorem startHand_composed (h : s.startHand = .ok s') (hs : s.table.Composed) :
    s'.table.Composed ∧ (s.table.Concealed → s'.table.Concealed) := by
  obtain ⟨hround, -, m, ht, -, h⟩ := startHand_eq_ok h
  have hpromotes := promotes_seated (t := s.table)
  have hbetween := between_of_canJoinState hs (decide_eq_true hround)
  have hfresh := hs.fresh (by rw [hbetween]; decide)
  have hm : m.table.Composed := by
    refine composed_of_between ?_ (by rw [ht]; rfl) (fun i => ?_) (by rw [ht]; exact Nat.zero_le _)
    · rw [ht]
      change (seated s.table).rules.maxPlayers ≤ maxSeats
      rw [hpromotes.rules]
      exact hs.size
    · rw [ht]
      change ((seated s.table).seats i).status ≠ _ ∧ ((seated s.table).seats i).status ≠ _
      rcases hpromotes.seats i with hi | hi <;> rw [hi]
      · exact hfresh i
      · have := hfresh i
        cases hseat : s.table.seats i <;> rw [hseat] at this <;>
          first | exact this | exact ⟨by rintro ⟨⟩, by rintro ⟨⟩⟩
  refine ⟨(h.goes hm).composed, fun hc => (h.goes hm).concealed fun _ i => ?_⟩
  have hnone := hc (by rw [Shows, hbetween]; decide) i
  rw [ht]
  change ((seated s.table).seats i).cards = []
  rcases hpromotes.seats i with hi | hi <;> rw [hi]
  · exact hnone
  · cases hseat : s.table.seats i <;> rw [hseat] at hnone <;> exact hnone

theorem Ran.composed {context : DispatchContext} {args : Bytes} {command : CanonicalCommand}
    (h : Ran context args s command s') (hs : s.table.Composed) : s'.table.Composed := by
  cases h with
  | create h =>
    simp only [applyCreateTable, Fallible.bind_eq_ok, Fallible.ensure_eq_ok] at h
    obtain ⟨_, hmax, _, -, _, -, _, -, h⟩ := h
    cases h
    exact composed_of_between hmax.2 rfl (fun _ => ⟨by rintro ⟨⟩, by rintro ⟨⟩⟩) (Nat.zero_le _)
  | join _ h =>
    obtain ⟨hjoin, -, -, -, k, o, -, -, -, -, -, -, ht, -⟩ := applyJoinTable_eq_ok h
    refine composed_setSeat (k := k) (x := .waiting o) hs hjoin ?_ ?_ ?_
      ⟨by rintro ⟨⟩, by rintro ⟨⟩⟩ <;> rw [ht] <;> rfl
  | leave h =>
    obtain ⟨hleave, k, -, -, -, ht, -⟩ := applyLeaveTable_eq_ok h
    refine composed_setSeat (k := k) (x := .empty) hs hleave ?_ ?_ ?_
      ⟨by rintro ⟨⟩, by rintro ⟨⟩⟩ <;> rw [ht] <;> rfl
  | start h => exact (startHand_composed h hs).1
  | tokens hgives hbeats => exact (hbeats.goes (hgives.goes hs).composed).composed
  | fund _ h => exact (applyFundSeat_goes h hs).composed
  | beats h => exact (h.goes hs).composed

/-- A command opens no hole card before the showdown. -/
theorem Ran.concealed {context : DispatchContext} {args : Bytes} {command : CanonicalCommand}
    (h : Ran context args s command s') (hs : s.table.Composed) (hc : s.table.Concealed) :
    s'.table.Concealed := by
  cases h with
  | create h =>
    simp only [applyCreateTable, Fallible.bind_eq_ok, Fallible.ensure_eq_ok] at h
    obtain ⟨_, -, _, -, _, -, _, -, h⟩ := h
    cases h
    exact fun _ _ => rfl
  | join _ h =>
    obtain ⟨hjoin, -, -, -, k, o, -, -, -, -, -, -, ht, -⟩ := applyJoinTable_eq_ok h
    exact concealed_setSeat (k := k) (x := .waiting o) hs hc hjoin (by rw [ht]) rfl
  | leave h =>
    obtain ⟨hleave, k, -, -, -, ht, -⟩ := applyLeaveTable_eq_ok h
    exact concealed_setSeat (k := k) (x := .empty) hs hc hleave (by rw [ht]) rfl
  | start h => exact (startHand_composed h hs).2 hc
  | tokens hgives hbeats =>
    exact (hbeats.goes (hgives.goes hs).composed).concealed ((hgives.onward hs).concealed hc)
  | fund _ h => exact (applyFundSeat_goes h hs).concealed hc
  | beats h => exact (h.goes hs).concealed hc

/-- In a hand, a command takes it on or ends it. -/
theorem Ran.onward {context : DispatchContext} {args : Bytes} {command : CanonicalCommand}
    (h : Ran context args s command s') (hs : s.table.Composed) (hin : s.table.InHand) :
    s'.table.Cleared ∨ Onward s.table s'.table := by
  have hclosed (hjoin : s.table.canJoinState = true) :
      s'.table.Cleared ∨ Onward s.table s'.table :=
    absurd (between_of_canJoinState hs hjoin) hin
  cases h with
  | create h =>
    simp only [applyCreateTable, Fallible.bind_eq_ok, Fallible.ensure_eq_ok] at h
    obtain ⟨_, -, _, -, _, -, _, -, h⟩ := h
    cases h
    exact .inl ⟨rfl, fun _ => rfl⟩
  | join _ h => exact hclosed (applyJoinTable_eq_ok h).1
  | leave h => exact hclosed (applyLeaveTable_eq_ok h).1
  | start h => exact hclosed (decide_eq_true (startHand_eq_ok h).1)
  | tokens hgives hbeats =>
    have hm := hgives.goes hs
    exact ((hbeats.goes hm.composed).after (hgives.onward hs)).onward
  | fund _ h => exact (applyFundSeat_goes h hs).onward
  | beats h => exact (h.goes hs).onward

/-- Between hands only a start leaves the table's rest. -/
theorem Ran.waiting {context : DispatchContext} {args : Bytes} {command : CanonicalCommand}
    (h : Ran context args s command s') (hc : command ≠ .startHand)
    (hw : s.table.handPhase = .waiting) : s'.table.handPhase = .waiting := by
  cases h with
  | create h =>
    simp only [applyCreateTable, Fallible.bind_eq_ok, Fallible.ensure_eq_ok] at h
    obtain ⟨_, -, _, -, _, -, _, -, h⟩ := h
    cases h
    rfl
  | join _ h =>
    obtain ⟨-, -, -, -, k, o, -, -, -, -, -, -, ht, -⟩ := applyJoinTable_eq_ok h
    rw [ht]
    exact hw
  | leave h =>
    obtain ⟨-, k, -, -, -, ht, -⟩ := applyLeaveTable_eq_ok h
    rw [ht]
    exact hw
  | start _ => exact absurd rfl hc
  | tokens hgives _ => cases hgives <;> simp_all
  | fund _ h =>
    obtain ⟨k, x, -, -, -, -, ht, -⟩ := applyFundSeat_eq_ok h
    rw [ht]
    exact hw
  | beats h => exact h.waiting hw

/-- An accepted call of a composed table leaves a composed one and opens no hole card early; a
hand is taken on or ended, and a table at rest stays so until the next hand is counted. -/
theorem call_goes {c : Call} (h : s.call c = .ok s') (hs : s.table.Composed) :
    s'.table.Composed ∧ (s.table.Concealed → s'.table.Concealed) ∧
      (s.table.InHand → s'.table.handPhase = .waiting ∨ Onward s.table s'.table) ∧
      (s.table.handPhase = .waiting → s'.table.handPhase = .waiting ∨
        s.table.handId < s'.table.handId) := by
  obtain ⟨command, m, n, u, hc, -, hran, hbeats, -, hu, hcount⟩ := call_ran h
  have hm := hran.composed hs
  have hn := hbeats.goes hm
  have hcounted : SameTurns u s'.table := by
    refine ⟨?_, ?_, ?_, fun i => ?_, fun i => ?_⟩ <;> rw [hcount.rest]
  have honward : Onward n.table s'.table := by
    refine (hu.sameTurns.onward ?_ ?_ fun i => ?_).trans (hcounted.onward ?_ ?_ fun i => ?_)
    · rw [hu.rest]
    · rw [hu.rest]
    · rw [hu.seats]
      exact .refl _
    · rw [hcount.rest]
    · rw [hcount.rest]
    · rw [hcount.rest]
      exact .refl _
  have hphase (hw : n.table.handPhase = .waiting) : s'.table.handPhase = .waiting := by
    rw [hcount.rest]
    exact hu.waiting hw
  refine ⟨hcounted.composed (hu.sameTurns.composed hn.composed),
    fun hc => honward.concealed (hn.concealed (hran.concealed hs hc)), fun hin => ?_, fun hw => ?_⟩
  · rcases hran.onward hs hin with hw | hm
    · exact .inl (hphase (hbeats.waiting hw.phase))
    · exact (hn.after hm).onward.imp (fun hw => hphase hw.phase) fun h => h.trans honward
  · by_cases hcmd : command = .startHand
    · obtain ⟨-, ⟨-, hne⟩ | ⟨-, hid⟩⟩ := call_hands h hc
      · exact absurd hcmd hne
      · rw [if_pos hcmd] at hid
        exact .inr (by omega)
    · exact .inl (hphase (hbeats.waiting (hran.waiting hcmd hw)))

theorem composed_isInvariant : (session G).IsInvariant fun s => s.table.Composed where
  init s hi := by
    obtain ⟨id, creator, rules, hr, rfl⟩ := hi
    simp only [TableRules.validateCanonical, Fallible.bind_eq_ok, Fallible.ensure_eq_ok] at hr
    obtain ⟨_, hmax, -⟩ := hr
    exact composed_of_between hmax.2 rfl (fun _ => ⟨by rintro ⟨⟩, by rintro ⟨⟩⟩) (Nat.zero_le _)
  next _ _ _ _ hs h := (call_goes h hs).1

/-- Two states of a run inside one hand: the later one is onward of the earlier one. -/
theorem onward_of_handId {steps : List (TransitionSystem.Step (Exec G) Call)}
    (hs : (session G).Reachable s) (h : (session G).Run s steps s') (hin : s.table.InHand)
    (hin' : s'.table.InHand) (hid : s'.table.handId = s.table.handId) :
    Onward s.table s'.table := by
  have hrun : s'.table.Composed ∧ s.table.handId ≤ s'.table.handId ∧
      (Onward s.table s'.table ∨ s'.table.handPhase = .waiting ∨
        s.table.handId < s'.table.handId) := by
    clear hin' hid
    induction h with
    | nil => exact ⟨composed_isInvariant.of_reachable hs, le_rfl, .inl (.refl _)⟩
    | @snoc _ m u _ _ hnext ih =>
      obtain ⟨hcomposed, hle, hwhere⟩ := ih
      obtain ⟨hnew, -, hhand, hrest⟩ := call_goes hnext hcomposed
      have hgrow : m.table.handId ≤ u.table.handId := by
        have := call_counts hnext
        omega
      refine ⟨hnew, hle.trans hgrow, ?_⟩
      rcases hwhere with honward | hw | hlt
      · rcases hhand (honward.inHand hin) with hw | h
        · exact .inr (.inl hw)
        · exact .inl (honward.trans h)
      · exact .inr ((hrest hw).imp id hle.trans_lt)
      · exact .inr (.inr (hlt.trans_le hgrow))
  rcases hrun.2.2 with h | hw | hlt
  · exact h
  · refine absurd ?_ hin'
    rw [stage, hw]
    rfl
  · omega

/-! ## Hole cards -/

omit [AddCommGroup G] [Protocol G] [DecidableEq G] in
theorem roundState_of_shows {t : TexasPokerTable G} (h : t.Composed) (hs : t.Shows) :
    t.roundState = roundShowdown := by
  have hl := h.last
  have hstreet : roundShowdown ≤ t.roundState := by
    unfold Shows stage at hs
    unfold roundState
    cases hp : t.handPhase with
    | shuffling phase => cases phase <;> rw [hp] at hs <;>
        simp only [HandPhase.stage, Stage.order, ShufflingPhase.street] at * <;> omega
    | showdownDisplay _ => exact le_rfl
    | _ =>
      rw [hp] at hs
      simp only [HandPhase.stage, Stage.order] at *
      omega
  exact le_antisymm hl hstreet

/-- Until the showdown no hole card is in the open. -/
theorem concealed_isInvariant : (session G).IsInvariant fun s =>
    s.table.roundState ≠ roundShowdown → ∀ i, (s.table.seats i).cards = [] := by
  have h : (session G).IsInvariant fun s => s.table.Composed ∧ s.table.Concealed := {
    init := fun s hi => by
      refine ⟨composed_isInvariant.init s hi, ?_⟩
      obtain ⟨id, creator, rules, -, rfl⟩ := hi
      exact fun _ _ => rfl
    next := fun _ _ _ _ hs h => ⟨(call_goes h hs.1).1, (call_goes h hs.1).2.1 hs.2⟩ }
  exact h.imp fun s _ hs hround => hs.2 fun hshows => hround (roundState_of_shows hs.1 hshows)

end Exec

namespace Transparent

open TexasPokerTable

theorem play_run {s s' : Exec ℤ} {steps : List ClientStep} (h : play s steps = .ok s') :
    ∃ l, (session ℤ).Run s l s' :=
  Fallible.foldlM_keeps (P := fun u => ∃ l, (session ℤ).Run s l u)
    (fun _ _ _ _ hcall ⟨_, hrun⟩ => ⟨_, .snoc hrun hcall⟩) h ⟨[], .nil⟩

/-- A hand goes from the bets before the flop to the flop. -/
theorem onward_to_flop : ∃ s s' : Exec ℤ, s.table.stage = .betting roundPreflop ∧
    s'.table.stage = .dealing roundFlop ∧ Onward s.table s'.table := by
  have hfresh : (session ℤ).Reachable ⟨.fresh ⟨7, 0⟩ 7 (.new 4 50 100), []⟩ :=
    .init ⟨_, _, _, by decide, rfl⟩
  have hplay : Fallible.holds (play ⟨.fresh ⟨7, 0⟩ 7 (.new 4 50 100), []⟩
      [.join 1 1000 2, .join 2 1000 3, .start, .shuffle 0, .shuffle 1, .reveal 0, .reveal 1])
      (fun s => decide (s.table.stage = .betting roundPreflop) &&
        Fallible.holds (play s [.act .call 1 [], .act .check 0 []]) fun s' =>
          decide (s'.table.stage = .dealing roundFlop ∧ s'.table.handId = s.table.handId)) =
      true := by
    decide +kernel
  obtain ⟨s, hs, hfacts⟩ := Fallible.holds_iff.mp hplay
  obtain ⟨hstage, hrest⟩ := Bool.and_eq_true_iff.mp hfacts
  obtain ⟨s', hs', hfacts'⟩ := Fallible.holds_iff.mp hrest
  obtain ⟨hstage', hid⟩ := of_decide_eq_true hfacts'
  obtain ⟨l, hrun⟩ := play_run hs'
  have hstage := of_decide_eq_true hstage
  refine ⟨s, s', hstage, hstage', Exec.onward_of_handId (play_reachable hs hfresh) hrun ?_ ?_ hid⟩
  · rw [InHand, hstage]
    rintro ⟨⟩
  · rw [InHand, hstage']
    rintro ⟨⟩

end Transparent

end TexasPoker
