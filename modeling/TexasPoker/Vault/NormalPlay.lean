import TexasPoker.Invariants.Reveals
import TexasPoker.Vault.Custody

/-! # Chips of normal play

Without kicks, missed reveals and reconstructions somebody is always left to win the chips in play.
So the seats, the pot and the bets hold the whole pool, and the pool is what came in less what
was paid out and raked.
-/

namespace TexasPoker

variable {G : Type}

theorem Seat.isLive_eq (x : Seat G) :
    x.isLive = (decide (x.kind = .playing) && !x.isFolded) := by
  cases x <;> simp [isLive, kind, isOccupied, isWaiting]

namespace TexasPokerTable

variable {t t' t'' : TexasPokerTable G}

/-- Whoever plays plays on. -/
structure PlaysOn (t t' : TexasPokerTable G) : Prop where
  kinds : ∀ i, (t'.seats i).kind = (t.seats i).kind
  unfolded : ∀ i, (t.seats i).isFolded = false → (t'.seats i).isFolded = false

theorem PlaysOn.trans (h : PlaysOn t t') (h' : PlaysOn t' t'') : PlaysOn t t'' :=
  ⟨fun i => (h'.kinds i).trans (h.kinds i), fun i hi => h'.unfolded i (h.unfolded i hi)⟩

theorem PlaysOn.of_seats (h : t'.seats = t.seats) : PlaysOn t t' :=
  ⟨fun i => by rw [h], fun i hi => by rwa [h]⟩

theorem playsOn_setSeat {k : Fin maxSeats} {x : Seat G} (hs : t'.seats = (t.setSeat k x).seats)
    (hk : x.kind = (t.seats k).kind)
    (hf : (t.seats k).isFolded = false → x.isFolded = false) : PlaysOn t t' := by
  constructor <;> intro i <;> rw [hs] <;> by_cases hi : i = k
  · subst hi
    rw [seats_setSeat_self, hk]
  · rw [seats_setSeat_of_ne fun he => hi (Fin.ext he)]
  · subst hi
    rw [seats_setSeat_self]
    exact hf
  · rw [seats_setSeat_of_ne fun he => hi (Fin.ext he)]
    exact fun h => h

theorem PlaysOn.isLive (h : PlaysOn t t') {i : Fin maxSeats} (hi : (t.seats i).isLive = true) :
    (t'.seats i).isLive = true := by
  rw [Seat.isLive_eq, Bool.and_eq_true, Bool.not_eq_true'] at hi ⊢
  exact ⟨(h.kinds i).symm ▸ hi.1, h.unfolded i hi.2⟩

theorem PlaysOn.count (h : PlaysOn t t') : t.countActivePlayers ≤ t'.countActivePlayers :=
  List.countP_mono_left fun _ _ hi => h.isLive hi

theorem count_ne_zero {i : Fin maxSeats} (hi : (t.seats i).isLive = true) :
    t.countActivePlayers ≠ 0 :=
  (List.countP_pos_iff.mpr ⟨i, List.mem_finRange i, hi⟩).ne'

/-- With two players left, one is left beside any seat. -/
theorem exists_isLive_ne (h : 2 ≤ t.countActivePlayers) (k : ℕ) :
    ∃ i : Fin maxSeats, i.1 ≠ k ∧ (t.seats i).isLive = true := by
  by_contra hn
  push Not at hn
  have hle : t.countActivePlayers ≤ ((List.finRange maxSeats).map Fin.val).count k := by
    rw [List.count, List.countP_map]
    refine List.countP_mono_left fun i _ hi => ?_
    by_contra hne
    exact hn i (by simpa using hne) hi
  have hnodup := (List.nodup_finRange maxSeats).map Fin.val_injective
  have := List.nodup_iff_count_le_one.mp hnodup k
  omega

/-- Somebody is left to win the chips in play. -/
def Contested (t : TexasPokerTable G) : Prop :=
  t.wagers = 0 ∧ (∀ i, (t.seats i).isFolded = false) ∨
    t.stage ≠ .between ∧ t.countActivePlayers ≠ 0

theorem Contested.playsOn (h : t.Contested) (hp : PlaysOn t t') (hw : t'.wagers = t.wagers)
    (hs : t.stage ≠ .between → t'.stage ≠ .between) : t'.Contested := by
  rcases h with ⟨hz, hf⟩ | ⟨hb, hc⟩
  · exact .inl ⟨hw.trans hz, fun i => hp.unfolded i (hf i)⟩
  · have := hp.count
    exact .inr ⟨hs hb, by omega⟩

theorem Contested.lost (h : t.Contested) :
    (if t.countActivePlayers = 0 then t.wagers else 0) = 0 := by
  rcases h with ⟨hz, -⟩ | ⟨-, hc⟩
  · rw [hz, ite_self]
  · exact if_neg hc

theorem Contested.between (h : t.Contested) (hs : t.stage = .between) :
    t.wagers = 0 ∧ ∀ i, (t.seats i).isFolded = false :=
  h.resolve_right fun hn => hn.1 hs

/-- Between hands a seat changes hands. -/
theorem Contested.setSeat {k : Fin maxSeats} {x : Seat G} (h : t.Contested)
    (hs : t.stage = .between) (hz : t'.wagers = 0) (hseats : t'.seats = (t.setSeat k x).seats)
    (hx : x.isFolded = false) : t'.Contested := by
  refine .inl ⟨hz, fun i => ?_⟩
  by_cases hi : i = k
  · subst hi
    rwa [hseats, seats_setSeat_self]
  · rw [hseats, seats_setSeat_of_ne fun he => hi (Fin.ext he)]
    exact (h.between hs).2 i

theorem contested_afterHand [AddCommGroup G] [Protocol G] [DecidableEq G] :
    t.afterHand.Contested := by
  refine .inl ⟨wagers_afterHand, fun i => ?_⟩
  change (t.nextSeat i).isFolded = false
  rcases nextSeat_cases (t := t) i with h | ⟨h, hl, -⟩ <;> rw [h]
  · rfl
  · unfold preparedSeat
    cases t.seats i <;> rfl

end TexasPokerTable

namespace Exec

open TexasPokerTable

variable {s s' : Exec G} {b d r : ℕ}

/-- The seats, the pot and the bets hold the pool, and the pool is what came in, on top of `b`,
less what was paid out and raked. -/
structure Books (b : ℕ) (s : Exec G) : Prop where
  custody : s.table.Custody
  contested : s.table.Contested
  full : s.table.held = s.table.chipPool
  pool : s.table.chipPool + s.refunded + s.raked = b + s.deposited

theorem Accounts.books (h : Accounts s s' d r 0) (hc : s'.table.Custody)
    (ht : s'.table.Contested) (hb : Books b s) : Books b s' := by
  obtain ⟨hpool, hheld, hd, hr⟩ := h.flow
  have := hb.full
  have := hb.pool
  exact ⟨hc, ht, by omega, by omega⟩

theorem Still.playsOn (h : Still s s') : PlaysOn s.table s'.table := .of_seats h.seats

theorem Still.books (h : Still s s') (hc : s'.table.Custody)
    (hs : s.table.stage ≠ .between → s'.table.stage ≠ .between) (hb : Books b s) : Books b s' :=
  h.accounts.books hc (hb.contested.playsOn h.playsOn h.wagers hs) hb

/-! ## The table's own moves -/

theorem stage_retimed {t t' : TexasPokerTable G} (h : t.Retimed t') : t'.stage = t.stage := by
  rw [TexasPokerTable.stage, ← HandPhase.stage_undated, h.phase, HandPhase.stage_undated]
  rfl

theorem PassesShuffle.stage (h : PassesShuffle s s') (hs : s.table.stage ≠ .between) :
    s'.table.stage ≠ .between := by
  cases h with
  | idle _ h => rwa [h]
  | next _ _ ht _ => rwa [stage_retimed ht]
  | deal _ _ _ h =>
    rw [(startPreflopRevealPhase_eq_ok h).1]
    exact fun h => by cases h
  | restart _ _ _ h =>
    cases h with
    | hole _ h =>
      rw [(startPreflopRevealPhase_eq_ok h).1]
      exact fun h => by cases h
    | board _ _ _ h =>
      rw [(startCommunityRevealPhase_eq_ok h).2.2.1]
      exact fun h => by cases h
    | showdown _ h =>
      obtain ⟨_, -, ht, -⟩ := startShowdownRevealPhase_eq_ok h
      rw [ht]
      exact fun h => by cases h
    | idle h => rwa [h]

theorem playsOn_posted {t : TexasPokerTable G} {i amount : ℕ} {label : String}
    {t' : TexasPokerTable G} (h : t.postBlind i amount label = .ok t') : PlaysOn t t' := by
  obtain ⟨k, p, -, hk, -, rfl⟩ := postBlind_eq_ok h
  refine playsOn_setSeat rfl (by rw [hk]; rfl) fun hf => ?_
  rw [hk] at hf
  unfold PlayingSeat.posted
  split
  · rfl
  · exact hf

theorem playsOn_anted {t t' : TexasPokerTable G} {a : ℕ × ℕ} (h : t.postAnte a = .ok t') :
    PlaysOn t t' := by
  obtain ⟨k, p, -, hk, rfl⟩ := postAnte_eq_ok h
  refine playsOn_setSeat rfl (by rw [hk]; rfl) fun hf => ?_
  rw [hk] at hf
  unfold PlayingSeat.anted
  split
  · rfl
  · exact hf

/-- The blinds are posted by players, the big one always. -/
theorem postBlinds_playsOn {bbSeat : ℕ} (h : s.postBlinds = .ok (s', bbSeat)) :
    PlaysOn s.table s'.table ∧ ∃ i, (s'.table.seats i).kind = .playing := by
  obtain ⟨-, -, ht⟩ := postBlinds_eq_ok h
  constructor
  · exact Fallible.foldlM_keeps (P := PlaysOn s.table)
      (fun _ _ _ _ h hp => hp.trans (playsOn_posted h)) ht (.of_seats rfl)
  · rw [blinds, List.foldlM_append, Fallible.bind_eq_ok] at ht
    obtain ⟨u, -, hbb⟩ := ht
    rw [List.foldlM_cons, Fallible.bind_eq_ok] at hbb
    obtain ⟨v, hbb, hv⟩ := hbb
    obtain rfl : v = s'.table := by simpa using hv
    obtain ⟨k, p, -, -, -, hset⟩ := postBlind_eq_ok hbb
    refine ⟨k, ?_⟩
    rw [hset, seats_setSeat_self]
    rfl

theorem collectAnte_playsOn {bbSeat : ℕ} (h : s.collectAnte bbSeat = .ok s') :
    PlaysOn s.table s'.table := by
  obtain ⟨-, ⟨-, rfl⟩ | ⟨-, ht⟩⟩ := collectAnte_eq_ok h
  · exact .of_seats rfl
  · exact Fallible.foldlM_keeps (P := PlaysOn s.table)
      (fun _ _ _ _ h hp => hp.trans (playsOn_anted h)) ht (.of_seats rfl)

/-- Somebody plays in every hand that opens. -/
theorem opening_count {m : Exec G} {bbSeat : ℕ} (h : s.table.Contested)
    (hb : s.postBlinds = .ok (m, bbSeat)) (ha : m.collectAnte bbSeat = .ok s') :
    s'.table.countActivePlayers ≠ 0 := by
  obtain ⟨hblinds, k, hk⟩ := postBlinds_playsOn hb
  have hon := hblinds.trans (collectAnte_playsOn ha)
  rcases h with ⟨-, hf⟩ | ⟨-, hc⟩
  · refine count_ne_zero (i := k) (hon.isLive ?_)
    rw [Seat.isLive_eq, ← hblinds.kinds, hk, hf]
    rfl
  · have := hon.count
    omega

theorem playsOn_bettingOpened {t : TexasPokerTable G} {isPreflop : Bool} :
    PlaysOn t (t.bettingOpened isPreflop) := by
  cases isPreflop
  · exact ⟨fun _ => Seat.kind_clearBet _, fun i hi => (Seat.isFolded_clearBet _).trans hi⟩
  · exact .of_seats rfl

theorem wagers_bettingOpened {t : TexasPokerTable G} (hz : t.sumBets = 0) :
    (t.bettingOpened false).wagers = t.wagers := by
  have hb : (t.bettingOpened false).sumBets = 0 := by
    rw [sumBets_eq, seatSum_eq_zero_iff]
    intro i
    change (t.seats i).clearBet.bet = 0
    cases t.seats i <;> rfl
  rw [wagers, wagers, hb, hz]
  rfl

theorem stage_bettingOpened {t : TexasPokerTable G} {isPreflop : Bool} :
    (t.bettingOpened isPreflop).stage ≠ .between := by
  cases isPreflop <;> exact fun h => by cases h

theorem setCurrentTurn_stage {turn : Option ℕ} (h : s.setCurrentTurn turn = .ok s') :
    s'.table.stage = s.table.stage := by
  obtain ⟨-, -, ht, -⟩ := setCurrentTurn_eq_ok h
  rw [ht]
  exact HandPhase.stage_withTurn _ _

theorem OpensNext.stage (h : OpensNext s s') : s'.table.stage ≠ .between := by
  cases h with
  | board _ ho ht _ =>
    rw [ht, (startCommunityRevealPhase_eq_ok ho).2.2.1]
    exact fun h => by cases h
  | showdown _ ho ht _ =>
    obtain ⟨_, -, hopen, -⟩ := startShowdownRevealPhase_eq_ok ho
    rw [ht, hopen]
    exact fun h => by cases h

theorem betting_of_isBettingRound {t : TexasPokerTable G} (h : t.isBettingRound = true) :
    ∃ street round turn d, t.handPhase = .betting street round turn d := by
  have hround : t.bettingRound.isSome = true := (Bool.and_eq_true_iff.mp h).1
  unfold bettingRound at hround
  split at hround
  · exact ⟨_, _, _, _, by assumption⟩
  · cases hround

/-- A betting round that waits for an action has two players left. -/
theorem count_of_blocked {t : TexasPokerTable G} (h : t.nextNormalizationStep = .ok none)
    (hb : t.isBettingRound = true) : 2 ≤ t.countActivePlayers := by
  obtain ⟨street, round, turn, d, hp⟩ := betting_of_isBettingRound hb
  by_contra hc
  have hsome : t.nextNormalizationStep = .ok (some .endWithoutShowdown) := by
    unfold nextNormalizationStep
    simp only [reconstructPhase, shufflePhase, revealTokenState, hp, hb]
    rw [if_pos (by omega : t.countActivePlayers ≤ 1)]
    rfl
  rw [hsome] at h
  cases h

theorem stage_acted {t : TexasPokerTable G} {i : ℕ} : (t.acted i).stage = t.stage :=
  HandPhase.stage_undated _

theorem foldSeat_contested {i reason : ℕ} (h : s.foldSeat i reason = .ok s')
    (hc : 2 ≤ s.table.countActivePlayers) : s'.table.Contested := by
  obtain ⟨-, hb, ht, -⟩ := foldSeat_eq_ok h
  obtain ⟨j, hj, hlive⟩ := exists_isLive_ne hc i
  refine .inr ⟨?_, count_ne_zero (i := j) ?_⟩
  · rw [ht, stage_acted]
    change s.table.stage ≠ _
    rw [stage_of_bettingRound hb]
    exact fun h => by cases h
  · rw [ht]
    change ((s.table.setSeat i _).seats j).isLive = true
    rwa [seats_setSeat_of_ne hj]

theorem isFolded_wagered {p : PlayingSeat G} {amount bet : ℕ} {allIn : Bool}
    (h : (Seat.playing p).isFolded = false) :
    (Seat.playing (p.wagered amount bet allIn)).isFolded = false := by
  unfold PlayingSeat.wagered
  dsimp only
  split
  · rfl
  · exact h

theorem matchBet_playsOn {i : ℕ} (h : s.matchBet i = .ok s') :
    PlaysOn s.table s'.table ∧ s'.table.stage = s.table.stage := by
  obtain ⟨-, -, -, round, -, ⟨-, ht⟩ | ⟨-, k, p, -, hk, ht⟩⟩ := matchBet_eq_ok h <;> rw [ht]
  · exact ⟨.of_seats rfl, stage_acted⟩
  · refine ⟨playsOn_setSeat (k := k) rfl (by rw [hk]; rfl) fun hf => ?_, stage_acted⟩
    rw [hk] at hf
    exact isFolded_wagered hf

theorem raiseTo_playsOn {i totalBet : ℕ} (h : s.raiseTo i totalBet = .ok s') :
    PlaysOn s.table s'.table ∧ s'.table.stage = s.table.stage := by
  obtain ⟨-, -, street, round, turn, d, newRound, needed, k, p, hp, -, -, hk, u, hu, ht⟩ :=
    raiseTo_eq_ok h
  have hsu : PlaysOn s.table u := by
    refine playsOn_setSeat (k := k) (by rw [hu]; rfl) (by rw [hk]; rfl) fun hf => ?_
    rw [hk] at hf
    exact isFolded_wagered hf
  have hstage : u.stage = s.table.stage := by
    rw [hu, stage_acted, TexasPokerTable.stage, TexasPokerTable.stage, hp]
    rfl
  rw [ht]
  split
  · exact ⟨hsu.trans (.of_seats rfl), hstage⟩
  · exact ⟨hsu, hstage⟩

theorem wagers_of_seat {t t' : TexasPokerTable G} {k : Fin maxSeats} {x : Seat G}
    (hs : t'.seats = (t.setSeat k x).seats) (hp : t'.pot = t.pot)
    (hx : x.bet = (t.seats k).bet) : t'.wagers = t.wagers := by
  have hb := seatSum_of_setSeat (g := Seat.bet) hs
  rw [wagers, wagers, hp, sumBets_eq, sumBets_eq]
  omega

theorem applyFundSeat_books {i amount : ℕ} {timing : FundTiming}
    (h : s.applyFundSeat i amount timing = .ok s') (hb : Books b s) : Books b s' := by
  refine (applyFundSeat_accounts h).books (applyFundSeat_custody h hb.custody) ?_ hb
  obtain ⟨k, x, -, -, -, hx, ht, -⟩ := applyFundSeat_eq_ok h
  have hseats : s'.table.seats = (s.table.setSeat k x).seats := by rw [ht]
  have hstage : s'.table.stage = s.table.stage := by rw [ht]; rfl
  obtain ⟨hkind, hfolded⟩ : x.kind = (s.table.seats k).kind ∧
      x.isFolded = (s.table.seats k).isFolded := by
    rcases hx with ⟨-, hx⟩ | ⟨-, hx⟩
    · exact ⟨Seat.kind_setPendingAddon hx, Seat.isFolded_setPendingAddon hx⟩
    · exact ⟨Seat.kind_setStack hx, Seat.isFolded_setStack hx⟩
  exact hb.contested.playsOn (playsOn_setSeat hseats hkind fun hf => hfolded.trans hf)
    (wagers_of_seat hseats (by rw [ht]; rfl) (chips_funded hx).2.1) fun hs => by rwa [hstage]

theorem consumeTimeBank_books {i consumedMs : ℕ} (h : s.consumeTimeBank i consumedMs = .ok s')
    (hb : Books b s) : Books b s' := by
  refine (consumeTimeBank_accounts h).books (consumeTimeBank_custody h hb.custody) ?_ hb
  obtain ⟨hocc, -, ht⟩ := consumeTimeBank_eq_ok h
  obtain ⟨k, rfl, hk⟩ := isOccupied_seat hocc
  rw [seat_val] at ht
  have hseats : s'.table.seats = (s.table.setSeat k
      ((s.table.seats k).setTimeBankMs ((s.table.seats k).timeBankMs - consumedMs))).seats := by
    rw [ht]
  refine hb.contested.playsOn (playsOn_setSeat hseats (Seat.kind_setTimeBankMs _ _)
    fun hf => (Seat.isFolded_setTimeBankMs _).trans hf) (wagers_of_seat hseats (by rw [ht]; rfl) ?_)
    fun hs => by rwa [ht]
  cases s.table.seats k <;> rfl

variable [AddCommGroup G] [Protocol G] [DecidableEq G]

theorem endWithoutShowdown_contested (h : s.endWithoutShowdown = .ok s') :
    s'.table.Contested := by
  simp only [endWithoutShowdown, Fallible.bind_eq_ok] at h
  obtain ⟨_, -, _, -, h⟩ := h
  rw [(resetForNextHand_table h).2]
  exact contested_afterHand

/-- A closed round ends the hand or deals on. -/
theorem closeRound_contested {c : Exec G} (hs : s.table.stage ≠ .between)
    (hc : s.collectBetsToPot = .ok c) (h : c.advanceRound = .ok s') : s'.table.Contested := by
  rcases advanceRound_eq_ok h with ⟨-, h⟩ | ⟨hcount, m, hm, h⟩
  · exact endWithoutShowdown_contested h
  have hstill := maybeTriggerRunItTwice_still hm
  have hstage : m.table.stage ≠ .between := by
    have hcs : c.table.stage = s.table.stage := by
      rw [(collectBetsToPot_eq_ok hc).1]
      rfl
    rcases maybeTriggerRunItTwice_eq_ok hm with rfl | ⟨-, -, _, -, ht, -⟩
    · rwa [hcs]
    · rw [ht]
      rwa [← hcs] at hs
  rcases h with ⟨-, rfl⟩ | h
  · exact .inr ⟨hstage, by rw [hstill.countActivePlayers]; omega⟩
  · have hstill := hstill.trans h.still
    exact .inr ⟨h.stage, by rw [hstill.countActivePlayers]; omega⟩

theorem Deal.books (h : Deal s s') (hb : Books b s) : Books b s' := by
  have hcustody := h.play.custody hb.custody
  have hlost := hb.contested.lost
  cases h with
  | notice he => exact (accounts_notice he).books hcustody hb.contested hb
  | clock ht =>
    exact (Still.of_retimed ht).books hcustody (fun hs => (stage_retimed ht).symm ▸ hs) hb
  | turn _ h =>
    exact (setCurrentTurn_still h).books hcustody (fun hs => by rwa [setCurrentTurn_stage h]) hb
  | closeRound hround _ hc h =>
    have hs : s.table.stage ≠ .between := by
      rw [stage_of_bettingRound hround]
      exact fun h => by cases h
    have ha := closeRound_accounts hc h
    rw [hlost] at ha
    exact ha.books hcustody (closeRound_contested hs hc h) hb
  | ended _ h =>
    have ha := endWithoutShowdown_accounts h
    rw [hlost] at ha
    exact ha.books hcustody (endWithoutShowdown_contested h) hb
  | openPreflop hrev hblinds hante h =>
    obtain ⟨street, d, hp⟩ := hrev
    have hz : s.table.sumBets = 0 := hb.custody.idle fun st => by
      simp [TexasPokerTable.stage, hp, HandPhase.stage]
    have hopen := opening_accounts hz hb.custody.not_participates hblinds hante
    have hturn := setCurrentTurn_still h
    have hcount := opening_count hb.contested hblinds hante
    have hplays : PlaysOn _ (_ : TexasPokerTable G) := playsOn_bettingOpened.trans hturn.playsOn
    have hle := hplays.count
    refine (hturn.accounts.after ((bettingOpened_accounts (.inr rfl)).after hopen)).books hcustody
      (.inr ⟨?_, ?_⟩) hb
    · rw [setCurrentTurn_stage h]
      exact stage_bettingOpened
    · omega
  | openStreet hrev h =>
    obtain ⟨street, d, hp⟩ := hrev
    have hz : s.table.sumBets = 0 := hb.custody.idle fun st => by
      simp [TexasPokerTable.stage, hp, HandPhase.stage]
    have hturn := setCurrentTurn_still h
    have hopen : Accounts s (s.withTable (s.table.bettingOpened false)) 0 0 0 :=
      bettingOpened_accounts (.inl hz)
    refine (hturn.accounts.after hopen).books hcustody ?_ hb
    refine hb.contested.playsOn (playsOn_bettingOpened.trans hturn.playsOn)
      (hturn.wagers.trans (wagers_bettingOpened hz)) fun _ => ?_
    rw [setCurrentTurn_stage h]
    exact stage_bettingOpened
  | display hrev =>
    have hstill : Still s (s.withTable (s.table.enterShowdownDisplay 0)) :=
      ⟨rfl, rfl, rfl, rfl, ⟨rfl, rfl, rfl⟩⟩
    exact hstill.books hcustody (fun _ h => by cases h) hb
  | passShuffle h =>
    have hpass := advanceShuffle_eq_ok h
    exact hpass.still.books hcustody hpass.stage hb
  | completeReconstruct _ h =>
    obtain ⟨m, reveal, encrypted, hr, -, ht, hp, hpass⟩ := onCompleteReconstruct_eq_ok h
    have hstill : Still s m := ⟨by rw [ht], by rw [ht], by rw [ht], by rw [ht], hp⟩
    refine (hstill.trans hpass.still).books hcustody (fun _ => hpass.stage ?_) hb
    rw [ht]
    exact fun h => by cases h

theorem Deals.books (h : Deals s s') (hb : Books b s) : Books b s' := by
  induction h with
  | refl => exact hb
  | tail _ h ih => exact h.books ih

/-! ## Actions -/

/-- An action at a table that waits for it. -/
theorem applyPlayerAction_books {i : ℕ} {action : PlayerAction}
    (hblocked : s.table.nextNormalizationStep = .ok none)
    (h : s.applyPlayerAction i action = .ok s') (hb : Books b s) : Books b s' := by
  simp only [applyPlayerAction, Fallible.bind_eq_ok, Fallible.ensure_eq_ok] at h
  obtain ⟨_, hi, _, hround, _, hturn, h⟩ := h
  have hturn : s.table.currentTurn = i := of_decide_eq_true hturn
  have hcount := count_of_blocked hblocked hround
  have hstage : s.table.stage ≠ .between := by
    rw [stage_of_bettingRound (Bool.and_eq_true_iff.mp hround).1]
    exact fun h => by cases h
  have hon {m : Exec G} (h : PlaysOn s.table m.table ∧ m.table.stage = s.table.stage) :
      m.table.Contested := by
    have := h.1.count
    exact .inr ⟨by rwa [h.2], by omega⟩
  cases action with
  | fold reason =>
    simp only [Fallible.bind_eq_ok] at h
    obtain ⟨m, hm, h⟩ := h
    have hbm := (foldSeat_accounts hm).books ((Play.fold hturn hi hm).custody hb.custody)
      (foldSeat_contested hm hcount) hb
    split at h
    · rename_i hc
      exact (Deal.ended hc h).books hbm
    · exact (advanceTurn_deals h).books hbm
  | matchBet =>
    simp only [Fallible.bind_eq_ok] at h
    obtain ⟨m, hm, h⟩ := h
    refine (advanceTurn_deals h).books ((matchBet_accounts hm).books
      ((Play.matchBet hturn hi hm).custody hb.custody) (hon (matchBet_playsOn hm)) hb)
  | raiseTo totalBet =>
    simp only [Fallible.bind_eq_ok] at h
    obtain ⟨m, hm, h⟩ := h
    refine (advanceTurn_deals h).books ((raiseTo_accounts hm).books
      ((Play.raise hturn hi hm).custody hb.custody) (hon (raiseTo_playsOn hm)) hb)

/-! ## Commands beside the betting -/

theorem applySetLeaveAfterHand_books {i : ℕ} {wantLeave : Bool}
    (h : s.applySetLeaveAfterHand i wantLeave = .ok s') (hb : Books b s) : Books b s' := by
  refine (applySetLeaveAfterHand_accounts h).books ((Play.askLeave h).custody hb.custody) ?_ hb
  obtain ⟨-, -, rfl | ht⟩ := applySetLeaveAfterHand_eq_ok h
  · exact hb.contested
  · rw [ht]
    exact hb.contested

theorem applySubmitShuffleV2_books {i : ℕ} {outputCards : List (ElGamalCiphertext G)}
    {proof : Protocol.ShuffleProof G} (hi : i < s.table.rules.maxPlayers)
    (h : s.applySubmitShuffleV2 i outputCards proof = .ok s') (hb : Books b s) : Books b s' := by
  obtain ⟨phase, _, _, _, m, hp, -, -, -, -, -, -, ht, hpay, hpass⟩ := applySubmitShuffleV2_eq_ok h
  have hstill : Still s m := ⟨by rw [ht], by rw [ht], by rw [ht], by rw [ht], hpay⟩
  have hstage : m.table.stage = s.table.stage := by
    rw [ht, TexasPokerTable.stage, TexasPokerTable.stage, hp]
    cases phase <;> rfl
  exact (hstill.trans hpass.still).books ((Play.submitShuffle hi h).custody hb.custody)
    (fun hs => hpass.stage (by rwa [hstage])) hb

theorem GivesTokens.books {i : ℕ} {tokens : List G} (h : GivesTokens s s' i tokens)
    (hb : Books b s) : Books b s' := by
  have hsame := h.sameChips
  have hslots (i : Fin maxSeats) : Wagers (s.table.seats i) (s'.table.seats i) 0 :=
    wagers_of_withoutHand (hsame.slots i)
  have hwagers : s'.table.wagers = s.table.wagers := by
    rw [wagers, wagers, hsame.pot, sumBets_eq, sumBets_eq]
    exact congrArg _ (seatSum_congr fun i => (hslots i).bet)
  refine (accounts_of_seats hslots hsame.pot hsame.chipPool hsame.payments).books
    ((Step.tokens h).custody hb.custody) (hb.contested.playsOn ⟨fun i => ?_, fun i hf => ?_⟩
      hwagers fun hs => by rwa [h.stage]) hb
  · exact Seat.kind_of_withoutHand (hsame.slots i)
  · rwa [← Seat.isFolded_withoutHand, hsame.slots i, Seat.isFolded_withoutHand]

theorem applyJoinTable_books {player : Address} {buyIn : ℕ} {pk : G} {txPk : TaggedPubkey}
    {proof : Bytes} (h : s.applyJoinTable player buyIn pk txPk proof = .ok s')
    (hb : Books b s) : Books b s' := by
  have hcustody := applyJoinTable_custody h hb.custody
  refine (applyJoinTable_accounts h).books hcustody ?_ hb
  obtain ⟨hjoin, -, -, -, k, o, -, -, -, -, -, -, ht, -⟩ := applyJoinTable_eq_ok h
  have hs := stage_eq_between hb.custody.toPhased (of_decide_eq_true hjoin)
  exact hb.contested.setSeat (k := k) (x := .waiting o) hs
    (hcustody.between (by rw [ht]; exact hs)) (by rw [ht]) rfl

omit [Protocol G] in
theorem applyLeaveTable_books {i : ℕ} (h : s.applyLeaveTable i = .ok s') (hb : Books b s) :
    Books b s' := by
  obtain ⟨hleave, k, -, -, -, ht, -⟩ := applyLeaveTable_eq_ok h
  have hs := stage_eq_between hb.custody.toPhased (of_decide_eq_true hleave)
  have hcustody := applyLeaveTable_custody h hb.custody
  refine (applyLeaveTable_accounts (hb.custody.between hs) hb.custody.wagers h).books hcustody ?_ hb
  exact hb.contested.setSeat (k := k) (x := .empty) hs
    (hcustody.between (by rw [ht]; exact hs)) (by rw [ht]) rfl

theorem startHand_books (h : s.startHand = .ok s') (hb : Books b s) : Books b s' := by
  obtain ⟨hr, -, m, ht, hpay, hpass⟩ := startHand_eq_ok h
  have hs := stage_eq_between hb.custody.toPhased hr
  have hp := promotes_seated (t := s.table)
  have hcm : m.table.Custody := PlainStep.custody (.prepare hr ht) hb.custody
  have ha : Accounts s m 0 0 0 := accounts_of_seats (by rw [ht]; exact hp.wagers)
    (by rw [ht]; exact hp.pot) (by rw [ht]; exact hp.chipPool) hpay
  have hbm : Books b m := by
    refine ha.books hcm (.inl ⟨hcm.between (by rw [ht]; rfl), fun i => ?_⟩) hb
    have hf := (hb.contested.between hs).2 i
    rw [ht]
    change ((seated s.table).seats i).isFolded = false
    rcases hp.seats i with hi | hi <;> rw [hi]
    · exact hf
    · cases hx : s.table.seats i <;> rw [hx] at hf <;> exact hf
  exact hpass.still.books (hpass.custody hcm) hpass.stage hbm

/-! ## Deadlines -/

theorem settleHand_books (h : s.settleHand = .ok s')
    (hs : ∀ street, s.table.stage ≠ .betting street) (hb : Books b s) : Books b s' := by
  have hcustody := settleHand_custody h hb.custody
  rcases settleHand_eq_ok h with rfl | ⟨plan, m, hm, h⟩
  · exact hb
  have ha := settle_accounts hm h
  rw [hb.custody.idle hs] at ha
  refine ha.books hcustody ?_ hb
  rw [(resetForNextHand_table h).2]
  exact contested_afterHand

theorem advancePhase_books {nowMs deadlineMs subject : ℕ} {pre : List NormalizationStep}
    {kind : DeadlineKind} {onTimeout : Exec G → PokerL1Result (Exec G)}
    {report : AdvanceDeadlineExecution}
    (step : ∀ m, onTimeout s = .ok m → Books b s → Books b m)
    (h : advancePhase nowMs pre kind subject deadlineMs s onTimeout = .ok (s', report))
    (hb : Books b s) : Books b s' := by
  simp only [advancePhase] at h
  split at h
  · cases h
    exact hb
  · simp only [Fallible.bind_eq_ok] at h
    obtain ⟨m, hm, ⟨n, _⟩, hn, h⟩ := h
    cases h
    exact (normalizeUntilBlocked_deals hn).1.books (step m hm hb)

theorem advanceBetting_books {nowMs : ℕ} {pre : List NormalizationStep}
    {report : AdvanceDeadlineExecution} (hblocked : s.table.nextNormalizationStep = .ok none)
    (h : advanceBetting nowMs pre s = .ok (s', report)) (hb : Books b s) : Books b s' := by
  simp only [advanceBetting] at h
  rw [Fallible.bind_eq_ok] at h
  obtain ⟨_, -, h⟩ := h
  rw [Fallible.bind_eq_ok] at h
  obtain ⟨_, -, h⟩ := h
  split at h
  · simp only [Fallible.bind_eq_ok] at h
    obtain ⟨m, hm, ⟨t, d⟩, ht, h⟩ := h
    cases h
    exact (Deal.clock (extendBettingDeadline_retimed ht)).books (consumeTimeBank_books hm hb)
  · refine advancePhase_books (fun m hm hb => ?_) h hb
    rw [onBettingTimeout, applyFoldInternal] at hm
    exact applyPlayerAction_books hblocked hm hb

/-- The deadline of a betting round or of the showdown. -/
theorem advanceDeadlineWithReport_books {nowMs : ℕ} {report : AdvanceDeadlineExecution}
    (hblocked : s.table.nextNormalizationStep = .ok none)
    (hphase : s.table.isBettingRound = true ∨ ∃ d, s.table.handPhase = .showdownDisplay d)
    (h : s.advanceDeadlineWithReport nowMs = .ok (s', report)) (hb : Books b s) :
    Books b s' := by
  simp only [advanceDeadlineWithReport] at h
  rw [Fallible.bind_eq_ok] at h
  obtain ⟨_, -, h⟩ := h
  rw [Fallible.bind_eq_ok] at h
  obtain ⟨⟨m, pre⟩, hm, h⟩ := h
  obtain ⟨t, ht, rfl⟩ := normalizeUntilBlocked_of_blocked hblocked hm
  have hbt : Books b (s.withTable t) := (Deal.clock ht).books hb
  have hblocked : (s.withTable t).table.nextNormalizationStep = .ok none :=
    (nextNormalizationStep_retimed ht).trans hblocked
  dsimp only at h
  rcases hphase with hround | ⟨d, hp⟩
  · obtain ⟨street, round, turn, d, hp⟩ := betting_of_isBettingRound hround
    obtain ⟨d', hp'⟩ := ht.betting hp
    have hround' : (s.withTable t).table.isBettingRound = true := by
      simpa [isBettingRound, bettingRound, roundState, hp, hp'] using hround
    rw [if_neg (by simp [reconstructPhase, hp']),
      if_neg (by simp only [shufflePhase, withTable_table, hp']; decide),
      if_neg (by simp [revealTokenState, hp']), if_pos hround'] at h
    exact advanceBetting_books hblocked h hbt
  · obtain ⟨d, hp⟩ := ht.showdownDisplay hp
    rw [if_neg (by simp [reconstructPhase, hp]),
      if_neg (by simp only [shufflePhase, withTable_table, hp]; decide),
      if_neg (by simp [revealTokenState, hp]), if_neg (by simp [isBettingRound, bettingRound, hp]),
      if_pos (by simp [roundState, hp])] at h
    simp only [Fallible.bind_eq_ok] at h
    obtain ⟨_, -, h⟩ := h
    refine advancePhase_books (fun _ hm hb => settleHand_books hm (fun street hs => ?_) hb) h hbt
    rw [withTable_table, TexasPokerTable.stage, hp] at hs
    cases hs

/-! ## Calls -/

/-- The commands of normal play, and the deadlines of its betting rounds and showdowns. -/
def NormalCommand (t : TexasPokerTable G) : CanonicalCommand → Prop
  | .joinTable | .leaveTable | .startHand | .submitShuffleV2 | .submitPlayerRevealTokens | .fold
  | .check | .call | .raise | .bet | .addon | .rebuy | .setLeaveAfterHand => True
  | .advanceDeadline => t.isBettingRound = true ∨ ∃ d, t.handPhase = .showdownDisplay d
  | _ => False

theorem runCommand_books {context : DispatchContext} {args : Bytes} {command : CanonicalCommand}
    (hn : NormalCommand s.table command)
    (hblocked : s.table.nextNormalizationStep = .ok none)
    (h : runCommand context args s command = .ok s') (hb : Books b s) : Books b s' := by
  cases command with
  | joinTable =>
    simp only [runCommand, dispatchJoinTable] at h
    rw [Fallible.bind_eq_ok] at h
    obtain ⟨⟨player, buyIn, pk, txPk, proof⟩, -, h⟩ := h
    obtain ⟨_, -, h⟩ := Fallible.bind_eq_ok.mp h
    exact applyJoinTable_books h hb
  | leaveTable =>
    simp only [runCommand, dispatchLeaveTable] at h
    obtain ⟨_, _, -, -, -, h⟩ := dispatchSeat_eq_ok h
    exact applyLeaveTable_books h hb
  | startHand =>
    simp only [runCommand, dispatchStartHand, Fallible.bind_eq_ok] at h
    obtain ⟨_, -, _, -, h⟩ := h
    exact startHand_books h hb
  | advanceDeadline =>
    simp only [runCommand, dispatchAdvanceDeadline, Fallible.bind_eq_ok] at h
    obtain ⟨_, -, ⟨m, _⟩, hm, h⟩ := h
    cases h
    exact advanceDeadlineWithReport_books hblocked hn hm hb
  | submitShuffleV2 =>
    simp only [runCommand, dispatchSubmitShuffleV2] at h
    obtain ⟨_, _, hi, -, -, h⟩ := dispatchSeat_eq_ok h
    exact applySubmitShuffleV2_books hi h hb
  | submitPlayerRevealTokens =>
    simp only [runCommand, dispatchSubmitPlayerRevealTokens] at h
    obtain ⟨_, _, -, -, -, h⟩ := dispatchSeat_eq_ok h
    obtain ⟨m, hm, h⟩ := applySubmitPlayerRevealTokens_eq_ok h
    obtain ⟨_, _, _, hp⟩ := hm.handPhase
    exact (checkRevealPhaseComplete_deals hp h).books (hm.books hb)
  | fold =>
    simp only [runCommand, dispatchFold] at h
    obtain ⟨_, _, -, -, -, h⟩ := dispatchSeat_eq_ok h
    exact applyPlayerAction_books hblocked h hb
  | check =>
    simp only [runCommand, dispatchCheck] at h
    obtain ⟨_, _, -, -, -, h⟩ := dispatchSeat_eq_ok h
    simp only [applyCheck, Fallible.bind_eq_ok] at h
    obtain ⟨_, -, _, -, _, -, h⟩ := h
    exact applyPlayerAction_books hblocked h hb
  | call =>
    simp only [runCommand, dispatchCall] at h
    obtain ⟨_, _, -, -, -, h⟩ := dispatchSeat_eq_ok h
    simp only [applyCall, Fallible.bind_eq_ok] at h
    obtain ⟨_, -, _, -, _, -, h⟩ := h
    exact applyPlayerAction_books hblocked h hb
  | raise =>
    simp only [runCommand, dispatchRaise] at h
    obtain ⟨_, _, -, -, -, h⟩ := dispatchSeat_eq_ok h
    exact applyPlayerAction_books hblocked h hb
  | bet =>
    simp only [runCommand, dispatchBet] at h
    obtain ⟨_, _, -, -, -, h⟩ := dispatchSeat_eq_ok h
    simp only [applyBet, applyRaise, Fallible.bind_eq_ok] at h
    obtain ⟨_, -, _, -, _, -, _, -, _, -, _, -, m, hm, h⟩ := h
    cases h
    exact (Deal.notice rfl).books (applyPlayerAction_books hblocked hm hb)
  | addon =>
    simp only [runCommand, dispatchAddon] at h
    obtain ⟨_, _, -, -, -, h⟩ := dispatchSeat_eq_ok h
    exact applyFundSeat_books h hb
  | rebuy =>
    simp only [runCommand, dispatchRebuy] at h
    obtain ⟨_, _, -, -, -, h⟩ := dispatchSeat_eq_ok h
    exact applyFundSeat_books h hb
  | setLeaveAfterHand =>
    simp only [runCommand, dispatchSetLeaveAfterHand] at h
    obtain ⟨_, _, -, -, -, h⟩ := dispatchSeat_eq_ok h
    exact applySetLeaveAfterHand_books h hb
  | createTable | forceFold | kickPlayer | submitReconstructDeck | foldWithProof => cases hn

omit [AddCommGroup G] [Protocol G] [DecidableEq G] in
/-- Counters move no chips. -/
theorem Books.recounted {t : TexasPokerTable G} (h : s.table.Recounted t) (hb : Books b s) :
    Books b (s.withTable t) := by
  have hs : s.withTable t = s.withTable { s.table with callSeq := t.callSeq, handId := t.handId } :=
    congrArg s.withTable h.rest
  have hstill : Still s (s.withTable t) := by
    rw [hs]
    exact ⟨rfl, rfl, rfl, rfl, ⟨rfl, rfl, rfl⟩⟩
  have hstage : (s.withTable t).table.stage = s.table.stage := by
    rw [hs]
    rfl
  exact hstill.books (hstill.custody_of_stage hstage hb.custody) (fun h => by rwa [hstage]) hb

/-- A call of a command of normal play. -/
def Normal (s : Exec G) (c : Call) : Prop :=
  ∃ command, CanonicalCommand.fromSelector G c.selector = some command ∧
    NormalCommand s.table command

theorem call_books {c : Call} (hn : Normal s c)
    (hblocked : s.table.nextNormalizationStep = .ok none) (h : s.call c = .ok s')
    (hb : Books 0 s) : Books 0 s' ∧ s'.table.nextNormalizationStep = .ok none := by
  obtain ⟨r, hd, hevents⟩ := call_dispatches h
  obtain ⟨command, m, n, report, u, hc, hm, hnorm, hu, ht, he⟩ := dispatch_eq_ok hd
  obtain ⟨command', hc', hn⟩ := hn
  obtain rfl : command' = command := Option.some.inj (hc'.symm.trans hc)
  obtain ⟨hdeals, hnone⟩ := normalizeUntilBlocked_deals hnorm
  have hretimed := rearmBettingDeadline_retimed hu
  have hcount : u.Recounted s'.table := advanceCounters_recounted ht
  have hstart : Books s.table.chipPool ⟨s.table, []⟩ := ⟨hb.custody, hb.contested, hb.full, rfl⟩
  have hbn := hdeals.books (runCommand_books (s := ⟨s.table, []⟩) hn hblocked hm hstart)
  have hbu : Books s.table.chipPool ((n.withTable u).withTable s'.table) :=
    ((Deal.clock hretimed).books hbn).recounted hcount
  have hsum (f : TexasPokerEvent → ℕ) :
      (s'.events.map f).sum = (s.events.map f).sum + (n.events.map f).sum := by
    rw [hevents, he, List.map_append, List.sum_append]
  have hpool := hbu.pool
  have hold := hb.pool
  refine ⟨⟨hbu.custody, hbu.contested, hbu.full, ?_⟩, ?_⟩
  · simp only [refunded, raked, deposited, withTable_events, withTable_table] at hpool hold ⊢
    rw [hsum, hsum, hsum]
    omega
  · rw [hcount.rest]
    exact (nextNormalizationStep_retimed hretimed).trans hnone

theorem books_isInvariant : ((session G).restrict Normal).IsInvariant fun s =>
    Books 0 s ∧ s.table.nextNormalizationStep = .ok none where
  init s hs := by
    have hc := custody_isInvariant.init s hs
    obtain ⟨id, creator, rules, -, rfl⟩ := hs
    have hw : (TexasPokerTable.fresh (G := G) id creator rules).wagers = 0 := hc.between rfl
    have hheld : (TexasPokerTable.fresh (G := G) id creator rules).held = 0 :=
      Nat.eq_zero_of_le_zero hc.held
    exact ⟨⟨hc, .inl ⟨hw, fun _ => rfl⟩, hheld, rfl⟩, nextNormalizationStep_waiting rfl⟩
  next s c s' _ hs h := call_books h.1 hs.2 h.2 hs.1

/-- After every command of normal play the vault balances, and the pool is the deposits less the
refunds and the rake. -/
theorem normalPlay_isInvariant : ((session G).restrict Normal).IsInvariant fun s =>
    s.table.VaultBalanced ∧ s.table.chipPool + s.refunded + s.raked = s.deposited := by
  refine books_isInvariant.imp fun s _ hs => ?_
  obtain ⟨hb, -⟩ := hs
  exact ⟨⟨hb.full, hb.custody.wagers⟩, hb.pool.trans (Nat.zero_add _)⟩

end Exec

end TexasPoker
