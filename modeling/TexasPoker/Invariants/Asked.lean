import TexasPoker.Invariants.Turns
import TexasPoker.Vault.NormalPlay

/-! # Runs of turns

In every betting round of a run, the seat to act can act and owes an action. Two calls break
this: a join without chips and a rebuy of a seat that is all in.
-/

namespace TexasPoker

variable {G : Type}

namespace TexasPokerTable

variable {t t' : TexasPokerTable G}

/-- The seats are manned, and the seat to act of a betting round owes an action. -/
structure TurnSound (t : TexasPokerTable G) : Prop where
  manned : t.Manned
  turning : t.isBettingRound = true → t.Turning

theorem Manned.turnSound (h : t.Manned) (hb : t.isBettingRound = false) : t.TurnSound :=
  ⟨h, fun hb' => by rw [hb] at hb'; cases hb'⟩

theorem not_betting_of_stage (h : ∀ street, t.stage ≠ .betting street) :
    t.isBettingRound = false := by
  unfold isBettingRound bettingRound
  cases hp : t.handPhase with
  | betting street _ _ _ => exact absurd (by rw [stage, hp]; rfl) (h street)
  | _ => rfl

/-! ## Frames -/

theorem currentTurn_undated :
    ({ t with handPhase := t.handPhase.undated } : TexasPokerTable G).currentTurn =
      t.currentTurn := by
  cases hp : t.handPhase <;> simp [currentTurn, HandPhase.undated, hp]

theorem bettingRound_undated :
    ({ t with handPhase := t.handPhase.undated } : TexasPokerTable G).bettingRound =
      t.bettingRound := by
  cases hp : t.handPhase <;> simp [bettingRound, HandPhase.undated, hp]

theorem isBettingRound_undated :
    ({ t with handPhase := t.handPhase.undated } : TexasPokerTable G).isBettingRound =
      t.isBettingRound := by
  cases hp : t.handPhase <;> simp [isBettingRound, bettingRound, roundState, HandPhase.undated, hp]

/-- `t'` differs from `t` in its clock and in nothing the turns depend on. -/
structure SameTurns (t t' : TexasPokerTable G) : Prop where
  rules : t'.rules = t.rules
  phase : t'.handPhase.undated = t.handPhase.undated
  acted : t'.actedMask = t.actedMask
  status : ∀ i, (t'.seats i).status = (t.seats i).status
  bet : ∀ i, (t'.seats i).bet = (t.seats i).bet

namespace SameTurns

theorem currentTurn (h : SameTurns t t') : t'.currentTurn = t.currentTurn := by
  have ht' := currentTurn_undated (t := t')
  rw [h.phase] at ht'
  rw [← ht']
  exact currentTurn_undated (t := t)

theorem price (h : SameTurns t t') : t'.price = t.price := by
  have ht' := bettingRound_undated (t := t')
  rw [h.phase] at ht'
  rw [TexasPokerTable.price, TexasPokerTable.price, ← ht']
  exact congrArg (Option.elim · 0 BettingRound.currentBet) (bettingRound_undated (t := t))

theorem isBettingRound (h : SameTurns t t') : t'.isBettingRound = t.isBettingRound := by
  have ht' := isBettingRound_undated (t := t')
  rw [h.phase] at ht'
  rw [← ht']
  exact isBettingRound_undated (t := t)

theorem able (h : SameTurns t t') (i : ℕ) : t'.able i = t.able i := by
  refine Seat.isActionable_congr ?_
  unfold seat
  split
  · exact h.status _
  · rfl

theorem owes (h : SameTurns t t') (i : ℕ) : t'.owes i = t.owes i := by
  have hbet : (t'.seat i).bet = (t.seat i).bet := by
    unfold seat
    split
    · exact h.bet _
    · rfl
  rw [TexasPokerTable.owes, TexasPokerTable.owes, h.able, hbet, h.price, seatActedThisRound,
    seatActedThisRound, h.acted]

theorem turning (h : SameTurns t t') (ht : t.Turning) : t'.Turning where
  bets i := by
    rw [h.bet, h.price]
    exact ht.bets i
  due hturn := by
    rw [h.currentTurn] at hturn ⊢
    rw [h.rules, funext h.able, funext h.owes]
    exact ht.due hturn

theorem turnSound (h : SameTurns t t') (ht : t.TurnSound)
    (hstack : ∀ i, (t'.seats i).stack = (t.seats i).stack) : t'.TurnSound where
  manned := ht.manned.of_seats h.rules fun i hi => hi.congr (h.status i) (hstack i)
  turning hb := h.turning (ht.turning (h.isBettingRound ▸ hb))

theorem of_seat {k : Fin maxSeats} {x : Seat G} (hr : t'.rules = t.rules)
    (hp : t'.handPhase = t.handPhase) (ha : t'.actedMask = t.actedMask)
    (hs : t'.seats = (t.setSeat k x).seats) (hstatus : x.status = (t.seats k).status)
    (hbet : x.bet = (t.seats k).bet) : SameTurns t t' := by
  refine ⟨hr, by rw [hp], ha, fun i => ?_, fun i => ?_⟩ <;> rw [hs] <;> by_cases hik : i = k
  · rw [hik, seats_setSeat_self, hstatus]
  · rw [seats_setSeat_of_ne fun he => hik (Fin.ext he)]
  · rw [hik, seats_setSeat_self, hbet]
  · rw [seats_setSeat_of_ne fun he => hik (Fin.ext he)]

end SameTurns

theorem Retimed.sameTurns (h : t.Retimed t') : SameTurns t t' where
  rules := h.rules
  phase := h.phase
  acted := by rw [h.rest]
  status i := by rw [h.seats]
  bet i := by rw [h.seats]

/-! ## Handing the turn over -/

theorem price_withTurn (turn : ℕ) : (t.withTurn turn).price = t.price := by
  rw [price, price, Exec.bettingRound_withTurn]

theorem turning_withTurn {turn : ℕ} (hround : t.bettingRound.isSome = true)
    (hbets : ∀ i, (t.seats i).bet ≤ t.price)
    (hdue : turn ≠ noSeat → Due t.rules.maxPlayers t.able t.owes turn) :
    (t.withTurn turn).Turning where
  bets i := by
    rw [price_withTurn]
    exact hbets i
  due hturn := by
    rw [Exec.currentTurn_withTurn hround] at hturn ⊢
    have howes : (t.withTurn turn).owes = t.owes := by
      funext i
      rw [owes, owes, price_withTurn]
      rfl
    rw [howes]
    exact hdue hturn

/-- The seats are manned and bet at most the price; whoever the turn goes to owes an action. -/
theorem turnSound_withTurn {turn : ℕ} (hm : t.Manned) (hround : t.bettingRound.isSome = true)
    (hbets : ∀ i, (t.seats i).bet ≤ t.price)
    (hdue : turn ≠ noSeat → Due t.rules.maxPlayers t.able t.owes turn) :
    (t.withTurn turn).TurnSound :=
  ⟨hm.same rfl rfl, fun _ => turning_withTurn hround hbets hdue⟩

/-! ## The opening of a round -/

theorem bettingRound_bettingOpened (isPreflop : Bool) :
    (t.bettingOpened isPreflop).bettingRound.isSome = true := rfl

/-- Everybody who can act owes an action. -/
theorem owes_bettingOpened {isPreflop : Bool} {i : ℕ}
    (h : (t.bettingOpened isPreflop).able i = true) :
    (t.bettingOpened isPreflop).owes i = true := by
  refine owes_of_not_acted h ?_
  rw [Bool.eq_false_iff]
  intro hacted
  obtain ⟨-, hmem⟩ := seatMaskContains_iff.mp hacted
  obtain ⟨k, hk, rfl⟩ := mem_maskOf_iff.mp hmem
  rw [able, seat_val] at h
  have hseat : ((t.bettingOpened isPreflop).seats k).isActionable = true := h
  simp only [Seat.isActionable, Bool.and_eq_true, Bool.not_eq_true'] at hseat
  obtain ⟨⟨⟨-, hf⟩, ha⟩, -⟩ := hseat
  cases isPreflop with
  | true =>
    change (t.seats k).isFolded = false at hf
    change (t.seats k).isAllIn = false at ha
    change ((t.seats k).isAllIn || (t.seats k).isFolded) = true at hk
    rw [hf, ha] at hk
    cases hk
  | false =>
    change (t.seats k).clearBet.isFolded = false at hf
    change (t.seats k).clearBet.isAllIn = false at ha
    change ((t.seats k).clearBet.isAllIn || (t.seats k).clearBet.isFolded) = true at hk
    rw [hf, ha] at hk
    cases hk

theorem bets_bettingOpened (isPreflop : Bool) (i : Fin maxSeats) :
    ((t.bettingOpened isPreflop).seats i).bet ≤ (t.bettingOpened isPreflop).price := by
  cases isPreflop with
  | true =>
    change (t.seats i).bet ≤ t.openingBet
    have hmem : (t.seats i).bet ∈ List.ofFn fun i => (t.seats i).bet := List.mem_ofFn.mpr ⟨i, rfl⟩
    rw [openingBet]
    generalize List.ofFn (fun i => (t.seats i).bet) = l at hmem
    have hfold (l : List ℕ) (a : ℕ) : a ≤ l.foldl max a ∧ ∀ b ∈ l, b ≤ l.foldl max a := by
      induction l generalizing a with
      | nil => exact ⟨le_refl a, List.forall_mem_nil _⟩
      | cons c l ih =>
        obtain ⟨hc, hl⟩ := ih (max a c)
        exact ⟨(le_max_left a c).trans hc,
          List.forall_mem_cons.mpr ⟨(le_max_right a c).trans hc, hl⟩⟩
    exact (hfold l _).2 _ hmem
  | false =>
    change (t.seats i).clearBet.bet ≤ 0
    cases t.seats i <;> exact Nat.le_refl 0

theorem able_of_firstToAct {isPreflop : Bool} {bbSeat : Option ℕ} {i : ℕ}
    (h : t.firstToAct isPreflop bbSeat = some i) : t.able i = true := by
  have hnext {start : ℕ} (h : t.findNextActiveSeat start = some i) : t.able i = true :=
    List.find?_some h
  unfold firstToAct at h
  split at h
  · obtain ⟨bb, -, h⟩ := Option.bind_eq_some_iff.mp h
    exact hnext h
  split at h
  · split at h
    · rename_i hable
      cases h
      exact hable
    · exact hnext h
  · exact hnext h

theorem Manned.bettingOpened (h : t.Manned) (isPreflop : Bool) :
    (t.bettingOpened isPreflop).Manned := by
  cases isPreflop with
  | true => exact h.same rfl rfl
  | false =>
    exact h.of_seats rfl fun i hi => hi.congr (Seat.status_clearBet _) (Seat.stack_clearBet _)

/-- The first turn goes to a seat that owes an action, as everybody who can act does. -/
theorem turnSound_opened {isPreflop : Bool} {bbSeat : Option ℕ} (hm : t.Manned) :
    ((t.bettingOpened isPreflop).withTurn
      (((t.bettingOpened isPreflop).firstToAct isPreflop bbSeat).getD noSeat)).TurnSound := by
  refine turnSound_withTurn (hm.bettingOpened isPreflop) (bettingRound_bettingOpened isPreflop)
    (bets_bettingOpened isPreflop) fun hturn => ?_
  cases hf : (t.bettingOpened isPreflop).firstToAct isPreflop bbSeat with
  | none => exact absurd (by rw [hf]; rfl) hturn
  | some i =>
    exact .of_all (owes_bettingOpened (able_of_firstToAct hf)) fun j _ hj => owes_bettingOpened hj

/-! ## Kicks -/

theorem seat_kicked {k : Fin maxSeats} {j : ℕ} (hj : j ≠ k.1) : (t.kicked k).seat j = t.seat j := by
  have hseats : (t.kicked k).seats = (t.setSeat k (t.seats k).departed).seats := rfl
  rw [seat_of_seats hseats, if_neg hj]

theorem Manned.kicked (h : t.Manned) (k : Fin maxSeats) : (t.kicked k).Manned :=
  h.of_setSeat (k := k) (x := (t.seats k).departed) rfl rfl fun _ =>
    Seat.manned_of_unoccupied (Seat.isOccupied_departed _)

/-- A kick of another seat leaves the turn where it is. -/
theorem TurnSound.kicked (h : t.TurnSound) {k : Fin maxSeats}
    (hk : ¬ (t.currentTurn = k ∧ t.isBettingRound = true)) : (t.kicked k).TurnSound := by
  refine ⟨h.manned.kicked k, fun hb => ?_⟩
  rw [isBettingRound_kicked] at hb
  have ht := h.turning hb
  have hact := actsOn_kicked (k := k) hb
  have hprice : (t.kicked k).price = t.price := by
    obtain ⟨street, round, turn, d, hp⟩ := betting_of_isBettingRound hb
    have hp' : (t.kicked k).handPhase = .betting street round turn d := by
      change t.handPhase.removeSeat k = _
      rw [hp]
      rfl
    rw [price, price, bettingRound, bettingRound, hp, hp']
  have howes {j : ℕ} (hj : j ≠ k.1) : (t.kicked k).owes j = t.owes j :=
    owes_congr (seat_kicked hj) hprice (hact.acted hprice j hj)
  have hable {j : ℕ} (hj : (t.kicked k).able j = true) : j ≠ k.1 := by
    rintro rfl
    have hseat : (t.kicked k).seats k = (t.seats k).departed := seats_setSeat_self k _
    rw [able, seat_val, hseat, Seat.isActionable, Seat.isOccupied_departed] at hj
    cases hj
  refine ⟨fun i => ?_, fun hturn => ?_⟩
  · by_cases hik : i = k
    · rw [hik]
      exact hact.bet
    · have hseat := seat_kicked (t := t) (k := k) (j := i) fun he => hik (Fin.ext he)
      rw [seat_val, seat_val] at hseat
      rw [hseat, hprice]
      exact ht.bets i
  · rw [hact.turn] at hturn ⊢
    have hne : t.currentTurn ≠ k.1 := fun he => hk ⟨he, hb⟩
    refine (ht.due hturn).mono ?_ (fun j hj => ?_) fun j hj => ?_
    · rw [howes hne]
      exact (ht.due hturn).turn
    · have hjk := hable hj
      rw [howes hjk]
      refine ⟨?_, fun ho => ho⟩
      rwa [able, seat_kicked hjk] at hj
    · rwa [howes (hable (able_of_owes hj))] at hj

end TexasPokerTable

namespace Exec

open TexasPokerTable

variable {s m s' : Exec G}

/-! ## Beats -/

theorem postBlinds_manned {bbSeat : ℕ} (h : s.postBlinds = .ok (s', bbSeat))
    (hm : s.table.Manned) : s'.table.Manned := by
  obtain ⟨-, -, ht⟩ := postBlinds_eq_ok h
  refine Fallible.foldlM_keeps (P := TexasPokerTable.Manned) (fun b _ t t' hb hm => ?_) ht
    (hm.same rfl rfl)
  obtain ⟨k, p, -, hk, -, rfl⟩ := postBlind_eq_ok hb
  exact hm.of_setSeat rfl rfl fun hp => (hk ▸ hp : (Seat.playing p).Manned _ k).paid rfl rfl

theorem collectAnte_manned {bbSeat : ℕ} (h : s.collectAnte bbSeat = .ok s')
    (hm : s.table.Manned) : s'.table.Manned := by
  obtain ⟨-, ⟨-, rfl⟩ | ⟨-, ht⟩⟩ := collectAnte_eq_ok h
  · exact hm
  refine Fallible.foldlM_keeps (P := TexasPokerTable.Manned) (fun a _ t t' ha hm => ?_) ht
    (hm.same rfl rfl)
  obtain ⟨k, p, -, hk, rfl⟩ := postAnte_eq_ok ha
  exact hm.of_setSeat rfl rfl fun hp => (hk ▸ hp : (Seat.playing p).Manned _ k).paid rfl rfl

theorem Still.manned (h : Still s s') (hm : s.table.Manned) : s'.table.Manned :=
  hm.same h.rules h.seats

theorem OpensNext.not_betting (h : OpensNext s s') : s'.table.isBettingRound = false := by
  cases h with
  | board _ ho ht _ =>
    rw [ht, (startCommunityRevealPhase_eq_ok ho).2.2.1]
    rfl
  | showdown _ ho ht _ =>
    obtain ⟨_, -, hopen, -⟩ := startShowdownRevealPhase_eq_ok ho
    rw [ht, hopen]
    rfl

variable [AddCommGroup G] [Protocol G] [DecidableEq G]

/-- A reset leaves no seat without chips. -/
theorem resetForNextHand_turnSound (hm : s.table.Manned) (hr : m.table.rules = s.table.rules)
    (hocc : ∀ i, (m.table.seats i).isOccupied = true → (s.table.seats i).isOccupied = true)
    (h : m.resetForNextHand = .ok s') : s'.table.TurnSound := by
  have hphase := (resetForNextHand_loses h).2.phase
  refine Manned.turnSound ?_ ?_
  · rw [(resetForNextHand_table h).2]
    refine manned_afterHand ?_ fun i hi => ?_
    · rw [hr]
      exact hm.size
    · rw [hr]
      exact (hm.seats i).inside (hocc i hi)
  · rw [isBettingRound, bettingRound, hphase]
    rfl

theorem endWithoutShowdown_turnSound (hm : s.table.Manned)
    (h : s.endWithoutShowdown = .ok s') : s'.table.TurnSound := by
  simp only [endWithoutShowdown, Fallible.bind_eq_ok] at h
  obtain ⟨c, hc, a, ha, hr⟩ := h
  obtain ⟨hct, -⟩ := collectBetsToPot_eq_ok hc
  have hcol : SameMembers s.table c.table := by
    rw [hct]
    exact sameMembers_collected
  have haw : c.table.rules = a.table.rules ∧ ∀ i, (a.table.seats i).kind = (c.table.seats i).kind := by
    obtain ⟨-, ⟨-, rfl⟩ | ⟨winner, seat, -, hs, ht⟩⟩ := awardSurvivor_eq_ok ha
    · exact ⟨rfl, fun _ => rfl⟩
    · rw [ht]
      refine ⟨rfl, (SameMembers.setSeat (t := c.table) (i := winner) (s := seat) ?_).kinds⟩
      rw [seat_val]
      exact Seat.kind_setStack hs
  refine resetForNextHand_turnSound hm ?_ (fun i hi => ?_) hr
  · rw [← haw.1, hct]
    rfl
  · rw [Seat.isOccupied_eq] at hi ⊢
    rwa [haw.2 i, hcol.kinds i] at hi

theorem settleHand_turnSound (hs : s.table.TurnSound) (h : s.settleHand = .ok s') :
    s'.table.TurnSound := by
  rcases settleHand_eq_ok h with rfl | ⟨plan, m, hm, h⟩
  · exact hs
  obtain ⟨-, -, -, ht, hseats, -⟩ := applySettlementPlan_eq_ok hm
  refine resetForNextHand_turnSound hs.manned (by rw [ht]) (fun i hi => ?_) h
  rw [Seat.isOccupied_eq] at hi ⊢
  rwa [Seat.kind_setStack (hseats i)] at hi

theorem refundReset_turnSound (hs : s.table.Manned) (hm : s.refundAllBets = .ok m)
    (h : m.resetForNextHand = .ok s') : s'.table.TurnSound := by
  obtain ⟨ht, -⟩ := refundAllBets_eq_ok hm
  refine resetForNextHand_turnSound hs (by rw [ht]; rfl) (fun i hi => ?_) h
  rw [ht] at hi
  change (refundedSeat (s.table.seats i)).isOccupied = true at hi
  cases hseat : s.table.seats i <;> rw [hseat] at hi <;> first | rfl | cases hi

theorem advanceRound_turnSound (hm : s.table.Manned) (h : s.advanceRound = .ok s') :
    s'.table.TurnSound := by
  rcases advanceRound_eq_ok h with ⟨-, h⟩ | ⟨-, m, hrit, h⟩
  · exact endWithoutShowdown_turnSound hm h
  have hmm := (maybeTriggerRunItTwice_still hrit).manned hm
  rcases h with ⟨hstreet, rfl⟩ | h
  · refine hmm.turnSound ?_
    rw [isBettingRound, hstreet, Bool.and_false]
  · exact (h.still.manned hmm).turnSound h.not_betting

omit [AddCommGroup G] [Protocol G] [DecidableEq G] in
/-- Cards are called from a shuffle, so no betting round is open. -/
theorem PassesShuffle.turnSound (h : PassesShuffle s s') (hs : s.table.TurnSound) :
    s'.table.TurnSound := by
  have hm := h.still.manned hs.manned
  cases h with
  | idle _ he =>
    rw [he]
    exact hs
  | next hp _ ht _ =>
    refine hm.turnSound ?_
    rw [ht.sameTurns.isBettingRound]
    exact not_betting_of_shuffling hp
  | deal _ _ _ h =>
    refine hm.turnSound ?_
    rw [(startPreflopRevealPhase_eq_ok h).1]
    rfl
  | restart hp _ _ h =>
    refine hm.turnSound ?_
    cases h with
    | hole _ h =>
      rw [(startPreflopRevealPhase_eq_ok h).1]
      rfl
    | board _ _ _ h =>
      rw [(startCommunityRevealPhase_eq_ok h).2.2.1]
      rfl
    | showdown _ h =>
      obtain ⟨_, -, ht, -⟩ := startShowdownRevealPhase_eq_ok h
      rw [ht]
      rfl
    | idle he =>
      rw [he]
      exact not_betting_of_shuffling (t := s.table) (by rw [hp]; decide)

omit [AddCommGroup G] [Protocol G] [DecidableEq G] in
theorem onCompleteReconstruct_turnSound (h : s.onCompleteReconstruct = .ok s')
    (hm : s.table.Manned) : s'.table.TurnSound := by
  obtain ⟨m, _, _, -, -, ht, -, h⟩ := onCompleteReconstruct_eq_ok h
  refine h.turnSound (Manned.turnSound (hm.same ?_ ?_) ?_) <;> rw [ht]
  rfl

/-- What follows an action hands the turn to a seat that owes an action, or closes the round. -/
theorem GoesOn.turnSound {k : Fin maxSeats} (h : GoesOn m s') (hact : ActsOn s.table m.table k)
    (hs : s.table.TurnSound) (hb : s.table.isBettingRound = true)
    (hturn : s.table.currentTurn = k) : s'.table.TurnSound := by
  have ht := hs.turning hb
  have hm : m.table.Manned := by
    refine hs.manned.of_seats hact.rules fun i hi => ?_
    by_cases hik : i = k
    · rw [hik]
      exact hact.manned
    · have hseat := hact.others i fun he => hik (Fin.ext he)
      rw [seat_val, seat_val] at hseat
      rwa [hseat]
  have hbets (i : Fin maxSeats) : (m.table.seats i).bet ≤ m.table.price := by
    by_cases hik : i = k
    · rw [hik]
      exact hact.bet
    · have hseat := hact.others i fun he => hik (Fin.ext he)
      rw [seat_val, seat_val] at hseat
      rw [hseat]
      exact (ht.bets i).trans hact.price
  cases h with
  | ends _ h => exact endWithoutShowdown_turnSound hm h
  | closes _ h =>
    obtain ⟨-, hround, htable, -⟩ := setCurrentTurn_eq_ok h
    rw [htable]
    exact turnSound_withTurn hm hround hbets fun hne => absurd rfl hne
  | passes hopen h =>
    obtain ⟨-, hround, htable, -⟩ := setCurrentTurn_eq_ok h
    rw [htable]
    refine turnSound_withTurn hm hround hbets fun hne => ?_
    obtain ⟨j, hj⟩ := (isBettingComplete_eq_false hround).mp hopen
    have hcur : m.table.currentTurnOption.getD 0 = k := by
      have hk : m.table.currentTurn ≠ noSeat := by
        rw [hact.turn, hturn]
        exact (k.isLt.trans (by decide)).ne
      rw [currentTurnOption, if_neg hk, hact.turn, hturn]
      rfl
    rw [hcur] at hne ⊢
    have hdue : s.table.owes k = true := by
      rw [← hturn]
      exact (ht.due (by rw [hturn]; exact (k.isLt.trans (by decide)).ne)).turn
    cases hnext : m.table.findNextActiveSeat k with
    | none => exact absurd (by rw [hnext]; rfl) hne
    | some next =>
      have hpass := hact.passing ht hturn hs.manned
      rw [← hact.rules] at hpass
      refine hpass.pass ?_ (fun i _ hi => able_of_owes hi) (lt_of_able hm (able_of_owes hj)) hj hnext
      rw [hact.rules]
      exact lt_of_able hs.manned (able_of_owes hdue)

theorem Beat.turnSound (h : Beat s s') (hs : s.table.TurnSound) : s'.table.TurnSound := by
  have hm := hs.manned
  cases h with
  | notice _ => exact hs
  | clock ht => exact ht.sameTurns.turnSound hs fun i => by rw [ht.seats]
  | noTurn _ h =>
    obtain ⟨-, hround, ht, -⟩ := setCurrentTurn_eq_ok h
    rw [ht]
    refine ⟨hm.same rfl rfl, fun hb => ?_⟩
    have hbet : s.table.isBettingRound = true := by
      obtain ⟨street, round, turn, d, hp⟩ := betting_of_isBettingRound hb
      cases hphase : s.table.handPhase with
      | betting street' _ _ _ =>
        rw [isBettingRound, bettingRound, roundState, withTurn, hphase] at hb
        rw [isBettingRound, bettingRound, roundState, hphase]
        exact hb
      | _ =>
        rw [bettingRound, hphase] at hround
        cases hround
    exact turning_withTurn hround (hs.turning hbet).bets fun hne => absurd rfl hne
  | closeRound _ _ hcol h =>
    obtain ⟨hct, -⟩ := collectBetsToPot_eq_ok hcol
    refine advanceRound_turnSound ?_ h
    rw [hct]
    exact hm.of_seats rfl fun i hi => hi.congr (Seat.status_clearBet _) (Seat.stack_clearBet _)
  | ended _ h => exact endWithoutShowdown_turnSound hm h
  | openPreflop _ hb ha h =>
    obtain ⟨-, -, ht, -⟩ := setCurrentTurn_eq_ok h
    rw [ht]
    exact turnSound_opened (collectAnte_manned ha (postBlinds_manned hb hm))
  | openStreet _ h =>
    obtain ⟨-, -, ht, -⟩ := setCurrentTurn_eq_ok h
    rw [ht]
    exact turnSound_opened hm
  | display _ => exact (hm.same rfl rfl : (s.table.enterShowdownDisplay 0).Manned).turnSound rfl
  | passShuffle h => exact (advanceShuffle_eq_ok h).turnSound hs
  | completeReconstruct _ h => exact onCompleteReconstruct_turnSound h hm
  | submitShuffle _ h =>
    obtain ⟨_, _, _, _, m, -, -, -, -, -, -, -, ht, -, h⟩ := applySubmitShuffleV2_eq_ok h
    refine h.turnSound (Manned.turnSound (hm.same ?_ ?_) ?_) <;> rw [ht]
    rfl
  | submitReconstruct h =>
    obtain ⟨_, _, _, _, _, _, _, _, m, -, -, -, -, -, -, -, hcontributed, -, h⟩ :=
      applySubmitReconstructDeck_eq_ok h
    have hmm : m.table.Manned := by
      rw [hcontributed]
      exact hm.same rfl rfl
    rcases h with rfl | ⟨-, h⟩
    · refine hmm.turnSound ?_
      rw [hcontributed]
      rfl
    · exact onCompleteReconstruct_turnSound h hmm
  | act hb hturn hi hact hgo =>
    obtain ⟨k, rfl, hk⟩ := hact.actsOn hb hm (hs.turning hb) hturn hi
    exact hgo.turnSound hk hs hb hturn
  | askLeave h =>
    obtain ⟨-, -, rfl | ht⟩ := applySetLeaveAfterHand_eq_ok h
    · exact hs
    · rw [ht]
      have hsame (i : ℕ) (wants : Bool) : SameTurns s.table (s.table.setSeatWantsLeave i wants) :=
        ⟨rfl, rfl, rfl, fun _ => rfl, fun _ => rfl⟩
      exact (hsame _ _).turnSound hs fun _ => rfl
  | timeBank h =>
    obtain ⟨hocc, -, ht⟩ := consumeTimeBank_eq_ok h
    obtain ⟨k, rfl, hk⟩ := isOccupied_seat hocc
    rw [hk] at ht
    have hbank (n : ℕ) : ((s.table.seats k).setTimeBankMs n).bet = (s.table.seats k).bet := by
      cases s.table.seats k <;> rfl
    have hsame : SameTurns s.table s'.table := by
      refine .of_seat ?_ ?_ ?_ (congrArg TexasPokerTable.seats ht) (Seat.status_setTimeBankMs _)
        (hbank _) <;> rw [ht] <;> rfl
    refine hsame.turnSound hs fun i => ?_
    rw [ht]
    by_cases hik : i = k
    · rw [hik, seats_setSeat_self]
      exact Seat.stack_setTimeBankMs _
    · rw [seats_setSeat_of_ne fun he => hik (Fin.ext he)]
  | settle _ h => exact settleHand_turnSound hs h
  | kick hk h =>
    rcases kickSeatRaw_eq_ok h with ⟨-, rfl⟩ | ⟨k, rfl, hkick⟩
    · exact hs
    · rw [hkick.table]
      exact hs.kicked hk
  | reset h => exact resetForNextHand_turnSound hm rfl (fun _ hi => hi) h
  | refundReset hr h => exact refundReset_turnSound hm hr h
  | suspend h =>
    obtain ⟨-, _, _, -, -, ht⟩ := startReconstruct_eq_ok h
    refine ((startReconstruct_still h).manned hm).turnSound ?_
    rw [ht]
    rfl
  | rebuild _ h =>
    refine ((rebuildDeckAndShuffleOnTimeout_still h).manned hm).turnSound ?_
    obtain ⟨-, ⟨-, _, -, -, ht⟩ | ⟨-, ht⟩⟩ := rebuildDeckAndShuffleOnTimeout_eq_ok h <;> rw [ht] <;> rfl

theorem Beats.turnSound (h : Beats s s') (hs : s.table.TurnSound) : s'.table.TurnSound :=
  h.keeps (P := fun u => u.table.TurnSound) (fun hb hu => hb.turnSound hu) hs

/-! ## Commands -/

omit [AddCommGroup G] [Protocol G] [DecidableEq G] in
theorem seated_manned {t : TexasPokerTable G} (h : t.Manned) : (seated t).Manned := by
  have hset {u : TexasPokerTable G} (hu : u.Manned) (i : ℕ) :
      (u.setSeat i (u.seat i).promoteWaiting).Manned := by
    refine hu.of_seats rfl fun k hk => ?_
    by_cases hki : k.1 = i
    · subst hki
      rw [seats_setSeat_self, seat_val]
      exact hk.promoted
    · rwa [seats_setSeat_of_ne hki]
  have hmissing (l : List ℕ) (acc : TexasPokerTable G × ℕ) (hacc : acc.1.Manned) :
      (l.foldl promoteMissing acc).1.Manned := by
    induction l generalizing acc with
    | nil => exact hacc
    | cons i l ih =>
      refine ih _ ?_
      unfold promoteMissing
      split
      · exact hset hacc i
      · exact hacc
  have hmoved : t.moveButton.Manned := h.same rfl rfl
  change t.moveButton.promoteWaitingForBigBlind.Manned
  generalize t.moveButton = u at hmoved
  unfold promoteWaitingForBigBlind
  split
  · exact hmoved.of_seats rfl fun _ hi => hi.promoted
  · refine hmissing _ _ ?_
    unfold promoteBigBlind
    split
    · exact hset hmoved _
    · exact hmoved

omit [AddCommGroup G] [Protocol G] [DecidableEq G] in
theorem not_betting_of_canJoinState {t : TexasPokerTable G} (h : t.canJoinState = true) :
    t.isBettingRound = false := by
  have hw : t.roundState = roundWaiting := of_decide_eq_true h
  rw [isBettingRound, hw]
  exact Bool.and_false _

omit [AddCommGroup G] [Protocol G] [DecidableEq G] in
/-- A funding of a seat that is not all in leaves the turns as they are. -/
theorem applyFundSeat_turnSound {i amount : ℕ} {timing : FundTiming}
    (h : s.applyFundSeat i amount timing = .ok s') (hs : s.table.TurnSound)
    (hin : timing = .immediate → (s.table.seat i).isAllIn = false) : s'.table.TurnSound := by
  obtain ⟨k, x, rfl, -, -, hx, ht, -⟩ := applyFundSeat_eq_ok h
  rw [seat_val] at hin
  have hseats : s'.table.seats = (s.table.setSeat k x).seats := by rw [ht]
  have hsame : x.status = (s.table.seats k).status ∧ x.bet = (s.table.seats k).bet ∧
      ((s.table.seats k).Manned s.table.rules.maxPlayers k →
        x.Manned s.table.rules.maxPlayers k) := by
    rcases hx with ⟨-, hx⟩ | ⟨htiming, hx⟩
    · obtain ⟨hstatus, hstack, hbet⟩ := Seat.setPendingAddon_same hx
      exact ⟨hstatus, hbet, fun hm => hm.congr hstatus hstack⟩
    · have hnot := hin htiming
      cases hseat : s.table.seats k with
      | waiting o =>
        rw [hseat] at hx
        cases hx
        exact ⟨rfl, rfl, fun hm => ⟨fun _ => hm.inside rfl, fun ha => absurd ha Bool.false_ne_true,
          fun _ _ _ => (hm.chips rfl rfl rfl).trans_le (Nat.le_add_right _ _)⟩⟩
      | playing p =>
        rw [hseat] at hx hnot
        cases hx
        exact ⟨rfl, rfl, fun hm => ⟨fun _ => hm.inside rfl,
          fun ha => absurd ((show (Seat.playing p).isAllIn = true from ha).symm.trans hnot)
            Bool.false_ne_true.symm,
          fun _ hf ha => (hm.chips rfl hf ha).trans_le (Nat.le_add_right _ _)⟩⟩
      | _ =>
        rw [hseat] at hx
        simp only [Seat.setStack] at hx
        first
          | cases hx
          | split at hx <;> cases hx
            exact ⟨rfl, rfl, fun hm => hm⟩
  have hturns : SameTurns s.table s'.table :=
    .of_seat (by rw [ht]; rfl) (by rw [ht]; rfl) (by rw [ht]; rfl) hseats hsame.1 hsame.2.1
  exact ⟨hs.manned.of_setSeat hturns.rules hseats hsame.2.2,
    fun hb => hturns.turning (hs.turning (hturns.isBettingRound ▸ hb))⟩

/-- A join brings chips, and no rebuy is of a seat that is all in. -/
structure BringsChips (s : Exec G) (c : Call) : Prop where
  join : CanonicalCommand.fromSelector G c.selector = some .joinTable →
    ∀ player buyIn txPk proof, ∀ pk : G, readJoin c.args = .ok (player, buyIn, pk, txPk, proof) →
      0 < buyIn
  rebuy : CanonicalCommand.fromSelector G c.selector = some .rebuy →
    ∀ i amount, readFunding .immediate c.args = .ok (i, amount) →
      (s.table.seat i).isAllIn = false

theorem Ran.turnSound {c : Call} {command : CanonicalCommand}
    (h : Ran c.context c.args ⟨s.table, []⟩ command s')
    (hc : CanonicalCommand.fromSelector G c.selector = some command) (hb : s.BringsChips c)
    (hs : s.table.TurnSound) : s'.table.TurnSound := by
  have hm := hs.manned
  cases h with
  | create h =>
    simp only [applyCreateTable, Fallible.bind_eq_ok, Fallible.ensure_eq_ok] at h
    obtain ⟨_, hmax, _, -, _, -, _, -, h⟩ := h
    cases h
    exact Manned.turnSound ⟨hmax.2, fun _ => Seat.manned_of_unoccupied rfl⟩ rfl
  | join hargs h =>
    obtain ⟨hjoin, -, -, -, k, o, hk, -, -, hstack, -, -, ht, -⟩ := applyJoinTable_eq_ok h
    have hpos : 0 < o.stack := hstack ▸ hb.join hc _ _ _ _ _ hargs
    refine Manned.turnSound (hm.of_setSeat (k := k) (x := .waiting o) ?_ ?_ fun _ => ?_) ?_
    · rw [ht]
      rfl
    · rw [ht]
    · exact ⟨fun _ => hk, fun ha => absurd ha Bool.false_ne_true, fun _ _ _ => hpos⟩
    · rw [ht]
      exact not_betting_of_canJoinState hjoin
  | leave h =>
    obtain ⟨hleave, k, -, -, -, ht, -⟩ := applyLeaveTable_eq_ok h
    refine Manned.turnSound (hm.of_setSeat (k := k) (x := .empty) ?_ ?_ fun _ =>
      Seat.manned_of_unoccupied rfl) ?_
    · rw [ht]
      rfl
    · rw [ht]
    · rw [ht]
      exact not_betting_of_canJoinState hleave
  | start h =>
    obtain ⟨-, -, m, ht, -, h⟩ := startHand_eq_ok h
    refine h.turnSound (Manned.turnSound ((seated_manned hm).same ?_ ?_) ?_) <;> rw [ht] <;> rfl
  | tokens hgives hbeats =>
    refine hbeats.turnSound (Manned.turnSound (hm.of_seats hgives.sameChips.rules fun i hi =>
      hi.congr (Seat.status_of_withoutHand (hgives.sameChips.slots i))
        (Seat.stack_of_withoutHand (hgives.sameChips.slots i))) ?_)
    obtain ⟨street, reveal, d, hp⟩ := hgives.handPhase
    rw [isBettingRound, bettingRound, hp]
    rfl
  | fund hargs h =>
    rename_i timing
    refine applyFundSeat_turnSound h hs fun htiming => ?_
    subst htiming
    exact hb.rebuy hc _ _ hargs
  | beats h => exact h.turnSound hs

theorem call_turnSound {c : Call} (h : s.call c = .ok s') (hb : s.BringsChips c)
    (hs : s.table.TurnSound) : s'.table.TurnSound := by
  obtain ⟨command, m, n, u, hc, -, hran, hbeats, -, hu, hcount⟩ := call_ran h
  have hn := hbeats.turnSound (hran.turnSound hc hb hs)
  have hsound : u.TurnSound := hu.sameTurns.turnSound hn fun i => by rw [hu.seats]
  have hsame : SameTurns u s'.table := by
    refine ⟨?_, ?_, ?_, fun i => ?_, fun i => ?_⟩ <;> rw [hcount.rest]
  exact hsame.turnSound hsound fun i => by rw [hcount.rest]

/-- While players bring chips, the turns of every betting round are sound. -/
theorem turnSound_isInvariant :
    ((session G).restrict BringsChips).IsInvariant fun s => s.table.TurnSound where
  init s hi := by
    obtain ⟨id, creator, rules, hr, rfl⟩ := hi
    simp only [TableRules.validateCanonical, Fallible.bind_eq_ok, Fallible.ensure_eq_ok] at hr
    obtain ⟨_, hmax, -⟩ := hr
    exact Manned.turnSound ⟨hmax.2, fun _ => Seat.manned_of_unoccupied rfl⟩ rfl
  next s c s' _ hs h := call_turnSound h.2 h.1 hs

end Exec

end TexasPoker
