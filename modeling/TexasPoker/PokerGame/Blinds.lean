import TexasPoker.PokerGame.Positions
import TexasPoker.Spec.Hand
import TexasPoker.Spec.Moves

/-! # Blinds of the server and of the mirror

What both layers charge, and which seat acts first. The mirror closes a round without contested
action at once; the server gives the turn to any seat with chips.
-/

namespace TexasPoker.PokerGame

open Fallible Table

variable {G : Type} {g : Table} {t : TexasPokerTable G} {r : ℕ}

/-! ## Charges -/

namespace Table

variable {id id' amount : ℕ}

theorem seat_chargeBlind_self :
    (g.chargeBlind id amount).seat id = (g.seat id).map (·.placeBlind amount) :=
  g.localSeats.get_modify_self

theorem seat_chargeBlind_of_ne (hne : id' ≠ id) :
    (g.chargeBlind id amount).seat id' = g.seat id' :=
  g.localSeats.get_modify_of_ne hne

/-- A charge changes no participation. -/
theorem participantIds_chargeBlind :
    (g.chargeBlind id amount).participantIds = g.participantIds := by
  rw [participantIds_eq, participantIds_eq]
  refine List.filter_congr fun id' _ => ?_
  by_cases hid : id' = id
  · subst hid
    rw [seat_chargeBlind_self]
    cases g.seat id' <;> rfl
  · rw [seat_chargeBlind_of_ne hid]

end Table

/-- A mirrored seat has paid the blind it owes, at most its chips. It is all in when a blind took
its last chips, or found none. -/
def Paid (blind : Option ℕ) (s : Seat) (v : TexasPoker.Seat G) : Prop :=
  ∃ p, v = .playing p ∧ p.occupied.stack = s.stack - blind.getD 0 ∧
    p.bet = min (blind.getD 0) s.stack ∧
    p.status = if blind.any (s.stack ≤ ·) then .allIn else .active

theorem Joined.paid_none {s : Seat} {v : TexasPoker.Seat G} (h : Joined s v) : Paid none s v := by
  obtain ⟨p, rfl, hstack, hbet, -, hstatus⟩ := h
  exact ⟨p, rfl, hstack, by rw [hbet, Option.getD_none, Nat.zero_min], hstatus⟩

theorem Joined.paid {s : Seat} {v : TexasPoker.Seat G} {a : ℕ} (h : Joined s v) :
    ∃ p, v = .playing p ∧ p.totalBet = 0 ∧
      Paid (some a) s (.playing (p.posted (min a v.stack))) := by
  obtain ⟨p, rfl, hstack, -, htotal, hstatus⟩ := h
  refine ⟨p, rfl, htotal, _, rfl, ?_⟩
  simp only [PlayingSeat.posted, TexasPoker.Seat.stack, hstack, hstatus, Option.getD_some,
    Option.any_some, decide_eq_true_eq]
  refine ⟨by omega, trivial, ?_⟩
  congr 1
  rw [eq_iff_iff]
  omega

theorem seat_setSeat {i j : ℕ} {v : TexasPoker.Seat G} (hi : i < maxSeats) :
    (t.setSeat i v).seat j = if j = i then v else t.seat j := by
  unfold TexasPokerTable.seat TexasPokerTable.setSeat
  by_cases hj : j < maxSeats
  · rw [dif_pos hj, dif_pos hj]
  · rw [dif_neg hj, dif_neg hj, if_neg (by omega)]

theorem postBlind_ok {i amount : ℕ} {label : String} {p : PlayingSeat G}
    (hseat : t.seat i = .playing p) (hle : amount ≤ p.occupied.stack)
    (hmax : p.totalBet + amount ≤ u64Max) :
    t.postBlind i amount label = .ok (t.setSeat i (.playing (p.posted amount))) := by
  rw [TexasPokerTable.postBlind, hseat]
  simp only [TexasPoker.Seat.playingMut, ok_bind, checkedSub, if_pos hle, checkedAdd, if_pos hmax]
  rfl

/-- The blind that a rank owes. -/
def owed (sb bb r b i : ℕ) : Option ℕ := if i = b then some bb else if i = r then some sb else none

/-- The mirror after its blinds seats the participants with the blinds of its rules paid. -/
theorem Mirrors.postBlinds (hm : Mirrors g t) (hd : g.Dealt) {b : ℕ} {l : List TexasPokerEvent}
    (hpos : t.blindSeats = (r, b)) (hr : r < g.participantIds.length)
    (hb : b < g.participantIds.length) (hne : r ≠ b) :
    ∃ posted, Exec.postBlinds ⟨t, l⟩ = .ok (posted, b) ∧ Seated g posted.table ∧
      posted.table.rules = t.rules ∧
      ∀ i < g.participantIds.length, ∀ s, g.seat (g.idOf i) = some s →
        Paid (owed t.rules.smallBlind t.rules.bigBlind r b i) s (posted.table.seat i) := by
  have hnine := hm.nine
  have hseats : noSeat = 15 := rfl
  have hmax : maxSeats = 9 := rfl
  obtain ⟨sr, hsr, -, hjoined⟩ := hm.joined hr
  obtain ⟨sb, hsb, -, hjoined'⟩ := hm.joined hb
  obtain ⟨p, hp, htotal, hpaid⟩ := hjoined.paid (a := t.rules.smallBlind)
  obtain ⟨p', hp', htotal', hpaid'⟩ := hjoined'.paid (a := t.rules.bigBlind)
  have hbig : t.rules.bigBlind ≤ u64Max := by
    rw [hm.bigBlind]
    exact min_le_right _ _
  have hsmall : t.rules.smallBlind ≤ u64Max := by
    have hlimit := hd.limit
    rw [hm.smallBlind, minBet]
    refine max_le ?_ (by decide)
    omega
  let t0 : TexasPokerTable G := { t with lastBbSeat := b }
  let t1 := t0.setSeat r (.playing (p.posted (min t.rules.smallBlind (t.seat r).stack)))
  let t2 := t1.setSeat b (.playing (p'.posted (min t.rules.bigBlind (t.seat b).stack)))
  have hseat (i : ℕ) : t2.seat i =
      if i = b then .playing (p'.posted (min t.rules.bigBlind (t.seat b).stack))
      else if i = r then .playing (p.posted (min t.rules.smallBlind (t.seat r).stack))
      else t.seat i := by
    rw [seat_setSeat (by omega), seat_setSeat (by omega)]
    rfl
  have hpost1 : t0.postBlind r (min t.rules.smallBlind (t.seat r).stack) "sb" = .ok t1 := by
    refine postBlind_ok hp ?_ (by rw [htotal]; omega)
    rw [hp]
    exact min_le_right _ _
  have hpost2 : t1.postBlind b (min t.rules.bigBlind (t.seat b).stack) "bb" = .ok t2 := by
    have hb' : t1.seat b = .playing p' := by
      rw [seat_setSeat (by omega), if_neg (Ne.symm hne)]
      exact hp'
    refine postBlind_ok hb' ?_ (by rw [htotal']; omega)
    rw [hp']
    exact min_le_right _ _
  refine ⟨(Exec.withTable ⟨t, l⟩ t2).emit (.blindsPosted t2.id r b
    (min t.rules.smallBlind (t.seat r).stack) (min t.rules.bigBlind (t.seat b).stack) b), ?_,
    ⟨hm.maxPlayers, hnine, fun i hi => ?_⟩, rfl, fun i hi s hs => ?_⟩
  · have hdead : r ≠ noSeat := by omega
    unfold Exec.postBlinds
    dsimp only
    rw [hpos]
    dsimp only
    rw [if_neg hdead, if_pos hdead, hpost1, ok_bind, hpost2, ok_bind]
    rfl
  · change (t2.seat i).isVacant = true
    rw [hseat, if_neg (by omega), if_neg (by omega)]
    exact hm.vacant i hi
  · change Paid (owed _ _ r b i) s (t2.seat i)
    rw [hseat, owed]
    split
    · rename_i hib
      subst hib
      cases hsb.symm.trans hs
      exact hpaid'
    · split
      · rename_i hir
        subst hir
        cases hsr.symm.trans hs
        exact hpaid
      · exact (hm.dealt i _ s (idOf_eq hi) hs).paid_none

/-! ## The first turn -/

section Opening

variable [AddCommGroup G] [Protocol G] [DecidableEq G] {s s' : Exec G}

omit [AddCommGroup G] [Protocol G] [DecidableEq G] in
theorem currentTurnOption_of_opened {street dealt : ℕ} {purpose : RevealPurpose}
    {assignments : List (RevealAssignment G)} :
    (t.opened street dealt purpose assignments).currentTurnOption = none := rfl

/-- A closed round leaves no turn. -/
theorem advanceRound_currentTurnOption (h : s.advanceRound = .ok s')
    (hlive : 2 ≤ s.table.countActivePlayers) (hturn : s.table.currentTurnOption = none) :
    s'.table.currentTurnOption = none := by
  rcases Exec.advanceRound_eq_ok h with ⟨hle, -⟩ | ⟨-, m, hm, h⟩
  · omega
  have hphase : m.table.handPhase = s.table.handPhase := by
    rcases Exec.maybeTriggerRunItTwice_eq_ok hm with rfl | ⟨-, -, _, -, ht, -⟩
    · rfl
    · rw [ht]
  rcases h with ⟨-, rfl⟩ | ho
  · unfold TexasPokerTable.currentTurnOption TexasPokerTable.currentTurn at hturn ⊢
    rw [hphase]
    exact hturn
  · cases ho with
    | board _ ho ht _ =>
      obtain ⟨-, -, ho, -⟩ := Exec.startCommunityRevealPhase_eq_ok ho
      rw [ht, ho, currentTurnOption_of_opened]
    | showdown _ ho ht _ =>
      obtain ⟨_, -, ho, -⟩ := Exec.startShowdownRevealPhase_eq_ok ho
      rw [ht, ho, currentTurnOption_of_opened]

/-- The first turn of a preflop round: the first seat after the big blind that can act, unless
no action is contested. -/
theorem startBettingRound_currentTurnOption {bb : ℕ}
    (h : s.startBettingRound true (some bb) = .ok s') (hlive : 2 ≤ s.table.countActivePlayers)
    (hnext : ∀ i ∈ s.table.findNextActiveSeat bb, i ≠ noSeat) :
    s'.table.currentTurnOption =
      if (s.table.bettingOpened true).noFurtherBettingPossible then none
      else s.table.findNextActiveSeat bb := by
  simp only [Exec.startBettingRound] at h
  rw [bind_eq_ok] at h
  obtain ⟨t, ht, h⟩ := h
  obtain rfl := TexasPokerTable.enterBetting_eq_ok ht
  rw [bind_eq_ok] at h
  obtain ⟨m, hm, h⟩ := h
  obtain ⟨-, hround, htable, -⟩ := Exec.setCurrentTurn_eq_ok hm
  have hno : m.table.noFurtherBettingPossible =
      (s.table.bettingOpened true).noFurtherBettingPossible := by
    rw [htable]
    rfl
  have hcount : m.table.countActivePlayers = s.table.countActivePlayers := by
    rw [htable]
    rfl
  have hfirst : m.table.currentTurnOption = s.table.findNextActiveSeat bb := by
    have hturn : m.table.currentTurn = (s.table.findNextActiveSeat bb).getD noSeat := by
      rw [htable]
      rfl
    rw [TexasPokerTable.currentTurnOption, hturn]
    cases hn : s.table.findNextActiveSeat bb with
    | none => rfl
    | some i => exact if_neg (hnext i hn)
  rw [← hno]
  split at h
  · rename_i hstalled
    simp only [bind_eq_ok] at h
    obtain ⟨n, hn, c, hc, h⟩ := h
    obtain ⟨-, -, hn, -⟩ := Exec.setCurrentTurn_eq_ok hn
    obtain ⟨hc, -⟩ := Exec.collectBetsToPot_eq_ok hc
    rw [if_pos hstalled]
    refine advanceRound_currentTurnOption h ?_ ?_
    · rw [hc, Exec.countActivePlayers_collected, hn]
      exact hlive.trans_eq hcount.symm
    · rw [hc, hn, htable]
      rfl
  · rename_i hgoes
    cases h
    rw [if_neg hgoes]
    exact hfirst

end Opening

/-! ## Contested action -/

/-- The mirror's table after its blinds: the small one from a rank, and the big one from the rank
after it. -/
structure Posted (g : Table) (sb bb r b : ℕ) (u : TexasPokerTable G) : Prop
    extends Seated g u where
  two : 2 ≤ g.participantIds.length
  rank : r < g.participantIds.length
  next : b = (r + 1) % g.participantIds.length
  small : sb < bb
  bigBlind : u.rules.bigBlind = bb
  paid : ∀ i < g.participantIds.length, ∀ s, g.seat (g.idOf i) = some s →
    Paid (owed sb bb r b i) s (u.seat i)

namespace Paid

variable {blind : Option ℕ} {s : Seat} {v : TexasPoker.Seat G} (h : Paid blind s v)

include h

theorem isLive : v.isLive = true := by
  obtain ⟨p, rfl, -, -, hstatus⟩ := h
  simp only [TexasPoker.Seat.isLive, TexasPoker.Seat.isOccupied, TexasPoker.Seat.isFolded,
    TexasPoker.Seat.isWaiting, TexasPoker.Seat.status, hstatus]
  split_ifs <;> rfl

theorem stack : v.stack = s.stack - blind.getD 0 := by
  obtain ⟨p, rfl, hstack, -⟩ := h
  exact hstack

theorem bet : v.bet = min (blind.getD 0) s.stack := by
  obtain ⟨p, rfl, -, hbet, -⟩ := h
  exact hbet

theorem hasLeftHand : v.hasLeftHand = false := by
  obtain ⟨p, rfl, -⟩ := h
  rfl

/-- Only a blind takes the turn from a mirrored seat. -/
theorem isActionable : v.isActionable = !blind.any (s.stack ≤ ·) := by
  obtain ⟨p, rfl, -, -, hstatus⟩ := h
  simp only [TexasPoker.Seat.isActionable, TexasPoker.Seat.isOccupied, TexasPoker.Seat.isFolded,
    TexasPoker.Seat.isAllIn, TexasPoker.Seat.isWaiting, TexasPoker.Seat.status, hstatus]
  cases blind.any (s.stack ≤ ·) <;> rfl

end Paid

namespace Posted

variable {sb bb b : ℕ} {u : TexasPokerTable G} (hu : Posted g sb bb r b u)

include hu

theorem rank_bb : b < g.participantIds.length := by
  rw [hu.next]
  exact Nat.mod_lt _ (by have := hu.two; omega)

theorem ne : r ≠ b := by
  rw [hu.next]
  exact self_ne_succ_mod hu.two hu.rank

theorem seat {i : ℕ} (hi : i < g.participantIds.length) :
    ∃ s, g.seat (g.idOf i) = some s ∧ s.participating = true ∧
      Paid (owed sb bb r b i) s (u.seat i) := by
  obtain ⟨s, hs, hp⟩ := mem_participantIds.mp (idOf_mem hi)
  exact ⟨s, hs, hp, hu.paid i hi s hs⟩

theorem small_paid {s : Seat} (hs : g.seat (g.idOf r) = some s) :
    Paid (some sb) s (u.seat r) := by
  have hpaid := hu.paid r hu.rank s hs
  rwa [owed, if_neg hu.ne, if_pos rfl] at hpaid

theorem big_paid {s : Seat} (hs : g.seat (g.idOf b) = some s) : Paid (some bb) s (u.seat b) := by
  have hpaid := hu.paid b hu.rank_bb s hs
  rwa [owed, if_pos rfl] at hpaid

/-- Heads up the small blind is next after the big one, and otherwise a rank that owes nothing. -/
theorem next_next : if g.participantIds.length = 2 then (b + 1) % g.participantIds.length = r
    else (b + 1) % g.participantIds.length ≠ r ∧ (b + 1) % g.participantIds.length ≠ b := by
  have htwo := hu.two
  have hr := hu.rank
  have hne := self_ne_succ_mod htwo hu.rank_bb
  have hb := hu.next
  split
  · rename_i hk
    rw [hk] at hb hr ⊢
    omega
  · refine ⟨fun heq => ?_, hne.symm⟩
    rcases Nat.lt_or_ge (r + 1) g.participantIds.length with hlt | hge
    · rw [Nat.mod_eq_of_lt hlt] at hb
      rcases Nat.lt_or_ge (b + 1) g.participantIds.length with hlt' | hge'
      · rw [Nat.mod_eq_of_lt hlt'] at heq
        omega
      · rw [show b + 1 = g.participantIds.length by omega, Nat.mod_self] at heq
        omega
    · rw [show r + 1 = g.participantIds.length by omega, Nat.mod_self] at hb
      rw [hb, Nat.mod_eq_of_lt (by omega)] at heq
      omega

theorem countActivePlayers : u.countActivePlayers = g.participantIds.length := by
  refine countP_seats hu.nine fun i => ?_
  by_cases hi : i < g.participantIds.length
  · obtain ⟨s, -, -, hs⟩ := hu.seat hi
    exact iff_of_true hs.isLive hi
  · have hv := hu.vacant i (not_lt.mp hi)
    refine iff_of_false ?_ hi
    cases hseat : u.seat i <;> simp_all [TexasPoker.Seat.isVacant, TexasPoker.Seat.isLive,
      TexasPoker.Seat.isOccupied]

/-- A blind never exceeds the big one. -/
theorem bet_le (i : ℕ) : (u.seat i).bet ≤ bb := by
  by_cases hi : i < g.participantIds.length
  · obtain ⟨s, hs, -, hpaid⟩ := hu.seat hi
    have hsmall := hu.small
    rw [hpaid.bet, owed]
    split_ifs <;> simp only [Option.getD_some, Option.getD_none] <;> omega
  · have hv := hu.vacant i (not_lt.mp hi)
    cases hseat : u.seat i <;> simp_all [TexasPoker.Seat.isVacant, TexasPoker.Seat.bet]

theorem openingBet : u.openingBet = bb := by
  have hfold {l : List ℕ} {a : ℕ} (hl : ∀ x ∈ l, x ≤ a) : l.foldl max a = a := by
    induction l with
    | nil => rfl
    | cons x l ih =>
      rw [List.foldl_cons, max_eq_left (hl x List.mem_cons_self)]
      exact ih fun y hy => hl y (List.mem_cons_of_mem x hy)
  rw [TexasPokerTable.openingBet, hu.bigBlind]
  refine hfold fun x hx => ?_
  obtain ⟨i, rfl⟩ := List.mem_ofFn.mp hx
  rw [← u.seat_val]
  exact hu.bet_le i

/-- A rank that owes no blind can act. -/
theorem idle {i : ℕ} (hi : i < g.participantIds.length) (hir : i ≠ r) (hib : i ≠ b) :
    (u.seat i).isActionable = true ∧ (u.seat i).bet = 0 := by
  obtain ⟨s, -, -, hpaid⟩ := hu.seat hi
  rw [owed, if_neg hib, if_neg hir] at hpaid
  rw [hpaid.isActionable, hpaid.bet]
  exact ⟨rfl, Nat.zero_min _⟩

/-- A blind can act when it has more chips than the blind. -/
theorem small_iff {s : Seat} (hs : g.seat (g.idOf r) = some s) :
    (u.seat r).isActionable = true ↔ sb < s.stack := by
  simp [(hu.small_paid hs).isActionable]

theorem big_iff {s : Seat} (hs : g.seat (g.idOf b) = some s) :
    (u.seat b).isActionable = true ↔ bb < s.stack := by
  simp [(hu.big_paid hs).isActionable]

theorem rank_of_isActionable {i : ℕ} (hact : (u.seat i).isActionable = true) :
    i < g.participantIds.length := by
  by_contra hi
  rw [isActionable_of_vacant (hu.vacant i (not_lt.mp hi))] at hact
  cases hact

/-- Against an all-in small blind only the big blind can act. -/
theorem eq_of_isActionable (htwo : g.participantIds.length = 2) {s : Seat}
    (hs : g.seat (g.idOf r) = some s) (hpoor : s.stack ≤ sb) {i : ℕ}
    (hact : (u.seat i).isActionable = true) : i = b := by
  have hi := hu.rank_of_isActionable hact
  have hr := hu.rank
  have hb := hu.rank_bb
  have hne := hu.ne
  by_contra hib
  obtain rfl : i = r := by omega
  exact absurd ((hu.small_iff hs).mp hact) (not_lt.mpr hpoor)

theorem bettingRound_bettingOpened :
    (u.bettingOpened true).bettingRound = some ⟨bb, u.rules.bigBlind⟩ := by
  rw [← hu.openingBet]
  rfl

/-- Where no action is contested, everybody who can act has paid the price. -/
theorem bet_of_stalled (h : (u.bettingOpened true).noFurtherBettingPossible = true) {i : ℕ}
    (hi : i < g.participantIds.length) (hact : (u.seat i).isActionable = true) :
    (u.seat i).bet = bb := by
  have hnine := hu.nine
  unfold TexasPokerTable.noFurtherBettingPossible at h
  rw [hu.bettingRound_bettingOpened] at h
  dsimp only at h
  split at h
  · cases h
  · rw [List.all_eq_true] at h
    obtain ⟨s, -, -, hpaid⟩ := hu.seat hi
    have hall := h ⟨i, by omega⟩ (List.mem_finRange _)
    have hseat : (u.bettingOpened true).seats ⟨i, by omega⟩ = u.seat i :=
      (u.seat_val ⟨i, by omega⟩).symm
    rw [hseat, hact, hpaid.hasLeftHand] at hall
    simpa using hall

theorem countActionablePlayers_le_one (hlone : ∀ i, (u.seat i).isActionable = true → i = b) :
    (u.bettingOpened true).countActionablePlayers ≤ 1 := by
  have hb := hu.rank_bb
  have hnine := hu.nine
  refine (List.countP_mono_left (q := (· == (⟨b, by omega⟩ : Fin maxSeats)))
    fun i _ hi => ?_).trans ?_
  · rw [Bool.and_eq_true] at hi
    have hact : (u.seat i.1).isActionable = true := by
      rw [u.seat_val]
      exact hi.1
    exact beq_iff_eq.mpr (Fin.ext (hlone i.1 hact))
  · exact List.nodup_iff_count_le_one.mp (List.nodup_finRange maxSeats) _

/-- No action is contested when the small blind is all in against the big blind alone. -/
theorem stalled_iff {s : Seat} (hs : g.seat (g.idOf r) = some s) :
    (u.bettingOpened true).noFurtherBettingPossible = true ↔
      g.participantIds.length = 2 ∧ s.stack ≤ sb := by
  have hsmall := hu.small
  have hb := hu.rank_bb
  constructor
  · intro h
    constructor
    · by_contra hmore
      have hthird := hu.next_next
      rw [if_neg hmore] at hthird
      have hlt := Nat.mod_lt (b + 1) (Nat.zero_lt_of_lt hb)
      obtain ⟨hact, hnone⟩ := hu.idle hlt hthird.1 hthird.2
      have hbet := hu.bet_of_stalled h hlt hact
      omega
    · by_contra hrich
      have hact := (hu.small_iff hs).mpr (not_le.mp hrich)
      have hbet := hu.bet_of_stalled h hu.rank hact
      rw [(hu.small_paid hs).bet, Option.getD_some] at hbet
      omega
  · rintro ⟨htwo, hpoor⟩
    have hlone (i : ℕ) (hact : (u.seat i).isActionable = true) : i = b :=
      hu.eq_of_isActionable htwo hs hpoor hact
    have hlive : ¬ (u.bettingOpened true).countActivePlayers < 2 := by
      change ¬ u.countActivePlayers < 2
      rw [hu.countActivePlayers]
      exact not_lt.mpr hu.two
    have hfew := not_lt.mpr (hu.countActionablePlayers_le_one hlone)
    unfold TexasPokerTable.noFurtherBettingPossible
    rw [hu.bettingRound_bettingOpened]
    dsimp only
    rw [if_neg (not_or.mpr ⟨hlive, hfew⟩), List.all_eq_true]
    intro i _
    have hseat : (u.bettingOpened true).seats i = u.seat i.1 := (u.seat_val i).symm
    rw [hseat]
    cases hact : (u.seat i.1).isActionable with
    | false => simp
    | true =>
      have hib := hlone i.1 hact
      obtain ⟨s', hs', -⟩ := hu.seat hb
      have hchips := (hu.big_iff hs').mp (hib ▸ hact)
      have hbet : (u.seat i.1).bet = bb := by
        rw [hib, (hu.big_paid hs').bet, Option.getD_some]
        omega
      rw [hbet, decide_eq_true rfl, Bool.or_true]

/-- The mirror's first turn is with the rank after the big blind, unless no action is contested. -/
theorem turn_eq {s : Seat} (hs : g.seat (g.idOf r) = some s) :
    (if (u.bettingOpened true).noFurtherBettingPossible then none else u.findNextActiveSeat b) =
      if g.participantIds.length = 2 ∧ s.stack ≤ sb then none
      else some ((b + 1) % g.participantIds.length) := by
  have hstalled := hu.stalled_iff hs
  by_cases hc : g.participantIds.length = 2 ∧ s.stack ≤ sb
  · rw [if_pos (hstalled.mpr hc), if_pos hc]
  · rw [if_neg (mt hstalled.mp hc), if_neg hc, TexasPokerTable.findNextActiveSeat,
      hu.toSeated.findNext_eq (hu.rank_bb.trans_le hu.nine) fun _ h => isActionable_of_vacant h,
      find?_clockwise_range_iff hu.rank_bb]
    have hnext := hu.next_next
    split at hnext
    · rename_i htwo
      rw [hnext, hu.small_iff hs]
      exact not_le.mp fun hpoor => hc ⟨htwo, hpoor⟩
    · exact (hu.idle (Nat.mod_lt _ (Nat.zero_lt_of_lt hu.rank_bb)) hnext.1 hnext.2).1

end Posted

end TexasPoker.PokerGame
