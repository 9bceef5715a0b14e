import TexasPoker.Invariants.Runouts
import TexasPoker.Lib.Turns
import TexasPoker.Spec.Beats

/-! # Turns of a betting round

Every player who can act has chips, and the seat to act owes an action. What an action does to
the seats that owe one is stated once, for folds, calls, raises and kicks alike.
-/

namespace TexasPoker

variable {G : Type}

/-! ## Chips -/

namespace Seat

/-- A slot of the table whose player has chips until it is all in. -/
structure Manned (n : ℕ) (i : Fin maxSeats) (s : Seat G) : Prop where
  inside : s.isOccupied = true → i.1 < n
  allIn : s.isAllIn = true → s.stack = 0
  chips : s.isOccupied = true → s.isFolded = false → s.isAllIn = false → 0 < s.stack

variable {n : ℕ} {i : Fin maxSeats} {s s' : Seat G} {p p' : PlayingSeat G}

theorem isOccupied_iff_status : s.isOccupied = true ↔ s.status ≠ .empty ∧ s.status ≠ .out := by
  cases s with
  | playing p => cases hp : p.status <;> simp [isOccupied, status, hp]
  | _ => simp [isOccupied, status]

theorem isActionable_iff_status : s.isActionable = true ↔ s.status = .active := by
  cases s with
  | playing p =>
    cases hp : p.status <;>
      simp [isActionable, isOccupied, isFolded, isAllIn, isWaiting, status, hp]
  | _ => simp [isActionable, isOccupied, isFolded, isAllIn, isWaiting, status]

theorem isActionable_congr (h : s'.status = s.status) : s'.isActionable = s.isActionable := by
  rw [Bool.eq_iff_iff, isActionable_iff_status, isActionable_iff_status, h]

theorem Manned.congr (h : s.Manned n i) (hstatus : s'.status = s.status)
    (hstack : s'.stack = s.stack) : s'.Manned n i where
  inside hocc := h.inside (by rwa [isOccupied_iff_status, hstatus, ← isOccupied_iff_status] at hocc)
  allIn ha := by
    rw [isAllIn, hstatus] at ha
    rw [hstack]
    exact h.allIn ha
  chips hocc hf ha := by
    rw [isOccupied_iff_status, hstatus, ← isOccupied_iff_status] at hocc
    rw [isFolded, hstatus] at hf
    rw [isAllIn, hstatus] at ha
    rw [hstack]
    exact h.chips hocc hf ha

theorem manned_of_unoccupied (h : s.isOccupied = false) : s.Manned n i where
  inside hocc := by rw [h] at hocc; cases hocc
  allIn ha := by
    cases s with
    | playing _ => cases h
    | _ => cases ha
  chips hocc := by rw [h] at hocc; cases hocc

/-- A player who paid is all in when nothing is left. -/
theorem Manned.paid {amount : ℕ} (h : (Seat.playing p).Manned n i)
    (hstack : p'.occupied.stack = p.occupied.stack - amount)
    (hstatus : p'.status = if p.occupied.stack - amount = 0 then .allIn else p.status) :
    (Seat.playing p').Manned n i where
  inside _ := h.inside rfl
  allIn ha := by
    change p'.occupied.stack = 0
    rw [hstack]
    by_contra hleft
    rw [if_neg hleft] at hstatus
    have hold : (Seat.playing p).isAllIn = true := by
      simp only [isAllIn, status, hstatus] at ha ⊢
      exact ha
    have : p.occupied.stack = 0 := h.allIn hold
    omega
  chips _ _ ha := by
    change 0 < p'.occupied.stack
    rw [hstack]
    refine Nat.pos_of_ne_zero fun hleft => ?_
    rw [if_pos hleft] at hstatus
    simp [isAllIn, status, hstatus] at ha

theorem Manned.wagered {amount bet : ℕ} {allIn : Bool} (h : (Seat.playing p).Manned n i)
    (hall : p.occupied.stack - amount = 0 → allIn = true) :
    (Seat.playing (p.wagered amount bet allIn)).Manned n i := by
  refine h.paid rfl ?_
  change (if p.occupied.stack - amount = 0 ∧ allIn = true then _ else _) = _
  by_cases hleft : p.occupied.stack - amount = 0
  · rw [if_pos ⟨hleft, hall hleft⟩, if_pos hleft]
  · rw [if_neg fun hc => hleft hc.1, if_neg hleft]

theorem Manned.folded (h : s.Manned n i) : (s.setStatus .folded).Manned n i := by
  cases s with
  | playing p =>
    exact ⟨fun _ => h.inside rfl, fun ha => absurd ha Bool.false_ne_true, fun _ hf => by cases hf⟩
  | _ => exact h

theorem status_clearBet (s : Seat G) : s.clearBet.status = s.status := by cases s <;> rfl

theorem stack_clearBet (s : Seat G) : s.clearBet.stack = s.stack := by cases s <;> rfl

theorem status_setTimeBankMs {value : ℕ} (s : Seat G) :
    (s.setTimeBankMs value).status = s.status := by cases s <;> rfl

theorem stack_setTimeBankMs {value : ℕ} (s : Seat G) :
    (s.setTimeBankMs value).stack = s.stack := by cases s <;> rfl

theorem status_of_withoutHand (h : s'.withoutHand = s.withoutHand) : s'.status = s.status := by
  cases s <;> cases s' <;> simp_all [withoutHand, status]

theorem stack_of_withoutHand (h : s'.withoutHand = s.withoutHand) : s'.stack = s.stack := by
  cases s <;> cases s' <;> simp_all [withoutHand, stack]

theorem setPendingAddon_same {addon : ℕ} (h : s.setPendingAddon addon = .ok s') :
    s'.status = s.status ∧ s'.stack = s.stack ∧ s'.bet = s.bet := by
  cases s <;> simp only [setPendingAddon] at h <;> try split at h
  all_goals cases h <;> exact ⟨rfl, rfl, rfl⟩

theorem Manned.promoted (h : s.Manned n i) : s.promoteWaiting.Manned n i := by
  cases s with
  | waiting o => exact ⟨fun _ => h.inside rfl, fun ha => absurd ha Bool.false_ne_true, fun _ _ _ => h.chips rfl rfl rfl⟩
  | _ => exact h

theorem isOccupied_departed (s : Seat G) : s.departed.isOccupied = false := by cases s <;> rfl

end Seat

namespace TexasPokerTable

variable {t t' : TexasPokerTable G}

/-- The seats of a table are manned. -/
structure Manned (t : TexasPokerTable G) : Prop where
  size : t.rules.maxPlayers ≤ maxSeats
  seats : ∀ i, (t.seats i).Manned t.rules.maxPlayers i

theorem Manned.of_seats (h : t.Manned) (hr : t'.rules = t.rules)
    (hs : ∀ i, (t.seats i).Manned t.rules.maxPlayers i →
      (t'.seats i).Manned t.rules.maxPlayers i) : t'.Manned where
  size := hr ▸ h.size
  seats i := hr ▸ hs i (h.seats i)

theorem Manned.same (h : t.Manned) (hr : t'.rules = t.rules) (hs : t'.seats = t.seats) :
    t'.Manned := h.of_seats hr fun i hi => by rwa [hs]

theorem Manned.of_setSeat {k : Fin maxSeats} {x : Seat G} (h : t.Manned)
    (hr : t'.rules = t.rules) (hs : t'.seats = (t.setSeat k x).seats)
    (hx : (t.seats k).Manned t.rules.maxPlayers k → x.Manned t.rules.maxPlayers k) : t'.Manned := by
  refine h.of_seats hr fun i hi => ?_
  rw [hs]
  by_cases hik : i = k
  · subst hik
    rw [seats_setSeat_self]
    exact hx hi
  · rwa [seats_setSeat_of_ne fun he => hik (Fin.ext he)]

/-- A reset clears the seats without chips. -/
theorem manned_afterHand [AddCommGroup G] [Protocol G] [DecidableEq G]
    (hsize : t.rules.maxPlayers ≤ maxSeats)
    (hin : ∀ i, (t.seats i).isOccupied = true → i.1 < t.rules.maxPlayers) : t.afterHand.Manned where
  size := hsize
  seats i := by
    change (t.nextSeat i).Manned t.rules.maxPlayers i
    unfold nextSeat
    split
    · exact Seat.manned_of_unoccupied rfl
    split
    · exact Seat.manned_of_unoccupied rfl
    rename_i hbusted
    unfold preparedSeat at hbusted ⊢
    cases hs : t.seats i with
    | vacant _ => exact Seat.manned_of_unoccupied rfl
    | departedThisHand _ _ _ =>
      rw [hs] at hbusted
      exact absurd rfl hbusted
    | waiting o =>
      have hi := hin i (by rw [hs]; rfl)
      rw [hs] at hbusted
      refine ⟨fun _ => hi, fun ha => absurd ha Bool.false_ne_true, fun hocc _ _ => Nat.pos_of_ne_zero fun h0 => ?_⟩
      exact hbusted (by rw [hocc, h0]; rfl)
    | playing p =>
      have hi := hin i (by rw [hs]; rfl)
      rw [hs] at hbusted
      refine ⟨fun _ => hi, fun ha => absurd ha Bool.false_ne_true, fun hocc _ _ => Nat.pos_of_ne_zero fun h0 => ?_⟩
      exact hbusted (by rw [hocc, h0]; rfl)

/-! ## Who owes an action -/

/-- The seat can act in the betting round. -/
def able (t : TexasPokerTable G) (i : ℕ) : Bool := (t.seat i).isActionable

/-- The seat can act, and has not both acted and matched the price. -/
def owes (t : TexasPokerTable G) (i : ℕ) : Bool :=
  t.able i && !(t.seatActedThisRound i && (t.seat i).bet = t.price)

/-- No bet is above the price, and the seat to act owes an action. -/
structure Turning (t : TexasPokerTable G) : Prop where
  bets : ∀ i, (t.seats i).bet ≤ t.price
  due : t.currentTurn ≠ noSeat → Due t.rules.maxPlayers t.able t.owes t.currentTurn

theorem able_of_owes {i : ℕ} (h : t.owes i = true) : t.able i = true :=
  (Bool.and_eq_true_iff.mp h).1

theorem owes_of_bet_lt {i : ℕ} (h : t.able i = true) (hbet : (t.seat i).bet < t.price) :
    t.owes i = true := by
  have hne : ¬ (t.seat i).bet = t.price := hbet.ne
  simp [owes, h, hne]

theorem owes_of_not_acted {i : ℕ} (h : t.able i = true) (hacted : t.seatActedThisRound i = false) :
    t.owes i = true := by simp [owes, h, hacted]

theorem owes_congr {i : ℕ} (hseat : t'.seat i = t.seat i) (hprice : t'.price = t.price)
    (hacted : t'.seatActedThisRound i = t.seatActedThisRound i) : t'.owes i = t.owes i := by
  rw [owes, owes, able, able, hseat, hprice, hacted]

theorem lt_of_able {i : ℕ} (h : t.Manned) (hable : t.able i = true) :
    i < t.rules.maxPlayers := by
  have hocc : (t.seat i).isOccupied = true := by
    simp only [able, Seat.isActionable, Bool.and_eq_true] at hable
    exact hable.1.1.1
  obtain ⟨k, rfl, hk⟩ := Exec.isOccupied_seat hocc
  exact (h.seats k).inside (by rwa [hk] at hocc)

theorem playing_of_able {k : Fin maxSeats} (h : t.able k = true) :
    ∃ p, t.seats k = .playing p ∧ p.status = .active := by
  rw [able, seat_val, Seat.isActionable_iff_status] at h
  cases hs : t.seats k with
  | playing p =>
    rw [hs] at h
    refine ⟨p, rfl, ?_⟩
    cases hp : p.status <;> simp [Seat.status, hp] at h
    rfl
  | _ =>
    rw [hs] at h
    cases h

theorem isBettingComplete_eq_false (hr : t.bettingRound.isSome = true) :
    t.isBettingComplete = false ↔ ∃ i : Fin maxSeats, t.owes i = true := by
  obtain ⟨round, hround⟩ := Option.isSome_iff_exists.mp hr
  have hprice : t.price = round.currentBet := by rw [price, hround]; rfl
  have hone (i : Fin maxSeats) : (!(t.seats i).isActionable ||
      (t.seatActedThisRound i && decide ((t.seats i).bet = round.currentBet))) = !t.owes i := by
    rw [owes, able, seat_val, hprice, Bool.not_and, Bool.not_not]
  rw [isBettingComplete, hround]
  simp only [hone, Bool.eq_false_iff, ne_eq, List.all_eq_true, List.mem_finRange, true_imp_iff,
    not_forall, Bool.not_eq_true', not_not]

theorem betting_of_isBettingRound (h : t.isBettingRound = true) :
    ∃ street round turn d, t.handPhase = .betting street round turn d := by
  have hr := (Bool.and_eq_true_iff.mp h).1
  unfold bettingRound at hr
  split at hr
  · exact ⟨_, _, _, _, by assumption⟩
  · cases hr

theorem seat_of_seats {k : Fin maxSeats} {x : Seat G} (hs : t'.seats = (t.setSeat k x).seats)
    (j : ℕ) : t'.seat j = if j = k.1 then x else t.seat j := by
  unfold seat
  by_cases hj : j < maxSeats
  · rw [dif_pos hj, dif_pos hj, hs]
    rfl
  · rw [dif_neg hj, dif_neg hj, if_neg fun he : j = k.1 => hj (he ▸ k.isLt)]

theorem setSeat_same {k : Fin maxSeats} : (t.setSeat k (t.seats k)).seats = t.seats := by
  funext j
  by_cases hj : j = k
  · rw [hj, seats_setSeat_self]
  · rw [seats_setSeat_of_ne fun he => hj (Fin.ext he)]

/-! ## What an action does -/

/-- A seat acted in the betting round: it owes nothing any more, and the others are as before,
but for a higher price. -/
structure ActsOn (t t' : TexasPokerTable G) (k : Fin maxSeats) : Prop where
  rules : t'.rules = t.rules
  turn : t'.currentTurn = t.currentTurn
  betting : t'.isBettingRound = true
  others : ∀ j : ℕ, j ≠ k.1 → t'.seat j = t.seat j
  price : t.price ≤ t'.price
  acted : t'.price = t.price → ∀ j : ℕ, j ≠ k.1 →
    t'.seatActedThisRound j = t.seatActedThisRound j
  bet : (t'.seats k).bet ≤ t'.price
  manned : (t'.seats k).Manned t.rules.maxPlayers k
  done : t'.owes k = false

variable {k : Fin maxSeats} {x : Seat G}

/-- An action at the price of the round. -/
theorem actsOn_of_seat (hb : t.isBettingRound = true) (hr : t'.rules = t.rules)
    (hphase : t'.handPhase = t.handPhase.undated) (hmask : t'.actedMask = Mask.insert t.actedMask k)
    (hs : t'.seats = (t.setSeat k x).seats) (hx : x.Manned t.rules.maxPlayers k)
    (hbet : x.bet ≤ t.price) (hdone : x.isActionable = true → x.bet = t.price) :
    ActsOn t t' k := by
  obtain ⟨street, round, turn, d, hp⟩ := betting_of_isBettingRound hb
  have hp' : t'.handPhase = .betting street round turn 0 := by rw [hphase, hp]; rfl
  have hprice : t'.price = t.price := by
    rw [price, price, bettingRound, bettingRound, hp, hp']
  have hk : t'.seats k = x := by rw [hs, seats_setSeat_self]
  have h16 : k.1 < 16 := k.isLt.trans (by decide)
  refine
    { rules := hr, turn := ?_, betting := ?_, others := fun j hj => ?_, price := hprice.ge
      acted := fun _ j hj => ?_, bet := ?_, manned := hk ▸ hx, done := ?_ }
  · rw [currentTurn, currentTurn, hp, hp']
  · rw [isBettingRound, bettingRound, roundState, hp] at hb
    rw [isBettingRound, bettingRound, roundState, hp']
    exact hb
  · rw [seat_of_seats hs, if_neg hj]
  · rw [seatActedThisRound, seatActedThisRound, hmask, seatMaskContains, seatMaskContains,
      Mask.mem_insert h16, decide_eq_false hj, Bool.or_false]
  · rw [hk, hprice]
    exact hbet
  · have hacted : t'.seatActedThisRound k = true := by
      rw [seatActedThisRound, hmask, seatMaskContains_iff, Mask.mem_insert h16]
      exact ⟨k.isLt, by simp⟩
    rw [owes, able, seat_val, hk, hacted, hprice]
    by_cases ha : x.isActionable = true
    · simp [ha, hdone ha]
    · simp [Bool.eq_false_iff.mpr ha]

/-- A kick of the seat to act. -/
theorem actsOn_kicked (hb : t.isBettingRound = true) : ActsOn t (t.kicked k) k := by
  obtain ⟨street, round, turn, d, hp⟩ := betting_of_isBettingRound hb
  have hp' : (t.kicked k).handPhase = .betting street round turn d := by
    change t.handPhase.removeSeat k = _
    rw [hp]
    rfl
  have hprice : (t.kicked k).price = t.price := by
    rw [price, price, bettingRound, bettingRound, hp, hp']
  have hk : (t.kicked k).seats k = (t.seats k).departed := seats_setSeat_self k _
  have hout : (t.kicked k).able k = false := by
    rw [able, seat_val, hk]
    cases t.seats k <;> rfl
  refine
    { rules := rfl, turn := ?_, betting := ?_, others := fun j hj => ?_, price := hprice.ge
      acted := fun _ j hj => ?_, bet := ?_
      manned := Seat.manned_of_unoccupied (hk ▸ Seat.isOccupied_departed _), done := ?_ }
  · rw [currentTurn, currentTurn, hp, hp']
  · rw [isBettingRound_kicked, hb]
  · have hseats : (t.kicked k).seats = (t.setSeat k (t.seats k).departed).seats := rfl
    rw [seat_of_seats hseats, if_neg hj]
  · change seatMaskContains (seatMaskRemove t.actedMask k) j = seatMaskContains t.actedMask j
    rw [seatMaskContains, seatMaskContains, mem_seatMaskRemove k.isLt, decide_eq_true hj,
      Bool.and_true]
  · rw [hk, bet_departed]
    exact Nat.zero_le _
  · rw [owes, hout, Bool.false_and]

/-- The others owe an action as before, or everybody does after a raise. -/
theorem ActsOn.passing (h : ActsOn t t' k) (ht : t.Turning) (hk : t.currentTurn = k.1)
    (hmanned : t.Manned) : Passing t.rules.maxPlayers t'.able t'.owes k := by
  have hne : t.currentTurn ≠ noSeat := by
    rw [hk]
    exact (k.isLt.trans (by decide)).ne
  have hdue := ht.due hne
  rw [hk] at hdue
  have hable {j : ℕ} (hj : j ≠ k.1) : t'.able j = t.able j := by rw [able, able, h.others j hj]
  rcases h.price.eq_or_lt with hsame | hup
  · have howes {j : ℕ} (hj : j ≠ k.1) : t'.owes j = t.owes j :=
      owes_congr (h.others j hj) hsame.symm (h.acted hsame.symm j hj)
    refine hdue.passing h.done (fun j hj hj' => ?_) fun j hj => ?_
    · rw [howes hj]
      exact ⟨hable hj ▸ hj', fun ho => ho⟩
    · by_cases hjk : j = k.1
      · rw [hjk, h.done] at hj
        cases hj
      · rwa [howes hjk] at hj
  · refine .of_all h.done fun j hj hjk hj' => owes_of_bet_lt hj' ?_
    have hseat : t.seat j = t.seats ⟨j, hj.trans_le hmanned.size⟩ := dif_pos _
    rw [h.others j hjk, hseat]
    exact (ht.bets _).trans_lt hup

end TexasPokerTable

namespace Exec

open TexasPokerTable

variable {s m s' : Exec G} {i : ℕ}

/-- A reopened action leaves the raiser's own bit. -/
theorem mem_reopenAction {t : TexasPokerTable G} :
    Mask.mem (t.reopenAction i).actedMask i = Mask.mem t.actedMask i := by
  have hfold (l : List (Fin maxSeats)) (mask : SeatMask) :
      Mask.mem (l.foldl (fun mask j => if j.1 ≠ i ∧ (t.seats j).isActionable then
        Mask.erase mask j else mask) mask) i = Mask.mem mask i := by
    induction l generalizing mask with
    | nil => rfl
    | cons j l ih =>
      rw [List.foldl_cons, ih]
      split
      · rename_i hj
        rw [Mask.mem_erase, decide_eq_true (Ne.symm hj.1), Bool.and_true]
      · rfl
  exact hfold _ _

/-- A raise lifts the price to the raiser's bet. -/
theorem raiseTo_actsOn {totalBet : ℕ} {k : Fin maxSeats} (hb : s.table.isBettingRound = true)
    (hm : s.table.Manned) (h : s.raiseTo k totalBet = .ok m) :
    ActsOn s.table m.table k ∧ s.table.price < m.table.price := by
  obtain ⟨-, -, street, round, turn, d, newRound, needed, k', p, hp, hraise, hk, hseat, u, hu, ht⟩ :=
    raiseTo_eq_ok h
  obtain rfl := Fin.ext hk
  obtain ⟨hup, -, hnew, -, hle, -⟩ := BettingRound.processRaise_eq_ok hraise
  have hphase : m.table.handPhase = .betting street newRound turn 0 := by
    rw [ht]
    split <;> rw [hu] <;> rfl
  have hprice : s.table.price = round.currentBet := by rw [price, bettingRound, hp]; rfl
  have hprice' : m.table.price = totalBet := by rw [price, bettingRound, hphase]; exact hnew
  have hseats : m.table.seats = (s.table.setSeat k' (.playing (p.wagered needed totalBet true))).seats := by
    rw [ht]
    split <;> rw [hu] <;> rfl
  have hk : m.table.seats k' = .playing (p.wagered needed totalBet true) := by
    rw [hseats, seats_setSeat_self]
  have h16 : k'.1 < 16 := k'.isLt.trans (by decide)
  have hacted : m.table.seatActedThisRound k' = true := by
    have hmem : Mask.mem u.actedMask k' = true := by
      rw [hu]
      change Mask.mem (Mask.insert s.table.actedMask k') k' = true
      rw [Mask.mem_insert h16]
      simp
    rw [seatActedThisRound, seatMaskContains_iff, ht]
    refine ⟨k'.isLt, ?_⟩
    split
    · rw [mem_reopenAction, hmem]
    · exact hmem
  have hlt : s.table.price < m.table.price := by rw [hprice, hprice']; exact hup
  have hrest : m.table.rules = s.table.rules := by
    rw [ht]
    split <;> rw [hu] <;> rfl
  refine ⟨{
    rules := hrest, turn := ?_, betting := ?_, others := fun j hj => ?_, price := hlt.le
    acted := fun hsame => absurd hsame hlt.ne', bet := ?_, manned := ?_, done := ?_ }, hlt⟩
  · rw [currentTurn, currentTurn, hp, hphase]
  · rw [isBettingRound, bettingRound, roundState, hp] at hb
    rw [isBettingRound, bettingRound, roundState, hphase]
    exact hb
  · rw [seat_of_seats hseats, if_neg hj]
  · rw [hk, hprice']
    exact Nat.le_refl _
  · rw [hk]
    refine Seat.Manned.wagered ?_ fun _ => rfl
    rw [← hseat]
    exact hm.seats k'
  · rw [owes, able, seat_val, hk, hacted, hprice']
    simp [Seat.bet, PlayingSeat.wagered]

/-- A check or a call pays what the seat owes, as far as its stack goes. -/
theorem matchBet_actsOn {k : Fin maxSeats} (hb : s.table.isBettingRound = true)
    (hm : s.table.Manned) (hbets : (s.table.seats k).bet ≤ s.table.price)
    (h : s.matchBet k = .ok m) : ActsOn s.table m.table k ∧ m.table.price = s.table.price := by
  obtain ⟨hf, ha, -, round, hround, hcase⟩ := matchBet_eq_ok h
  rw [seat_val] at hf ha hcase
  have hprice : s.table.price = round.currentBet := by rw [price, hround]; rfl
  obtain ⟨street, round', turn, d, hp⟩ := betting_of_isBettingRound hb
  have hsame (u : TexasPokerTable G) (hu : u.handPhase = s.table.handPhase) :
      (u.acted k).price = s.table.price := by
    change ({ u with handPhase := u.handPhase.undated } : TexasPokerTable G).price = _
    rw [price, price, bettingRound, bettingRound, hu, hp]
    rfl
  rcases hcase with ⟨hle, ht⟩ | ⟨hlt, k', p, hk', hseat, ht⟩
  · rw [ht]
    refine ⟨actsOn_of_seat (x := s.table.seats k) hb rfl rfl rfl setSeat_same.symm (hm.seats k)
      hbets fun _ => ?_, hsame _ rfl⟩
    exact Nat.le_antisymm hbets (hprice ▸ hle)
  · obtain rfl := Fin.ext hk'
    rw [ht]
    rw [hseat] at hf ha hlt
    have hmanned : (Seat.playing p).Manned s.table.rules.maxPlayers k' := hseat ▸ hm.seats k'
    have hchips : 0 < p.occupied.stack := hmanned.chips rfl hf ha
    have hlt' : p.bet < round.currentBet := hlt
    have hcall : round.processCall p.bet p.occupied.stack =
        min (round.currentBet - p.bet) p.occupied.stack := rfl
    refine ⟨actsOn_of_seat hb rfl rfl rfl rfl (hmanned.wagered fun _ => ?_) ?_ fun hactive => ?_,
      hsame _ rfl⟩
    · exact decide_eq_true (by omega)
    · change p.bet + round.processCall p.bet p.occupied.stack ≤ s.table.price
      omega
    · change p.bet + round.processCall p.bet p.occupied.stack = s.table.price
      rw [Seat.isActionable_iff_status] at hactive
      by_contra hshort
      have hleft : p.occupied.stack - round.processCall p.bet p.occupied.stack = 0 := by omega
      have hpos : 0 < round.processCall p.bet p.occupied.stack := by omega
      simp [Seat.status, PlayingSeat.wagered, hleft, hpos] at hactive

variable [AddCommGroup G] [Protocol G] [DecidableEq G]

omit [AddCommGroup G] [Protocol G] [DecidableEq G] in
theorem Acts.actsOn (h : Acts s m i) (hb : s.table.isBettingRound = true)
    (hm : s.table.Manned) (ht : s.table.Turning) (hturn : s.table.currentTurn = i)
    (hi : i < s.table.rules.maxPlayers) : ∃ k : Fin maxSeats, k.1 = i ∧ ActsOn s.table m.table k := by
  have hi9 : i < maxSeats := hi.trans_le hm.size
  obtain ⟨k, rfl⟩ : ∃ k : Fin maxSeats, k.1 = i := ⟨⟨i, hi9⟩, rfl⟩
  refine ⟨k, rfl, ?_⟩
  have hfolded : ((s.table.seats k).setStatus .folded).isActionable = true →
      ((s.table.seats k).setStatus .folded).bet = s.table.price := by
    intro hactive
    rw [Seat.isActionable_iff_status] at hactive
    cases hs : s.table.seats k <;> rw [hs] at hactive <;> cases hactive
  have hbet : ((s.table.seats k).setStatus .folded).bet ≤ s.table.price := by
    have := ht.bets k
    cases hs : s.table.seats k <;> rw [hs] at this <;> exact this
  cases h with
  | fold h =>
    obtain ⟨-, -, htable, -⟩ := foldSeat_eq_ok h
    rw [htable, seat_val]
    exact actsOn_of_seat hb rfl rfl rfl rfl (hm.seats k).folded hbet hfolded
  | matchBet h => exact (matchBet_actsOn hb hm (ht.bets k) h).1
  | raise h => exact (raiseTo_actsOn hb hm h).1
  | foldOut htable =>
    rw [htable, foldedOut, seat_val]
    exact actsOn_of_seat hb rfl rfl rfl rfl (hm.seats k).folded hbet hfolded
  | kick h =>
    rcases kickSeatRaw_eq_ok h with ⟨hocc, -⟩ | ⟨k', hk', hkick⟩
    · -- the seat to act is occupied
      have hdue := (ht.due (by rw [hturn]; exact (k.isLt.trans (by decide)).ne)).turn
      rw [hturn] at hdue
      have hactive := able_of_owes hdue
      simp only [able, Seat.isActionable, hocc, Bool.false_and] at hactive
      cases hactive
    · obtain rfl := Fin.ext hk'
      rw [hkick.table]
      exact actsOn_kicked hb

end Exec

end TexasPoker
