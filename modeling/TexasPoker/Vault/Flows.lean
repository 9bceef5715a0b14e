import TexasPoker.Settlement.Validity
import TexasPoker.Spec.Hand
import TexasPoker.Spec.Moves

/-! # The chips of every function

Wagers, blinds, antes, fundings, payouts, and seats taken and left: what each moves between the
stacks, the pot and the pool.
-/

namespace TexasPoker

variable {G : Type}

namespace Exec

variable {s s' s'' : Exec G} {d r l d' r' l' : ℕ}

/-- A flow that keeps the chips in play equal to the contributions and the pool in its bound. -/
structure Accounts (s s' : Exec G) (deposit rake lost : ℕ) : Prop where
  flow : Flow s s' deposit rake lost
  wagers : s.table.WagersMatch → s'.table.WagersMatch
  refunded : s.refunded ≤ s'.refunded
  pool : 0 < deposit → s'.table.chipPool ≤ maxTotalBet

theorem Accounts.trans (h : Accounts s s' d r l) (h' : Accounts s' s'' d' r' l') :
    Accounts s s'' (d + d') (r + r') (l + l') := by
  refine ⟨h.flow.trans h'.flow, fun hw => h'.wagers (h.wagers hw), h.refunded.trans h'.refunded,
    fun hd => ?_⟩
  rcases Nat.eq_zero_or_pos d' with rfl | hd'
  · have := h.pool (by omega)
    have := h'.flow.pool
    have := h'.refunded
    omega
  · exact h'.pool hd'

/-- Nothing happens before the flow. -/
theorem Accounts.after (h' : Accounts s' s'' d r l) (h : Accounts s s' 0 0 0) :
    Accounts s s'' d r l := by
  simpa using h.trans h'

theorem Loses.accounts (h : Loses s s' l) (hr : s.refunded ≤ s'.refunded) :
    Accounts s s' 0 0 l := ⟨h.flow, h.wagers, hr, fun h0 => absurd h0 (lt_irrefl 0)⟩

theorem Still.accounts (h : Still s s') : Accounts s s' 0 0 0 :=
  h.loses.accounts h.payments.refunded.ge

theorem accounts_notice {e : TexasPokerEvent} (h : e.isNotice = true) :
    Accounts s (s.emit e) 0 0 0 := by
  refine (still_emit ?_).accounts
  cases e <;> first | exact ⟨rfl, rfl, rfl⟩ | cases h

/-- The sums of a table, and how they change. -/
theorem accounts_of_sums (added : ℕ) (hpay : s.SamePayments s')
    (hpool : s'.table.chipPool = s.table.chipPool)
    (hheld : s'.table.held = s.table.held)
    (hwagers : s'.table.wagers = s.table.wagers + added)
    (htotals : s'.table.sumTotalBets = s.table.sumTotalBets + added) : Accounts s s' 0 0 0 := by
  obtain ⟨hr, hd, hk⟩ := hpay
  refine ⟨⟨by omega, by omega, by omega, by omega⟩, fun hw => ?_, hr.ge,
    fun h0 => absurd h0 (lt_irrefl 0)⟩
  rw [TexasPokerTable.WagersMatch] at hw ⊢
  omega

end Exec

namespace TexasPokerTable

variable {t t' : TexasPokerTable G} {g : Seat G → ℕ}

theorem seatSum_of_setSeat {k : Fin maxSeats} {x : Seat G}
    (h : t'.seats = (t.setSeat k x).seats) :
    t'.seatSum g + g (t.seats k) = t.seatSum g + g x := by
  have hs : t'.seatSum g = (t.setSeat k x).seatSum g := by
    rw [seatSum, h]
    rfl
  rw [hs]
  exact seatSum_setSeat k x

/-- A seat that puts `added` of its stack into play. -/
structure Wagers (x x' : Seat G) (added : ℕ) : Prop where
  chips : x'.chips = x.chips
  bet : x'.bet = x.bet + added
  totalBet : x'.totalBet = x.totalBet + added

theorem wagers_wagered {p : PlayingSeat G} {amount : ℕ} (allIn : Bool)
    (h : amount ≤ p.occupied.stack) :
    Wagers (.playing p) (.playing (p.wagered amount (p.bet + amount) allIn)) amount := by
  refine ⟨?_, rfl, rfl⟩
  simp only [Seat.chips, Seat.stack, Seat.pendingAddon, Seat.bet, PlayingSeat.wagered]
  omega

theorem wagers_posted {p : PlayingSeat G} {amount : ℕ} (h : amount ≤ p.occupied.stack)
    (hb : p.bet = 0) : Wagers (.playing p) (.playing (p.posted amount)) amount := by
  refine ⟨?_, ?_, rfl⟩
  · simp only [Seat.chips, Seat.stack, Seat.pendingAddon, Seat.bet, PlayingSeat.posted]
    omega
  · simp only [Seat.bet, PlayingSeat.posted]
    omega

theorem Wagers.refl (x : Seat G) : Wagers x x 0 := ⟨rfl, rfl, rfl⟩

theorem wagers_setStatus {x : Seat G} {status : PlayingSeatStatus} :
    Wagers x (x.setStatus status) 0 := by
  cases x <;> exact ⟨rfl, rfl, rfl⟩

theorem wagers_setTimeBankMs {x : Seat G} {value : ℕ} : Wagers x (x.setTimeBankMs value) 0 := by
  cases x <;> exact ⟨rfl, rfl, rfl⟩

/-- Only the slot written changes. -/
theorem wagers_setSeat {i : ℕ} {x : Seat G} (h : Wagers (t.seat i) x 0) (j : Fin maxSeats) :
    Wagers (t.seats j) ((t.setSeat i x).seats j) 0 := by
  by_cases hj : j.1 = i
  · subst hj
    rw [seats_setSeat_self, ← seat_val]
    exact h
  · rw [seats_setSeat_of_ne hj]
    exact .refl _

theorem chips_setPendingAddon {x x' : Seat G} {amount : ℕ}
    (h : x.setPendingAddon (x.pendingAddon + amount) = .ok x') :
    x'.chips = x.chips + amount ∧ x'.bet = x.bet ∧ x'.totalBet = x.totalBet := by
  cases x with
  | waiting o =>
    cases h
    refine ⟨?_, rfl, rfl⟩
    simp only [Seat.chips, Seat.stack, Seat.pendingAddon, Seat.bet]
    omega
  | playing p =>
    cases h
    refine ⟨?_, rfl, rfl⟩
    simp only [Seat.chips, Seat.stack, Seat.pendingAddon, Seat.bet]
    omega
  | vacant _ | departedThisHand _ _ _ =>
    simp only [Seat.setPendingAddon] at h
    split at h
    · rename_i h0
      cases h
      have h0 : amount = 0 := by simpa [Seat.pendingAddon] using h0
      subst h0
      exact ⟨rfl, rfl, rfl⟩
    · cases h

end TexasPokerTable

namespace Exec

variable {s s' : Exec G}

/-- A wager moves chips from a stack into play. -/
theorem accounts_wager {k : Fin maxSeats} {x : Seat G} {added : ℕ}
    (hx : TexasPokerTable.Wagers (s.table.seats k) x added)
    (hseats : s'.table.seats = (s.table.setSeat k x).seats)
    (hpot : s'.table.pot = s.table.pot) (hpool : s'.table.chipPool = s.table.chipPool)
    (hpay : s.SamePayments s') : Accounts s s' 0 0 0 := by
  have hc := TexasPokerTable.seatSum_of_setSeat (g := Seat.chips) hseats
  have hb := TexasPokerTable.seatSum_of_setSeat (g := Seat.bet) hseats
  have ht := TexasPokerTable.seatSum_of_setSeat (g := Seat.totalBet) hseats
  rw [hx.chips] at hc
  rw [hx.bet] at hb
  rw [hx.totalBet] at ht
  refine accounts_of_sums added hpay hpool ?_ ?_ ?_
  · rw [TexasPokerTable.held_eq, TexasPokerTable.held_eq, hpot]
    omega
  · rw [TexasPokerTable.wagers, TexasPokerTable.wagers, hpot, TexasPokerTable.sumBets_eq,
      TexasPokerTable.sumBets_eq]
    omega
  · rw [TexasPokerTable.sumTotalBets_eq, TexasPokerTable.sumTotalBets_eq]
    omega

theorem accounts_of_seats (hx : ∀ i, TexasPokerTable.Wagers (s.table.seats i) (s'.table.seats i) 0)
    (hpot : s'.table.pot = s.table.pot) (hpool : s'.table.chipPool = s.table.chipPool)
    (hpay : s.SamePayments s') : Accounts s s' 0 0 0 := by
  have hsum {g : Seat G → ℕ} (hg : ∀ i, g (s'.table.seats i) = g (s.table.seats i)) :
      s'.table.seatSum g = s.table.seatSum g := TexasPokerTable.seatSum_congr hg
  have hb := hsum fun i => (hx i).bet
  refine accounts_of_sums 0 hpay hpool ?_ ?_ ?_
  · rw [TexasPokerTable.held_eq, TexasPokerTable.held_eq, hpot, hsum fun i => (hx i).chips]
  · rw [TexasPokerTable.wagers, TexasPokerTable.wagers, hpot, TexasPokerTable.sumBets_eq,
      TexasPokerTable.sumBets_eq, hb]
    rfl
  · rw [TexasPokerTable.sumTotalBets_eq, TexasPokerTable.sumTotalBets_eq,
      hsum fun i => (hx i).totalBet]
    rfl

/-! ## Actions -/

theorem foldSeat_accounts {i reason : ℕ} (h : s.foldSeat i reason = .ok s') :
    Accounts s s' 0 0 0 := by
  obtain ⟨-, -, ht, hp⟩ := foldSeat_eq_ok h
  refine accounts_of_seats (fun j => ?_) (by rw [ht]; rfl) (by rw [ht]; rfl) hp
  rw [ht]
  exact TexasPokerTable.wagers_setSeat TexasPokerTable.wagers_setStatus j

theorem matchBet_accounts {i : ℕ} (h : s.matchBet i = .ok s') : Accounts s s' 0 0 0 := by
  obtain ⟨-, -, hp, round, -, ⟨-, ht⟩ | ⟨-, k, p, -, hk, ht⟩⟩ := matchBet_eq_ok h
  · exact Still.accounts ⟨by rw [ht]; rfl, by rw [ht]; rfl, by rw [ht]; rfl, by rw [ht]; rfl, hp⟩
  · have hx := TexasPokerTable.wagers_wagered (decide (0 < round.processCall p.bet p.occupied.stack))
      (round.processCall_le_stack p.bet p.occupied.stack)
    rw [← hk] at hx
    refine accounts_wager hx ?_ ?_ ?_ hp <;> rw [ht] <;> rfl

theorem raiseTo_accounts {i totalBet : ℕ} (h : s.raiseTo i totalBet = .ok s') :
    Accounts s s' 0 0 0 := by
  obtain ⟨-, hp, _, round, _, _, newRound, needed, k, p, -, hraise, -, hk, u, hu, ht⟩ :=
    raiseTo_eq_ok h
  obtain ⟨-, hlt, -, rfl, hle, -⟩ := BettingRound.processRaise_eq_ok hraise
  have hbet : totalBet = p.bet + (totalBet - p.bet) := by omega
  have hrest : s'.table.seats = u.seats ∧ s'.table.pot = u.pot ∧ s'.table.chipPool = u.chipPool := by
    rw [ht]
    split <;> exact ⟨rfl, rfl, rfl⟩
  have hx : TexasPokerTable.Wagers (s.table.seats k)
      (.playing (p.wagered (totalBet - p.bet) totalBet true)) (totalBet - p.bet) := by
    have := TexasPokerTable.wagers_wagered true hle
    rw [hk]
    rwa [← hbet] at this
  refine accounts_wager hx ?_ ?_ ?_ hp
  · rw [hrest.1, hu]
    rfl
  · rw [hrest.2.1, hu]
    rfl
  · rw [hrest.2.2, hu]
    rfl

theorem applySetLeaveAfterHand_accounts {i : ℕ} {wantLeave : Bool}
    (h : s.applySetLeaveAfterHand i wantLeave = .ok s') : Accounts s s' 0 0 0 := by
  obtain ⟨-, hp, rfl | ht⟩ := applySetLeaveAfterHand_eq_ok h
  · exact (Still.refl _).accounts
  · exact Still.accounts ⟨by rw [ht]; rfl, by rw [ht]; rfl, by rw [ht]; rfl, by rw [ht]; rfl, hp⟩

theorem consumeTimeBank_accounts {i consumedMs : ℕ}
    (h : s.consumeTimeBank i consumedMs = .ok s') : Accounts s s' 0 0 0 := by
  obtain ⟨-, hp, ht⟩ := consumeTimeBank_eq_ok h
  refine accounts_of_seats (fun j => ?_) (by rw [ht]; rfl) (by rw [ht]; rfl) hp
  rw [ht]
  exact TexasPokerTable.wagers_setSeat TexasPokerTable.wagers_setTimeBankMs j

/-- A funded seat has more chips and the same wagers. -/
theorem chips_funded {x x' : Seat G} {amount : ℕ} {timing : FundTiming}
    (h : timing = .nextHand ∧ x.setPendingAddon (x.pendingAddon + amount) = .ok x' ∨
      timing = .immediate ∧ x.setStack (x.stack + amount) = .ok x') :
    x'.chips = x.chips + amount ∧ x'.bet = x.bet ∧ x'.totalBet = x.totalBet := by
  rcases h with ⟨-, h⟩ | ⟨-, h⟩
  · exact TexasPokerTable.chips_setPendingAddon h
  · obtain ⟨hs, hrest⟩ := Seat.setStack_eq_ok h
    refine ⟨?_, hrest.bet, hrest.totalBet⟩
    simp only [Seat.chips, hs, hrest.addon, hrest.bet]
    omega

/-- A funding is a deposit. -/
theorem applyFundSeat_accounts {i amount : ℕ} {timing : FundTiming}
    (h : s.applyFundSeat i amount timing = .ok s') : Accounts s s' amount 0 0 := by
  obtain ⟨k, x, -, -, hle, hx, ht, hr, hd, hk⟩ := applyFundSeat_eq_ok h
  have hx := chips_funded hx
  have hseats : s'.table.seats = (s.table.setSeat k x).seats := by rw [ht]
  have hpool : s'.table.chipPool = s.table.chipPool + amount := by rw [ht]
  have hpot : s'.table.pot = s.table.pot := by rw [ht]; rfl
  have hc := TexasPokerTable.seatSum_of_setSeat (g := Seat.chips) hseats
  have hb := TexasPokerTable.seatSum_of_setSeat (g := Seat.bet) hseats
  have hb' := TexasPokerTable.seatSum_of_setSeat (g := Seat.totalBet) hseats
  rw [hx.1] at hc
  rw [hx.2.1] at hb
  rw [hx.2.2] at hb'
  have hheld : s'.table.held = s.table.held + amount := by
    rw [TexasPokerTable.held_eq, TexasPokerTable.held_eq, hpot]
    omega
  refine ⟨by constructor <;> omega, fun hw => ?_, hr.ge, fun _ => by omega⟩
  rw [TexasPokerTable.WagersMatch, TexasPokerTable.wagers, TexasPokerTable.sumBets_eq,
    TexasPokerTable.sumTotalBets_eq] at hw ⊢
  omega

end Exec

/-! ## Openings -/

namespace TexasPokerTable

variable {t t' : TexasPokerTable G}

theorem seat_setSeat_of_ne {i j : ℕ} (h : j ≠ i) (x : Seat G) : (t.setSeat i x).seat j = t.seat j := by
  unfold seat
  split
  · exact seats_setSeat_of_ne h x
  · rfl

/-- The stakes of a list of seats, put into play from `t` to `t'`. -/
structure Stakes (t t' : TexasPokerTable G) (bets dead : ℕ) : Prop where
  pot : t'.pot = t.pot
  chipPool : t'.chipPool = t.chipPool
  chips : t'.seatSum Seat.chips + dead = t.seatSum Seat.chips
  sumBets : t'.seatSum Seat.bet = t.seatSum Seat.bet + bets
  totals : t'.seatSum Seat.totalBet = t.seatSum Seat.totalBet + bets + dead

theorem Stakes.trans {t'' : TexasPokerTable G} {bets dead bets' dead' : ℕ}
    (h : Stakes t t' bets dead) (h' : Stakes t' t'' bets' dead') :
    Stakes t t'' (bets + bets') (dead + dead') := by
  obtain ⟨h₁, h₂, h₃, h₄, h₅⟩ := h
  obtain ⟨h₁', h₂', h₃', h₄', h₅'⟩ := h'
  constructor <;> omega

/-- Blinds of distinct seats without a bet. -/
theorem foldlM_postBlind_stakes {l : List (ℕ × ℕ × String)} (hn : (l.map Prod.fst).Nodup)
    (hz : ∀ b ∈ l, (t.seat b.1).bet = 0)
    (h : l.foldlM (fun t b => t.postBlind b.1 b.2.1 b.2.2) t = .ok t') :
    ∃ bets, Stakes t t' bets 0 := by
  induction l generalizing t with
  | nil =>
    obtain rfl : t = t' := by simpa using h
    exact ⟨0, rfl, rfl, rfl, rfl, rfl⟩
  | cons b l ih =>
    rw [List.map_cons, List.nodup_cons] at hn
    rw [List.forall_mem_cons] at hz
    rw [List.foldlM_cons, Fallible.bind_eq_ok] at h
    obtain ⟨u, hu, h⟩ := h
    obtain ⟨k, p, hkb, hk, hle, rfl⟩ := postBlind_eq_ok hu
    have hp : p.bet = 0 := by
      have := hz.1
      rwa [← hkb, seat_val, hk] at this
    have hx := wagers_posted hle hp
    rw [← hk] at hx
    have hc := seatSum_of_setSeat (t := t) (g := Seat.chips) (k := k)
      (x := .playing (p.posted b.2.1)) rfl
    have hb := seatSum_of_setSeat (t := t) (g := Seat.bet) (k := k)
      (x := .playing (p.posted b.2.1)) rfl
    have ht := seatSum_of_setSeat (t := t) (g := Seat.totalBet) (k := k)
      (x := .playing (p.posted b.2.1)) rfl
    rw [hx.chips] at hc
    rw [hx.bet] at hb
    rw [hx.totalBet] at ht
    have hfirst : Stakes t (t.setSeat k (.playing (p.posted b.2.1))) b.2.1 0 :=
      ⟨rfl, rfl, by omega, by omega, by omega⟩
    obtain ⟨bets, hrest⟩ := ih hn.2 (fun c hc => by
      rw [seat_setSeat_of_ne fun he => hn.1 (by rw [← hkb, ← he]; exact List.mem_map_of_mem hc)]
      exact hz.2 c hc) h
    exact ⟨_, hfirst.trans hrest⟩

/-- Antes of distinct seats that can pay them. -/
theorem foldlM_postAnte_stakes {l : List (ℕ × ℕ)} (hn : (l.map Prod.fst).Nodup)
    (hle : ∀ a ∈ l, a.2 ≤ (t.seat a.1).stack)
    (h : l.foldlM (fun t a => t.postAnte a) t = .ok t') :
    Stakes t t' 0 (l.map Prod.snd).sum := by
  induction l generalizing t with
  | nil =>
    obtain rfl : t = t' := by simpa using h
    exact ⟨rfl, rfl, rfl, rfl, rfl⟩
  | cons a l ih =>
    rw [List.map_cons, List.nodup_cons] at hn
    rw [List.forall_mem_cons] at hle
    rw [List.foldlM_cons, Fallible.bind_eq_ok] at h
    obtain ⟨u, hu, h⟩ := h
    obtain ⟨k, p, hka, hk, rfl⟩ := postAnte_eq_ok hu
    have hstack : a.2 ≤ p.occupied.stack := by
      have := hle.1
      rwa [← hka, seat_val, hk] at this
    have hc := seatSum_of_setSeat (t := t) (g := Seat.chips) (k := k)
      (x := .playing (p.anted a.2)) rfl
    have hb := seatSum_of_setSeat (t := t) (g := Seat.bet) (k := k)
      (x := .playing (p.anted a.2)) rfl
    have ht := seatSum_of_setSeat (t := t) (g := Seat.totalBet) (k := k)
      (x := .playing (p.anted a.2)) rfl
    have hchips : (Seat.playing (p.anted a.2)).chips + a.2 = (Seat.playing p).chips := by
      simp only [Seat.chips, Seat.stack, Seat.pendingAddon, Seat.bet, PlayingSeat.anted]
      omega
    have hbet : (Seat.playing (p.anted a.2)).bet = (Seat.playing p).bet := rfl
    have htotal : (Seat.playing (p.anted a.2)).totalBet = (Seat.playing p).totalBet + a.2 := rfl
    rw [← hk] at hchips hbet htotal
    have hfirst : Stakes t (t.setSeat k (.playing (p.anted a.2))) 0 a.2 :=
      ⟨rfl, rfl, by omega, by omega, by omega⟩
    have hrest := ih hn.2 (fun c hc => by
      rw [seat_setSeat_of_ne fun he => hn.1 (by rw [← hka, ← he]; exact List.mem_map_of_mem hc)]
      exact hle.2 c hc) h
    simpa using hfirst.trans hrest

theorem exists_participates_ne (h : t.countActiveOccupied = 2) (bb : ℕ) :
    ∃ i : Fin maxSeats, (t.seats i).participates = true ∧ i.1 ≠ bb := by
  rw [countActiveOccupied, List.countP_eq_length_filter, List.length_eq_two] at h
  obtain ⟨i, j, hij⟩ := h
  have hnodup : ((List.finRange maxSeats).filter fun i => (t.seats i).participates).Nodup :=
    (List.nodup_finRange maxSeats).filter _
  have hmem {x : Fin maxSeats} (hx : x ∈ [i, j]) : (t.seats x).participates = true := by
    rw [← hij] at hx
    simpa using (List.mem_filter.mp hx).2
  rw [hij] at hnodup
  have hne : i ≠ j := by simpa using hnodup
  by_cases hi : i.1 = bb
  · exact ⟨j, hmem (by simp), fun hj => hne (Fin.ext (hi.trans hj.symm))⟩
  · exact ⟨i, hmem (by simp), hi⟩

/-- A rotation reaches every other seat before it is back at its start. -/
theorem findNext_ne {p : Seat G → Bool} {start i : ℕ} (hs : start < t.rules.maxPlayers)
    (hi : i < t.rules.maxPlayers) (hne : i ≠ start) (hp : p (t.seat i) = true) :
    ∃ j, t.findNext p start = some j ∧ j ≠ start := by
  obtain ⟨before, hsplit, hstart⟩ := exists_rotation_eq_append hs
  have hmem : i ∈ before := by
    have := (mem_rotation start).mpr hi
    rw [hsplit, List.mem_append, List.mem_singleton] at this
    exact this.resolve_right hne
  obtain ⟨j, hj⟩ := Option.isSome_iff_exists.mp
    (List.find?_isSome.mpr ⟨i, hmem, hp⟩ : (before.find? fun i => p (t.seat i)).isSome)
  refine ⟨j, ?_, fun he => hstart (he ▸ List.mem_of_find?_eq_some hj)⟩
  change (rotation start t.rules.maxPlayers).find? _ = _
  rw [hsplit, List.find?_append, hj, Option.some_or]

/-- A rotation finds a seat whenever there is one. -/
theorem exists_findNext {p : Seat G → Bool} {i : ℕ} (start : ℕ) (hi : i < t.rules.maxPlayers)
    (hp : p (t.seat i) = true) : ∃ j, t.findNext p start = some j ∧ j < t.rules.maxPlayers := by
  obtain ⟨j, hj⟩ := Option.isSome_iff_exists.mp (List.find?_isSome.mpr
    ⟨i, (mem_rotation start).mpr hi, hp⟩ :
    ((rotation start t.rules.maxPlayers).find? fun i => p (t.seat i)).isSome)
  exact ⟨j, hj, (mem_rotation start).mp (List.mem_of_find?_eq_some hj)⟩

/-- The blinds are posted by two seats. -/
theorem blindSeats_ne (hpad : ∀ i : Fin maxSeats, t.rules.maxPlayers ≤ i.1 →
      (t.seats i).participates = false) (hnone : t.blindSeats.1 ≠ noSeat) :
    t.blindSeats.1 ≠ t.blindSeats.2 := by
  have hlt {i : Fin maxSeats} (hi : (t.seats i).participates = true) :
      i.1 < t.rules.maxPlayers := by
    by_contra hge
    rw [hpad i (not_lt.mp hge)] at hi
    cases hi
  simp only [blindSeats] at hnone ⊢
  split at hnone
  · rename_i htwo
    rw [if_pos htwo]
    obtain ⟨i, hi, -⟩ := exists_participates_ne htwo 0
    obtain ⟨bb, hbb, hbn⟩ : ∃ bb, t.findNextParticipatingSeat t.rotationBase = some bb ∧
        bb < t.rules.maxPlayers := exists_findNext _ (hlt hi) (by rwa [seat_val])
    obtain ⟨j, hj, hne⟩ := exists_participates_ne htwo bb
    obtain ⟨sb, hsb, hsne⟩ : ∃ sb, t.findNextParticipatingSeat bb = some sb ∧ sb ≠ bb :=
      findNext_ne hbn (hlt hj) hne (by rwa [seat_val])
    simp only [hbb, hsb, Option.getD_some]
    exact hsne
  · rename_i htwo
    rw [if_neg htwo]
    dsimp only at hnone ⊢
    split at hnone
    · rename_i hbase
      rw [if_pos hbase]
      exact hbase.1
    · exact absurd rfl hnone

theorem nodup_blinds (hpad : ∀ i : Fin maxSeats, t.rules.maxPlayers ≤ i.1 →
    (t.seats i).participates = false) : (t.blinds.map Prod.fst).Nodup := by
  unfold blinds
  split
  · simp
  · rename_i hnone
    simpa using blindSeats_ne hpad hnone

theorem nodup_antes (bbSeat : ℕ) : ((t.antes bbSeat).map Prod.fst).Nodup := by
  have hfst {stake : ℕ → ℕ} {l : List ℕ} : (l.map fun i => (i, stake i)).map Prod.fst = l := by
    simp [Function.comp_def]
  rw [antes, hfst]
  split
  · simp
  · exact ((List.nodup_finRange maxSeats).filter _).map Fin.val_injective

theorem bet_eq_zero (h : t.sumBets = 0) (i : ℕ) : (t.seat i).bet = 0 := by
  rw [sumBets_eq, seatSum_eq_zero_iff] at h
  unfold seat
  split
  · exact h _
  · rfl

end TexasPokerTable

namespace Exec

variable {s s' : Exec G}

theorem opening_rules {b a : Exec G} {bbSeat : ℕ} (hb : s.postBlinds = .ok (b, bbSeat))
    (ha : b.collectAnte bbSeat = .ok a) : a.table.rules = s.table.rules := by
  obtain ⟨-, -, ht⟩ := postBlinds_eq_ok hb
  have hblind : b.table.rules = s.table.rules := by
    refine Fallible.foldlM_keeps (P := fun t : TexasPokerTable G => t.rules = s.table.rules)
      (fun c _ t t' h hr => ?_) ht rfl
    obtain ⟨k, p, -, -, -, rfl⟩ := TexasPokerTable.postBlind_eq_ok h
    exact hr
  obtain ⟨-, ⟨-, rfl⟩ | ⟨-, ht⟩⟩ := collectAnte_eq_ok ha
  · exact hblind
  · refine Fallible.foldlM_keeps (P := fun t : TexasPokerTable G => t.rules = s.table.rules)
      (fun c _ t t' h hr => ?_) ht hblind
    obtain ⟨k, p, -, -, rfl⟩ := TexasPokerTable.postAnte_eq_ok h
    exact hr

/-- Blinds and antes of a hand in which nobody has bet. -/
theorem opening_accounts {b a : Exec G} {bbSeat : ℕ} (hz : s.table.sumBets = 0)
    (hpad : ∀ i : Fin maxSeats, s.table.rules.maxPlayers ≤ i.1 →
      (s.table.seats i).participates = false)
    (hb : s.postBlinds = .ok (b, bbSeat)) (ha : b.collectAnte bbSeat = .ok a) :
    Accounts s a 0 0 0 := by
  obtain ⟨-, hpb, ht⟩ := postBlinds_eq_ok hb
  obtain ⟨bets, hpot, hpool, hchips, hbets, htotals⟩ :=
    TexasPokerTable.foldlM_postBlind_stakes (t := { s.table with lastBbSeat := bbSeat })
      (TexasPokerTable.nodup_blinds hpad) (fun c _ => TexasPokerTable.bet_eq_zero hz c.1) ht
  have hsb : Accounts s b 0 0 0 := by
    refine accounts_of_sums bets hpb hpool ?_ ?_ ?_
    · rw [TexasPokerTable.held_eq, TexasPokerTable.held_eq, hpot]
      exact congrArg (s.table.pot + ·) hchips
    · rw [TexasPokerTable.wagers, TexasPokerTable.wagers, hpot, TexasPokerTable.sumBets_eq,
        TexasPokerTable.sumBets_eq, hbets]
      exact (Nat.add_assoc _ _ _).symm
    · rw [TexasPokerTable.sumTotalBets_eq, TexasPokerTable.sumTotalBets_eq]
      exact htotals
  obtain ⟨hpa, ⟨-, rfl⟩ | ⟨-, ht⟩⟩ := collectAnte_eq_ok ha
  · exact hsb
  have hle : ∀ c ∈ b.table.antes bbSeat, c.2 ≤ (b.table.seat c.1).stack := by
    intro c hc
    obtain ⟨i, -, rfl⟩ := List.mem_map.mp hc
    exact min_le_right _ _
  refine Accounts.after ?_ hsb
  generalize hdead : ((b.table.antes bbSeat).map Prod.snd).sum = dead at ht
  obtain ⟨hpot, hpool, hchips, hbets, htotals⟩ := TexasPokerTable.foldlM_postAnte_stakes
    (t := { b.table with pot := b.table.pot + dead }) (TexasPokerTable.nodup_antes bbSeat) hle ht
  rw [hdead] at hchips htotals
  change a.table.seatSum Seat.chips + dead = b.table.seatSum Seat.chips at hchips
  change a.table.seatSum Seat.bet = b.table.seatSum Seat.bet + 0 at hbets
  change a.table.seatSum Seat.totalBet = b.table.seatSum Seat.totalBet + 0 + dead at htotals
  change a.table.pot = b.table.pot + dead at hpot
  refine accounts_of_sums dead hpa hpool ?_ ?_ ?_
  · rw [TexasPokerTable.held_eq, TexasPokerTable.held_eq]
    omega
  · rw [TexasPokerTable.wagers, TexasPokerTable.wagers, TexasPokerTable.sumBets_eq,
      TexasPokerTable.sumBets_eq]
    omega
  · rw [TexasPokerTable.sumTotalBets_eq, TexasPokerTable.sumTotalBets_eq]
    omega

/-- A betting round opens on a table without bets. -/
theorem bettingOpened_accounts {isPreflop : Bool} (hz : s.table.sumBets = 0 ∨ isPreflop = true) :
    Accounts s (s.withTable (s.table.bettingOpened isPreflop)) 0 0 0 := by
  cases isPreflop with
  | true => exact Still.accounts ⟨rfl, rfl, rfl, rfl, ⟨rfl, rfl, rfl⟩⟩
  | false =>
    refine accounts_of_seats (fun i => ?_) rfl rfl ⟨rfl, rfl, rfl⟩
    have hbet : (s.table.seats i).bet = 0 := by
      simpa using TexasPokerTable.bet_eq_zero (hz.resolve_right (by simp)) i.1
    change TexasPokerTable.Wagers (s.table.seats i) (s.table.seats i).clearBet 0
    cases hs : s.table.seats i with
    | playing p =>
      rw [hs] at hbet
      have hp : p.bet = 0 := hbet
      refine ⟨?_, hp.symm, rfl⟩
      simp [Seat.chips, Seat.clearBet, Seat.bet, Seat.stack, Seat.pendingAddon, hp]
    | _ => exact .refl _

/-! ## Cards -/

theorem wagers_of_withoutHand {x x' : Seat G} (h : x'.withoutHand = x.withoutHand) :
    TexasPokerTable.Wagers x x' 0 := by
  have hsame (y : Seat G) : TexasPokerTable.Wagers y y.withoutHand 0 := by
    cases y <;> exact ⟨rfl, rfl, rfl⟩
  have hx := hsame x
  rw [← h] at hx
  exact ⟨(hsame x').chips.symm.trans hx.chips, (hsame x').bet.symm.trans hx.bet,
    (hsame x').totalBet.symm.trans hx.totalBet⟩

/-- Only tokens and cards come. -/
structure SameChips (s s' : Exec G) : Prop where
  slots : ∀ i, (s'.table.seats i).withoutHand = (s.table.seats i).withoutHand
  pot : s'.table.pot = s.table.pot
  chipPool : s'.table.chipPool = s.table.chipPool
  rules : s'.table.rules = s.table.rules
  payments : s.SamePayments s'

theorem GivesTokens.sameChips [AddCommGroup G] [Protocol G] [DecidableEq G] {i : ℕ}
    {tokens : List G} (h : GivesTokens s s' i tokens) : SameChips s s' := by
  cases h with
  | waits _ _ _ ht hp =>
    exact ⟨fun j => by rw [ht]; rfl, by rw [ht]; rfl, by rw [ht]; rfl, by rw [ht]; rfl, hp⟩
  | writes _ _ hm hpm hw ht hp =>
    obtain ⟨hcards, hpw⟩ := hw.writesCards
    obtain ⟨ledger, hrest⟩ := hcards.rest
    refine ⟨fun j => ?_, ?_, ?_, ?_, hpm.trans (hpw.trans hp)⟩
    · have := hcards.seats j
      rw [hm] at this
      rw [ht]
      exact this
    all_goals
      rw [ht, hrest, hm]
      rfl

/-! ## Payouts -/

variable [AddCommGroup G] [Protocol G] [DecidableEq G]

omit [DecidableEq G] in
/-- An accepted plan pays its awards to the stacks and its rake out of the pool. -/
theorem applySettlementPlan_eq_ok {plan : SettlementPlan}
    (h : s.applySettlementPlan plan = .ok s') :
    plan.validate s.table.rules.maxPlayers = .ok () ∧ s.table.pot = plan.grossPot ∧
      plan.rake ≤ s.table.chipPool ∧
      s'.table = { s.table with
        seats := s'.table.seats, chipPool := s.table.chipPool - plan.rake, pot := 0 } ∧
      (∀ i, (s.table.seats i).setStack ((s.table.seats i).stack + plan.awards i) =
        .ok (s'.table.seats i)) ∧
      s'.refunded = s.refunded ∧ s'.deposited = s.deposited ∧ s'.raked = s.raked + plan.rake := by
  simp only [applySettlementPlan, Fallible.bind_eq_ok, Fallible.ensure_eq_ok,
    Fallible.checkedSub_eq_ok, TexasPokerTable.payAwards] at h
  obtain ⟨_, hvalid, _, hgross, _, ⟨hle, rfl⟩, t, ⟨_, -, ht⟩, h⟩ := h
  obtain ⟨hrest, hseats⟩ := TexasPokerTable.mapSeatsM_eq_ok ht
  generalize hu : ({ t with chipPool := s.table.chipPool - plan.rake, pot := 0 } :
    TexasPokerTable G) = u at h
  -- Only the event of the plan itself records a payment.
  have hquiet : ∀ e ∈ plan.activePots.flatMap fun pot =>
      ((List.ofFn pot.runouts).take plan.schedule.count).flatMap (u.awardEvents pot), e.Quiet := by
    intro e he
    obtain ⟨pot, -, he⟩ := List.mem_flatMap.mp he
    obtain ⟨runout, -, he⟩ := List.mem_flatMap.mp he
    obtain ⟨i, -, rfl⟩ := List.mem_map.mp he
    exact ⟨rfl, rfl, rfl⟩
  have hpay (c : Exec G) {es : List TexasPokerEvent} {e : TexasPokerEvent}
      (hes : ∀ e ∈ es, e.Quiet) (he : e.Quiet) :
      c.SamePayments ((⟨c.table, c.events ++ es⟩ : Exec G).emit e) := by
    have h : c.SamePayments ⟨c.table, c.events ++ es⟩ := .of_events rfl hes
    exact h.emit he
  have hc (e : TexasPokerEvent) (hr : e.refund = 0) (hd : e.deposit = 0) (hk : e.rake = plan.rake)
      (hs : ((s.withTable u).emit e).SamePayments s') (ht : s'.table = u) :
      s'.table = { s.table with
          seats := s'.table.seats, chipPool := s.table.chipPool - plan.rake, pot := 0 } ∧
        (∀ i, (s.table.seats i).setStack ((s.table.seats i).stack + plan.awards i) =
          .ok (s'.table.seats i)) ∧
        s'.refunded = s.refunded ∧ s'.deposited = s.deposited ∧
          s'.raked = s.raked + plan.rake := by
    have h₁ := hs.refunded
    have h₂ := hs.deposited
    have h₃ := hs.raked
    rw [refunded_emit, refunded_withTable, hr] at h₁
    rw [deposited_emit, deposited_withTable, hd] at h₂
    rw [raked_emit, raked_withTable, hk] at h₃
    refine ⟨?_, fun i => ?_, h₁, h₂, h₃⟩
    · rw [ht, ← hu, hrest]
    · rw [ht, ← hu]
      exact hseats i
  refine ⟨hvalid, hgross, hle, ?_⟩
  split at h
  · cases h
    exact hc _ rfl rfl rfl ((SamePayments.of_event rfl ⟨rfl, rfl, rfl⟩).trans
      (hpay _ hquiet ⟨rfl, rfl, rfl⟩)) rfl
  · cases h
    exact hc _ rfl rfl rfl (hpay _ hquiet ⟨rfl, rfl, rfl⟩) rfl

omit [DecidableEq G] in
theorem applySettlementPlan_flow {plan : SettlementPlan} (h : s.applySettlementPlan plan = .ok s') :
    Flow s s' 0 plan.rake 0 ∧ s'.table.wagers = s.table.sumBets := by
  obtain ⟨hvalid, hgross, hle, ht, hseats, hr, hd, hk⟩ := applySettlementPlan_eq_ok h
  have hconserves := (SettlementPlan.valid_of_validate hvalid).conserves
  have hstack (i : Fin maxSeats) :
      (s'.table.seats i).chips = (s.table.seats i).chips + plan.awards i ∧
        (s'.table.seats i).bet = (s.table.seats i).bet := by
    obtain ⟨hstack, hsame⟩ := Seat.setStack_eq_ok (hseats i)
    refine ⟨?_, hsame.bet⟩
    simp only [Seat.chips, hstack, hsame.addon, hsame.bet]
    omega
  have hchips : s'.table.seatSum Seat.chips = s.table.seatSum Seat.chips + plan.awards.sum := by
    simp only [TexasPokerTable.seatSum, SeatAmounts.sum, ← Finset.sum_add_distrib]
    exact Finset.sum_congr rfl fun i _ => (hstack i).1
  have hbets : s'.table.seatSum Seat.bet = s.table.seatSum Seat.bet :=
    TexasPokerTable.seatSum_congr fun i => (hstack i).2
  have hpot : s'.table.pot = 0 := by rw [ht]
  have hpool : s'.table.chipPool + plan.rake = s.table.chipPool := by
    rw [ht]
    exact Nat.sub_add_cancel hle
  have hheld : s'.table.held + plan.rake = s.table.held := by
    rw [TexasPokerTable.held_eq, TexasPokerTable.held_eq, hpot, hchips, hgross]
    omega
  refine ⟨by constructor <;> omega, ?_⟩
  rw [TexasPokerTable.wagers, TexasPokerTable.sumBets_eq, TexasPokerTable.sumBets_eq, hbets, hpot,
    Nat.zero_add]

/-- A settlement applies a plan and starts over. -/
theorem settleHand_eq_ok (h : s.settleHand = .ok s') :
    s' = s ∨ ∃ plan m, s.applySettlementPlan plan = .ok m ∧ m.resetForNextHand = .ok s' := by
  simp only [settleHand] at h
  split at h
  · cases h
    exact .inl rfl
  split at h
  · cases h
    exact .inl rfl
  rw [Fallible.bind_eq_ok] at h
  obtain ⟨boards, -, h⟩ := h
  rw [Fallible.bind_eq_ok] at h
  obtain ⟨plan, -, h⟩ := h
  rw [Fallible.bind_eq_ok] at h
  obtain ⟨m, hm, h⟩ := h
  exact .inr ⟨plan, m, hm, h⟩

/-- A settlement loses the live bets. -/
theorem settle_accounts {plan : SettlementPlan} {m : Exec G}
    (hm : s.applySettlementPlan plan = .ok m) (h : m.resetForNextHand = .ok s') :
    Accounts s s' 0 plan.rake s.table.sumBets := by
  obtain ⟨hflow, hw⟩ := applySettlementPlan_flow hm
  obtain ⟨-, -, -, -, -, hr, -, -⟩ := applySettlementPlan_eq_ok hm
  obtain ⟨hloses, -⟩ := resetForNextHand_loses h
  obtain ⟨hreset, -⟩ := resetForNextHand_payments h
  rw [hw] at hloses
  refine ⟨?_, fun _ => ?_, by omega, fun h0 => absurd h0 (lt_irrefl 0)⟩
  · simpa using hflow.trans hloses.flow
  · rw [(resetForNextHand_table h).2]
    exact TexasPokerTable.wagersMatch_afterHand

theorem resetForNextHand_accounts (h : s.resetForNextHand = .ok s') :
    Accounts s s' 0 0 s.table.wagers := by
  refine (resetForNextHand_loses h).1.accounts ?_
  rw [(resetForNextHand_payments h).1]
  exact Nat.le_add_right _ _

theorem endWithoutShowdown_accounts (h : s.endWithoutShowdown = .ok s') :
    Accounts s s' 0 0 (if s.table.countActivePlayers = 0 then s.table.wagers else 0) := by
  refine (endWithoutShowdown_loses h).1.accounts ?_
  simp only [endWithoutShowdown, Fallible.bind_eq_ok] at h
  obtain ⟨c, hc, a, ha, hr⟩ := h
  have := (collectBetsToPot_eq_ok hc).2.refunded
  have := (awardSurvivor_eq_ok ha).1.refunded
  have := (resetForNextHand_accounts hr).refunded
  omega

theorem advanceRound_accounts (h : s.advanceRound = .ok s') :
    Accounts s s' 0 0 (if s.table.countActivePlayers = 0 then s.table.wagers else 0) := by
  refine (advanceRound_fair h).accounts ?_
  rcases advanceRound_eq_ok h with ⟨-, h⟩ | ⟨-, m, hm, h⟩
  · exact (endWithoutShowdown_accounts h).refunded
  · have hs : Still s s' := by
      rcases h with ⟨-, rfl⟩ | h
      · exact maybeTriggerRunItTwice_still hm
      · exact (maybeTriggerRunItTwice_still hm).trans h.still
    exact hs.payments.refunded.ge

/-- A closed round keeps its chips while somebody is left to win them. -/
theorem closeRound_accounts {c : Exec G} (hc : s.collectBetsToPot = .ok c)
    (h : c.advanceRound = .ok s') :
    Accounts s s' 0 0 (if s.table.countActivePlayers = 0 then s.table.wagers else 0) := by
  refine ((advanceRound_fair h).after_collect hc).accounts ?_
  have := (collectBetsToPot_eq_ok hc).2.refunded
  have := (advanceRound_accounts h).refunded
  omega

omit [AddCommGroup G] [Protocol G] [DecidableEq G] in
theorem refundAllBets_accounts (h : s.refundAllBets = .ok s') (hw : s.table.WagersMatch) :
    Accounts s s' 0 0 (s.table.seatSum Seat.forfeit) := by
  obtain ⟨-, hp⟩ := refundAllBets_eq_ok h
  exact (refundAllBets_loses h hw).1.accounts hp.refunded.ge

omit [Protocol G] [DecidableEq G] [AddCommGroup G] in
theorem kickSeatRaw_accounts {i : ℕ} {reason : KickCause} (h : s.kickSeatRaw i reason = .ok s') :
    Accounts s s' 0 0 0 := by
  refine (kickSeatRaw_keepsWagers h).loses.accounts ?_
  rcases kickSeatRaw_eq_ok h with ⟨-, rfl⟩ | ⟨k, -, hk⟩
  · exact le_rfl
  · rw [hk.refunded]
    exact Nat.le_add_right _ _

/-! ## Seats taken and left -/

omit [AddCommGroup G] [Protocol G] [DecidableEq G] in
theorem chips_of_findEmptySeat {t : TexasPokerTable G} {k : Fin maxSeats}
    (h : t.findEmptySeat = some k.1) :
    (t.seats k).chips = 0 ∧ (t.seats k).bet = 0 ∧ (t.seats k).totalBet = 0 := by
  obtain ⟨j, hj, hjk⟩ := Option.map_eq_some_iff.mp h
  obtain rfl := Fin.ext hjk
  have hvacant : (t.seats j).isVacant = true := by simpa using List.find?_some hj
  cases hs : t.seats j <;> rw [hs] at hvacant <;> first | exact ⟨rfl, rfl, rfl⟩ | cases hvacant

theorem applyJoinTable_accounts {player : Address} {buyIn : ℕ} {pk : G} {txPk : TaggedPubkey}
    {proof : Bytes} (h : s.applyJoinTable player buyIn pk txPk proof = .ok s') :
    Accounts s s' buyIn 0 0 := by
  obtain ⟨-, -, -, hle, k, o, -, hfind, -, ho, -, haddon, ht, hr, hd, hk⟩ := applyJoinTable_eq_ok h
  have hold := chips_of_findEmptySeat hfind
  have hnew : (Seat.waiting o).chips = buyIn := by
    simp [Seat.chips, Seat.stack, Seat.pendingAddon, Seat.bet, ho, haddon]
  have hseats : s'.table.seats = (s.table.setSeat k (.waiting o)).seats := by rw [ht]
  have hpool : s'.table.chipPool = s.table.chipPool + buyIn := by rw [ht]
  have hpot : s'.table.pot = s.table.pot := by rw [ht]; rfl
  have hc := TexasPokerTable.seatSum_of_setSeat (g := Seat.chips) hseats
  have hb := TexasPokerTable.seatSum_of_setSeat (g := Seat.bet) hseats
  have hb' := TexasPokerTable.seatSum_of_setSeat (g := Seat.totalBet) hseats
  rw [hold.1, hnew] at hc
  rw [hold.2.1] at hb
  rw [hold.2.2] at hb'
  change _ = _ + 0 at hb
  change _ = _ + 0 at hb'
  have hheld : s'.table.held = s.table.held + buyIn := by
    rw [TexasPokerTable.held_eq, TexasPokerTable.held_eq, hpot]
    omega
  refine ⟨by constructor <;> omega, fun hw => ?_, hr.ge, fun _ => by omega⟩
  rw [TexasPokerTable.WagersMatch, TexasPokerTable.wagers, TexasPokerTable.sumBets_eq,
    TexasPokerTable.sumTotalBets_eq] at hw ⊢
  omega

omit [Protocol G] in
/-- A player leaves with everything, when nothing is in play. -/
theorem applyLeaveTable_accounts {i : ℕ} (hz : s.table.wagers = 0) (hw : s.table.WagersMatch)
    (h : s.applyLeaveTable i = .ok s') : Accounts s s' 0 0 0 := by
  obtain ⟨-, k, -, -, hle, ht, hr, hd, hk⟩ := applyLeaveTable_eq_ok h
  have hbet : (s.table.seats k).bet = 0 := by
    have : s.table.sumBets = 0 := by
      rw [TexasPokerTable.wagers] at hz
      omega
    simpa using TexasPokerTable.bet_eq_zero this k.1
  have htotal : (s.table.seats k).totalBet = 0 := by
    rw [TexasPokerTable.WagersMatch, hz, TexasPokerTable.sumTotalBets_eq] at hw
    exact TexasPokerTable.seatSum_eq_zero_iff.mp hw.symm k
  have hseats : s'.table.seats = (s.table.setSeat k .empty).seats := by rw [ht]
  have hpot : s'.table.pot = s.table.pot := by rw [ht]; rfl
  have hpool : s'.table.chipPool = s.table.chipPool -
      ((s.table.seats k).stack + (s.table.seats k).pendingAddon) := by rw [ht]
  have hc := TexasPokerTable.seatSum_of_setSeat (g := Seat.chips) hseats
  have hb := TexasPokerTable.seatSum_of_setSeat (g := Seat.bet) hseats
  have hb' := TexasPokerTable.seatSum_of_setSeat (g := Seat.totalBet) hseats
  change _ = _ + 0 at hc
  change _ = _ + 0 at hb
  change _ = _ + 0 at hb'
  rw [Seat.chips] at hc
  have hheld : s'.table.held + ((s.table.seats k).stack + (s.table.seats k).pendingAddon) =
      s.table.held := by
    rw [TexasPokerTable.held_eq, TexasPokerTable.held_eq, hpot]
    omega
  refine ⟨by constructor <;> omega, fun _ => ?_, by omega, fun h0 => absurd h0 (lt_irrefl 0)⟩
  rw [TexasPokerTable.WagersMatch, TexasPokerTable.wagers, TexasPokerTable.sumBets_eq,
    TexasPokerTable.sumTotalBets_eq] at hw ⊢
  omega

end Exec

end TexasPoker
