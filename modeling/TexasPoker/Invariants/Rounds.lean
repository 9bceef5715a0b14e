import TexasPoker.Invariants.Asked
import TexasPoker.Invariants.Stored
import TexasPoker.Runtime.Client

/-! # Rounds that close

A check, a call or a raise of the seat to act closes the betting round, raises its price, or
leaves fewer seats that owe an action.
-/

namespace TexasPoker

variable {G : Type}

namespace TexasPokerTable

/-- The seats that owe an action. -/
def owing (t : TexasPokerTable G) : Finset (Fin maxSeats) := {i | t.owes i = true}

variable {t t' : TexasPokerTable G}

@[simp] theorem mem_owing {i : Fin maxSeats} : i ∈ t.owing ↔ t.owes i = true := by simp [owing]

/-- What a betting action brings about. -/
def Progresses (t t' : TexasPokerTable G) : Prop :=
  t'.isBettingRound = false ∨ t.price < t'.price ∨ t'.price = t.price ∧ t'.owing ⊂ t.owing

/-- The seat to act can act and owes an action, players that are all in have nothing left, and
nobody bets above the price. -/
structure TurnsTaken (t : TexasPokerTable G) : Prop where
  turn : ∀ street round turn d, t.handPhase = .betting street round turn d → turn ≠ noSeat →
    ∃ (k : Fin maxSeats) (p : PlayingSeat G), k.1 = turn ∧ t.seats k = .playing p ∧
      p.status = .active ∧ 0 < p.occupied.stack ∧
      (t.seatActedThisRound k = false ∨ p.bet < round.currentBet)
  allIn : ∀ (k : Fin maxSeats) (p : PlayingSeat G), t.seats k = .playing p → p.status = .allIn →
    p.occupied.stack = 0
  bets : ∀ street round turn d, t.handPhase = .betting street round turn d →
    ∀ k, (t.seats k).bet ≤ round.currentBet

theorem TurnSound.turnsTaken (h : t.TurnSound)
    (hstreet : t.bettingRound.isSome = true → t.isBettingRound = true) : t.TurnsTaken where
  turn street round turn d hp hne := by
    have hround : t.bettingRound = some round := by rw [bettingRound, hp]
    have hb := hstreet (by rw [hround]; rfl)
    have hcur : t.currentTurn = turn := by rw [currentTurn, hp]
    have hdue := ((h.turning hb).due (by rwa [hcur])).turn
    rw [hcur] at hdue
    have hlt := (lt_of_able h.manned (able_of_owes hdue)).trans_le h.manned.size
    obtain ⟨k, rfl⟩ : ∃ k : Fin maxSeats, k.1 = turn := ⟨⟨turn, hlt⟩, rfl⟩
    obtain ⟨p, hseat, hactive⟩ := playing_of_able (able_of_owes hdue)
    have hchips : 0 < p.occupied.stack := by
      refine (hseat ▸ h.manned.seats k : (Seat.playing p).Manned _ k).chips rfl ?_ ?_ <;>
        simp [Seat.isFolded, Seat.isAllIn, Seat.status, hactive]
    have hbet : p.bet ≤ round.currentBet := by
      have := (h.turning hb).bets k
      rw [hseat, price, hround] at this
      exact this
    refine ⟨k, p, rfl, hseat, hactive, hchips, ?_⟩
    rw [owes, able, seat_val, hseat, price, hround] at hdue
    by_cases hacted : t.seatActedThisRound k = false
    · exact .inl hacted
    · refine .inr (lt_of_le_of_ne hbet fun heq => ?_)
      rw [Bool.not_eq_false] at hacted
      have hsame : (Seat.playing p).bet = (some round).elim 0 BettingRound.currentBet := heq
      rw [hacted, decide_eq_true hsame, Bool.and_true, Bool.not_true, Bool.and_false] at hdue
      cases hdue
  allIn k p hseat hall := by
    refine (hseat ▸ h.manned.seats k : (Seat.playing p).Manned _ k).allIn ?_
    simp [Seat.isAllIn, Seat.status, hall]
  bets street round turn d hp k := by
    have hround : t.bettingRound = some round := by rw [bettingRound, hp]
    have := (h.turning (hstreet (by rw [hround]; rfl))).bets k
    rwa [price, hround] at this

end TexasPokerTable

namespace Exec

open TexasPokerTable

variable [AddCommGroup G] [Protocol G] [DecidableEq G]
variable {s m s' : Exec G}

theorem advanceRound_not_betting (h : s.advanceRound = .ok s') :
    s'.table.isBettingRound = false := by
  rcases advanceRound_eq_ok h with ⟨-, h⟩ | ⟨-, m, -, ⟨hstreet, rfl⟩ | h⟩
  · rw [isBettingRound, bettingRound, (endWithoutShowdown_loses h).2.phase]
    rfl
  · rw [isBettingRound, hstreet, Bool.and_false]
  · exact h.not_betting

theorem advanceTurn_progresses {k : Fin maxSeats} (hact : ActsOn s.table m.table k)
    (ht : s.table.Turning) (hturn : s.table.currentTurn = k) (h : m.advanceTurn = .ok s') :
    Progresses s.table s'.table := by
  rcases advanceTurn_eq_ok h with ⟨-, _, _, -, -, h⟩ | ⟨-, h⟩
  · exact .inl (advanceRound_not_betting h)
  obtain ⟨-, -, htable, -⟩ := setCurrentTurn_eq_ok h
  have hprice : s'.table.price = m.table.price := by rw [htable, price_withTurn]
  have howes (i : ℕ) : s'.table.owes i = m.table.owes i := by
    rw [owes, owes, hprice, htable]
    rfl
  refine .inr ?_
  rw [hprice]
  rcases hact.price.eq_or_lt with hsame | hup
  · refine .inr ⟨hsame.symm, Finset.ssubset_iff_of_subset (fun i hi => ?_) |>.mpr ⟨k, ?_, ?_⟩⟩
    · rw [mem_owing, howes] at hi
      by_cases hik : i = k
      · rw [hik, hact.done] at hi
        cases hi
      · have hne : i.1 ≠ k.1 := fun he => hik (Fin.ext he)
        rw [mem_owing, ← owes_congr (hact.others i hne) hsame.symm (hact.acted hsame.symm i hne)]
        exact hi
    · rw [mem_owing, ← hturn]
      exact (ht.due (by rw [hturn]; exact (k.isLt.trans (by decide)).ne)).turn
    · rw [mem_owing, howes, hact.done]
      decide
  · exact .inl hup

theorem applyPlayerAction_progresses {i : ℕ} {action : PlayerAction} (hs : s.table.TurnSound)
    (hfold : ∀ reason, action ≠ .fold reason) (h : s.applyPlayerAction i action = .ok s') :
    Progresses s.table s'.table := by
  simp only [applyPlayerAction, Fallible.bind_eq_ok, Fallible.ensure_eq_ok] at h
  obtain ⟨_, hi, _, hb, _, hturn, h⟩ := h
  have hturn : s.table.currentTurn = i := of_decide_eq_true hturn
  have hacts {m : Exec G} (hm : Acts s m i) (hpass : m.advanceTurn = .ok s') :
      Progresses s.table s'.table := by
    obtain ⟨k, rfl, hk⟩ := hm.actsOn hb hs.manned (hs.turning hb) hturn hi
    exact advanceTurn_progresses hk (hs.turning hb) hturn hpass
  cases action with
  | fold reason => exact absurd rfl (hfold reason)
  | matchBet =>
    simp only [Fallible.bind_eq_ok] at h
    obtain ⟨m, hm, h⟩ := h
    exact hacts (.matchBet hm) h
  | raiseTo totalBet =>
    simp only [Fallible.bind_eq_ok] at h
    obtain ⟨m, hm, h⟩ := h
    exact hacts (.raise hm) h

/-- The commands that put in a bet or pass on one. -/
def betting : List CanonicalCommand := [.check, .call, .raise, .bet]

theorem runCommand_progresses {context : DispatchContext} {args : Bytes}
    {command : CanonicalCommand} (hc : command ∈ betting) (hs : s.table.TurnSound)
    (h : runCommand context args s command = .ok s') : Progresses s.table s'.table := by
  have hmatch : ∀ reason, PlayerAction.matchBet ≠ .fold reason := by rintro _ ⟨⟩
  have hraise (totalBet : ℕ) : ∀ reason, PlayerAction.raiseTo totalBet ≠ .fold reason := by
    rintro _ ⟨⟩
  simp only [betting, List.mem_cons, List.not_mem_nil, or_false] at hc
  rcases hc with rfl | rfl | rfl | rfl
  · simp only [runCommand, dispatchCheck] at h
    obtain ⟨i, a, -, -, -, h⟩ := dispatchSeat_eq_ok h
    simp only [applyCheck, Fallible.bind_eq_ok] at h
    obtain ⟨_, -, _, -, _, -, h⟩ := h
    exact applyPlayerAction_progresses hs hmatch h
  · simp only [runCommand, dispatchCall] at h
    obtain ⟨i, a, -, -, -, h⟩ := dispatchSeat_eq_ok h
    simp only [applyCall, Fallible.bind_eq_ok] at h
    obtain ⟨_, -, _, -, _, -, h⟩ := h
    exact applyPlayerAction_progresses hs hmatch h
  · simp only [runCommand, dispatchRaise] at h
    obtain ⟨i, a, -, -, -, h⟩ := dispatchSeat_eq_ok h
    rw [applyRaise] at h
    exact applyPlayerAction_progresses hs (hraise _) h
  · simp only [runCommand, dispatchBet] at h
    obtain ⟨i, a, -, -, -, h⟩ := dispatchSeat_eq_ok h
    simp only [applyBet, applyRaise, Fallible.bind_eq_ok] at h
    obtain ⟨_, -, _, -, _, -, _, -, _, -, _, -, m, hm, h⟩ := h
    have hprogress := applyPlayerAction_progresses hs (hraise _) hm
    cases h
    exact hprogress

omit [Protocol G] in
theorem isBettingRound_of_schema {t : TexasPokerTable G} (h : t.Schema)
    (hround : t.bettingRound.isSome = true) : t.isBettingRound = true := by
  obtain ⟨round, hround⟩ := Option.isSome_iff_exists.mp hround
  rw [isBettingRound, hround]
  unfold bettingRound at hround
  split at hround
  · rename_i street _ turn d hp
    have hphase := h.phase
    simp only [validateHandPhase, hp, Fallible.bind_eq_ok, Fallible.ensure_eq_ok] at hphase
    obtain ⟨_, hstreet, -⟩ := hphase
    rw [roundState, hp]
    exact hstreet
  · cases hround

/-- The seats to act of every betting round take their turns, and every check, call and raise
of one brings the round on. -/
structure TakesTurns (s : Exec G) : Prop where
  turns : s.table.TurnsTaken
  progress : ∀ context args, ∀ command ∈ betting, ∀ m,
    runCommand context args ⟨s.table, []⟩ command = .ok m → Progresses s.table m.table

/-- While players bring chips, the seat to act can act and owes an action, and a betting round
comes to an end. -/
theorem takesTurns_isInvariant : ((session G).restrict BringsChips).IsInvariant TakesTurns := by
  refine turnSound_isInvariant.imp fun s hs hsound => ?_
  have hschema := (persist_eq_ok.mp (persist_isInvariant.of_reachable hs.of_restrict)).1
  exact ⟨hsound.turnsTaken (isBettingRound_of_schema hschema),
    fun context args command hc m hm =>
      runCommand_progresses (s := ⟨s.table, []⟩) hc hsound hm⟩

end Exec

namespace Transparent

open TexasPokerTable

/-- A player without chips is to act before the flop. -/
@[irreducible] def emptyHanded : TexasPokerTable ℤ :=
  played (.new 4 50 100) [.join 1 0 2, .join 2 1000 3, .join 3 1000 5, .start, .shuffle 0,
    .shuffle 1, .shuffle 2, .reveal 0, .reveal 1, .reveal 2]

theorem emptyHanded_facts : emptyHanded.isBettingRound = true ∧ emptyHanded.currentTurn = 0 ∧
    (emptyHanded.seats 0).stack = 0 := by
  decide +kernel

/-- The player without chips is asked for chips. -/
theorem emptyHanded_asked : ∃ s : Exec ℤ, (session ℤ).Reachable s ∧ ¬ s.TakesTurns := by
  obtain ⟨hb, hturn, hstack⟩ := emptyHanded_facts
  have hr : emptyHanded.Reachable := by
    unfold emptyHanded
    exact played_reachable (by decide) _
  obtain ⟨events, hs⟩ := hr
  refine ⟨_, hs, fun h => ?_⟩
  obtain ⟨street, round, turn, d, hp⟩ := betting_of_isBettingRound hb
  have hcur : emptyHanded.currentTurn = turn := by rw [currentTurn, hp]
  obtain ⟨k, p, hk, hseat, -, hchips, -⟩ := h.turns.turn street round turn d hp (by
    rw [← hcur, hturn]
    decide)
  obtain rfl : k = 0 := Fin.ext (by rw [hk, ← hcur, hturn]; rfl)
  rw [hseat] at hstack
  exact hchips.ne' hstack

/-- The call is no rebuy, and a join brings chips. -/
def bringsChips (_ : Exec ℤ) (c : Call) : Bool :=
  match CanonicalCommand.fromSelector ℤ c.selector with
  | some .joinTable =>
    match Exec.readJoin (G := ℤ) c.args with
    | .ok (_, buyIn, _) => 0 < buyIn
    | .error _ => true
  | some .rebuy => false
  | _ => true

theorem bringsChips_of_eq_true {s : Exec ℤ} {c : Call} (h : bringsChips s c = true) :
    s.BringsChips c where
  join hc player buyIn txPk proof pk hargs := by
    rw [bringsChips, hc] at h
    dsimp only at h
    rw [hargs] at h
    exact of_decide_eq_true h
  rebuy hc := by
    rw [bringsChips, hc] at h
    cases h

/-- Three players with chips are dealt in, and the first one calls. -/
def chipsBrought : PokerL1Result (Exec ℤ) :=
  playAllowed bringsChips (.new 4 50 100) [.join 1 1000 2, .join 2 1000 3, .join 3 1000 5, .start,
    .shuffle 0, .shuffle 1, .shuffle 2, .reveal 0, .reveal 1, .reveal 2, .act .call 0 []]

/-- The turn has passed on, and the turns are taken. -/
theorem chipsBrought_takesTurns : ∃ s : Exec ℤ, s.table.isBettingRound = true ∧
    s.table.currentTurn = 1 ∧ (s.table.seats 0).bet = 100 ∧ s.TakesTurns := by
  have hrun : Fallible.holds chipsBrought (fun s => s.table.isBettingRound = true ∧
      s.table.currentTurn = 1 ∧ (s.table.seats 0).bet = 100) = true := by
    decide +kernel
  obtain ⟨s, hs, hp⟩ := Fallible.holds_iff.mp hrun
  obtain ⟨hbetting, hturn, hbet⟩ := of_decide_eq_true hp
  have hr := playAllowed_reachable (fun _ _ => bringsChips_of_eq_true) (by decide) hs
  exact ⟨s, hbetting, hturn, hbet, Exec.takesTurns_isInvariant.of_reachable hr⟩

end Transparent

end TexasPoker
