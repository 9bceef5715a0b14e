import TexasPoker.Machine.Hand
import TexasPoker.Spec.Kick
import TexasPoker.Spec.Submit

/-! # Actions in closed form

Folds, calls and raises, the funding and the flags of a seat: what an accepted call checks,
and what it writes.
-/

namespace TexasPoker

variable {G : Type}

/-- A player after a wager; an emptied stack is all in when `allIn` asks for it. -/
def PlayingSeat.wagered (p : PlayingSeat G) (amount bet : ℕ) (allIn : Bool) : PlayingSeat G :=
  { p with
    occupied := { p.occupied with stack := p.occupied.stack - amount }
    bet
    totalBet := p.totalBet + amount
    status := if p.occupied.stack - amount = 0 ∧ allIn then .allIn else p.status }

theorem PlayingSeat.wager_eq_ok {p p' : PlayingSeat G} {amount bet : ℕ} {allIn : Bool}
    {label : String} (h : p.wager amount bet allIn label = .ok p') :
    amount ≤ p.occupied.stack ∧ p' = p.wagered amount bet allIn := by
  simp only [wager, Fallible.bind_eq_ok, Fallible.checkedSub_eq_ok, Fallible.checkedAdd_eq_ok] at h
  obtain ⟨_, ⟨hle, rfl⟩, _, ⟨-, rfl⟩, h⟩ := h
  cases h
  exact ⟨hle, rfl⟩

theorem Seat.playingMut_eq_ok {s : Seat G} {p : PlayingSeat G} (h : s.playingMut = .ok p) :
    s = .playing p := by
  unfold playingMut at h
  split at h <;> cases h
  rfl

namespace TexasPokerTable

variable {t t' : TexasPokerTable G}

/-- The table after an action of a seat: it acted, and the clock is stopped. -/
def acted (t : TexasPokerTable G) (i : ℕ) : TexasPokerTable G :=
  { t with
    actedMask := Mask.insert t.actedMask i
    handPhase := t.handPhase.undated }

theorem markActed_eq_ok {i : ℕ} (h : t.markActed i = .ok t') :
    t.bettingRound.isSome = true ∧ t' = t.acted i := by
  unfold markActed disarmBettingDeadline at h
  split at h
  · rename_i hp
    cases h
    have hp : t.handPhase = _ := hp
    refine ⟨by simp [bettingRound, hp], ?_⟩
    rw [acted, hp]
    rfl
  · cases h

theorem playing_of_playingMut {i : ℕ} {p : PlayingSeat G}
    (h : (t.seat i).playingMut = .ok p) : ∃ k : Fin maxSeats, k.1 = i ∧ t.seats k = .playing p := by
  have hs := Seat.playingMut_eq_ok h
  have ho : (t.seat i).isOccupied = true := by rw [hs]; rfl
  obtain ⟨k, hk, hseat⟩ := Exec.isOccupied_seat ho
  exact ⟨k, hk, hseat.symm.trans hs⟩

end TexasPokerTable

namespace Exec

variable {s s' : Exec G}

theorem foldSeat_eq_ok {i reason : ℕ} (h : s.foldSeat i reason = .ok s') :
    (s.table.seat i).isFolded = false ∧ s.table.bettingRound.isSome = true ∧
      s'.table = (s.table.setSeat i ((s.table.seat i).setStatus .folded)).acted i ∧
      s.SamePayments s' := by
  simp only [foldSeat, Fallible.bind_eq_ok, Fallible.ensure_eq_ok] at h
  obtain ⟨_, hf, t, ht, h⟩ := h
  obtain ⟨hb, rfl⟩ := TexasPokerTable.markActed_eq_ok ht
  cases h
  exact ⟨by simpa using hf, hb, rfl, .of_event rfl ⟨rfl, rfl, rfl⟩⟩

/-- A seat that owes nothing checks, any other calls as far as its stack goes. -/
theorem matchBet_eq_ok {i : ℕ} (h : s.matchBet i = .ok s') :
    (s.table.seat i).isFolded = false ∧ (s.table.seat i).isAllIn = false ∧ s.SamePayments s' ∧
      ∃ round, s.table.bettingRound = some round ∧
        (round.currentBet ≤ (s.table.seat i).bet ∧ s'.table = s.table.acted i ∨
          (s.table.seat i).bet < round.currentBet ∧
            ∃ (k : Fin maxSeats) (p : PlayingSeat G), k.1 = i ∧ s.table.seats k = .playing p ∧
              s'.table = (s.table.setSeat k (.playing (p.wagered
                (round.processCall p.bet p.occupied.stack)
                (p.bet + round.processCall p.bet p.occupied.stack)
                (0 < round.processCall p.bet p.occupied.stack)))).acted i) := by
  simp only [matchBet] at h
  rw [Fallible.bind_eq_ok] at h
  obtain ⟨round, hround, h⟩ := h
  rw [Fallible.bind_eq_ok] at h
  obtain ⟨_, hactive, h⟩ := h
  obtain ⟨hf, ha⟩ := not_or.mp (Fallible.ensure_eq_ok.mp hactive)
  refine ⟨by simpa using hf, by simpa using ha, ?_⟩
  split at h
  · rename_i hle
    rw [Fallible.bind_eq_ok] at h
    obtain ⟨t, ht, h⟩ := h
    obtain ⟨-, rfl⟩ := TexasPokerTable.markActed_eq_ok ht
    cases h
    exact ⟨.of_event rfl ⟨rfl, rfl, rfl⟩, round, Fallible.orErr_eq_ok.mp hround, .inl ⟨hle, rfl⟩⟩
  · rename_i hlt
    simp only [Fallible.bind_eq_ok, Fallible.checkedAdd_eq_ok] at h
    obtain ⟨p, hp, _, ⟨-, rfl⟩, p', hp', t, ht, h⟩ := h
    obtain ⟨-, rfl⟩ := PlayingSeat.wager_eq_ok hp'
    obtain ⟨-, rfl⟩ := TexasPokerTable.markActed_eq_ok ht
    obtain ⟨k, rfl, hk⟩ := TexasPokerTable.playing_of_playingMut hp
    split at h <;> cases h
    · exact ⟨.of_events (List.append_assoc _ _ _) (by
        simp [TexasPokerEvent.Quiet, TexasPokerEvent.refund, TexasPokerEvent.deposit,
          TexasPokerEvent.rake]), round, Fallible.orErr_eq_ok.mp hround,
        .inr ⟨not_le.mp hlt, k, p, rfl, hk, rfl⟩⟩
    · exact ⟨.of_event rfl ⟨rfl, rfl, rfl⟩, round, Fallible.orErr_eq_ok.mp hround,
        .inr ⟨not_le.mp hlt, k, p, rfl, hk, rfl⟩⟩

/-- A seat that has not acted raises the price; a full raise reopens the action. -/
theorem raiseTo_eq_ok {i totalBet : ℕ} (h : s.raiseTo i totalBet = .ok s') :
    s.table.seatActedThisRound i = false ∧ s.SamePayments s' ∧
      ∃ street round turn d newRound needed, ∃ (k : Fin maxSeats) (p : PlayingSeat G),
        s.table.handPhase = .betting street round turn d ∧
        round.processRaise totalBet p.bet p.occupied.stack = .ok (newRound, needed) ∧
        k.1 = i ∧ s.table.seats k = .playing p ∧
        ∃ u : TexasPokerTable G,
          u = (({ s.table with handPhase := .betting street newRound turn d }).setSeat k
            (.playing (p.wagered needed totalBet true))).acted i ∧
          s'.table = if round.minRaise ≤ totalBet - round.currentBet then u.reopenAction i
            else u := by
  simp only [raiseTo] at h
  split at h
  · rename_i street round turn d hp
    simp only [Fallible.bind_eq_ok, Fallible.ensure_eq_ok, Fallible.mapError_eq_ok] at h
    obtain ⟨_, hacted, ⟨newRound, needed⟩, hraise, p, hpl, p', hp', t, ht, h⟩ := h
    obtain ⟨-, rfl⟩ := PlayingSeat.wager_eq_ok hp'
    obtain ⟨-, rfl⟩ := TexasPokerTable.markActed_eq_ok ht
    obtain ⟨k, rfl, hk⟩ := TexasPokerTable.playing_of_playingMut hpl
    have hseat : s.table.seat k = .playing p := by rw [TexasPokerTable.seat_val, hk]
    rw [hseat] at hraise
    refine ⟨by simpa using hacted, ?_, street, round, turn, d, newRound, needed, k, p, hp, hraise,
      rfl, hk, _, rfl, ?_⟩
    · split at h <;> cases h
      · exact .of_events (List.append_assoc _ _ _) (by
          simp [TexasPokerEvent.Quiet, TexasPokerEvent.refund, TexasPokerEvent.deposit,
            TexasPokerEvent.rake])
      · exact .of_event rfl ⟨rfl, rfl, rfl⟩
    · split at h <;> cases h <;> rfl
  · cases h

/-! ## Funding and flags -/

/-- A funding adds its chips to an occupied seat and to the chip pool. -/
theorem applyFundSeat_eq_ok {i amount : ℕ} {timing : FundTiming}
    (h : s.applyFundSeat i amount timing = .ok s') :
    ∃ (k : Fin maxSeats) (funded : Seat G), k.1 = i ∧ (s.table.seats k).isOccupied = true ∧
      s.table.chipPool + amount ≤ maxTotalBet ∧
      (timing = .nextHand ∧
          (s.table.seats k).setPendingAddon ((s.table.seats k).pendingAddon + amount) =
            .ok funded ∨
        timing = .immediate ∧
          (s.table.seats k).setStack ((s.table.seats k).stack + amount) = .ok funded) ∧
      s'.table = { s.table.setSeat k funded with chipPool := s.table.chipPool + amount } ∧
      s'.refunded = s.refunded ∧ s'.deposited = s.deposited + amount ∧ s'.raked = s.raked := by
  simp only [applyFundSeat] at h
  simp only [Fallible.bind_eq_ok, Fallible.ensure_eq_ok, Fallible.checkedAdd_eq_ok] at h
  obtain ⟨_, -, _, -, _, hocc, _, ⟨-, rfl⟩, _, hle, h⟩ := h
  obtain ⟨k, rfl, hk⟩ := isOccupied_seat hocc
  rw [hk] at hocc h
  cases timing with
  | nextHand =>
    simp only [Fallible.bind_eq_ok, Fallible.checkedAdd_eq_ok] at h
    obtain ⟨_, ⟨-, rfl⟩, funded, hf, h⟩ := h
    cases h
    refine ⟨k, funded, rfl, hocc, hle, .inl ⟨rfl, hf⟩, rfl, ?_, ?_, ?_⟩
    · simp [TexasPokerEvent.refund]
    · simp [TexasPokerEvent.deposit]
    · simp [TexasPokerEvent.rake]
  | immediate =>
    simp only [Fallible.bind_eq_ok, Fallible.checkedAdd_eq_ok] at h
    obtain ⟨_, ⟨-, rfl⟩, funded, hf, h⟩ := h
    cases h
    refine ⟨k, funded, rfl, hocc, hle, .inr ⟨rfl, hf⟩, rfl, ?_, ?_, ?_⟩
    · simp [TexasPokerEvent.refund]
    · simp [TexasPokerEvent.deposit]
    · simp [TexasPokerEvent.rake]

theorem applySetLeaveAfterHand_eq_ok {i : ℕ} {wantLeave : Bool}
    (h : s.applySetLeaveAfterHand i wantLeave = .ok s') :
    (s.table.seat i).isOccupied = true ∧ s.SamePayments s' ∧
      (s' = s ∨ s'.table = s.table.setSeatWantsLeave i wantLeave) := by
  simp only [applySetLeaveAfterHand, Fallible.bind_eq_ok, Fallible.ensure_eq_ok] at h
  obtain ⟨_, -, _, hocc, h⟩ := h
  split at h <;> cases h
  · exact ⟨hocc, .refl _, .inl rfl⟩
  · exact ⟨hocc, .of_event rfl ⟨rfl, rfl, rfl⟩, .inr rfl⟩

theorem consumeTimeBank_eq_ok {i consumedMs : ℕ} (h : s.consumeTimeBank i consumedMs = .ok s') :
    (s.table.seat i).isOccupied = true ∧ s.SamePayments s' ∧
      s'.table = s.table.setSeat i
        ((s.table.seat i).setTimeBankMs ((s.table.seat i).timeBankMs - consumedMs)) := by
  simp only [consumeTimeBank, Fallible.bind_eq_ok, Fallible.ensure_eq_ok] at h
  obtain ⟨_, -, _, hocc, _, -, h⟩ := h
  cases h
  exact ⟨hocc, .of_event rfl ⟨rfl, rfl, rfl⟩, rfl⟩

end Exec

end TexasPoker
