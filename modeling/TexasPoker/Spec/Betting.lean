import TexasPoker.Machine.Betting
import TexasPoker.Spec.Reveal
import TexasPoker.Vault.Closing

/-! # Betting rounds in closed form

Turns, the close of a round, blinds and antes: what each accepted step does to the table.
-/

namespace TexasPoker

variable {G : Type}

/-- The phase with another seat to act and its clock stopped. -/
def HandPhase.withTurn (turn : ℕ) : HandPhase G → HandPhase G
  | .betting street round _ _ => .betting street round turn 0
  | phase => phase

namespace TexasPokerTable

variable {t t' : TexasPokerTable G}

/-- The table with another seat to act. -/
def withTurn (t : TexasPokerTable G) (turn : ℕ) : TexasPokerTable G :=
  { t with handPhase := t.handPhase.withTurn turn }

theorem setBettingTurn_eq_ok {turn : ℕ} (h : t.setBettingTurn turn = .ok t') :
    (turn = noSeat ∨ turn < t.rules.maxPlayers) ∧ t.bettingRound.isSome = true ∧
      t' = t.withTurn turn := by
  rw [setBettingTurn, Fallible.bind_eq_ok] at h
  obtain ⟨_, hturn, h⟩ := h
  refine ⟨Fallible.ensure_eq_ok.mp hturn, ?_⟩
  unfold bettingRound withTurn
  split at h
  · rename_i hp
    cases h
    simp [hp, HandPhase.withTurn]
  · cases h

theorem enterBetting_eq_ok {street turn : ℕ} {round : BettingRound}
    (h : t.enterBetting street round turn 0 = .ok t') :
    t' = { t with handPhase := .betting street round turn 0 } := by
  simp only [enterBetting, Fallible.bind_eq_ok, canonicalAbsoluteDeadline_zero] at h
  obtain ⟨_, -, _, rfl, h⟩ := h
  cases h
  rfl

end TexasPokerTable

namespace Exec

variable {s s' : Exec G}

theorem setCurrentTurn_eq_ok {turn : Option ℕ} (h : s.setCurrentTurn turn = .ok s') :
    (turn.getD noSeat = noSeat ∨ turn.getD noSeat < s.table.rules.maxPlayers) ∧
      s.table.bettingRound.isSome = true ∧ s'.table = s.table.withTurn (turn.getD noSeat) ∧
      s.SamePayments s' := by
  rw [setCurrentTurn, Fallible.bind_eq_ok] at h
  obtain ⟨t, ht, h⟩ := h
  obtain ⟨hturn, hround, rfl⟩ := TexasPokerTable.setBettingTurn_eq_ok ht
  refine ⟨hturn, hround, ?_⟩
  split at h
  · cases h
    exact ⟨rfl, ⟨rfl, rfl, rfl⟩⟩
  · cases h
    exact ⟨rfl, .of_event rfl ⟨rfl, rfl, rfl⟩⟩

theorem setCurrentTurn_still {turn : Option ℕ} (h : s.setCurrentTurn turn = .ok s') :
    Still s s' := by
  obtain ⟨-, -, ht, hp⟩ := setCurrentTurn_eq_ok h
  refine ⟨?_, ?_, ?_, ?_, hp⟩ <;> rw [ht] <;> rfl

/-- The cards each street deals to a board, and the street they open. -/
def streetDeals : List (ℕ × ℕ × ℕ) :=
  [(roundPreflop, 3, roundFlop), (roundFlop, 1, roundTurn), (roundTurn, 1, roundRiver)]

/-- The reveal of the next street is open. -/
inductive OpensNext (s s' : Exec G) : Prop where
  | board {count street : ℕ} {o : Exec G} :
      (s.table.roundState, count, street) ∈ streetDeals →
      s.startCommunityRevealPhase count street = .ok o → s'.table = o.table →
      o.SamePayments s' → OpensNext s s'
  | showdown {o : Exec G} : s.table.roundState = roundRiver →
      s.startShowdownRevealPhase = .ok o → s'.table = o.table → o.SamePayments s' →
      OpensNext s s'

theorem OpensNext.still (h : OpensNext s s') : Still s s' := by
  cases h with
  | board _ ho ht hp =>
    have hs := startCommunityRevealPhase_still ho
    exact hs.trans ⟨by rw [ht], by rw [ht], by rw [ht], by rw [ht], hp⟩
  | showdown _ ho ht hp =>
    have hs := startShowdownRevealPhase_still ho
    exact hs.trans ⟨by rw [ht], by rw [ht], by rw [ht], by rw [ht], hp⟩

variable [AddCommGroup G] [Protocol G] [DecidableEq G]

/-- A closed round ends an uncontested hand or opens the next street. -/
theorem advanceRound_eq_ok (h : s.advanceRound = .ok s') :
    s.table.countActivePlayers ≤ 1 ∧ s.endWithoutShowdown = .ok s' ∨
      2 ≤ s.table.countActivePlayers ∧ ∃ m, s.maybeTriggerRunItTwice = .ok m ∧
        (TexasPokerTable.isBettingStreet m.table.roundState = false ∧ s' = m ∨ OpensNext m s') := by
  rw [advanceRound] at h
  split at h
  · rename_i hc
    exact .inl ⟨hc, h⟩
  rename_i hc
  refine .inr ⟨by omega, ?_⟩
  rw [Fallible.bind_eq_ok] at h
  obtain ⟨m, hm, h⟩ := h
  refine ⟨m, hm, ?_⟩
  have hboard {count street : ℕ} (hd : (m.table.roundState, count, street) ∈ streetDeals)
      (h : (do
        let s ← m.startCommunityRevealPhase count street
        return (s.emit (.currentTurnChanged s.table.id m.table.currentTurnOption none street)).emit
          (.roundAdvanced s.table.id m.table.roundState street s.table.pot
            s.table.communityCards.len)) = (.ok s' : PokerL1Result (Exec G))) : OpensNext m s' := by
    rw [Fallible.bind_eq_ok] at h
    obtain ⟨o, ho, h⟩ := h
    cases h
    exact .board hd ho rfl (.of_events (List.append_assoc _ _ _)
      (by simp [TexasPokerEvent.Quiet, TexasPokerEvent.refund, TexasPokerEvent.deposit,
        TexasPokerEvent.rake]))
  dsimp only at h
  by_cases hp : m.table.roundState = roundPreflop
  · rw [if_pos hp] at h
    exact .inr (hboard (by simp [hp, streetDeals]) h)
  rw [if_neg hp] at h
  by_cases hf : m.table.roundState = roundFlop
  · rw [if_pos hf] at h
    exact .inr (hboard (by simp [hf, streetDeals]) h)
  rw [if_neg hf] at h
  by_cases ht : m.table.roundState = roundTurn
  · rw [if_pos ht] at h
    exact .inr (hboard (by simp [ht, streetDeals]) h)
  rw [if_neg ht] at h
  by_cases hr : m.table.roundState = roundRiver
  · rw [if_pos hr] at h
    simp only [Fallible.bind_eq_ok] at h
    obtain ⟨o, ho, h⟩ := h
    cases h
    exact .inr (.showdown hr ho rfl (.of_events (List.append_assoc _ _ _)
      (by simp [TexasPokerEvent.Quiet, TexasPokerEvent.refund, TexasPokerEvent.deposit,
        TexasPokerEvent.rake])))
  · rw [if_neg hr] at h
    cases h
    exact .inl ⟨by simp [TexasPokerTable.isBettingStreet, hp, hf, ht, hr], rfl⟩

/-- A complete round is collected and closed; otherwise the turn moves on. -/
theorem advanceTurn_eq_ok (h : s.advanceTurn = .ok s') :
    (s.table.isBettingComplete = true ∧ ∃ n c, s.setCurrentTurn none = .ok n ∧
        n.collectBetsToPot = .ok c ∧ c.advanceRound = .ok s') ∨
      s.table.isBettingComplete = false ∧ s.setCurrentTurn
        (s.table.findNextActiveSeat (s.table.currentTurnOption.getD 0)) = .ok s' := by
  rw [advanceTurn] at h
  split at h
  · rename_i hb
    simp only [Fallible.bind_eq_ok] at h
    obtain ⟨n, hn, c, hc, h⟩ := h
    exact .inl ⟨hb, n, c, hn, hc, h⟩
  · rename_i hb
    exact .inr ⟨by simpa using hb, h⟩

/-! ## Chips -/

/-- No chip is lost while somebody is left to win it. -/
abbrev Fair (s s' : Exec G) : Prop :=
  Loses s s' (if s.table.countActivePlayers = 0 then s.table.wagers else 0)

omit [AddCommGroup G] [Protocol G] [DecidableEq G]

theorem Still.countActivePlayers (h : Still s s') :
    s'.table.countActivePlayers = s.table.countActivePlayers := by
  rw [TexasPokerTable.countActivePlayers, h.seats]
  rfl

/-- A fair step after one that moves no chips. -/
theorem Fair.after_still {m : Exec G} (h : Fair m s') (hs : Still s m) : Fair s s' := by
  have hf := h.flow
  rw [hs.wagers, hs.countActivePlayers] at hf
  exact ⟨hf.after hs.flow, fun hw => h.wagers (hs.wagersMatch.mpr hw)⟩

theorem Fair.after_collect {c : Exec G} (h : Fair c s') (hc : s.collectBetsToPot = .ok c) :
    Fair s s' := by
  obtain ⟨ht, -⟩ := collectBetsToPot_eq_ok hc
  have hf := h.flow
  rw [ht, TexasPokerTable.wagers_collected, countActivePlayers_collected] at hf
  refine ⟨hf.after (collectBetsToPot_flow hc), fun hw => h.wagers ?_⟩
  rw [ht]
  exact TexasPokerTable.wagersMatch_collected.mpr hw

theorem Still.fair (h : Still s s') (hc : s.table.countActivePlayers ≠ 0) : Fair s s' := by
  rw [Fair, if_neg hc]
  exact h.loses

variable [AddCommGroup G] [Protocol G] [DecidableEq G]

theorem endWithoutShowdown_fair (h : s.endWithoutShowdown = .ok s') : Fair s s' :=
  (endWithoutShowdown_loses h).1

theorem advanceRound_fair (h : s.advanceRound = .ok s') : Fair s s' := by
  rcases advanceRound_eq_ok h with ⟨-, h⟩ | ⟨hc, m, hm, h⟩
  · exact endWithoutShowdown_fair h
  · have hs : Still s s' := by
      rcases h with ⟨-, rfl⟩ | h
      · exact maybeTriggerRunItTwice_still hm
      · exact (maybeTriggerRunItTwice_still hm).trans h.still
    exact hs.fair (by omega)

theorem advanceTurn_fair (h : s.advanceTurn = .ok s') (hc : s.table.countActivePlayers ≠ 0) :
    Fair s s' := by
  rcases advanceTurn_eq_ok h with ⟨-, n, c, hn, hcol, h⟩ | ⟨-, h⟩
  · exact ((advanceRound_fair h).after_collect hcol).after_still (setCurrentTurn_still hn)
  · exact (setCurrentTurn_still h).fair hc

end Exec

end TexasPoker
