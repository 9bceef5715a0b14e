import TexasPoker.Runtime.Client
import TexasPoker.Vault.Exits

/-! # Conservation through abnormal exits

A kick or a timeout keeps the vault balanced exactly when somebody is left to play for the
chips in a hand that goes on.
-/

namespace TexasPoker

namespace Exec

variable {G : Type} [AddCommGroup G] [Protocol G] [DecidableEq G] {s s' : Exec G}

/-- The abnormal exits. -/
inductive AbnormalExit where
  | kick (seatIndex : ℕ) (reason : KickCause)
  | shuffleTimeout
  | revealTimeout (nowMs : ℕ)
  | reconstructTimeout
  deriving DecidableEq, Repr

/-- Run an abnormal exit. -/
def runExit (s : Exec G) : AbnormalExit → PokerL1Result (Exec G)
  | .kick seatIndex reason => s.kickPlayerInternal seatIndex reason
  | .shuffleTimeout => s.onShuffleTimeout
  | .revealTimeout nowMs => s.onRevealTimeout nowMs
  | .reconstructTimeout => s.onReconstructTimeout

/-- The chips in play are empty, or somebody is left to play for them in a hand that goes on. -/
def SavesChips (t : TexasPokerTable G) : AbnormalExit → Prop
  | .kick seatIndex _ => t.wagers = 0 ∨ 2 ≤ t.survivorsOf seatIndex ∨
      t.survivorsOf seatIndex = 1 ∧ t.isBettingRound = true
  | .shuffleTimeout => t.wagers = 0 ∨ 2 ≤ t.survivorsOf t.shuffleState.derivedCurrentShuffler
  | .revealTimeout _ => t.wagers = 0 ∨ t.survivors (among (lateRevealers t)) = 1 ∨
      2 ≤ t.survivors (among (lateRevealers t)) ∧ t.revealPhase ≠ revealPhasePreflop
  | .reconstructTimeout => t.wagers = 0 ∨
      2 ≤ t.survivors (among (lateReconstructors t)) ∧
        (t.deckState.reconstructAccumulated.isSome = true ∨
          t.forfeits (among (lateReconstructors t)) = 0) ∨
      lateReconstructors t = [] ∧ t.countActivePlayers = 1

/-- The vault still balances, and only refunds of departing players lowered the chip pool. -/
structure Conserves (s s' : Exec G) : Prop where
  vault : s'.table.VaultBalanced
  pool : s'.table.chipPool + s'.refunded = s.table.chipPool + s.refunded

omit [AddCommGroup G] [Protocol G] [DecidableEq G] in
theorem Loses.conserves_iff {lost : ℕ} (h : Loses s s' lost) (hv : s.table.VaultBalanced) :
    Conserves s s' ↔ lost = 0 := by
  have hp := h.flow.pool
  have hh := h.flow.held
  have hc := hv.custody
  constructor
  · intro hc'
    have := hc'.vault.custody
    omega
  · intro h0
    exact ⟨⟨by omega, h.wagers hv.wagers⟩, by omega⟩

/-- An abnormal exit conserves the chips exactly when it saves the chips in play. -/
theorem conserves_exit_iff {exit : AbnormalExit} (h : s.runExit exit = .ok s')
    (hv : s.table.VaultBalanced) : Conserves s s' ↔ SavesChips s.table exit := by
  cases exit with
  | kick i reason =>
    rw [(kickPlayerInternal_loses h).1.conserves_iff hv, TexasPokerTable.shortLoss, SavesChips]
    split <;> simp_all
  | shuffleTimeout =>
    rw [(onShuffleTimeout_loses h hv.wagers).conserves_iff hv, SavesChips]
    split <;> simp_all
  | revealTimeout nowMs =>
    rw [(onRevealTimeout_loses h hv.wagers).conserves_iff hv, SavesChips]
    split <;> simp_all
  | reconstructTimeout =>
    rw [(onReconstructTimeout_loses h hv.wagers).conserves_iff hv, reconstructLoss, SavesChips]
    have hle := s.table.forfeits_le (among (lateReconstructors s.table))
    have hw := hv.wagers
    rw [TexasPokerTable.WagersMatch] at hw
    have h0 : s.table.wagers = 0 → s.table.forfeits (among (lateReconstructors s.table)) = 0 :=
      fun h => by omega
    by_cases hu : 2 ≤ s.table.survivors (among (lateReconstructors s.table))
    · have hn : ¬ (lateReconstructors s.table = [] ∧ s.table.countActivePlayers = 1) := by
        rintro ⟨hnil, hc⟩
        rw [hnil, among_nil, ← TexasPokerTable.countActivePlayers_eq] at hu
        omega
      rw [if_pos hu]
      by_cases ha : s.table.deckState.reconstructAccumulated.isSome = true
      · simp [ha, hu]
      · simp only [ha, hu, hn, or_false, true_and, false_or, Bool.false_eq_true, if_false]
        exact ⟨.inr, fun h => h.elim h0 id⟩
    · rw [if_neg hu]
      split <;> simp_all

end Exec

namespace Transparent

/-- Two players called before the flop, which is being revealed. -/
def calledFlop : TexasPokerTable ℤ :=
  played (.new 4 50 100)
    [.join 1 1000 2, .join 2 1000 3, .start, .shuffle 0, .shuffle 1, .reveal 0, .reveal 1,
      .act .call 1 [], .act .check 0 []]

theorem calledFlop_balanced : calledFlop.VaultBalanced := by
  obtain ⟨hc, hw⟩ : calledFlop.held = calledFlop.chipPool ∧
      calledFlop.wagers = calledFlop.sumTotalBets := by decide +kernel
  exact ⟨hc, hw⟩

/-- A kick on the flop leaves one player and pays the pot of two hundred to nobody. -/
theorem kick_on_flop_loses_pot :
    calledFlop.Reachable ∧ calledFlop.VaultBalanced ∧
      ∃ s', (⟨calledFlop, []⟩ : Exec ℤ).runExit (.kick 0 .admin) = .ok s' ∧
        s'.table.held + 200 = s'.table.chipPool ∧ ¬ Exec.Conserves ⟨calledFlop, []⟩ s' := by
  refine ⟨played_reachable (by decide) _, calledFlop_balanced, ?_⟩
  have h : ∃ s', (⟨calledFlop, []⟩ : Exec ℤ).runExit (.kick 0 .admin) = .ok s' ∧
      s'.table.held + 200 = s'.table.chipPool := by
    have hr : Fallible.holds ((⟨calledFlop, []⟩ : Exec ℤ).runExit (.kick 0 .admin))
        (fun s' => s'.table.held + 200 = s'.table.chipPool) = true := by decide +kernel
    obtain ⟨s', hs, hp⟩ := Fallible.holds_iff.mp hr
    exact ⟨s', hs, of_decide_eq_true hp⟩
  obtain ⟨s', hs, hp⟩ := h
  refine ⟨s', hs, hp, fun hc => ?_⟩
  have := hc.vault.custody
  omega

/-- Two players posted the blinds, and seat one is to act. -/
def firstBlinds : TexasPokerTable ℤ :=
  played (.new 4 50 100)
    [.join 1 1000 2, .join 2 1000 3, .start, .shuffle 0, .shuffle 1, .reveal 0, .reveal 1]

/-- A kick before the flop leaves one player, who wins the blinds. -/
theorem kick_before_flop_conserves : firstBlinds.wagers = 150 ∧
    ∃ s', (⟨firstBlinds, []⟩ : Exec ℤ).runExit (.kick 0 .admin) = .ok s' ∧
      Exec.Conserves ⟨firstBlinds, []⟩ s' := by
  have hsave (t : TexasPokerTable ℤ) (hv : t.VaultBalanced)
      (hleft : t.survivorsOf 0 = 1 ∧ t.isBettingRound = true) {s'}
      (hs : (⟨t, []⟩ : Exec ℤ).runExit (.kick 0 .admin) = .ok s') : Exec.Conserves ⟨t, []⟩ s' :=
    (Exec.conserves_exit_iff hs hv).mpr (.inr (.inr hleft))
  obtain ⟨hr, hc, hw, hplay, hleft⟩ :
      ((⟨firstBlinds, []⟩ : Exec ℤ).runExit (.kick 0 .admin)).isOk = true ∧
      firstBlinds.held = firstBlinds.chipPool ∧
      firstBlinds.wagers = firstBlinds.sumTotalBets ∧ firstBlinds.wagers = 150 ∧
      firstBlinds.survivorsOf 0 = 1 ∧ firstBlinds.isBettingRound = true := by
    decide +kernel
  obtain ⟨s', hs⟩ := Fallible.isOk_iff.mp hr
  exact ⟨hplay, s', hs, hsave firstBlinds ⟨hc, hw⟩ hleft hs⟩

end Transparent

end TexasPoker
