import TexasPoker.Machine.Reveal
import TexasPoker.Vault.Funds

/-! # Opening a reveal in closed form

An accepted opening deals cards from the deck, installs the assignments, and moves nothing
else; starting two runouts only records the shared cards.
-/

namespace TexasPoker

variable {G : Type}

namespace TexasPokerTable

variable {t t' : TexasPokerTable G}

/-- The table in a reveal that has just been opened. -/
def opened (t : TexasPokerTable G) (street dealt : ℕ) (purpose : RevealPurpose)
    (assignments : List (RevealAssignment G)) : TexasPokerTable G :=
  { t.setCardsDealt dealt with handPhase := .revealing street ⟨purpose, assignments⟩ 0 }

theorem canonicalAbsoluteDeadline_zero {timeoutMs d : ℕ} {label : String} :
    canonicalAbsoluteDeadline 0 timeoutMs label = .ok d ↔ d = 0 := by
  simp [canonicalAbsoluteDeadline, eq_comm]

theorem enterRevealing_eq_ok {street : ℕ} {state : RevealTokenState G}
    (h : t.enterRevealing street state 0 = .ok t') :
    state.validateForStreet street = .ok () ∧
      t' = { t with handPhase := .revealing street state 0 } := by
  simp only [enterRevealing, Fallible.bind_eq_ok, canonicalAbsoluteDeadline_zero] at h
  obtain ⟨_, hv, _, rfl, h⟩ := h
  cases h
  exact ⟨hv, rfl⟩

end TexasPokerTable

namespace Exec

variable {s s' : Exec G}

theorem startPreflopRevealPhase_eq_ok (h : s.startPreflopRevealPhase = .ok s') :
    s'.table = s.table.opened roundPreflop
        (s.table.deckState.cardsDealt + s.table.holeAssignments.length) .dealHole
        s.table.holeAssignments ∧
      s.SamePayments s' := by
  simp only [startPreflopRevealPhase, Fallible.bind_eq_ok] at h
  obtain ⟨t, ht, h⟩ := h
  obtain ⟨-, rfl⟩ := TexasPokerTable.enterRevealing_eq_ok ht
  cases h
  exact ⟨rfl, .of_event rfl ⟨rfl, rfl, rfl⟩⟩

theorem startCommunityRevealPhase_eq_ok {count street : ℕ}
    (h : s.startCommunityRevealPhase count street = .ok s') :
    (street = roundFlop ∨ street = roundTurn ∨ street = roundRiver) ∧
      s.table.validateRunItTwiceProgress = .ok () ∧
      s'.table = s.table.opened street
        (s.table.deckState.cardsDealt + (s.table.boardAssignments count).length) .board
        (s.table.boardAssignments count) ∧
      s.SamePayments s' := by
  simp only [startCommunityRevealPhase, Fallible.bind_eq_ok, Fallible.ensure_eq_ok] at h
  obtain ⟨_, hs, _, hv, _, -, t, ht, h⟩ := h
  obtain ⟨-, rfl⟩ := TexasPokerTable.enterRevealing_eq_ok ht
  cases h
  exact ⟨hs, hv, rfl, .of_event rfl ⟨rfl, rfl, rfl⟩⟩

theorem startShowdownRevealPhase_eq_ok (h : s.startShowdownRevealPhase = .ok s') :
    ∃ assignments, s.table.getActiveSeatIndices.foldlM
        (fun acc seat => do return acc ++ (← s.table.showdownAssignments seat)) [] =
          .ok assignments ∧
      s'.table = s.table.opened roundShowdown s.table.deckState.cardsDealt .showdownOwner
        assignments ∧
      s.SamePayments s' := by
  simp only [startShowdownRevealPhase, Fallible.bind_eq_ok] at h
  obtain ⟨assignments, ha, t, ht, h⟩ := h
  obtain ⟨-, rfl⟩ := TexasPokerTable.enterRevealing_eq_ok ht
  cases h
  exact ⟨assignments, by simpa only [Fallible.bind_eq_ok] using ha, rfl,
    .of_event rfl ⟨rfl, rfl, rfl⟩⟩

/-! An opened reveal passes its own validation. -/

theorem startPreflopRevealPhase_validates (h : s.startPreflopRevealPhase = .ok s') :
    (⟨.dealHole, s.table.holeAssignments⟩ : RevealTokenState G).validateForStreet roundPreflop =
      .ok () := by
  simp only [startPreflopRevealPhase, Fallible.bind_eq_ok] at h
  obtain ⟨t, ht, -⟩ := h
  exact (TexasPokerTable.enterRevealing_eq_ok ht).1

theorem startCommunityRevealPhase_validates {count street : ℕ}
    (h : s.startCommunityRevealPhase count street = .ok s') :
    (⟨.board, s.table.boardAssignments count⟩ : RevealTokenState G).validateForStreet street =
      .ok () := by
  simp only [startCommunityRevealPhase, Fallible.bind_eq_ok] at h
  obtain ⟨_, -, _, -, _, -, t, ht, -⟩ := h
  exact (TexasPokerTable.enterRevealing_eq_ok ht).1

theorem startShowdownRevealPhase_validates (h : s.startShowdownRevealPhase = .ok s') :
    ∃ assignments, s'.table.revealTokenState = some ⟨.showdownOwner, assignments⟩ ∧
      (⟨.showdownOwner, assignments⟩ : RevealTokenState G).validateForStreet roundShowdown =
        .ok () := by
  simp only [startShowdownRevealPhase, Fallible.bind_eq_ok] at h
  obtain ⟨assignments, -, t, ht, h⟩ := h
  obtain ⟨hv, rfl⟩ := TexasPokerTable.enterRevealing_eq_ok ht
  cases h
  exact ⟨assignments, rfl, hv⟩

theorem triggerRunItTwice_eq_ok (h : s.triggerRunItTwice = .ok s') :
    s' = s ∨ s.table.runItTwiceState = .single ∧ s.table.noFurtherBettingPossible = true ∧
      ∃ start : RitStartStreet, start.sharedBoardLen = s.table.communityCards.len ∧
        s'.table = { s.table with runItTwiceState := .twice start .empty } ∧
        s.SamePayments s' := by
  simp only [triggerRunItTwice] at h
  split at h
  · cases h
    exact .inl rfl
  rw [Fallible.bind_eq_ok] at h
  obtain ⟨_, -, h⟩ := h
  split at h
  · cases h
    exact .inl rfl
  · rename_i hactive
    simp only [Fallible.bind_eq_ok, Fallible.ensure_eq_ok] at h
    obtain ⟨_, ⟨-, hno⟩, _, -, _, -, start, hstart, h⟩ := h
    cases h
    refine .inr ⟨?_, hno, start, ?_, rfl, .of_event rfl ⟨rfl, rfl, rfl⟩⟩
    · cases hr : s.table.runItTwiceState with
      | single => rfl
      | twice _ _ => simp [hr, RunItTwiceState.isActive] at hactive
    · unfold RitStartStreet.fromSharedBoardLen at hstart
      split at hstart <;> cases hstart <;> symm <;> assumption

/-- Two runouts start exactly when none did before, a card is missing and betting is over. -/
theorem maybeTriggerRunItTwice_eq_ok (h : s.maybeTriggerRunItTwice = .ok s') :
    s' = s ∨ s.table.runItTwiceState = .single ∧ s.table.noFurtherBettingPossible = true ∧
      ∃ start : RitStartStreet, start.sharedBoardLen = s.table.communityCards.len ∧
        s'.table = { s.table with runItTwiceState := .twice start .empty } ∧
        s.SamePayments s' := by
  unfold maybeTriggerRunItTwice at h
  split at h
  · cases h
    exact .inl rfl
  · exact triggerRunItTwice_eq_ok h

/-! ## Chips -/

theorem still_opened {street dealt : ℕ} {purpose : RevealPurpose}
    {assignments : List (RevealAssignment G)}
    (ht : s'.table = s.table.opened street dealt purpose assignments) (hp : s.SamePayments s') :
    Still s s' := by
  refine ⟨?_, ?_, ?_, ?_, hp⟩ <;> rw [ht] <;> rfl

theorem startPreflopRevealPhase_still (h : s.startPreflopRevealPhase = .ok s') : Still s s' := by
  obtain ⟨ht, hp⟩ := startPreflopRevealPhase_eq_ok h
  exact still_opened ht hp

theorem startCommunityRevealPhase_still {count street : ℕ}
    (h : s.startCommunityRevealPhase count street = .ok s') : Still s s' := by
  obtain ⟨-, -, ht, hp⟩ := startCommunityRevealPhase_eq_ok h
  exact still_opened ht hp

theorem startShowdownRevealPhase_still (h : s.startShowdownRevealPhase = .ok s') :
    Still s s' := by
  obtain ⟨_, -, ht, hp⟩ := startShowdownRevealPhase_eq_ok h
  exact still_opened ht hp

theorem maybeTriggerRunItTwice_still (h : s.maybeTriggerRunItTwice = .ok s') : Still s s' := by
  rcases maybeTriggerRunItTwice_eq_ok h with rfl | ⟨-, -, _, -, ht, hp⟩
  · exact .refl _
  · refine ⟨?_, ?_, ?_, ?_, hp⟩ <;> rw [ht]

end Exec

end TexasPoker
