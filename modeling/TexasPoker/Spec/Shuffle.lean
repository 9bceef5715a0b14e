import TexasPoker.Machine.Shuffle
import TexasPoker.Spec.Betting

/-! # Shuffles and reconstructions in closed form

The steps between two reveals: calling the next shuffler, replacing the deck, and suspending
a reveal. None of them moves a chip.
-/

namespace TexasPoker

variable {G : Type}

namespace TexasPokerTable

variable {t t' : TexasPokerTable G}

theorem enterInitialShuffling_eq_ok {state : ShuffleState}
    (h : t.enterInitialShuffling state 0 = .ok t') :
    t' = { t with handPhase := .shuffling (.initial state 0) } := by
  simp only [enterInitialShuffling, Fallible.bind_eq_ok, canonicalAbsoluteDeadline_zero] at h
  obtain ⟨_, rfl, h⟩ := h
  cases h
  rfl

theorem enterReconstructShuffling_eq_ok {street : ℕ} {state : ShuffleState}
    {reveal : RevealTokenState G} (h : t.enterReconstructShuffling street state reveal 0 = .ok t') :
    isLiveStreet street = true ∧ reveal.validateForStreet street = .ok () ∧
      t' = { t with handPhase := .shuffling (.reconstruct street state reveal 0) } := by
  simp only [enterReconstructShuffling, Fallible.bind_eq_ok, canonicalAbsoluteDeadline_zero,
    Fallible.ensure_eq_ok] at h
  obtain ⟨_, hl, _, hv, _, rfl, h⟩ := h
  cases h
  exact ⟨hl, hv, rfl⟩

theorem enterReconstructing_eq_ok {street epochMs : ℕ} {state : ReconstructState}
    {reveal : RevealTokenState G}
    (h : t.enterReconstructing street state reveal epochMs = .ok t') :
    reveal.validateForStreet street = .ok () ∧ ∃ deadlineMs,
      t' = { t with handPhase := .reconstructing street state reveal epochMs deadlineMs } := by
  simp only [enterReconstructing, Fallible.bind_eq_ok] at h
  obtain ⟨_, hv, d, -, h⟩ := h
  cases h
  exact ⟨hv, d, rfl⟩

theorem takeRevealPayload_eq_ok {reveal : RevealTokenState G}
    (h : t.takeRevealPayload = .ok (reveal, t')) :
    t.revealTokenState = some reveal ∧ t' = { t with handPhase := .waiting } := by
  simp only [takeRevealPayload, Fallible.bind_eq_ok, Fallible.orErr_eq_ok] at h
  obtain ⟨_, hr, h⟩ := h
  cases h
  exact ⟨hr, rfl⟩

theorem rebuildDeckFromReconstructDeck_eq_ok (h : t.rebuildDeckFromReconstructDeck = .ok t') :
    ∃ encrypted, t' = { t with deckState := { t.deckState with encrypted, cardsDealt := 0 } } := by
  simp only [rebuildDeckFromReconstructDeck, Fallible.bind_eq_ok] at h
  obtain ⟨_, -, _, -, encrypted, -, h⟩ := h
  cases h
  exact ⟨encrypted, rfl⟩

end TexasPokerTable

namespace Exec

variable {s s' : Exec G}

/-- What restarting a reveal after a reconstruction can do. -/
inductive RestartsReveal (s s' : Exec G) : Prop where
  | hole : s.table.roundState = roundPreflop →
      (s.withTable s.table.clearLedger).startPreflopRevealPhase = .ok s' → RestartsReveal s s'
  | board {street boardLen : ℕ} : s.table.roundState = street →
      (street, boardLen) ∈ [(roundFlop, 3), (roundTurn, 4), (roundRiver, 5)] →
      s.table.communityCards.len < boardLen →
      s.startCommunityRevealPhase (boardLen - s.table.communityCards.len) street = .ok s' →
      RestartsReveal s s'
  | showdown : s.table.roundState = roundShowdown → s.startShowdownRevealPhase = .ok s' →
      RestartsReveal s s'
  | idle : s' = s → RestartsReveal s s'

theorem restartRevealAfterReconstruct_eq_ok (h : s.restartRevealAfterReconstruct = .ok s') :
    RestartsReveal s s' := by
  rw [restartRevealAfterReconstruct, Fallible.bind_eq_ok] at h
  obtain ⟨_, -, h⟩ := h
  dsimp only at h
  have hboard {street boardLen : ℕ} (hs : s.table.roundState = street)
      (hl : (street, boardLen) ∈ [(roundFlop, 3), (roundTurn, 4), (roundRiver, 5)])
      (h : (if s.table.communityCards.len < boardLen then
          s.startCommunityRevealPhase (boardLen - s.table.communityCards.len) street
        else pure s) = .ok s') : RestartsReveal s s' := by
    split at h
    · rename_i hlt
      exact .board hs hl hlt h
    · cases h
      exact .idle rfl
  by_cases hp : s.table.roundState = roundPreflop
  · rw [if_pos hp] at h
    exact .hole hp h
  rw [if_neg hp] at h
  by_cases hf : s.table.roundState = roundFlop
  · rw [if_pos hf] at h
    exact hboard hf (by simp) h
  rw [if_neg hf] at h
  by_cases ht : s.table.roundState = roundTurn
  · rw [if_pos ht] at h
    exact hboard ht (by simp) h
  rw [if_neg ht] at h
  by_cases hr : s.table.roundState = roundRiver
  · rw [if_pos hr] at h
    exact hboard hr (by simp) h
  rw [if_neg hr] at h
  split at h
  · rename_i hs
    exact .showdown hs h
  · cases h
    exact .idle rfl

/-- What calling the next shuffler can do. -/
inductive PassesShuffle (s s' : Exec G) : Prop where
  | idle : s.table.shufflePhase = shufflePhaseNone → s' = s → PassesShuffle s s'
  | next : s.table.shufflePhase ≠ shufflePhaseNone → s.table.shuffleState.pendingMask ≠ 0 →
      s.table.Retimed s'.table → s.SamePayments s' → PassesShuffle s s'
  | deal {e : TexasPokerEvent} : s.table.shufflePhase = shufflePhaseBeforePreflop →
      s.table.shuffleState.pendingMask = 0 → e.Quiet →
      (s.emit e).startPreflopRevealPhase = .ok s' → PassesShuffle s s'
  | restart {e : TexasPokerEvent} : s.table.shufflePhase = shufflePhaseReconstruct →
      s.table.shuffleState.pendingMask = 0 → e.Quiet → RestartsReveal (s.emit e) s' →
      PassesShuffle s s'

theorem shufflePhase_cases (t : TexasPokerTable G) :
    t.shufflePhase = shufflePhaseNone ∨ t.shufflePhase = shufflePhaseReconstruct ∨
      t.shufflePhase = shufflePhaseBeforePreflop := by
  unfold TexasPokerTable.shufflePhase
  split
  · split <;> simp
  · exact .inl rfl

theorem advanceShuffle_eq_ok (h : s.advanceShuffle = .ok s') : PassesShuffle s s' := by
  simp only [advanceShuffle] at h
  split at h
  · rename_i hp
    cases h
    refine .idle ?_ rfl
    rcases shufflePhase_cases s.table with h | h | h
    · exact h
    · exact absurd h hp.1
    · exact absurd h hp.2
  rename_i hp
  have hp : s.table.shufflePhase = shufflePhaseReconstruct ∨
      s.table.shufflePhase = shufflePhaseBeforePreflop := by
    by_contra hn
    exact hp (not_or.mp hn)
  have hne : s.table.shufflePhase ≠ shufflePhaseNone := by
    rcases hp with hp | hp <;> rw [hp] <;> decide
  split at h
  · rename_i hm
    split at h
    · rename_i hb
      exact .deal hb hm ⟨rfl, rfl, rfl⟩ h
    · rename_i hb
      exact .restart (hp.resolve_right hb) hm ⟨rfl, rfl, rfl⟩
        (restartRevealAfterReconstruct_eq_ok h)
  · rename_i hm
    simp only [Fallible.bind_eq_ok] at h
    obtain ⟨_, -, t, ht, h⟩ := h
    cases h
    exact .next hne hm (TexasPokerTable.disarmShuffleDeadline_retimed ht)
      (.of_event rfl ⟨rfl, rfl, rfl⟩)

/-! ## Chips -/

theorem still_emit {e : TexasPokerEvent} (hq : e.Quiet) : Still s (s.emit e) :=
  (Still.refl s).emit hq

theorem RestartsReveal.still (h : RestartsReveal s s') : Still s s' := by
  cases h with
  | hole _ h =>
    have hc : Still s (s.withTable s.table.clearLedger) := ⟨rfl, rfl, rfl, rfl, ⟨rfl, rfl, rfl⟩⟩
    exact hc.trans (startPreflopRevealPhase_still h)
  | board _ _ _ h => exact startCommunityRevealPhase_still h
  | showdown _ h => exact startShowdownRevealPhase_still h
  | idle h => exact h ▸ .refl s

theorem PassesShuffle.still (h : PassesShuffle s s') : Still s s' := by
  cases h with
  | idle _ h => exact h ▸ .refl s
  | next _ _ ht hp => exact ⟨ht.seats, ht.pot, ht.chipPool, ht.rules, hp⟩
  | deal _ _ hq h => exact (still_emit hq).trans (startPreflopRevealPhase_still h)
  | restart _ _ hq h => exact (still_emit hq).trans h.still

theorem advanceShuffle_still (h : s.advanceShuffle = .ok s') : Still s s' :=
  (advanceShuffle_eq_ok h).still

/-- A reconstruction suspends the reveal and forgets the contributions of an earlier one. -/
theorem startReconstruct_eq_ok {nowMs : ℕ} (h : s.startReconstruct nowMs = .ok s') :
    s.SamePayments s' ∧ ∃ reveal deadlineMs, s.table.revealTokenState = some reveal ∧
      reveal.validateForStreet s.table.roundState = .ok () ∧
      s'.table = { s.table with
        deckState := { s.table.deckState with reconstructAccumulated := none }
        handPhase := .reconstructing s.table.roundState ⟨s.table.getActiveSeatMask⟩ reveal nowMs
          deadlineMs } := by
  simp only [startReconstruct, Fallible.bind_eq_ok] at h
  obtain ⟨_, -, ⟨reveal, u⟩, hu, t, ht, h⟩ := h
  obtain ⟨hr, rfl⟩ := TexasPokerTable.takeRevealPayload_eq_ok hu
  obtain ⟨hv, d, rfl⟩ := TexasPokerTable.enterReconstructing_eq_ok ht
  cases h
  exact ⟨.of_event rfl ⟨rfl, rfl, rfl⟩, reveal, d, hr, hv, rfl⟩

theorem startReconstruct_still {nowMs : ℕ} (h : s.startReconstruct nowMs = .ok s') :
    Still s s' := by
  obtain ⟨hp, _, _, -, -, ht⟩ := startReconstruct_eq_ok h
  exact ⟨by rw [ht], by rw [ht], by rw [ht], by rw [ht], hp⟩

/-- A complete reconstruction lets every seat of the hand shuffle the new deck. -/
theorem onCompleteReconstruct_eq_ok (h : s.onCompleteReconstruct = .ok s') :
    ∃ m reveal encrypted, s.table.revealTokenState = some reveal ∧
      reveal.validateForStreet s.table.roundState = .ok () ∧
      m.table = { s.table with
        deckState := { s.table.deckState with encrypted, cardsDealt := 0 }
        handPhase := .shuffling (.reconstruct s.table.roundState ⟨s.table.getActiveSeatMask, 0⟩
          reveal 0) } ∧
      s.SamePayments m ∧ PassesShuffle m s' := by
  simp only [onCompleteReconstruct, Fallible.bind_eq_ok] at h
  obtain ⟨t, ht, ⟨reveal, u⟩, hu, v, hv, h⟩ := h
  obtain ⟨encrypted, rfl⟩ := TexasPokerTable.rebuildDeckFromReconstructDeck_eq_ok ht
  obtain ⟨hr, rfl⟩ := TexasPokerTable.takeRevealPayload_eq_ok hu
  obtain ⟨-, hval, rfl⟩ := TexasPokerTable.enterReconstructShuffling_eq_ok hv
  refine ⟨_, reveal, encrypted, hr, hval, rfl, ?_, advanceShuffle_eq_ok h⟩
  exact .of_events (List.append_assoc _ _ _) (by
    simp [TexasPokerEvent.Quiet, TexasPokerEvent.refund, TexasPokerEvent.deposit,
      TexasPokerEvent.rake])

theorem onCompleteReconstruct_still (h : s.onCompleteReconstruct = .ok s') : Still s s' := by
  obtain ⟨m, _, _, -, -, ht, hp, h⟩ := onCompleteReconstruct_eq_ok h
  have hm : Still s m := ⟨by rw [ht], by rw [ht], by rw [ht], by rw [ht], hp⟩
  exact hm.trans h.still

variable [AddCommGroup G] [Protocol G]

/-- A timed-out shuffle starts over with a fresh deck. -/
theorem rebuildDeckAndShuffleOnTimeout_eq_ok {phase : ℕ}
    (h : s.rebuildDeckAndShuffleOnTimeout phase = .ok s') :
    s.SamePayments s' ∧
      ((phase = shufflePhaseReconstruct ∧ ∃ reveal,
          s.table.revealTokenState = some reveal ∧
          reveal.validateForStreet s.table.roundState = .ok () ∧
          s'.table = { s.table.setInitialEncryptedDeck with
            handPhase := .shuffling (.reconstruct s.table.roundState
              ⟨s.table.getActiveSeatMask, 0⟩ reveal 0) }) ∨
        phase ≠ shufflePhaseReconstruct ∧
          s'.table = { s.table.setInitialEncryptedDeck with
            handPhase := .shuffling (.initial ⟨s.table.getActiveSeatMask, 0⟩ 0) }) := by
  simp only [rebuildDeckAndShuffleOnTimeout] at h
  split at h
  · rename_i hp
    simp only [Fallible.bind_eq_ok] at h
    obtain ⟨⟨reveal, u⟩, hu, t, ht, h⟩ := h
    obtain ⟨hr, rfl⟩ := TexasPokerTable.takeRevealPayload_eq_ok hu
    obtain ⟨-, hv, rfl⟩ := TexasPokerTable.enterReconstructShuffling_eq_ok ht
    cases h
    exact ⟨.of_event rfl ⟨rfl, rfl, rfl⟩, .inl ⟨hp, reveal, hr, hv, rfl⟩⟩
  · rename_i hp
    simp only [Fallible.bind_eq_ok] at h
    obtain ⟨t, ht, h⟩ := h
    obtain rfl := TexasPokerTable.enterInitialShuffling_eq_ok ht
    cases h
    exact ⟨.of_event rfl ⟨rfl, rfl, rfl⟩, .inr ⟨hp, rfl⟩⟩

theorem rebuildDeckAndShuffleOnTimeout_still {phase : ℕ}
    (h : s.rebuildDeckAndShuffleOnTimeout phase = .ok s') : Still s s' := by
  obtain ⟨hp, ⟨-, _, -, -, ht⟩ | ⟨-, ht⟩⟩ := rebuildDeckAndShuffleOnTimeout_eq_ok h <;>
    exact ⟨by rw [ht]; rfl, by rw [ht]; rfl, by rw [ht]; rfl, by rw [ht]; rfl, hp⟩

end Exec

end TexasPoker
