import TexasPoker.Machine.Seats
import TexasPoker.Spec.Shuffle

/-! # Kicks in closed form

A kick turns an occupied seat into a departed one, leaves its live bet in the pot and pays
its other chips out. What follows depends on how many players are left.
-/

namespace TexasPoker

variable {G : Type}

/-- The slot a player leaves behind in the middle of a hand. -/
def Seat.departed : Seat G → Seat G
  | .waiting o => .departedThisHand o.player 0 o.timeBankMs
  | .playing p => .departedThisHand p.occupied.player p.totalBet p.occupied.timeBankMs
  | s => s

theorem Seat.departThisHand_eq_ok {s s' : Seat G} (h : s.departThisHand = .ok s') :
    s' = s.departed := by
  cases s <;> cases h <;> rfl

/-- The phase without a seat in its masks. -/
def HandPhase.removeSeat (seatIndex : ℕ) : HandPhase G → HandPhase G
  | .reconstructing street state reveal epochMs deadlineMs =>
    .reconstructing street ⟨seatMaskRemove state.pendingMask seatIndex⟩
      (TexasPokerTable.scrubReveal seatIndex reveal) epochMs deadlineMs
  | .shuffling (.initial state deadlineMs) =>
    .shuffling (.initial ⟨seatMaskRemove state.pendingMask seatIndex,
      seatMaskRemove state.completedMask seatIndex⟩ deadlineMs)
  | .shuffling (.reconstruct street state reveal deadlineMs) =>
    .shuffling (.reconstruct street ⟨seatMaskRemove state.pendingMask seatIndex,
      seatMaskRemove state.completedMask seatIndex⟩
      (TexasPokerTable.scrubReveal seatIndex reveal) deadlineMs)
  | .revealing street state deadlineMs =>
    .revealing street (TexasPokerTable.scrubReveal seatIndex state) deadlineMs
  | phase => phase

namespace TexasPokerTable

variable {t t' : TexasPokerTable G}

theorem removeSeatFromActivePhase_eq_ok {i : ℕ} (h : t.removeSeatFromActivePhase i = .ok t') :
    t' = { t with handPhase := t.handPhase.removeSeat i } := by
  rw [removeSeatFromActivePhase, Fallible.bind_eq_ok] at h
  obtain ⟨_, -, h⟩ := h
  split at h
  · rename_i hp
    cases h
    rw [hp]
    rfl
  · rename_i phase hp
    cases h
    rw [hp]
    cases phase <;> rfl
  · rename_i hp
    cases h
    rw [hp]
    rfl
  all_goals
    rename_i hp
    cases h
    have hsame : t.handPhase.removeSeat i = t.handPhase := by
      rw [hp]
      rfl
    rw [hsame]

/-- The table without the player of a seat. -/
def kicked (t : TexasPokerTable G) (i : Fin maxSeats) : TexasPokerTable G :=
  { t.setSeat i (t.seats i).departed with
    pot := t.pot + (t.seats i).bet
    chipPool := t.chipPool - ((t.seats i).stack + (t.seats i).pendingAddon)
    actedMask := seatMaskRemove t.actedMask i
    leaveAfterHandMask := seatMaskRemove t.leaveAfterHandMask i
    handPhase := t.handPhase.removeSeat i
    deckState := { t.deckState with
      contributorMask := seatMaskRemove t.deckState.contributorMask i } }

variable {i k : Fin maxSeats}

theorem held_kicked : (t.kicked i).held + ((t.seats i).stack + (t.seats i).pendingAddon) = t.held := by
  have hsum := seatSum_setSeat (t := t) (g := Seat.chips) i (t.seats i).departed
  have hz : (t.seats i).departed.chips = 0 := by cases t.seats i <;> rfl
  have hp : (t.kicked i).pot = t.pot + (t.seats i).bet := rfl
  have hc : (t.kicked i).seatSum Seat.chips =
      (t.setSeat i (t.seats i).departed).seatSum Seat.chips := rfl
  have hi : (t.seats i).chips = (t.seats i).stack + (t.seats i).pendingAddon + (t.seats i).bet := rfl
  rw [held_eq, held_eq, hp, hc]
  omega

theorem totalBet_departed (s : Seat G) : s.departed.totalBet = s.totalBet := by cases s <;> rfl

theorem bet_departed (s : Seat G) : s.departed.bet = 0 := by cases s <;> rfl

theorem sumTotalBets_kicked : (t.kicked i).sumTotalBets = t.sumTotalBets := by
  rw [sumTotalBets_eq, sumTotalBets_eq]
  exact seatSum_setSeat_of_eq (totalBet_departed _)

theorem wagers_kicked : (t.kicked i).wagers = t.wagers := by
  have hsum := seatSum_setSeat (t := t) (g := Seat.bet) i (t.seats i).departed
  have hc : (t.kicked i).seatSum Seat.bet =
      (t.setSeat i (t.seats i).departed).seatSum Seat.bet := rfl
  have hp : (t.kicked i).pot = t.pot + (t.seats i).bet := rfl
  rw [bet_departed] at hsum
  rw [wagers, wagers, sumBets_eq, sumBets_eq, hc, hp]
  omega

/-- The unfolded players of the hand outside `gone`. -/
def survivors (t : TexasPokerTable G) (gone : Fin maxSeats → Bool) : ℕ :=
  (List.finRange maxSeats).countP fun i => (t.seats i).isLive && !gone i

theorem survivors_kicked (gone : Fin maxSeats → Bool) :
    (t.kicked i).survivors gone = t.survivors fun j => j = i || gone j := by
  refine List.countP_congr fun j _ => ?_
  by_cases hj : j = i
  · subst hj
    have : (t.kicked j).seats j = (t.seats j).departed := seats_setSeat_self j _
    rw [this]
    have hd : (t.seats j).departed.isLive = false := by
      cases t.seats j <;> rfl
    simp [hd]
  · have : (t.kicked i).seats j = t.seats j :=
      seats_setSeat_of_ne (fun he => hj (Fin.ext he)) _
    simp [this, hj]

theorem countActivePlayers_eq : t.countActivePlayers = t.survivors fun _ => false := by
  refine List.countP_congr fun j _ => ?_
  simp

theorem survivors_congr {gone gone' : Fin maxSeats → Bool}
    (h : ∀ i, (t.seats i).isLive = true → gone i = gone' i) :
    t.survivors gone = t.survivors gone' := by
  refine List.countP_congr fun j _ => ?_
  by_cases hl : (t.seats j).isLive = true
  · simp [hl, h j hl]
  · simp [hl]

end TexasPokerTable

namespace Exec

variable {s s' : Exec G}

/-- A kick that finds a player. -/
structure Kicks (s s' : Exec G) (i : Fin maxSeats) : Prop where
  occupied : (s.table.seats i).isOccupied = true
  table : s'.table = s.table.kicked i
  covered : (s.table.seats i).stack + (s.table.seats i).pendingAddon ≤ s.table.chipPool
  refunded : s'.refunded = s.refunded +
    ((s.table.seats i).stack + (s.table.seats i).pendingAddon)
  deposited : s'.deposited = s.deposited
  raked : s'.raked = s.raked

theorem isOccupied_seat {t : TexasPokerTable G} {i : ℕ} (h : (t.seat i).isOccupied = true) :
    ∃ k : Fin maxSeats, k.1 = i ∧ t.seat i = t.seats k := by
  unfold TexasPokerTable.seat at h ⊢
  split at h
  · rename_i hi
    exact ⟨⟨i, hi⟩, rfl, by rw [dif_pos hi]⟩
  · cases h

/-- An accepted kick removes the player of the seat, if there is one. -/
theorem kickSeatRaw_eq_ok {i : ℕ} {reason : KickCause} (h : s.kickSeatRaw i reason = .ok s') :
    (s.table.seat i).isOccupied = false ∧ s' = s ∨
      ∃ k : Fin maxSeats, k.1 = i ∧ Kicks s s' k := by
  simp only [kickSeatRaw] at h
  rw [Fallible.bind_eq_ok] at h
  obtain ⟨_, -, h⟩ := h
  split at h
  · rename_i ho
    cases h
    exact .inl ⟨by simpa using ho, rfl⟩
  · rename_i ho
    simp only [Bool.not_eq_true', Bool.not_eq_false] at ho
    obtain ⟨k, rfl, hk⟩ := isOccupied_seat ho
    rw [hk] at ho
    simp only [Fallible.bind_eq_ok, Fallible.checkedAdd_eq_ok, Fallible.checkedSub_eq_ok, hk] at h
    obtain ⟨_, ⟨-, rfl⟩, _, ⟨-, rfl⟩, _, ⟨hle, rfl⟩, _, hd, t, ht, h⟩ := h
    obtain rfl := Seat.departThisHand_eq_ok hd
    refine .inr ⟨k, rfl, ?_⟩
    by_cases hr : 0 < (s.table.seats k).stack + (s.table.seats k).pendingAddon
    · simp only [if_pos hr] at ht h
      obtain rfl := TexasPokerTable.removeSeatFromActivePhase_eq_ok ht
      cases h
      refine ⟨ho, rfl, hle, ?_, ?_, ?_⟩
      · simp [TexasPokerEvent.refund]
      · simp [TexasPokerEvent.deposit]
      · simp [TexasPokerEvent.rake]
    · have hz : (s.table.seats k).stack + (s.table.seats k).pendingAddon = 0 := by omega
      simp only [if_neg hr] at ht h
      obtain rfl := TexasPokerTable.removeSeatFromActivePhase_eq_ok ht
      cases h
      refine ⟨ho, ?_, hle, ?_, ?_, ?_⟩
      · rw [TexasPokerTable.kicked, hz]
        rfl
      · simp [TexasPokerEvent.refund, hz]
      · simp [TexasPokerEvent.deposit]
      · simp [TexasPokerEvent.rake]

theorem Kicks.flow {i : Fin maxSeats} (h : Kicks s s' i) : Flow s s' 0 0 0 := by
  have hh := TexasPokerTable.held_kicked (t := s.table) (i := i)
  have hp : s'.table.chipPool = s.table.chipPool -
      ((s.table.seats i).stack + (s.table.seats i).pendingAddon) := by rw [h.table]; rfl
  rw [← h.table] at hh
  have := h.covered
  have := h.refunded
  have := h.deposited
  have := h.raked
  constructor <;> omega

/-- What every raw kick keeps of the chips in play. -/
structure KeepsWagers (s s' : Exec G) : Prop where
  flow : Flow s s' 0 0 0
  wagers : s'.table.wagers = s.table.wagers
  sumTotalBets : s'.table.sumTotalBets = s.table.sumTotalBets

theorem KeepsWagers.refl (s : Exec G) : KeepsWagers s s := ⟨.refl s, rfl, rfl⟩

theorem KeepsWagers.trans {s'' : Exec G} (h : KeepsWagers s s') (h' : KeepsWagers s' s'') :
    KeepsWagers s s'' :=
  ⟨h'.flow.after h.flow, h'.wagers.trans h.wagers, h'.sumTotalBets.trans h.sumTotalBets⟩

theorem KeepsWagers.wagersMatch (h : KeepsWagers s s') :
    s'.table.WagersMatch ↔ s.table.WagersMatch := by
  rw [TexasPokerTable.WagersMatch, TexasPokerTable.WagersMatch, h.wagers, h.sumTotalBets]

theorem KeepsWagers.loses (h : KeepsWagers s s') : Loses s s' 0 := ⟨h.flow, h.wagersMatch.mpr⟩

theorem Still.keepsWagers (h : Still s s') : KeepsWagers s s' :=
  ⟨h.flow, h.wagers, h.sumTotalBets⟩

theorem Kicks.keepsWagers {i : Fin maxSeats} (h : Kicks s s' i) : KeepsWagers s s' :=
  ⟨h.flow, by rw [h.table, TexasPokerTable.wagers_kicked],
    by rw [h.table, TexasPokerTable.sumTotalBets_kicked]⟩

theorem kickSeatRaw_keepsWagers {i : ℕ} {reason : KickCause}
    (h : s.kickSeatRaw i reason = .ok s') : KeepsWagers s s' := by
  rcases kickSeatRaw_eq_ok h with ⟨-, rfl⟩ | ⟨k, -, hk⟩
  · exact .refl _
  · exact hk.keepsWagers

/-- A raw kick takes its seat off the survivors. -/
theorem kickSeatRaw_survivors {i : ℕ} {reason : KickCause} (h : s.kickSeatRaw i reason = .ok s')
    (gone : Fin maxSeats → Bool) :
    s'.table.survivors gone = s.table.survivors fun j => j.1 = i || gone j := by
  rcases kickSeatRaw_eq_ok h with ⟨ho, rfl⟩ | ⟨k, rfl, hk⟩
  · refine TexasPokerTable.survivors_congr fun j hj => ?_
    have hne : j.1 ≠ i := by
      rintro rfl
      rw [TexasPokerTable.seat_val] at ho
      simp [Seat.isLive, ho] at hj
    simp [hne]
  · rw [hk.table, TexasPokerTable.survivors_kicked]
    simp only [Fin.ext_iff]

end Exec

end TexasPoker
