import TexasPoker.Machine.Hand
import TexasPoker.Spec.Kick

/-! # Chips through abnormal exits

Kicks and the timeouts of shuffles, reveals and reconstructions: which of them lose the chips
in play. What decides is how many unfolded players are left, and the phase.
-/

namespace TexasPoker

variable {G : Type}

namespace TexasPokerTable

variable {t : TexasPokerTable G}

theorem bettingRound_removeSeat (i : ℕ) :
    ({ t with handPhase := t.handPhase.removeSeat i } : TexasPokerTable G).isBettingRound =
      t.isBettingRound := by
  cases hp : t.handPhase with
  | shuffling phase =>
    cases phase <;> simp [isBettingRound, bettingRound, HandPhase.removeSeat, hp]
  | _ => simp [isBettingRound, bettingRound, roundState, HandPhase.removeSeat, hp]

theorem isBettingRound_kicked (i : Fin maxSeats) :
    (t.kicked i).isBettingRound = t.isBettingRound :=
  bettingRound_removeSeat i.1

theorem shufflePhase_kicked (i : Fin maxSeats) : (t.kicked i).shufflePhase = t.shufflePhase := by
  unfold shufflePhase kicked
  cases hp : t.handPhase with
  | shuffling phase => cases phase <;> simp [HandPhase.removeSeat, ShufflingPhase.purpose]
  | _ => simp [HandPhase.removeSeat]

theorem not_betting_of_shuffling (h : t.shufflePhase ≠ shufflePhaseNone) :
    t.isBettingRound = false := by
  unfold shufflePhase at h
  split at h
  · rename_i hp
    simp [isBettingRound, bettingRound, hp]
  · exact absurd rfl h

/-- The unfolded players left when a seat is gone. -/
abbrev survivorsOf (t : TexasPokerTable G) (i : ℕ) : ℕ := t.survivors fun j => j.1 = i

/-- What a hand with `left` unfolded players loses when it is closed. -/
def shortLoss (t : TexasPokerTable G) (left : ℕ) : ℕ :=
  if 2 ≤ left ∨ left = 1 ∧ t.isBettingRound = true then 0 else t.wagers

theorem shortLoss_of_wagers (h : t.wagers = 0) (left : ℕ) : t.shortLoss left = 0 := by
  rw [shortLoss, h, ite_self]

/-- The contributions of the folded, the departed and the seats of `gone`. -/
def forfeits (t : TexasPokerTable G) (gone : Fin maxSeats → Bool) : ℕ :=
  ∑ i, if (t.seats i).isFolded || (t.seats i).hasLeftHand || gone i then (t.seats i).totalBet
    else 0

theorem seatSum_forfeit : t.seatSum Seat.forfeit = t.forfeits fun _ => false := by
  refine Finset.sum_congr rfl fun i _ => ?_
  rw [Seat.forfeit, Bool.or_false]

theorem forfeits_le (gone : Fin maxSeats → Bool) : t.forfeits gone ≤ t.sumTotalBets := by
  rw [sumTotalBets_eq]
  refine Finset.sum_le_sum fun i _ => ?_
  split
  · exact le_rfl
  · exact Nat.zero_le _

/-- Without an unfolded player every contribution is forfeited. -/
theorem forfeits_of_none {gone : Fin maxSeats → Bool} (h : t.survivors gone = 0) :
    t.forfeits gone = t.sumTotalBets := by
  rw [sumTotalBets_eq]
  refine Finset.sum_congr rfl fun i _ => ?_
  rw [survivors, List.countP_eq_zero] at h
  have hi := h i (List.mem_finRange i)
  cases hs : t.seats i with
  | playing p =>
    cases hst : p.status <;>
      simp_all [Seat.isFolded, Seat.status, Seat.hasLeftHand, Seat.isLive, Seat.isOccupied,
        Seat.isWaiting]
  | _ => simp [Seat.hasLeftHand, Seat.isFolded, Seat.status, Seat.totalBet]

theorem forfeits_kicked (i : Fin maxSeats) (gone : Fin maxSeats → Bool) :
    (t.kicked i).forfeits gone = t.forfeits fun j => j = i || gone j := by
  refine Finset.sum_congr rfl fun j _ => ?_
  by_cases hj : j = i
  · subst hj
    have hs : (t.kicked j).seats j = (t.seats j).departed := seats_setSeat_self j _
    rw [hs, totalBet_departed]
    cases t.seats j <;> simp [Seat.departed, Seat.hasLeftHand, Seat.totalBet]
  · have hs : (t.kicked i).seats j = t.seats j :=
      seats_setSeat_of_ne (fun he => hj (Fin.ext he)) _
    simp [hs, hj]

end TexasPokerTable

namespace Exec

variable {s s' : Exec G}

/-- Passing the shuffle on neither starts nor ends a betting round. -/
theorem PassesShuffle.isBettingRound (h : PassesShuffle s s') :
    s'.table.isBettingRound = s.table.isBettingRound := by
  have hopened {u : Exec G} {street dealt : ℕ} {purpose : RevealPurpose}
      {assignments : List (RevealAssignment G)} {t : TexasPokerTable G}
      (hu : u.table = t.opened street dealt purpose assignments) :
      u.table.isBettingRound = false := by rw [hu]; rfl
  cases h with
  | idle _ h => rw [h]
  | next hp _ ht _ =>
    rw [TexasPokerTable.not_betting_of_shuffling hp]
    unfold TexasPokerTable.shufflePhase at hp
    split at hp
    · rename_i phase hphase
      obtain ⟨d, hd⟩ := ht.shuffling hphase
      simp [TexasPokerTable.isBettingRound, TexasPokerTable.bettingRound, hd]
    · exact absurd rfl hp
  | deal hp _ _ h =>
    rw [hopened (startPreflopRevealPhase_eq_ok h).1, TexasPokerTable.not_betting_of_shuffling]
    rw [hp]
    decide
  | restart hp _ _ h =>
    have hb : s.table.isBettingRound = false :=
      TexasPokerTable.not_betting_of_shuffling (by rw [hp]; decide)
    rw [hb]
    cases h with
    | hole _ h => exact hopened (startPreflopRevealPhase_eq_ok h).1
    | board _ _ _ h => exact hopened (startCommunityRevealPhase_eq_ok h).2.2.1
    | showdown _ h =>
      obtain ⟨_, -, ht, -⟩ := startShowdownRevealPhase_eq_ok h
      exact hopened ht
    | idle h =>
      rw [h]
      exact hb

variable [AddCommGroup G] [Protocol G] [DecidableEq G]

theorem closeShortHand_eq_ok (h : s.closeShortHand = .ok s') :
    2 ≤ s.table.countActivePlayers ∧ s' = s ∨
      s.table.countActivePlayers = 1 ∧ s.table.isBettingRound = true ∧
        s.endWithoutShowdown = .ok s' ∨
      s.table.countActivePlayers < 2 ∧
        ¬ (s.table.countActivePlayers = 1 ∧ s.table.isBettingRound = true) ∧
        s.resetForNextHand = .ok s' := by
  simp only [closeShortHand] at h
  split at h
  · rename_i hc
    split at h
    · rename_i hb
      exact .inr (.inl ⟨hb.1, hb.2, h⟩)
    · rename_i hb
      exact .inr (.inr ⟨hc, hb, h⟩)
  · rename_i hc
    cases h
    exact .inl ⟨not_lt.mp hc, rfl⟩

theorem closeShortHand_loses (h : s.closeShortHand = .ok s') :
    Loses s s' (s.table.shortLoss s.table.countActivePlayers) ∧
      (s.table.countActivePlayers < 2 → s'.table.Settled) := by
  rcases closeShortHand_eq_ok h with ⟨hc, rfl⟩ | ⟨hc, hb, h⟩ | ⟨hc, hb, h⟩
  · rw [TexasPokerTable.shortLoss, if_pos (.inl hc)]
    exact ⟨(Still.refl _).loses, fun h => by omega⟩
  · obtain ⟨hl, hs⟩ := endWithoutShowdown_loses h
    rw [TexasPokerTable.shortLoss, if_pos (.inr ⟨hc, hb⟩)]
    rw [hc, if_neg (by decide)] at hl
    exact ⟨hl, fun _ => hs⟩
  · obtain ⟨hl, hs⟩ := resetForNextHand_loses h
    rw [TexasPokerTable.shortLoss, if_neg (fun hn => hn.elim (fun h => by omega) hb)]
    exact ⟨hl, fun _ => hs⟩

/-! ## Kicks -/

theorem advanceTurn_count (h : s.advanceTurn = .ok s') (hc : 2 ≤ s.table.countActivePlayers) :
    s'.table.countActivePlayers = s.table.countActivePlayers := by
  rcases advanceTurn_eq_ok h with ⟨-, n, c, hn, hcol, h⟩ | ⟨-, h⟩
  · have hcn : c.table.countActivePlayers = s.table.countActivePlayers := by
      rw [(collectBetsToPot_eq_ok hcol).1, countActivePlayers_collected,
        (setCurrentTurn_still hn).countActivePlayers]
    rcases advanceRound_eq_ok h with ⟨hle, -⟩ | ⟨-, m, hm, h⟩
    · omega
    · have hs : Still c s' := by
        rcases h with ⟨-, rfl⟩ | h
        · exact maybeTriggerRunItTwice_still hm
        · exact (maybeTriggerRunItTwice_still hm).trans h.still
      rw [hs.countActivePlayers, hcn]
  · exact (setCurrentTurn_still h).countActivePlayers

/-- A kick removes the player, calls the next shuffler, and then passes the turn or closes a
short hand. -/
theorem kickPlayerInternal_eq_ok {i : ℕ} {reason : KickCause}
    (h : s.kickPlayerInternal i reason = .ok s') :
    ∃ r a, s.kickSeatRaw i reason = .ok r ∧
      (a = r ∨ r.table.shufflePhase ≠ shufflePhaseNone ∧ r.advanceShuffle = .ok a) ∧
      (a.closeShortHand = .ok s' ∨ s.table.currentTurn = i ∧ a.table.isBettingRound = true ∧
        (a.table.countActivePlayers ≤ 1 ∧ a.endWithoutShowdown = .ok s' ∨
          2 ≤ a.table.countActivePlayers ∧
            ∃ b, a.advanceTurn = .ok b ∧ b.closeShortHand = .ok s')) := by
  simp only [kickPlayerInternal] at h
  rw [Fallible.bind_eq_ok] at h
  obtain ⟨r, hr, h⟩ := h
  have hrest {a : Exec G} (h : (if (s.table.currentTurn = i ∧ s.table.isBettingRound) ∧
        a.table.isBettingRound then
      if a.table.countActivePlayers ≤ 1 then a.endWithoutShowdown
      else do
        let s ← a.advanceTurn
        s.closeShortHand
      else a.closeShortHand) = .ok s') :
      a.closeShortHand = .ok s' ∨ s.table.currentTurn = i ∧ a.table.isBettingRound = true ∧
        (a.table.countActivePlayers ≤ 1 ∧ a.endWithoutShowdown = .ok s' ∨
          2 ≤ a.table.countActivePlayers ∧
            ∃ b, a.advanceTurn = .ok b ∧ b.closeShortHand = .ok s') := by
    split at h
    · rename_i hb
      refine .inr ⟨hb.1.1, hb.2, ?_⟩
      split at h
      · rename_i hc
        exact .inl ⟨hc, h⟩
      · rename_i hc
        exact .inr ⟨by omega, Fallible.bind_eq_ok.mp h⟩
    · exact .inl h
  split at h
  · rename_i hsh
    rw [Fallible.bind_eq_ok] at h
    obtain ⟨a, ha, h⟩ := h
    exact ⟨r, a, hr, .inr ⟨hsh.2, ha⟩, hrest h⟩
  · rw [Fallible.bind_eq_ok] at h
    obtain ⟨a, ha, h⟩ := h
    cases ha
    exact ⟨r, r, hr, .inl rfl, hrest h⟩

omit [AddCommGroup G] [Protocol G] [DecidableEq G] in
theorem kickSeatRaw_frame {i : ℕ} {reason : KickCause} (h : s.kickSeatRaw i reason = .ok s') :
    s'.table.isBettingRound = s.table.isBettingRound ∧
      s'.table.shufflePhase = s.table.shufflePhase ∧
      s'.table.countActivePlayers = s.table.survivorsOf i := by
  have hc := kickSeatRaw_survivors h fun _ => false
  rw [← TexasPokerTable.countActivePlayers_eq] at hc
  simp only [Bool.or_false] at hc
  rcases kickSeatRaw_eq_ok h with ⟨-, rfl⟩ | ⟨k, -, hk⟩
  · exact ⟨rfl, rfl, hc⟩
  · refine ⟨?_, ?_, hc⟩ <;> rw [hk.table]
    · exact TexasPokerTable.isBettingRound_kicked k
    · exact TexasPokerTable.shufflePhase_kicked k

/-- A kick loses the chips in play when it leaves fewer than two unfolded players, unless one
of them wins them in a betting round. -/
theorem kickPlayerInternal_loses {i : ℕ} {reason : KickCause}
    (h : s.kickPlayerInternal i reason = .ok s') :
    Loses s s' (s.table.shortLoss (s.table.survivorsOf i)) ∧
      (s.table.survivorsOf i < 2 → s'.table.Settled) := by
  obtain ⟨r, a, hr, ha, h⟩ := kickPlayerInternal_eq_ok h
  obtain ⟨hbr, hsr, hcr⟩ := kickSeatRaw_frame hr
  have hra : Still r a := by
    rcases ha with rfl | ⟨-, ha⟩
    · exact .refl _
    · exact advanceShuffle_still ha
  have hba : a.table.isBettingRound = r.table.isBettingRound := by
    rcases ha with rfl | ⟨-, ha⟩
    · rfl
    · exact (advanceShuffle_eq_ok ha).isBettingRound
  have hsa : KeepsWagers s a := (kickSeatRaw_keepsWagers hr).trans hra.keepsWagers
  have hca : a.table.countActivePlayers = s.table.survivorsOf i := by
    rw [hra.countActivePlayers, hcr]
  have hshort (n : ℕ) : a.table.shortLoss n = s.table.shortLoss n := by
    rw [TexasPokerTable.shortLoss, TexasPokerTable.shortLoss, hba, hbr, hsa.wagers]
  rw [← hshort, ← hca]
  rcases h with h | ⟨-, hb, ⟨hc, h⟩ | ⟨hc, b, hab, h⟩⟩
  · obtain ⟨hl, hs⟩ := closeShortHand_loses h
    exact ⟨hl.after hsa.loses, hs⟩
  · obtain ⟨hl, hs⟩ := endWithoutShowdown_loses h
    have he : (if a.table.countActivePlayers = 0 then a.table.wagers else 0) =
        a.table.shortLoss a.table.countActivePlayers := by
      rw [TexasPokerTable.shortLoss, hb]
      by_cases h0 : a.table.countActivePlayers = 0
      · simp [h0]
      · have h1 : a.table.countActivePlayers = 1 := by omega
        simp [h1]
    rw [he] at hl
    exact ⟨hl.after hsa.loses, fun _ => hs⟩
  · have hcb := advanceTurn_count hab hc
    have hab := advanceTurn_fair hab (by omega)
    rw [Fair, if_neg (by omega)] at hab
    obtain ⟨hl, hs⟩ := closeShortHand_loses h
    have h0 (t : TexasPokerTable G) (n : ℕ) (hn : 2 ≤ n) : t.shortLoss n = 0 := if_pos (.inl hn)
    rw [h0 _ _ (by omega)] at hl ⊢
    exact ⟨(hl.after hab).after hsa.loses, fun h => by omega⟩

theorem closeShortHand_of_two (h : s.closeShortHand = .ok s')
    (hc : 2 ≤ s.table.countActivePlayers) : s' = s := by
  rcases closeShortHand_eq_ok h with ⟨-, h⟩ | ⟨h, -, -⟩ | ⟨h, -, -⟩
  · exact h
  · omega
  · omega

/-- Two players left stay in the hand. -/
theorem kickPlayerInternal_count {i : ℕ} {reason : KickCause}
    (h : s.kickPlayerInternal i reason = .ok s') (hu : 2 ≤ s.table.survivorsOf i) :
    s'.table.countActivePlayers = s.table.survivorsOf i := by
  obtain ⟨r, a, hr, ha, h⟩ := kickPlayerInternal_eq_ok h
  have hca : a.table.countActivePlayers = s.table.survivorsOf i := by
    rw [← (kickSeatRaw_frame hr).2.2]
    rcases ha with rfl | ⟨-, ha⟩
    · rfl
    · exact (advanceShuffle_still ha).countActivePlayers
  rcases h with h | ⟨-, -, ⟨hc, -⟩ | ⟨hc, b, hab, h⟩⟩
  · rw [closeShortHand_of_two h (by omega), hca]
  · omega
  · have hcb := advanceTurn_count hab hc
    rw [closeShortHand_of_two h (by omega), hcb, hca]

/-- A kick outside betting rounds and shuffles that leaves two players only removes one. -/
theorem kickPlayerInternal_of_idle {i : ℕ} {reason : KickCause}
    (h : s.kickPlayerInternal i reason = .ok s') (hb : s.table.isBettingRound = false)
    (hp : s.table.shufflePhase = shufflePhaseNone) (hu : 2 ≤ s.table.survivorsOf i) :
    s.kickSeatRaw i reason = .ok s' := by
  obtain ⟨r, a, hr, ha, h⟩ := kickPlayerInternal_eq_ok h
  obtain ⟨hbr, hsr, hcr⟩ := kickSeatRaw_frame hr
  have har : a = r := ha.resolve_right fun h => h.1 (hsr.trans hp)
  subst har
  rcases h with h | ⟨-, h, -⟩
  · rwa [closeShortHand_of_two h (by omega)]
  · rw [hbr, hb] at h
    cases h

/-! ## Settled tables -/

omit [AddCommGroup G] [Protocol G] [DecidableEq G] in
theorem forfeits_of_settled {t : TexasPokerTable G} (h : t.Settled) (hw : t.WagersMatch)
    (gone : Fin maxSeats → Bool) : t.forfeits gone = 0 := by
  have hle := t.forfeits_le gone
  have h0 := h.wagers
  rw [TexasPokerTable.WagersMatch] at hw
  omega

theorem refund_reset_loses {m : Exec G} (h : s.refundAllBets = .ok m)
    (h' : m.resetForNextHand = .ok s') (hw : s.table.WagersMatch) :
    Loses s s' (s.table.forfeits fun _ => false) := by
  obtain ⟨hl, hm⟩ := refundAllBets_loses h hw
  have hr := (resetForNextHand_loses h').1
  rw [hm] at hr
  rw [← TexasPokerTable.seatSum_forfeit]
  exact hl.then hr

/-- Kicks on a settled table lose nothing and leave it settled. -/
theorem kickPlayerInternal_settled {i : ℕ} {reason : KickCause}
    (h : s.kickPlayerInternal i reason = .ok s') (hs : s.table.Settled) :
    Loses s s' 0 ∧ s'.table.Settled := by
  have hl := (kickPlayerInternal_loses h).1
  rw [TexasPokerTable.shortLoss_of_wagers hs.wagers] at hl
  refine ⟨hl, ?_⟩
  by_cases hu : s.table.survivorsOf i < 2
  · exact (kickPlayerInternal_loses h).2 hu
  · have hb : s.table.isBettingRound = false := by
      simp [TexasPokerTable.isBettingRound, TexasPokerTable.bettingRound, hs.phase]
    have hp : s.table.shufflePhase = shufflePhaseNone := by
      simp [TexasPokerTable.shufflePhase, hs.phase]
    have hr := kickPlayerInternal_of_idle h hb hp (by omega)
    refine ⟨?_, (kickSeatRaw_keepsWagers hr).wagers.trans hs.wagers⟩
    rcases kickSeatRaw_eq_ok hr with ⟨-, rfl⟩ | ⟨k, -, hk⟩
    · exact hs.phase
    · rw [hk.table, TexasPokerTable.kicked, hs.phase]
      rfl

/-! ## Timeouts -/

/-- A shuffle timeout loses what the kick of the late shuffler loses. -/
theorem onShuffleTimeout_loses (h : s.onShuffleTimeout = .ok s') (hw : s.table.WagersMatch) :
    Loses s s' (if 2 ≤ s.table.survivorsOf s.table.shuffleState.derivedCurrentShuffler then 0
      else s.table.wagers) := by
  simp only [onShuffleTimeout, Fallible.bind_eq_ok, Fallible.orErr_eq_ok] at h
  obtain ⟨d, hd, _, -, k, hk, h⟩ := h
  have hb : s.table.isBettingRound = false := by
    unfold TexasPokerTable.shuffleDeadlineMs at hd
    split at hd
    · rename_i hp
      simp [TexasPokerTable.isBettingRound, TexasPokerTable.bettingRound, hp]
    · cases hd
  have hcount := kickPlayerInternal_count hk
  obtain ⟨hkl, hks⟩ := kickPlayerInternal_loses hk
  simp only [emit_table, TexasPokerTable.shortLoss, hb, Bool.false_eq_true, and_false,
    or_false] at hkl hks hcount
  generalize s.table.survivorsOf s.table.shuffleState.derivedCurrentShuffler = u at hkl hks hcount ⊢
  have hsk : Loses s k (if 2 ≤ u then 0 else s.table.wagers) := by
    refine hkl.after (Still.loses ?_)
    exact still_emit ⟨rfl, rfl, rfl⟩
  refine hsk.then ?_
  by_cases hu : 2 ≤ u
  · have hc := hcount hu
    rw [if_neg (by omega), if_neg (by omega)] at h
    split at h
    · cases h
      exact (Still.refl _).loses
    · rw [Fallible.bind_eq_ok] at h
      obtain ⟨m, hm, h⟩ := h
      exact ((rebuildDeckAndShuffleOnTimeout_still hm).trans (advanceShuffle_still h)).loses
  · have hset := hks (not_le.mp hu)
    have hwk := hsk.wagers hw
    split at h
    · rw [Fallible.bind_eq_ok] at h
      obtain ⟨m, hm, h⟩ := h
      have := refund_reset_loses hm h hwk
      rwa [forfeits_of_settled hset hwk] at this
    split at h
    · have := (endWithoutShowdown_loses h).1
      rwa [hset.wagers, ite_self] at this
    have hp : k.table.shufflePhase = shufflePhaseNone := by
      simp [TexasPokerTable.shufflePhase, hset.phase]
    rw [if_pos hp] at h
    cases h
    exact (Still.refl _).loses

omit [AddCommGroup G] [Protocol G] [DecidableEq G] in
/-- A raw kick adds its seat to the forfeiting ones. -/
theorem kickSeatRaw_forfeits {i : ℕ} {reason : KickCause} (h : s.kickSeatRaw i reason = .ok s')
    (gone : Fin maxSeats → Bool) :
    s'.table.forfeits gone = s.table.forfeits fun j => j.1 = i || gone j := by
  rcases kickSeatRaw_eq_ok h with ⟨ho, rfl⟩ | ⟨k, rfl, hk⟩
  · refine Finset.sum_congr rfl fun j _ => ?_
    by_cases hj : j.1 = i
    · subst hj
      rw [TexasPokerTable.seat_val] at ho
      cases hs : s'.table.seats j with
      | waiting _ =>
        rw [hs] at ho
        cases ho
      | playing _ =>
        rw [hs] at ho
        cases ho
      | _ => simp [Seat.hasLeftHand, Seat.totalBet]
    · simp [hj]
  · rw [hk.table, TexasPokerTable.forfeits_kicked]
    simp only [Fin.ext_iff]

/-- The seats of a list. -/
abbrev among (l : List ℕ) : Fin maxSeats → Bool := fun j => j.1 ∈ l

omit [AddCommGroup G] [Protocol G] [DecidableEq G] in
theorem among_nil : among [] = fun _ => false := by
  funext j
  simp [among]

omit [AddCommGroup G] [Protocol G] [DecidableEq G] in
theorem among_cons (i : ℕ) (l : List ℕ) :
    among (i :: l) = fun j => decide (j.1 = i) || among l j := by
  funext j
  rw [Bool.eq_iff_iff]
  simp [among]

omit [AddCommGroup G] [Protocol G] [DecidableEq G] in
/-- Raw kicks of a list of seats. -/
theorem foldlM_kickSeatRaw {l : List ℕ} {reason : KickCause}
    (h : l.foldlM (fun s seat => s.kickSeatRaw seat reason) s = .ok s') :
    KeepsWagers s s' ∧ s'.table.countActivePlayers = s.table.survivors (among l) ∧
      (s'.table.forfeits fun _ => false) = s.table.forfeits (among l) := by
  induction l generalizing s with
  | nil =>
    obtain rfl : s = s' := by simpa using h
    rw [among_nil]
    exact ⟨.refl s, TexasPokerTable.countActivePlayers_eq, rfl⟩
  | cons i l ih =>
    rw [List.foldlM_cons, Fallible.bind_eq_ok] at h
    obtain ⟨k, hk, h⟩ := h
    obtain ⟨hw, hc, hf⟩ := ih h
    rw [among_cons, hc, hf, kickSeatRaw_survivors hk, kickSeatRaw_forfeits hk]
    exact ⟨(kickSeatRaw_keepsWagers hk).trans hw, rfl, rfl⟩

/-- The seats a reveal timeout kicks. -/
def lateRevealers (t : TexasPokerTable G) : List ℕ :=
  seatMaskToIndices (revealPendingMask t) t.rules.maxPlayers

/-- A reveal timeout loses the chips in play unless exactly one player is left to win them, or
two and the hole cards are dealt. -/
theorem onRevealTimeout_loses {nowMs : ℕ} (h : s.onRevealTimeout nowMs = .ok s')
    (hw : s.table.WagersMatch) :
    Loses s s' (if s.table.survivors (among (lateRevealers s.table)) = 1 ∨
        2 ≤ s.table.survivors (among (lateRevealers s.table)) ∧
          s.table.revealPhase ≠ revealPhasePreflop then 0
      else s.table.wagers) := by
  simp only [onRevealTimeout, Fallible.bind_eq_ok] at h
  obtain ⟨k, hk, h⟩ := h
  obtain ⟨hkw, hkc, -⟩ := foldlM_kickSeatRaw hk
  simp only [emit_table] at hkc
  have hsk : KeepsWagers s k :=
    (Still.keepsWagers (still_emit (s := s) ⟨rfl, rfl, rfl⟩)).trans hkw
  have hquiet (r n : ℕ) : (TexasPokerEvent.handReset s.table.id r n).Quiet := ⟨rfl, rfl, rfl⟩
  change k.table.countActivePlayers = s.table.survivors (among (lateRevealers s.table)) at hkc
  rw [← hkc]
  refine Loses.after ?_ hsk.loses
  split at h
  · rename_i h0
    simp only [Fallible.bind_eq_ok] at h
    obtain ⟨m, hm, r, hr, h⟩ := h
    cases h
    have hl := refund_reset_loses hm hr (hsk.wagersMatch.mpr hw)
    rw [TexasPokerTable.countActivePlayers_eq] at h0
    rw [TexasPokerTable.forfeits_of_none h0, ← hsk.wagersMatch.mpr hw, hsk.wagers] at hl
    rw [TexasPokerTable.countActivePlayers_eq, h0, if_neg (by omega)]
    exact hl.emit ⟨rfl, rfl, rfl⟩
  split at h
  · rename_i h1
    rw [if_pos (.inl h1)]
    have hl := endWithoutShowdown_fair h
    rwa [Fair, if_neg (by omega)] at hl
  split at h
  · rename_i hp
    simp only [Fallible.bind_eq_ok] at h
    obtain ⟨r, hr, h⟩ := h
    cases h
    rw [if_neg (by omega), ← hsk.wagers]
    exact (resetForNextHand_loses hr).1.emit ⟨rfl, rfl, rfl⟩
  · rename_i h0 h1 hp
    rw [if_pos (.inr ⟨by omega, hp⟩)]
    exact (startReconstruct_still h).loses

/-! ### Reconstruction -/

omit [AddCommGroup G] [Protocol G] [DecidableEq G] in
theorem survivors_anti {t : TexasPokerTable G} {gone gone' : Fin maxSeats → Bool}
    (h : ∀ i, gone i = true → gone' i = true) : t.survivors gone' ≤ t.survivors gone := by
  refine List.countP_mono_left fun i _ hi => ?_
  simp only [Bool.and_eq_true, Bool.not_eq_true'] at hi ⊢
  refine ⟨hi.1, ?_⟩
  by_contra hg
  have := h i (by simpa using hg)
  rw [hi.2] at this
  cases this

/-- Kicks that leave two players outside betting rounds and shuffles are raw kicks. -/
theorem foldlM_kickPlayerInternal_of_two {l : List ℕ} {reason : KickCause}
    (h : l.foldlM (fun s seat => s.kickPlayerInternal seat reason) s = .ok s')
    (hb : s.table.isBettingRound = false) (hp : s.table.shufflePhase = shufflePhaseNone)
    (hu : 2 ≤ s.table.survivors (among l)) :
    l.foldlM (fun s seat => s.kickSeatRaw seat reason) s = .ok s' := by
  induction l generalizing s with
  | nil => exact h
  | cons i l ih =>
    rw [List.foldlM_cons, Fallible.bind_eq_ok] at h
    obtain ⟨k, hk, h⟩ := h
    rw [among_cons] at hu
    have hi : 2 ≤ s.table.survivorsOf i :=
      hu.trans (survivors_anti fun j hj => by simpa using .inl (by simpa using hj))
    have hr := kickPlayerInternal_of_idle hk hb hp hi
    obtain ⟨hbk, hpk, -⟩ := kickSeatRaw_frame hr
    rw [List.foldlM_cons, Fallible.bind_eq_ok]
    refine ⟨k, hr, ih h (hbk.trans hb) (hpk.trans hp) ?_⟩
    rwa [kickSeatRaw_survivors hr]

theorem foldlM_kickPlayerInternal_settled {l : List ℕ} {reason : KickCause}
    (h : l.foldlM (fun s seat => s.kickPlayerInternal seat reason) s = .ok s')
    (hs : s.table.Settled) : Loses s s' 0 ∧ s'.table.Settled := by
  induction l generalizing s with
  | nil =>
    obtain rfl : s = s' := by simpa using h
    exact ⟨(Still.refl s).loses, hs⟩
  | cons i l ih =>
    rw [List.foldlM_cons, Fallible.bind_eq_ok] at h
    obtain ⟨k, hk, h⟩ := h
    obtain ⟨hl, hk⟩ := kickPlayerInternal_settled hk hs
    obtain ⟨hl', hs'⟩ := ih h hk
    exact ⟨hl'.after hl, hs'⟩

/-- Kicks that leave fewer than two players lose the chips in play. -/
theorem foldlM_kickPlayerInternal_of_short {l : List ℕ} {reason : KickCause}
    (h : l.foldlM (fun s seat => s.kickPlayerInternal seat reason) s = .ok s')
    (hb : s.table.isBettingRound = false) (hp : s.table.shufflePhase = shufflePhaseNone)
    (hu : s.table.survivors (among l) < 2) (hl : l ≠ []) :
    Loses s s' s.table.wagers ∧ s'.table.Settled := by
  induction l generalizing s with
  | nil => exact absurd rfl hl
  | cons i l ih =>
    rw [List.foldlM_cons, Fallible.bind_eq_ok] at h
    obtain ⟨k, hk, h⟩ := h
    by_cases hi : s.table.survivorsOf i < 2
    · obtain ⟨hkl, hks⟩ := kickPlayerInternal_loses hk
      rw [TexasPokerTable.shortLoss, hb, if_neg (by simpa using hi)] at hkl
      obtain ⟨hl', hs'⟩ := foldlM_kickPlayerInternal_settled h (hks hi)
      exact ⟨hkl.then hl', hs'⟩
    · have hr := kickPlayerInternal_of_idle hk hb hp (by omega)
      obtain ⟨hbk, hpk, hck⟩ := kickSeatRaw_frame hr
      have hkw := kickSeatRaw_keepsWagers hr
      rw [among_cons, ← kickSeatRaw_survivors hr] at hu
      have hne : l ≠ [] := by
        rintro rfl
        rw [among_nil, ← TexasPokerTable.countActivePlayers_eq, hck] at hu
        exact hi hu
      obtain ⟨hl', hs'⟩ := ih h (hbk.trans hb) (hpk.trans hp) hu hne
      rw [hkw.wagers] at hl'
      exact ⟨hl'.after hkw.loses, hs'⟩

/-- The seats a reconstruction timeout kicks. -/
def lateReconstructors (t : TexasPokerTable G) : List ℕ :=
  seatMaskToIndices t.reconstructState.pendingMask t.rules.maxPlayers

omit [AddCommGroup G] [Protocol G] [DecidableEq G] in
theorem idle_of_lateReconstructors {t : TexasPokerTable G} (h : lateReconstructors t ≠ []) :
    t.isBettingRound = false ∧ t.shufflePhase = shufflePhaseNone := by
  unfold lateReconstructors TexasPokerTable.reconstructState at h
  cases hp : t.handPhase with
  | reconstructing _ _ _ _ _ =>
    simp [TexasPokerTable.isBettingRound, TexasPokerTable.bettingRound,
      TexasPokerTable.shufflePhase, hp]
  | _ =>
    rw [hp] at h
    refine absurd (List.filter_eq_nil_iff.mpr fun i _ => ?_) h
    rw [Bool.not_eq_true]
    exact seatMaskContains_zero

omit [AddCommGroup G] [Protocol G] [DecidableEq G] in
theorem foldlM_kickSeatRaw_accumulated {l : List ℕ} {reason : KickCause}
    (h : l.foldlM (fun s seat => s.kickSeatRaw seat reason) s = .ok s') :
    s'.table.deckState.reconstructAccumulated = s.table.deckState.reconstructAccumulated := by
  have hstep : ∀ i ∈ l, ∀ u u' : Exec G, u.kickSeatRaw i reason = .ok u' →
      u.table.deckState.reconstructAccumulated = s.table.deckState.reconstructAccumulated →
      u'.table.deckState.reconstructAccumulated = s.table.deckState.reconstructAccumulated := by
    intro i _ u u' h hu
    rcases kickSeatRaw_eq_ok h with ⟨-, rfl⟩ | ⟨k, -, hk⟩
    · exact hu
    · rw [hk.table]
      exact hu
  exact Fallible.foldlM_keeps (P := fun u : Exec G => u.table.deckState.reconstructAccumulated =
    s.table.deckState.reconstructAccumulated) hstep h rfl

/-- What a reconstruction timeout loses: nothing with a contribution and two players left, the
forfeited contributions without one, everything with fewer players. -/
def reconstructLoss (t : TexasPokerTable G) : ℕ :=
  if 2 ≤ t.survivors (among (lateReconstructors t)) then
    if t.deckState.reconstructAccumulated.isSome then 0
    else t.forfeits (among (lateReconstructors t))
  else if lateReconstructors t = [] ∧ t.countActivePlayers = 1 then 0
  else t.wagers

theorem closeReconstruct_loses (hw : s.table.WagersMatch)
    (h : (if s.table.countActivePlayers = 0 then do
        let s ← s.refundAllBets
        s.resetForNextHand
      else if s.table.countActivePlayers = 1 then s.endWithoutShowdown
      else if s.table.deckState.reconstructAccumulated.isSome then s.onCompleteReconstruct
      else do
        let s ← s.refundAllBets
        let s ← s.resetForNextHand
        return s.emit (.handReset s.table.id resetReasonReconstructFail s.table.roundState)) =
      .ok s') :
    Loses s s' (if 2 ≤ s.table.countActivePlayers then
        if s.table.deckState.reconstructAccumulated.isSome then 0
        else s.table.forfeits fun _ => false
      else if s.table.countActivePlayers = 1 then 0 else s.table.wagers) := by
  split at h
  · rename_i h0
    rw [Fallible.bind_eq_ok] at h
    obtain ⟨m, hm, h⟩ := h
    have hl := refund_reset_loses hm h hw
    have h0' := h0
    rw [TexasPokerTable.countActivePlayers_eq] at h0'
    rw [if_neg (by omega), if_neg (by omega), hw, ← TexasPokerTable.forfeits_of_none h0']
    exact hl
  split at h
  · rename_i h1
    have hl := endWithoutShowdown_fair h
    rw [Fair, if_neg (by omega)] at hl
    rw [if_neg (by omega), if_pos h1]
    exact hl
  rename_i h0 h1
  rw [if_pos (by omega)]
  split at h
  · rename_i ha
    rw [if_pos ha]
    exact (onCompleteReconstruct_still h).loses
  · rename_i ha
    simp only [Fallible.bind_eq_ok] at h
    obtain ⟨m, hm, r, hr, h⟩ := h
    cases h
    rw [if_neg ha]
    exact (refund_reset_loses hm hr hw).emit ⟨rfl, rfl, rfl⟩

theorem onReconstructTimeout_loses (h : s.onReconstructTimeout = .ok s')
    (hw : s.table.WagersMatch) : Loses s s' (reconstructLoss s.table) := by
  simp only [onReconstructTimeout, Fallible.bind_eq_ok] at h
  obtain ⟨k, hk, h⟩ := h
  change (lateReconstructors s.table).foldlM _ _ = _ at hk
  have hse : Still s (s.emit (.reconstructTimeout s.table.id
    s.table.reconstructState.pendingMask)) := still_emit ⟨rfl, rfl, rfl⟩
  have hclose (hk : k.table.WagersMatch) := closeReconstruct_loses hk h
  unfold reconstructLoss
  by_cases hraw : lateReconstructors s.table = [] ∨
      2 ≤ s.table.survivors (among (lateReconstructors s.table))
  · -- only raw kicks: what is lost is lost at the end
    have hk : (lateReconstructors s.table).foldlM
        (fun (s : Exec G) seat => s.kickSeatRaw seat .reconstructTimeout)
        (s.emit (.reconstructTimeout s.table.id s.table.reconstructState.pendingMask)) = .ok k := by
      rcases hraw with hnil | hu
      · rw [hnil] at hk ⊢
        exact hk
      · by_cases hnil : lateReconstructors s.table = []
        · rw [hnil] at hk ⊢
          exact hk
        · obtain ⟨hb, hp⟩ := idle_of_lateReconstructors hnil
          exact foldlM_kickPlayerInternal_of_two hk hb hp hu
    obtain ⟨hkw, hc, hf⟩ := foldlM_kickSeatRaw hk
    have hacc := foldlM_kickSeatRaw_accumulated hk
    simp only [emit_table] at hc hf hacc
    have hsk := hse.keepsWagers.trans hkw
    have hl := hclose (hsk.wagersMatch.mpr hw)
    rw [hc, hf, hacc, hsk.wagers] at hl
    refine Loses.after ?_ hsk.loses
    by_cases hu : 2 ≤ s.table.survivors (among (lateReconstructors s.table))
    · rwa [if_pos hu] at hl ⊢
    · have hnil := hraw.resolve_right hu
      rw [if_neg hu, hnil, among_nil, ← TexasPokerTable.countActivePlayers_eq] at hl
      rw [if_neg hu, hnil]
      simpa only [true_and] using hl
  · -- the hand is reset under way
    rw [not_or] at hraw
    obtain ⟨hb, hp⟩ := idle_of_lateReconstructors hraw.1
    obtain ⟨hkl, hks⟩ := foldlM_kickPlayerInternal_of_short hk hb hp (not_le.mp hraw.2) hraw.1
    have hkw := (hkl.after hse.loses).wagers hw
    have hl := hclose hkw
    rw [forfeits_of_settled hks hkw, hks.wagers, ite_self, ite_self, ite_self] at hl
    rw [if_neg hraw.2, if_neg fun h => hraw.1 h.1]
    exact (hkl.then hl).after hse.loses

end Exec

end TexasPoker
