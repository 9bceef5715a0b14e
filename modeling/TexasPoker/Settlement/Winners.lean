import TexasPoker.Settlement.Validity

/-! # Winners and layers

What the ranking and the payment of one layer produce: winners are eligible, and the
runouts of the layer share its net amount.
-/

namespace TexasPoker

open SidePot SettlementPlan

namespace TexasPokerTable

variable {G : Type} {t : TexasPokerTable G} {mask : SeatMask} {board : List Card}

/-- A seat that can be ranked shows two cards. -/
def ShowsHand (t : TexasPokerTable G) (i : ℕ) : Prop := ∃ hand, (t.seat i).hand = some hand ∧ hand.len = 2

/-- The ranking after some seats: winners exist once an eligible seat was ranked, and all of
them are eligible. -/
structure Ranking.Sound (mask : SeatMask) (ranked : List ℕ) (r : Ranking) : Prop where
  started : r.best.isSome ↔ ∃ i ∈ ranked, Mask.mem mask i = true
  winners : r.winnerMask ≠ 0 ↔ r.best.isSome
  eligible : ∀ j, Mask.mem r.winnerMask j = true → Mask.mem mask j = true ∧ j ∈ ranked

theorem rankSeat_sound {ranked : List ℕ} {r r' : Ranking} {i : ℕ} (hi : i < 16)
    (hr : r.Sound mask ranked) (h : t.rankSeat mask board r i = .ok r') :
    r'.Sound mask (ranked ++ [i]) ∧ (Mask.mem mask i = true → t.ShowsHand i) := by
  unfold rankSeat at h
  by_cases hm : Mask.mem mask i = true
  swap
  · have hm' : Mask.mem mask i = false := by simpa using hm
    simp only [hm', Bool.not_false, if_true, Fallible.pure_eq_ok] at h
    subst h
    refine ⟨⟨?_, hr.winners, fun j hj => ?_⟩, fun h => absurd h hm⟩
    · rw [hr.started]
      simp [hm']
    · exact ⟨(hr.eligible j hj).1, List.mem_append_left _ (hr.eligible j hj).2⟩
  simp only [hm, Bool.not_true, Bool.false_eq_true, if_false, Fallible.bind_eq_ok,
    Fallible.orErr_eq_ok, Fallible.ensure_eq_ok] at h
  obtain ⟨hand, hh, -, hlen, h⟩ := h
  refine ⟨?_, fun _ => ⟨hand, hh, hlen⟩⟩
  have hstart : ∃ j ∈ ranked ++ [i], Mask.mem mask j = true := ⟨i, by simp, hm⟩
  have hbit : seatMaskBit i ≠ 0 := Mask.ne_zero_iff.mpr ⟨i, by simp [seatMaskBit, hi]⟩
  have hself : ∀ j, Mask.mem (seatMaskBit i) j = true → Mask.mem mask j = true ∧ j ∈ ranked ++ [i] := by
    intro j hj
    simp only [seatMaskBit, Mask.mem_single, decide_eq_true_eq] at hj
    rw [hj.2]
    exact ⟨hm, by simp⟩
  have hold : ∀ j, Mask.mem r.winnerMask j = true → Mask.mem mask j = true ∧ j ∈ ranked ++ [i] :=
    fun j hj => ⟨(hr.eligible j hj).1, List.mem_append_left _ (hr.eligible j hj).2⟩
  split at h
  · cases h
    exact ⟨by simpa using hstart, ⟨fun _ => rfl, fun _ => hbit⟩, hself⟩
  · rename_i best hbest
    have hw : r.winnerMask ≠ 0 := hr.winners.mpr (by rw [hbest]; rfl)
    split at h
    · cases h
      exact ⟨by simpa using hstart, ⟨fun _ => rfl, fun _ => hbit⟩, hself⟩
    split at h
    · cases h
      refine ⟨by simpa using hstart, ?_, fun j hj => ?_⟩
      · refine ⟨fun _ => rfl, fun _ => Mask.ne_zero_iff.mpr ⟨i, ?_⟩⟩
        rw [Mask.mem_insert hi]
        simp
      · rw [Mask.mem_insert hi] at hj
        rcases Bool.or_eq_true _ _ ▸ hj with hj | hj
        · exact hold j hj
        · rw [decide_eq_true_eq.mp hj]
          exact ⟨hm, by simp⟩
    · cases h
      exact ⟨by simpa using hstart, ⟨fun _ => rfl, fun _ => hw⟩, hold⟩

theorem exists_rankSeat (board : List Card) (r : Ranking) {i : ℕ} (h : Mask.mem mask i = true → t.ShowsHand i) :
    ∃ r', t.rankSeat mask board r i = .ok r' := by
  unfold rankSeat
  by_cases hm : Mask.mem mask i = true
  · obtain ⟨hand, hh, hlen⟩ := h hm
    simp only [hm, Bool.not_true, Bool.false_eq_true, if_false, hh, Fallible.orErr_some,
      Fallible.ok_bind, Fallible.ensure_pos hlen]
    split
    · exact ⟨_, rfl⟩
    split
    · exact ⟨_, rfl⟩
    split <;> exact ⟨_, rfl⟩
  · have hm' : Mask.mem mask i = false := by simpa using hm
    exact ⟨r, by simp [hm']⟩

theorem foldlM_rankSeat_sound {l ranked : List ℕ} {r r' : Ranking} (hl : ∀ i ∈ l, i < 16)
    (hr : r.Sound mask ranked) (h : l.foldlM (t.rankSeat mask board) r = .ok r') :
    r'.Sound mask (ranked ++ l) ∧ ∀ i ∈ l, Mask.mem mask i = true → t.ShowsHand i := by
  induction l generalizing r ranked with
  | nil =>
    rw [List.foldlM_nil, Fallible.pure_eq_ok] at h
    subst h
    simpa using hr
  | cons i l ih =>
    rw [List.foldlM_cons, Fallible.bind_eq_ok] at h
    obtain ⟨u, hu, h⟩ := h
    simp only [List.mem_cons, forall_eq_or_imp] at hl
    obtain ⟨hs, hi⟩ := rankSeat_sound hl.1 hr hu
    obtain ⟨hs', hrest⟩ := ih hl.2 hs h
    refine ⟨by simpa using hs', ?_⟩
    simpa using ⟨hi, hrest⟩

theorem exists_foldlM_rankSeat (board : List Card) {l : List ℕ} {r : Ranking}
    (h : ∀ i ∈ l, Mask.mem mask i = true → t.ShowsHand i) :
    ∃ r', l.foldlM (t.rankSeat mask board) r = .ok r' := by
  induction l generalizing r with
  | nil => exact ⟨r, rfl⟩
  | cons i l ih =>
    obtain ⟨u, hu⟩ := exists_rankSeat board r (h i List.mem_cons_self)
    obtain ⟨r', hr'⟩ := ih (r := u) fun j hj => h j (List.mem_cons_of_mem _ hj)
    exact ⟨r', by rw [List.foldlM_cons, hu]; exact hr'⟩

theorem sound_start : Ranking.Sound mask [] ⟨none, 0, fun _ => none⟩ where
  started := by simp
  winners := by simp
  eligible := by simp

/-- Winners are eligible seats of the table. -/
theorem findWinners_of_ok {winners : SeatMask} {ranks : Fin maxSeats → Option HandRank}
    (hn : t.rules.maxPlayers ≤ maxSeats) (h : t.findWinners mask board = .ok (winners, ranks)) :
    winners ≠ 0 ∧ ∀ j, Mask.mem winners j = true → Mask.mem mask j = true ∧ j < t.rules.maxPlayers := by
  simp only [findWinners, Fallible.bind_eq_ok, Fallible.ensure_eq_ok, Fallible.pure_eq_ok] at h
  obtain ⟨r, hr, -, hw, h⟩ := h
  cases h
  have hl : ∀ i ∈ List.range t.rules.maxPlayers, i < 16 := fun i hi =>
    (List.mem_range.mp hi).trans_le (hn.trans (by decide))
  obtain ⟨hs, -⟩ := foldlM_rankSeat_sound hl sound_start hr
  exact ⟨hw, fun j hj => by simpa using hs.eligible j hj⟩

/-- Some eligible seat of the table and shown hands make winners. -/
theorem exists_findWinners (board : List Card) (hn : t.rules.maxPlayers ≤ maxSeats)
    (hsome : ∃ i < t.rules.maxPlayers, Mask.mem mask i = true)
    (hhand : ∀ i < t.rules.maxPlayers, Mask.mem mask i = true → t.ShowsHand i) :
    ∃ winners ranks, t.findWinners mask board = .ok (winners, ranks) := by
  have hl : ∀ i ∈ List.range t.rules.maxPlayers, i < 16 := fun i hi =>
    (List.mem_range.mp hi).trans_le (hn.trans (by decide))
  obtain ⟨r, hr⟩ := exists_foldlM_rankSeat (t := t) board
    (l := List.range t.rules.maxPlayers) (r := ⟨none, 0, fun _ => none⟩)
    fun i hi => hhand i (List.mem_range.mp hi)
  obtain ⟨hs, -⟩ := foldlM_rankSeat_sound hl sound_start hr
  have hw : r.winnerMask ≠ 0 := hs.winners.mpr (hs.started.mpr (by simpa using hsome))
  refine ⟨r.winnerMask, r.ranks, ?_⟩
  rw [findWinners, hr, Fallible.ok_bind, Fallible.ensure_pos hw]
  rfl

end TexasPokerTable

end TexasPoker
