import TexasPoker.Machine.Reset
import TexasPoker.Vault.Funds

/-! # The end of a hand in closed form

What an accepted collection, award, refund and reset turn a table into.
-/

namespace TexasPoker

variable {G : Type}

/-! ## Updates of every slot -/

namespace TexasPokerTable

variable {t t' : TexasPokerTable G}

theorem foldlM_setSeat_eq_ok {f : Fin maxSeats → Seat G → PokerL1Result (Seat G)}
    {l : List (Fin maxSeats)} (hl : l.Nodup)
    (h : l.foldlM (fun t i => do return t.setSeat i (← f i (t.seats i))) t = .ok t') :
    t' = { t with seats := t'.seats } ∧ (∀ i ∈ l, f i (t.seats i) = .ok (t'.seats i)) ∧
      ∀ i ∉ l, t'.seats i = t.seats i := by
  induction l generalizing t with
  | nil =>
    obtain rfl : t = t' := by simpa using h
    simp
  | cons i l ih =>
    rw [List.foldlM_cons, Fallible.bind_eq_ok] at h
    obtain ⟨u, hu, h⟩ := h
    obtain ⟨s, hs, hu⟩ := Fallible.bind_eq_ok.mp hu
    rw [Fallible.pure_eq_ok] at hu
    subst hu
    obtain ⟨hnot, hl⟩ := List.nodup_cons.mp hl
    obtain ⟨hrest, hmem, hout⟩ := ih hl h
    refine ⟨hrest, fun j hj => ?_, fun j hj => ?_⟩
    · rcases List.mem_cons.mp hj with rfl | hj
      · rw [hout j hnot, seats_setSeat_self]
        exact hs
      · have hne : j.1 ≠ i.1 := fun he => hnot (Fin.ext he ▸ hj)
        rw [← hmem j hj, seats_setSeat_of_ne hne]
    · rw [List.mem_cons, not_or] at hj
      rw [hout j hj.2, seats_setSeat_of_ne fun he => hj.1 (Fin.ext he)]

/-- An accepted update of every slot computes each from its own old value. -/
theorem mapSeatsM_eq_ok {f : Fin maxSeats → Seat G → PokerL1Result (Seat G)}
    (h : t.mapSeatsM f = .ok t') :
    t' = { t with seats := t'.seats } ∧ ∀ i, f i (t.seats i) = .ok (t'.seats i) := by
  obtain ⟨hrest, hmem, -⟩ := foldlM_setSeat_eq_ok (List.nodup_finRange maxSeats) h
  exact ⟨hrest, fun i => hmem i (List.mem_finRange i)⟩

/-- The table with its live bets in the pot. -/
def collected (t : TexasPokerTable G) : TexasPokerTable G :=
  { t.mapSeats Seat.clearBet with pot := t.pot + t.sumBets }

/-! ## The table after a reset -/

/-- The seat leaves at the reset. -/
def leaves (t : TexasPokerTable G) (i : Fin maxSeats) : Bool :=
  (t.seats i).isOccupied && t.seatWantsLeave i

/-- A slot prepared for the next hand. -/
def preparedSeat (t : TexasPokerTable G) (i : Fin maxSeats) : Seat G :=
  (t.seats i).mergeAddon.refillTimeBank.prepareNextHand

/-- A slot after the reset. -/
def nextSeat (t : TexasPokerTable G) (i : Fin maxSeats) : Seat G :=
  if t.leaves i then .empty
  else if (t.preparedSeat i).hasLeftHand ||
      ((t.preparedSeat i).isOccupied && (t.preparedSeat i).stack = 0) then .empty
  else t.preparedSeat i

/-- What the leaving seats are paid. -/
def leaveRefund (t : TexasPokerTable G) : ℕ :=
  (t.leavingSeats.map fun i => (t.seats i).stack + (t.seats i).pendingAddon).sum

section Reset

variable [AddCommGroup G] [Protocol G] [DecidableEq G]

/-- The table after a reset. -/
def afterHand (t : TexasPokerTable G) : TexasPokerTable G :=
  let t' := { t with seats := t.nextSeat, chipPool := t.chipPool - t.leaveRefund }
  clearHand { t' with deckState := { t.deckState with contributorMask := t'.liveKeyMask } }

omit [AddCommGroup G] [Protocol G] [DecidableEq G] in
theorem preflightSeat_eq_ok {acc acc' : ℕ × ℕ} {i : Fin maxSeats}
    (h : t.preflightSeat acc i = .ok acc') :
    acc'.2 = acc.2 + if t.leaves i then (t.seats i).stack + (t.seats i).pendingAddon else 0 := by
  unfold preflightSeat at h
  by_cases hl : (t.seats i).isOccupied = true ∧ t.seatWantsLeave i = true
  · rw [leaves, if_pos (Bool.and_eq_true_iff.mpr hl)]
    simp only [if_pos hl] at h
    split at h
    · simp only [Fallible.bind_eq_ok, Fallible.checkedAdd_eq_ok, Fallible.pure_eq_ok] at h
      obtain ⟨_, -, _, -, _, ⟨-, rfl⟩, _, ⟨-, rfl⟩, rfl⟩ := h
      rfl
    · simp only [Fallible.bind_eq_ok, Fallible.checkedAdd_eq_ok, Fallible.pure_eq_ok] at h
      obtain ⟨_, -, _, ⟨-, rfl⟩, _, ⟨-, rfl⟩, rfl⟩ := h
      rfl
  · rw [leaves, if_neg (mt Bool.and_eq_true_iff.mp hl)]
    simp only [if_neg hl] at h
    split at h
    · simp only [Fallible.bind_eq_ok, Fallible.pure_eq_ok] at h
      obtain ⟨_, -, _, -, _, rfl, rfl⟩ := h
      rfl
    · simp only [Fallible.bind_eq_ok, Fallible.pure_eq_ok] at h
      obtain ⟨_, -, _, rfl, rfl⟩ := h
      rfl

omit [AddCommGroup G] [Protocol G] [DecidableEq G] in
theorem foldlM_preflightSeat_eq_ok {acc acc' : ℕ × ℕ} {l : List (Fin maxSeats)}
    (h : l.foldlM t.preflightSeat acc = .ok acc') :
    acc'.2 = acc.2 +
      ((l.filter t.leaves).map fun i => (t.seats i).stack + (t.seats i).pendingAddon).sum := by
  induction l generalizing acc with
  | nil =>
    obtain rfl : acc = acc' := by simpa using h
    simp
  | cons i l ih =>
    rw [List.foldlM_cons, Fallible.bind_eq_ok] at h
    obtain ⟨mid, hmid, h⟩ := h
    rw [ih h, preflightSeat_eq_ok hmid, List.filter_cons]
    split <;> simp [Nat.add_assoc]

omit [AddCommGroup G] [Protocol G] [DecidableEq G] in
theorem resetPreflight_eq_ok {post : ℕ} (h : t.resetPreflight = .ok post) :
    t.leaveRefund ≤ t.chipPool ∧ post = t.chipPool - t.leaveRefund := by
  simp only [resetPreflight, Fallible.bind_eq_ok, Fallible.checkedSub_eq_ok] at h
  obtain ⟨acc, hacc, hle, rfl⟩ := h
  have : acc.2 = t.leaveRefund := by
    rw [foldlM_preflightSeat_eq_ok hacc, Nat.zero_add]
    rfl
  rw [← this]
  exact ⟨hle, rfl⟩

/-! ### Vacating slots -/

omit [AddCommGroup G] [Protocol G] [DecidableEq G] in
theorem foldl_vacateSeat_seats {l : List (Fin maxSeats)} (i : Fin maxSeats) :
    (l.foldl (fun t i => t.vacateSeat i) t).seats i = if i ∈ l then .empty else t.seats i := by
  induction l generalizing t with
  | nil => simp
  | cons j l ih =>
    rw [List.foldl_cons, ih]
    by_cases hl : i ∈ l
    · simp [hl]
    · by_cases hj : i = j
      · subst hj
        simp [hl, vacateSeat, setSeatWantsLeave, setSeat]
      · have hne : i.1 ≠ j.1 := fun he => hj (Fin.ext he)
        simp [hl, hj, vacateSeat, setSeatWantsLeave, setSeat, hne]

omit [AddCommGroup G] [Protocol G] [DecidableEq G] in
theorem mem_foldl_vacateSeat {l : List (Fin maxSeats)} {j : ℕ} :
    Mask.mem (l.foldl (fun t i => t.vacateSeat i) t).deckState.contributorMask j = true ↔
      Mask.mem t.deckState.contributorMask j = true ∧ ∀ i ∈ l, j ≠ i.1 := by
  induction l generalizing t with
  | nil => simp
  | cons i l ih =>
    rw [List.foldl_cons, ih, List.forall_mem_cons]
    have : (t.vacateSeat i).deckState.contributorMask =
        seatMaskRemove t.deckState.contributorMask i := rfl
    rw [this, mem_seatMaskRemove i.isLt]
    simp [and_assoc]

omit [AddCommGroup G] [Protocol G] [DecidableEq G] in
/-- Vacating slots changes seats, contributors and leave flags only. -/
theorem foldl_vacateSeat_rest {l : List (Fin maxSeats)} :
    let t' := l.foldl (fun t i => t.vacateSeat i) t
    t' = { t with
      seats := t'.seats
      leaveAfterHandMask := t'.leaveAfterHandMask
      deckState := { t.deckState with contributorMask := t'.deckState.contributorMask } } := by
  induction l generalizing t with
  | nil => rfl
  | cons i l ih => exact ih (t := t.vacateSeat i)

end Reset

end TexasPokerTable

namespace Exec

variable {s s' : Exec G}

theorem collectBetsToPot_eq_ok (h : s.collectBetsToPot = .ok s') :
    s'.table = s.table.collected ∧ s.SamePayments s' := by
  simp only [collectBetsToPot, Fallible.bind_eq_ok, Fallible.checkedSum_eq_ok,
    Fallible.checkedAdd_eq_ok] at h
  obtain ⟨_, ⟨-, rfl⟩, _, ⟨-, rfl⟩, h⟩ := h
  split at h
  · cases h
    exact ⟨rfl, .of_event rfl ⟨rfl, rfl, rfl⟩⟩
  · cases h
    exact ⟨rfl, ⟨rfl, rfl, rfl⟩⟩

theorem awardSurvivor_eq_ok (h : s.awardSurvivor = .ok s') :
    s.SamePayments s' ∧
      (soleSurvivor s.table = none ∧ s' = s ∨
        ∃ winner seat, soleSurvivor s.table = some winner ∧
          (s.table.seats winner).setStack ((s.table.seats winner).stack + s.table.pot) = .ok seat ∧
          s'.table = { s.table.setSeat winner seat with pot := 0 }) := by
  unfold awardSurvivor at h
  split at h
  · rename_i hw
    cases h
    exact ⟨.refl s, .inl ⟨hw, rfl⟩⟩
  · rename_i winner hw
    simp only [Fallible.bind_eq_ok, Fallible.checkedAdd_eq_ok] at h
    obtain ⟨_, ⟨-, rfl⟩, seat, hs, h⟩ := h
    cases h
    exact ⟨.of_event rfl ⟨rfl, rfl, rfl⟩, .inr ⟨winner, seat, hw, hs, rfl⟩⟩

/-! ## The refund -/

/-- A slot after a refund: an unfolded seat has its contribution back. -/
def refundedSeat : Seat G → Seat G
  | .playing p =>
    let occupied := { p.occupied with
      stack := p.occupied.stack + if p.status = .folded then 0 else p.totalBet }
    .playing { p with occupied, bet := 0, totalBet := 0 }
  | .departedThisHand player _ t => .departedThisHand player 0 t
  | s => s

theorem isRefundable_playing {p : PlayingSeat G} :
    isRefundable (.playing p) = true ↔ p.status ≠ .folded ∧ 0 < p.totalBet := by
  rw [isRefundable, Bool.and_eq_true, decide_eq_true_eq]
  cases hs : p.status <;>
    simp [Seat.isOccupied, Seat.isFolded, Seat.status, Seat.hasLeftHand, Seat.totalBet, hs]

theorem refundSeat_eq_ok {seat seat' : Seat G} (h : refundSeat seat = .ok seat') :
    seat' = refundedSeat seat := by
  cases seat with
  | vacant _ =>
    cases h
    rfl
  | waiting _ =>
    cases h
    rfl
  | departedThisHand _ _ _ =>
    cases h
    rfl
  | playing p =>
    rw [refundSeat] at h
    split at h
    · rename_i hr
      obtain ⟨hf, -⟩ := isRefundable_playing.mp hr
      simp only [Fallible.bind_eq_ok, Fallible.checkedAdd_eq_ok] at h
      obtain ⟨_, ⟨-, rfl⟩, _, hs, _, hb, ht⟩ := h
      cases hs
      cases hb
      cases ht
      simp [refundedSeat, hf, Seat.stack, Seat.totalBet]
    · rename_i hr
      simp only [Fallible.bind_eq_ok, Fallible.pure_eq_ok] at h
      obtain ⟨_, rfl, _, hb, ht⟩ := h
      cases hb
      cases ht
      by_cases hf : p.status = .folded
      · simp [refundedSeat, hf]
      · have h0 : p.totalBet = 0 := by
          by_contra h0
          exact hr (isRefundable_playing.mpr ⟨hf, Nat.pos_of_ne_zero h0⟩)
        simp [refundedSeat, h0]

theorem refundAllBets_eq_ok (h : s.refundAllBets = .ok s') :
    s'.table = { s.table.mapSeats refundedSeat with pot := 0 } ∧ s.SamePayments s' := by
  simp only [refundAllBets, Fallible.bind_eq_ok] at h
  obtain ⟨t, ht, h⟩ := h
  obtain ⟨hrest, hseats⟩ := TexasPokerTable.mapSeatsM_eq_ok ht
  cases h
  constructor
  · have hs : t.seats = (s.table.mapSeats refundedSeat).seats :=
      funext fun i => refundSeat_eq_ok (hseats i)
    rw [hrest, hs]
    rfl
  · refine .of_events rfl fun e he => ?_
    obtain ⟨i, -, rfl⟩ := List.mem_map.mp he
    exact ⟨rfl, rfl, rfl⟩

/-! ## The reset -/

theorem foldl_removeLeaver_table {l : List (Fin maxSeats)} :
    (l.foldl removeLeaver s).table = l.foldl (fun t i => t.vacateSeat i) s.table := by
  induction l generalizing s with
  | nil => rfl
  | cons i l ih =>
    rw [List.foldl_cons, ih]
    rfl

theorem foldl_removeBusted_table {l : List (Fin maxSeats)} :
    (l.foldl removeBusted s).table = l.foldl (fun t i => t.vacateSeat i) s.table := by
  induction l generalizing s with
  | nil => rfl
  | cons i l ih =>
    rw [List.foldl_cons, ih]
    rfl

variable [AddCommGroup G] [Protocol G] [DecidableEq G]

omit [AddCommGroup G] [Protocol G] [DecidableEq G] in
theorem pk_prepareNextHand (seat : Seat G) : seat.prepareNextHand.pk = seat.pk := by
  cases seat <;> rfl

omit [AddCommGroup G] [Protocol G] [DecidableEq G] in
theorem mem_bustedSeats {t : TexasPokerTable G} {i : Fin maxSeats} :
    i ∈ t.bustedSeats ↔
      ((t.seats i).hasLeftHand || ((t.seats i).isOccupied && (t.seats i).stack = 0)) = true := by
  simp [TexasPokerTable.bustedSeats]

omit [AddCommGroup G] [Protocol G] [DecidableEq G] in
theorem mem_leavingSeats {t : TexasPokerTable G} {i : Fin maxSeats} :
    i ∈ t.leavingSeats ↔ t.leaves i = true := by
  simp [TexasPokerTable.leavingSeats, TexasPokerTable.leaves]

omit [AddCommGroup G] [Protocol G] [DecidableEq G] in
/-- Clearing the leaving and then the chipless seats leaves the next hand's seats. -/
theorem seats_after_departures {t u v : TexasPokerTable G} (hu : ∀ i, u.seats i =
      if i ∈ t.leavingSeats then .empty else t.preparedSeat i)
    (hv : ∀ i, v.seats i = if i ∈ u.bustedSeats then .empty else u.seats i) :
    v.seats = t.nextSeat := by
  funext i
  rw [hv, TexasPokerTable.nextSeat]
  by_cases hl : t.leaves i = true
  · have hi : u.seats i = .empty := by rw [hu, if_pos (mem_leavingSeats.mpr hl)]
    rw [hi, if_pos hl, ite_self]
  · have hi : u.seats i = t.preparedSeat i := by rw [hu, if_neg (mt mem_leavingSeats.mp hl)]
    simp only [mem_bustedSeats, hi, hl, Bool.false_eq_true, if_false]

omit [Protocol G] in
theorem liveKeyMask_congr {t u : TexasPokerTable G} (h : ∀ i, (t.seats i).pk = (u.seats i).pk) :
    t.liveKeyMask = u.liveKeyMask := by
  simp only [TexasPokerTable.liveKeyMask, h]

omit [Protocol G] in
theorem mem_liveKeyMask {t : TexasPokerTable G} {j : ℕ} :
    Mask.mem t.liveKeyMask j = true ↔
      ∃ i : Fin maxSeats, (t.seats i).pk.any (fun pk => pk ≠ 0) = true ∧ j = i.1 :=
  mem_maskOf_iff

omit [Protocol G] in
/-- Dropping the vacated seats from the keys of the prepared ones leaves the live keys. -/
theorem contributors_after_departures {t u v : TexasPokerTable G} {mask : SeatMask}
    {l : List (Fin maxSeats)} (hu : ∀ i, (u.seats i).pk = (t.seats i).pk)
    (hv : ∀ i, v.seats i = if i ∈ l then .empty else u.seats i)
    (hm : ∀ j, Mask.mem mask j = true ↔ Mask.mem t.liveKeyMask j = true ∧ ∀ i ∈ l, j ≠ i.1) :
    mask = v.liveKeyMask := by
  refine Mask.ext_mem fun j _ => ?_
  rw [Bool.eq_iff_iff, hm, mem_liveKeyMask, mem_liveKeyMask]
  constructor
  · rintro ⟨⟨i, hi, rfl⟩, hl⟩
    have hil : i ∉ l := fun h => hl i h rfl
    exact ⟨i, by rwa [hv, if_neg hil, hu], rfl⟩
  · rintro ⟨i, hi, rfl⟩
    have hil : i ∉ l := fun h => by
      rw [hv, if_pos h] at hi
      cases hi
    rw [hv, if_neg hil, hu] at hi
    exact ⟨⟨i, hi, rfl⟩, fun k hk he => hil (Fin.ext he ▸ hk)⟩

/-- An accepted reset leads to the table after the hand. -/
theorem resetForNextHand_table (h : s.resetForNextHand = .ok s') :
    s.table.leaveRefund ≤ s.table.chipPool ∧ s'.table = s.table.afterHand := by
  simp only [resetForNextHand, Fallible.bind_eq_ok] at h
  obtain ⟨post, hpost, h⟩ := h
  obtain ⟨hle, rfl⟩ := TexasPokerTable.resetPreflight_eq_ok hpost
  refine ⟨hle, ?_⟩
  cases h
  have hfinal (b : TexasPokerTable G) (hb : b = { s.table with
      seats := b.seats, actedMask := b.actedMask, leaveAfterHandMask := b.leaveAfterHandMask,
      chipPool := s.table.chipPool - s.table.leaveRefund,
      deckState := { s.table.deckState with contributorMask := b.deckState.contributorMask } })
      (hs : b.seats = s.table.nextSeat)
      (hm : b.deckState.contributorMask = b.liveKeyMask) :
      b.clearHand = s.table.afterHand := by
    have hk : b.liveKeyMask = ({ s.table with seats := s.table.nextSeat } :
      TexasPokerTable G).liveKeyMask := by
        simp only [TexasPokerTable.liveKeyMask, hs]
    rw [hk] at hm
    rw [hb, hs, hm]
    rfl
  have hp : ∀ i, s.mergeAddons.prepareSeats.table.seats i = s.table.preparedSeat i := fun _ => rfl
  have hq := TexasPokerTable.foldl_vacateSeat_rest (t := s.mergeAddons.prepareSeats.table)
    (l := s.table.leavingSeats)
  have hqs := TexasPokerTable.foldl_vacateSeat_seats (t := s.mergeAddons.prepareSeats.table)
    (l := s.table.leavingSeats)
  have hqm (j : ℕ) := TexasPokerTable.mem_foldl_vacateSeat (j := j)
    (t := s.mergeAddons.prepareSeats.table) (l := s.table.leavingSeats)
  simp only [foldl_removeBusted_table, withTable_table, foldl_removeLeaver_table]
  generalize s.table.leavingSeats.foldl (fun t i => t.vacateSeat i.1)
    s.mergeAddons.prepareSeats.table = q at hq hqs hqm ⊢
  generalize hr : ({ q with chipPool := s.table.chipPool - s.table.leaveRefund } :
    TexasPokerTable G) = r
  have hb := TexasPokerTable.foldl_vacateSeat_rest (t := r) (l := r.bustedSeats)
  have hbs := TexasPokerTable.foldl_vacateSeat_seats (t := r) (l := r.bustedSeats)
  have hbm (j : ℕ) := TexasPokerTable.mem_foldl_vacateSeat (j := j) (t := r) (l := r.bustedSeats)
  generalize r.bustedSeats.foldl (fun t i => t.vacateSeat i.1) r = b at hb hbs hbm ⊢
  subst hr
  refine hfinal b ?_ ?_ ?_
  · rw [hb, hq]
    rfl
  · exact seats_after_departures (fun i => by rw [hqs, hp]) hbs
  · refine contributors_after_departures (t := s.mergeAddons.prepareSeats.table)
      (u := s.mergeAddons.prepareSeats.table)
      (l := s.table.leavingSeats ++ ({ q with
        chipPool := s.table.chipPool - s.table.leaveRefund } : TexasPokerTable G).bustedSeats)
      (fun _ => rfl) (fun i => ?_) fun j => ?_
    · rw [hbs]
      simp only [hqs, List.mem_append]
      by_cases h₁ : i ∈ s.table.leavingSeats <;> simp [h₁]
    · rw [hbm, hqm, and_assoc, List.forall_mem_append]
      have hm : s.mergeAddons.prepareSeats.table.deckState.contributorMask =
          s.mergeAddons.prepareSeats.table.liveKeyMask :=
        liveKeyMask_congr fun i => (pk_prepareNextHand _).symm
      rw [hm]

end Exec

end TexasPoker
