import TexasPoker.Invariants.Tokens

/-! # Hidden mucks

The showdown reveal asks every seat of the hand for its cards, folded ones too. It spares the
folded seats exactly where none of their cards is left in the ledger.
-/

namespace TexasPoker

variable {G : Type}

/-- An assignment opens a card of the seat, or waits for its token. -/
def RevealAssignment.Concerns (a : RevealAssignment G) (i : ℕ) : Prop :=
  (∃ slot, a.target = .hole i slot) ∨ seatMaskContains a.pendingMask i = true

namespace TexasPokerTable

/-- Owners are opening their cards. -/
def inShowdownReveal (t : TexasPokerTable G) : Bool :=
  t.isRevealing && t.revealTokenState.any fun reveal => reveal.purpose = .showdownOwner

/-- No assignment of a showdown concerns a folded seat. -/
def HidesMucks (t : TexasPokerTable G) : Prop :=
  t.inShowdownReveal = true →
    ∀ a ∈ t.revealAssignments, ∀ i, a.Concerns i → (t.seat i).isFolded = false

/-- No folded seat has cards left that it could open. -/
def MucksGone (t : TexasPokerTable G) : Prop :=
  ∀ i : Fin maxSeats, (t.seats i).isFolded = true →
    t.deckState.ownerReadableHoleCards.iterForSeat i = []

/-- A showdown reveal begins. -/
def OpensShowdown (t t' : TexasPokerTable G) : Prop :=
  t.inShowdownReveal = false ∧ t'.inShowdownReveal = true

variable {t t' u : TexasPokerTable G}

theorem inShowdownReveal_iff : t.inShowdownReveal = true ↔
    ∃ street assignments d, t.handPhase = .revealing street ⟨.showdownOwner, assignments⟩ d := by
  unfold inShowdownReveal isRevealing revealDeadlineMs revealTokenState
  constructor
  · intro h
    split at h
    · rename_i street reveal d hp
      obtain ⟨purpose, assignments⟩ := reveal
      rw [hp] at h
      obtain rfl : purpose = .showdownOwner := by simpa using h
      exact ⟨street, assignments, d, hp⟩
    · cases h
  · rintro ⟨street, assignments, d, hp⟩
    simp [hp]

theorem HidesMucks.of_closed (h : t.inShowdownReveal = false) : t.HidesMucks := fun hopen => by
  rw [h] at hopen
  cases hopen

theorem HidesMucks.of_revealing {street d : ℕ} {reveal : RevealTokenState G}
    (hp : t.handPhase = .revealing street reveal d)
    (h : reveal.purpose = .showdownOwner → ∀ a ∈ reveal.assignments, ∀ i, a.Concerns i →
      (t.seat i).isFolded = false) : t.HidesMucks := by
  intro hopen a ha i hi
  obtain ⟨_, assignments, _, hp'⟩ := inShowdownReveal_iff.mp hopen
  rw [hp] at hp'
  cases hp'
  exact h rfl a (revealAssignments_of_revealing hp ▸ ha) i hi

theorem HidesMucks.not_pending (h : t.HidesMucks)
    (hopen : t.inShowdownReveal = true) {k : ℕ} (hk : (t.seat k).isFolded = true) :
    seatMaskContains (Exec.revealPendingMask t) k = false := by
  by_contra hc
  obtain ⟨hlt, hmem⟩ := seatMaskContains_iff.mp (by simpa using hc)
  have hfold : ∀ (l : List (RevealAssignment G)) (m : SeatMask),
      Mask.mem (l.foldl (fun mask a => mask ||| a.pendingMask) m) k = true →
        Mask.mem m k = true ∨ ∃ a ∈ l, Mask.mem a.pendingMask k = true := by
    intro l
    induction l with
    | nil => exact fun m h => .inl h
    | cons a l ih =>
      intro m h
      rcases ih _ h with h | ⟨b, hb, h⟩
      · rw [Mask.mem_or, Bool.or_eq_true] at h
        exact h.imp_right fun h => ⟨a, List.mem_cons_self, h⟩
      · exact .inr ⟨b, List.mem_cons_of_mem _ hb, h⟩
  rcases hfold _ _ hmem with h0 | ⟨a, ha, hpending⟩
  · rw [Mask.mem_zero] at h0
    cases h0
  · have hlive := h hopen a ha k (.inr (seatMaskContains_iff.mpr ⟨hlt, hpending⟩))
    rw [hk] at hlive
    cases hlive

theorem participates_of_isFolded {s : Seat G} (h : s.isFolded = true) : s.participates = true := by
  cases s with
  | playing p => rfl
  | _ => cases h

/-! ## Opening -/

/-- The assignment that opens one card of a seat. -/
def showdownAssignment (i : ℕ) (r : ℕ × PartialHoleCard G) : RevealAssignment G where
  encryptedCardIndex := r.2.encryptedCardIndex
  target := .hole i r.1
  pendingMask := seatMaskBit i
  submittedMask := 0
  revealTokens := []

theorem concerns_showdownAssignment {k : Fin maxSeats} {r : ℕ × PartialHoleCard G} {i : ℕ} :
    (showdownAssignment k r).Concerns i ↔ i = k := by
  constructor
  · rintro (⟨slot, hslot⟩ | hpending)
    · cases hslot
      rfl
    · have hmem := (seatMaskContains_iff.mp hpending).2
      rw [showdownAssignment, seatMaskBit, Mask.mem_single] at hmem
      exact (of_decide_eq_true hmem).2
  · rintro rfl
    exact .inl ⟨r.1, rfl⟩

/-- A showdown asks every seat of the hand for each card it has left. -/
theorem ShowdownOpening.mem_iff {assignments : List (RevealAssignment G)}
    (h : ShowdownOpening u assignments) {a : RevealAssignment G} :
    a ∈ assignments ↔ ∃ k : Fin maxSeats, (u.seats k).participates = true ∧
      ∃ r ∈ u.deckState.ownerReadableHoleCards.iterForSeat k, a = showdownAssignment k r := by
  obtain ⟨parts, hparts, rfl⟩ := Fallible.foldlM_append_eq_ok h
  have hpart : ∀ seat part, u.showdownAssignments seat = .ok part →
      part = (u.deckState.ownerReadableHoleCards.iterForSeat seat).map
        (showdownAssignment seat) := by
    intro seat part hp
    rw [showdownAssignments, Fallible.bind_eq_ok] at hp
    obtain ⟨_, -, hp⟩ := hp
    cases hp
    rfl
  have hall : parts = u.getActiveSeatIndices.map fun seat =>
      (u.deckState.ownerReadableHoleCards.iterForSeat seat).map (showdownAssignment seat) := by
    clear h
    generalize u.getActiveSeatIndices = seats at hparts ⊢
    induction hparts with
    | nil => rfl
    | cons hp _ ih => rw [List.map_cons, ← ih, hpart _ _ hp]
  rw [List.nil_append, hall, ← List.flatMap_def, List.mem_flatMap]
  constructor
  · rintro ⟨seat, hseat, ha⟩
    obtain ⟨k, hk, rfl⟩ := List.mem_map.mp hseat
    obtain ⟨r, hr, rfl⟩ := List.mem_map.mp ha
    exact ⟨k, (List.mem_filter.mp hk).2, r, hr, rfl⟩
  · rintro ⟨k, hk, r, hr, rfl⟩
    exact ⟨k, List.mem_map_of_mem (List.mem_filter.mpr ⟨List.mem_finRange k, hk⟩),
      List.mem_map_of_mem hr⟩

/-- A showdown spares the folded seats exactly when they have no card left. -/
theorem ShowdownOpening.hides_iff {assignments : List (RevealAssignment G)}
    (h : ShowdownOpening u assignments) :
    (∀ a ∈ assignments, ∀ i, a.Concerns i → (u.seat i).isFolded = false) ↔ u.MucksGone := by
  constructor
  · intro hhides k hk
    refine List.eq_nil_iff_forall_not_mem.mpr fun r hr => ?_
    have ha := h.mem_iff.mpr ⟨k, participates_of_isFolded hk, r, hr, rfl⟩
    have hnot := hhides _ ha k (concerns_showdownAssignment.mpr rfl)
    rw [seat_val, hk] at hnot
    cases hnot
  · intro hgone a ha i hi
    obtain ⟨k, -, r, hr, rfl⟩ := h.mem_iff.mp ha
    obtain rfl := concerns_showdownAssignment.mp hi
    rw [seat_val]
    by_contra hfolded
    have hnil := hgone k (by simpa using hfolded)
    rw [hnil] at hr
    cases hr

/-! ## Steps -/

theorem Concerns.of_without {gone : SeatMask} {a : RevealAssignment G} {i : ℕ}
    (h : (a.without gone).Concerns i) : a.Concerns i := by
  rcases h with ⟨slot, hslot⟩ | hpending
  · exact .inl ⟨slot, hslot⟩
  · obtain ⟨hlt, hmem⟩ := seatMaskContains_iff.mp hpending
    rw [RevealAssignment.without, Mask.mem_and_not, Bool.and_eq_true] at hmem
    exact .inr (seatMaskContains_iff.mpr ⟨hlt, hmem.1⟩)

theorem seat_isFolded_of {i : ℕ}
    (h : ∀ k : Fin maxSeats, (t'.seats k).isFolded = true → (t.seats k).isFolded = true)
    (hi : (t.seat i).isFolded = false) : (t'.seat i).isFolded = false := by
  unfold seat at hi ⊢
  split
  · rename_i hlt
    rw [dif_pos hlt] at hi
    by_contra hfolded
    rw [h _ (by simpa using hfolded)] at hi
    cases hi
  · rfl

/-- Every plain step keeps the mucks hidden, unless it opens a showdown that shows some. -/
theorem RevealStep.hidesMucks (h : RevealStep t t') (hs : t.HidesMucks)
    (hquiet : OpensShowdown t t' → t.MucksGone) : t'.HidesMucks := by
  cases h with
  | closed hnone => exact .of_closed (by simp [inShowdownReveal, hnone])
  | @kept gone reveal hr hr' hopen _ hfold =>
    intro ht' a' ha' i hi
    rw [inShowdownReveal, hr', Bool.and_eq_true] at ht'
    have ht : t.inShowdownReveal = true := by
      rw [inShowdownReveal, hr, hopen ht'.1]
      exact ht'.2
    rw [revealAssignments_of_some hr'] at ha'
    obtain ⟨a, ha, rfl⟩ := List.mem_map.mp ha'
    rw [← revealAssignments_of_some hr] at ha
    exact seat_isFolded_of hfold (hs ht a ha i (Concerns.of_without hi))
  | @opened u street reveal hidle hl hf ho _ hp hseats =>
    refine .of_revealing hp fun hpurpose => ?_
    have hbegins : OpensShowdown t t' := by
      refine ⟨by rw [inShowdownReveal, hidle]; rfl, inShowdownReveal_iff.mpr ?_⟩
      obtain ⟨purpose, assignments⟩ := reveal
      obtain rfl : purpose = .showdownOwner := hpurpose
      exact ⟨street, assignments, 0, hp⟩
    have hgone : u.MucksGone := fun k hk => by
      rw [← hl hpurpose]
      exact hquiet hbegins k ((hf k) ▸ hk)
    have hseat (i : ℕ) : t'.seat i = u.seat i := by rw [seat, seat, hseats]
    cases ho with
    | hole => cases hpurpose
    | board _ => cases hpurpose
    | showdown ho =>
      intro a ha i hi
      rw [hseat]
      exact ho.hides_iff.mpr hgone a ha i hi

end TexasPokerTable

namespace Exec

open TexasPokerTable

variable {i : ℕ} {tokens : List G} {l : List (RevealAssignment G)}

/-- A submission only takes a seat off the ones an assignment waits for. -/
theorem mem_withTokens {a' : RevealAssignment G} (h : a' ∈ withTokens i l tokens) :
    ∃ a ∈ l, a'.target = a.target ∧ ∀ j, a'.Concerns j → a.Concerns j := by
  induction l generalizing tokens with
  | nil =>
    simp only [withTokens, List.not_mem_nil] at h
  | cons b l ih =>
    cases tokens with
    | nil =>
      rw [withTokens_nil] at h
      exact ⟨a', h, rfl, fun _ hj => hj⟩
    | cons token tokens =>
      rw [withTokens] at h
      split at h <;> rcases List.mem_cons.mp h with rfl | h
      · refine ⟨b, List.mem_cons_self, rfl, fun j hj => ?_⟩
        rcases hj with ⟨slot, hslot⟩ | hpending
        · exact .inl ⟨slot, hslot⟩
        · obtain ⟨hlt, hmem⟩ := seatMaskContains_iff.mp hpending
          rw [RevealAssignment.withToken, seatMaskRemove] at hmem
          split at hmem
          · rw [Mask.mem_erase, Bool.and_eq_true] at hmem
            exact .inr (seatMaskContains_iff.mpr ⟨hlt, hmem.1⟩)
          · exact .inr (seatMaskContains_iff.mpr ⟨hlt, hmem⟩)
      · obtain ⟨a, ha, htarget, hconcerns⟩ := ih h
        exact ⟨a, List.mem_cons_of_mem _ ha, htarget, hconcerns⟩
      · exact ⟨a', List.mem_cons_self, rfl, fun _ hj => hj⟩
      · obtain ⟨a, ha, htarget, hconcerns⟩ := ih h
        exact ⟨a, List.mem_cons_of_mem _ ha, htarget, hconcerns⟩

variable {s s' : Exec G}

theorem isFolded_of_writesCards {t t' : TexasPokerTable G} (h : t.WritesCards t') (k : ℕ) :
    (t'.seat k).isFolded = (t.seat k).isFolded := by
  unfold seat
  split
  · rw [← Seat.isFolded_withoutHand, h.seats, Seat.isFolded_withoutHand]
  · rfl

/-! ## Tokens -/

theorem pushShowdownCard_seat {entry : ℕ × ℕ × ℕ × Card} {k : ℕ}
    (h : pushShowdownCard s entry = .ok s') (hk : k ≠ entry.1) :
    s'.table.seat k = s.table.seat k := by
  simp only [pushShowdownCard, Fallible.bind_eq_ok, Fallible.ensure_eq_ok] at h
  obtain ⟨_, -, _, -, p, -, hand, -, ledger, -, h⟩ := h
  have hseat : (s.table.setSeat entry.1 (.playing { p with hand })).seat k = s.table.seat k := by
    unfold seat
    split
    · rename_i hlt
      have hne : (⟨k, hlt⟩ : Fin maxSeats).1 ≠ entry.1 := hk
      exact seats_setSeat_of_ne hne _
    · rfl
  split at h <;> cases h <;> exact hseat

section

variable [AddCommGroup G] [Protocol G] [DecidableEq G]

/-- The cards of a showdown go to the owners that its assignments name. -/
theorem materializeShowdown_seat {done : List (RevealAssignment G)} {k : ℕ}
    (h : s.materializeShowdown done = .ok s') (hk : ∀ a ∈ done, ∀ slot, a.target ≠ .hole k slot) :
    s'.table.seat k = s.table.seat k := by
  simp only [materializeShowdown, Fallible.bind_eq_ok] at h
  obtain ⟨seen, -, ⟨_, cards⟩, hcards, h⟩ := h
  have hscan : ∀ a ∈ done, ∀ acc acc' : List ℕ × List (ℕ × ℕ × ℕ × Card),
      s.table.scanShowdownCard acc a = .ok acc' → (∀ e ∈ acc.2, k ≠ e.1) →
        ∀ e ∈ acc'.2, k ≠ e.1 := by
    intro a ha acc acc' hstep hacc e he
    unfold scanShowdownCard at hstep
    split at hstep
    · cases hstep
    · rename_i owner slot htarget
      simp only [Fallible.bind_eq_ok] at hstep
      obtain ⟨_, -, _, -, _, -, _, -, _, -, hstep⟩ := hstep
      cases hstep
      rcases List.mem_append.mp he with he | he
      · exact hacc e he
      · rw [List.mem_singleton.mp he]
        rintro rfl
        exact hk a ha slot htarget
  have howners : ∀ e ∈ cards, k ≠ e.1 :=
    Fallible.foldlM_keeps (P := fun acc => ∀ e ∈ acc.2, k ≠ e.1) hscan hcards
      fun e he => absurd he List.not_mem_nil
  exact Fallible.foldlM_keeps (P := fun u : Exec G => u.table.seat k = s.table.seat k)
    (fun e he u u' hu hs => (pushShowdownCard_seat hu (howners e he)).trans hs) h rfl

/-- A submission stays in its reveal, with the folds as they were. -/
theorem GivesTokens.sameFolds (h : GivesTokens s s' i tokens) :
    (∃ street purpose assignments assignments' d,
      s.table.handPhase = .revealing street ⟨purpose, assignments⟩ d ∧
        s'.table.handPhase = .revealing street ⟨purpose, assignments'⟩ d) ∧
      ∀ k, (s'.table.seat k).isFolded = (s.table.seat k).isFolded := by
  cases h with
  | @waits street d reveal hp _ _ ht _ =>
    obtain ⟨purpose, assignments⟩ := reveal
    rw [ht]
    exact ⟨⟨street, purpose, assignments, _, d, hp, rfl⟩, fun _ => rfl⟩
  | @writes street d reveal m w hp _ hm _ hw ht _ =>
    obtain ⟨purpose, assignments⟩ := reveal
    refine ⟨⟨street, purpose, assignments, _, d, hp, by rw [ht]; rfl⟩, fun k => ?_⟩
    have hcards := isFolded_of_writesCards hw.writesCards.1 k
    rw [hm] at hcards
    rw [ht]
    exact hcards

/-- Tokens keep the mucks hidden. -/
theorem GivesTokens.hidesMucks (h : GivesTokens s s' i tokens) (hs : s.table.HidesMucks) :
    s'.table.HidesMucks := by
  obtain ⟨⟨street, purpose, assignments, assignments', d, hp, hp'⟩, hfold⟩ := h.sameFolds
  refine .of_revealing hp' fun hpurpose a' ha' j hj => ?_
  obtain rfl : purpose = .showdownOwner := hpurpose
  have ha' : a' ∈ s'.table.revealAssignments := revealAssignments_of_revealing hp' ▸ ha'
  rw [h.revealAssignments] at ha'
  obtain ⟨a, ha, -, hconcerns⟩ := mem_withTokens (List.mem_of_mem_filter ha')
  rw [hfold]
  exact hs (inShowdownReveal_iff.mpr ⟨street, assignments, d, hp⟩) a ha j (hconcerns j hj)

/-- No card of a showdown that hides the mucks goes to a folded seat. -/
theorem GivesTokens.folded_seat (h : GivesTokens s s' i tokens) (hs : s.table.HidesMucks)
    (hopen : s.table.inShowdownReveal = true) {k : ℕ} (hk : (s.table.seat k).isFolded = true) :
    s'.table.seat k = s.table.seat k := by
  obtain ⟨street, assignments, d, hp⟩ := inShowdownReveal_iff.mp hopen
  cases h with
  | waits _ _ _ ht _ =>
    rw [ht]
    rfl
  | @writes street' d' reveal m w hp' _ hm _ hw ht _ =>
    rw [hp] at hp'
    cases hp'
    have hnot : ∀ a ∈ completed (recorded i tokens ⟨.showdownOwner, assignments⟩), ∀ slot,
        a.target ≠ .hole k slot := by
      intro a' ha' slot htarget
      obtain ⟨a, ha, hsame, -⟩ := mem_withTokens (List.mem_of_mem_filter ha')
      rw [← revealAssignments_of_revealing hp] at ha
      have hlive := hs hopen a ha k (.inl ⟨slot, hsame ▸ htarget⟩)
      rw [hk] at hlive
      cases hlive
    have hw : w.table.seat k = m.table.seat k := by
      cases hw with
      | hole hpurpose _ => cases hpurpose
      | board hpurpose _ _ => cases hpurpose
      | showdown _ h => exact materializeShowdown_seat h hnot
    have hs' : s'.table.seat k = w.table.seat k := by
      rw [ht]
      rfl
    rw [hs', hw, hm]
    rfl

/-- Nothing that a seat submits to such a showdown touches a folded seat. -/
theorem applySubmitPlayerRevealTokens_folded_seat {proofs : List (Protocol.RevealTokenProof G)}
    (h : s.applySubmitPlayerRevealTokens i tokens proofs = .ok s') (hs : s.table.HidesMucks)
    (hopen : s.table.inShowdownReveal = true) {k : ℕ} (hk : (s.table.seat k).isFolded = true) :
    s'.table.seat k = s.table.seat k := by
  obtain ⟨m, hm, h⟩ := applySubmitPlayerRevealTokens_eq_ok h
  obtain ⟨street, assignments, d, hp⟩ := inShowdownReveal_iff.mp hopen
  obtain ⟨⟨_, _, _, assignments', _, hp', hpm⟩, -⟩ := hm.sameFolds
  rw [hp] at hp'
  cases hp'
  have hreveal : m.table.revealTokenState = some ⟨.showdownOwner, assignments'⟩ := by
    rw [revealTokenState, hpm]
  rw [checkRevealPhaseComplete, hreveal] at h
  simp only [Fallible.orErr_some, Fallible.ok_bind] at h
  rw [← hm.folded_seat hs hopen hk]
  split at h <;> cases h <;> rfl

end

/-! ## Openings -/

theorem startShowdownRevealPhase_hides_iff {u : Exec G} (h : u.startShowdownRevealPhase = .ok s') :
    s'.table.HidesMucks ↔ u.table.MucksGone := by
  obtain ⟨assignments, ho, ht, -⟩ := startShowdownRevealPhase_eq_ok h
  have ho : ShowdownOpening u.table assignments := ho
  have hp : s'.table.handPhase = .revealing roundShowdown ⟨.showdownOwner, assignments⟩ 0 := by
    rw [ht]
    rfl
  have hseat (i : ℕ) : s'.table.seat i = u.table.seat i := by
    rw [ht]
    rfl
  rw [← ho.hides_iff]
  constructor
  · intro hs a ha i hi
    rw [← hseat]
    exact hs (inShowdownReveal_iff.mpr ⟨_, _, _, hp⟩) a
      (revealAssignments_of_revealing hp ▸ ha) i hi
  · intro hs
    refine .of_revealing hp fun _ a ha i hi => ?_
    rw [hseat]
    exact hs a ha i hi

theorem not_opensShowdown_of_phase {t t' : TexasPokerTable G} (h : t'.handPhase = t.handPhase) :
    ¬ OpensShowdown t t' := by
  rintro ⟨hclosed, hopen⟩
  rw [inShowdownReveal_iff, h, ← inShowdownReveal_iff, hclosed] at hopen
  cases hopen

/-- A showdown that follows a reconstruction spares the folded seats exactly when their cards are
gone. -/
theorem restartRevealAfterReconstruct_hides_iff (h : s.restartRevealAfterReconstruct = .ok s')
    (hopens : OpensShowdown s.table s'.table) : s'.table.HidesMucks ↔ s.table.MucksGone := by
  cases restartRevealAfterReconstruct_eq_ok h with
  | hole _ ho =>
    have ht := (startPreflopRevealPhase_eq_ok ho).1
    obtain ⟨_, _, _, hopen⟩ := inShowdownReveal_iff.mp hopens.2
    rw [ht] at hopen
    cases hopen
  | board _ _ _ ho =>
    obtain ⟨-, -, ht, -⟩ := startCommunityRevealPhase_eq_ok ho
    obtain ⟨_, _, _, hopen⟩ := inShowdownReveal_iff.mp hopens.2
    rw [ht] at hopen
    cases hopen
  | showdown _ ho => exact startShowdownRevealPhase_hides_iff ho
  | idle h =>
    rw [h] at hopens
    exact absurd hopens (not_opensShowdown_of_phase rfl)

variable [AddCommGroup G] [Protocol G] [DecidableEq G]

/-- So does one that a closed round opens. -/
theorem advanceRound_hides_iff (h : s.advanceRound = .ok s')
    (hopens : OpensShowdown s.table s'.table) : s'.table.HidesMucks ↔ s.table.MucksGone := by
  rcases advanceRound_eq_ok h with ⟨-, h⟩ | ⟨-, m, hm, h⟩
  · have hopen := inShowdownReveal_iff.mp hopens.2
    rw [(endWithoutShowdown_loses h).2.phase] at hopen
    obtain ⟨_, _, _, hp⟩ := hopen
    cases hp
  obtain ⟨hp, hs, hd⟩ := maybeTriggerRunItTwice_same hm
  rcases h with ⟨-, rfl⟩ | h
  · exact absurd hopens (not_opensShowdown_of_phase hp)
  cases h with
  | board _ ho ht _ =>
    obtain ⟨-, -, htable, -⟩ := startCommunityRevealPhase_eq_ok ho
    obtain ⟨_, _, _, hopen⟩ := inShowdownReveal_iff.mp hopens.2
    rw [ht, htable] at hopen
    cases hopen
  | showdown _ ho ht _ =>
    rw [ht, startShowdownRevealPhase_hides_iff ho, MucksGone, MucksGone, hs, hd]

/-! ## Runs -/

/-- A step that opens no showdown while a folded seat has cards left. -/
def QuietStep (s s' : Exec G) : Prop :=
  Step s s' ∧ (OpensShowdown s.table s'.table → s.table.MucksGone)

theorem QuietStep.hidesMucks (h : QuietStep s s') (hs : s.table.HidesMucks) :
    s'.table.HidesMucks := by
  obtain ⟨hstep, hquiet⟩ := h
  cases hstep with
  | plain h => exact h.revealStep.hidesMucks hs hquiet
  | tokens h => exact h.hidesMucks hs

theorem hidesMucks_of_quiet (h : Relation.ReflTransGen QuietStep s s')
    (hs : s.table.HidesMucks) : s'.table.HidesMucks := by
  induction h with
  | refl => exact hs
  | tail _ h ih => exact h.hidesMucks ih

end Exec

section Runs

variable [AddCommGroup G] [Protocol G] [DecidableEq G]

/-- What a call does to the table does not depend on the events so far. -/
theorem Exec.call_events {t : TexasPokerTable G} {d e : List TexasPokerEvent} {c : Call}
    {s : Exec G} (h : Exec.call ⟨t, d⟩ c = .ok s) :
    ∃ s', Exec.call ⟨t, e⟩ c = .ok s' ∧ s'.table = s.table := by
  obtain ⟨r, hr, -⟩ := Exec.call_dispatches h
  refine ⟨⟨s.table, e ++ r.output.events⟩, ?_, rfl⟩
  unfold Exec.call
  rw [hr]
  rfl

/-- A call that runs by such steps. -/
def Call.Quiet (c : Call) (s : Exec G) : Prop :=
  ∀ s', s.call c = .ok s' →
    ∃ n : Exec G, n.table = s'.table ∧ Relation.ReflTransGen Exec.QuietStep ⟨s.table, []⟩ n

/-- Such calls, from any reachable table outside a showdown. -/
def quietSession (G : Type) [AddCommGroup G] [Protocol G] [DecidableEq G] :
    TransitionSystem (Exec G) Call where
  init s := (session G).Reachable s ∧ s.table.inShowdownReveal = false
  next s c s' := c.Quiet s ∧ s.call c = .ok s'

theorem hidesMucks_isInvariant : (quietSession G).IsInvariant fun s => s.table.HidesMucks where
  init _ hs := .of_closed hs.2
  next := by
    rintro s c s' - hs ⟨hquiet, hcall⟩
    obtain ⟨n, hn, hsteps⟩ := hquiet s' hcall
    rw [← hn]
    exact Exec.hidesMucks_of_quiet hsteps hs

/-- A showdown spares the folded seats exactly when none of their cards is left; where no call
opens another, no folded seat is waited for, and no token writes its cards. -/
theorem mucksHidden :
    (∀ s s' : Exec G, s.advanceRound = .ok s' ∨ s.restartRevealAfterReconstruct = .ok s' →
      TexasPokerTable.OpensShowdown s.table s'.table →
        (s'.table.HidesMucks ↔ s.table.MucksGone)) ∧
    ∀ s, (quietSession G).Reachable s → s.table.HidesMucks ∧
      (s.table.inShowdownReveal = true → ∀ k, (s.table.seat k).isFolded = true →
        seatMaskContains (Exec.revealPendingMask s.table) k = false ∧
        ∀ i tokens proofs s', s.applySubmitPlayerRevealTokens i tokens proofs = .ok s' →
          s'.table.seat k = s.table.seat k) := by
  refine ⟨fun s s' h hopens => ?_, fun s hs => ?_⟩
  · exact h.elim (fun h => Exec.advanceRound_hides_iff h hopens)
      fun h => Exec.restartRevealAfterReconstruct_hides_iff h hopens
  · have hhides := hidesMucks_isInvariant.of_reachable hs
    exact ⟨hhides, fun hopen k hk => ⟨hhides.not_pending hopen hk, fun i tokens proofs s' h =>
      Exec.applySubmitPlayerRevealTokens_folded_seat h hhides hopen hk⟩⟩

end Runs

namespace Transparent

/-- Seat 0 folded before the flop; the others went all in and are to open their cards. -/
@[irreducible] def muckedShowdown : TexasPokerTable ℤ :=
  played (.new 4 50 100) [.join 1 1000 2, .join 2 1000 3, .join 3 1000 5, .start, .shuffle 0,
    .shuffle 1, .shuffle 2, .reveal 0, .reveal 1, .reveal 2, .act .fold 0 [],
    .act .raise 1 (leBytes 8 1000), .act .call 2 [], .reveal 0, .reveal 1, .reveal 2, .reveal 0,
    .reveal 1, .reveal 2, .reveal 0, .reveal 1, .reveal 2]

/-- The showdown waits for the cards of the folded seat. -/
theorem not_hidesMucks : ¬ ∀ t : TexasPokerTable ℤ, t.Reachable → t.HidesMucks := by
  obtain ⟨hopen, hfolded, a, ha, hpending⟩ : muckedShowdown.inShowdownReveal = true ∧
      (muckedShowdown.seat 0).isFolded = true ∧
      ∃ a ∈ muckedShowdown.revealAssignments, seatMaskContains a.pendingMask 0 = true := by
    unfold muckedShowdown
    decide +kernel
  intro hall
  have hr : muckedShowdown.Reachable := by
    unfold muckedShowdown
    exact played_reachable (by decide) _
  have hlive := hall _ hr hopen a ha 0 (.inr hpending)
  rw [hfolded] at hlive
  cases hlive

/-- Two players are on the river, and one check is left. -/
@[irreducible] def riverCheck : TexasPokerTable ℤ :=
  played (.new 4 50 100) [.join 1 1000 2, .join 2 1000 3, .start, .shuffle 0, .shuffle 1,
    .reveal 0, .reveal 1, .act .call 1 [], .act .check 0 [], .reveal 0, .reveal 1,
    .act .check 0 [], .act .check 1 [], .reveal 0, .reveal 1, .act .check 0 [], .act .check 1 [],
    .reveal 0, .reveal 1, .act .check 0 []]

theorem quietStep_of_unfolded {s s' : Exec ℤ} (h : Exec.Step s s')
    (hf : ∀ k, (s.table.seats k).isFolded = false) : Exec.QuietStep s s' :=
  ⟨h, fun _ k hk => by rw [hf k] at hk; cases hk⟩

/-- The last check. -/
def lastCheck : Call := (ClientStep.act .check 1 []).call riverCheck

/-- What the last check runs, up to the clocks and counters. -/
def lastCheckRun : PokerL1Result (Exec ℤ × Exec ℤ × Exec ℤ × Exec ℤ) := do
  let m ← Exec.matchBet ⟨riverCheck, []⟩ 1
  let n ← m.setCurrentTurn none
  let c ← n.collectBetsToPot
  return (m, n, ← c.advanceRound, ← Exec.call ⟨riverCheck, []⟩ lastCheck)

theorem lastCheckRun_facts : riverCheck.inShowdownReveal = false ∧ riverCheck.currentTurn = 1 ∧
    (∀ k, (riverCheck.seats k).isFolded = false) ∧
    Fallible.holds lastCheckRun (fun (m, n, a, s) =>
      m.table.isBettingComplete = true ∧ n.table.bettingRound.isSome = true ∧
        n.table.currentTurn = noSeat ∧
        (∀ k, (m.table.seats k).isFolded = false) ∧ (∀ k, (n.table.seats k).isFolded = false) ∧
        (∀ k, (a.table.seats k).isFolded = false) ∧
        s.table.handPhase.undated = a.table.handPhase.undated ∧
        s.table = { a.table with
          handPhase := s.table.handPhase, callSeq := s.table.callSeq, handId := s.table.handId } ∧
        s.table.inShowdownReveal = true ∧ s.table.revealAssignments.length = 4) = true := by
  unfold lastCheckRun lastCheck riverCheck
  decide +kernel

/-- The last check opens the showdown by quiet steps. -/
theorem lastCheck_quiet : lastCheck.Quiet ⟨riverCheck, []⟩ ∧
    ∃ s, Exec.call ⟨riverCheck, []⟩ lastCheck = .ok s ∧ s.table.inShowdownReveal = true ∧
      s.table.revealAssignments.length = 4 := by
  obtain ⟨-, hturn, hfold, hrun⟩ := lastCheckRun_facts
  obtain ⟨⟨m, n, a, s⟩, hrun, hp⟩ := Fallible.holds_iff.mp hrun
  obtain ⟨hcomplete, hopen, hnone, hm, hn, ha, hphase, hrest, hshow, hlen⟩ := of_decide_eq_true hp
  simp only [lastCheckRun, Fallible.bind_eq_ok] at hrun
  obtain ⟨m', hmatch, n', hnext, c, hcollect, a', hadvance, s', hcall, hrun⟩ := hrun
  cases hrun
  refine ⟨fun s' hs' => ⟨a.withTable s.table, ?_, ?_⟩, s, hcall, hshow, hlen⟩
  · rw [hcall] at hs'
    cases hs'
    rfl
  have hfirst : Exec.Step ⟨riverCheck, []⟩ m :=
    .plain (.move (.play (.matchBet hturn (by unfold riverCheck; decide +kernel) hmatch)))
  have hclosed : Exec.Step m n := .plain (.move (.play (.turn (fun _ => .inl hcomplete) hnext)))
  have hshown : Exec.Step n a :=
    .plain (.move (.play (.closeRound hopen (.inr hnone) hcollect hadvance)))
  have hclock : Exec.Step a (a.withTable { a.table with handPhase := s.table.handPhase }) :=
    .plain (.move (.play (.clock (.of_phase hphase))))
  have hcount : Exec.Step (a.withTable { a.table with handPhase := s.table.handPhase })
      (a.withTable s.table) := .plain (.count ⟨hrest⟩)
  exact .head (quietStep_of_unfolded hfirst hfold) (.head (quietStep_of_unfolded hclosed hm)
    (.head (quietStep_of_unfolded hshown hn) (.head (quietStep_of_unfolded hclock ha)
      (.single (quietStep_of_unfolded hcount ha)))))

/-- Two players who never folded open all their cards. -/
theorem mucksHidden_riverCheck : ∃ s : Exec ℤ, s.table.inShowdownReveal = true ∧
    s.table.revealAssignments.length = 4 ∧ s.table.HidesMucks := by
  obtain ⟨hquiet, s, hcall, hshow, hlen⟩ := lastCheck_quiet
  have hr : riverCheck.Reachable := by
    unfold riverCheck
    exact played_reachable (by decide) _
  obtain ⟨events, hr⟩ := hr
  obtain ⟨u, hu, htable⟩ := Exec.call_events (e := events) hcall
  have hquiet : lastCheck.Quiet ⟨riverCheck, events⟩ := fun v hv => by
    obtain ⟨w, hw, hsame⟩ := Exec.call_events (e := []) hv
    rw [← hsame]
    exact hquiet w hw
  have hu : (quietSession ℤ).Reachable u :=
    .next lastCheck (.init ⟨hr, lastCheckRun_facts.1⟩) ⟨hquiet, hu⟩
  rw [← htable] at hshow hlen
  exact ⟨u, hshow, hlen, (mucksHidden.2 u hu).1⟩

end Transparent

end TexasPoker
