import Mathlib.Algebra.BigOperators.Group.Finset.Basic
import Mathlib.Algebra.Order.BigOperators.Group.List
import Mathlib.Algebra.Order.Ring.Nat
import TexasPoker.Invariants.Tokens
import TexasPoker.Lib.Sharing

/-! # Records fit

A seat gives all the tokens it owes at once, and complete cards leave the reveal. So the tokens of
a deal are at most seven for each of sixteen cards, and every phase fits into its record.
-/

namespace TexasPoker

variable {G : Type}

/-- Owner and slot of a hole card, board and position of a board card. -/
def RevealTarget.place : RevealTarget → ℕ × ℕ
  | .hole seatIndex cardSlot => (seatIndex, cardSlot)
  | .board runoutIndex boardPosition => (runoutIndex, boardPosition)

/-- The seats of a mask. -/
def seatMaskSet (m : SeatMask) : Finset ℕ :=
  (Finset.range maxSeats).filter fun i => seatMaskContains m i = true

theorem mem_seatMaskSet {m : SeatMask} {i : ℕ} :
    i ∈ seatMaskSet m ↔ seatMaskContains m i = true := by
  rw [seatMaskSet, Finset.mem_filter, Finset.mem_range]
  exact and_iff_right_of_imp fun h => (seatMaskContains_iff.mp h).1

/-- An assignment of a reveal: its tokens are those of the seats that gave them, none of which
owes another; nobody opens a hole card before the showdown for its owner. -/
structure RevealAssignment.Sound (purpose : RevealPurpose) (a : RevealAssignment G) : Prop where
  fits : RevealTokenState.targetMatches purpose a.target = true
  seat : ∀ i k, a.target = .hole i k → i < maxSeats
  pending : ∀ i, Mask.mem a.pendingMask i = true → i < maxSeats
  apart : ∀ i, seatMaskContains a.pendingMask i = true → seatMaskContains a.submittedMask i = false
  tokens : a.revealTokens.length = (seatMaskSet a.submittedMask).card
  own : purpose = .dealHole → seatMaskContains a.pendingMask a.target.place.1 = false ∧
    seatMaskContains a.submittedMask a.target.place.1 = false
  owner : purpose = .showdownOwner → a.submittedMask = 0 ∧ ∀ i j,
    Mask.mem a.pendingMask i = true → Mask.mem a.pendingMask j = true → i = j

/-- A reveal whose seats give all their tokens at once. -/
structure RevealTokenState.Paced (reveal : RevealTokenState G) : Prop where
  sound : ∀ a ∈ reveal.assignments, a.Sound reveal.purpose
  distinct : (reveal.assignments.map RevealAssignment.target).Nodup
  level : reveal.purpose = .dealHole → ∀ a ∈ reveal.assignments, ∀ b ∈ reveal.assignments, ∀ i,
    seatMaskContains a.submittedMask i = true → seatMaskContains b.pendingMask i = false
  size : (reveal.assignments.map (RevealAssignment.encodedLen 32)).sum ≤ 3800

namespace RevealTokenState

variable {reveal : RevealTokenState G} {purpose : RevealPurpose} {l : List (RevealAssignment G)}

/-! ## Sizes -/

theorem sum_encodedLen : (l.map (RevealAssignment.encodedLen 32)).sum =
    12 * l.length + 32 * (l.map fun a => a.revealTokens.length).sum := by
  induction l with
  | nil => rfl
  | cons a l ih =>
    simp only [List.map_cons, List.sum_cons, List.length_cons, ih, RevealAssignment.encodedLen]
    omega

/-- Distinct targets of one kind have distinct places. -/
theorem nodup_places (hsound : ∀ a ∈ l, a.Sound purpose)
    (hdistinct : (l.map RevealAssignment.target).Nodup) :
    (l.map fun a => a.target.place).Nodup := by
  rw [List.nodup_map_iff_inj_on hdistinct.of_map]
  intro a ha b hb hplace
  refine List.inj_on_of_nodup_map hdistinct ha hb ?_
  have hfa := (hsound a ha).fits
  have hfb := (hsound b hb).fits
  cases hta : a.target <;> cases htb : b.target <;>
    rw [hta, htb] at hplace <;> rw [hta] at hfa <;> rw [htb] at hfb <;>
    simp only [targetMatches, RevealTarget.place, Prod.mk.injEq, Bool.and_eq_true, Bool.or_eq_true,
      decide_eq_true_eq] at hfa hfb hplace
  · rw [hplace.1, hplace.2]
  · rcases hfa.1 with h | h <;> rw [h] at hfb <;> cases hfb.1.1
  · rcases hfb.1 with h | h <;> rw [h] at hfa <;> cases hfa.1.1
  · rw [hplace.1, hplace.2]

theorem length_le {n m : ℕ} (hnodup : (l.map fun a => a.target.place).Nodup)
    (hplaces : ∀ a ∈ l, a.target.place ∈ Finset.range n ×ˢ Finset.range m) :
    l.length ≤ n * m := by
  have hcard := List.toFinset_card_of_nodup hnodup
  rw [List.length_map] at hcard
  rw [← hcard, ← Finset.card_range n, ← Finset.card_range m, ← Finset.card_product]
  refine Finset.card_le_card fun x hx => ?_
  obtain ⟨a, ha, rfl⟩ := List.mem_map.mp (List.mem_toFinset.mp hx)
  exact hplaces a ha

/-- The tokens of a deal whose cards all miss one. -/
theorem sum_tokens_le (hsound : ∀ a ∈ l, a.Sound .dealHole)
    (hnodup : (l.map fun a => a.target.place).Nodup)
    (hplaces : ∀ a ∈ l, a.target.place ∈ Finset.range maxSeats ×ˢ Finset.range 2)
    (hlevel : ∀ a ∈ l, ∀ b ∈ l, ∀ i,
      seatMaskContains a.submittedMask i = true → seatMaskContains b.pendingMask i = false)
    (hopen : ∀ a ∈ l, a.pendingMask ≠ 0) :
    (l.map fun a => a.revealTokens.length).sum ≤ 112 := by
  let givers := (Finset.range maxSeats).filter fun i =>
    l.any (fun a => seatMaskContains a.submittedMask i) = true
  have hgivers {a : RevealAssignment G} (ha : a ∈ l) :
      a.revealTokens.length ≤ (givers.erase a.target.place.1).card := by
    rw [(hsound a ha).tokens]
    refine Finset.card_le_card fun i hi => ?_
    have hi := mem_seatMaskSet.mp hi
    refine Finset.mem_erase.mpr ⟨?_, Finset.mem_filter.mpr
      ⟨Finset.mem_range.mpr (seatMaskContains_iff.mp hi).1, List.any_eq_true.mpr ⟨a, ha, hi⟩⟩⟩
    rintro rfl
    rw [((hsound a ha).own rfl).2] at hi
    cases hi
  have hmiss : ∀ x ∈ (l.map fun a => a.target.place).toFinset,
      ∃ p < maxSeats, p ∉ givers ∧ p ≠ x.1 := by
    intro x hx
    obtain ⟨a, ha, rfl⟩ := List.mem_map.mp (List.mem_toFinset.mp hx)
    obtain ⟨p, hp⟩ := Mask.ne_zero_iff.mp (hopen a ha)
    have hlt := (hsound a ha).pending p hp
    have hpending := seatMaskContains_iff.mpr ⟨hlt, hp⟩
    refine ⟨p, hlt, fun hmem => ?_, ?_⟩
    · obtain ⟨b, hb, hgave⟩ := List.any_eq_true.mp (Finset.mem_filter.mp hmem).2
      rw [hlevel b hb a ha p hgave] at hpending
      cases hpending
    · rintro rfl
      rw [((hsound a ha).own rfl).1] at hpending
      cases hpending
  calc (l.map fun a => a.revealTokens.length).sum
      ≤ (l.map fun a => (givers.erase a.target.place.1).card).sum :=
        List.sum_le_sum fun _ ha => hgivers ha
    _ = ∑ x ∈ (l.map fun a => a.target.place).toFinset, (givers.erase x.1).card := by
        rw [List.sum_toFinset _ hnodup, List.map_map]
        rfl
    _ ≤ 2 * ((maxSeats - 1) * (maxSeats - 2)) := by
        refine sum_shares_of_missing (fun x hx => ?_) (Finset.filter_subset _ _) hmiss
        obtain ⟨a, ha, rfl⟩ := List.mem_map.mp (List.mem_toFinset.mp hx)
        exact hplaces a ha
    _ = 112 := rfl

theorem place_of_hole (hsound : ∀ a ∈ l, a.Sound purpose) (hne : purpose ≠ .board) :
    ∀ a ∈ l, a.target.place ∈ Finset.range maxSeats ×ˢ Finset.range 2 := by
  intro a ha
  have hfits := (hsound a ha).fits
  cases htarget : a.target with
  | hole i k =>
    rw [htarget] at hfits
    simp only [targetMatches, Bool.and_eq_true, decide_eq_true_eq] at hfits
    exact Finset.mem_product.mpr ⟨Finset.mem_range.mpr ((hsound a ha).seat i k htarget),
      Finset.mem_range.mpr hfits.2⟩
  | board r p =>
    rw [htarget] at hfits
    simp [targetMatches, hne] at hfits

theorem place_of_board (hsound : ∀ a ∈ l, a.Sound .board) :
    ∀ a ∈ l, a.target.place ∈ Finset.range 2 ×ˢ Finset.range 5 := by
  intro a ha
  have hfits := (hsound a ha).fits
  cases htarget : a.target with
  | hole i k =>
    rw [htarget] at hfits
    simp [targetMatches] at hfits
  | board r p =>
    rw [htarget] at hfits
    simp only [targetMatches, Bool.and_eq_true, decide_eq_true_eq] at hfits
    exact Finset.mem_product.mpr ⟨Finset.mem_range.mpr hfits.1.2, Finset.mem_range.mpr hfits.2⟩

/-- Two hole cards for each seat, or two boards. -/
theorem length_of_sound (hsound : ∀ a ∈ l, a.Sound purpose)
    (hdistinct : (l.map RevealAssignment.target).Nodup) :
    l.length ≤ if purpose = .board then 10 else 18 := by
  have hnodup := nodup_places hsound hdistinct
  split
  · rename_i hboard
    subst hboard
    exact length_le hnodup (place_of_board hsound)
  · rename_i hne
    exact length_le hnodup (place_of_hole hsound hne)

/-- The assignments of a reveal that all miss a token. -/
theorem size_of_open (hsound : ∀ a ∈ l, a.Sound purpose)
    (hdistinct : (l.map RevealAssignment.target).Nodup)
    (hlevel : purpose = .dealHole → ∀ a ∈ l, ∀ b ∈ l, ∀ i,
      seatMaskContains a.submittedMask i = true → seatMaskContains b.pendingMask i = false)
    (hopen : ∀ a ∈ l, a.pendingMask ≠ 0) :
    (l.map (RevealAssignment.encodedLen 32)).sum ≤ 3800 := by
  have hlen := length_of_sound hsound hdistinct
  rw [sum_encodedLen]
  cases purpose with
  | dealHole =>
    have hsum := sum_tokens_le hsound (nodup_places hsound hdistinct)
      (place_of_hole hsound RevealPurpose.noConfusion) (hlevel rfl) hopen
    rw [if_neg RevealPurpose.noConfusion] at hlen
    omega
  | board =>
    have hsum : (l.map fun a => a.revealTokens.length).sum ≤ (l.map fun _ => 9).sum := by
      refine List.sum_le_sum fun a ha => ?_
      rw [(hsound a ha).tokens]
      exact (Finset.card_filter_le _ _).trans (Finset.card_range _).le
    rw [List.map_const', List.sum_replicate, smul_eq_mul] at hsum
    rw [if_pos rfl] at hlen
    omega
  | showdownOwner =>
    have hsum : (l.map fun a => a.revealTokens.length).sum = 0 := by
      refine List.sum_eq_zero fun x hx => ?_
      obtain ⟨a, ha, rfl⟩ := List.mem_map.mp hx
      rw [(hsound a ha).tokens, ((hsound a ha).owner rfl).1]
      rfl
    rw [if_neg RevealPurpose.noConfusion] at hlen
    omega

end RevealTokenState

/-! ## Openings -/

namespace TexasPokerTable

open RevealTokenState

variable {t t' : TexasPokerTable G} {reveal : RevealTokenState G} {street : ℕ}

theorem fits_of_validates {purpose : RevealPurpose} {i : ℕ} {prior : Option (ℕ × ℕ × ℕ)}
    {seen : List ℕ} {l : List (RevealAssignment G)}
    (h : validateAssignments purpose i prior seen l = .ok ()) :
    ∀ a ∈ l, targetMatches purpose a.target = true := by
  induction l generalizing i prior seen with
  | nil => simp
  | cons a l ih =>
    simp only [validateAssignments, Fallible.bind_eq_ok, Fallible.ensure_eq_ok] at h
    obtain ⟨_, hfits, _, -, _, -, h⟩ := h
    intro b hb
    rcases List.mem_cons.mp hb with rfl | hb
    · exact hfits
    · exact ih h b hb

theorem lt_of_mem_getActiveSeatIndices {i : ℕ} (h : i ∈ t.getActiveSeatIndices) : i < maxSeats := by
  obtain ⟨k, -, rfl⟩ := List.mem_map.mp h
  exact k.isLt

theorem lt_of_mem_getActiveSeatMask {i : ℕ} (h : Mask.mem t.getActiveSeatMask i = true) :
    i < maxSeats := by
  obtain ⟨k, -, rfl⟩ := mem_maskOf_iff.mp h
  exact k.isLt

/-- A new assignment is sound when its seats are. -/
theorem sound_of_new {purpose : RevealPurpose} {a : RevealAssignment G}
    (hfits : targetMatches purpose a.target = true)
    (hnew : a.submittedMask = 0 ∧ a.revealTokens = [])
    (hseat : ∀ i k, a.target = .hole i k → i < maxSeats)
    (hpending : ∀ i, Mask.mem a.pendingMask i = true → i < maxSeats)
    (hown : purpose = .dealHole → Mask.mem a.pendingMask a.target.place.1 = false)
    (howner : purpose = .showdownOwner → ∀ i j,
      Mask.mem a.pendingMask i = true → Mask.mem a.pendingMask j = true → i = j) :
    a.Sound purpose where
  fits := hfits
  seat := hseat
  pending := hpending
  apart i _ := by rw [hnew.1, seatMaskContains_zero]
  tokens := by
    rw [hnew.1, hnew.2]
    rfl
  own hp := ⟨by rw [seatMaskContains, hown hp, Bool.and_false],
    by rw [hnew.1, seatMaskContains_zero]⟩
  owner hp := ⟨hnew.1, howner hp⟩

theorem Opening.sound (h : Opening t street reveal)
    (hv : reveal.validateForStreet street = .ok ()) :
    ∀ a ∈ reveal.assignments, a.Sound reveal.purpose := by
  have hnew := h.unopened
  rw [validateForStreet, Fallible.bind_eq_ok] at hv
  obtain ⟨_, -, hv⟩ := hv
  have hfits := fits_of_validates hv
  cases h with
  | hole =>
    intro a ha
    have hfa := hfits a ha
    have hna := hnew a ha
    obtain ⟨⟨seat, k⟩, hseat, ha⟩ := List.mem_flatMap.mp ha
    have hseat := lt_of_mem_getActiveSeatIndices (List.fst_mem_of_mem_zipIdx hseat)
    obtain ⟨slot, -, rfl⟩ := List.mem_map.mp ha
    refine sound_of_new hfa hna ?_ (fun i hi => ?_) (fun _ => ?_) fun hp => ?_
    · rintro _ _ ⟨⟩
      exact hseat
    · exact lt_of_mem_getActiveSeatMask (Bool.and_eq_true_iff.mp (Mask.mem_erase ▸ hi)).1
    · simp [RevealTarget.place]
    · cases hp
  | board _ =>
    intro a ha
    have hfa := hfits a ha
    have hna := hnew a ha
    obtain ⟨_, -, ha⟩ := List.mem_flatMap.mp ha
    obtain ⟨_, -, rfl⟩ := List.mem_map.mp ha
    refine sound_of_new hfa hna ?_ (fun i hi => lt_of_mem_getActiveSeatMask hi) (fun hp => ?_)
      fun hp => ?_
    · rintro _ _ ⟨⟩
    · cases hp
    · cases hp
  | showdown hopen =>
    have hstep : ∀ seat ∈ t.getActiveSeatIndices, ∀ acc acc' : List (RevealAssignment G),
        (do return acc ++ (← t.showdownAssignments seat)) = (.ok acc' : PokerL1Result _) →
        (∀ a ∈ acc, ∃ i k, i < maxSeats ∧ a.target = .hole i k ∧ a.pendingMask = seatMaskBit i) →
        ∀ a ∈ acc', ∃ i k, i < maxSeats ∧ a.target = .hole i k ∧
          a.pendingMask = seatMaskBit i := by
      intro seat hseat acc acc' h hacc a ha
      obtain ⟨new, hnew, h⟩ := Fallible.bind_eq_ok.mp h
      cases h
      rw [showdownAssignments, Fallible.bind_eq_ok] at hnew
      obtain ⟨_, -, hnew⟩ := hnew
      cases hnew
      rcases List.mem_append.mp ha with ha | ha
      · exact hacc a ha
      · obtain ⟨⟨k, card⟩, -, rfl⟩ := List.mem_map.mp ha
        exact ⟨seat, k, lt_of_mem_getActiveSeatIndices hseat, rfl, rfl⟩
    have howned := Fallible.foldlM_keeps hstep hopen (by simp)
    intro a ha
    obtain ⟨i, k, hi, htarget, hpending⟩ := howned a ha
    have hmem (j : ℕ) (hj : Mask.mem a.pendingMask j = true) : j = i := by
      rw [hpending, seatMaskBit, Mask.mem_single] at hj
      exact (of_decide_eq_true hj).2
    refine sound_of_new (hfits a ha) (hnew a ha) (fun i' k' htarget' => ?_)
      (fun j hj => hmem j hj ▸ hi) (fun hp => ?_) fun _ j j' hj hj' => (hmem j hj).trans (hmem j' hj').symm
    · rw [htarget] at htarget'
      cases htarget'
      exact hi
    · cases hp

theorem Opening.paced (h : Opening t street reveal)
    (hv : reveal.validateForStreet street = .ok ()) : reveal.Paced where
  sound := h.sound hv
  distinct := nodup_targets hv
  level _ a ha b _ i hi := by
    rw [(h.unopened a ha).1, seatMaskContains_zero] at hi
    cases hi
  size := by
    have hlen := length_of_sound (h.sound hv) (nodup_targets hv)
    have hsum : (reveal.assignments.map fun a => a.revealTokens.length).sum = 0 := by
      refine List.sum_eq_zero fun x hx => ?_
      obtain ⟨a, ha, rfl⟩ := List.mem_map.mp hx
      rw [(h.unopened a ha).2]
      rfl
    rw [sum_encodedLen]
    split at hlen <;> omega

end TexasPokerTable

/-! ## Steps -/

namespace RevealAssignment

variable {purpose : RevealPurpose} {a : RevealAssignment G} {i : ℕ}

/-- An assignment keeps what it has when fewer seats owe a token. -/
theorem Sound.of_pending {pendingMask : SeatMask} (h : a.Sound purpose)
    (hsub : ∀ i, Mask.mem pendingMask i = true → Mask.mem a.pendingMask i = true) :
    { a with pendingMask }.Sound purpose := by
  have hcontains {i : ℕ} (hi : seatMaskContains pendingMask i = true) :
      seatMaskContains a.pendingMask i = true :=
    seatMaskContains_iff.mpr ((seatMaskContains_iff.mp hi).imp_right (hsub i))
  exact {
    h with
    pending := fun i hi => h.pending i (hsub i hi)
    apart := fun i hi => h.apart i (hcontains hi)
    own := fun hp => (h.own hp).imp_left fun hown => Bool.eq_false_iff.mpr fun hi =>
      Bool.eq_false_iff.mp hown (hcontains hi)
    owner := fun hp => (h.owner hp).imp_right fun ho i j hi hj => ho i j (hsub i hi) (hsub j hj) }

theorem pendingMask_without {gone : SeatMask} (h : Mask.mem (a.without gone).pendingMask i = true) :
    Mask.mem a.pendingMask i = true :=
  (Bool.and_eq_true_iff.mp (Mask.mem_and_not.symm.trans h)).1

theorem pendingMask_withToken {token : G} {j : ℕ} (hi : i < maxSeats) :
    Mask.mem (a.withToken i token).pendingMask j = (Mask.mem a.pendingMask j && decide (j ≠ i)) :=
  mem_seatMaskRemove hi

theorem submittedMask_withToken {token : G} {j : ℕ} (hi : i < maxSeats) :
    seatMaskContains (a.withToken i token).submittedMask j =
      (seatMaskContains a.submittedMask j || decide (j = i)) := by
  have hi16 : i < 16 := hi.trans (by decide)
  rw [seatMaskContains, withToken, Mask.mem_insert hi16, Bool.and_or_distrib_left]
  by_cases hji : j = i
  · simp [hji, hi]
  · simp [hji, seatMaskContains]

/-- A token that leaves the assignment open. -/
theorem Sound.withToken {token : G} (h : a.Sound purpose)
    (howes : seatMaskContains a.pendingMask i = true)
    (hopen : (a.withToken i token).pendingMask ≠ 0) : (a.withToken i token).Sound purpose := by
  obtain ⟨hi, hmem⟩ := seatMaskContains_iff.mp howes
  have hsub : ∀ j, Mask.mem (a.withToken i token).pendingMask j = true →
      Mask.mem a.pendingMask j = true := fun j hj => by
    rw [pendingMask_withToken hi, Bool.and_eq_true] at hj
    exact hj.1
  have hpending := h.of_pending hsub
  refine {
    hpending with
    apart := fun j hj => ?_
    tokens := ?_
    own := fun hp => ⟨(hpending.own hp).1, ?_⟩
    owner := fun hp => ?_ }
  · obtain ⟨hj9, hj⟩ := seatMaskContains_iff.mp hj
    rw [pendingMask_withToken hi, Bool.and_eq_true, decide_eq_true_eq] at hj
    rw [submittedMask_withToken hi, h.apart j (seatMaskContains_iff.mpr ⟨hj9, hj.1⟩),
      decide_eq_false hj.2, Bool.or_false]
  · have hset : seatMaskSet (a.withToken i token).submittedMask =
        insert i (seatMaskSet a.submittedMask) := by
      ext j
      rw [mem_seatMaskSet, submittedMask_withToken hi, Finset.mem_insert, mem_seatMaskSet,
        Bool.or_eq_true, decide_eq_true_eq, or_comm]
    have hfresh : i ∉ seatMaskSet a.submittedMask := by
      rw [mem_seatMaskSet, h.apart i howes]
      exact Bool.false_ne_true
    rw [hset, Finset.card_insert_of_notMem hfresh, ← h.tokens]
    exact List.length_append
  · have hown := h.own hp
    change seatMaskContains (a.withToken i token).submittedMask a.target.place.1 = false
    rw [submittedMask_withToken hi, hown.2, Bool.false_or, decide_eq_false_iff_not]
    rintro rfl
    rw [howes] at hown
    cases hown.1
  · -- the only owner has given the token, so the assignment is complete
    obtain ⟨j, hj⟩ := Mask.ne_zero_iff.mp hopen
    rw [pendingMask_withToken hi, Bool.and_eq_true, decide_eq_true_eq] at hj
    exact absurd ((h.owner hp).2 j i hj.1 hmem) hj.2

end RevealAssignment

namespace RevealTokenState

open RevealAssignment

variable {reveal : RevealTokenState G} {i : ℕ} {tokens : List G}

/-- Seats that go leave the tokens as they are. -/
theorem Paced.without {gone : SeatMask} (h : reveal.Paced) : (reveal.without gone).Paced where
  sound := by
    intro b hb
    obtain ⟨a, ha, rfl⟩ := List.mem_map.mp hb
    exact (h.sound a ha).of_pending fun i hi => pendingMask_without hi
  distinct := by
    rw [RevealTokenState.without, withAssignments, List.map_map]
    exact h.distinct
  level hp := by
    intro x hx y hy i hi
    obtain ⟨a, ha, rfl⟩ := List.mem_map.mp hx
    obtain ⟨b, hb, rfl⟩ := List.mem_map.mp hy
    refine Bool.eq_false_iff.mpr fun hmem => Bool.eq_false_iff.mp (h.level hp a ha b hb i hi) ?_
    exact seatMaskContains_iff.mpr ((seatMaskContains_iff.mp hmem).imp_right pendingMask_without)
  size := by
    have hsame : (reveal.without gone).assignments.map (RevealAssignment.encodedLen 32) =
        reveal.assignments.map (RevealAssignment.encodedLen 32) := by
      rw [RevealTokenState.without, withAssignments, List.map_map]
      rfl
    rw [hsame]
    exact h.size

/-- The tokens of a seat, and the assignments they complete gone. -/
theorem Paced.given (h : reveal.Paced)
    (hlen : (Exec.owed i reveal.assignments).length = tokens.length) :
    (reveal.withAssignments ((Exec.withTokens i reveal.assignments tokens).filter
      fun a => a.pendingMask ≠ 0)).Paced := by
  have htakes : ∀ b ∈ (Exec.withTokens i reveal.assignments tokens).filter
      (fun a => a.pendingMask ≠ 0), b.pendingMask ≠ 0 ∧ ∃ a ∈ reveal.assignments,
        Exec.Takes i (Exec.owed i reveal.assignments) tokens a b := by
    intro b hb
    obtain ⟨hb, hopen⟩ := List.mem_filter.mp hb
    exact ⟨of_decide_eq_true hopen, Exec.exists_takes h.distinct hlen hb⟩
  have hsound : ∀ b ∈ (Exec.withTokens i reveal.assignments tokens).filter
      (fun a => a.pendingMask ≠ 0), b.Sound reveal.purpose := by
    intro b hb
    obtain ⟨hopen, a, ha, hab⟩ := htakes b hb
    cases howes : seatMaskContains a.pendingMask i with
    | false =>
      obtain ⟨rfl, -⟩ := hab.passed howes
      exact h.sound _ ha
    | true =>
      obtain ⟨token, rfl, -⟩ := hab.given howes
      exact (h.sound a ha).withToken howes hopen
  have hdistinct : (((Exec.withTokens i reveal.assignments tokens).filter
      fun a => a.pendingMask ≠ 0).map RevealAssignment.target).Nodup := by
    refine List.Sublist.nodup (List.filter_sublist.map _) ?_
    rw [Exec.map_target_withTokens]
    exact h.distinct
  have hlevel : reveal.purpose = .dealHole →
      ∀ x ∈ (Exec.withTokens i reveal.assignments tokens).filter (fun a => a.pendingMask ≠ 0),
      ∀ y ∈ (Exec.withTokens i reveal.assignments tokens).filter (fun a => a.pendingMask ≠ 0),
      ∀ j, seatMaskContains x.submittedMask j = true →
        seatMaskContains y.pendingMask j = false := by
    intro hp x hx y hy j hj
    obtain ⟨-, a, ha, hax⟩ := htakes x hx
    obtain ⟨-, b, hb, hby⟩ := htakes y hy
    have hgave : seatMaskContains a.submittedMask j = true ∨ j = i := by
      cases howes : seatMaskContains a.pendingMask i with
      | false =>
        obtain ⟨rfl, -⟩ := hax.passed howes
        exact .inl hj
      | true =>
        obtain ⟨token, rfl, -⟩ := hax.given howes
        rw [submittedMask_withToken (seatMaskContains_iff.mp howes).1, Bool.or_eq_true,
          decide_eq_true_eq] at hj
        exact hj
    cases howes : seatMaskContains b.pendingMask i with
    | false =>
      obtain ⟨rfl, -⟩ := hby.passed howes
      rcases hgave with hgave | rfl
      · exact h.level hp a ha y hb j hgave
      · exact howes
    | true =>
      obtain ⟨token, rfl, -⟩ := hby.given howes
      have hi := (seatMaskContains_iff.mp howes).1
      rw [seatMaskContains, pendingMask_withToken hi]
      rcases hgave with hgave | rfl
      · have hlevel := h.level hp a ha b hb j hgave
        rw [seatMaskContains] at hlevel
        rw [← Bool.and_assoc, hlevel, Bool.false_and]
      · simp
  exact {
    sound := hsound
    distinct := hdistinct
    level := hlevel
    size := size_of_open hsound hdistinct hlevel fun b hb => (htakes b hb).1 }

end RevealTokenState

namespace TexasPokerTable

variable {t t' : TexasPokerTable G}

/-- The reveal of a table, open or suspended, is paced. -/
def Paced (t : TexasPokerTable G) : Prop := ∀ reveal, t.revealTokenState = some reveal → reveal.Paced

theorem RevealStep.paced (h : RevealStep t t') (ht : t.Paced) : t'.Paced := by
  intro reveal hreveal
  cases h with
  | closed hc =>
    rw [hc] at hreveal
    cases hreveal
  | kept hr hr' _ _ _ =>
    rw [hr'] at hreveal
    cases hreveal
    exact (ht _ hr).without
  | opened _ _ _ ho hv hp _ =>
    rw [revealTokenState, hp] at hreveal
    cases hreveal
    exact ho.paced hv

theorem recordFits_of_le {payloadLen bound width : ℕ} (h : payloadLen ≤ bound)
    (hw : recordFits bound width = true) : recordFits payloadLen width = true := by
  simp only [TexasPoker.recordFits, decide_eq_true_eq] at hw ⊢
  omega

/-- The reveal takes at most 3805 of the 4096 bytes of a hand phase. -/
theorem Paced.recordsFit (h : t.Paced) : t.recordsFit 32 = true := by
  have hsize {reveal : RevealTokenState G} (hr : t.revealTokenState = some reveal) :
      reveal.encodedLen 32 ≤ 3805 := by
    have := (h reveal hr).size
    unfold RevealTokenState.encodedLen
    omega
  have hwidth : recordFits 3830 handPhaseRecordWidth = true := by decide
  rw [TexasPokerTable.recordsFit, Bool.and_eq_true, List.all_eq_true]
  refine ⟨fun i _ => Bool.or_eq_true_iff.mpr (.inr (Seat.recordFits_payloadLen _)), ?_⟩
  refine recordFits_of_le ?_ hwidth
  cases hp : t.handPhase with
  | waiting => exact Nat.zero_le _
  | shuffling phase =>
    cases phase with
    | initial state d => exact Nat.le_of_ble_eq_true rfl
    | reconstruct street state reveal d =>
      have := @hsize reveal (by rw [revealTokenState, hp])
      simp only [HandPhase.payloadLen]
      omega
  | revealing street reveal d =>
    have := hsize (by rw [revealTokenState, hp])
    simp only [HandPhase.payloadLen]
    omega
  | reconstructing street state reveal epochMs d =>
    have := hsize (by rw [revealTokenState, hp])
    simp only [HandPhase.payloadLen]
    omega
  | betting street round turn d => exact Nat.le_of_ble_eq_true rfl
  | showdownDisplay d => exact Nat.le_of_ble_eq_true rfl

end TexasPokerTable

namespace Exec

variable [AddCommGroup G] [Protocol G] [DecidableEq G] {s s' : Exec G} {i : ℕ} {tokens : List G}

theorem GivesTokens.paced (h : GivesTokens s s' i tokens) (hs : s.table.Paced) :
    s'.table.Paced := by
  have hlen := h.length
  intro reveal' hreveal
  cases h with
  | @waits street d reveal hp _ hnil ht _ =>
    have hr : s.table.revealTokenState = some reveal := by
      rw [TexasPokerTable.revealTokenState, hp]
    rw [TexasPokerTable.revealAssignments_of_revealing hp] at hlen
    have hgiven := (hs reveal hr).given hlen
    have hall : (withTokens i reveal.assignments tokens).filter (fun a => a.pendingMask ≠ 0) =
        withTokens i reveal.assignments tokens := by
      refine List.filter_eq_self.mpr fun a ha => ?_
      exact decide_eq_true fun h0 => List.filter_eq_nil_iff.mp hnil a ha (decide_eq_true h0)
    rw [hall] at hgiven
    rw [ht] at hreveal
    cases hreveal
    exact hgiven
  | @writes street d reveal m w hp _ _ _ _ ht _ =>
    have hr : s.table.revealTokenState = some reveal := by
      rw [TexasPokerTable.revealTokenState, hp]
    rw [TexasPokerTable.revealAssignments_of_revealing hp] at hlen
    rw [ht] at hreveal
    cases hreveal
    exact (hs reveal hr).given hlen

theorem Steps.paced (h : Steps s s') (hs : s.table.Paced) : s'.table.Paced := by
  induction h with
  | refl => exact hs
  | tail _ h ih =>
    cases h with
    | plain h => exact h.revealStep.paced ih
    | tokens h => exact h.paced ih

/-- The call runs up to the table that it hands to the encoder. -/
def Hands (s : Exec G) (c : Call) (t : TexasPokerTable G) : Prop :=
  ∃ command m n report u, CanonicalCommand.fromSelector G c.selector = some command ∧
    runCommand c.context c.args ⟨s.table, []⟩ command = .ok m ∧
    m.normalizeUntilBlocked c.context.blockTimestamp = .ok (n, report) ∧
    rearmBettingDeadline c.context n.table = .ok u ∧
    advanceCounters s.table u n.events = .ok t

theorem Hands.steps {c : Call} {t : TexasPokerTable G} (h : s.Hands c t) :
    ∃ n : Exec G, n.table = t ∧ Steps ⟨s.table, []⟩ n := by
  obtain ⟨command, m, n, report, u, hc, hm, hn, hu, ht⟩ := h
  exact (calls_of_stages hc hm hn hu ht rfl).steps

/-- Every seat and every hand phase of a run fits into its record, also in the tables that a
call hands to the encoder; points take 32 bytes. -/
theorem records_fit : (session G).IsInvariant fun s => s.table.recordsFit 32 = true ∧
    ∀ c t, s.Hands c t → t.recordsFit 32 = true := by
  have hpaced : (session G).IsInvariant fun s => s.table.Paced := {
    init := by
      rintro _ ⟨id, creator, rules, -, rfl⟩ reveal hr
      cases hr
    next := by
      intro s c s' _ hs hn
      obtain ⟨n, ht, hsteps⟩ := call_steps hn
      exact ht ▸ hsteps.paced hs }
  refine hpaced.imp fun s _ hs => ⟨hs.recordsFit, fun c t hc => ?_⟩
  obtain ⟨n, rfl, hsteps⟩ := hc.steps
  exact (hsteps.paced hs).recordsFit

end Exec

end TexasPoker
