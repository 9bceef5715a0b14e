import TexasPoker.Runtime.Commands
import TexasPoker.Spec.Hand

/-! # Members of a hand

Who sits at the table and who keeps a key layer on the deck. Every move of a hand keeps both,
except that a kick takes its seat out of both.
-/

namespace TexasPoker

variable {G : Type}

/-- Which variant a slot is. -/
inductive SeatKind where
  | vacant
  | waiting
  | playing
  | departed
  deriving DecidableEq, Repr

namespace Seat

def kind : Seat G → SeatKind
  | .vacant _ => .vacant
  | .waiting _ => .waiting
  | .playing _ => .playing
  | .departedThisHand .. => .departed

variable {s s' : Seat G}

theorem participates_eq (s : Seat G) : s.participates = decide (s.kind = .playing) := by
  cases s <;> rfl

theorem isOccupied_eq (s : Seat G) :
    s.isOccupied = decide (s.kind = .waiting ∨ s.kind = .playing) := by
  cases s <;> rfl

theorem hasLeftHand_eq (s : Seat G) : s.hasLeftHand = decide (s.kind = .departed) := by
  cases s <;> rfl

theorem kind_of_withoutHand (h : s'.withoutHand = s.withoutHand) : s'.kind = s.kind := by
  cases s <;> cases s' <;> simp_all [withoutHand, kind]

@[simp] theorem kind_clearBet (s : Seat G) : s.clearBet.kind = s.kind := by
  cases s <;> rfl

@[simp] theorem kind_setStatus (s : Seat G) (status : PlayingSeatStatus) :
    (s.setStatus status).kind = s.kind := by
  cases s <;> rfl

@[simp] theorem kind_setTimeBankMs (s : Seat G) (value : ℕ) :
    (s.setTimeBankMs value).kind = s.kind := by
  cases s <;> rfl

theorem kind_setStack {stack : ℕ} (h : s.setStack stack = .ok s') : s'.kind = s.kind := by
  cases s <;> simp only [setStack] at h <;> try split at h
  all_goals cases h <;> rfl

theorem kind_setPendingAddon {addon : ℕ} (h : s.setPendingAddon addon = .ok s') :
    s'.kind = s.kind := by
  cases s <;> simp only [setPendingAddon] at h <;> try split at h
  all_goals cases h <;> rfl

end Seat

namespace TexasPokerTable

/-- Every slot is of the same kind, and the contributors are the same. -/
structure SameMembers (t t' : TexasPokerTable G) : Prop where
  kinds : ∀ i, (t'.seats i).kind = (t.seats i).kind
  contributors : t'.deckState.contributorMask = t.deckState.contributorMask

variable {t t' t'' : TexasPokerTable G}

theorem SameMembers.refl (t : TexasPokerTable G) : SameMembers t t := ⟨fun _ => rfl, rfl⟩

theorem SameMembers.trans (h : SameMembers t t') (h' : SameMembers t' t'') : SameMembers t t'' :=
  ⟨fun i => (h'.kinds i).trans (h.kinds i), h'.contributors.trans h.contributors⟩

theorem SameMembers.of_seats (hs : t'.seats = t.seats)
    (hc : t'.deckState.contributorMask = t.deckState.contributorMask) : SameMembers t t' :=
  ⟨fun i => by rw [hs], hc⟩

theorem SameMembers.setSeat {i : ℕ} {s : Seat G} (h : s.kind = (t.seat i).kind) :
    SameMembers t (t.setSeat i s) := by
  refine ⟨fun j => ?_, rfl⟩
  by_cases hj : j.1 = i
  · subst hj
    rw [seats_setSeat_self, h, seat_val]
  · rw [seats_setSeat_of_ne hj]

theorem SameMembers.getActiveSeatMask (h : SameMembers t t') :
    t'.getActiveSeatMask = t.getActiveSeatMask := by
  unfold TexasPokerTable.getActiveSeatMask
  simp only [Seat.participates_eq, h.kinds]

/-- The seats kicked between two tables. -/
def kickedMask (t t' : TexasPokerTable G) : SeatMask :=
  maskOf fun i => (t.seats i).isOccupied && (t'.seats i).hasLeftHand

/-- The only members lost are kicked ones. -/
structure OnlyKicks (t t' : TexasPokerTable G) : Prop where
  kinds : ∀ i, (t'.seats i).kind = (t.seats i).kind ∨
    (t.seats i).isOccupied = true ∧ (t'.seats i).kind = .departed
  contributors : t'.deckState.contributorMask =
    t.deckState.contributorMask &&& ~~~t.kickedMask t'

theorem mem_kickedMask {i : Fin maxSeats} : Mask.mem (t.kickedMask t') i = true ↔
    (t.seats i).isOccupied = true ∧ (t'.seats i).hasLeftHand = true := by
  rw [kickedMask, mem_maskOf, Bool.and_eq_true]

theorem lt_of_mem_kickedMask {i : ℕ} (h : Mask.mem (t.kickedMask t') i = true) :
    i < maxSeats := by
  obtain ⟨k, -, rfl⟩ := mem_maskOf_iff.mp h
  exact k.isLt

theorem kickedMask_of_sameKinds (h : ∀ i, (t'.seats i).kind = (t.seats i).kind) :
    t.kickedMask t' = 0 := by
  rw [Mask.eq_zero_iff]
  intro i
  by_contra hm
  rw [Bool.not_eq_false] at hm
  obtain ⟨k, hk, rfl⟩ := mem_maskOf_iff.mp hm
  rw [Bool.and_eq_true, Seat.isOccupied_eq, Seat.hasLeftHand_eq, h] at hk
  simp only [decide_eq_true_eq] at hk
  rcases hk with ⟨h₁ | h₁, h₂⟩ <;> rw [h₂] at h₁ <;> cases h₁

theorem SameMembers.onlyKicks (h : SameMembers t t') : OnlyKicks t t' := by
  refine ⟨fun i => .inl (h.kinds i), ?_⟩
  rw [kickedMask_of_sameKinds h.kinds, h.contributors]
  exact (BitVec.and_allOnes).symm

theorem kickedMask_trans (h : OnlyKicks t t') (h' : OnlyKicks t' t'') :
    t.kickedMask t'' = t.kickedMask t' ||| t'.kickedMask t'' := by
  refine Mask.ext_mem fun i _ => ?_
  rw [Bool.eq_iff_iff, Mask.mem_or, Bool.or_eq_true]
  by_cases hi : i < maxSeats
  · have hk := h.kinds ⟨i, hi⟩
    have hk' := h'.kinds ⟨i, hi⟩
    rw [mem_kickedMask (i := ⟨i, hi⟩), mem_kickedMask (i := ⟨i, hi⟩),
      mem_kickedMask (i := ⟨i, hi⟩)]
    simp only [Seat.isOccupied_eq, Seat.hasLeftHand_eq, decide_eq_true_eq] at hk hk' ⊢
    grind
  · constructor
    · exact fun hm => absurd (lt_of_mem_kickedMask hm) hi
    · exact fun hm => absurd (hm.elim lt_of_mem_kickedMask lt_of_mem_kickedMask) hi

theorem OnlyKicks.trans (h : OnlyKicks t t') (h' : OnlyKicks t' t'') : OnlyKicks t t'' := by
  constructor
  · intro i
    have hk := h.kinds i
    have hk' := h'.kinds i
    simp only [Seat.isOccupied_eq, decide_eq_true_eq] at hk hk' ⊢
    grind
  · rw [h'.contributors, h.contributors, kickedMask_trans h h', BitVec.and_assoc]
    congr 1
    exact (BitVec.not_or).symm

/-- A kick takes its seat out of the members. -/
theorem onlyKicks_kicked {i : Fin maxSeats} (ho : (t.seats i).isOccupied = true) :
    OnlyKicks t (t.kicked i) := by
  have hself : (t.kicked i).seats i = (t.seats i).departed := seats_setSeat_self i _
  have hother {j : Fin maxSeats} (hj : j ≠ i) : (t.kicked i).seats j = t.seats j :=
    seats_setSeat_of_ne (fun he => hj (Fin.ext he)) _
  have hgone : (t.seats i).departed.kind = .departed := by
    cases hs : t.seats i <;> rw [hs] at ho <;> first | rfl | cases ho
  constructor
  · intro j
    by_cases hj : j = i
    · subst hj
      rw [hself]
      exact .inr ⟨ho, hgone⟩
    · rw [hother hj]
      exact .inl rfl
  · have hc : (t.kicked i).deckState.contributorMask =
        seatMaskRemove t.deckState.contributorMask i := rfl
    have hk (j : ℕ) : Mask.mem (t.kickedMask (t.kicked i)) j = decide (j = i.1) := by
      rw [Bool.eq_iff_iff, decide_eq_true_eq]
      constructor
      · intro hm
        obtain ⟨k, hk, rfl⟩ := mem_maskOf_iff.mp hm
        by_contra hne
        rw [hother fun he => hne (congrArg Fin.val he), Bool.and_eq_true, Seat.isOccupied_eq,
          Seat.hasLeftHand_eq] at hk
        simp only [decide_eq_true_eq] at hk
        rcases hk with ⟨h₁ | h₁, h₂⟩ <;> rw [h₂] at h₁ <;> cases h₁
      · rintro rfl
        rw [mem_kickedMask, hself, Seat.hasLeftHand_eq, hgone]
        exact ⟨ho, rfl⟩
    refine Mask.ext_mem fun j _ => ?_
    rw [hc, mem_seatMaskRemove i.isLt, Mask.mem_and_not, hk, decide_not]

end TexasPokerTable

end TexasPoker
