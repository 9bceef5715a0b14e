import TexasPoker.Core.Basic
import TexasPoker.Lib.Mask

/-! # Seat masks

Sets of seats as 16-bit masks, bit `i` denoting seat `i`.
-/

namespace TexasPoker

/-- A set of seats. -/
abbrev SeatMask := BitVec 16

def seatMaskBit (seat : ℕ) : SeatMask := Mask.single 16 seat

def seatMaskContains (mask : SeatMask) (seat : ℕ) : Bool := seat < maxSeats && Mask.mem mask seat

def seatMaskInsert (mask : SeatMask) (seat : ℕ) : PokerL1Result SeatMask :=
  if seat < maxSeats then .ok (Mask.insert mask seat)
  else .error (.serialization s!"Texas seat index {seat} exceeds mask capacity {maxSeats}")

def seatMaskRemove (mask : SeatMask) (seat : ℕ) : SeatMask :=
  if seat < maxSeats then Mask.erase mask seat else mask

def seatMaskCount (mask : SeatMask) : ℕ := Mask.size mask

def seatMaskFirst (mask : SeatMask) : Option ℕ := Mask.first mask

/-- The members below `max`, ascending. -/
def seatMaskToIndices (mask : SeatMask) (max : ℕ) : List ℕ :=
  (List.range max).filter fun seat => seatMaskContains mask seat

/-- Only seats below `max` are members. -/
def seatMaskIsCanonical (mask : SeatMask) (max : ℕ) : Bool :=
  max ≤ maxSeats && (max = maxSeats || mask.toNat < 2 ^ max)

theorem seatMaskContains_iff {mask : SeatMask} {seat : ℕ} :
    seatMaskContains mask seat = true ↔ seat < maxSeats ∧ Mask.mem mask seat = true := by
  simp [seatMaskContains]

@[simp] theorem seatMaskContains_zero {seat : ℕ} : seatMaskContains 0 seat = false := by
  simp [seatMaskContains]

theorem seatMaskToIndices_zero {n : ℕ} : seatMaskToIndices 0 n = [] :=
  List.filter_eq_nil_iff.mpr fun j _ => by rw [seatMaskContains_zero]; decide

theorem seatMaskIsCanonical_zero {max : ℕ} (h : max ≤ maxSeats) :
    seatMaskIsCanonical 0 max = true := by
  simp only [seatMaskIsCanonical, h, decide_true, Bool.true_and, Bool.or_eq_true,
    decide_eq_true_eq]
  exact .inr (Nat.two_pow_pos max)

theorem seatMaskIsCanonical_remove {mask : SeatMask} {seat max : ℕ}
    (h : seatMaskIsCanonical mask max = true) :
    seatMaskIsCanonical (seatMaskRemove mask seat) max = true := by
  unfold seatMaskRemove
  split
  · simp only [seatMaskIsCanonical, Bool.and_eq_true, Bool.or_eq_true, decide_eq_true_eq] at h ⊢
    have hle : (Mask.erase mask seat).toNat ≤ mask.toNat := by
      rw [Mask.erase, BitVec.toNat_and]
      exact Nat.and_le_left
    exact ⟨h.1, h.2.imp_right hle.trans_lt⟩
  · exact h

@[simp] theorem mem_seatMaskRemove {mask : SeatMask} {seat i : ℕ} (h : seat < maxSeats) :
    Mask.mem (seatMaskRemove mask seat) i = (Mask.mem mask i && decide (i ≠ seat)) := by
  rw [seatMaskRemove, if_pos h, Mask.mem_erase]

end TexasPoker
