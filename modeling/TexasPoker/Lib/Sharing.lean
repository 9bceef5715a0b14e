import Mathlib.Algebra.BigOperators.Ring.Finset
import Mathlib.Algebra.Order.BigOperators.Group.Finset

/-! # Shares of what others own

Owners with numbers below `n` have up to `m` things each. Some of them give one share in everything
that others own. While everything misses the share of somebody who is not its owner, there are at
most `m * ((n - 1) * (n - 2))` shares.
-/

namespace TexasPoker

variable {n m : ℕ} {things : Finset (ℕ × ℕ)} {givers : Finset ℕ}

theorem sum_card_erase (h : givers ⊆ Finset.range n) :
    ∑ owner ∈ Finset.range n, (givers.erase owner).card + givers.card = n * givers.card := by
  have hown : ∑ owner ∈ Finset.range n, (if owner ∈ givers then 1 else 0) = givers.card := by
    rw [← Finset.card_filter, Finset.filter_mem_eq_inter, Finset.inter_eq_right.mpr h]
  have hadd (owner : ℕ) :
      (givers.erase owner).card + (if owner ∈ givers then 1 else 0) = givers.card := by
    split
    · rename_i hmem
      exact Finset.card_erase_add_one hmem
    · rename_i hmem
      rw [Finset.erase_eq_of_notMem hmem, Nat.add_zero]
  calc ∑ owner ∈ Finset.range n, (givers.erase owner).card + givers.card
      = ∑ owner ∈ Finset.range n,
          ((givers.erase owner).card + if owner ∈ givers then 1 else 0) := by
        rw [Finset.sum_add_distrib, hown]
    _ = n * givers.card := by
        rw [Finset.sum_const_nat fun owner _ => hadd owner, Finset.card_range]

/-- Everything of the owners in a set. -/
theorem sum_things (f : ℕ → ℕ) (owners : Finset ℕ) :
    ∑ x ∈ owners ×ˢ Finset.range m, f x.1 = m * ∑ owner ∈ owners, f owner := by
  rw [Finset.sum_product, Finset.mul_sum]
  refine Finset.sum_congr rfl fun owner _ => ?_
  have hconst : ∀ slot ∈ Finset.range m, f (owner, slot).1 = f owner := fun _ _ => rfl
  rw [Finset.sum_const_nat hconst, Finset.card_range]

theorem sum_shares_of_missing (hthings : things ⊆ Finset.range n ×ˢ Finset.range m)
    (hgivers : givers ⊆ Finset.range n)
    (hmiss : ∀ x ∈ things, ∃ p < n, p ∉ givers ∧ p ≠ x.1) :
    ∑ x ∈ things, (givers.erase x.1).card ≤ m * ((n - 1) * (n - 2)) := by
  have hcard : givers.card ≤ n := by simpa using Finset.card_le_card hgivers
  by_cases hfew : givers.card ≤ n - 2
  · have hsum := sum_card_erase hgivers
    calc ∑ x ∈ things, (givers.erase x.1).card
        ≤ ∑ x ∈ Finset.range n ×ˢ Finset.range m, (givers.erase x.1).card :=
          Finset.sum_le_sum_of_subset hthings
      _ = m * ∑ owner ∈ Finset.range n, (givers.erase owner).card :=
        sum_things (fun owner => (givers.erase owner).card) _
      _ ≤ m * ((n - 1) * (n - 2)) := by
        refine Nat.mul_le_mul_left _ ?_
        have hle : (n - 1) * givers.card ≤ (n - 1) * (n - 2) := Nat.mul_le_mul_left _ hfew
        rw [Nat.sub_mul, Nat.one_mul] at hle
        omega
  · -- only one number is left that gives no share, and it owns nothing
    have howner : ∀ x ∈ things, x.1 ∈ givers := by
      intro x hx
      obtain ⟨p, hp, hmem, hne⟩ := hmiss x hx
      have hrange := (Finset.mem_product.mp (hthings hx)).1
      by_contra howner
      have hsub : insert p (insert x.1 givers) ⊆ Finset.range n := by
        intro i hi
        rcases Finset.mem_insert.mp hi with rfl | hi
        · exact Finset.mem_range.mpr hp
        · rcases Finset.mem_insert.mp hi with rfl | hi
          · exact hrange
          · exact hgivers hi
      have hle := Finset.card_le_card hsub
      rw [Finset.card_range, Finset.card_insert_of_notMem, Finset.card_insert_of_notMem howner]
        at hle
      · omega
      · simpa [hne] using hmem
    rcases things.eq_empty_or_nonempty with rfl | ⟨x, hx⟩
    · simp
    obtain ⟨p, hp, hmem, hne⟩ := hmiss x hx
    have hless : givers.card < n := by
      refine lt_of_lt_of_eq (Finset.card_lt_card ?_) (Finset.card_range n)
      exact ⟨hgivers, fun hsub => hmem (hsub (Finset.mem_range.mpr hp))⟩
    have hexact : givers.card = n - 1 := by omega
    calc ∑ x ∈ things, (givers.erase x.1).card
        ≤ ∑ x ∈ givers ×ˢ Finset.range m, (givers.erase x.1).card := by
          refine Finset.sum_le_sum_of_subset fun x hx => ?_
          exact Finset.mem_product.mpr
            ⟨howner x hx, (Finset.mem_product.mp (hthings hx)).2⟩
      _ = m * ∑ owner ∈ givers, (givers.erase owner).card :=
        sum_things (fun owner => (givers.erase owner).card) _
      _ = m * ((n - 1) * (n - 2)) := by
        rw [Finset.sum_const_nat fun owner hmem => Finset.card_erase_of_mem hmem, hexact,
          Nat.sub_sub]

end TexasPoker
