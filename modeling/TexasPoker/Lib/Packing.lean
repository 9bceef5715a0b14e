import Mathlib.Algebra.BigOperators.Group.List.Basic
import Mathlib.Data.List.Forall2
import Mathlib.Tactic.Ring

/-! # Packed words

A number that holds fields of fixed radices, the first field lowest. Packing and unpacking
are inverse on fields below their radices and on numbers below the product of the radices.
-/

namespace TexasPoker.Packing

/-- The number with the given fields. -/
def pack : List ℕ → List ℕ → ℕ
  | r :: rs, v :: vs => v + r * pack rs vs
  | _, _ => 0

/-- The fields of a number. -/
def unpack : List ℕ → ℕ → List ℕ
  | [], _ => []
  | r :: rs, n => n % r :: unpack rs (n / r)

/-- Every field is below its radix. -/
def Fits (rs vs : List ℕ) : Prop := List.Forall₂ (fun r v => v < r) rs vs

variable {r v n : ℕ} {rs vs ws : List ℕ}

@[simp] theorem fits_nil : Fits [] [] := .nil

@[simp] theorem fits_cons : Fits (r :: rs) (v :: vs) ↔ v < r ∧ Fits rs vs := List.forall₂_cons

@[simp] theorem pack_cons : pack (r :: rs) (v :: vs) = v + r * pack rs vs := rfl

@[simp] theorem unpack_cons : unpack (r :: rs) n = n % r :: unpack rs (n / r) := rfl

theorem unpack_pack (h : Fits rs vs) : unpack rs (pack rs vs) = vs := by
  induction h with
  | nil => rfl
  | @cons r v rs vs hv _ ih =>
    have hdiv : (v + r * pack rs vs) / r = pack rs vs := by
      rw [Nat.add_mul_div_left _ _ (Nat.zero_lt_of_lt hv), Nat.div_eq_of_lt hv, zero_add]
    rw [pack_cons, unpack_cons, Nat.add_mul_mod_self_left, Nat.mod_eq_of_lt hv, hdiv, ih]

/-- The fields of a word are determined by it. -/
theorem pack_injective (hv : Fits rs vs) (hw : Fits rs ws) (h : pack rs vs = pack rs ws) :
    vs = ws := by
  rw [← unpack_pack hv, ← unpack_pack hw, h]

theorem pack_lt (h : Fits rs vs) : pack rs vs < rs.prod := by
  induction h with
  | nil => exact Nat.one_pos
  | @cons r v rs vs hv _ ih =>
    rw [pack_cons, List.prod_cons]
    calc v + r * pack rs vs < r + r * pack rs vs := Nat.add_lt_add_right hv _
      _ = r * (pack rs vs + 1) := by ring
      _ ≤ r * rs.prod := Nat.mul_le_mul_left r ih

theorem pack_unpack (h : n < rs.prod) : pack rs (unpack rs n) = n := by
  induction rs generalizing n with
  | nil =>
    rw [List.prod_nil] at h
    exact (Nat.lt_one_iff.mp h).symm
  | cons r rs ih =>
    rw [List.prod_cons] at h
    rw [unpack_cons, pack_cons, ih (Nat.div_lt_of_lt_mul h), Nat.mod_add_div]

theorem fits_unpack (h : ∀ r ∈ rs, 0 < r) : Fits rs (unpack rs n) := by
  induction rs generalizing n with
  | nil => exact .nil
  | cons r rs ih =>
    rw [List.forall_mem_cons] at h
    exact .cons (Nat.mod_lt n h.1) (ih h.2)

end TexasPoker.Packing
