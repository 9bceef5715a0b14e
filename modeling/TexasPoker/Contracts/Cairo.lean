import Mathlib.Data.Fin.Basic
import TexasPoker.Lib.Fallible

/-! # Contracts

The values of a Cairo contract, the context of a call, and the token. A call that panics
reverts: it leaves no trace.
-/

namespace TexasPoker.Contracts

open Fallible

/-- The order of the field of a contract. -/
def feltPrime : ℕ := 2 ^ 251 + 17 * 2 ^ 192 + 1

instance : NeZero feltPrime := ⟨by decide⟩

abbrev Felt := Fin feltPrime

instance addressBound_neZero : NeZero (2 ^ 251) := ⟨by decide⟩

/-- An address; zero is nobody's. -/
abbrev ContractAddress := Fin (2 ^ 251)

/-- The result of a call, or the message it reverts with. -/
abbrev Revert (α : Type) := Except String α

/-- An address as a field element. -/
def addressFelt (a : ContractAddress) : Felt := Fin.ofNat feltPrime a.1

/-- A bounded number as a field element. -/
def natFelt (n : ℕ) : Felt := Fin.ofNat feltPrime n

theorem natFelt_val (n : ℕ) : (natFelt n).1 = n % feltPrime := rfl

/-- The bounds of the machine integers. -/
def u32Bound : ℕ := 2 ^ 32

def u64Bound : ℕ := 2 ^ 64

def u128Bound : ℕ := 2 ^ 128

def u256Bound : ℕ := 2 ^ 256

/-- Addition of 256-bit values. -/
def u256Add (a b : ℕ) : Revert ℕ :=
  if a + b < u256Bound then .ok (a + b) else .error "u256_add Overflow"

/-- Subtraction of 256-bit values. -/
def u256Sub (a b : ℕ) : Revert ℕ :=
  if b ≤ a then .ok (a - b) else .error "u256_sub Overflow"

/-- Addition of 64-bit values. -/
def u64Add (a b : ℕ) : Revert ℕ :=
  if a + b < u64Bound then .ok (a + b) else .error "u64_add Overflow"

@[simp] theorem u256Add_eq_ok {a b c : ℕ} :
    u256Add a b = .ok c ↔ a + b < u256Bound ∧ a + b = c := by
  unfold u256Add
  split <;> simp_all

@[simp] theorem u256Sub_eq_ok {a b c : ℕ} : u256Sub a b = .ok c ↔ b ≤ a ∧ a - b = c := by
  unfold u256Sub
  split <;> simp_all

/-- The context of a call. -/
structure Tx where
  caller : ContractAddress
  blockTimestamp : ℕ
  proofFacts : List Felt
  deriving DecidableEq

/-! ## The token -/

/-- An ERC-20 ledger, which moves exactly the stated amounts. -/
structure Token where
  balances : ContractAddress → ℕ
  allowances : ContractAddress → ContractAddress → ℕ

namespace Token

variable (t : Token)

/-- Move tokens between two accounts. -/
def move (sender recipient : ContractAddress) (amount : ℕ) : Token :=
  let paid := Function.update t.balances sender (t.balances sender - amount)
  { t with balances := Function.update paid recipient (paid recipient + amount) }

def transfer (caller recipient : ContractAddress) (amount : ℕ) : Revert Token := do
  ensure (amount ≤ t.balances caller) "insufficient token balance"
  return t.move caller recipient amount

def transferFrom (spender sender recipient : ContractAddress) (amount : ℕ) : Revert Token := do
  ensure (amount ≤ t.allowances sender spender) "insufficient allowance"
  ensure (amount ≤ t.balances sender) "insufficient balance"
  let allowed := Function.update (t.allowances sender) spender (t.allowances sender spender - amount)
  let allowances := Function.update t.allowances sender allowed
  return ({ t with allowances } : Token).move sender recipient amount

def approve (caller spender : ContractAddress) (amount : ℕ) : Token :=
  let allowed := Function.update (t.allowances caller) spender amount
  { t with allowances := Function.update t.allowances caller allowed }

variable {t} {t' : Token} {caller spender sender recipient account : ContractAddress} {amount : ℕ}

theorem move_balances (h : amount ≤ t.balances sender) :
    (t.move sender recipient amount).balances account + (if account = sender then amount else 0) =
      t.balances account + if account = recipient then amount else 0 := by
  simp only [move]
  by_cases hs : account = sender
  · by_cases hr : account = recipient
    · subst hs hr
      simp only [Function.update_self]
      omega
    · subst hs
      rw [Function.update_of_ne hr, Function.update_self, if_pos rfl, if_neg hr]
      omega
  · by_cases hr : account = recipient
    · subst hr
      rw [Function.update_self, Function.update_of_ne hs, if_neg hs, if_pos rfl]
      omega
    · rw [Function.update_of_ne hr, Function.update_of_ne hs, if_neg hs, if_neg hr]

/-- A transfer moves exactly its amount. -/
theorem transfer_eq_ok (h : t.transfer caller recipient amount = .ok t') :
    amount ≤ t.balances caller ∧ t'.allowances = t.allowances ∧
      ∀ account, t'.balances account + (if account = caller then amount else 0) =
        t.balances account + if account = recipient then amount else 0 := by
  simp only [transfer, bind_eq_ok, ensure_eq_ok, pure_eq_ok] at h
  obtain ⟨-, hb, rfl⟩ := h
  exact ⟨hb, rfl, fun _ => move_balances hb⟩

theorem transferFrom_eq_ok (h : t.transferFrom spender sender recipient amount = .ok t') :
    ∀ account, t'.balances account + (if account = sender then amount else 0) =
      t.balances account + if account = recipient then amount else 0 := by
  simp only [transferFrom, bind_eq_ok, ensure_eq_ok, pure_eq_ok] at h
  obtain ⟨-, -, -, hb, rfl⟩ := h
  intro account
  exact move_balances (t := { t with allowances := _ }) hb

end Token

end TexasPoker.Contracts
