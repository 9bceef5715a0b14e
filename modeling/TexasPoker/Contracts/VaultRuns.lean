import Mathlib.Algebra.BigOperators.Fin
import Mathlib.Algebra.Order.BigOperators.Group.Finset
import TexasPoker.Contracts.PokerVault
import TexasPoker.Lib.Transition

/-! # Runs of the vault

Every entry of the vault as one labelled step, and what a step does to the chips, the
locks and the tokens: it credits, debits or settles one player, or touches the locks alone.
-/

namespace TexasPoker.Contracts

open Fallible

/-- An entry of the vault with its arguments. -/
inductive VaultCall where
  | deposit (amount : ℕ)
  | depositFor (player : ContractAddress) (amount : ℕ)
  | withdraw (amount : ℕ)
  | withdrawTo (player recipient : ContractAddress) (amount : ℕ)
  | burnChips (player : ContractAddress) (amount : ℕ)
  | setAuthorizedHelper (helper : ContractAddress)
  | setUnshieldHelper (helper : ContractAddress)
  | lock (player : ContractAddress) (amount : ℕ)
  | refreshSession (player : ContractAddress)
  | unlockAfterDeadline (player : ContractAddress)
  | setLockTtl (ttl : ℕ)
  | forceUnlock (player : ContractAddress)
  | registerPayoutCommitment (commitment : Felt)
  | settlementFundEscrow (escrow : ContractAddress) (handBinding : Felt) (amount : ℕ)
  | applySettlement (player : ContractAddress) (delta : ℤ)
  | pause
  | unpause
  deriving DecidableEq

namespace Custody

/-- Make a call. -/
def run (c : Custody) (tx : Tx) : VaultCall → Revert Custody
  | .deposit amount => c.deposit tx amount
  | .depositFor player amount => c.depositFor tx player amount
  | .withdraw amount => c.withdraw tx amount
  | .withdrawTo player recipient amount => c.withdrawTo tx player recipient amount
  | .burnChips player amount => c.burnChips tx player amount
  | .setAuthorizedHelper helper => c.setAuthorizedHelper tx helper
  | .setUnshieldHelper helper => c.setUnshieldHelper tx helper
  | .lock player amount => c.lock tx player amount
  | .refreshSession player => c.refreshSession tx player
  | .unlockAfterDeadline player => c.unlockAfterDeadline tx player
  | .setLockTtl ttl => c.setLockTtl tx ttl
  | .forceUnlock player => c.forceUnlock tx player
  | .registerPayoutCommitment commitment => c.registerPayoutCommitment tx commitment
  | .settlementFundEscrow escrow handBinding amount =>
    c.settlementFundEscrow tx escrow handBinding amount
  | .applySettlement player delta => c.applySettlement tx player delta
  | .pause => c.pause tx
  | .unpause => c.unpause tx

/-- Calls by anybody, from a fresh deployment on any token ledger. -/
def system : TransitionSystem Custody (Tx × VaultCall) where
  init c := ∃ address owner tokenAddress settlementContract token,
    c = ⟨address, .constructor address owner tokenAddress settlementContract, token, []⟩
  next c l c' := c.run l.1 l.2 = .ok c'

variable {c c' : Custody} {tx : Tx} {player p : ContractAddress} {amount : ℕ}

/-! ## Chips -/

/-- Sum of all chip balances. -/
def sumChips (c : Custody) : ℕ := ∑ p, c.vault.chipBalances p

/-- The tokens of the vault. -/
def vaultTokens (c : Custody) : ℕ := c.token.balances c.address

/-- One player's chips are credited. -/
structure Credits (c c' : Custody) (player : ContractAddress) (amount : ℕ) : Prop where
  balances : c'.vault.chipBalances =
    Function.update c.vault.chipBalances player (c.vault.chipBalances player + amount)
  total : c'.vault.totalChips = c.vault.totalChips + amount

/-- One player's chips, which the player has, are debited. -/
structure Debits (c c' : Custody) (player : ContractAddress) (amount : ℕ) : Prop where
  enough : amount ≤ c.vault.chipBalances player
  balances : c'.vault.chipBalances =
    Function.update c.vault.chipBalances player (c.vault.chipBalances player - amount)
  total : c'.vault.totalChips + amount = c.vault.totalChips

/-- Neither the chips nor their total change. -/
structure KeepsChips (c c' : Custody) : Prop where
  balances : c'.vault.chipBalances = c.vault.chipBalances
  total : c'.vault.totalChips = c.vault.totalChips

/-- What a call does to chips and locks. -/
inductive Effect (call : VaultCall) (c c' : Custody) : Prop where
  | credits (player : ContractAddress) (amount : ℕ) (chips : Credits c c' player amount)
      (locks : c'.vault.locked = c.vault.locked)
  | spends (player : ContractAddress) (amount : ℕ) (chips : Debits c c' player amount)
      (locks : c'.vault.locked = c.vault.locked)
      (unlocked : c.vault.locked player ≤ c.vault.chipBalances player - amount)
  | settles (player : ContractAddress) (amount : ℕ) (chips : Debits c c' player amount)
      (locks : c'.vault.locked = Function.update c.vault.locked player
        (c.vault.locked player - min (c.vault.locked player) amount))
  | locks (player : ContractAddress) (amount : ℕ) (isLock : call = .lock player amount)
      (chips : KeepsChips c c') (locks : c'.vault.locked =
        Function.update c.vault.locked player (c.vault.locked player + amount))
  | unlocks (player : ContractAddress) (chips : KeepsChips c c')
      (locks : c'.vault.locked = Function.update c.vault.locked player 0)
  | idle (chips : KeepsChips c c') (locks : c'.vault.locked = c.vault.locked)

theorem sumChips_update {f : ContractAddress → ℕ} {balance : ℕ} :
    ∑ p, Function.update f player balance p + f player = ∑ p, f p + balance := by
  have h₁ := Finset.add_sum_erase Finset.univ (Function.update f player balance)
    (Finset.mem_univ player)
  have h₂ := Finset.add_sum_erase Finset.univ f (Finset.mem_univ player)
  have hrest : ∑ p ∈ Finset.univ.erase player, Function.update f player balance p =
      ∑ p ∈ Finset.univ.erase player, f p := by
    refine Finset.sum_congr rfl fun p hp => ?_
    exact Function.update_of_ne (Finset.mem_erase.mp hp).1 _ _
  rw [Function.update_self, hrest] at h₁
  omega

theorem Credits.sumChips (h : Credits c c' player amount) : c'.sumChips = c.sumChips + amount := by
  have hsum : ∑ p, Function.update c.vault.chipBalances player (c.vault.chipBalances player + amount) p +
      c.vault.chipBalances player = ∑ p, c.vault.chipBalances p +
        (c.vault.chipBalances player + amount) := sumChips_update
  unfold Custody.sumChips
  rw [h.balances]
  omega

theorem Debits.sumChips (h : Debits c c' player amount) : c'.sumChips + amount = c.sumChips := by
  have hsum : ∑ p, Function.update c.vault.chipBalances player (c.vault.chipBalances player - amount) p +
      c.vault.chipBalances player = ∑ p, c.vault.chipBalances p +
        (c.vault.chipBalances player - amount) := sumChips_update
  have := h.enough
  unfold Custody.sumChips
  rw [h.balances]
  omega

theorem KeepsChips.sumChips (h : KeepsChips c c') : c'.sumChips = c.sumChips := by
  unfold Custody.sumChips
  rw [h.balances]

/-! ## Building blocks -/

theorem credit_eq_ok (h : c.credit player amount = .ok c') :
    Credits c c' player amount ∧ c'.vault.locked = c.vault.locked ∧ c'.token = c.token ∧
      c'.address = c.address := by
  simp only [credit, bind_eq_ok, pure_eq_ok, u256Add_eq_ok] at h
  obtain ⟨_, ⟨-, rfl⟩, _, ⟨-, rfl⟩, rfl⟩ := h
  exact ⟨⟨rfl, rfl⟩, rfl, rfl, rfl⟩

theorem debit_eq_ok (h : c.debit player amount = .ok c') :
    Debits c c' player amount ∧ c'.vault.locked = c.vault.locked ∧ c'.token = c.token ∧
      c'.address = c.address := by
  simp only [debit, bind_eq_ok, pure_eq_ok, u256Sub_eq_ok] at h
  obtain ⟨_, ⟨hb, rfl⟩, _, ⟨ht, rfl⟩, rfl⟩ := h
  exact ⟨⟨hb, rfl, Nat.sub_add_cancel ht⟩, rfl, rfl, rfl⟩

theorem send_eq_ok {recipient : ContractAddress} (h : c.send recipient amount = .ok c') :
    c'.vault = c.vault ∧ c'.address = c.address ∧ c.vaultTokens ≤ c'.vaultTokens + amount := by
  simp only [send, bind_eq_ok, pure_eq_ok] at h
  obtain ⟨token, ht, rfl⟩ := h
  refine ⟨rfl, rfl, ?_⟩
  have := (Token.transfer_eq_ok ht).2.2 c.address
  simp only [vaultTokens, if_true] at this ⊢
  omega

/-- Tokens that another account pays for chips reach the vault. -/
theorem pullAndCredit_eq_ok (h : c.pullAndCredit tx player amount = .ok c') :
    Credits c c' player amount ∧ c'.vault.locked = c.vault.locked ∧ c'.address = c.address ∧
      (tx.caller ≠ c.address → c'.vaultTokens = c.vaultTokens + amount) := by
  simp only [pullAndCredit, bind_eq_ok, pure_eq_ok] at h
  obtain ⟨token, ht, c₁, hc, rfl⟩ := h
  obtain ⟨hcr, hl, htok, ha⟩ := credit_eq_ok hc
  refine ⟨⟨hcr.balances, hcr.total⟩, hl, ha, fun hne => ?_⟩
  have := Token.transferFrom_eq_ok ht c.address
  rw [if_neg hne.symm, if_pos rfl] at this
  simp only [vaultTokens, emit, htok, ha]
  omega

/-! ## One call -/

/-- Chips debited from a player leave the vault as tokens. -/
theorem debit_send_eq_ok {c₁ : Custody} {recipient : ContractAddress}
    (hd : c.debit player amount = .ok c₁) (hs : c₁.send recipient amount = .ok c') :
    Debits c c' player amount ∧ c'.vault.locked = c.vault.locked ∧ c'.address = c.address ∧
      c.vaultTokens ≤ c'.vaultTokens + amount := by
  obtain ⟨hdeb, hlock, htok, haddr⟩ := debit_eq_ok hd
  obtain ⟨hv, ha, ht⟩ := send_eq_ok hs
  refine ⟨⟨hdeb.enough, ?_, ?_⟩, ?_, ha.trans haddr, ?_⟩
  · rw [hv, hdeb.balances]
  · rw [hv, hdeb.total]
  · rw [hv, hlock]
  · simpa only [vaultTokens, htok, haddr] using ht

theorem withdraw_eq_ok (h : c.withdraw tx amount = .ok c') :
    Debits c c' tx.caller amount ∧ c'.vault.locked = c.vault.locked ∧
      c.vault.locked tx.caller ≤ c.vault.chipBalances tx.caller - amount ∧
      c'.address = c.address ∧ c.vaultTokens ≤ c'.vaultTokens + amount := by
  simp only [withdraw, assertSpendable, bind_eq_ok, pure_eq_ok, ensure_eq_ok] at h
  obtain ⟨-, -, -, -, -, -, -, ⟨-, -, hl⟩, c₁, hd, c₂, hs, rfl⟩ := h
  obtain ⟨hdeb, hlock, ha, ht⟩ := debit_send_eq_ok hd hs
  exact ⟨⟨hdeb.enough, hdeb.balances, hdeb.total⟩, hlock, hl, ha, ht⟩

theorem withdrawTo_eq_ok {recipient : ContractAddress}
    (h : c.withdrawTo tx player recipient amount = .ok c') :
    Debits c c' player amount ∧ c'.vault.locked = c.vault.locked ∧
      c.vault.locked player ≤ c.vault.chipBalances player - amount ∧
      c'.address = c.address ∧ c.vaultTokens ≤ c'.vaultTokens + amount := by
  simp only [withdrawTo, assertSpendable, bind_eq_ok, pure_eq_ok, ensure_eq_ok] at h
  obtain ⟨-, -, -, -, -, -, -, -, -, -, -, -, -, ⟨-, -, hl⟩, c₁, hd, c₂, hs, rfl⟩ := h
  obtain ⟨hdeb, hlock, ha, ht⟩ := debit_send_eq_ok hd hs
  exact ⟨⟨hdeb.enough, hdeb.balances, hdeb.total⟩, hlock, hl, ha, ht⟩

theorem burnChips_eq_ok (h : c.burnChips tx player amount = .ok c') :
    Debits c c' player amount ∧ c'.vault.locked = c.vault.locked ∧
      c.vault.locked player ≤ c.vault.chipBalances player - amount ∧
      c'.address = c.address ∧ c'.token = c.token := by
  simp only [burnChips, assertSpendable, bind_eq_ok, pure_eq_ok, ensure_eq_ok] at h
  obtain ⟨-, -, -, -, -, -, -, -, -, ⟨-, -, hl⟩, -, -, c₁, hd, rfl⟩ := h
  obtain ⟨hdeb, hlock, htok, haddr⟩ := debit_eq_ok hd
  exact ⟨⟨hdeb.enough, hdeb.balances, hdeb.total⟩, hlock, hl, haddr, htok⟩

/-- What a settlement does to one player. -/
theorem applySettlement_eq_ok {delta : ℤ} (h : c.applySettlement tx player delta = .ok c') :
    (0 < delta ∧ Credits c c' player delta.natAbs ∧ c'.vault.locked = c.vault.locked ∨
      delta < 0 ∧ Debits c c' player delta.natAbs ∧
        c'.vault.locked = Function.update c.vault.locked player
          (c.vault.locked player - min (c.vault.locked player) delta.natAbs) ∨
      delta = 0 ∧ c' = c) ∧ c'.token = c.token ∧ c'.address = c.address := by
  simp only [applySettlement, bind_eq_ok, ensure_eq_ok] at h
  obtain ⟨-, -, h⟩ := h
  split at h
  · rename_i hpos
    simp only [bind_eq_ok, ensure_eq_ok, pure_eq_ok] at h
    obtain ⟨-, -, c₁, hc, rfl⟩ := h
    obtain ⟨hcr, hl, ht, ha⟩ := credit_eq_ok hc
    exact ⟨.inl ⟨hpos, ⟨hcr.balances, hcr.total⟩, hl⟩, ht, ha⟩
  · split at h
    · rename_i hneg
      simp only [bind_eq_ok, ensure_eq_ok, pure_eq_ok] at h
      obtain ⟨-, -, -, -, c₁, hd, rfl⟩ := h
      obtain ⟨hdeb, hl, ht, ha⟩ := debit_eq_ok hd
      exact ⟨.inr (.inl ⟨hneg, ⟨hdeb.enough, hdeb.balances, hdeb.total⟩, hl⟩), ht, ha⟩
    · obtain rfl : c = c' := by simpa using h
      exact ⟨.inr (.inr ⟨by omega, rfl⟩), rfl, rfl⟩

theorem settlementFundEscrow_eq_ok {escrow : ContractAddress} {handBinding : Felt}
    (h : c.settlementFundEscrow tx escrow handBinding amount = .ok c') :
    0 < amount ∧ c'.vault = c.vault ∧ c'.address = c.address ∧
      c.vaultTokens ≤ c'.vaultTokens + amount := by
  simp only [settlementFundEscrow, bind_eq_ok, ensure_eq_ok, pure_eq_ok] at h
  obtain ⟨-, -, -, hpos, -, -, c₁, hs, rfl⟩ := h
  obtain ⟨hv, ha, ht⟩ := send_eq_ok hs
  exact ⟨hpos, hv, ha, ht⟩

theorem lock_eq_ok (h : c.lock tx player amount = .ok c') :
    KeepsChips c c' ∧ c'.vault.locked =
      Function.update c.vault.locked player (c.vault.locked player + amount) ∧
      c'.token = c.token ∧ c'.address = c.address := by
  simp only [lock, bind_eq_ok, ensure_eq_ok, pure_eq_ok, u256Add_eq_ok] at h
  obtain ⟨-, -, -, -, -, -, -, -, _, ⟨-, rfl⟩, rfl⟩ := h
  exact ⟨⟨rfl, rfl⟩, rfl, rfl, rfl⟩

/-- Every accepted call has one of the effects. -/
theorem effect_of_run {call : VaultCall} (h : c.run tx call = .ok c') : Effect call c c' := by
  cases call with
  | deposit amount =>
    simp only [run, deposit, bind_eq_ok] at h
    obtain ⟨-, -, -, -, h⟩ := h
    obtain ⟨hc, hl, -⟩ := pullAndCredit_eq_ok h
    exact .credits _ _ hc hl
  | depositFor player amount =>
    simp only [run, depositFor, bind_eq_ok] at h
    obtain ⟨-, -, -, -, -, -, h⟩ := h
    obtain ⟨hc, hl, -⟩ := pullAndCredit_eq_ok h
    exact .credits _ _ hc hl
  | withdraw amount =>
    obtain ⟨hd, hl, hu, -⟩ := withdraw_eq_ok h
    exact .spends _ _ hd hl hu
  | withdrawTo player recipient amount =>
    obtain ⟨hd, hl, hu, -⟩ := withdrawTo_eq_ok h
    exact .spends _ _ hd hl hu
  | burnChips player amount =>
    obtain ⟨hd, hl, hu, -⟩ := burnChips_eq_ok h
    exact .spends _ _ hd hl hu
  | lock player amount =>
    obtain ⟨hk, hl, -⟩ := lock_eq_ok h
    exact .locks _ _ rfl hk hl
  | unlockAfterDeadline player =>
    simp only [run, unlockAfterDeadline, bind_eq_ok, pure_eq_ok] at h
    obtain ⟨-, -, -, -, _, -, -, -, rfl⟩ := h
    exact .unlocks player ⟨rfl, rfl⟩ rfl
  | forceUnlock player =>
    simp only [run, forceUnlock, bind_eq_ok, pure_eq_ok] at h
    obtain ⟨-, -, rfl⟩ := h
    exact .unlocks player ⟨rfl, rfl⟩ rfl
  | applySettlement player delta =>
    obtain ⟨⟨-, hc, hl⟩ | ⟨-, hd, hl⟩ | ⟨-, rfl⟩, -⟩ := applySettlement_eq_ok h
    · exact .credits _ _ hc hl
    · exact .settles _ _ hd hl
    · exact .idle ⟨rfl, rfl⟩ rfl
  | settlementFundEscrow escrow handBinding amount =>
    obtain ⟨-, hv, -⟩ := settlementFundEscrow_eq_ok h
    exact .idle ⟨by rw [hv], by rw [hv]⟩ (by rw [hv])
  | setAuthorizedHelper helper =>
    simp only [run, setAuthorizedHelper, bind_eq_ok, pure_eq_ok] at h
    obtain ⟨-, -, rfl⟩ := h
    exact .idle ⟨rfl, rfl⟩ rfl
  | setUnshieldHelper helper =>
    simp only [run, setUnshieldHelper, bind_eq_ok, pure_eq_ok] at h
    obtain ⟨-, -, rfl⟩ := h
    exact .idle ⟨rfl, rfl⟩ rfl
  | refreshSession player =>
    simp only [run, refreshSession, bind_eq_ok, pure_eq_ok] at h
    obtain ⟨-, -, -, -, rfl⟩ := h
    exact .idle ⟨rfl, rfl⟩ rfl
  | setLockTtl ttl =>
    simp only [run, setLockTtl, bind_eq_ok, pure_eq_ok] at h
    obtain ⟨-, -, rfl⟩ := h
    exact .idle ⟨rfl, rfl⟩ rfl
  | registerPayoutCommitment commitment =>
    simp only [run, registerPayoutCommitment, bind_eq_ok, pure_eq_ok] at h
    obtain ⟨-, -, rfl⟩ := h
    exact .idle ⟨rfl, rfl⟩ rfl
  | pause =>
    simp only [run, pause, bind_eq_ok, pure_eq_ok] at h
    obtain ⟨-, -, -, -, rfl⟩ := h
    exact .idle ⟨rfl, rfl⟩ rfl
  | unpause =>
    simp only [run, unpause, bind_eq_ok, pure_eq_ok] at h
    obtain ⟨-, -, -, -, rfl⟩ := h
    exact .idle ⟨rfl, rfl⟩ rfl

/-- The total is the sum of the balances. -/
def TotalMatches (c : Custody) : Prop := c.vault.totalChips = c.sumChips

theorem Effect.totalMatches {call : VaultCall} (h : Effect call c c') (hc : c.TotalMatches) : c'.TotalMatches := by
  unfold TotalMatches at hc ⊢
  cases h with
  | credits player amount chips _ =>
    rw [chips.total, chips.sumChips, hc]
  | spends player amount chips _ _ =>
    have := chips.total
    have := chips.sumChips
    omega
  | settles player amount chips _ =>
    have := chips.total
    have := chips.sumChips
    omega
  | locks player amount _ chips _ => rw [chips.total, chips.sumChips, hc]
  | unlocks player chips _ => rw [chips.total, chips.sumChips, hc]
  | idle chips _ => rw [chips.total, chips.sumChips, hc]

theorem totalMatches_invariant : system.IsInvariant TotalMatches where
  init := by
    rintro _ ⟨address, owner, tokenAddress, settlementContract, token, rfl⟩
    simp [TotalMatches, sumChips, PokerVault.constructor]
  next _ _ _ _ hc h := (effect_of_run h).totalMatches hc

end Custody

end TexasPoker.Contracts
