import TexasPoker.Contracts.VaultRuns

/-! # Backed locks

Locked chips are part of the balance in every run whose locks count the chips that are
locked already. The unlocked rest is then exactly what a player can withdraw.
-/

namespace TexasPoker.Contracts

open Fallible

namespace Custody

variable {c c' : Custody} {tx : Tx} {call : VaultCall} {player p : ContractAddress} {amount : ℕ}

/-- No player has more chips locked than chips. -/
def Backed (c : Custody) : Prop := ∀ p, c.vault.locked p ≤ c.vault.chipBalances p

/-- Every lock can be settled in one debit. -/
def LocksFit (c : Custody) : Prop := ∀ p, c.vault.locked p < u64Bound

/-- The lock covers the chips locked already, and fits a settlement. -/
def SafeLock (c : Custody) : Tx × VaultCall → Prop
  | (_, .lock player amount) =>
    c.vault.locked player + amount ≤ c.vault.chipBalances player ∧
      c.vault.locked player + amount < u64Bound
  | _ => True

/-- Calls that take chips out of the vault. -/
def IsOutflow : VaultCall → Prop
  | .withdraw _ | .withdrawTo .. | .burnChips .. => True
  | _ => False

/-- Locked chips are backed by the balance. -/
structure HonoursLocks (c : Custody) : Prop where
  backed : c.Backed
  /-- The unlocked balance is exactly what a player can withdraw. -/
  withdrawable : ∀ (tx : Tx) (amount : ℕ), c.vault.paused = false → 0 < amount →
    amount ≤ c.vaultTokens → ((∃ c', c.withdraw tx amount = .ok c') ↔
      amount ≤ c.vault.chipBalances tx.caller - c.vault.locked tx.caller)
  /-- No withdrawal takes locked chips. -/
  spared : ∀ (tx : Tx) (call : VaultCall) (c' : Custody), IsOutflow call →
    c.run tx call = .ok c' →
      ∀ p, c'.vault.locked p = c.vault.locked p ∧ c.vault.locked p ≤ c'.vault.chipBalances p
  /-- A settlement can debit everything that is locked. -/
  debitable : ∀ (tx : Tx) (player : ContractAddress) (amount : ℕ),
    tx.caller = c.vault.settlementContract → amount ≤ c.vault.locked player →
      ∃ c', c.applySettlement tx player (-amount) = .ok c'

theorem debit_of_enough (ht : c.TotalMatches) (h : amount ≤ c.vault.chipBalances player) :
    ∃ c', c.debit player amount = .ok c' ∧ c'.token = c.token ∧ c'.address = c.address := by
  have hle : c.vault.chipBalances player ≤ c.sumChips :=
    Finset.single_le_sum (f := c.vault.chipBalances) (fun _ _ => Nat.zero_le _)
      (Finset.mem_univ player)
  rw [← ht] at hle
  have hsum : u256Sub c.vault.totalChips amount = .ok (c.vault.totalChips - amount) :=
    if_pos (h.trans hle)
  rcases hd : c.debit player amount with e | c'
  · rw [debit, u256Sub, if_pos h, ok_bind, hsum] at hd
    cases hd
  · obtain ⟨-, -, htok, haddr⟩ := debit_eq_ok hd
    exact ⟨c', rfl, htok, haddr⟩

theorem withdraw_iff (ht : c.TotalMatches) (hp : c.vault.paused = false) (hpos : 0 < amount)
    (htok : amount ≤ c.vaultTokens) :
    (∃ c', c.withdraw tx amount = .ok c') ↔ amount ≤ c.vault.chipBalances tx.caller ∧
      c.vault.locked tx.caller ≤ c.vault.chipBalances tx.caller - amount := by
  constructor
  · rintro ⟨c', h⟩
    obtain ⟨hd, -, hl, -⟩ := withdraw_eq_ok h
    exact ⟨hd.enough, hl⟩
  · rintro ⟨henough, hl⟩
    obtain ⟨c₁, hd, htk, ha⟩ := debit_of_enough ht henough
    have hsend : ∃ c₂, c₁.send tx.caller amount = .ok c₂ := by
      rcases hs : c₁.send tx.caller amount with e | c₂
      · rw [send, htk, ha, Token.transfer, ensure_pos (p := amount ≤ c.token.balances c.address) htok] at hs
        cases hs
      · exact ⟨c₂, rfl⟩
    obtain ⟨c₂, hs⟩ := hsend
    refine ⟨c₂.emit (.withdraw tx.caller amount), ?_⟩
    simp only [withdraw, assertNotPaused, assertSpendable, bind_eq_ok, ensure_eq_ok, pure_eq_ok]
    exact ⟨(), hp, (), hpos, (), henough, (), ⟨(), henough, hl⟩, c₁, hd, c₂, hs, rfl⟩

theorem spared_of_outflow (hb : c.Backed) (ho : IsOutflow call) (h : c.run tx call = .ok c') :
    c'.vault.locked p = c.vault.locked p ∧ c.vault.locked p ≤ c'.vault.chipBalances p := by
  have hspent {player : ContractAddress} {amount : ℕ} (hd : Debits c c' player amount)
      (hl : c'.vault.locked = c.vault.locked)
      (hu : c.vault.locked player ≤ c.vault.chipBalances player - amount) :
      c'.vault.locked p = c.vault.locked p ∧ c.vault.locked p ≤ c'.vault.chipBalances p := by
    refine ⟨congrFun hl p, ?_⟩
    rw [hd.balances]
    by_cases hp : p = player
    · subst hp
      rwa [Function.update_self]
    · rw [Function.update_of_ne hp]
      exact hb p
  cases call with
  | withdraw amount =>
    obtain ⟨hd, hl, hu, -⟩ := withdraw_eq_ok h
    exact hspent hd hl hu
  | withdrawTo player recipient amount =>
    obtain ⟨hd, hl, hu, -⟩ := withdrawTo_eq_ok h
    exact hspent hd hl hu
  | burnChips player amount =>
    obtain ⟨hd, hl, hu, -⟩ := burnChips_eq_ok h
    exact hspent hd hl hu
  | _ => exact ho.elim

theorem debit_of_locked (ht : c.TotalMatches) (hb : c.Backed) (hf : amount < u64Bound)
    (hs : tx.caller = c.vault.settlementContract) (hl : amount ≤ c.vault.locked player) :
    ∃ c', c.applySettlement tx player (-amount) = .ok c' := by
  by_cases h0 : amount = 0
  · subst h0
    refine ⟨c, ?_⟩
    simp only [applySettlement, bind_eq_ok, ensure_eq_ok]
    exact ⟨(), hs, rfl⟩
  · have hneg : (-(amount : ℤ)) < 0 := by omega
    have hnat : (-(amount : ℤ)).natAbs = amount := by omega
    have henough : amount ≤ c.vault.chipBalances player := hl.trans (hb player)
    obtain ⟨c₁, hd, -⟩ : ∃ c₁, (c.setLocked player (c.vault.locked player -
        min (c.vault.locked player) amount)).debit player amount = .ok c₁ ∧ _ :=
      debit_of_enough ht henough
    refine ⟨c₁.emit (.chipDebited player amount), ?_⟩
    simp only [applySettlement, bind_eq_ok, ensure_eq_ok]
    refine ⟨(), hs, ?_⟩
    rw [if_neg (by omega), if_pos hneg, hnat]
    simp only [bind_eq_ok, ensure_eq_ok, pure_eq_ok]
    exact ⟨(), hf, (), henough, c₁, hd, rfl⟩

/-- A debit beyond one machine word is refused, whatever is locked. -/
theorem applySettlement_of_large (hf : u64Bound ≤ amount) :
    ¬ ∃ c', c.applySettlement tx player (-amount) = .ok c' := by
  rintro ⟨c', h⟩
  have hnat : (-(amount : ℤ)).natAbs = amount := by omega
  have hb : 0 < u64Bound := by decide
  simp only [applySettlement, bind_eq_ok, ensure_eq_ok] at h
  obtain ⟨-, -, h⟩ := h
  rw [if_neg (by omega), if_pos (by omega), hnat] at h
  simp only [bind_eq_ok, ensure_eq_ok] at h
  obtain ⟨-, hlt, -⟩ := h
  omega

/-- Locks are honoured exactly when they are backed and fit a settlement. -/
theorem honoursLocks_iff (ht : c.TotalMatches) : c.HonoursLocks ↔ c.Backed ∧ c.LocksFit := by
  constructor
  · intro h
    refine ⟨h.backed, fun p => ?_⟩
    by_contra hp
    obtain ⟨c', hc⟩ := h.debitable ⟨c.vault.settlementContract, 0, []⟩ p _ rfl le_rfl
    exact applySettlement_of_large (not_lt.mp hp) ⟨c', hc⟩
  · rintro ⟨hb, hf⟩
    refine ⟨hb, fun tx amount hp hpos htok => ?_, fun tx call c' ho h p => ?_, ?_⟩
    · rw [withdraw_iff ht hp hpos htok]
      have := hb tx.caller
      omega
    · exact spared_of_outflow hb ho h
    · intro tx player amount hs hl
      exact debit_of_locked ht hb (hl.trans_lt (hf player)) hs hl

/-- A lock keeps the locks backed and small exactly when it is safe. -/
theorem safe_lock_iff (hb : c.Backed) (hf : c.LocksFit) (h : c.lock tx player amount = .ok c') :
    c'.Backed ∧ c'.LocksFit ↔ c.SafeLock (tx, .lock player amount) := by
  obtain ⟨chips, locks, -⟩ := lock_eq_ok h
  constructor
  · rintro ⟨hb', hf'⟩
    have h₁ := hb' player
    have h₂ := hf' player
    rw [locks, Function.update_self] at h₁ h₂
    rw [chips.balances] at h₁
    exact ⟨h₁, h₂⟩
  · rintro ⟨h₁, h₂⟩
    constructor
    · intro p
      rw [locks, chips.balances]
      by_cases hp : p = player
      · subst hp
        rwa [Function.update_self]
      · rw [Function.update_of_ne hp]
        exact hb p
    · intro p
      rw [locks]
      by_cases hp : p = player
      · subst hp
        rwa [Function.update_self]
      · rw [Function.update_of_ne hp]
        exact hf p

/-- A call that locks nothing keeps the locks backed, and raises none. -/
theorem Effect.backed (he : Effect call c c') (hcall : ∀ player amount, call ≠ .lock player amount)
    (hb : c.Backed) (p : ContractAddress) :
    c'.vault.locked p ≤ c'.vault.chipBalances p ∧ c'.vault.locked p ≤ c.vault.locked p := by
  have hp := hb p
  cases he with
  | credits player amount chips locks =>
    rw [locks, chips.balances, Function.update_apply]
    split
    · rename_i h
      subst h
      omega
    · exact ⟨hp, le_rfl⟩
  | spends player amount chips locks unlocked =>
    rw [locks, chips.balances, Function.update_apply]
    split
    · rename_i h
      subst h
      exact ⟨unlocked, le_rfl⟩
    · exact ⟨hp, le_rfl⟩
  | settles player amount chips locks =>
    rw [locks, chips.balances, Function.update_apply, Function.update_apply]
    split
    · rename_i h
      subst h
      omega
    · exact ⟨hp, le_rfl⟩
  | locks player amount isLock _ _ => exact absurd isLock (hcall player amount)
  | unlocks player chips locks =>
    rw [locks, chips.balances, Function.update_apply]
    split
    · exact ⟨Nat.zero_le _, Nat.zero_le _⟩
    · exact ⟨hp, le_rfl⟩
  | idle chips locks =>
    rw [locks, chips.balances]
    exact ⟨hp, le_rfl⟩

/-- One call keeps the locks backed and small exactly when it is no unsafe lock. -/
theorem safe_step_iff (hb : c.Backed) (hf : c.LocksFit) (h : c.run tx call = .ok c') :
    c'.Backed ∧ c'.LocksFit ↔ c.SafeLock (tx, call) := by
  by_cases hcall : ∃ player amount, call = .lock player amount
  · obtain ⟨player, amount, rfl⟩ := hcall
    exact safe_lock_iff hb hf h
  · have hne : ∀ player amount, call ≠ .lock player amount :=
      fun player amount heq => hcall ⟨player, amount, heq⟩
    have hkeep := (effect_of_run h).backed hne hb
    have hsafe : c.SafeLock (tx, call) := by
      cases call with
      | lock player amount => exact absurd rfl (hne player amount)
      | _ => trivial
    exact iff_of_true ⟨fun p => (hkeep p).1, fun p => (hkeep p).2.trans_lt (hf p)⟩ hsafe

theorem backed_invariant :
    (system.restrict SafeLock).IsInvariant fun c => c.Backed ∧ c.LocksFit where
  init := by
    rintro _ ⟨address, owner, tokenAddress, settlementContract, token, rfl⟩
    exact ⟨fun _ => le_rfl, fun _ => Nat.two_pow_pos 64⟩
  next := by
    rintro c ⟨tx, call⟩ c' - ⟨hb, hf⟩ ⟨hsafe, h⟩
    exact (safe_step_iff hb hf h).mpr hsafe

/-- In every run without unsafe locks, all locks are honoured; and a run that honours its locks
stops doing so exactly at an unsafe lock. -/
theorem honoursLocks_of_safe_locks (c : Custody) :
    ((system.restrict SafeLock).Reachable c → c.HonoursLocks) ∧
      ∀ l c', system.Reachable c → c.HonoursLocks → system.next c l c' →
        (c'.HonoursLocks ↔ c.SafeLock l) := by
  have htotal {c : Custody} (hc : system.Reachable c) : c.TotalMatches :=
    totalMatches_invariant.of_reachable hc
  constructor
  · intro hc
    exact (honoursLocks_iff (htotal hc.of_restrict)).mpr (backed_invariant.of_reachable hc)
  · rintro ⟨tx, call⟩ c' hc hh h
    obtain ⟨hb, hf⟩ := (honoursLocks_iff (htotal hc)).mp hh
    rw [honoursLocks_iff (htotal (.next (tx, call) hc h)), safe_step_iff hb hf h]

/-- Calls one after another. -/
def runAll (c : Custody) (calls : List (Tx × VaultCall)) : Revert Custody :=
  calls.foldlM (fun c l => c.run l.1 l.2) c

theorem reachable_runAll {calls : List (Tx × VaultCall)} (h : c.runAll calls = .ok c')
    (hc : system.Reachable c) : system.Reachable c' :=
  foldlM_keeps (P := system.Reachable) (fun l _ _ _ hn hr => .next l hr hn) h hc

/-- A vault of owner two, and a player nine with a thousand tokens and as much allowance. -/
def freshVault : Custody where
  address := 1
  vault := .constructor 1 2 3 4
  token :=
    { balances := fun a => if a = 9 then 1000 else 0
      allowances := fun a spender => if a = 9 ∧ spender = 1 then 1000 else 0 }
  events := []

theorem freshVault_init : system.init freshVault := ⟨1, 2, 3, 4, _, rfl⟩

/-- The player deposits everything, and the owner locks eight hundred twice. -/
theorem second_lock_unbacked :
    ∃ c, freshVault.runAll [(⟨9, 0, []⟩, .deposit 1000), (⟨2, 0, []⟩, .lock 9 800),
        (⟨2, 0, []⟩, .lock 9 800)] = .ok c ∧ system.Reachable c ∧
      c.vault.locked 9 = 1600 ∧ c.vault.chipBalances 9 = 1000 ∧ ¬ c.HonoursLocks := by
  have hrun : holds (freshVault.runAll [(⟨9, 0, []⟩, .deposit 1000), (⟨2, 0, []⟩, .lock 9 800),
      (⟨2, 0, []⟩, .lock 9 800)])
      (fun c => c.vault.locked 9 = 1600 ∧ c.vault.chipBalances 9 = 1000) = true := by
    decide +kernel
  obtain ⟨c, hc, hp⟩ := holds_iff.mp hrun
  obtain ⟨hl, hb⟩ := of_decide_eq_true hp
  refine ⟨c, hc, reachable_runAll hc (.init freshVault_init), hl, hb, fun h => ?_⟩
  have := h.backed 9
  omega

/-- One lock of eight hundred is honoured. -/
theorem first_lock_honoured :
    ∃ c, freshVault.runAll [(⟨9, 0, []⟩, .deposit 1000), (⟨2, 0, []⟩, .lock 9 800)] = .ok c ∧
      c.HonoursLocks := by
  have hrun : holds (freshVault.run ⟨9, 0, []⟩ (.deposit 1000)) (fun c =>
      c.vault.locked 9 + 800 ≤ c.vault.chipBalances 9 ∧ c.vault.locked 9 + 800 < u64Bound ∧
        (c.run ⟨2, 0, []⟩ (.lock 9 800)).isOk = true) = true := by
    decide +kernel
  obtain ⟨c₁, h₁, hp⟩ := holds_iff.mp hrun
  obtain ⟨hb, hf, hok⟩ := of_decide_eq_true hp
  obtain ⟨c, h⟩ := isOk_iff.mp hok
  refine ⟨c, ?_, ?_⟩
  · simp only [runAll, List.foldlM_cons, List.foldlM_nil, h₁, h, ok_bind]
    rfl
  · have hr₁ : (system.restrict SafeLock).Reachable c₁ :=
      .next (⟨9, 0, []⟩, .deposit 1000) (.init freshVault_init) ⟨trivial, h₁⟩
    exact (honoursLocks_of_safe_locks c).1 (.next (⟨2, 0, []⟩, .lock 9 800) hr₁ ⟨⟨hb, hf⟩, h⟩)

end Custody

end TexasPoker.Contracts
