import TexasPoker.Contracts.VaultRuns

/-! # Flows of value

What a call of the vault moves: chips credited less chips debited, tokens received less
tokens sent, and tokens handed to an escrow. Flows of calls made one after another add up.
-/

namespace TexasPoker.Contracts

open Fallible

/-- The tokens that an event hands to an escrow. -/
def VaultEvent.funded : VaultEvent → ℕ
  | .escrowFunded _ _ amount => amount
  | _ => 0

namespace Custody

variable {c c' c'' : Custody} {tx : Tx} {player recipient : ContractAddress} {amount : ℕ}
  {chips tokens funded chips' tokens' funded' : ℤ}

/-- All tokens that were handed to an escrow. -/
def escrowed (c : Custody) : ℕ := (c.events.map VaultEvent.funded).sum

/-- From `c` to `c'` the stated chips are made, at least the stated tokens received, and the
stated tokens escrowed. -/
structure Flow (chips tokens funded : ℤ) (c c' : Custody) : Prop where
  total : (c'.vault.totalChips : ℤ) = c.vault.totalChips + chips
  sum : (c'.sumChips : ℤ) = c.sumChips + chips
  tokens : (c.vaultTokens : ℤ) + tokens ≤ c'.vaultTokens
  escrowed : (c'.escrowed : ℤ) = c.escrowed + funded
  address : c'.address = c.address
  settlement : c'.vault.settlementContract = c.vault.settlementContract

theorem Flow.trans (h : Flow chips tokens funded c c') (h' : Flow chips' tokens' funded' c' c'') :
    Flow (chips + chips') (tokens + tokens') (funded + funded') c c'' where
  total := by rw [h'.total, h.total, add_assoc]
  sum := by rw [h'.sum, h.sum, add_assoc]
  tokens := by
    have h₁ := h.tokens
    have h₂ := h'.tokens
    omega
  escrowed := by rw [h'.escrowed, h.escrowed, add_assoc]
  address := h'.address.trans h.address
  settlement := h'.settlement.trans h.settlement

/-- A call that touches neither chips, tokens nor the log. -/
theorem Flow.idle (hb : c'.vault.chipBalances = c.vault.chipBalances)
    (ht : c'.vault.totalChips = c.vault.totalChips)
    (hs : c'.vault.settlementContract = c.vault.settlementContract) (htok : c'.token = c.token)
    (he : c'.events = c.events) (ha : c'.address = c.address) : Flow 0 0 0 c c' where
  total := by rw [ht, add_zero]
  sum := by rw [sumChips, sumChips, hb, add_zero]
  tokens := by rw [vaultTokens, vaultTokens, htok, ha, add_zero]
  escrowed := by rw [Custody.escrowed, Custody.escrowed, he, Nat.cast_inj.mpr rfl, add_zero]
  address := ha
  settlement := hs

theorem Flow.refl (c : Custody) : Flow 0 0 0 c c := .idle rfl rfl rfl rfl rfl rfl

theorem Flow.emit (c : Custody) (e : VaultEvent) : Flow 0 0 e.funded c (c.emit e) where
  total := (add_zero _).symm
  sum := (add_zero _).symm
  tokens := (add_zero _).le
  escrowed := by simp [Custody.escrowed, Custody.emit]
  address := rfl
  settlement := rfl

theorem flow_of_credit (h : c.credit player amount = .ok c') : Flow amount 0 0 c c' := by
  obtain ⟨hcr, -⟩ := credit_eq_ok h
  simp only [credit, bind_eq_ok, pure_eq_ok] at h
  obtain ⟨_, -, _, -, rfl⟩ := h
  exact ⟨by rw [hcr.total, Nat.cast_add], by rw [hcr.sumChips, Nat.cast_add], (add_zero _).le,
    (add_zero _).symm, rfl, rfl⟩

theorem flow_of_debit (h : c.debit player amount = .ok c') : Flow (-amount) 0 0 c c' := by
  obtain ⟨hd, -⟩ := debit_eq_ok h
  have htotal := hd.total
  have hsum := hd.sumChips
  simp only [debit, bind_eq_ok, pure_eq_ok] at h
  obtain ⟨_, -, _, -, rfl⟩ := h
  exact ⟨by omega, by omega, (add_zero _).le, (add_zero _).symm, rfl, rfl⟩

theorem flow_of_send (h : c.send recipient amount = .ok c') : Flow 0 (-amount) 0 c c' := by
  obtain ⟨-, -, htok⟩ := send_eq_ok h
  simp only [send, bind_eq_ok, pure_eq_ok] at h
  obtain ⟨_, -, rfl⟩ := h
  exact ⟨(add_zero _).symm, (add_zero _).symm, by omega, (add_zero _).symm, rfl, rfl⟩

/-- Chips that another account pays for are covered by its tokens. -/
theorem flow_of_pullAndCredit (h : c.pullAndCredit tx player amount = .ok c')
    (hne : tx.caller ≠ c.address) : Flow amount amount 0 c c' := by
  obtain ⟨hcr, -, ha, htok⟩ := pullAndCredit_eq_ok h
  have ht := htok hne
  simp only [pullAndCredit, bind_eq_ok, pure_eq_ok] at h
  obtain ⟨token, -, c₁, hc, rfl⟩ := h
  have hf := (flow_of_credit hc).trans (.emit _ (.deposit player amount))
  exact ⟨by rw [hcr.total, Nat.cast_add], by rw [hcr.sumChips, Nat.cast_add], by omega,
    hf.escrowed, ha, hf.settlement⟩

theorem flow_of_withdraw (h : c.withdraw tx amount = .ok c') :
    Flow (-amount) (-amount) 0 c c' := by
  simp only [withdraw, bind_eq_ok, pure_eq_ok] at h
  obtain ⟨-, -, -, -, -, -, -, -, c₁, hd, c₂, hs, rfl⟩ := h
  simpa [VaultEvent.funded] using ((flow_of_debit hd).trans (flow_of_send hs)).trans
    (.emit c₂ (.withdraw tx.caller amount))

theorem flow_of_withdrawTo (h : c.withdrawTo tx player recipient amount = .ok c') :
    Flow (-amount) (-amount) 0 c c' := by
  simp only [withdrawTo, bind_eq_ok, pure_eq_ok] at h
  obtain ⟨-, -, -, -, -, -, -, -, -, -, -, -, -, -, c₁, hd, c₂, hs, rfl⟩ := h
  simpa [VaultEvent.funded] using ((flow_of_debit hd).trans (flow_of_send hs)).trans
    (.emit c₂ (.chipDebited player amount))

theorem flow_of_burnChips (h : c.burnChips tx player amount = .ok c') :
    Flow (-amount) 0 0 c c' := by
  simp only [burnChips, bind_eq_ok, pure_eq_ok] at h
  obtain ⟨-, -, -, -, -, -, -, -, -, -, -, -, c₁, hd, rfl⟩ := h
  simpa [VaultEvent.funded] using (flow_of_debit hd).trans (.emit c₁ (.chipDebited player amount))

/-- A settlement makes the chips of the result. -/
theorem flow_of_applySettlement {delta : ℤ} (h : c.applySettlement tx player delta = .ok c') :
    Flow delta 0 0 c c' := by
  simp only [applySettlement, bind_eq_ok] at h
  obtain ⟨-, -, h⟩ := h
  split at h
  · rename_i hpos
    simp only [bind_eq_ok, pure_eq_ok] at h
    obtain ⟨-, -, c₁, hc, rfl⟩ := h
    have hf := (flow_of_credit hc).trans (.emit c₁ (.chipCredited player delta.natAbs))
    rwa [add_zero, add_zero, Int.natAbs_of_nonneg hpos.le] at hf
  · split at h
    · rename_i hneg
      simp only [bind_eq_ok, pure_eq_ok] at h
      obtain ⟨-, -, -, -, c₁, hd, rfl⟩ := h
      have hl : Flow 0 0 0 c (c.setLocked player (c.vault.locked player -
          min (c.vault.locked player) delta.natAbs)) := .idle rfl rfl rfl rfl rfl rfl
      have hf := (hl.trans (flow_of_debit hd)).trans
        (.emit c₁ (.chipDebited player delta.natAbs))
      have habs : -(delta.natAbs : ℤ) = delta := by omega
      rwa [zero_add, add_zero, add_zero, add_zero, habs] at hf
    · obtain rfl : c = c' := by simpa using h
      have hzero : delta = 0 := by omega
      rw [hzero]
      exact .refl c

theorem flow_of_settlementFundEscrow {escrow : ContractAddress} {handBinding : Felt}
    (h : c.settlementFundEscrow tx escrow handBinding amount = .ok c') :
    Flow 0 (-amount) amount c c' := by
  simp only [settlementFundEscrow, bind_eq_ok, pure_eq_ok] at h
  obtain ⟨-, -, -, -, -, -, c₁, hs, rfl⟩ := h
  have hf := (flow_of_send hs).trans (.emit c₁ (.escrowFunded handBinding escrow amount))
  rwa [add_zero, add_zero, zero_add] at hf

/-- A call by another account than the vault or the settlement contract makes no chips that are
not paid for. -/
theorem flow_of_run {call : VaultCall} (h : c.run tx call = .ok c') (hv : tx.caller ≠ c.address)
    (hs : tx.caller ≠ c.vault.settlementContract) :
    ∃ chips tokens, chips ≤ tokens ∧ Flow chips tokens 0 c c' := by
  have hidle (hf : Flow 0 0 0 c c') : ∃ chips tokens, chips ≤ tokens ∧ Flow chips tokens 0 c c' :=
    ⟨0, 0, le_rfl, hf⟩
  cases call with
  | deposit amount =>
    simp only [run, deposit, bind_eq_ok] at h
    obtain ⟨-, -, -, -, h⟩ := h
    exact ⟨_, _, le_rfl, flow_of_pullAndCredit h hv⟩
  | depositFor player amount =>
    simp only [run, depositFor, bind_eq_ok] at h
    obtain ⟨-, -, -, -, -, -, h⟩ := h
    exact ⟨_, _, le_rfl, flow_of_pullAndCredit h hv⟩
  | withdraw amount => exact ⟨_, _, le_rfl, flow_of_withdraw h⟩
  | withdrawTo player recipient amount => exact ⟨_, _, le_rfl, flow_of_withdrawTo h⟩
  | burnChips player amount => exact ⟨_, _, by omega, flow_of_burnChips h⟩
  | applySettlement player delta =>
    simp only [run, applySettlement, bind_eq_ok, ensure_eq_ok] at h
    obtain ⟨-, hc, -⟩ := h
    exact absurd hc hs
  | settlementFundEscrow escrow handBinding amount =>
    simp only [run, settlementFundEscrow, bind_eq_ok, ensure_eq_ok] at h
    obtain ⟨-, hc, -⟩ := h
    exact absurd hc hs
  | lock player amount =>
    simp only [run, lock, bind_eq_ok, pure_eq_ok] at h
    obtain ⟨-, -, -, -, -, -, -, -, _, -, rfl⟩ := h
    exact hidle (.idle rfl rfl rfl rfl rfl rfl)
  | unlockAfterDeadline player =>
    simp only [run, unlockAfterDeadline, bind_eq_ok, pure_eq_ok] at h
    obtain ⟨-, -, -, -, _, -, -, -, rfl⟩ := h
    exact hidle (.idle rfl rfl rfl rfl rfl rfl)
  | refreshSession player =>
    simp only [run, refreshSession, bind_eq_ok, pure_eq_ok] at h
    obtain ⟨-, -, -, -, rfl⟩ := h
    exact hidle (.idle rfl rfl rfl rfl rfl rfl)
  | pause =>
    simp only [run, pause, bind_eq_ok, pure_eq_ok] at h
    obtain ⟨-, -, -, -, rfl⟩ := h
    exact hidle (.idle rfl rfl rfl rfl rfl rfl)
  | unpause =>
    simp only [run, unpause, bind_eq_ok, pure_eq_ok] at h
    obtain ⟨-, -, -, -, rfl⟩ := h
    exact hidle (.idle rfl rfl rfl rfl rfl rfl)
  | _ =>
    simp only [run, setAuthorizedHelper, setUnshieldHelper, setLockTtl, forceUnlock,
      registerPayoutCommitment, bind_eq_ok, pure_eq_ok] at h
    obtain ⟨-, -, rfl⟩ := h
    exact hidle (.idle rfl rfl rfl rfl rfl rfl)

/-- The chips are counted, and the tokens cover them. -/
structure Solvent (c : Custody) : Prop where
  total : c.vault.totalChips = c.sumChips
  covered : c.vault.totalChips ≤ c.vaultTokens

/-- No value is made or lost: what the players lose the winners or the escrow get. -/
def MovesEqualValue (c c' : Custody) : Prop := c'.sumChips + c'.escrowed = c.sumChips + c.escrowed

theorem Flow.solvent (h : Flow chips tokens funded c c') (hle : chips ≤ tokens) (hc : c.Solvent) :
    c'.Solvent := by
  have h₁ := h.total
  have h₂ := h.sum
  have h₃ := h.tokens
  have h₄ := hc.total
  have h₅ := hc.covered
  exact ⟨by omega, by omega⟩

theorem Flow.movesEqualValue_iff (h : Flow chips tokens funded c c') :
    MovesEqualValue c c' ↔ chips + funded = 0 := by
  have h₁ := h.sum
  have h₂ := h.escrowed
  unfold MovesEqualValue
  omega

end Custody

end TexasPoker.Contracts
