import TexasPoker.Contracts.DualSettlement
import TexasPoker.Contracts.Flow

/-! # Solvency

The vault and the settlement contract as one system. Settling from plaintext moves the losers'
chips to the winners or the escrow; settling from a proved segment funds the escrow but debits
nobody.
-/

namespace TexasPoker.Contracts

open Fallible

/-- An entry of the deployed contracts with its arguments. -/
inductive ChainCall where
  | vault (call : VaultCall)
  | approve (spender : ContractAddress) (amount : ℕ)
  | registerHand (handBinding settlementDigest gAttestation actionLogDigest
      nReveal nLeave nRecon : Felt)
  | registerHandProved (handBinding settlementDigest gAttestation actionLogDigest
      pBatchCommitment pBatchLen nReveal nLeave nRecon : Felt)
  | setProver (prover : ContractAddress)
  | removeProver (prover : ContractAddress)
  | setClaimHelper (claimHelper : ContractAddress)
  | setCircuitProgramHash (hash : Felt)
  | setVirtualSnosProgramHash (hash : Felt)
  | setHandVerifyProgramHash (hash : Felt)
  | registerSettlementFact (fact : Felt)
  | verifyAndSettleDapvStark (handBinding : Felt) (handIdBytes : List (BitVec 8)) (handId : ℕ)
      (actionLogDigest : Felt) (players : List ContractAddress) (deltas : List ℤ)
      (pBatch : List Felt)
  | verifyAndSettleDapvStarkPrivate (handBinding : Felt) (handIdBytes : List (BitVec 8))
      (handId : ℕ) (actionLogDigest : Felt) (players : List ContractAddress) (deltas : List ℤ)
      (pBatch : List Felt)
  | verifyAndSettleDapvProvedPrivate (handBinding : Felt) (handId : ℕ) (segment : List Felt)
      (pBatchCommitment : Felt) (pBatchLen : ℕ)
  | verifyAndSettleDapvStarkPrivateV2 (handBinding : Felt) (handId : ℕ) (segment : List Felt)
  | verifyAndSettleDapvStarkPrivateV3 (handBinding : Felt) (handId : ℕ) (segment : List Felt)
  | consumeClaim (handBinding : Felt) (seat amount : ℕ)

/-- The entries that settle a hand. -/
def ChainCall.IsSettle : ChainCall → Prop
  | .verifyAndSettleDapvStark .. | .verifyAndSettleDapvStarkPrivate ..
  | .verifyAndSettleDapvProvedPrivate .. | .verifyAndSettleDapvStarkPrivateV2 ..
  | .verifyAndSettleDapvStarkPrivateV3 .. => True
  | _ => False

/-- The entries that settle a hand from a proved segment. -/
def ChainCall.SettlesSegment : ChainCall → Prop
  | .verifyAndSettleDapvProvedPrivate .. | .verifyAndSettleDapvStarkPrivateV2 ..
  | .verifyAndSettleDapvStarkPrivateV3 .. => True
  | _ => False

namespace Chain

variable (P : Primitives)

/-- Make a call. -/
def run (c : Chain) (tx : Tx) : ChainCall → Revert Chain
  | .vault call => do
    let custody ← c.custody.run tx call
    return { c with custody }
  | .approve spender amount =>
    let token := c.custody.token.approve tx.caller spender amount
    .ok { c with custody := { c.custody with token } }
  | .registerHand handBinding settlementDigest gAttestation actionLogDigest nReveal nLeave nRecon =>
    c.registerHand tx handBinding settlementDigest gAttestation actionLogDigest nReveal nLeave nRecon
  | .registerHandProved handBinding settlementDigest gAttestation actionLogDigest pBatchCommitment
      pBatchLen nReveal nLeave nRecon =>
    c.registerHandProved tx handBinding settlementDigest gAttestation actionLogDigest
      pBatchCommitment pBatchLen nReveal nLeave nRecon
  | .setProver prover => c.setProver tx prover
  | .removeProver prover => c.removeProver tx prover
  | .setClaimHelper claimHelper => c.setClaimHelper tx claimHelper
  | .setCircuitProgramHash hash => c.setCircuitProgramHash tx hash
  | .setVirtualSnosProgramHash hash => c.setVirtualSnosProgramHash tx hash
  | .setHandVerifyProgramHash hash => c.setHandVerifyProgramHash tx hash
  | .registerSettlementFact fact => c.registerSettlementFact tx fact
  | .verifyAndSettleDapvStark handBinding handIdBytes handId actionLogDigest players deltas pBatch =>
    c.verifyAndSettleDapvStark P tx handBinding handIdBytes handId actionLogDigest players deltas
      pBatch
  | .verifyAndSettleDapvStarkPrivate handBinding handIdBytes handId actionLogDigest players deltas
      pBatch =>
    c.verifyAndSettleDapvStarkPrivate P tx handBinding handIdBytes handId actionLogDigest players
      deltas pBatch
  | .verifyAndSettleDapvProvedPrivate handBinding handId segment pBatchCommitment pBatchLen =>
    c.verifyAndSettleDapvProvedPrivate P tx handBinding handId segment pBatchCommitment pBatchLen
  | .verifyAndSettleDapvStarkPrivateV2 handBinding handId segment =>
    c.verifyAndSettleDapvStarkPrivateV2 P tx handBinding handId segment
  | .verifyAndSettleDapvStarkPrivateV3 handBinding handId segment =>
    c.verifyAndSettleDapvStarkPrivateV3 P tx handBinding handId segment
  | .consumeClaim handBinding seat amount => c.consumeClaim tx handBinding seat amount

/-- Calls by other accounts than the vault and its settlement contract, from a deployment. -/
def system : TransitionSystem Chain (Tx × ChainCall) where
  init c := ∃ address owner tokenAddress settlementAddress token settlementOwner prover,
    c = ⟨⟨address, .constructor address owner tokenAddress settlementAddress, token, []⟩,
      settlementAddress, .constructor settlementOwner prover⟩
  next c l c' := (l.1.caller ≠ c.custody.address ∧ l.1.caller ≠ c.settlementAddress) ∧
    c.run P l.1 l.2 = .ok c'

variable {P} {c c' c'' : Chain} {tx : Tx} {handBinding : Felt} {segment : List Felt}
  {chips tokens funded chips' tokens' funded' : ℤ}

/-- The flow of a call in the vault, at the same settlement contract. -/
structure Flow (chips tokens funded : ℤ) (c c' : Chain) : Prop where
  flow : c.custody.Flow chips tokens funded c'.custody
  address : c'.settlementAddress = c.settlementAddress

theorem Flow.trans (h : Flow chips tokens funded c c') (h' : Flow chips' tokens' funded' c' c'') :
    Flow (chips + chips') (tokens + tokens') (funded + funded') c c'' :=
  ⟨h.flow.trans h'.flow, h'.address.trans h.address⟩

/-- A call that leaves the vault alone. -/
theorem Flow.idle (hc : c'.custody = c.custody) (ha : c'.settlementAddress = c.settlementAddress) :
    Flow 0 0 0 c c' :=
  ⟨by rw [hc]; exact .refl _, ha⟩

theorem flow_of_applySettlement {player : ContractAddress} {delta : ℤ}
    (h : c.callVault tx (fun tx v => v.applySettlement tx player delta) = .ok c') :
    Flow delta 0 0 c c' := by
  simp only [callVault, bind_eq_ok, pure_eq_ok] at h
  obtain ⟨custody, hv, rfl⟩ := h
  exact ⟨Custody.flow_of_applySettlement hv, rfl⟩

theorem flow_of_settlementFundEscrow {escrow : ContractAddress} {amount : ℕ}
    (h : c.callVault tx (fun tx v => v.settlementFundEscrow tx escrow handBinding amount) =
      .ok c') : Flow 0 (-amount) amount c c' := by
  simp only [callVault, bind_eq_ok, pure_eq_ok] at h
  obtain ⟨custody, hv, rfl⟩ := h
  exact ⟨Custody.flow_of_settlementFundEscrow hv, rfl⟩

/-! ## Settling from plaintext -/

theorem flow_of_applyDeltas {players : List ContractAddress} {deltas : List ℤ}
    (hlen : players.length = deltas.length)
    (h : c.applyDeltasThroughVault tx players deltas = .ok c') : Flow deltas.sum 0 0 c c' := by
  unfold applyDeltasThroughVault at h
  induction players generalizing deltas c with
  | nil =>
    cases deltas with
    | nil =>
      obtain rfl : c = c' := by simpa using h
      exact .idle rfl rfl
    | cons _ _ => simp at hlen
  | cons player players ih =>
    cases deltas with
    | nil => simp at hlen
    | cons delta deltas =>
      rw [List.zip_cons_cons, List.foldlM_cons, bind_eq_ok] at h
      obtain ⟨c₁, h₁, h⟩ := h
      have hf := (flow_of_applySettlement h₁).trans (ih (Nat.succ.inj hlen) h)
      rwa [add_zero, ← List.sum_cons] at hf

theorem players_of_dapvPrelude {handIdBytes : List (BitVec 8)} {handId : ℕ}
    {actionLogDigest digest : Felt} {players : List ContractAddress} {deltas : List ℤ}
    (h : c.dapvPrelude P handBinding handIdBytes handId actionLogDigest players deltas =
      .ok digest) : players.length = deltas.length := by
  simp only [dapvPrelude, assertSettleCommon, bind_eq_ok, ensure_eq_ok] at h
  obtain ⟨_, ⟨-, -, -, hlen, -⟩, -⟩ := h
  exact hlen

/-- Public results move chips only. -/
theorem flow_of_stark {handIdBytes : List (BitVec 8)} {handId : ℕ} {actionLogDigest : Felt}
    {players : List ContractAddress} {deltas : List ℤ} {pBatch : List Felt}
    (h : c.verifyAndSettleDapvStark P tx handBinding handIdBytes handId actionLogDigest players
      deltas pBatch = .ok c') : Flow 0 0 0 c c' := by
  simp only [verifyAndSettleDapvStark, assertZeroSum, bind_eq_ok, ensure_eq_ok, pure_eq_ok] at h
  obtain ⟨_, hp, -, -, -, -, -, -, -, -, -, -, -, -, -, -, -, hsum, c₁, hd, rfl⟩ := h
  have hf := flow_of_applyDeltas (players_of_dapvPrelude hp) hd
  rw [hsum] at hf
  have hmark : Flow 0 0 0 c₁ (c₁.markSettled handBinding) := .idle rfl rfl
  simpa using hf.trans hmark

/-- One player of a private settlement adds the result to chips and winnings together. -/
theorem flow_of_settlePrivately {s s' : Chain × ℕ} {player : ContractAddress} {delta : ℤ}
    {seat : ℕ} (h : settlePrivately P tx handBinding s ((player, delta), seat) = .ok s') :
    Flow (delta - (s'.2 - s.2)) 0 0 s.1 s'.1 := by
  simp only [settlePrivately] at h
  split at h
  · rename_i hpos
    simp only [bind_eq_ok, pure_eq_ok, u256Add_eq_ok] at h
    obtain ⟨-, -, -, -, _, ⟨-, rfl⟩, rfl⟩ := h
    have hzero : delta - (((s.2 + delta.natAbs : ℕ) : ℤ) - s.2) = 0 := by omega
    rw [hzero]
    exact .idle rfl rfl
  · split at h
    · simp only [bind_eq_ok, pure_eq_ok] at h
      obtain ⟨c₁, hc, rfl⟩ := h
      simpa using flow_of_applySettlement hc
    · obtain rfl : s = s' := by simpa using h
      have hzero : delta - ((s.2 : ℤ) - s.2) = 0 := by omega
      rw [hzero]
      exact .idle rfl rfl

theorem flow_of_settleAll {players : List ContractAddress} {deltas : List ℤ} {seat : ℕ}
    {s s' : Chain × ℕ} (hlen : players.length = deltas.length)
    (h : ((players.zip deltas).zipIdx seat).foldlM (settlePrivately P tx handBinding) s = .ok s') :
    Flow (deltas.sum - (s'.2 - s.2)) 0 0 s.1 s'.1 := by
  induction players generalizing deltas seat s with
  | nil =>
    cases deltas with
    | nil =>
      obtain rfl : s = s' := by simpa using h
      simpa using Flow.idle (c := s.1) rfl rfl
    | cons _ _ => simp at hlen
  | cons player players ih =>
    cases deltas with
    | nil => simp at hlen
    | cons delta deltas =>
      rw [List.zip_cons_cons, List.zipIdx_cons, List.foldlM_cons, bind_eq_ok] at h
      obtain ⟨s₁, h₁, h⟩ := h
      have hf := (flow_of_settlePrivately h₁).trans (ih (Nat.succ.inj hlen) h)
      have hadd : delta - ((s₁.2 : ℤ) - s.2) + (deltas.sum - (s'.2 - s₁.2)) =
          (delta :: deltas).sum - (s'.2 - s.2) := by
        rw [List.sum_cons]
        omega
      rwa [hadd, add_zero] at hf

/-- Private results move the losers' chips to the escrow. -/
theorem flow_of_private {handIdBytes : List (BitVec 8)} {handId : ℕ} {actionLogDigest : Felt}
    {players : List ContractAddress} {deltas : List ℤ} {pBatch : List Felt}
    (h : c.verifyAndSettleDapvStarkPrivate P tx handBinding handIdBytes handId actionLogDigest
      players deltas pBatch = .ok c') : ∃ winnings : ℕ, Flow (-winnings) (-winnings) winnings c c' := by
  simp only [verifyAndSettleDapvStarkPrivate, assertZeroSum, bind_eq_ok, ensure_eq_ok,
    pure_eq_ok] at h
  obtain ⟨_, hp, -, -, -, -, -, -, -, -, -, hsum, -, -, s, hs, -, -, c₁, hf, rfl⟩ := h
  have hflow := flow_of_settleAll (players_of_dapvPrelude hp) hs
  rw [hsum] at hflow
  have hmark : Flow 0 0 0 c₁ (c₁.markSettled handBinding) := .idle rfl rfl
  refine ⟨s.2, ?_⟩
  simpa using (hflow.trans (flow_of_settlementFundEscrow hf)).trans hmark

/-! ## Settling from a segment -/

/-- A segment funds the escrow, and no loser pays. -/
theorem flow_of_payOutSegment (h : c.payOutSegment tx handBinding segment = .ok c') :
    ∃ winnings : ℕ, 0 < winnings ∧ Flow 0 (-winnings) winnings c c' := by
  simp only [payOutSegment, bind_eq_ok, ensure_eq_ok, pure_eq_ok] at h
  obtain ⟨-, -, -, hpos, -, -, c₁, hf, rfl⟩ := h
  exact ⟨_, hpos, (flow_of_settlementFundEscrow hf).flow, (flow_of_settlementFundEscrow hf).address⟩

theorem flow_of_settlesSegment {call : ChainCall} (hcall : call.SettlesSegment)
    (h : c.run P tx call = .ok c') :
    ∃ winnings : ℕ, 0 < winnings ∧ Flow 0 (-winnings) winnings c c' := by
  cases call with
  | verifyAndSettleDapvProvedPrivate handBinding handId segment pBatchCommitment pBatchLen =>
    simp only [run, verifyAndSettleDapvProvedPrivate, bind_eq_ok] at h
    obtain ⟨-, -, -, -, -, -, -, -, -, -, -, -, -, -, -, -, -, -, h⟩ := h
    exact flow_of_payOutSegment h
  | verifyAndSettleDapvStarkPrivateV2 handBinding handId segment =>
    simp only [run, verifyAndSettleDapvStarkPrivateV2, bind_eq_ok] at h
    obtain ⟨-, -, -, -, -, -, -, -, h⟩ := h
    exact flow_of_payOutSegment h
  | verifyAndSettleDapvStarkPrivateV3 handBinding handId segment =>
    simp only [run, verifyAndSettleDapvStarkPrivateV3, bind_eq_ok] at h
    obtain ⟨-, -, -, -, -, -, h⟩ := h
    split at h
    · exact flow_of_payOutSegment h
    · simp only [bind_eq_ok] at h
      obtain ⟨-, -, h⟩ := h
      exact flow_of_payOutSegment h
  | _ => exact hcall.elim

/-! ## Every entry -/

theorem writeRegistration_eq_ok {settlementDigest gAttestation actionLogDigest nReveal nLeave nRecon : Felt}
    (h : c.writeRegistration handBinding settlementDigest gAttestation actionLogDigest nReveal
      nLeave nRecon = .ok c') :
    c'.custody = c.custody ∧ c'.settlementAddress = c.settlementAddress := by
  simp only [writeRegistration, bind_eq_ok, pure_eq_ok] at h
  obtain ⟨-, -, rfl⟩ := h
  exact ⟨rfl, rfl⟩

/-- Without segments no entry makes chips that are not paid for, and a settled hand moves what
its losers lose. -/
theorem flow_of_run {call : ChainCall} (h : c.run P tx call = .ok c')
    (hv : tx.caller ≠ c.custody.address) (hs : tx.caller ≠ c.custody.vault.settlementContract)
    (hcall : ¬ call.SettlesSegment) :
    ∃ chips tokens funded, chips ≤ tokens ∧ (call.IsSettle → chips + funded = 0) ∧
      Flow chips tokens funded c c' := by
  have hidle (hn : ¬ call.IsSettle) (hc : c'.custody = c.custody)
      (ha : c'.settlementAddress = c.settlementAddress) :
      ∃ chips tokens funded, chips ≤ tokens ∧ (call.IsSettle → chips + funded = 0) ∧
        Flow chips tokens funded c c' :=
    ⟨0, 0, 0, le_rfl, fun hi => absurd hi hn, .idle hc ha⟩
  cases call with
  | vault call =>
    simp only [run, bind_eq_ok, pure_eq_ok] at h
    obtain ⟨custody, hr, rfl⟩ := h
    obtain ⟨chips, tokens, hle, hf⟩ := Custody.flow_of_run hr hv hs
    exact ⟨chips, tokens, 0, hle, False.elim, hf, rfl⟩
  | approve spender amount =>
    obtain rfl := Except.ok.inj h
    exact ⟨0, 0, 0, le_rfl, False.elim,
      ⟨(add_zero _).symm, (add_zero _).symm, (add_zero _).le, (add_zero _).symm, rfl, rfl⟩, rfl⟩
  | registerHand =>
    simp only [run, registerHand, bind_eq_ok] at h
    obtain ⟨-, -, -, -, h⟩ := h
    obtain ⟨hc, ha⟩ := writeRegistration_eq_ok h
    exact hidle id hc ha
  | registerHandProved =>
    simp only [run, registerHandProved, bind_eq_ok, pure_eq_ok] at h
    obtain ⟨-, -, -, -, c₁, h, -, -, rfl⟩ := h
    obtain ⟨hc, ha⟩ := writeRegistration_eq_ok h
    exact hidle id hc ha
  | setProver prover =>
    simp only [run, setProver, bind_eq_ok] at h
    obtain ⟨-, -, h⟩ := h
    split at h
    · obtain rfl := pure_eq_ok.mp h
      exact hidle id rfl rfl
    · obtain rfl := pure_eq_ok.mp h
      exact hidle id rfl rfl
  | removeProver prover =>
    simp only [run, removeProver, bind_eq_ok, pure_eq_ok] at h
    obtain ⟨-, -, rfl⟩ := h
    exact hidle id rfl rfl
  | setClaimHelper claimHelper =>
    simp only [run, setClaimHelper, bind_eq_ok, pure_eq_ok] at h
    obtain ⟨-, -, rfl⟩ := h
    exact hidle id rfl rfl
  | setCircuitProgramHash hash =>
    simp only [run, setCircuitProgramHash, bind_eq_ok, pure_eq_ok] at h
    obtain ⟨-, -, -, -, rfl⟩ := h
    exact hidle id rfl rfl
  | setVirtualSnosProgramHash hash =>
    simp only [run, setVirtualSnosProgramHash, bind_eq_ok, pure_eq_ok] at h
    obtain ⟨-, -, -, -, rfl⟩ := h
    exact hidle id rfl rfl
  | setHandVerifyProgramHash hash =>
    simp only [run, setHandVerifyProgramHash, bind_eq_ok, pure_eq_ok] at h
    obtain ⟨-, -, rfl⟩ := h
    exact hidle id rfl rfl
  | registerSettlementFact fact =>
    simp only [run, registerSettlementFact, bind_eq_ok, pure_eq_ok] at h
    obtain ⟨-, -, -, -, rfl⟩ := h
    exact hidle id rfl rfl
  | verifyAndSettleDapvStark =>
    exact ⟨0, 0, 0, le_rfl, fun _ => add_zero 0, flow_of_stark h⟩
  | verifyAndSettleDapvStarkPrivate =>
    obtain ⟨winnings, hf⟩ := flow_of_private h
    exact ⟨_, _, _, le_rfl, fun _ => neg_add_cancel _, hf⟩
  | consumeClaim handBinding seat amount =>
    simp only [run, consumeClaim, bind_eq_ok, pure_eq_ok] at h
    obtain ⟨-, -, -, -, -, -, rfl⟩ := h
    exact hidle id rfl rfl
  | _ => exact absurd trivial hcall

/-- Calls that settle no hand from a segment. -/
def Plaintext (_ : Chain) (l : Tx × ChainCall) : Prop := ¬ l.2.SettlesSegment

/-- The vault takes settlements from this settlement contract only. -/
def Linked (c : Chain) : Prop := c.custody.vault.settlementContract = c.settlementAddress

theorem Flow.linked (h : Flow chips tokens funded c c') (hc : c.Linked) : c'.Linked := by
  unfold Linked at hc ⊢
  rw [h.flow.settlement, h.address, hc]

theorem exists_flow {call : ChainCall} (h : c.run P tx call = .ok c')
    (hv : tx.caller ≠ c.custody.address) (hs : tx.caller ≠ c.custody.vault.settlementContract) :
    ∃ chips tokens funded, Flow chips tokens funded c c' := by
  by_cases hcall : call.SettlesSegment
  · obtain ⟨winnings, -, hf⟩ := flow_of_settlesSegment hcall h
    exact ⟨_, _, _, hf⟩
  · obtain ⟨chips, tokens, funded, -, -, hf⟩ := flow_of_run h hv hs hcall
    exact ⟨chips, tokens, funded, hf⟩

theorem linked_invariant : (system P).IsInvariant Linked where
  init := by
    rintro _ ⟨address, owner, tokenAddress, settlementAddress, token, settlementOwner, prover, rfl⟩
    rfl
  next := by
    rintro c ⟨tx, call⟩ c' - hl ⟨⟨hv, hs⟩, h⟩
    obtain ⟨_, _, _, hf⟩ := exists_flow h hv (hl ▸ hs)
    exact hf.linked hl

theorem solvent_invariant :
    ((system P).restrict Plaintext).IsInvariant fun c => c.custody.Solvent where
  init := by
    rintro _ ⟨address, owner, tokenAddress, settlementAddress, token, settlementOwner, prover, rfl⟩
    exact ⟨by simp [Custody.sumChips, PokerVault.constructor], Nat.zero_le _⟩
  next := by
    rintro c ⟨tx, call⟩ c' hr hc ⟨hp, ⟨hv, hs⟩, h⟩
    have hl : c.Linked := linked_invariant.of_reachable hr.of_restrict
    obtain ⟨_, _, _, hle, -, hf⟩ := flow_of_run h hv (hl ▸ hs) hp
    exact hf.flow.solvent hle hc

/-- The vault is solvent in every run without segments, and a settled hand moves equal value
exactly when it is not settled from a segment. -/
theorem solvent_of_plaintext :
    (∀ c, ((system P).restrict Plaintext).Reachable c → c.custody.Solvent) ∧
      ∀ c l c', (system P).Reachable c → l.2.IsSettle → (system P).next c l c' →
        (c.custody.MovesEqualValue c'.custody ↔ c.Plaintext l) := by
  constructor
  · intro c hc
    exact solvent_invariant.of_reachable hc
  · rintro c ⟨tx, call⟩ c' hr hset ⟨⟨hv, hs⟩, h⟩
    have hl : c.Linked := linked_invariant.of_reachable hr
    constructor
    · intro hm hseg
      obtain ⟨winnings, hpos, hf⟩ := flow_of_settlesSegment hseg h
      have := hf.flow.movesEqualValue_iff.mp hm
      omega
    · intro hp
      obtain ⟨_, _, _, -, hz, hf⟩ := flow_of_run h hv (hl ▸ hs) hp
      exact hf.flow.movesEqualValue_iff.mpr (hz hset)

/-! ## Runs on fixed inputs -/

/-- Make a call as an account outside the two contracts. -/
def submit (P : Primitives) (c : Chain) (l : Tx × ChainCall) : Revert Chain := do
  ensure (l.1.caller ≠ c.custody.address ∧ l.1.caller ≠ c.settlementAddress) "internal account"
  c.run P l.1 l.2

def submitAll (P : Primitives) (c : Chain) (calls : List (Tx × ChainCall)) : Revert Chain :=
  calls.foldlM (submit P) c

theorem next_of_submit {l : Tx × ChainCall} (h : submit P c l = .ok c') :
    (system P).next c l c' := by
  simp only [submit, bind_eq_ok, ensure_eq_ok] at h
  obtain ⟨-, hl, h⟩ := h
  exact ⟨hl, h⟩

theorem reachable_submitAll {calls : List (Tx × ChainCall)} (h : c.submitAll P calls = .ok c')
    (hc : (system P).Reachable c) : (system P).Reachable c' :=
  foldlM_keeps (P := (system P).Reachable) (fun l _ _ _ hn hr => .next l hr (next_of_submit hn)) h hc

theorem plaintext_submitAll {calls : List (Tx × ChainCall)} (h : c.submitAll P calls = .ok c')
    (hcalls : ∀ l ∈ calls, ¬ l.2.SettlesSegment)
    (hc : ((system P).restrict Plaintext).Reachable c) :
    ((system P).restrict Plaintext).Reachable c' :=
  foldlM_keeps (P := ((system P).restrict Plaintext).Reachable)
    (fun l hl _ _ hn hr => .next l hr ⟨hcalls l hl, next_of_submit hn⟩) h hc

/-- A polynomial hash. -/
def mix (l : List Felt) : ℕ :=
  l.foldl (fun acc x => (acc * 1000003 + x.1 + 1) % u128Bound) 7 % u128Bound

/-- A hash whose parity is that of the length, and a verifier that trusts every batch. -/
def toyPrimitives : Primitives where
  poseidon l := natFelt (2 * mix l + l.length % 2)
  verifyHandBatchStark _ _ := true

/-- Players nine and ten have a thousand tokens each, which the vault may pull. -/
def deployed : Chain where
  custody :=
    { address := 1
      vault := .constructor 1 2 3 4
      token :=
        { balances := fun a => if a = 9 ∨ a = 10 then 1000 else 0
          allowances := fun a spender => if (a = 9 ∨ a = 10) ∧ spender = 1 then 1000 else 0 }
      events := [] }
  settlementAddress := 4
  settlement := .constructor 5 6

theorem deployed_init : (system P).init deployed := ⟨1, 2, 3, 4, _, 5, 6, rfl⟩

/-- A call of an account. -/
def sentBy (caller : ContractAddress) (call : ChainCall) : Tx × ChainCall := (⟨caller, 0, []⟩, call)

/-- The digest of a hand in which player nine wins the thousand of player ten. -/
def handDigest : Felt :=
  ((computeSettlementDigest toyPrimitives 1 11 [9, 10] [1000, -1000]).toOption).getD 0

/-- Both buy in, and the hand is registered. -/
def registeredHand : List (Tx × ChainCall) :=
  [sentBy 9 (.vault (.deposit 1000)), sentBy 10 (.vault (.deposit 1000)),
    sentBy 6 (.registerHand 77 handDigest 0 11 0 0 0)]

def provedSegment : List Felt :=
  [settlementSegmentMagic, 1, handDigest, 2, 77, 50, 0, 0, 0, 0, 0, 0, 0, 1000, 11]

/-- The hand is settled from its proved segment. -/
def segmentRun : List (Tx × ChainCall) :=
  registeredHand ++
    [sentBy 5 (.setClaimHelper 8), sentBy 5 (.setCircuitProgramHash 100),
      sentBy 6 (.registerSettlementFact (factForSegment toyPrimitives 100 provedSegment)),
      sentBy 9 (.verifyAndSettleDapvStarkPrivateV2 77 1 provedSegment)]

theorem segment_leaves_uncovered_chips :
    ∃ c, deployed.submitAll toyPrimitives segmentRun = .ok c ∧
      (system toyPrimitives).Reachable c ∧
      computeSettlementDigest toyPrimitives 1 11 [9, 10] [1000, -1000] = .ok (slot provedSegment 2) ∧
      slot provedSegment 13 = 1000 ∧ c.custody.vault.totalChips = 2000 ∧
      c.custody.vaultTokens = 1000 ∧ ¬ c.custody.Solvent := by
  have hrun : holds (deployed.submitAll toyPrimitives segmentRun) (fun c =>
      c.custody.vault.totalChips = 2000 ∧ c.custody.vaultTokens = 1000) = true := by
    decide +kernel
  have hdigest : computeSettlementDigest toyPrimitives 1 11 [9, 10] [1000, -1000] =
      .ok (slot provedSegment 2) := by
    decide +kernel
  obtain ⟨c, hc, hp⟩ := holds_iff.mp hrun
  obtain ⟨ht, hv⟩ := of_decide_eq_true hp
  refine ⟨c, hc, reachable_submitAll hc (.init deployed_init), hdigest, by decide +kernel, ht, hv, ?_⟩
  intro h
  have := h.covered
  omega

/-- The public results of the hand, under a batch that both endorse. -/
def publicSettle : Tx × ChainCall :=
  sentBy 9 (.verifyAndSettleDapvStark 77 [77] 1 11 [9, 10] [1000, -1000]
    [2, 0, 0, 0, 0, 21, 0, 0, 0, 0, 22, 0, 0, 0, 0])

theorem public_settle_solvent :
    ∃ c c', deployed.submitAll toyPrimitives registeredHand = .ok c ∧
      (system toyPrimitives).next c publicSettle c' ∧ c'.custody.Solvent ∧
      c.custody.MovesEqualValue c'.custody := by
  have hrun : holds (deployed.submitAll toyPrimitives registeredHand) (fun c =>
      (submit toyPrimitives c publicSettle).isOk) = true := by
    decide +kernel
  obtain ⟨c, hc, hp⟩ := holds_iff.mp hrun
  obtain ⟨c', hc'⟩ := isOk_iff.mp hp
  have hn := next_of_submit hc'
  have hr : ((system toyPrimitives).restrict Plaintext).Reachable c :=
    plaintext_submitAll hc (by simp [registeredHand, sentBy, ChainCall.SettlesSegment])
      (.init (deployed_init (P := toyPrimitives)))
  have hpl : c.Plaintext publicSettle := id
  exact ⟨c, c', hc, hn, solvent_of_plaintext.1 c' (.next publicSettle hr ⟨hpl, hn⟩),
    (solvent_of_plaintext.2 c publicSettle c' hr.of_restrict trivial hn).mpr hpl⟩

end Chain

end TexasPoker.Contracts
