import TexasPoker.Contracts.Payouts
import TexasPoker.Contracts.Solvency

/-! # A hand pays once and as registered

Registration locks what was registered, and every way of settling looks at one flag. Over a run
a hand moves value in one call at most, after its registration, and moves what the registered
digest commits to as long as the segments it is settled from were proved by the circuit.
-/

namespace TexasPoker.Contracts

open Fallible TransitionSystem

/-- The hand that a call settles. -/
def ChainCall.settles : ChainCall → Option Felt
  | .verifyAndSettleDapvStark handBinding .. => some handBinding
  | .verifyAndSettleDapvStarkPrivate handBinding .. => some handBinding
  | .verifyAndSettleDapvProvedPrivate handBinding .. => some handBinding
  | .verifyAndSettleDapvStarkPrivateV2 handBinding .. => some handBinding
  | .verifyAndSettleDapvStarkPrivateV3 handBinding .. => some handBinding
  | _ => none

/-- The hand that a call registers. -/
def ChainCall.registers : ChainCall → Option Felt
  | .registerHand handBinding .. => some handBinding
  | .registerHandProved handBinding .. => some handBinding
  | _ => none

/-- What is registered for a hand. -/
structure Registration where
  binding : Felt × Felt × Felt
  actionLogDigest : Felt
  expectedPacked : Felt
  pBatchCommitment : Felt
  pBatchLen : ℕ

/-- What a registration call writes for its hand. -/
def ChainCall.Records (r : Registration) : ChainCall → Prop
  | .registerHand _ digest gAttestation log nReveal nLeave nRecon =>
    r.binding = (digest, gAttestation, 1) ∧ r.actionLogDigest = log ∧
      r.expectedPacked = packExpectedCounts nReveal nLeave nRecon
  | .registerHandProved _ digest gAttestation log pBatchCommitment pBatchLen nReveal nLeave nRecon =>
    r.binding = (digest, gAttestation, 1) ∧ r.actionLogDigest = log ∧
      r.expectedPacked = packExpectedCounts nReveal nLeave nRecon ∧
      r.pBatchCommitment = pBatchCommitment ∧ r.pBatchLen = pBatchLen.1
  | _ => False

namespace Chain

variable {P : Primitives} {c c' : Chain} {tx : Tx} {call : ChainCall} {handBinding hb : Felt}

def registration (c : Chain) (handBinding : Felt) : Registration where
  binding := c.settlement.bindings handBinding
  actionLogDigest := c.settlement.actionLogs handBinding
  expectedPacked := c.settlement.expectedPacked handBinding
  pBatchCommitment := c.settlement.pBatchCommitments handBinding
  pBatchLen := c.settlement.pBatchLens handBinding

/-! ## What a call leaves alone -/

/-- A call changes the registration of the hand it registers and the claims of the hand it
settles; a claim of another hand is at most consumed. -/
structure Frame (call : ChainCall) (c c' : Chain) : Prop where
  registration : ∀ hb, call.registers ≠ some hb → c'.registration hb = c.registration hb
  settled : ∀ hb, call.settles ≠ some hb →
    c'.settlement.settledBindings hb = c.settlement.settledBindings hb
  claims : ∀ hb, call.settles ≠ some hb → ∀ i,
    c'.settlement.claimCms (hb, i) = c.settlement.claimCms (hb, i)
  amounts : ∀ hb, call.settles ≠ some hb → ∀ i,
    c'.settlement.claimAmounts (hb, i) = c.settlement.claimAmounts (hb, i)
  hidden : ∀ hb, call.settles ≠ some hb →
    c'.settlement.amountsHidden hb = c.settlement.amountsHidden hb
  consumed : ∀ hb, call.settles ≠ some hb → ∀ i,
    c'.settlement.claimsConsumed (hb, i) = c.settlement.claimsConsumed (hb, i) ∨
      ∃ amount, call = .consumeClaim hb i amount

/-- The part of the storage that is about hands. -/
def hands (s : PokerDualSettlement) :=
  (s.bindings, s.actionLogs, s.expectedPacked, s.pBatchCommitments, s.pBatchLens,
    s.settledBindings, s.claimCms, s.claimAmounts, s.amountsHidden, s.claimsConsumed)

theorem Frame.idle (h : hands c'.settlement = hands c.settlement) : Frame call c c' := by
  simp only [hands, Prod.mk.injEq] at h
  obtain ⟨h₁, h₂, h₃, h₄, h₅, h₆, h₇, h₈, h₉, h₁₀⟩ := h
  constructor
  · intro hb _
    simp only [Chain.registration, h₁, h₂, h₃, h₄, h₅]
  · intro hb _
    rw [h₆]
  · intro hb _ i
    rw [h₇]
  · intro hb _ i
    rw [h₈]
  · intro hb _
    rw [h₉]
  · intro hb _ i
    rw [h₁₀]
    exact .inl rfl

/-- Registering a hand. -/
theorem Frame.registering (hcall : call.registers = some handBinding)
    (hr : ∀ hb, hb ≠ handBinding → c'.registration hb = c.registration hb)
    (hs : c'.settlement.settledBindings = c.settlement.settledBindings)
    (hc : c'.settlement.claimCms = c.settlement.claimCms)
    (ha : c'.settlement.claimAmounts = c.settlement.claimAmounts)
    (hh : c'.settlement.amountsHidden = c.settlement.amountsHidden)
    (hu : c'.settlement.claimsConsumed = c.settlement.claimsConsumed) : Frame call c c' := by
  constructor
  · intro hb hne
    rw [hcall] at hne
    exact hr hb fun h => hne (congrArg some h.symm)
  · intro hb _
    rw [hs]
  · intro hb _ i
    rw [hc]
  · intro hb _ i
    rw [ha]
  · intro hb _
    rw [hh]
  · intro hb _ i
    rw [hu]
    exact .inl rfl

/-- Settling a hand. -/
theorem Frame.settling (hcall : call.settles = some handBinding)
    (hr : ∀ hb, c'.registration hb = c.registration hb)
    (hs : ∀ hb, hb ≠ handBinding →
      c'.settlement.settledBindings hb = c.settlement.settledBindings hb)
    (hc : ∀ hb, hb ≠ handBinding → ∀ i,
      c'.settlement.claimCms (hb, i) = c.settlement.claimCms (hb, i))
    (ha : ∀ hb, hb ≠ handBinding → ∀ i,
      c'.settlement.claimAmounts (hb, i) = c.settlement.claimAmounts (hb, i))
    (hh : ∀ hb, hb ≠ handBinding →
      c'.settlement.amountsHidden hb = c.settlement.amountsHidden hb)
    (hu : ∀ hb, hb ≠ handBinding → ∀ i,
      c'.settlement.claimsConsumed (hb, i) = c.settlement.claimsConsumed (hb, i)) :
    Frame call c c' := by
  have hother {hb : Felt} (hne : call.settles ≠ some hb) : hb ≠ handBinding := by
    rintro rfl
    exact hne hcall
  exact ⟨fun hb _ => hr hb, fun hb hne => hs hb (hother hne), fun hb hne => hc hb (hother hne),
    fun hb hne => ha hb (hother hne), fun hb hne => hh hb (hother hne),
    fun hb hne i => .inl (hu hb (hother hne) i)⟩

theorem claimed_of_ne {α : Type} {value : ContractAddress × ℤ → α}
    {l : List (ContractAddress × ℤ)} {seat i : ℕ} {old : Felt × ℕ → α} (hne : hb ≠ handBinding) :
    claimed handBinding value l seat old (hb, i) = old (hb, i) :=
  if_neg fun h => hne h.1

theorem frame_of_payOutSegment {segment : List Felt} (hcall : call.settles = some handBinding)
    (h : c.payOutSegment tx handBinding segment = .ok c') : Frame call c c' := by
  simp only [payOutSegment, bind_eq_ok, pure_eq_ok] at h
  obtain ⟨-, -, -, -, -, -, c₁, hf, rfl⟩ := h
  obtain ⟨-, -, hkeep⟩ := escrows_of_settlementFundEscrow hf
  refine .settling hcall (fun hb => ?_) (fun hb hne => ?_) (fun hb hne i => ?_)
    (fun hb hne i => ?_) (fun hb hne => ?_) (fun hb hne i => ?_)
  · simp only [registration, markSettled, hkeep]
  · simp only [markSettled, hkeep]
    exact Function.update_of_ne hne _ _
  · simp only [markSettled, hkeep]
    exact if_neg fun h => hne h.1
  · simp only [markSettled, hkeep]
  · simp only [markSettled, hkeep]
    exact Function.update_of_ne hne _ _
  · simp only [markSettled, hkeep]

theorem frame_of_stark {handIdBytes : List (BitVec 8)} {handId : ℕ} {log : Felt}
    {players : List ContractAddress} {deltas : List ℤ} {pBatch : List Felt}
    (hcall : call.settles = some handBinding)
    (h : c.verifyAndSettleDapvStark P tx handBinding handIdBytes handId log players deltas pBatch =
      .ok c') : Frame call c c' := by
  simp only [verifyAndSettleDapvStark, bind_eq_ok, pure_eq_ok] at h
  obtain ⟨_, -, -, -, -, -, -, -, -, -, -, -, -, -, -, -, -, -, c₁, hd, rfl⟩ := h
  obtain ⟨-, hkeep⟩ := gains_of_applyDeltas hd
  refine .settling hcall (fun hb => ?_) (fun hb hne => ?_) (fun hb _ i => ?_)
    (fun hb _ i => ?_) (fun hb _ => ?_) (fun hb _ i => ?_)
  · simp only [registration, markSettled, hkeep]
  · simp only [markSettled, hkeep]
    exact Function.update_of_ne hne _ _
  all_goals simp only [markSettled, hkeep]

theorem frame_of_private {handIdBytes : List (BitVec 8)} {handId : ℕ} {log : Felt}
    {players : List ContractAddress} {deltas : List ℤ} {pBatch : List Felt}
    (hcall : call.settles = some handBinding)
    (h : c.verifyAndSettleDapvStarkPrivate P tx handBinding handIdBytes handId log players deltas
      pBatch = .ok c') : Frame call c c' := by
  simp only [verifyAndSettleDapvStarkPrivate, bind_eq_ok, pure_eq_ok] at h
  obtain ⟨_, -, -, -, -, -, -, -, -, -, -, -, -, -, s, hs, -, -, c₁, hf, rfl⟩ := h
  have hd := (distributes_of_settlePrivately hs).settlement
  obtain ⟨-, -, hkeep⟩ := escrows_of_settlementFundEscrow hf
  rw [hd] at hkeep
  refine .settling hcall (fun hb => ?_) (fun hb hne => ?_) (fun hb hne i => ?_)
    (fun hb hne i => ?_) (fun hb hne => ?_) (fun hb hne i => ?_)
  · simp only [registration, markSettled, hkeep]
  · simp only [markSettled, hkeep]
    exact Function.update_of_ne hne _ _
  · simp only [markSettled, hkeep]
    exact claimed_of_ne hne
  · simp only [markSettled, hkeep]
    exact claimed_of_ne hne
  · simp only [markSettled, hkeep]
  · simp only [markSettled, hkeep]
    exact claimed_of_ne hne

/-! ## Registering -/

/-- A registration finds the hand unregistered and moves nothing. -/
structure Registers (call : ChainCall) (handBinding : Felt) (c c' : Chain) : Prop where
  fresh : (c.settlement.bindings handBinding).2.2 = 0
  records : call.Records (c'.registration handBinding)
  custody : c'.custody = c.custody

theorem writeRegistration_settlement {digest gAttestation log nReveal nLeave nRecon : Felt}
    (h : c.writeRegistration handBinding digest gAttestation log nReveal nLeave nRecon = .ok c') :
    (c.settlement.bindings handBinding).2.2 = 0 ∧ c' = { c with settlement := { c.settlement with
      bindings := Function.update c.settlement.bindings handBinding (digest, gAttestation, 1)
      actionLogs := Function.update c.settlement.actionLogs handBinding log
      expectedPacked := Function.update c.settlement.expectedPacked handBinding
        (packExpectedCounts nReveal nLeave nRecon) } } := by
  simp only [writeRegistration, bind_eq_ok, ensure_eq_ok, pure_eq_ok] at h
  obtain ⟨_, ⟨hflag, -⟩, rfl⟩ := h
  exact ⟨hflag, rfl⟩

theorem registration_of_ne {digest gAttestation log nReveal nLeave nRecon : Felt}
    (h : c.writeRegistration handBinding digest gAttestation log nReveal nLeave nRecon = .ok c')
    (hne : hb ≠ handBinding) : c'.registration hb = c.registration hb := by
  obtain ⟨-, rfl⟩ := writeRegistration_settlement h
  simp only [registration, Function.update_of_ne hne]

theorem frame_of_registers (hcall : call.registers = some handBinding)
    (h : c.run P tx call = .ok c') : Frame call c c' ∧ Registers call handBinding c c' := by
  cases call with
  | registerHand handBinding' digest gAttestation log nReveal nLeave nRecon =>
    obtain rfl := Option.some_inj.mp hcall
    simp only [run, registerHand, bind_eq_ok] at h
    obtain ⟨-, -, -, -, h⟩ := h
    have hother := fun hb (hne : hb ≠ handBinding') => registration_of_ne h hne
    obtain ⟨hfresh, rfl⟩ := writeRegistration_settlement h
    refine ⟨.registering rfl hother rfl rfl rfl rfl rfl, hfresh, ?_, rfl⟩
    simp only [ChainCall.Records, registration, Function.update_self, and_self]
  | registerHandProved handBinding' digest gAttestation log pBatchCommitment pBatchLen nReveal
      nLeave nRecon =>
    obtain rfl := Option.some_inj.mp hcall
    simp only [run, registerHandProved, bind_eq_ok, pure_eq_ok] at h
    obtain ⟨-, -, -, -, c₁, h, -, -, rfl⟩ := h
    have hother := fun hb (hne : hb ≠ handBinding') => registration_of_ne h hne
    obtain ⟨hfresh, rfl⟩ := writeRegistration_settlement h
    refine ⟨.registering rfl (fun hb hne => ?_) rfl rfl rfl rfl rfl, hfresh, ?_, rfl⟩
    · rw [← hother hb hne]
      simp only [registration, Function.update_of_ne hne]
    · simp only [ChainCall.Records, registration, Function.update_self, and_self]
  | _ => cases hcall

/-! ## Settling -/

/-- The statements whose words are in `S`, which the hash keeps apart, back what a call settles:
results in the clear are listed by the call, and a segment was proved by the circuit. -/
def Backed (P : Primitives) (S : Set (List Felt)) (st : Statement) : ChainCall → Prop
  | .verifyAndSettleDapvStark _ _ handId log players deltas _ =>
    st = .ofPlaintext handId players deltas log ∧ st.words ∈ S
  | .verifyAndSettleDapvStarkPrivate _ _ handId log players deltas _ =>
    st = .ofPlaintext handId players deltas log ∧ st.words ∈ S
  | .verifyAndSettleDapvProvedPrivate _ _ segment _ _ =>
    ∃ inputs, settlementPrivate P inputs = .ok segment ∧ st = inputs.statement ∧ st.words ∈ S
  | .verifyAndSettleDapvStarkPrivateV2 _ _ segment =>
    ∃ inputs, settlementPrivate P inputs = .ok segment ∧ st = inputs.statement ∧ st.words ∈ S
  | .verifyAndSettleDapvStarkPrivateV3 _ _ segment =>
    ∃ inputs, settlementPrivate P inputs = .ok segment ∧ st = inputs.statement ∧ st.words ∈ S
  | _ => False

/-- A settled hand was registered and open before, and is closed after. -/
structure Settles (handBinding : Felt) (c c' : Chain) : Prop where
  fresh : c.settlement.settledBindings handBinding = false
  registered : (c.settlement.bindings handBinding).2.2 = 1
  closed : c'.settlement.settledBindings handBinding = true

theorem settles_of_prelude {handIdBytes : List (BitVec 8)} {handId : ℕ} {log digest : Felt}
    {players : List ContractAddress} {deltas : List ℤ} {c₁ : Chain}
    (h : c.dapvPrelude P handBinding handIdBytes handId log players deltas = .ok digest) :
    Settles handBinding c (c₁.markSettled handBinding) := by
  obtain ⟨hopen, hflag, -⟩ := registered_of_dapvPrelude h
  exact ⟨hopen, hflag, Function.update_self _ _ _⟩

theorem settles_of_segment {handId : ℕ} {segment : List Felt} {digest : Felt}
    (hopen : c.settlement.settledBindings handBinding = false)
    (hv : c.validateSettlementSegment handBinding handId segment = .ok digest)
    (hpay : c.payOutSegment tx handBinding segment = .ok c') :
    Settles handBinding c c' ∧ ∀ inputs, settlementPrivate P inputs = .ok segment →
      inputs.statement.digest P = (c.settlement.bindings handBinding).1 ∧
        PaysOut P handBinding inputs.statement c c' := by
  obtain ⟨hflag, hbinding, hdigest⟩ := registered_of_validate hv
  constructor
  · refine ⟨hopen, hflag, ?_⟩
    simp only [payOutSegment, bind_eq_ok, pure_eq_ok] at hpay
    obtain ⟨-, -, -, -, -, -, c₁, -, rfl⟩ := hpay
    exact Function.update_self _ _ _
  · intro inputs hinputs
    have hp := proves_of_settlementPrivate hinputs
    exact ⟨hp.slot_digest.symm.trans hdigest, paysOut_of_segment hp hbinding hpay⟩

theorem frame_of_settles (hcall : call.settles = some handBinding) (h : c.run P tx call = .ok c') :
    Frame call c c' ∧ Settles handBinding c c' ∧ ∀ S st, Backed P S st call →
      st.digest P = (c.settlement.bindings handBinding).1 ∧ PaysOut P handBinding st c c' := by
  cases call with
  | verifyAndSettleDapvStark handBinding' handIdBytes handId log players deltas pBatch =>
    obtain rfl := Option.some_inj.mp hcall
    refine ⟨frame_of_stark rfl h, ?_, ?_⟩
    · simp only [run, verifyAndSettleDapvStark, bind_eq_ok, pure_eq_ok] at h
      obtain ⟨_, hp, -, -, -, -, -, -, -, -, -, -, -, -, -, -, -, -, c₁, -, rfl⟩ := h
      exact settles_of_prelude hp
    · rintro S st ⟨rfl, -⟩
      refine ⟨?_, paysOut_of_stark h⟩
      simp only [run, verifyAndSettleDapvStark, bind_eq_ok] at h
      obtain ⟨_, hp, -⟩ := h
      exact (registered_of_dapvPrelude hp).2.2.2.2
  | verifyAndSettleDapvStarkPrivate handBinding' handIdBytes handId log players deltas pBatch =>
    obtain rfl := Option.some_inj.mp hcall
    refine ⟨frame_of_private rfl h, ?_, ?_⟩
    · simp only [run, verifyAndSettleDapvStarkPrivate, bind_eq_ok, pure_eq_ok] at h
      obtain ⟨_, hp, -, -, -, -, -, -, -, -, -, -, -, -, s, -, -, -, c₁, -, rfl⟩ := h
      exact settles_of_prelude hp
    · rintro S st ⟨rfl, -⟩
      refine ⟨?_, paysOut_of_private h⟩
      simp only [run, verifyAndSettleDapvStarkPrivate, bind_eq_ok] at h
      obtain ⟨_, hp, -⟩ := h
      exact (registered_of_dapvPrelude hp).2.2.2.2
  | verifyAndSettleDapvProvedPrivate handBinding' handId segment pBatchCommitment pBatchLen =>
    obtain rfl := Option.some_inj.mp hcall
    simp only [run, verifyAndSettleDapvProvedPrivate, bind_eq_ok, ensure_eq_ok] at h
    obtain ⟨-, -, -, hopen, _, hv, -, -, -, -, -, -, -, -, -, -, -, -, hpay⟩ := h
    obtain ⟨hsettles, hpaid⟩ := settles_of_segment (P := P) hopen hv hpay
    refine ⟨frame_of_payOutSegment rfl hpay, hsettles, ?_⟩
    rintro S st ⟨inputs, hinputs, rfl, -⟩
    exact hpaid inputs hinputs
  | verifyAndSettleDapvStarkPrivateV2 handBinding' handId segment =>
    obtain rfl := Option.some_inj.mp hcall
    simp only [run, verifyAndSettleDapvStarkPrivateV2, bind_eq_ok, ensure_eq_ok] at h
    obtain ⟨-, -, -, hopen, _, hv, -, -, hpay⟩ := h
    obtain ⟨hsettles, hpaid⟩ := settles_of_segment (P := P) hopen hv hpay
    refine ⟨frame_of_payOutSegment rfl hpay, hsettles, ?_⟩
    rintro S st ⟨inputs, hinputs, rfl, -⟩
    exact hpaid inputs hinputs
  | verifyAndSettleDapvStarkPrivateV3 handBinding' handId segment =>
    obtain rfl := Option.some_inj.mp hcall
    simp only [run, verifyAndSettleDapvStarkPrivateV3, bind_eq_ok, ensure_eq_ok] at h
    obtain ⟨-, hopen, _, hv, -, -, h⟩ := h
    have hpay : c.payOutSegment tx handBinding' segment = .ok c' := by
      split at h
      · exact h
      · simp only [bind_eq_ok] at h
        obtain ⟨-, -, h⟩ := h
        exact h
    obtain ⟨hsettles, hpaid⟩ := settles_of_segment (P := P) hopen hv hpay
    refine ⟨frame_of_payOutSegment rfl hpay, hsettles, ?_⟩
    rintro S st ⟨inputs, hinputs, rfl, -⟩
    exact hpaid inputs hinputs
  | _ => cases hcall

/-! ## Every call -/

theorem frame_of_run (h : c.run P tx call = .ok c') : Frame call c c' := by
  cases hs : call.settles with
  | some hb => exact (frame_of_settles hs h).1
  | none =>
    cases hr : call.registers with
    | some hb => exact (frame_of_registers hr h).1
    | none =>
      cases call with
      | vault call =>
        simp only [run, bind_eq_ok, pure_eq_ok] at h
        obtain ⟨custody, -, rfl⟩ := h
        exact .idle rfl
      | approve spender amount =>
        obtain rfl := Except.ok.inj h
        exact .idle rfl
      | setProver prover =>
        simp only [run, setProver, bind_eq_ok] at h
        obtain ⟨-, -, h⟩ := h
        split at h
        · obtain rfl := pure_eq_ok.mp h
          exact .idle rfl
        · obtain rfl := pure_eq_ok.mp h
          exact .idle rfl
      | removeProver prover =>
        simp only [run, removeProver, bind_eq_ok, pure_eq_ok] at h
        obtain ⟨-, -, rfl⟩ := h
        exact .idle rfl
      | setClaimHelper claimHelper =>
        simp only [run, setClaimHelper, bind_eq_ok, pure_eq_ok] at h
        obtain ⟨-, -, rfl⟩ := h
        exact .idle rfl
      | setCircuitProgramHash hash =>
        simp only [run, setCircuitProgramHash, bind_eq_ok, pure_eq_ok] at h
        obtain ⟨-, -, -, -, rfl⟩ := h
        exact .idle rfl
      | setVirtualSnosProgramHash hash =>
        simp only [run, setVirtualSnosProgramHash, bind_eq_ok, pure_eq_ok] at h
        obtain ⟨-, -, -, -, rfl⟩ := h
        exact .idle rfl
      | setHandVerifyProgramHash hash =>
        simp only [run, setHandVerifyProgramHash, bind_eq_ok, pure_eq_ok] at h
        obtain ⟨-, -, rfl⟩ := h
        exact .idle rfl
      | registerSettlementFact fact =>
        simp only [run, registerSettlementFact, bind_eq_ok, pure_eq_ok] at h
        obtain ⟨-, -, -, -, rfl⟩ := h
        exact .idle rfl
      | consumeClaim handBinding seat amount =>
        simp only [run, consumeClaim, bind_eq_ok, pure_eq_ok] at h
        obtain ⟨-, -, -, -, -, -, rfl⟩ := h
        refine ⟨fun _ _ => rfl, fun _ _ => rfl, fun _ _ _ => rfl, fun _ _ _ => rfl,
          fun _ _ => rfl, fun hb _ i => ?_⟩
        by_cases hkey : (hb, i) = (handBinding, seat)
        · cases hkey
          exact .inr ⟨amount, rfl⟩
        · exact .inl (Function.update_of_ne hkey _ _)
      | registerHand => cases hr
      | registerHandProved => cases hr
      | _ => cases hs

/-- A registration is never changed. -/
theorem registration_locked (h : c.run P tx call = .ok c')
    (hflag : (c.settlement.bindings handBinding).2.2 ≠ 0) :
    c'.registration handBinding = c.registration handBinding := by
  apply (frame_of_run h).registration
  intro hr
  exact hflag (frame_of_registers hr h).2.fresh

/-! ## Runs -/

variable {c₀ : Chain} {steps : List (Step Chain (Tx × ChainCall))}

theorem countP_settles (hinit : (system P).init c₀) (h : (system P).Run c₀ steps c) :
    steps.countP (fun s => s.label.2.settles = some handBinding) =
      if c.settlement.settledBindings handBinding then 1 else 0 := by
  induction h with
  | nil =>
    obtain ⟨_, _, _, _, _, _, _, rfl⟩ := hinit
    rfl
  | snoc _ hn ih =>
    rename_i steps c c' l _
    rw [List.countP_append, ih, List.countP_singleton]
    by_cases hs : l.2.settles = some handBinding
    · obtain ⟨-, hsettles, -⟩ := frame_of_settles hs hn.2
      simp [hs, hsettles.fresh, hsettles.closed]
    · rw [(frame_of_run hn.2).settled handBinding hs]
      simp [hs]

/-- What is registered was registered by a call of the run. -/
theorem exists_registers (hinit : (system P).init c₀) (h : (system P).Run c₀ steps c)
    (hflag : (c.settlement.bindings handBinding).2.2 ≠ 0) :
    ∃ r ∈ steps, r.label.2.registers = some handBinding := by
  induction h with
  | nil =>
    obtain ⟨_, _, _, _, _, _, _, rfl⟩ := hinit
    exact absurd rfl hflag
  | snoc _ hn ih =>
    rename_i steps c c' l _
    by_cases hr : l.2.registers = some handBinding
    · exact ⟨_, List.mem_append_right _ (List.mem_singleton_self _), hr⟩
    · have hkeep := congrArg Registration.binding ((frame_of_run hn.2).registration handBinding hr)
      change c'.settlement.bindings handBinding = c.settlement.bindings handBinding at hkeep
      rw [hkeep] at hflag
      obtain ⟨r, hmem, hr⟩ := ih hflag
      exact ⟨r, List.mem_append_left _ hmem, hr⟩

theorem registration_of_mem {s : Step Chain (Tx × ChainCall)} (h : (system P).Run c₀ steps c)
    (hs : s ∈ steps) (hflag : (s.after.settlement.bindings handBinding).2.2 ≠ 0) :
    c.registration handBinding = s.after.registration handBinding := by
  induction h with
  | nil => cases hs
  | snoc _ hn ih =>
    rename_i steps c c' l _
    rcases List.mem_append.mp hs with hold | hnew
    · have hkeep := ih hold
      have hbinding := congrArg Registration.binding hkeep
      change c.settlement.bindings handBinding = s.after.settlement.bindings handBinding at hbinding
      rw [← hbinding] at hflag
      rw [registration_locked hn.2 hflag, hkeep]
    · rw [List.mem_singleton.mp hnew]

/-- The settled calls of a run are backed by statements whose words the hash keeps apart. -/
def Certified (P : Primitives) (S : Set (List Felt)) (_ : Chain) (l : Tx × ChainCall) : Prop :=
  ∀ hb, l.2.settles = some hb → ∃ st, Backed P S st l.2

theorem words_mem_of_backed {S : Set (List Felt)} {st : Statement} (h : Backed P S st call) :
    st.words ∈ S := by
  cases call with
  | verifyAndSettleDapvStark => exact h.2
  | verifyAndSettleDapvStarkPrivate => exact h.2
  | verifyAndSettleDapvProvedPrivate =>
    obtain ⟨_, -, -, hmem⟩ := h
    exact hmem
  | verifyAndSettleDapvStarkPrivateV2 =>
    obtain ⟨_, -, -, hmem⟩ := h
    exact hmem
  | verifyAndSettleDapvStarkPrivateV3 =>
    obtain ⟨_, -, -, hmem⟩ := h
    exact hmem
  | _ => exact h.elim

/-- Over a run that ends in `c`, a hand pays once and as registered. -/
structure PaysOnce (P : Primitives) (S : Set (List Felt)) (handBinding : Felt)
    (steps : List (Step Chain (Tx × ChainCall))) (c : Chain) : Prop where
  once : steps.countP (fun s => s.label.2.settles = some handBinding) ≤ 1
  untouched : ∀ s ∈ steps, Frame s.label.2 s.before s.after
  registered : ∀ s ∈ steps, s.label.2.registers = some handBinding →
    s.after.custody = s.before.custody ∧ s.label.2.Records (c.registration handBinding)
  afterwards : ∀ past s future, steps = past ++ s :: future →
    s.label.2.settles = some handBinding → ∃ r ∈ past, r.label.2.registers = some handBinding
  paid : ∀ s ∈ steps, s.label.2.settles = some handBinding → ∃ st, Backed P S st s.label.2 ∧
    st.digest P = (c.registration handBinding).binding.1 ∧
    PaysOut P handBinding st s.before s.after ∧
    ∀ st', st'.words ∈ S → st'.digest P = (c.registration handBinding).binding.1 → st' = st
  plain : ∀ handId players deltas log handId' players' deltas' log',
    Plain handId players deltas → Plain handId' players' deltas' →
    (Statement.ofPlaintext handId players deltas log).words ∈ S →
    (Statement.ofPlaintext handId' players' deltas' log').words ∈ S →
    computeSettlementDigest P handId log players deltas =
      .ok (c.registration handBinding).binding.1 →
    computeSettlementDigest P handId' log' players' deltas' =
      .ok (c.registration handBinding).binding.1 →
    handId = handId' ∧ players = players' ∧ deltas = deltas' ∧ log = log'

theorem felt_one_ne_zero : (1 : Felt) ≠ 0 := by decide

theorem digest_injOn {S : Set (List Felt)} (hS : Set.InjOn P.poseidon S) {st st' : Statement}
    (h : st.words ∈ S) (h' : st'.words ∈ S) (heq : st.digest P = st'.digest P) : st = st' :=
  Statement.words_injective (hS h h' heq)

/-- Every hand of a run pays once and as registered, when the hash keeps the words of the run's
statements apart and the segments were proved by the circuit. -/
theorem pays_once_as_registered (S : Set (List Felt)) (hS : Set.InjOn P.poseidon S)
    (hinit : (system P).init c₀) (h : ((system P).restrict (Certified P S)).Run c₀ steps c)
    (handBinding : Felt) : PaysOnce P S handBinding steps c := by
  have hrun := h.of_restrict
  have hnext {s : Step Chain (Tx × ChainCall)} (hs : s ∈ steps) :
      Certified P S s.before s.label ∧ s.before.run P s.label.1 s.label.2 = .ok s.after := by
    obtain ⟨past, future, rfl⟩ := List.append_of_mem hs
    obtain ⟨hcert, -, hstep⟩ := h.split.2
    exact ⟨hcert, hstep⟩
  constructor
  · rw [countP_settles hinit hrun]
    split <;> simp
  · intro s hs
    exact frame_of_run (hnext hs).2
  · intro s hs hr
    obtain ⟨-, hreg⟩ := frame_of_registers hr (hnext hs).2
    refine ⟨hreg.custody, ?_⟩
    have hflag : (s.after.settlement.bindings handBinding).2.2 ≠ 0 := by
      have hrec := hreg.records
      have hbinding : ∃ digest gAttestation, s.after.settlement.bindings handBinding =
          (digest, gAttestation, 1) := by
        revert hrec
        cases s.label.2 with
        | registerHand =>
          rintro ⟨hb, -⟩
          exact ⟨_, _, hb⟩
        | registerHandProved =>
          rintro ⟨hb, -⟩
          exact ⟨_, _, hb⟩
        | _ => exact False.elim
      obtain ⟨digest, gAttestation, hb⟩ := hbinding
      rw [hb]
      exact felt_one_ne_zero
    rw [registration_of_mem hrun hs hflag]
    exact hreg.records
  · rintro past s future rfl hs
    obtain ⟨hpast, hstep⟩ := hrun.split
    obtain ⟨-, hsettles, -⟩ := frame_of_settles hs hstep.2
    apply exists_registers hinit hpast
    rw [hsettles.registered]
    exact felt_one_ne_zero
  · intro s hs hset
    obtain ⟨hcert, hstep⟩ := hnext hs
    obtain ⟨st, hst⟩ := hcert handBinding hset
    obtain ⟨hframe, hsettles, hpaid⟩ := frame_of_settles hset hstep
    obtain ⟨hdigest, hpays⟩ := hpaid S st hst
    have hflag : (s.before.settlement.bindings handBinding).2.2 ≠ 0 := by
      rw [hsettles.registered]
      exact felt_one_ne_zero
    have hlocked := registration_locked hstep hflag
    have hregistered : c.registration handBinding = s.before.registration handBinding := by
      have hbinding := congrArg Registration.binding hlocked
      change s.after.settlement.bindings handBinding = s.before.settlement.bindings handBinding
        at hbinding
      rw [← hbinding] at hflag
      rw [registration_of_mem hrun hs hflag, hlocked]
    have hfinal : st.digest P = (c.registration handBinding).binding.1 := by
      rw [hregistered]
      exact hdigest
    refine ⟨st, hst, hfinal, hpays, ?_⟩
    intro st' hmem hdigest'
    exact digest_injOn hS hmem (words_mem_of_backed hst) (hdigest'.trans hfinal.symm)
  · intro handId players deltas log handId' players' deltas' log' hp hp' hmem hmem' hd hd'
    have heq := (computeSettlementDigest_eq_ok hd).2.trans (computeSettlementDigest_eq_ok hd').2.symm
    exact ofPlaintext_injective hp hp' (digest_injOn hS hmem hmem' heq)

/-! ## Runs on fixed inputs -/

theorem run_submitAll {calls : List (Tx × ChainCall)} {A : Chain → Tx × ChainCall → Prop}
    (hall : ∀ l ∈ calls, ∀ c, A c l) (h : deployed.submitAll P calls = .ok c) :
    ∃ steps, ((system P).restrict A).Run deployed steps c := by
  refine foldlM_keeps (P := fun c => ∃ steps, ((system P).restrict A).Run deployed steps c)
    ?_ h ⟨[], .nil⟩
  rintro l hl c c' hn ⟨steps, hr⟩
  exact ⟨_, .snoc hr ⟨hall l hl c, next_of_submit hn⟩⟩

/-- The results of the hand of `registeredHand`. -/
def handStatement : Statement := .ofPlaintext 1 [9, 10] [1000, -1000] 11

/-- A segment that the circuit does not give: its total is twice what the winner won. -/
def forgedSegment : List Felt :=
  [settlementSegmentMagic, 1, handDigest, 2, 77, 50, 0, 0, 0, 0, 0, 0, 0, 2000, 11]

/-- No circuit is configured and no fact registered. -/
def beforeForgery : List (Tx × ChainCall) :=
  registeredHand ++ [sentBy 5 (.setClaimHelper 8), sentBy 5 (.setVirtualSnosProgramHash 50)]

/-- The proof of the transaction shows that the contract emitted the segment as a message, which
it does for every segment that fits the registration. -/
def forgedSettle : Tx × ChainCall :=
  (⟨9, 0, [0, virtualSnosVariant, 50, 0, 0, 0, 0, 1, snip36MessageHash toyPrimitives 4 forgedSegment]⟩,
    .verifyAndSettleDapvStarkPrivateV3 77 1 forgedSegment)

theorem forged_segment_overpays :
    ∃ steps c c', (system toyPrimitives).Run deployed (steps ++ [⟨c, forgedSettle, c'⟩]) c' ∧
      c.settlement.circuitProgramHash = 0 ∧
      c.validateSettlementSegment 77 1 forgedSegment = .ok handDigest ∧
      handStatement.digest toyPrimitives = (c'.registration 77).binding.1 ∧
      ¬ PaysOut toyPrimitives 77 handStatement c c' := by
  have hrun : holds (deployed.submitAll toyPrimitives beforeForgery) (fun c =>
      holds (submit toyPrimitives c forgedSettle) (fun c' =>
        c.custody.token.balances 1 = 2000 ∧ c'.custody.token.balances 1 = 0 ∧
        c.custody.address = 1 ∧ c.settlement.claimHelper = 8 ∧
        c.settlement.circuitProgramHash = 0 ∧
        (c.validateSettlementSegment 77 1 forgedSegment).toOption = some handDigest ∧
        handStatement.winnings = 1000 ∧
        handStatement.digest toyPrimitives = (c'.settlement.bindings 77).1)) = true := by
    decide +kernel
  obtain ⟨c, hc, hp⟩ := holds_iff.mp hrun
  obtain ⟨c', hc', hp⟩ := holds_iff.mp hp
  obtain ⟨hbefore, hafter, haddress, hhelper, hcircuit, hvalid, hwinnings, hdigest⟩ :=
    of_decide_eq_true hp
  have hescrow : ¬ Escrows c.settlement.claimHelper handStatement.winnings c.custody c'.custody := by
    intro h
    unfold Escrows at h
    rw [haddress, hhelper, hwinnings] at h
    have hmoved := (Token.transfer_eq_ok h).2.2 1
    rw [if_pos rfl, if_neg (by decide), hbefore, hafter] at hmoved
    exact absurd hmoved (by decide)
  obtain ⟨steps, hr⟩ := run_submitAll (A := fun _ _ => True) (fun _ _ _ => trivial) hc
  refine ⟨steps, c, c', .snoc hr.of_restrict (next_of_submit hc'), hcircuit,
    toOption_eq_some.mp hvalid, hdigest, ?_⟩
  intro h
  cases h with
  | publicly _ htoken =>
    rw [htoken, hbefore] at hafter
    cases hafter
  | toClaims _ h => exact hescrow h
  | hidden _ h => exact hescrow h

theorem public_settle_pays_once :
    ∃ steps c, ((system toyPrimitives).restrict (Certified toyPrimitives {handStatement.words})).Run
      deployed steps c ∧ PaysOnce toyPrimitives {handStatement.words} 77 steps c := by
  obtain ⟨c, hc⟩ := isOk_iff.mp
    (by decide +kernel : (deployed.submitAll toyPrimitives (registeredHand ++ [publicSettle])).isOk)
  have hall : ∀ l ∈ registeredHand ++ [publicSettle],
      ∀ c, Certified toyPrimitives {handStatement.words} c l := by
    intro l hl c hb hset
    rcases List.mem_append.mp hl with hl | hl
    · simp only [registeredHand, List.mem_cons, List.not_mem_nil, or_false] at hl
      rcases hl with rfl | rfl | rfl <;> cases hset
    · obtain rfl := List.mem_singleton.mp hl
      exact ⟨handStatement, rfl, rfl⟩
  obtain ⟨steps, hr⟩ := run_submitAll hall hc
  exact ⟨steps, c, hr,
    pays_once_as_registered _ (Set.injOn_singleton _ _) deployed_init hr 77⟩

end Chain

end TexasPoker.Contracts
