import Mathlib.Algebra.BigOperators.Fin
import TexasPoker.Contracts.PokerVault

/-! # The settlement contract

Hands are registered by provers and settled once: linearly, with public results; privately,
with escrowed winnings; or from a proved public segment that hides who won what.
-/

namespace TexasPoker.Contracts

open Fallible

/-- The hash of the contracts, and the verifier of hand batches. -/
structure Primitives where
  poseidon : List Felt → Felt
  verifyHandBatchStark : Felt → List Felt → Bool

/-- The storage of the settlement contract. -/
structure PokerDualSettlement where
  owner : ContractAddress
  provers : ContractAddress → Bool
  bindings : Felt → Felt × Felt × Felt
  expectedPacked : Felt → Felt
  settledBindings : Felt → Bool
  claimHelper : ContractAddress
  claimCms : Felt × ℕ → Felt
  claimAmounts : Felt × ℕ → ℕ
  claimsConsumed : Felt × ℕ → Bool
  circuitProgramHash : Felt
  virtualSnosProgramHash : Felt
  settlementFacts : Felt → Bool
  amountsHidden : Felt → Bool
  pBatchCommitments : Felt → Felt
  pBatchLens : Felt → ℕ
  handVerifyProgramHash : Felt
  actionLogs : Felt → Felt

/-- The settlement contract beside the vault it was deployed with. -/
structure Chain where
  custody : Custody
  settlementAddress : ContractAddress
  settlement : PokerDualSettlement

def PokerDualSettlement.constructor (owner initialProver : ContractAddress) :
    PokerDualSettlement where
  owner
  provers := fun a => a = initialProver && initialProver ≠ 0
  bindings := fun _ => (0, 0, 0)
  expectedPacked := fun _ => 0
  settledBindings := fun _ => false
  claimHelper := 0
  claimCms := fun _ => 0
  claimAmounts := fun _ => 0
  claimsConsumed := fun _ => false
  circuitProgramHash := 0
  virtualSnosProgramHash := 0
  settlementFacts := fun _ => false
  amountsHidden := fun _ => false
  pBatchCommitments := fun _ => 0
  pBatchLens := fun _ => 0
  handVerifyProgramHash := 0
  actionLogs := fun _ => 0

def settlementSegmentMagic : Felt := natFelt 0x5350324d5f4f4b

def settlementSegmentLen : ℕ := 15

def virtualSnosVariant : Felt := natFelt 0x5649525455414c5f534e4f53

def expectedPackShift : Felt := natFelt (2 ^ 64)

def expectedPackShift2 : Felt := natFelt (2 ^ 128)

/-- The value of a segment slot. -/
def slot (segment : List Felt) (i : ℕ) : Felt := segment.getD i 0

section Digests

variable (P : Primitives)

/-- The hash of the first message of a proving transaction. -/
def snip36MessageHash (contractAddr : ContractAddress) (segment : List Felt) : Felt :=
  P.poseidon (addressFelt contractAddr :: 0 :: natFelt segment.length :: segment)

def factForSegment (programHash : Felt) (segment : List Felt) : Felt :=
  P.poseidon (programHash :: segment)

/-- Big-endian bytes as a field element. -/
def bytesToFelt (bytes : List (BitVec 8)) : Felt :=
  bytes.foldl (fun acc b => acc * 256 + natFelt b.toNat) 0

/-- Sign and size of a result, as the digest lists them. -/
def deltaFelts (delta : ℤ) : Revert (List Felt) := do
  ensure (delta.natAbs < u64Bound)
    (if 0 ≤ delta then "delta fits u64" else "abs delta fits u64")
  return [if 0 ≤ delta then 1 else 0, natFelt delta.natAbs]

def computeSettlementDigest (handId : ℕ) (actionLogDigest : Felt)
    (players : List ContractAddress) (deltas : List ℤ) : Revert Felt := do
  let results ← (players.zip deltas).mapM fun (player, delta) => do
    return addressFelt player :: (← deltaFelts delta)
  return P.poseidon (natFelt handId :: (results.flatten ++ [actionLogDigest]))

end Digests

def assertZeroSum (deltas : List ℤ) : Revert Unit :=
  ensure (deltas.sum = 0) "Settlement not zero-sum"

def packExpectedCounts (nReveal nLeave nRecon : Felt) : Felt :=
  nReveal + nLeave * expectedPackShift + nRecon * expectedPackShift2

namespace Chain

variable (P : Primitives) (tx : Tx) (c : Chain)

/-- Call the vault from the settlement contract. -/
def callVault (call : Tx → Custody → Revert Custody) : Revert Chain := do
  let custody ← call { tx with caller := c.settlementAddress } c.custody
  return { c with custody }

def applyDeltasThroughVault (players : List ContractAddress) (deltas : List ℤ) : Revert Chain :=
  (players.zip deltas).foldlM (fun c e => c.callVault tx fun tx v => v.applySettlement tx e.1 e.2) c

def readRegisteredDigest (handBinding : Felt) : Revert Felt := do
  ensure ((c.settlement.bindings handBinding).2.2 = 1) "Binding not registered"
  return (c.settlement.bindings handBinding).1

def validateSettlementSegment (handBinding : Felt) (handId : ℕ) (segment : List Felt) :
    Revert Felt := do
  ensure (handBinding ≠ 0) "Zero binding"
  ensure (segment.length = settlementSegmentLen) "Segment length mismatch"
  ensure (slot segment 0 = settlementSegmentMagic) "Segment magic mismatch"
  ensure (slot segment 1 = natFelt handId) "Segment hand_id mismatch"
  ensure (slot segment 4 = handBinding) "Segment binding mismatch"
  ensure ((slot segment 3).1 < u32Bound) "n fits u32"
  ensure (2 ≤ (slot segment 3).1 ∧ (slot segment 3).1 ≤ 8) "Participant count out of range"
  let registeredDigest ← c.readRegisteredDigest handBinding
  ensure (slot segment 2 = registeredDigest) "Segment digest mismatch"
  ensure (slot segment 14 = c.settlement.actionLogs handBinding) "Segment action log mismatch"
  return registeredDigest

def assertSettleCommon (handBinding : Felt) (players : List ContractAddress) (deltas : List ℤ) :
    Revert Unit := do
  ensure (handBinding ≠ 0) "Zero binding"
  ensure (players.length = deltas.length) "Players/deltas mismatch"
  ensure (0 < players.length) "No participants"
  ensure (players.length < 10) "Too many participants"
  ensure (c.settlement.settledBindings handBinding = false) "Hand already settled"

/-- The first registration of a binding locks it. -/
def writeRegistration (handBinding settlementDigest gAttestation actionLogDigest
    nReveal nLeave nRecon : Felt) : Revert Chain := do
  let existing := c.settlement.bindings handBinding
  ensure (existing.2.2 = 0 ∧ existing.1 = 0) "Binding already registered"
  let bindings := Function.update c.settlement.bindings handBinding
    (settlementDigest, gAttestation, 1)
  let actionLogs := Function.update c.settlement.actionLogs handBinding actionLogDigest
  let expectedPacked := Function.update c.settlement.expectedPacked handBinding
    (packExpectedCounts nReveal nLeave nRecon)
  return { c with settlement := { c.settlement with bindings, actionLogs, expectedPacked } }

def dapvPrelude (handBinding : Felt) (handIdBytes : List (BitVec 8)) (handId : ℕ)
    (actionLogDigest : Felt) (players : List ContractAddress) (deltas : List ℤ) :
    Revert Felt := do
  c.assertSettleCommon handBinding players deltas
  ensure (bytesToFelt handIdBytes = handBinding) "Batch domain not bound to hand_binding"
  let registeredDigest ← c.readRegisteredDigest handBinding
  let computed ← computeSettlementDigest P handId actionLogDigest players deltas
  ensure (computed = registeredDigest) "Settlement digest mismatch"
  return registeredDigest

/-- Mark a hand as settled. -/
def markSettled (handBinding : Felt) : Chain :=
  let settledBindings := Function.update c.settlement.settledBindings handBinding true
  { c with settlement := { c.settlement with settledBindings } }

/-! ## Registration and configuration -/

def assertOnlyOwner : Revert Unit :=
  ensure (tx.caller = c.settlement.owner) "Caller is not the owner"

def registerHand (handBinding settlementDigest gAttestation actionLogDigest
    nReveal nLeave nRecon : Felt) : Revert Chain := do
  ensure (c.settlement.provers tx.caller = true) "Caller not authorized prover"
  ensure (handBinding ≠ 0) "Zero binding"
  c.writeRegistration handBinding settlementDigest gAttestation actionLogDigest
    nReveal nLeave nRecon

def registerHandProved (handBinding settlementDigest gAttestation actionLogDigest
    pBatchCommitment pBatchLen nReveal nLeave nRecon : Felt) : Revert Chain := do
  ensure (c.settlement.provers tx.caller = true) "Caller not authorized prover"
  ensure (handBinding ≠ 0) "Zero binding"
  let c ← c.writeRegistration handBinding settlementDigest gAttestation actionLogDigest
    nReveal nLeave nRecon
  ensure (pBatchLen.1 < u32Bound) "batch len fits u32"
  let pBatchCommitments :=
    Function.update c.settlement.pBatchCommitments handBinding pBatchCommitment
  let pBatchLens := Function.update c.settlement.pBatchLens handBinding pBatchLen.1
  return { c with settlement := { c.settlement with pBatchCommitments, pBatchLens } }

def setProver (prover : ContractAddress) : Revert Chain := do
  c.assertOnlyOwner tx
  if prover ≠ 0 then
    let provers := Function.update c.settlement.provers prover true
    return { c with settlement := { c.settlement with provers } }
  else
    return c

def removeProver (prover : ContractAddress) : Revert Chain := do
  c.assertOnlyOwner tx
  let provers := Function.update c.settlement.provers prover false
  return { c with settlement := { c.settlement with provers } }

def setClaimHelper (claimHelper : ContractAddress) : Revert Chain := do
  c.assertOnlyOwner tx
  return { c with settlement := { c.settlement with claimHelper } }

def setCircuitProgramHash (circuitProgramHash : Felt) : Revert Chain := do
  c.assertOnlyOwner tx
  ensure (circuitProgramHash ≠ 0) "Zero program hash"
  return { c with settlement := { c.settlement with circuitProgramHash } }

def setVirtualSnosProgramHash (virtualSnosProgramHash : Felt) : Revert Chain := do
  c.assertOnlyOwner tx
  ensure (virtualSnosProgramHash ≠ 0) "Zero program hash"
  return { c with settlement := { c.settlement with virtualSnosProgramHash } }

def setHandVerifyProgramHash (handVerifyProgramHash : Felt) : Revert Chain := do
  c.assertOnlyOwner tx
  return { c with settlement := { c.settlement with handVerifyProgramHash } }

def registerSettlementFact (fact : Felt) : Revert Chain := do
  ensure (tx.caller = c.settlement.owner ∨ c.settlement.provers tx.caller = true)
    "Caller not authorized"
  ensure (fact ≠ 0) "Zero fact"
  let settlementFacts := Function.update c.settlement.settlementFacts fact true
  return { c with settlement := { c.settlement with settlementFacts } }

/-! ## Settling from plaintext -/

/-- The keys of the ownership bucket of a batch. -/
def ownershipKeys (pBatch : List Felt) (n : ℕ) : List Felt :=
  (List.range n).map fun i => slot pBatch (5 + 5 * i)

def verifyAndSettleDapvStark (handBinding : Felt) (handIdBytes : List (BitVec 8)) (handId : ℕ)
    (actionLogDigest : Felt) (players : List ContractAddress) (deltas : List ℤ)
    (pBatch : List Felt) : Revert Chain := do
  let _ ← c.dapvPrelude P handBinding handIdBytes handId actionLogDigest players deltas
  ensure (1 ≤ pBatch.length) "Empty batch"
  ensure ((slot pBatch 0).1 < u32Bound) "n_own fits u32"
  ensure ((slot pBatch 0).1 = players.length) "Every participant needs an endorsement"
  ensure (5 + 5 * players.length ≤ pBatch.length) "batch too short for ownership"
  ensure (ownershipKeys pBatch players.length).Nodup "Duplicate ownership pk"
  let expectedPacked := c.settlement.expectedPacked handBinding
  let headerPacked := packExpectedCounts (slot pBatch 2) (slot pBatch 3) (slot pBatch 4)
  ensure (expectedPacked = 0 ∨ headerPacked = expectedPacked)
    "Bucket counts != registered expectation"
  ensure (P.verifyHandBatchStark handBinding pBatch = true) "DAPV STARK batch rejected"
  assertZeroSum deltas
  let c ← c.applyDeltasThroughVault tx players deltas
  return c.markSettled handBinding

/-- The message a winner claims with. -/
def claimMessage (commitment handBinding : Felt) (amount : ℕ) : Felt :=
  P.poseidon [commitment, handBinding, natFelt (amount % u128Bound), natFelt (amount / u128Bound)]

/-- Publish the claim of a winner. -/
def writeClaim (handBinding : Felt) (seat amount : ℕ) (cm : Felt) : Chain :=
  let claimCms := Function.update c.settlement.claimCms (handBinding, seat) cm
  let claimAmounts := Function.update c.settlement.claimAmounts (handBinding, seat) amount
  let claimsConsumed := Function.update c.settlement.claimsConsumed (handBinding, seat) false
  { c with settlement := { c.settlement with claimCms, claimAmounts, claimsConsumed } }

/-- One player of a private settlement: a winner gets a claim, a loser is debited. -/
def settlePrivately (handBinding : Felt) (s : Chain × ℕ) (e : (ContractAddress × ℤ) × ℕ) :
    Revert (Chain × ℕ) := do
  let (c, totalWinnings) := s
  let ((player, delta), seat) := e
  if 0 < delta then
    ensure (delta.natAbs < u64Bound) "win fits u64"
    let commitment := c.custody.vault.payoutCommitments player
    ensure (commitment ≠ 0) "Payout commitment not registered"
    let cm := claimMessage P commitment handBinding delta.natAbs
    let totalWinnings ← u256Add totalWinnings delta.natAbs
    return (c.writeClaim handBinding seat delta.natAbs cm, totalWinnings)
  else if delta < 0 then
    let c ← c.callVault tx fun tx v => v.applySettlement tx player delta
    return (c, totalWinnings)
  else
    return (c, totalWinnings)

def verifyAndSettleDapvStarkPrivate (handBinding : Felt) (handIdBytes : List (BitVec 8))
    (handId : ℕ) (actionLogDigest : Felt) (players : List ContractAddress) (deltas : List ℤ)
    (pBatch : List Felt) : Revert Chain := do
  let _ ← c.dapvPrelude P handBinding handIdBytes handId actionLogDigest players deltas
  ensure (1 ≤ pBatch.length) "Empty batch"
  ensure ((slot pBatch 0).1 < u32Bound) "n_own fits u32"
  ensure ((slot pBatch 0).1 = players.length) "Every participant needs an endorsement"
  ensure (P.verifyHandBatchStark handBinding pBatch = true) "DAPV STARK batch rejected"
  assertZeroSum deltas
  let helper := c.settlement.claimHelper
  ensure (helper ≠ 0) "Claim helper not set"
  let (c, totalWinnings) ← (players.zip deltas).zipIdx.foldlM (settlePrivately P tx handBinding) (c, 0)
  ensure (0 < totalWinnings) "No winnings to escrow"
  let c ← c.callVault tx fun tx v => v.settlementFundEscrow tx helper handBinding totalWinnings
  return c.markSettled handBinding

/-! ## Settling from a proved segment -/

/-- Fund the escrow and publish the claims of a segment, which hide their amounts. -/
def payOutSegment (handBinding : Felt) (segment : List Felt) : Revert Chain := do
  ensure ((slot segment 13).1 < u128Bound) "total fits u128"
  let totalWinnings := (slot segment 13).1
  ensure (0 < totalWinnings) "No winnings to escrow"
  let helper := c.settlement.claimHelper
  ensure (helper ≠ 0) "Claim helper not set"
  let c ← c.callVault tx fun tx v => v.settlementFundEscrow tx helper handBinding totalWinnings
  let claimCms := fun key : Felt × ℕ =>
    if key.1 = handBinding ∧ key.2 < 8 then slot segment (5 + key.2) else c.settlement.claimCms key
  let amountsHidden := Function.update c.settlement.amountsHidden handBinding true
  return { c with settlement := { c.settlement with claimCms, amountsHidden } }.markSettled handBinding

/-- The registered fact of a segment. -/
def assertSettlementFact (segment : List Felt) : Revert Unit := do
  ensure (c.settlement.circuitProgramHash ≠ 0) "Circuit program hash not set"
  ensure (c.settlement.settlementFacts
    (factForSegment P c.settlement.circuitProgramHash segment) = true)
    "Settlement fact not registered"

def verifyAndSettleDapvProvedPrivate (handBinding : Felt) (handId : ℕ) (segment : List Felt)
    (pBatchCommitment : Felt) (pBatchLen : ℕ) : Revert Chain := do
  ensure (handBinding ≠ 0) "Zero binding"
  ensure (c.settlement.settledBindings handBinding = false) "Hand already settled"
  let _ ← c.validateSettlementSegment handBinding handId segment
  ensure (c.settlement.pBatchCommitments handBinding ≠ 0) "p_batch commitment not registered"
  ensure (pBatchCommitment = c.settlement.pBatchCommitments handBinding)
    "p_batch commitment mismatch"
  ensure (pBatchLen = c.settlement.pBatchLens handBinding) "p_batch length mismatch"
  ensure (c.settlement.handVerifyProgramHash ≠ 0) "Hand verify program hash not set"
  ensure (c.settlement.settlementFacts
    (P.poseidon [c.settlement.handVerifyProgramHash, pBatchCommitment]) = true)
    "Hand verify fact not registered"
  c.assertSettlementFact P segment
  c.payOutSegment tx handBinding segment

/-- The transaction carries a proof of this very segment. -/
def viaSnip36 (segment : List Felt) : Bool :=
  9 ≤ tx.proofFacts.length && slot tx.proofFacts 1 = virtualSnosVariant &&
    slot tx.proofFacts 2 = c.settlement.virtualSnosProgramHash &&
    slot tx.proofFacts 8 = snip36MessageHash P c.settlementAddress segment

def verifyAndSettleDapvStarkPrivateV3 (handBinding : Felt) (handId : ℕ) (segment : List Felt) :
    Revert Chain := do
  ensure (c.settlement.settledBindings handBinding = false) "Hand already settled"
  let _ ← c.validateSettlementSegment handBinding handId segment
  ensure (c.settlement.virtualSnosProgramHash ≠ 0) "Virtual SNOS program hash not set"
  if c.viaSnip36 P tx segment then pure () else c.assertSettlementFact P segment
  c.payOutSegment tx handBinding segment

def verifyAndSettleDapvStarkPrivateV2 (handBinding : Felt) (handId : ℕ) (segment : List Felt) :
    Revert Chain := do
  ensure (handBinding ≠ 0) "Zero binding"
  ensure (c.settlement.settledBindings handBinding = false) "Hand already settled"
  let _ ← c.validateSettlementSegment handBinding handId segment
  c.assertSettlementFact P segment
  c.payOutSegment tx handBinding segment

/-! ## Claims -/

def consumeClaim (handBinding : Felt) (seat amount : ℕ) : Revert Chain := do
  ensure (tx.caller = c.settlement.claimHelper) "Only claim helper"
  ensure (c.settlement.claimAmounts (handBinding, seat) = amount) "Claim amount mismatch"
  ensure (c.settlement.claimsConsumed (handBinding, seat) = false) "Claim already consumed"
  let claimsConsumed := Function.update c.settlement.claimsConsumed (handBinding, seat) true
  return { c with settlement := { c.settlement with claimsConsumed } }

end Chain

end TexasPoker.Contracts
