import TexasPoker.Contracts.Statement
import TexasPoker.Contracts.VaultRuns

/-! # The aggregate settlement contract

Provers register the digests of consecutive hands under an aggregate, above every hand
registered before, and settle each hand against its digest. A call that reverts leaves no
trace.
-/

namespace TexasPoker.Contracts

open Fallible

/-- A registered range of hands with the state roots around it; all zero when there is none. -/
structure Aggregate where
  firstHandId : ℕ
  lastHandId : ℕ
  preStateRoot : Felt × Felt
  postStateRoot : Felt × Felt
  deriving DecidableEq

def Aggregate.unregistered : Aggregate := ⟨0, 0, (0, 0), (0, 0)⟩

/-- The storage of the aggregate settlement contract. -/
structure PokerSettlement where
  owner : ContractAddress
  provers : ContractAddress → Bool
  aggregates : Felt × Felt → Aggregate
  settlementDigests : ℕ → Felt
  settledHands : ℕ → Bool
  lastHandId : ℕ

def PokerSettlement.constructor (owner initialProver : ContractAddress) : PokerSettlement where
  owner
  provers := fun a => a = initialProver && initialProver ≠ 0
  aggregates := fun _ => .unregistered
  settlementDigests := fun _ => 0
  settledHands := fun _ => false
  lastHandId := 0

/-- The aggregate settlement contract beside the vault it moves chips in. -/
structure Registrar where
  custody : Custody
  address : ContractAddress
  settlement : PokerSettlement

/-- Write one digest for each hand from `handId` to `lastHandId`. -/
def writeRoots (lastHandId : ℕ) :
    List Felt → ℕ → (ℕ → Felt) → Revert (ℕ → Felt)
  | [], _, _ => .error "Index out of bounds"
  | root :: roots, handId, digests => do
    let digests := Function.update digests handId root
    if handId = lastHandId then return digests
    else do
      let handId ← u64Add handId 1
      writeRoots lastHandId roots handId digests

namespace Registrar

variable (P : Primitives) (tx : Tx) (c : Registrar)

def registerAggregate (aggregateDigest : Felt × Felt) (firstHandId lastHandId : ℕ)
    (preStateRoot postStateRoot : Felt × Felt) (settlementRoots : List Felt) :
    Revert Registrar := do
  ensure (c.settlement.provers tx.caller = true) "Caller not authorized prover"
  ensure (aggregateDigest.1 ≠ 0 ∨ aggregateDigest.2 ≠ 0) "Zero digest"
  let existing := c.settlement.aggregates aggregateDigest
  ensure (existing.firstHandId = 0 ∧ existing.lastHandId = 0) "Digest already registered"
  ensure (firstHandId ≤ lastHandId) "Invalid hand range"
  let count ← u64Add (lastHandId - firstHandId) 1
  ensure (count < u32Bound) "hand count fits u32"
  ensure (settlementRoots.length = count) "Settlement roots count mismatch"
  ensure (c.settlement.lastHandId < firstHandId) "Hand range overlaps past"
  let aggregates := Function.update c.settlement.aggregates aggregateDigest
    ⟨firstHandId, lastHandId, preStateRoot, postStateRoot⟩
  let settlementDigests ←
    writeRoots lastHandId settlementRoots firstHandId c.settlement.settlementDigests
  return { c with settlement := { c.settlement with aggregates, settlementDigests, lastHandId } }

/-- Move one player's net result in the vault. -/
def applySettlement (player : ContractAddress) (delta : ℤ) : Revert Registrar := do
  let custody ← c.custody.applySettlement { tx with caller := c.address } player delta
  return { c with custody }

def settleHand (aggregateDigest : Felt × Felt) (handId : ℕ) (actionLogDigest : Felt)
    (players : List ContractAddress) (deltas : List ℤ) : Revert Registrar := do
  ensure (c.settlement.provers tx.caller = true) "Caller not authorized prover"
  ensure (players.length = deltas.length) "Players/deltas length mismatch"
  ensure (0 < players.length) "No participants"
  ensure (players.length < 10) "Too many participants"
  ensure (c.settlement.settledHands handId = false) "Hand already settled"
  let aggregate := c.settlement.aggregates aggregateDigest
  ensure (aggregate.firstHandId ≠ 0) "Aggregate not registered"
  ensure (aggregate.firstHandId ≤ handId ∧ handId ≤ aggregate.lastHandId) "Hand outside range"
  let computed ← computeSettlementDigest P handId actionLogDigest players deltas
  ensure (computed = c.settlement.settlementDigests handId) "Settlement digest mismatch"
  ensure (deltas.sum = 0) "Settlement not zero-sum"
  let c ← (players.zip deltas).foldlM (fun c e => c.applySettlement tx e.1 e.2) c
  let settledHands := Function.update c.settlement.settledHands handId true
  return { c with settlement := { c.settlement with settledHands } }

def setProver (prover : ContractAddress) : Revert Registrar := do
  ensure (tx.caller = c.settlement.owner) "Caller is not the owner"
  if prover ≠ 0 then
    let provers := Function.update c.settlement.provers prover true
    return { c with settlement := { c.settlement with provers } }
  else
    return c

def removeProver (prover : ContractAddress) : Revert Registrar := do
  ensure (tx.caller = c.settlement.owner) "Caller is not the owner"
  let provers := Function.update c.settlement.provers prover false
  return { c with settlement := { c.settlement with provers } }

end Registrar

/-- An entry of the contract, or of the vault beside it, with its arguments. -/
inductive RegistrarCall where
  | vault (call : VaultCall)
  | registerAggregate (aggregateDigest : Felt × Felt) (firstHandId lastHandId : ℕ)
      (preStateRoot postStateRoot : Felt × Felt) (settlementRoots : List Felt)
  | settleHand (aggregateDigest : Felt × Felt) (handId : ℕ) (actionLogDigest : Felt)
      (players : List ContractAddress) (deltas : List ℤ)
  | setProver (prover : ContractAddress)
  | removeProver (prover : ContractAddress)
  deriving DecidableEq

namespace Registrar

variable (P : Primitives) (c : Registrar)

/-- Make a call. -/
def run (tx : Tx) : RegistrarCall → Revert Registrar
  | .vault call => do
    let custody ← c.custody.run tx call
    return { c with custody }
  | .registerAggregate aggregateDigest firstHandId lastHandId preStateRoot postStateRoot
      settlementRoots =>
    c.registerAggregate tx aggregateDigest firstHandId lastHandId preStateRoot postStateRoot
      settlementRoots
  | .settleHand aggregateDigest handId actionLogDigest players deltas =>
    c.settleHand P tx aggregateDigest handId actionLogDigest players deltas
  | .setProver prover => c.setProver tx prover
  | .removeProver prover => c.removeProver tx prover

/-- The state after a call, accepted or reverted. -/
def attempt (l : Tx × RegistrarCall) : Registrar :=
  match c.run P l.1 l.2 with
  | .ok c' => c'
  | .error _ => c

/-- Calls by anybody, accepted or reverted, from a deployment beside any vault. -/
def system : TransitionSystem Registrar (Tx × RegistrarCall) where
  init c := ∃ custody address owner prover, c = ⟨custody, address, .constructor owner prover⟩
  next c l c' := c' = c.attempt P l

end Registrar

end TexasPoker.Contracts
