import TexasPoker.Contracts.Solvency
import TexasPoker.HandBatch.HandBatchStark

/-! # The two entries that settle from a batch

The linear entry checks a batch and moves the deltas. The private one checks less: it takes
repeated keys and batches without their registered buckets.
-/

namespace TexasPoker.Contracts

open Fallible HandBatch

/-- The contract beside the verifier of the chain. -/
def Primitives.onCurve {G : Type} [AddCommGroup G] [DecidableEq G] (C : StarkCurve G)
    (hash : List Felt → Felt) : Primitives where
  poseidon := hash
  verifyHandBatchStark handBinding pBatch :=
    decide (HandBatch.verifyHandBatchStark C hash handBinding pBatch = .ok true)

namespace Chain

variable (P : Primitives) (tx : Tx) (c : Chain) (handBinding : Felt)
  (handIdBytes : List (BitVec 8)) (handId : ℕ) (actionLogDigest : Felt)
  (players : List ContractAddress) (deltas : List ℤ) (pBatch : List Felt)

/-- What both entries check. -/
def batchChecks : Revert Unit := do
  let _ ← c.dapvPrelude P handBinding handIdBytes handId actionLogDigest players deltas
  ensure (1 ≤ pBatch.length) "Empty batch"
  ensure ((slot pBatch 0).1 < u32Bound) "n_own fits u32"
  ensure ((slot pBatch 0).1 = players.length) "Every participant needs an endorsement"

/-- The checks of the linear entry. -/
def starkChecks : Revert Unit := do
  c.batchChecks P handBinding handIdBytes handId actionLogDigest players deltas pBatch
  ensure (5 + 5 * players.length ≤ pBatch.length) "batch too short for ownership"
  ensure (ownershipKeys pBatch players.length).Nodup "Duplicate ownership pk"
  let expectedPacked := c.settlement.expectedPacked handBinding
  let headerPacked := packExpectedCounts (slot pBatch 2) (slot pBatch 3) (slot pBatch 4)
  ensure (expectedPacked = 0 ∨ headerPacked = expectedPacked)
    "Bucket counts != registered expectation"
  ensure (P.verifyHandBatchStark handBinding pBatch = true) "DAPV STARK batch rejected"
  assertZeroSum deltas

/-- Every player endorsed under an own key, and the batch has the buckets that were registered
for it. -/
structure Endorsed : Prop where
  distinct : (ownershipKeys pBatch players.length).Nodup
  expected : c.settlement.expectedPacked handBinding = 0 ∨
    packExpectedCounts (slot pBatch 2) (slot pBatch 3) (slot pBatch 4) =
      c.settlement.expectedPacked handBinding

variable {P tx c handBinding handIdBytes handId actionLogDigest players deltas pBatch}

/-- The linear entry makes its checks, then moves the deltas. -/
theorem verifyAndSettleDapvStark_eq :
    c.verifyAndSettleDapvStark P tx handBinding handIdBytes handId actionLogDigest players deltas
      pBatch = (do
        c.starkChecks P handBinding handIdBytes handId actionLogDigest players deltas pBatch
        let c ← c.applyDeltasThroughVault tx players deltas
        return c.markSettled handBinding) := by
  simp only [verifyAndSettleDapvStark, starkChecks, batchChecks, bind_assoc]

theorem starkChecks_eq_ok :
    c.starkChecks P handBinding handIdBytes handId actionLogDigest players deltas pBatch = .ok () ↔
      c.batchChecks P handBinding handIdBytes handId actionLogDigest players deltas pBatch = .ok () ∧
      5 + 5 * players.length ≤ pBatch.length ∧ c.Endorsed handBinding players pBatch ∧
      P.verifyHandBatchStark handBinding pBatch = true ∧ deltas.sum = 0 := by
  simp only [starkChecks, assertZeroSum, bind_eq_ok, ensure_eq_ok]
  constructor
  · rintro ⟨_, hb, _, hlen, _, hdup, _, hexp, _, hv, hsum⟩
    exact ⟨hb, hlen, ⟨hdup, hexp⟩, hv, hsum⟩
  · rintro ⟨hb, hlen, ⟨hdup, hexp⟩, hv, hsum⟩
    exact ⟨(), hb, (), hlen, (), hdup, (), hexp, (), hv, hsum⟩

/-- What the private entry checks of a batch it accepts. -/
theorem checks_of_private {c' : Chain}
    (h : c.verifyAndSettleDapvStarkPrivate P tx handBinding handIdBytes handId actionLogDigest
      players deltas pBatch = .ok c') :
    c.batchChecks P handBinding handIdBytes handId actionLogDigest players deltas pBatch = .ok () ∧
      (slot pBatch 0).1 = players.length ∧ P.verifyHandBatchStark handBinding pBatch = true ∧
      deltas.sum = 0 := by
  simp only [verifyAndSettleDapvStarkPrivate, assertZeroSum, bind_eq_ok, ensure_eq_ok] at h
  obtain ⟨digest, hp, _, hne, _, hfit, _, hown, _, hv, _, hsum, -⟩ := h
  refine ⟨?_, hown, hv, hsum⟩
  simp only [batchChecks, bind_eq_ok, ensure_eq_ok]
  exact ⟨digest, hp, (), hne, (), hfit, hown⟩

/-- The linear entry's checks pass on a batch that the private entry accepted exactly when every
player endorsed under an own key and the registered buckets are there. -/
theorem starkChecks_of_private_iff {G : Type} [AddCommGroup G] [DecidableEq G] (C : StarkCurve G)
    (hash : List Felt → Felt) (tx : Tx) (c c' : Chain) (handBinding : Felt)
    (handIdBytes : List (BitVec 8)) (handId : ℕ) (actionLogDigest : Felt)
    (players : List ContractAddress) (deltas : List ℤ) (pBatch : List Felt)
    (h : c.verifyAndSettleDapvStarkPrivate (.onCurve C hash) tx handBinding handIdBytes handId
      actionLogDigest players deltas pBatch = .ok c') :
    c.starkChecks (.onCurve C hash) handBinding handIdBytes handId actionLogDigest players deltas
      pBatch = .ok () ↔ c.Endorsed handBinding players pBatch := by
  obtain ⟨hchecks, hown, hverify, hsum⟩ := checks_of_private h
  have hlen : 5 + 5 * players.length ≤ pBatch.length :=
    hown ▸ ownership_fits (of_decide_eq_true hverify)
  rw [starkChecks_eq_ok]
  constructor
  · rintro ⟨-, -, he, -, -⟩
    exact he
  · intro he
    exact ⟨hchecks, hlen, he, hverify, hsum⟩

/-! ## Runs on fixed inputs -/

/-- A small hash, beside the verifier over a small curve. -/
def curvePrimitives : Primitives := .onCurve smallCurve fun l => natFelt (mix l % 5)

/-- Both buy in, the winner registers a secret, and the hand is registered with a number of
reveals. -/
def countedHand (nReveal : Felt) : List (Tx × ChainCall) :=
  [sentBy 9 (.vault (.deposit 1000)), sentBy 10 (.vault (.deposit 1000)),
    sentBy 9 (.vault (.registerPayoutCommitment 42)), sentBy 5 (.setClaimHelper 8),
    sentBy 6 (.registerHand 77 ((computeSettlementDigest curvePrimitives 1 11 [9, 10]
      [1000, -1000]).toOption.getD 0) 0 11 nReveal 0 0)]

/-- Both endorse. -/
def endorsedBatch : List Felt := [2, 0, 0, 0, 0, 1, 0, 1, 0, 0, 2, 0, 1, 0, 3]

/-- One player endorses twice. -/
def paddedBatch : List Felt := [2, 0, 0, 0, 0, 1, 0, 1, 0, 0, 1, 0, 1, 0, 0]

/-- Settle the hand privately from a batch. -/
def settledPrivately (c : Chain) (pBatch : List Felt) : Revert Chain :=
  c.verifyAndSettleDapvStarkPrivate curvePrimitives ⟨9, 0, []⟩ 77 [77] 1 11 [9, 10] [1000, -1000]
    pBatch

/-- What the linear entry says to the same batch. -/
def checkedPublicly (c : Chain) (pBatch : List Felt) : Revert Unit :=
  c.starkChecks curvePrimitives 77 [77] 1 11 [9, 10] [1000, -1000] pBatch

/-- The private entry accepts a repeated key and a batch without its registered reveal. -/
theorem private_accepts_refused :
    (∃ c c', deployed.submitAll curvePrimitives (countedHand 0) = .ok c ∧
      settledPrivately c paddedBatch = .ok c' ∧
      checkedPublicly c paddedBatch = .error "Duplicate ownership pk") ∧
    ∃ c c', deployed.submitAll curvePrimitives (countedHand 1) = .ok c ∧
      settledPrivately c endorsedBatch = .ok c' ∧
      checkedPublicly c endorsedBatch = .error "Bucket counts != registered expectation" := by
  have hpadded : holds (deployed.submitAll curvePrimitives (countedHand 0)) (fun c =>
      (settledPrivately c paddedBatch).isOk ∧
      failure (checkedPublicly c paddedBatch) = some "Duplicate ownership pk") = true := by
    decide +kernel
  have hdropped : holds (deployed.submitAll curvePrimitives (countedHand 1)) (fun c =>
      (settledPrivately c endorsedBatch).isOk ∧
      failure (checkedPublicly c endorsedBatch) =
        some "Bucket counts != registered expectation") = true := by
    decide +kernel
  constructor
  · obtain ⟨c, hc, hp⟩ := holds_iff.mp hpadded
    obtain ⟨hok, hfail⟩ := of_decide_eq_true hp
    obtain ⟨c', hc'⟩ := isOk_iff.mp hok
    exact ⟨c, c', hc, hc', failure_eq_some.mp hfail⟩
  · obtain ⟨c, hc, hp⟩ := holds_iff.mp hdropped
    obtain ⟨hok, hfail⟩ := of_decide_eq_true hp
    obtain ⟨c', hc'⟩ := isOk_iff.mp hok
    exact ⟨c, c', hc, hc', failure_eq_some.mp hfail⟩

theorem endorsed_batch_checked :
    ∃ c c', deployed.submitAll curvePrimitives (countedHand 0) = .ok c ∧
      settledPrivately c endorsedBatch = .ok c' ∧ checkedPublicly c endorsedBatch = .ok () := by
  have hrun : holds (deployed.submitAll curvePrimitives (countedHand 0)) (fun c =>
      (settledPrivately c endorsedBatch).isOk ∧ c.settlement.expectedPacked 77 = 0) = true := by
    decide +kernel
  obtain ⟨c, hc, hp⟩ := holds_iff.mp hrun
  obtain ⟨hok, hexp⟩ := of_decide_eq_true hp
  obtain ⟨c', hc'⟩ := isOk_iff.mp hok
  have hkeys : (ownershipKeys endorsedBatch 2).Nodup := by decide
  exact ⟨c, c', hc, hc', (starkChecks_of_private_iff _ _ _ _ _ _ _ _ _ _ _ _ hc').mpr
    ⟨hkeys, .inl hexp⟩⟩

end Chain

end TexasPoker.Contracts
