import TexasPoker.Contracts.Solvency

/-! # Claims

The helper that holds the escrow pays a claim to the pool when a secret is shown. The secret
alone is hashed on one side of the check, and the claim with its note on the other.
-/

namespace TexasPoker.Contracts

open Fallible

/-- The claim helper, deployed with the vault and the settlement contract of the chain. -/
structure SettlementPayoutAnonymizer where
  address : ContractAddress
  pool : ContractAddress

/-- The note that the pool opens for a claim. -/
structure OpenNoteDeposit where
  noteId : Felt
  token : ContractAddress
  amount : ℕ

/-- The winnings of a seat, for the player who knows the secret. -/
structure Claim where
  player : ContractAddress
  handBinding : Felt
  seat : ℕ
  amount : ℕ
  secret : Felt

namespace Chain

variable (P : Primitives) (a : SettlementPayoutAnonymizer)

def privacyClaim (tx : Tx) (c : Chain) (claim : Claim) (noteId : Felt) :
    Revert (Chain × OpenNoteDeposit) := do
  ensure (tx.caller = a.pool) "caller is not the pool"
  ensure (claim.player ≠ 0) "player required"
  ensure (0 < claim.amount) "amount must be > 0"
  ensure (noteId ≠ 0) "note id required"
  let commitment := c.custody.vault.payoutCommitments claim.player
  ensure (commitment ≠ 0) "payout commitment not registered"
  let cm := c.settlement.claimCms (claim.handBinding, claim.seat)
  ensure (cm = claimMessage P commitment claim.handBinding claim.amount) "claim commitment mismatch"
  -- a hand settled from a segment keeps no plaintext amounts
  ensure (c.settlement.amountsHidden claim.handBinding = true ∨
    c.settlement.claimAmounts (claim.handBinding, claim.seat) = claim.amount) "claim amount mismatch"
  ensure (P.poseidon [claim.secret] = P.poseidon [cm, noteId]) "invalid claim secret"
  let c ← c.consumeClaim { tx with caller := a.address } claim.handBinding claim.seat claim.amount
  ensure (claim.amount / u128Bound = 0) "amount overflows u128"
  let token := c.custody.token.approve a.address a.pool claim.amount
  return ({ c with custody := { c.custody with token } },
    ⟨noteId, c.custody.vault.tokenAddress, claim.amount % u128Bound⟩)

/-- The calls of the chain, and the claims. -/
inductive PayoutCall where
  | chain (call : ChainCall)
  | privacyClaim (claim : Claim) (noteId : Felt)

/-- Calls and claims in any order. -/
def payouts : TransitionSystem Chain (Tx × PayoutCall) where
  init := (system P).init
  next c l c' := match l with
    | (tx, .chain call) => (system P).next c (tx, call) c'
    | (tx, .privacyClaim claim noteId) => ∃ note, privacyClaim P a tx c claim noteId = .ok (c', note)

/-- The calls and claims after a state. -/
def payoutsFrom (c : Chain) : TransitionSystem Chain (Tx × PayoutCall) where
  init := (· = c)
  next := (payouts P a).next

/-- The claim was paid, or taken by another helper. -/
def Consumed (c : Chain) (claim : Claim) : Prop :=
  c.settlement.claimsConsumed (claim.handBinding, claim.seat) = true

/-- A settled hand published the claim for a winner who had registered the hash of the secret. -/
structure Escrowed (c : Chain) (claim : Claim) : Prop where
  settled : c.settlement.settledBindings claim.handBinding = true
  registered : c.custody.vault.payoutCommitments claim.player = P.poseidon [claim.secret]
  published : c.settlement.claimCms (claim.handBinding, claim.seat) =
    claimMessage P (P.poseidon [claim.secret]) claim.handBinding claim.amount
  won : 0 < claim.amount

/-- The steps of a run of calls and claims. -/
abbrev PayoutStep := TransitionSystem.Step Chain (Tx × PayoutCall)

/-- What one step pays for a seat of a hand: the steps of a run are those that did not revert. -/
def paidBy (claim : Claim) (step : PayoutStep) : ℕ :=
  match step.label.2 with
  | .privacyClaim other _ =>
    if other.handBinding = claim.handBinding ∧ other.seat = claim.seat then other.amount else 0
  | .chain _ => 0

/-- What the escrow has paid for a seat of a hand over a run. -/
def paidFor (claim : Claim) (steps : List PayoutStep) : ℕ := (steps.map (paidBy claim)).sum

/-- The owner of the secret, and nobody else, is paid once, and what is paid is what was funded;
`past` is the run so far. -/
structure ClaimableOnce (past : List PayoutStep) (c : Chain) (claim : Claim) : Prop where
  payable : ¬ c.Consumed claim → ∀ (tx : Tx) (noteId : Felt), tx.caller = a.pool → noteId ≠ 0 →
    ∃ r, privacyClaim P a tx c claim noteId = .ok r
  /-- Whoever is paid shows a preimage of the registered commitment. -/
  owned : ∀ (tx : Tx) (other : Claim) (noteId : Felt) r, other.handBinding = claim.handBinding →
    other.seat = claim.seat → privacyClaim P a tx c other noteId = .ok r →
      P.poseidon [other.secret] = c.custody.vault.payoutCommitments claim.player
  /-- After one payment every further claim of the seat reverts. -/
  once : ∀ (tx : Tx) (other : Claim) (noteId : Felt) c' note, other.handBinding = claim.handBinding →
    other.seat = claim.seat → privacyClaim P a tx c other noteId = .ok (c', note) →
      ∀ c'', (payoutsFrom P a c').Reachable c'' → ∀ (tx : Tx) (again : Claim) (noteId : Felt),
        again.handBinding = claim.handBinding → again.seat = claim.seat →
          ∃ e, privacyClaim P a tx c'' again noteId = .error e
  /-- No order of further calls and claims brings the escrow to pay more than the funded amount. -/
  covered : ∀ future c', (payouts P a).Run c future c' →
    paidFor claim (past ++ future) ≤ claim.amount
  /-- Some order brings it to pay the funded amount. -/
  exhausted : ∃ future c', (payouts P a).Run c future c' ∧
    paidFor claim (past ++ future) = claim.amount

variable {P a} {c₀ c c' : Chain} {past : List PayoutStep} {tx : Tx} {claim : Claim} {noteId : Felt}

/-- No list of one element collides with a list of two. -/
def SeparatesLengths (P : Primitives) : Prop :=
  ∀ secret cm noteId : Felt, P.poseidon [secret] ≠ P.poseidon [cm, noteId]

/-- The check of the secret compares hashes of lists of different lengths. -/
theorem privacyClaim_ne_ok (hP : SeparatesLengths P) (r : Chain × OpenNoteDeposit) :
    privacyClaim P a tx c claim noteId ≠ .ok r := by
  intro h
  simp only [privacyClaim, bind_eq_ok, ensure_eq_ok] at h
  obtain ⟨-, -, -, -, -, -, -, -, -, -, -, -, -, -, -, hsecret, -⟩ := h
  exact hP _ _ _ hsecret

/-- No run of calls and claims ever pays a claim. -/
theorem paidFor_of_run (hP : SeparatesLengths P) (h : (payouts P a).Run c past c') :
    paidFor claim past = 0 := by
  induction h with
  | nil => rfl
  | @snoc steps s' s'' l _ hn ih =>
    have hstep : paidBy claim ⟨s', l, s''⟩ = 0 := by
      obtain ⟨tx, call | ⟨other, noteId⟩⟩ := l
      · rfl
      · obtain ⟨note, hn⟩ := hn
        exact absurd hn (privacyClaim_ne_ok hP _)
    rw [paidFor, List.map_append, List.sum_append, ← paidFor, ih]
    simp [hstep]

/-- Whatever has happened, escrowed winnings are not claimable: the funded amount is never paid. -/
theorem not_claimableOnce (hP : SeparatesLengths P) (hrun : (payouts P a).Run c₀ past c)
    (he : c.Escrowed P claim) : ¬ c.ClaimableOnce P a past claim := by
  intro h
  obtain ⟨future, c', hfuture, hpaid⟩ := h.exhausted
  have hzero : paidFor claim (past ++ future) = 0 := paidFor_of_run hP (hrun.append hfuture)
  have hwon := he.won
  omega

theorem toyPrimitives_poseidon_mod (l : List Felt) :
    (toyPrimitives.poseidon l).1 % 2 = l.length % 2 := by
  have hmix : mix l < 2 ^ 128 := Nat.mod_lt _ (Nat.two_pow_pos 128)
  have hlen : l.length % 2 < 2 := Nat.mod_lt _ Nat.two_pos
  have hp : 2 * 2 ^ 128 ≤ feltPrime := by decide
  have hval : (toyPrimitives.poseidon l).1 = (2 * mix l + l.length % 2) % feltPrime :=
    natFelt_val _
  rw [hval, Nat.mod_eq_of_lt (a := 2 * mix l + l.length % 2) (by omega)]
  omega

theorem separatesLengths_toyPrimitives : SeparatesLengths toyPrimitives := by
  intro secret cm noteId h
  have h₁ := toyPrimitives_poseidon_mod [secret]
  have h₂ := toyPrimitives_poseidon_mod [cm, noteId]
  rw [h, h₂] at h₁
  exact absurd h₁ (by simp)

/-- The helper at address eight, for the pool at address twelve. -/
def payoutAnonymizer : SettlementPayoutAnonymizer := ⟨8, 12⟩

/-- The winner's claim of a thousand, with secret forty-two. -/
def winnersClaim : Claim := ⟨9, 77, 0, 1000, 42⟩

/-- The hand of `registeredHand` is settled privately, for a winner with a registered secret. -/
def privateRun : List (Tx × ChainCall) :=
  registeredHand ++
    [sentBy 9 (.vault (.registerPayoutCommitment (toyPrimitives.poseidon [42]))),
      sentBy 5 (.setClaimHelper 8),
      sentBy 9 (.verifyAndSettleDapvStarkPrivate 77 [77] 1 11 [9, 10] [1000, -1000] [2])]

theorem payouts_of_system (h : (system P).Reachable c) : (payouts P a).Reachable c := by
  induction h with
  | init hi => exact .init hi
  | next l _ hn ih => exact .next (l.1, .chain l.2) ih hn

theorem payouts_submitAll {calls : List (Tx × ChainCall)}
    (h : deployed.submitAll P calls = .ok c) : (payouts P a).Reachable c :=
  payouts_of_system (reachable_submitAll h (.init (deployed_init (P := P))))

/-- What the chain stores once the hand is settled. -/
theorem privateRun_escrows : ∃ c, deployed.submitAll toyPrimitives privateRun = .ok c ∧
    c.Escrowed toyPrimitives winnersClaim ∧ ¬ c.Consumed winnersClaim ∧
    privacyClaim toyPrimitives payoutAnonymizer ⟨12, 0, []⟩ c winnersClaim 5 =
      .error "invalid claim secret" := by
  have hrun : holds (deployed.submitAll toyPrimitives privateRun) (fun c =>
      c.settlement.settledBindings 77 = true ∧
      c.custody.vault.payoutCommitments 9 = toyPrimitives.poseidon [42] ∧
      c.settlement.claimCms (77, 0) =
        claimMessage toyPrimitives (toyPrimitives.poseidon [42]) 77 1000 ∧
      c.settlement.claimsConsumed (77, 0) = false ∧
      failure (privacyClaim toyPrimitives payoutAnonymizer ⟨12, 0, []⟩ c winnersClaim 5) =
        some "invalid claim secret") = true := by
    decide +kernel
  obtain ⟨c, hc, hp⟩ := holds_iff.mp hrun
  obtain ⟨hset, hreg, hpub, hcons, hfail⟩ := of_decide_eq_true hp
  refine ⟨c, hc, ⟨hset, hreg, hpub, by decide⟩, fun h => ?_, failure_eq_some.mp hfail⟩
  exact absurd (hcons.symm.trans h) (by decide)

/-- The winner shows the right secret, and the claim reverts. -/
theorem right_secret_refused : ∃ c₀ past c, (payouts toyPrimitives payoutAnonymizer).init c₀ ∧
    (payouts toyPrimitives payoutAnonymizer).Run c₀ past c ∧
    c.Escrowed toyPrimitives winnersClaim ∧ ¬ c.Consumed winnersClaim ∧
    privacyClaim toyPrimitives payoutAnonymizer ⟨12, 0, []⟩ c winnersClaim 5 =
      .error "invalid claim secret" ∧
    ¬ c.ClaimableOnce toyPrimitives payoutAnonymizer past winnersClaim := by
  obtain ⟨c, hc, he, hn, herr⟩ := privateRun_escrows
  obtain ⟨c₀, past, hi, hr⟩ := (payouts_submitAll (a := payoutAnonymizer) hc).exists_run
  refine ⟨c₀, past, c, hi, hr, he, hn, herr, fun h => ?_⟩
  obtain ⟨r, hr⟩ := h.payable hn ⟨12, 0, []⟩ 5 rfl (by decide)
  rw [herr] at hr
  cases hr

/-- Another helper takes the claim, and the escrow is left with the first one. -/
def takenRun : List (Tx × ChainCall) :=
  privateRun ++ [sentBy 5 (.setClaimHelper 13), sentBy 13 (.consumeClaim 77 0 1000)]

theorem taken_claim_not_claimable : ∃ c₀ past c,
    (payouts toyPrimitives payoutAnonymizer).Run c₀ past c ∧ c.Consumed winnersClaim ∧
      ¬ c.ClaimableOnce toyPrimitives payoutAnonymizer past winnersClaim := by
  have hrun : holds (deployed.submitAll toyPrimitives takenRun) (fun c =>
      c.settlement.settledBindings 77 = true ∧
      c.custody.vault.payoutCommitments 9 = toyPrimitives.poseidon [42] ∧
      c.settlement.claimCms (77, 0) =
        claimMessage toyPrimitives (toyPrimitives.poseidon [42]) 77 1000 ∧
      c.settlement.claimsConsumed (77, 0) = true) = true := by
    decide +kernel
  obtain ⟨c, hc, hp⟩ := holds_iff.mp hrun
  obtain ⟨hset, hreg, hpub, hcons⟩ := of_decide_eq_true hp
  obtain ⟨c₀, past, -, hr⟩ := (payouts_submitAll (a := payoutAnonymizer) hc).exists_run
  exact ⟨c₀, past, c, hr, hcons,
    not_claimableOnce separatesLengths_toyPrimitives hr ⟨hset, hreg, hpub, by decide⟩⟩

end Chain

end TexasPoker.Contracts
