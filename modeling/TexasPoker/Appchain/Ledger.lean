import TexasPoker.Hooks.SettlementDriver
import TexasPoker.Lib.Effects

/-! # The appchain

The operations that the server submits to the appchain, and what it calls of the appchain's
sequencer, proving pipeline and keys.
-/

namespace TexasPoker.Appchain

open Hooks

/-! ## Operations -/

inductive AssetClass where
  | real
  | play
  deriving DecidableEq

/-- A note of the ledger. The server does not read the rest of it. -/
structure Note where
  assetClass : AssetClass
  amount : ℕ
  owner : ℕ
  tableId : Option ℕ
  rest : ℕ
  deriving DecidableEq

/-- A note with the operation that made it. -/
structure NoteEntry where
  note : Note
  createdAtOp : ℕ

/-- A note to be made. -/
structure NoteSpec where
  assetClass : AssetClass
  amount : ℕ
  owner : ℕ
  tableId : Option ℕ
  potIndex : ℕ
  runoutIndex : ℕ

structure FeeSplit where
  treasuryBps : ℕ
  treasury : ℕ
  operator : ℕ

/-- The fixed rake of a table. -/
structure FeePolicy where
  rateBps : ℕ
  cap : ℕ
  split : FeeSplit

/-- The permission of an owner to spend a note. -/
structure SpendAuth where
  commitment : ℕ
  nullifier : ℕ
  sig : ℕ

/-- The permission before it is signed. -/
def SpendAuth.placeholder : SpendAuth := ⟨0, 0, 0⟩

structure SettleInput where
  note : Note
  spend : SpendAuth

/-- What the seats win of one pot on one board. -/
structure Runout where
  awards : List ℕ

structure PlanPot where
  potIndex : ℕ
  isContested : Bool
  runouts : List Runout

/-- What the settlement core derives from a table. -/
structure SettlementPlan where
  grossPot : ℕ
  rake : ℕ
  runoutCount : ℕ
  pots : List PlanPot

structure RakeSplitRecord where
  total : ℕ
  treasuryOut : Option NoteSpec
  operatorOut : Option NoteSpec

/-- The archive that proves a hand. -/
structure HandProofBinding where
  archiveBytes : List ℕ
  postStateCommitment : ℕ
  preStateRoot : ℕ
  postStateRoot : ℕ

structure SettlementRecord where
  tableId : ℕ
  handBinding : ℕ
  policyCommitment : ℕ
  pot : ℕ
  inputs : List SettleInput
  payouts : List NoteSpec
  rake : RakeSplitRecord
  plan : SettlementPlan
  handProof : Option HandProofBinding

inductive Operation where
  | openTable (tableId : ℕ) (policy : FeePolicy)
  | deposit (depositId owner : ℕ) (assetClass : AssetClass) (amount : ℕ)
  | transfer (spends : List SpendAuth) (notes : List Note) (outputs : List NoteSpec)
  | buyIn (tableId : ℕ) (spends : List SpendAuth) (notes : List Note) (seatOwner : ℕ)
  | settle (record : SettlementRecord)

inductive Priority where
  | real
  | play

structure ProofJob where
  opIndex : ℕ
  tableId : ℕ
  record : SettlementRecord
  policy : FeePolicy
  priority : Priority

/-- The seats of a table, as the settlement core reads them. -/
structure TableSnapshot where
  seatCount : ℕ
  button : ℕ
  totalBets : List ℕ
  inactive : List Bool
  allIn : List Bool
  holeCards : List (List ℕ)
  rakeMode : ℕ
  rakeBps : ℕ
  rakeCap : ℕ

/-! ## Calls -/

/-- A call fails with a text, or panics. -/
inductive Failure where
  | err (message : String)
  | panicked

/-- Put a text in front of an error; a panic goes on. -/
def Failure.labelled (label : String) : Failure → Failure
  | .err message => .err s!"{label}: {message}"
  | .panicked => .panicked

/-- Keys, digests and checks. -/
structure Keys where
  ownerKeyOf : ℕ → ℕ
  spendSecretOf : ℕ → ℕ
  commitmentBytes : Note → ℕ
  nullifier : Note → ℕ → ℕ
  spendDigest : ℕ → ℕ → List ℕ → ℕ → ℕ
  sign : ℕ → ℕ → ℕ
  effectDigest : Operation → ℕ
  transferScope : List ℕ
  buyInScope : List ℕ
  settleSpendScope : ℕ → List ℕ
  settleEffect : SettlementRecord → ℕ
  policyCommitment : FeePolicy → ℕ
  rakeOutputs : SettlementRecord → FeePolicy → Option NoteSpec × Option NoteSpec
  blake2s32 : String → List ℕ → ℕ
  parseArchive : List ℕ → Option ℕ
  parseWalletFelt : Wallet → Option ℕ
  deriveSettlementPlan : TableSnapshot → List (List ℕ) → Except String SettlementPlan
  validatePolicy : FeePolicy → Except String Unit
  validateSettlement : SettlementRecord → FeePolicy → Except String Unit

/-- Keys of two wallets, and a plan that pays the first seat. -/
def toyKeys : Keys where
  ownerKeyOf := id
  spendSecretOf := id
  commitmentBytes note := note.rest
  nullifier note secret := note.rest + secret
  spendDigest commitment nullifier _ effect := commitment + nullifier + effect
  sign wallet digest := wallet + digest
  effectDigest _ := 0
  transferScope := [1]
  buyInScope := [2]
  settleSpendScope handBinding := [3, handBinding]
  settleEffect record := record.pot
  policyCommitment policy := policy.cap
  rakeOutputs _ _ := (none, none)
  blake2s32 _ words := words.foldl (· + ·) 0
  parseArchive _ := none
  parseWalletFelt wallet :=
    if wallet = "0xa" then some 10 else if wallet = "0xb" then some 11 else none
  deriveSettlementPlan snapshot _ :=
    let pot := snapshot.totalBets.foldl (· + ·) 0
    .ok ⟨pot, 0, 1, [⟨0, true, [⟨[pot]⟩]⟩]⟩
  validatePolicy _ := .ok ()
  validateSettlement _ _ := .ok ()

/-- The appchain over its states: what the server reads of it, and the calls that may fail or
panic. What others do to it between two calls is part of the calls. -/
structure Chain (σ : Type) extends Keys where
  tableOpen : σ → ℕ → Option Bool
  notes : σ → List NoteEntry
  batchCoveredThrough : σ → Option ℕ
  batchRootAt : σ → ℕ → Option ℕ
  submit : Operation → Effect σ Failure ℕ
  emitSoftConfirm : ℕ → Effect σ Failure Unit
  markProven : ℕ → Effect σ Failure Unit
  pipelineSubmit : ProofJob → Effect σ Failure Unit
  awaitProven : ℕ → Effect σ Failure Unit

/-- What the server was started with. -/
structure AppchainConfig where
  assetClass : AssetClass
  rakeBps : ℕ
  rakeCap : ℕ
  treasuryBps : ℕ
  sequencerSeed : ℕ

/-- The state of the appchain, and for the record the operations that it accepted with the
hands they were submitted for. -/
structure World (σ : Type) where
  chain : σ
  accepted : List (Hand × Operation)

variable {σ α : Type}

/-- A call that submits nothing. -/
def external (prog : Effect σ Failure α) : Effect (World σ) Failure α :=
  prog.within World.chain fun w chain => { w with chain }

/-- What the ledger shows. -/
def view (read : σ → α) : Effect (World σ) Failure α := do
  return read (← get).chain

/-- The appchain runtime of the server. -/
structure AppchainRuntime (σ : Type) where
  config : AppchainConfig
  chain : Chain σ

namespace AppchainRuntime

variable (rt : AppchainRuntime σ)

/-- The treasury is paid under a key of its own. -/
def treasuryKey : ℕ := rt.chain.ownerKeyOf 0x7E5E

def operatorKey : ℕ := rt.chain.ownerKeyOf rt.config.sequencerSeed

def feePolicy : FeePolicy where
  rateBps := rt.config.rakeBps
  cap := rt.config.rakeCap
  split := ⟨rt.config.treasuryBps, rt.treasuryKey, rt.operatorKey⟩

/-- The sequencer takes an operation of a hand. -/
def accept (hand : Hand) (op : Operation) : Effect (World σ) Failure ℕ := do
  let frame ← external (rt.chain.submit op)
  modify fun w => { w with accepted := (hand, op) :: w.accepted }
  return frame

/-- Submit an operation, and tell the listeners of it. -/
def submitOperation (hand : Hand) (op : Operation) : Effect (World σ) Failure ℕ := do
  let frame ← rt.accept hand op
  external (rt.chain.emitSoftConfirm frame)
  return frame

end AppchainRuntime

end TexasPoker.Appchain
