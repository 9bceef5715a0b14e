import TexasPoker.Appchain.Ledger
import TexasPoker.Lib.Fallible
import TexasPoker.Lib.Transition

/-! # The deposit and withdrawal bridge

Deposits of the vault are minted on the appchain, and burned notes are paid from the vault. What
the sequencer, the custody ledger and the vault answer comes with every round.
-/

namespace TexasPoker.Appchain

open Effect

/-- A deposit that the vault reports. -/
structure DepositEvent where
  sourceChain : ℕ
  vault : ℕ
  txHash : ℕ
  eventIndex : ℕ
  owner : ℕ
  amount : ℕ
  seq : ℕ
  deriving DecidableEq

/-- The same event has the same id, whenever it is reported. -/
def DepositEvent.depositId (keys : Keys) (event : DepositEvent) : ℕ :=
  keys.blake2s32 "texas-appchain.deposit.v1"
    [event.sourceChain, event.vault, event.txHash, event.eventIndex]

structure WithdrawalRequest where
  requestId : ℕ
  payoutAddress : ℕ
  amount : ℕ
  deriving DecidableEq

/-- A note that was burned for a request. -/
structure Burn where
  note : Note
  request : WithdrawalRequest
  deriving DecidableEq

/-- Why a round or a request ends early. -/
inductive BridgeError where
  | provider (message : String)
  | mint (depositId : ℕ) (message : String)
  | custodyConfirm (message : String)
  | noExactNote (amount : ℕ)
  | burnRejected (message : String)
  | lostProvenance
  | custodyEnqueue (message : String)

/-- The ids that the sequencer restores from its log, the queue of the custody ledger, the state
of the bridge, and for the record what was minted, confirmed, proven, burned, queued and paid. -/
structure Bridge where
  depositIds : List ℕ
  queue : List WithdrawalRequest
  depositCursor : ℕ
  paidTotal : ℕ
  payAttempts : ℕ → ℕ
  minted : List DepositEvent
  confirmed : List ℕ
  proven : List ℕ
  burned : List Burn
  enqueued : List Burn
  paid : List WithdrawalRequest

def Bridge.empty : Bridge := ⟨[], [], 0, 0, fun _ => 0, [], [], [], [], [], []⟩

def maxPayAttempts : ℕ := 5

namespace Bridge

variable (b : Bridge) (keys : Keys)

/-! ## Effects -/

def moveCursor (event : DepositEvent) : Bridge := { b with depositCursor := event.seq + 1 }

def mint (event : DepositEvent) : Bridge :=
  { b with
    depositIds := event.depositId keys :: b.depositIds
    minted := event :: b.minted }

def confirmDeposit (id : ℕ) : Bridge := { b with confirmed := id :: b.confirmed }

def markProven (id : ℕ) : Bridge := { b with proven := id :: b.proven }

def bumpAttempts (request : WithdrawalRequest) : Bridge :=
  { b with payAttempts := fun id =>
      if id = request.requestId then b.payAttempts id + 1 else b.payAttempts id }

def pay (request : WithdrawalRequest) : Bridge := { b with paid := request :: b.paid }

def markPaid (request : WithdrawalRequest) : Bridge :=
  { b with
    queue := b.queue.erase request
    paidTotal := b.paidTotal + request.amount }

def burn (burn : Burn) : Bridge := { b with burned := burn :: b.burned }

def enqueue (burn : Burn) : Bridge :=
  { b with
    queue := b.queue ++ [burn.request]
    enqueued := burn :: b.enqueued }

/-- The custody ledger and the state of the bridge start empty. -/
def restart : Bridge :=
  { b with queue := [], depositCursor := 0, paidTotal := 0, payAttempts := fun _ => 0 }

end Bridge

/-! ## Deposits -/

/-- The answers to a deposit: the sequencer rejects it, or mints it; then whether its note is
found, what the custody ledger says, and whether the operation is marked proven. -/
inductive MintAnswer where
  | rejected (message : String)
  | minted (note : Bool) (confirm : Except String Unit) (proven : Bool)

/-- Confirm a deposit whose note was found. -/
def confirmMinted (id : ℕ) (note : Bool) (confirm : Except String Unit) :
    Effect Bridge BridgeError Unit :=
  if note then do
    .ofExcept (confirm.mapError .custodyConfirm)
    modify fun b => b.confirmDeposit id
  else return ()

/-- Mint a deposit that the sequencer does not have. -/
def processDeposit (keys : Keys) (processed : ℕ) (entry : DepositEvent × MintAnswer) :
    Effect Bridge BridgeError ℕ := do
  let (event, answer) := entry
  let id := event.depositId keys
  if event.amount = 0 then return processed
  else if id ∈ (← get).depositIds then
    modify fun b => b.moveCursor event
    return processed
  else
    match answer with
    | .rejected message => throw (.mint id message)
    | .minted note confirm proven =>
      modify fun b => b.mint keys event
      confirmMinted id note confirm
      modify fun b => if proven then b.markProven id else b
      modify fun b => b.moveCursor event
      return processed + 1

/-- One round over the deposits that the vault reports. -/
def processDepositsOnce (keys : Keys) (polled : Except String (List (DepositEvent × MintAnswer))) :
    Effect Bridge BridgeError ℕ := do
  let events ← .ofExcept (polled.mapError .provider)
  events.foldlM (processDeposit keys) 0

/-! ## Withdrawals -/

/-- The answers to a payment: it fails, or goes through and is marked or not. -/
inductive PayAnswer where
  | failed
  | paid (marked : Bool)
  deriving DecidableEq

/-- Pay a queued request, at most five times. -/
def processWithdrawal (answers : ℕ → PayAnswer) (paid : ℕ) (entry : WithdrawalRequest × ℕ) :
    Effect Bridge BridgeError ℕ := do
  let (request, i) := entry
  modify fun b => b.bumpAttempts request
  if maxPayAttempts < (← get).payAttempts request.requestId then return paid
  else
    match answers i with
    | .failed => return paid
    | .paid false =>
      modify fun b => b.pay request
      return paid
    | .paid true =>
      modify fun b => b.pay request
      modify fun b => b.markPaid request
      return paid + 1

/-- One round over the queue as it was at its start. -/
def processWithdrawalsOnce (answers : ℕ → PayAnswer) : Effect Bridge BridgeError ℕ := do
  let queued := (← get).queue
  queued.zipIdx.foldlM (processWithdrawal answers) 0

/-- The answers to a request: the notes of the ledger, what the sequencer says to the burn,
whether the note's origin is known, and what the custody ledger says: a request that it knows
already is not queued again. -/
structure BurnAnswer where
  notes : List Note
  burn : Except String Unit
  provenance : Bool
  enqueue : Except String Bool

/-- Burn a note of exactly the amount, and queue its payment. -/
def requestWithdrawal (keys : Keys) (wallet : ℕ) (request : WithdrawalRequest)
    (answer : BurnAnswer) : Effect Bridge BridgeError Unit := do
  let owner := keys.ownerKeyOf wallet
  let note ← .ofExcept (Fallible.orErr (answer.notes.find? fun note =>
    decide (note.owner = owner ∧ note.amount = request.amount ∧ note.tableId = none ∧
      note.assetClass = .real)) (.noExactNote request.amount))
  .ofExcept (answer.burn.mapError .burnRejected)
  modify fun b => b.burn ⟨note, request⟩
  .ofExcept (Fallible.ensure answer.provenance .lostProvenance)
  let fresh ← .ofExcept (answer.enqueue.mapError .custodyEnqueue)
  modify fun b => if fresh then b.enqueue ⟨note, request⟩ else b

/-! ## Runs -/

inductive BridgeEvent where
  | processDepositsOnce (polled : Except String (List (DepositEvent × MintAnswer)))
  | processWithdrawalsOnce (answers : ℕ → PayAnswer)
  | requestWithdrawal (wallet : ℕ) (request : WithdrawalRequest) (answer : BurnAnswer)
  | restart

namespace Bridge

variable (keys : Keys)

/-- The bridge after a round or a request, however it ended. -/
def step (b : Bridge) : BridgeEvent → Bridge
  | .processDepositsOnce polled => ((processDepositsOnce keys polled).exec b).2
  | .processWithdrawalsOnce answers => ((processWithdrawalsOnce answers).exec b).2
  | .requestWithdrawal wallet request answer =>
    ((requestWithdrawal keys wallet request answer).exec b).2
  | .restart => b.restart

/-- The runs of a bridge. -/
def system : TransitionSystem Bridge BridgeEvent where
  init b := b = .empty
  next b e b' := b' = b.step keys e

end Bridge

end TexasPoker.Appchain
