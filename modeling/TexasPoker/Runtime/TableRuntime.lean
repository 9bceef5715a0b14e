import TexasPoker.Lib.Transition
import TexasPoker.Runtime.Dispatch
import TexasPoker.Runtime.Pending

/-! # The runtime of a table

Signed commands are checked against the session key of the caller's seat and the nonce of the
caller's account. Reveal tokens that come before their window wait in the entry queue, and every
later try checks everything again.
-/

namespace TexasPoker

variable {G : Type} [AddCommGroup G] [Protocol G] [DecidableEq G]

/-- The value of a hexadecimal digit. -/
def hexDigit (c : Char) : Option ℕ :=
  if '0' ≤ c ∧ c ≤ '9' then some (c.toNat - '0'.toNat)
  else if 'a' ≤ c ∧ c ≤ 'f' then some (c.toNat - 'a'.toNat + 10)
  else if 'A' ≤ c ∧ c ≤ 'F' then some (c.toNat - 'A'.toNat + 10)
  else none

/-- A hexadecimal text without its prefix. -/
def stripHexPrefix : List Char → List Char
  | '0' :: 'x' :: hex => hex
  | '0' :: 'X' :: hex => hex
  | hex => hex

/-- The address of a wallet: the low twenty bytes of its number. -/
def walletToAddress (feltHex : String) : PokerL1Result Address := do
  let hex := stripHexPrefix feltHex.toList
  ensure (hex ≠ [] ∧ (hex.map Char.utf8Size).sum ≤ 64)
    (.serialization s!"wallet felt hex malformed: {feltHex}")
  let digits ← labelled "wallet felt hex decode" (hex.zipIdx.mapM fun (c, i) =>
    orErr (hexDigit c) s!"Invalid character '{c}' at position {i}")
  return BitVec.ofNat 160 (digits.foldl (fun n d => 16 * n + d) 0)

/-- A command with its signature. -/
structure Submission where
  wallet : String
  blockTimestamp : ℕ
  selector : Hash
  args : Bytes
  signature : Bytes
  nonce : ℕ
  deriving DecidableEq

structure TableRuntime (G : Type) where
  table : TexasPokerTable G
  chainId : ℕ
  blockHeight : ℕ
  pending : PendingQueue Submission
  accountNonces : Address → Option ℕ
  tasks : List (ProveTask G)
  events : List TexasPokerEvent
  /-- The account and nonce of every applied command; a record for the proofs only. -/
  applied : List (Address × ℕ)

/-- The big-endian bytes of a number. -/
def beBytes (width n : ℕ) : Bytes := (leBytes width n).reverse

/-- What a signature signs. -/
def txMessageHash (G : Type) [AddCommGroup G] [Protocol G] (chainId : ℕ) (tableId : ObjectID)
    (caller : Address) (selector : Hash) (args : Bytes) (nonce : ℕ) : Hash :=
  Protocol.blake2b256 (G := G) (textBytes "zchain.tx.v1" ++ beBytes 8 chainId ++
    (beBytes 20 tableId.creatorAddress.toNat ++ leBytes 8 tableId.creationNonce) ++
    beBytes 20 caller.toNat ++ beBytes 32 selector.toNat ++ args ++ beBytes 8 nonce)

/-- The tagged form of a session key. -/
def StarkTxPubkey.toTagged (pk : StarkTxPubkey) : TaggedPubkey := ⟨starkTag, pk.raw⟩

/-- The session key of a seat, unless it is the zeros of no key. -/
def Seat.registeredTxPk (s : Seat G) : Option StarkTxPubkey :=
  match s with
  | .waiting o | .playing ⟨o, _, _, _, _⟩ => if o.txPk.raw.any (· ≠ 0) then some o.txPk else none
  | _ => none

/-- The session key of the first seat of a player. -/
def TexasPokerTable.registeredTxPkOf (t : TexasPokerTable G) (player : Address) :
    Option StarkTxPubkey :=
  ((List.finRange maxSeats).find? fun i => (t.seats i).player = player).bind fun i =>
    (t.seats i).registeredTxPk

/-- The verifier of Stark signatures: key, signature and message hash. -/
abbrev SignatureVerifier := TaggedPubkey → Bytes → Hash → PokerL1Result Unit

/-- Only reveal tokens may wait for their window. -/
def holdableCommand (G : Type) [AddCommGroup G] [Protocol G] (selector : Hash) : Bool :=
  selector = CanonicalCommand.submitPlayerRevealTokens.selector G

def classifyDispatchError (G : Type) [AddCommGroup G] [Protocol G] (selector : Hash) :
    PokerL1Error → ApplyOutcome
  | .phaseWindowClosed detail =>
    if holdableCommand G selector then .hold else .reject (.phaseWindowClosed detail)
  | e => .reject e

/-- A nonce that does not exceed the last applied one. -/
def isStale (last : Option ℕ) (nonce : ℕ) : Bool := last.any fun last => nonce ≤ last

namespace TableRuntime

variable (verifySignature : SignatureVerifier) (rt : TableRuntime G)

def new (table : TexasPokerTable G) (chainId : ℕ) : TableRuntime G where
  table
  chainId
  blockHeight := 0
  pending := .new 64
  accountNonces := fun _ => none
  tasks := []
  events := []
  applied := []

def verifySubmission (wallet : String) (selector : Hash) (args : Bytes) (nonce : ℕ)
    (signature : Bytes) : PokerL1Result Unit := do
  let address ← walletToAddress wallet
  let txPk ← orErr (rt.table.registeredTxPkOf address) (.serialization
    s!"no registered session tx public key for wallet {wallet} at this table")
  verifySignature txPk.toTagged signature
    (txMessageHash G rt.chainId rt.table.id address selector args nonce)

/-- Collect the task and the events of an accepted dispatch. -/
def collect (output : DispatchOutput G) : TableRuntime G :=
  { rt with tasks := rt.tasks ++ output.proveTask.toList, events := rt.events ++ output.events }

/-- Raise the nonce of an account. -/
def recordNonce (address : Address) (nonce : ℕ) : TableRuntime G :=
  let last := match rt.accountNonces address with
    | some last => max last nonce
    | none => nonce
  { rt with
    accountNonces := Function.update rt.accountNonces address (some last)
    applied := rt.applied ++ [(address, nonce)] }

/-- Dispatch a command of an account in the next block. -/
def dispatchNext (address : Address) (blockTimestamp : ℕ) (selector : Hash) (args : Bytes) :
    PokerL1Result (DispatchResult G) × TableRuntime G :=
  let (result, table) := dispatch ⟨address, blockTimestamp⟩ rt.table selector args
  (result, { rt with table, blockHeight := rt.blockHeight + 1 })

/-- Check everything and apply. -/
def applySubmission (sub : Submission) (selector : Hash) (args : Bytes) (rt : TableRuntime G) :
    ApplyOutcome × TableRuntime G :=
  match walletToAddress sub.wallet with
  | .error e => (.reject e, rt)
  | .ok address =>
    if isStale (rt.accountNonces address) sub.nonce then
      (.reject (.staleTxNonce sub.nonce), rt)
    else
      match rt.verifySubmission verifySignature sub.wallet selector args sub.nonce sub.signature with
      | .error e => (.reject e, rt)
      | .ok () =>
        match rt.dispatchNext address sub.blockTimestamp selector args with
        | (.error e, rt) => (classifyDispatchError G selector e, rt)
        | (.ok result, rt) => (.applied, (rt.recordNonce address sub.nonce).collect result.output)

def submitUnsigned (wallet : String) (blockTimestamp : ℕ) (selector : Hash) (args : Bytes) :
    PokerL1Result Unit × TableRuntime G :=
  match walletToAddress wallet with
  | .error e => (.error e, rt)
  | .ok address =>
    match rt.dispatchNext address blockTimestamp selector args with
    | (.error e, rt) => (.error e, rt)
    | (.ok result, rt) => (.ok (), rt.collect result.output)

def submitSigned (sub : Submission) : PokerL1Result Unit × TableRuntime G :=
  match walletToAddress sub.wallet with
  | .error e => (.error e, rt)
  | .ok address =>
    if isStale (rt.accountNonces address) sub.nonce then (.error (.staleTxNonce sub.nonce), rt)
    else
      match rt.verifySubmission verifySignature sub.wallet sub.selector sub.args sub.nonce
        sub.signature with
      | .error e => (.error e, rt)
      | .ok () =>
        let r := PendingQueue.submit (applySubmission verifySignature) rt.pending sub sub.selector
          sub.args rt
        (r.1, { r.2.2 with pending := r.2.1 })

def flushPending : TableRuntime G :=
  let p := PendingQueue.flush (applySubmission verifySignature) rt.pending rt
  { p.state with pending := p.queue }

/-- The queue, the tasks and the events are those of one hand. -/
def resetForNextHand : TableRuntime G :=
  { rt with pending := rt.pending.clear, tasks := [], events := [] }

end TableRuntime

/-- A call of the runtime. -/
inductive RuntimeCall where
  | submitUnsigned (wallet : String) (blockTimestamp : ℕ) (selector : Hash) (args : Bytes)
  | submitSigned (sub : Submission)
  | flushPending
  | resetForNextHand

/-- Make a call; a refused one may leave traces too. -/
def TableRuntime.step (verifySignature : SignatureVerifier) (rt : TableRuntime G) :
    RuntimeCall → TableRuntime G
  | .submitUnsigned wallet blockTimestamp selector args =>
    (rt.submitUnsigned wallet blockTimestamp selector args).2
  | .submitSigned sub => (rt.submitSigned verifySignature sub).2
  | .flushPending => rt.flushPending verifySignature
  | .resetForNextHand => rt.resetForNextHand

/-- The runs of a runtime over any table. -/
def runtimeSystem (G : Type) [AddCommGroup G] [Protocol G] [DecidableEq G]
    (verifySignature : SignatureVerifier) : TransitionSystem (TableRuntime G) RuntimeCall where
  init rt := ∃ table chainId, rt = .new table chainId
  next rt call rt' := rt.step verifySignature call = rt'

end TexasPoker
