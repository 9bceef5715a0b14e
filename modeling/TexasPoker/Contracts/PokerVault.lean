import TexasPoker.Contracts.Cairo

/-! # The chip vault

Chips are bought with tokens one to one. The operator locks the chips of seated players; only
the settlement contract moves chips between players.
-/

namespace TexasPoker.Contracts

open Fallible

/-- The storage of the vault. -/
structure PokerVault where
  tokenAddress : ContractAddress
  chipBalances : ContractAddress → ℕ
  totalChips : ℕ
  settlementContract : ContractAddress
  authorizedHelper : ContractAddress
  unshieldHelper : ContractAddress
  locked : ContractAddress → ℕ
  sessionLastActivity : ContractAddress → ℕ
  sessionActive : ContractAddress → Bool
  lockTtl : ℕ
  payoutCommitments : ContractAddress → Felt
  owner : ContractAddress
  paused : Bool

/-- What the vault logs about value. -/
inductive VaultEvent where
  | deposit (player : ContractAddress) (amount : ℕ)
  | withdraw (player : ContractAddress) (amount : ℕ)
  | chipCredited (player : ContractAddress) (amount : ℕ)
  | chipDebited (player : ContractAddress) (amount : ℕ)
  | escrowFunded (handBinding : Felt) (escrow : ContractAddress) (amount : ℕ)
  deriving DecidableEq

/-- The vault at its address, with the token it trusts. -/
structure Custody where
  address : ContractAddress
  vault : PokerVault
  token : Token
  events : List VaultEvent

/-- A deployed vault; players can unlock themselves after twelve hours. -/
def PokerVault.constructor (address owner tokenAddress settlementContract : ContractAddress) :
    PokerVault where
  tokenAddress
  chipBalances := fun _ => 0
  totalChips := 0
  settlementContract
  authorizedHelper := address
  unshieldHelper := 0
  locked := fun _ => 0
  sessionLastActivity := fun _ => 0
  sessionActive := fun _ => false
  lockTtl := 43200
  payoutCommitments := fun _ => 0
  owner
  paused := false

namespace Custody

variable (tx : Tx) (c : Custody)

def emit (e : VaultEvent) : Custody := { c with events := c.events ++ [e] }

def assertNotPaused : Revert Unit := ensure (c.vault.paused = false) "Pausable: paused"

def assertOnlyOwner : Revert Unit := ensure (tx.caller = c.vault.owner) "Caller is not the owner"

/-- Spending leaves the locked chips in the balance. -/
def assertSpendable (player : ContractAddress) (amount : ℕ) : Revert Unit := do
  ensure (amount ≤ c.vault.chipBalances player) "Insufficient chip balance"
  ensure (c.vault.locked player ≤ c.vault.chipBalances player - amount)
    "Insufficient unlocked balance (in-hand lock)"

/-- Add chips to a player. -/
def credit (player : ContractAddress) (amount : ℕ) : Revert Custody := do
  let balance ← u256Add (c.vault.chipBalances player) amount
  let totalChips ← u256Add c.vault.totalChips amount
  let chipBalances := Function.update c.vault.chipBalances player balance
  return { c with vault := { c.vault with chipBalances, totalChips } }

/-- Take chips from a player who has them. -/
def debit (player : ContractAddress) (amount : ℕ) : Revert Custody := do
  let balance ← u256Sub (c.vault.chipBalances player) amount
  let totalChips ← u256Sub c.vault.totalChips amount
  let chipBalances := Function.update c.vault.chipBalances player balance
  return { c with vault := { c.vault with chipBalances, totalChips } }

/-- The vault sends tokens. -/
def send (recipient : ContractAddress) (amount : ℕ) : Revert Custody := do
  let token ← c.token.transfer c.address recipient amount
  return { c with token }

/-- Pull tokens from the caller and credit a player. -/
def pullAndCredit (player : ContractAddress) (amount : ℕ) : Revert Custody := do
  let token ← c.token.transferFrom c.address tx.caller c.address amount
  let c ← { c with token }.credit player amount
  return c.emit (.deposit player amount)

def deposit (amount : ℕ) : Revert Custody := do
  c.assertNotPaused
  ensure (0 < amount) "Amount must be > 0"
  c.pullAndCredit tx tx.caller amount

def depositFor (player : ContractAddress) (amount : ℕ) : Revert Custody := do
  c.assertNotPaused
  ensure (0 < amount) "Amount must be > 0"
  ensure (player ≠ 0) "Player must be set"
  c.pullAndCredit tx player amount

def withdraw (amount : ℕ) : Revert Custody := do
  c.assertNotPaused
  ensure (0 < amount) "Amount must be > 0"
  ensure (amount ≤ c.vault.chipBalances tx.caller) "Insufficient chip balance"
  c.assertSpendable tx.caller amount
  let c ← c.debit tx.caller amount
  let c ← c.send tx.caller amount
  return c.emit (.withdraw tx.caller amount)

def withdrawTo (player recipient : ContractAddress) (amount : ℕ) : Revert Custody := do
  c.assertNotPaused
  ensure (tx.caller = c.vault.unshieldHelper) "Only the unshield helper"
  ensure (0 < amount) "Amount must be > 0"
  ensure (player ≠ 0) "Player must be set"
  ensure (recipient ≠ 0) "Recipient must be set"
  ensure (amount ≤ c.vault.chipBalances player) "Insufficient chip balance"
  c.assertSpendable player amount
  let c ← c.debit player amount
  let c ← c.send recipient amount
  return c.emit (.chipDebited player amount)

def burnChips (player : ContractAddress) (amount : ℕ) : Revert Custody := do
  c.assertNotPaused
  ensure (tx.caller = c.vault.authorizedHelper) "Only the authorized helper"
  ensure (0 < amount) "Amount must be > 0"
  ensure (player ≠ 0) "Player must be set"
  c.assertSpendable player amount
  ensure (amount ≤ c.vault.chipBalances player) "Insufficient chip balance"
  let c ← c.debit player amount
  return c.emit (.chipDebited player amount)

def setAuthorizedHelper (authorizedHelper : ContractAddress) : Revert Custody := do
  c.assertOnlyOwner tx
  return { c with vault := { c.vault with authorizedHelper } }

def setUnshieldHelper (unshieldHelper : ContractAddress) : Revert Custody := do
  c.assertOnlyOwner tx
  return { c with vault := { c.vault with unshieldHelper } }

/-- Set the clock of a player's session. -/
def setSession (player : ContractAddress) (lastActivity : ℕ) (active : Bool) : Custody :=
  let sessionLastActivity := Function.update c.vault.sessionLastActivity player lastActivity
  let sessionActive := Function.update c.vault.sessionActive player active
  { c with vault := { c.vault with sessionLastActivity, sessionActive } }

def setLocked (player : ContractAddress) (amount : ℕ) : Custody :=
  let locked := Function.update c.vault.locked player amount
  { c with vault := { c.vault with locked } }

/-- Lock chips. The balance is compared with the new amount alone. -/
def lock (player : ContractAddress) (amount : ℕ) : Revert Custody := do
  c.assertOnlyOwner tx
  ensure (0 < amount) "Amount must be > 0"
  ensure (player ≠ 0) "Player must be set"
  ensure (amount ≤ c.vault.chipBalances player) "Insufficient chip balance"
  let locked ← u256Add (c.vault.locked player) amount
  return (c.setLocked player locked).setSession player tx.blockTimestamp true

def refreshSession (player : ContractAddress) : Revert Custody := do
  c.assertOnlyOwner tx
  ensure (c.vault.sessionLastActivity player ≠ 0) "No active session"
  return c.setSession player tx.blockTimestamp true

def unlockAfterDeadline (player : ContractAddress) : Revert Custody := do
  ensure (c.vault.sessionActive player = true) "No active session"
  ensure (c.vault.lockTtl ≠ 0) "Self unlock disabled"
  let deadline ← u64Add (c.vault.sessionLastActivity player) c.vault.lockTtl
  ensure (deadline ≤ tx.blockTimestamp) "Lock not expired"
  return (c.setLocked player 0).setSession player 0 false

def setLockTtl (lockTtl : ℕ) : Revert Custody := do
  c.assertOnlyOwner tx
  return { c with vault := { c.vault with lockTtl } }

def forceUnlock (player : ContractAddress) : Revert Custody := do
  c.assertOnlyOwner tx
  return (c.setLocked player 0).setSession player 0 false

def registerPayoutCommitment (commitment : Felt) : Revert Custody := do
  ensure (commitment ≠ 0) "Payout commitment required"
  let payoutCommitments := Function.update c.vault.payoutCommitments tx.caller commitment
  return { c with vault := { c.vault with payoutCommitments } }

/-- Send the winners' pot of a hand to the escrow. No chips are debited here. -/
def settlementFundEscrow (escrow : ContractAddress) (handBinding : Felt) (amount : ℕ) :
    Revert Custody := do
  ensure (tx.caller = c.vault.settlementContract) "Only settlement contract"
  ensure (0 < amount) "Amount must be > 0"
  ensure (escrow ≠ 0) "Escrow required"
  let c ← c.send escrow amount
  return c.emit (.escrowFunded handBinding escrow amount)

/-- Apply the net result of a hand. A loss is drawn from the locked chips first. -/
def applySettlement (player : ContractAddress) (delta : ℤ) : Revert Custody := do
  ensure (tx.caller = c.vault.settlementContract) "Only settlement contract"
  if 0 < delta then
    ensure (delta.natAbs < u64Bound) "delta positive fits u64"
    let c ← c.credit player delta.natAbs
    return c.emit (.chipCredited player delta.natAbs)
  else if delta < 0 then
    ensure (delta.natAbs < u64Bound) "abs delta fits u64"
    let locked := c.vault.locked player
    let c := c.setLocked player (locked - min locked delta.natAbs)
    ensure (delta.natAbs ≤ c.vault.chipBalances player) "Insufficient chip balance"
    let c ← c.debit player delta.natAbs
    return c.emit (.chipDebited player delta.natAbs)
  else
    return c

def pause : Revert Custody := do
  c.assertOnlyOwner tx
  c.assertNotPaused
  return { c with vault := { c.vault with paused := true } }

def unpause : Revert Custody := do
  c.assertOnlyOwner tx
  ensure (c.vault.paused = true) "Pausable: not paused"
  return { c with vault := { c.vault with paused := false } }

end Custody

end TexasPoker.Contracts
