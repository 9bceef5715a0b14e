import TexasPoker.Core.Constants
import TexasPoker.Lib.Bytes
import TexasPoker.Lib.Fallible

/-! # Identities, keys and errors

Addresses, object identifiers and session keys of the tables, and the error values
their transitions return.
-/

namespace TexasPoker

export Fallible (ensure orErr checkedAdd checkedSub checkedSum u64Max u32Max)

/-- A 20-byte account address. -/
abbrev Address := BitVec 160

/-- The address of no player. -/
abbrev emptyPlayer : Address := 0

/-- The bytes of an address, as an error text lists them. -/
def Address.text (a : Address) : String :=
  toString ((List.range 20).map fun i => (a >>> (8 * (19 - i))).toNat % 256)

structure ObjectID where
  creatorAddress : Address
  creationNonce : ℕ
  deriving DecidableEq, Repr

/-- A 32-byte digest. -/
abbrev Hash := BitVec 256

/-- A scheme tag with the raw bytes of a public key. -/
structure TaggedPubkey where
  tag : ℕ
  raw : Bytes
  deriving DecidableEq, Repr

/-- The tag of version 1 of the Stark signature scheme. -/
abbrev starkTag : ℕ := 0x21

/-- A Stark session key: its tag is fixed and its point takes 32 bytes. -/
structure StarkTxPubkey where
  raw : Bytes
  raw_length : raw.length = 32
  deriving DecidableEq, Repr

/-- Narrow a tagged key to a Stark session key. -/
def StarkTxPubkey.fromTagged (pk : TaggedPubkey) : Option StarkTxPubkey :=
  if pk.tag = starkTag then
    if h : pk.raw.length = 32 then some ⟨pk.raw, h⟩ else none
  else none

/-- Errors of the table's transitions. -/
inductive PokerL1Error where
  | staleTxNonce (nonce : ℕ)
  | phaseWindowClosed (detail : String)
  | serialization (detail : String)
  | other (detail : String)
  | unknownContractMethod (selector : Hash)
  | contractExecutionFailed (detail : String)
  deriving DecidableEq, Repr

/-- The message of an error. -/
def PokerL1Error.text : PokerL1Error → String
  | .staleTxNonce nonce =>
    s!"tx nonce {nonce} already applied for this account (replay/stale rejected)"
  | .phaseWindowClosed detail => s!"phase window closed: {detail}"
  | .serialization detail => s!"serialization error: {detail}"
  | .other detail => detail
  | .unknownContractMethod selector =>
    let bytes := (List.range 32).map fun i => (selector >>> (8 * (31 - i))).toNat % 256
    s!"unknown contract method: selector={bytes}"
  | .contractExecutionFailed detail => s!"contract execution failed: {detail}"

/-- Results of the table's transitions. -/
abbrev PokerL1Result (α : Type) := Except PokerL1Error α

/-- Report a library error under a label. -/
def labelled {α : Type} (label : String) (x : Except String α) : PokerL1Result α :=
  x.mapError fun e => .serialization s!"{label}: {e}"

@[simp] theorem labelled_eq_ok {α : Type} {label : String} {x : Except String α} {a : α} :
    labelled label x = .ok a ↔ x = .ok a :=
  Fallible.mapError_eq_ok

end TexasPoker
