import TexasPoker.Machine.Deadline
import TexasPoker.Runtime.Record

/-! # Dispatch

The command surface of a table: selectors, argument decoding, authentication of the
caller, the command itself, and the stages that follow every accepted command.
-/

namespace TexasPoker

/-- The authenticated context of a call. -/
structure DispatchContext where
  caller : Address
  blockTimestamp : ℕ
  deriving DecidableEq, Repr

/-- The commands of a table. -/
inductive CanonicalCommand where
  | createTable
  | joinTable
  | leaveTable
  | startHand
  | advanceDeadline
  | fold
  | check
  | call
  | raise
  | forceFold
  | kickPlayer
  | addon
  | rebuy
  | submitShuffleV2
  | submitPlayerRevealTokens
  | submitReconstructDeck
  | bet
  | setLeaveAfterHand
  | foldWithProof
  deriving DecidableEq, Repr

namespace CanonicalCommand

/-- Every command. -/
def all : List CanonicalCommand :=
  [.createTable, .joinTable, .leaveTable, .startHand, .advanceDeadline, .fold, .check, .call,
    .raise, .forceFold, .kickPlayer, .addon, .rebuy, .submitShuffleV2,
    .submitPlayerRevealTokens, .submitReconstructDeck, .bet, .setLeaveAfterHand, .foldWithProof]

/-- The name a selector is the hash of. -/
def methodName : CanonicalCommand → String
  | .createTable => "create_table"
  | .joinTable => "join_table"
  | .leaveTable => "leave_table"
  | .startHand => "start_hand"
  | .advanceDeadline => "advance_deadline"
  | .fold => "fold"
  | .check => "check"
  | .call => "call"
  | .raise => "raise"
  | .forceFold => "force_fold"
  | .kickPlayer => "kick_player_v2"
  | .addon => "addon"
  | .rebuy => "rebuy"
  | .submitShuffleV2 => "submit_shuffle_v2"
  | .submitPlayerRevealTokens => "submit_player_reveal_tokens"
  | .submitReconstructDeck => "submit_reconstruct_deck"
  | .bet => "bet"
  | .setLeaveAfterHand => "set_leave_after_hand"
  | .foldWithProof => "fold_with_proof"

variable (G : Type) [AddCommGroup G] [Protocol G]

def selector (c : CanonicalCommand) : Hash :=
  Protocol.blake2b256 (G := G) (textBytes c.methodName)

/-- The command of a selector. -/
def fromSelector (s : Hash) : Option CanonicalCommand := all.find? fun c => c.selector G = s

end CanonicalCommand

/-- Decode the arguments of a method. -/
def decodeArgs {α : Type} (d : Decoder α) (args : Bytes) (method : String) : PokerL1Result α :=
  labelled s!"{method} args borsh" (d.run args)

/-- A 20-byte address. -/
def readAddress : Decoder Address := do
  let bytes ← Decoder.take 20
  return bytes.foldl (fun a b => a <<< 8 ||| b.setWidth 160) 0

/-- A tagged public key. -/
def readTaggedPubkey : Decoder TaggedPubkey := do
  let tag ← Decoder.uint 1
  let raw ← Decoder.vec do return (BitVec.ofNat 8 (← Decoder.uint 1))
  return ⟨tag, raw⟩

/-- A seat index, and the argument that follows it. -/
def readSeatAnd {α : Type} (d : Decoder α) : Decoder (ℕ × α) := do
  let seatIndex ← Decoder.uint 1
  return (seatIndex, ← d)

/-- The seat the caller occupies. -/
def authenticatedCallerSeat {G : Type} (context : DispatchContext) (t : TexasPokerTable G)
    (method : String) : PokerL1Result ℕ := do
  ensure t.paddingSeatsAreVacant (.serialization
    (s!"{method}: non-canonical seat layout: padding beyond " ++
      s!"max_players={t.rules.maxPlayers} is occupied"))
  match (List.finRange maxSeats).filter fun i =>
      (t.seats i).isOccupied && (t.seats i).player = context.caller with
  | [] => throw (.serialization
      s!"{method}: caller {context.caller.text} does not occupy a seat")
  | [i] => return i.1
  | i :: j :: _ => throw (.serialization
      s!"{method}: caller {context.caller.text} occupies multiple seats ({i.1}, {j.1})")

/-- The caller's seat, which the arguments must name. -/
def resolveCallerSeat {G : Type} (context : DispatchContext) (t : TexasPokerTable G)
    (claimed : ℕ) (method : String) : PokerL1Result ℕ := do
  ensure (claimed < t.rules.maxPlayers) (.serialization
    (s!"{method}: seat_index {claimed} out of range " ++
      s!"(max_players={t.rules.maxPlayers})"))
  let resolved ← authenticatedCallerSeat context t method
  ensure (claimed = resolved) (.serialization
    (s!"{method}: legacy seat_index {claimed} does not match authenticated caller seat " ++
      s!"{resolved}"))
  return resolved

def requireCallerIsCreator {G : Type} (context : DispatchContext) (t : TexasPokerTable G)
    (method : String) : PokerL1Result Unit :=
  ensure (t.creator = context.caller)
    (.serialization s!"{method}: caller {context.caller.text} is not table creator")

namespace Exec

variable {G : Type} [AddCommGroup G] [Protocol G] [DecidableEq G]
variable (context : DispatchContext) (args : Bytes) (s : Exec G)

/-! ## Commands -/

def dispatchCreateTable : PokerL1Result (Exec G) := do
  let (maxPlayers, smallBlind, bigBlind, ritMode) ← decodeArgs
    (do return (← Decoder.uint 1, ← Decoder.uint 8, ← Decoder.uint 8, ← Decoder.uint 1))
    args "create_table"
  let t ← s.table.applyCreateTable context.caller maxPlayers smallBlind bigBlind ritMode
  return s.withTable t

def dispatchJoinTable : PokerL1Result (Exec G) := do
  let (player, buyIn, pk, txPk, proof) ← decodeArgs
    (do
      let player ← readAddress
      let buyIn ← Decoder.uint 8
      let pk : G ← Protocol.readPoint
      let txPk ← readTaggedPubkey
      let proof ← Decoder.vec do return (BitVec.ofNat 8 (← Decoder.uint 1))
      return (player, buyIn, pk, txPk, proof))
    args "join_table"
  ensure (player = context.caller) (.serialization
    s!"join_table: caller {context.caller.text} != player {player.text}")
  s.applyJoinTable player buyIn pk txPk proof

/-- A command of one seat: decode, resolve the caller's seat, and run. -/
def dispatchSeat {α : Type} (method : String) (d : Decoder α)
    (run : Exec G → ℕ → α → PokerL1Result (Exec G)) : PokerL1Result (Exec G) := do
  let (claimed, a) ← decodeArgs (readSeatAnd d) args method
  let seatIndex ← resolveCallerSeat context s.table claimed method
  run s seatIndex a

def dispatchLeaveTable : PokerL1Result (Exec G) :=
  s.dispatchSeat context args "leave_table" (return ()) fun s i () => s.applyLeaveTable i

def dispatchStartHand : PokerL1Result (Exec G) := do
  ensure (args = []) (.serialization "start_hand does not accept arguments")
  requireCallerIsCreator context s.table "start_hand"
  s.startHand

def dispatchAdvanceDeadline : PokerL1Result (Exec G) := do
  ensure (args = []) (.serialization "advance_deadline does not accept arguments")
  let (s, _) ← s.advanceDeadlineWithReport context.blockTimestamp
  return s

def dispatchForceFold : PokerL1Result (Exec G) := do
  let seatIndex ← decodeArgs (Decoder.uint 1) args "force_fold"
  requireCallerIsCreator context s.table "force_fold"
  s.applyFoldInternal seatIndex foldReasonForceAdmin

def dispatchKickPlayer : PokerL1Result (Exec G) := do
  let seatIndex ← decodeArgs (Decoder.uint 1) args "kick_player_v2"
  requireCallerIsCreator context s.table "kick_player_v2"
  s.kickPlayerInternal seatIndex .admin

/-- A ciphertext of two points. -/
def readCiphertext : Decoder (ElGamalCiphertext G) := do
  let c1 ← Protocol.readPoint
  return ⟨c1, ← Protocol.readPoint⟩

def dispatchSubmitShuffleV2 : PokerL1Result (Exec G) :=
  s.dispatchSeat context args "submit_shuffle_v2"
    (do
      let outputCards ← Decoder.vec readCiphertext
      return (outputCards, ← Protocol.readShuffleProof (G := G)))
    fun s i (outputCards, proof) => s.applySubmitShuffleV2 i outputCards proof

def dispatchSubmitPlayerRevealTokens : PokerL1Result (Exec G) :=
  s.dispatchSeat context args "submit_player_reveal_tokens"
    (do
      let tokens ← Decoder.vec (Protocol.readPoint (G := G))
      return (tokens, ← Decoder.vec (Protocol.readRevealTokenProof (G := G))))
    fun s i (tokens, proofs) => s.applySubmitPlayerRevealTokens i tokens proofs

def dispatchSubmitReconstructDeck : PokerL1Result (Exec G) :=
  s.dispatchSeat context args "submit_reconstruct_deck"
    (do
      let statement ← Protocol.readStatement (G := G)
      return (statement, ← Protocol.readReconstructProof (G := G)))
    fun s i (statement, proof) => s.applySubmitReconstructDeck i statement proof

def dispatchFold : PokerL1Result (Exec G) :=
  s.dispatchSeat context args "fold" (return ()) fun s i () => s.applyFold i

def dispatchCheck : PokerL1Result (Exec G) :=
  s.dispatchSeat context args "check" (return ()) fun s i () => s.applyCheck i

def dispatchCall : PokerL1Result (Exec G) :=
  s.dispatchSeat context args "call" (return ()) fun s i () => s.applyCall i

def dispatchRaise : PokerL1Result (Exec G) :=
  s.dispatchSeat context args "raise" (Decoder.uint 8) fun s i totalBet => s.applyRaise i totalBet

def dispatchBet : PokerL1Result (Exec G) :=
  s.dispatchSeat context args "bet" (Decoder.uint 8) fun s i amount => s.applyBet i amount

def dispatchAddon : PokerL1Result (Exec G) :=
  s.dispatchSeat context args "addon" (Decoder.uint 8) applyAddon

def dispatchRebuy : PokerL1Result (Exec G) :=
  s.dispatchSeat context args "rebuy" (Decoder.uint 8) applyRebuy

def dispatchSetLeaveAfterHand : PokerL1Result (Exec G) :=
  s.dispatchSeat context args "set_leave_after_hand" Decoder.bool applySetLeaveAfterHand

def dispatchFoldWithProof : PokerL1Result (Exec G) :=
  s.dispatchSeat context args "fold_with_proof"
    (do
      let outputCards ← Decoder.vec readCiphertext
      return (outputCards, ← Protocol.readLeaveProof (G := G)))
    fun s i (outputCards, proof) => s.applyFoldWithProof i outputCards proof

/-- Run one command. -/
def runCommand : CanonicalCommand → PokerL1Result (Exec G)
  | .createTable => s.dispatchCreateTable context args
  | .joinTable => s.dispatchJoinTable context args
  | .leaveTable => s.dispatchLeaveTable context args
  | .startHand => s.dispatchStartHand context args
  | .advanceDeadline => s.dispatchAdvanceDeadline context args
  | .forceFold => s.dispatchForceFold context args
  | .kickPlayer => s.dispatchKickPlayer context args
  | .submitShuffleV2 => s.dispatchSubmitShuffleV2 context args
  | .submitPlayerRevealTokens => s.dispatchSubmitPlayerRevealTokens context args
  | .submitReconstructDeck => s.dispatchSubmitReconstructDeck context args
  | .fold => s.dispatchFold context args
  | .check => s.dispatchCheck context args
  | .call => s.dispatchCall context args
  | .raise => s.dispatchRaise context args
  | .bet => s.dispatchBet context args
  | .addon => s.dispatchAddon context args
  | .rebuy => s.dispatchRebuy context args
  | .setLeaveAfterHand => s.dispatchSetLeaveAfterHand context args
  | .foldWithProof => s.dispatchFoldWithProof context args

end Exec

/-! ## The stages of a dispatch -/

/-- What a prover gets of a state change. -/
structure ProveTask (G : Type) where
  command : CanonicalCommand
  preTable : TexasPokerTable G
  postTable : TexasPokerTable G
  tableId : ℕ
  handId : ℕ
  callSeq : ℕ

/-- The events of a dispatch, with a task when it changed the table. -/
structure DispatchOutput (G : Type) where
  events : List TexasPokerEvent
  proveTask : Option (ProveTask G)

/-- The result of an accepted dispatch. -/
structure DispatchResult (G : Type) where
  modifiedObjects : List ObjectID
  output : DispatchOutput G

variable {G : Type} [AddCommGroup G] [Protocol G] [DecidableEq G]

/-- Both tables of a task must be storable. -/
def buildDispatchOutput (events : List TexasPokerEvent) (command : CanonicalCommand)
    (preTable postTable : TexasPokerTable G) : PokerL1Result (DispatchOutput G) := do
  if preTable = postTable then
    return ⟨events, none⟩
  else
    labelled "dispatch output borsh" preTable.persist
    labelled "dispatch output borsh" postTable.persist
    return ⟨events, some ⟨command, preTable, postTable, postTable.id.creationNonce,
      postTable.handId, postTable.callSeq⟩⟩

/-- Arm a betting deadline that normalization left unarmed. -/
def rearmBettingDeadline (context : DispatchContext) (t : TexasPokerTable G) :
    PokerL1Result (TexasPokerTable G) :=
  match t.handPhase with
  | .betting _ _ _ 0 => t.armBettingDeadline context.blockTimestamp
  | _ => .ok t

/-- The call counter and the hand counter of a changed table. -/
def nextCounters (preTable : TexasPokerTable G) (events : List TexasPokerEvent) :
    PokerL1Result (ℕ × ℕ) := do
  ensure (preTable.callSeq + 1 ≤ u32Max) (.serialization "texas_poker call_seq overflow")
  if events.any TexasPokerEvent.isHandStarted then
    ensure (preTable.handId + 1 ≤ u32Max) (.serialization "texas_poker hand_id overflow")
    return (preTable.callSeq + 1, preTable.handId + 1)
  else
    return (preTable.callSeq + 1, preTable.handId)

/-- The table with the counters of a changed table, or unchanged. -/
def advanceCounters (preTable t : TexasPokerTable G) (events : List TexasPokerEvent) :
    PokerL1Result (TexasPokerTable G) := do
  if t = preTable then
    return t
  else
    let (callSeq, handId) ← nextCounters preTable events
    return { t with callSeq, handId }

/-- Run one call on a table: the result, and the table the caller is left with. Only a
failed command and a failed clock put the original table back. -/
def dispatch (context : DispatchContext) (preTable : TexasPokerTable G) (selector : Hash)
    (args : Bytes) : PokerL1Result (DispatchResult G) × TexasPokerTable G :=
  match CanonicalCommand.fromSelector G selector with
  | none => (.error (.unknownContractMethod selector), preTable)
  | some command =>
    match Exec.runCommand context args ⟨preTable, []⟩ command with
    | .error e => (.error e, preTable)
    | .ok s =>
      match s.normalizeUntilBlocked context.blockTimestamp with
      | .error e => (.error e, s.table)
      | .ok (s, _) =>
        match rearmBettingDeadline context s.table with
        | .error e => (.error e, preTable)
        | .ok t =>
          match advanceCounters preTable t s.events with
          | .error e => (.error e, t)
          | .ok t =>
            match buildDispatchOutput s.events command preTable t with
            | .error e => (.error e, t)
            | .ok output => (.ok ⟨[t.id], output⟩, t)

end TexasPoker
