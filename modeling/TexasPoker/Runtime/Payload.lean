import TexasPoker.Runtime.Args

/-! # Canonical payloads

A proof task keeps a command without its actor: the tag and a payload that omits the player
or seat. Replay restores the arguments, taking the actor from the caller's seat.
-/

namespace TexasPoker

/-- A command as a verifier sees it. -/
inductive MethodInput where
  | createTable (maxPlayers smallBlind bigBlind ritMode : ℕ)
  | join (player : Address) (buyIn : ℕ)
  | seatOnly (seatIndex : ℕ)
  | empty
  | kick (seatIndex : ℕ)
  | submitShuffleV2 (seatIndex : ℕ)
  | submitPlayerRevealTokens (seatIndex : ℕ)
  | submitReconstructDeck (seatIndex : ℕ)
  | raise (seatIndex totalBet : ℕ)
  | bet (seatIndex amount : ℕ)
  | funds (seatIndex amount : ℕ)
  | setLeaveAfterHand (seatIndex : ℕ) (wantLeave : Bool)
  | foldWithProof (seatIndex : ℕ)
  deriving DecidableEq, Repr

namespace CanonicalCommand

/-- The stored discriminant of a command. -/
def tag : CanonicalCommand → ℕ
  | .createTable => 0
  | .joinTable => 1
  | .leaveTable => 2
  | .startHand => 3
  | .advanceDeadline => 4
  | .fold => 6
  | .check => 7
  | .call => 8
  | .raise => 9
  | .forceFold => 11
  | .kickPlayer => 12
  | .addon => 13
  | .rebuy => 14
  | .submitShuffleV2 => 17
  | .submitPlayerRevealTokens => 18
  | .submitReconstructDeck => 19
  | .bet => 20
  | .setLeaveAfterHand => 21
  | .foldWithProof => 22

def fromU8 (value : ℕ) : Option CanonicalCommand := all.find? fun c => c.tag = value

/-- The name payload errors use. -/
def diagnosticName : CanonicalCommand → String
  | .kickPlayer => "kick_player"
  | c => c.methodName

/-- The order in which `buildMethodInput` compares selectors. -/
def methodOrder : List CanonicalCommand :=
  [.createTable, .joinTable, .leaveTable, .startHand, .advanceDeadline, .forceFold, .kickPlayer,
    .submitShuffleV2, .submitPlayerRevealTokens, .submitReconstructDeck, .fold, .check, .call,
    .raise, .bet, .addon, .rebuy, .setLeaveAfterHand, .foldWithProof]

theorem fromU8_tag (c : CanonicalCommand) : fromU8 c.tag = some c := by
  cases c <;> rfl

theorem mem_all (c : CanonicalCommand) : c ∈ all := by
  cases c <;> decide

theorem mem_methodOrder (c : CanonicalCommand) : c ∈ methodOrder := by
  cases c <;> decide

end CanonicalCommand

/-- Encode a value or report the failure under a label. -/
def toVec {α : Type} (c : Codec α) (a : α) (label : String) : PokerL1Result Bytes :=
  labelled label (c.encode a)

def requireEmptyCanonicalPayload (payload : Bytes) (method : String) : PokerL1Result Unit :=
  ensure (payload = []) (.serialization s!"{method} canonical payload must be empty")

/-- The bytes of a selector, as an error text lists them. -/
def selectorText (selector : Hash) : String :=
  toString ((List.range 32).map fun i => (selector >>> (8 * (31 - i))).toNat % 256)

section Methods

variable (G : Type) [AddCommGroup G] [Protocol G] [ProtocolCodecs G]

/-- Decode the arguments of a selector completely. -/
def buildMethodInput (selector : Hash) (args : Bytes) : PokerL1Result (ℕ × MethodInput) :=
  match CanonicalCommand.methodOrder.find? fun c => c.selector G = selector with
  | none => .error (.unknownContractMethod selector)
  | some command => do
    let input ← match command with
      | .createTable => do
        let a ← decodeArgs Args.createTable.decode args "create_table prove task"
        pure (.createTable a.1 a.2.1 a.2.2.1 a.2.2.2)
      | .joinTable => do
        let a ← decodeArgs (Args.joinTable G).decode args "join_table prove task"
        pure (.join a.1 a.2.1)
      | .leaveTable => seatOnly "leave_table prove task"
      | .startHand => pure .empty
      | .advanceDeadline => do
        ensure (args = []) (.serialization "advance_deadline does not accept arguments")
        pure .empty
      | .forceFold => seatOnly "force_fold prove task"
      | .kickPlayer => do
        pure (.kick (← decodeArgs Args.seatIndex.decode args "kick_player_v2 prove task"))
      | .submitShuffleV2 => do
        let a ← seatAnd (Args.canonicalSubmitShuffleV2 G) "submit_shuffle_v2 prove task"
        pure (.submitShuffleV2 a.1)
      | .submitPlayerRevealTokens => do
        let a ← seatAnd (Args.canonicalSubmitRevealTokens G)
          "submit_player_reveal_tokens prove task"
        pure (.submitPlayerRevealTokens a.1)
      | .submitReconstructDeck => do
        let a ← seatAnd (Args.canonicalSubmitReconstructDeck G)
          "submit_reconstruct_deck prove task"
        pure (.submitReconstructDeck a.1)
      | .fold => seatOnly "fold prove task"
      | .check => seatOnly "check prove task"
      | .call => seatOnly "call prove task"
      | .raise => do
        let a ← seatAnd Args.amount "raise prove task"
        pure (.raise a.1 a.2)
      | .bet => do
        let a ← seatAnd Args.amount "bet prove task"
        pure (.bet a.1 a.2)
      | .addon => do
        let a ← seatAnd Args.amount "addon prove task"
        pure (.funds a.1 a.2)
      | .rebuy => do
        let a ← seatAnd Args.amount "rebuy prove task"
        pure (.funds a.1 a.2)
      | .setLeaveAfterHand => do
        let a ← seatAnd Codec.bool "set_leave_after_hand prove task"
        pure (.setLeaveAfterHand a.1 a.2)
      | .foldWithProof => do
        let a ← seatAnd (Args.canonicalFoldWithProof G) "fold_with_proof prove task"
        pure (.foldWithProof a.1)
    return (command.tag, input)
where
  seatOnly (label : String) : PokerL1Result MethodInput := do
    pure (.seatOnly (← decodeArgs Args.seatIndex.decode args label))
  seatAnd {α : Type} (c : Codec α) (label : String) : PokerL1Result (ℕ × α) :=
    decodeArgs (Args.seatIndex.pair c).decode args label

/-- The view of a command whose payload carries every input. -/
def deriveMethodInput (methodTag : ℕ) (canonicalArgs : Bytes) : PokerL1Result MethodInput := do
  let command ← orErr (CanonicalCommand.fromU8 methodTag)
    (.serialization s!"unknown canonical Texas command tag {methodTag}")
  ensure (command ∉ [.joinTable, .leaveTable, .fold, .check, .call, .raise, .bet, .addon, .rebuy,
      .setLeaveAfterHand])
    (.serialization
      s!"{command.diagnosticName} canonical input requires authenticated context and pre-state")
  let (derivedTag, input) ← buildMethodInput G (command.selector G) canonicalArgs
  ensure (derivedTag = methodTag) (.serialization
    s!"canonical Texas command tag mismatch: stored={methodTag}, decoded={derivedTag}")
  return input

/-- Erase the seat of a decoded command and encode the rest. -/
def eraseSeat {α : Type} (c : Codec α) (args : Bytes) (label : String) : PokerL1Result Bytes := do
  let (_, a) ← decodeArgs (Args.seatIndex.pair c).decode args label
  toVec c a label

/-- The tag and the payload a call is kept as. -/
def canonicalCommandParts (selector : Hash) (args : Bytes) : PokerL1Result (ℕ × Bytes) := do
  let command ← orErr (CanonicalCommand.fromSelector G selector) (.unknownContractMethod selector)
  let (derivedTag, _) ← buildMethodInput G selector args
  ensure (derivedTag = command.tag) (.serialization
    (s!"Texas command selector/tag mismatch: selector={selectorText selector}, " ++
      s!"derived={derivedTag}, expected={command.tag}"))
  let canonicalArgs ← match command with
    | .advanceDeadline => pure []
    | .joinTable => do
      let (_, input) ← decodeArgs (Args.joinTable G).decode args "join_table canonical payload"
      toVec (Args.canonicalJoinTable G) input "join_table canonical payload"
    | .foldWithProof =>
      eraseSeat (Args.canonicalFoldWithProof G) args "fold_with_proof canonical payload"
    | .submitShuffleV2 =>
      eraseSeat (Args.canonicalSubmitShuffleV2 G) args "submit_shuffle_v2 canonical payload"
    | .submitPlayerRevealTokens =>
      eraseSeat (Args.canonicalSubmitRevealTokens G) args
        "submit_player_reveal_tokens canonical payload"
    | .submitReconstructDeck =>
      eraseSeat (Args.canonicalSubmitReconstructDeck G) args
        "submit_reconstruct_deck canonical payload"
    | .leaveTable | .fold | .check | .call => do
      let _ ← decodeArgs Args.seatIndex.decode args "actor-only canonical payload"
      pure []
    | .setLeaveAfterHand => eraseSeat Codec.bool args "set_leave_after_hand canonical payload"
    | .raise => eraseSeat Args.amount args "raise canonical payload"
    | .bet => eraseSeat Args.amount args "bet canonical payload"
    | .addon => eraseSeat Args.amount args "addon canonical payload"
    | .rebuy => eraseSeat Args.amount args "rebuy canonical payload"
    | .kickPlayer => do
      let seatIndex ← decodeArgs Args.seatIndex.decode args "kick_player_v2 canonical payload"
      toVec Args.seatIndex seatIndex "kick_player_v2 canonical payload"
    | .createTable | .startHand | .forceFold => pure args
  return (derivedTag, canonicalArgs)

end Methods

variable {G : Type} [AddCommGroup G] [Protocol G] [ProtocolCodecs G]
variable (methodTag : ℕ) (canonicalArgs : Bytes) (context : DispatchContext)
  (preTable : TexasPokerTable G)

/-- The view of a stored command; its actor is the caller's seat. -/
def deriveAuthenticatedMethodInput : PokerL1Result MethodInput := do
  let command ← orErr (CanonicalCommand.fromU8 methodTag)
    (.serialization s!"unknown canonical Texas command tag {methodTag}")
  let callerSeat := authenticatedCallerSeat context preTable
  match command with
  | .joinTable => do
    let a ← decodeArgs (Args.canonicalJoinTable G).decode canonicalArgs
      "canonical join_table payload"
    return .join context.caller a.1
  | .leaveTable | .fold | .check | .call => do
    requireEmptyCanonicalPayload canonicalArgs command.diagnosticName
    return .seatOnly (← callerSeat command.diagnosticName)
  | .raise => do
    let totalBet ← decodeArgs Args.amount.decode canonicalArgs "canonical raise payload"
    return .raise (← callerSeat "raise") totalBet
  | .bet => do
    let amount ← decodeArgs Args.amount.decode canonicalArgs "canonical bet payload"
    return .bet (← callerSeat "bet") amount
  | .addon | .rebuy => do
    let amount ← decodeArgs Args.amount.decode canonicalArgs "canonical funds payload"
    return .funds (← callerSeat command.diagnosticName) amount
  | .setLeaveAfterHand => do
    let wantLeave ← decodeArgs Codec.bool.decode canonicalArgs
      "canonical set_leave_after_hand payload"
    return .setLeaveAfterHand (← callerSeat "set_leave_after_hand") wantLeave
  | .kickPlayer => do
    return .kick (← decodeArgs Args.seatIndex.decode canonicalArgs
      "canonical kick_player payload")
  | .foldWithProof => do
    let _ ← decodeArgs (Args.canonicalFoldWithProof G).decode canonicalArgs
      "canonical fold_with_proof payload"
    return .foldWithProof (← callerSeat "fold_with_proof")
  | .submitShuffleV2 => do
    let _ ← decodeArgs (Args.canonicalSubmitShuffleV2 G).decode canonicalArgs
      "canonical submit_shuffle_v2 payload"
    return .submitShuffleV2 (← callerSeat "submit_shuffle_v2")
  | .submitPlayerRevealTokens => do
    let _ ← decodeArgs (Args.canonicalSubmitRevealTokens G).decode canonicalArgs
      "canonical submit_player_reveal_tokens payload"
    return .submitPlayerRevealTokens (← callerSeat "submit_player_reveal_tokens")
  | .submitReconstructDeck => do
    let _ ← decodeArgs (Args.canonicalSubmitReconstructDeck G).decode canonicalArgs
      "canonical submit_reconstruct_deck payload"
    return .submitReconstructDeck (← callerSeat "submit_reconstruct_deck")
  | .createTable | .startHand | .advanceDeadline | .forceFold =>
    deriveMethodInput G methodTag canonicalArgs

/-- Decode a payload and encode it behind its seat. -/
def restoreSeat {α : Type} (c : Codec α) (seatIndex : ℕ) (label replay : String) :
    PokerL1Result Bytes := do
  let a ← decodeArgs c.decode canonicalArgs label
  toVec (Args.seatIndex.pair c) (seatIndex, a) replay

/-- The arguments of a stored command. -/
def replayDispatchArgs : PokerL1Result Bytes := do
  let command ← orErr (CanonicalCommand.fromU8 methodTag)
    (.serialization s!"unknown canonical Texas command tag {methodTag}")
  let input ← deriveAuthenticatedMethodInput methodTag canonicalArgs context preTable
  let replay := s!"{command.diagnosticName} replay payload borsh"
  match command, input with
  | .joinTable, .join player buyIn => do
    let canonical ← decodeArgs (Args.canonicalJoinTable G).decode canonicalArgs
      "canonical join_table replay payload"
    toVec (Args.joinTable G) (player, buyIn, canonical.2) replay
  | .kickPlayer, .kick seatIndex => toVec Args.seatIndex seatIndex replay
  | .foldWithProof, .foldWithProof seatIndex =>
    restoreSeat canonicalArgs (Args.canonicalFoldWithProof G) seatIndex
      "canonical fold_with_proof replay payload" replay
  | .submitShuffleV2, .submitShuffleV2 seatIndex =>
    restoreSeat canonicalArgs (Args.canonicalSubmitShuffleV2 G) seatIndex
      "canonical submit_shuffle_v2 replay payload" replay
  | .submitPlayerRevealTokens, .submitPlayerRevealTokens seatIndex =>
    restoreSeat canonicalArgs (Args.canonicalSubmitRevealTokens G) seatIndex
      "canonical submit_player_reveal_tokens replay payload" replay
  | .submitReconstructDeck, .submitReconstructDeck seatIndex =>
    restoreSeat canonicalArgs (Args.canonicalSubmitReconstructDeck G) seatIndex
      "canonical submit_reconstruct_deck replay payload" replay
  | .leaveTable, .seatOnly seatIndex | .fold, .seatOnly seatIndex | .check, .seatOnly seatIndex
  | .call, .seatOnly seatIndex => toVec Args.seatIndex seatIndex replay
  | .raise, .raise seatIndex totalBet =>
    toVec (Args.seatIndex.pair Args.amount) (seatIndex, totalBet) replay
  | .bet, .bet seatIndex amount =>
    toVec (Args.seatIndex.pair Args.amount) (seatIndex, amount) replay
  | .addon, .funds seatIndex amount | .rebuy, .funds seatIndex amount =>
    toVec (Args.seatIndex.pair Args.amount) (seatIndex, amount) replay
  | .setLeaveAfterHand, .setLeaveAfterHand seatIndex wantLeave =>
    toVec (Args.seatIndex.pair Codec.bool) (seatIndex, wantLeave) replay
  | _, _ => return canonicalArgs

end TexasPoker
