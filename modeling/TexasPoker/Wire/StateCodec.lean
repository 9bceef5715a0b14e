import TexasPoker.Spec.Schema
import TexasPoker.Wire.Table

/-! # The table codec

A table is stored resolved, with its rules and creator, or hot, with the digests of both. Only
the seats in play are stored; a restored table has fresh slots beyond them.
-/

namespace TexasPoker.Wire

open Fallible

variable {G H D : Type}

def tableStateSchemaVersion : ℕ := 36

def hotStateSchemaVersion : ℕ := 37

/-! ## Persisted tables -/

/-- A table record; ahead of the seats stand its rules and creator, or the bindings of both. -/
structure Persisted (H G : Type) where
  id : ObjectID
  stateSchemaVersion : ℕ
  header : H
  seats : List (Seat G)
  actedMask : SeatMask
  leaveAfterHandMask : SeatMask
  button : ℕ
  lastBbSeat : ℕ
  pot : ℕ
  communityCards : BoardCards
  handPhase : HandPhase G
  deckState : DeckState G
  chipPool : ℕ
  runItTwiceState : RunItTwiceState
  handId : ℕ
  callSeq : ℕ

/-- The fields of a record in their order. -/
def persisted (header : Codec H) (point : Codec G) : Format (Persisted H G) :=
  ((Format.ofCodec (objectID.pair ((Codec.uint 1).pair header))).pair
    ((Record.format (seat point) seatRecordWidth (by decide)).vec.pair
      ((Format.ofCodec (seatMask.pair (seatMask.pair ((Codec.uint 1).pair ((Codec.uint 1).pair
        ((Codec.uint 8).pair boardCards)))))).pair
        ((Record.format (handPhase point) handPhaseRecordWidth (by decide)).pair
          (Format.ofCodec ((deckState point).pair ((Codec.uint 8).pair
            (runItTwiceState.codec.pair ((Codec.uint 4).pair (Codec.uint 4)))))))))).via
    (fun p => .ok ⟨p.1.1, p.1.2.1, p.1.2.2, p.2.1, p.2.2.1.1, p.2.2.1.2.1, p.2.2.1.2.2.1,
      p.2.2.1.2.2.2.1, p.2.2.1.2.2.2.2.1, p.2.2.1.2.2.2.2.2, p.2.2.2.1, p.2.2.2.2.1,
      p.2.2.2.2.2.1, p.2.2.2.2.2.2.1, p.2.2.2.2.2.2.2.1, p.2.2.2.2.2.2.2.2⟩)
    (fun v => .ok ((v.id, v.stateSchemaVersion, v.header), v.seats,
      (v.actedMask, v.leaveAfterHandMask, v.button, v.lastBbSeat, v.pot, v.communityCards),
      v.handPhase, v.deckState, v.chipPool, v.runItTwiceState, v.handId, v.callSeq)) (by
    rintro ⟨⟨id, schema, header⟩, seats, ⟨acted, leaving, button, lastBb, pot, board⟩, phase, deck,
      pool, rit, handId, callSeq⟩ v
    cases v
    simp [eq_comm, and_assoc])

namespace Persisted

/-- The record of a table, but for what may be refused. -/
def ofTable (w : Table G) (version : ℕ) (header : H) (seats : List (Seat G))
    (handPhase : HandPhase G) : Persisted H G where
  id := w.id
  stateSchemaVersion := version
  header
  seats
  actedMask := w.actedMask
  leaveAfterHandMask := w.leaveAfterHandMask
  button := w.button
  lastBbSeat := w.lastBbSeat
  pot := w.pot
  communityCards := w.communityCards
  handPhase
  deckState := w.deckState
  chipPool := w.chipPool
  runItTwiceState := w.runItTwiceState
  handId := w.handId
  callSeq := w.callSeq

/-- The table of a record, with rules, creator and slots from elsewhere. -/
def toTable (v : Persisted H G) (rules : TableRules) (creator : Address)
    (seats : Fin maxSeats → Seat G) : Table G where
  id := v.id
  creator
  rules
  seats
  actedMask := v.actedMask
  leaveAfterHandMask := v.leaveAfterHandMask
  button := v.button
  lastBbSeat := v.lastBbSeat
  pot := v.pot
  communityCards := v.communityCards
  handPhase := v.handPhase
  deckState := v.deckState
  chipPool := v.chipPool
  runItTwiceState := v.runItTwiceState
  handId := v.handId
  callSeq := v.callSeq

end Persisted

/-- The record of a resolved table. -/
abbrev PersistedTexasPokerTable (G : Type) := Persisted (Address × TableRules) G

def persistedTexasPokerTable (point : Codec G) : Format (PersistedTexasPokerTable G) :=
  persisted (address.pair tableRules) point

/-- One opening that a hot table commits to. -/
structure TableContextBinding (D : Type) where
  objectId : ObjectID
  digest : D
  deriving DecidableEq

/-- The openings that a hot table commits to. -/
structure TableContextBindings (D : Type) where
  rules : TableContextBinding D
  governance : TableContextBinding D
  deriving DecidableEq

def tableContextBinding (digest : Codec D) : Codec (TableContextBinding D) :=
  (objectID.pair digest).via (fun p => .ok ⟨p.1, p.2⟩) (fun b => .ok (b.objectId, b.digest)) (by
    rintro ⟨id, digest⟩ b
    cases b
    simp [eq_comm])

def tableContextBindings (digest : Codec D) : Codec (TableContextBindings D) :=
  ((tableContextBinding digest).pair (tableContextBinding digest)).via
    (fun p => .ok ⟨p.1, p.2⟩) (fun b => .ok (b.rules, b.governance)) (by
    rintro ⟨rules, governance⟩ b
    cases b
    simp [eq_comm])

/-- The record of a hot table. -/
abbrev PersistedTexasPokerHotTable (D G : Type) := Persisted (TableContextBindings D) G

def persistedTexasPokerHotTable (digest : Codec D) (point : Codec G) :
    Format (PersistedTexasPokerHotTable D G) :=
  persisted (tableContextBindings digest) point

/-! ## Openings -/

/-- The rules and the administrator that a hot table is opened with. -/
structure TableContextOpenings where
  rules : TableRules
  creator : Address
  deriving DecidableEq, Repr

def TableContextOpenings.fromTable (w : Table G) : TableContextOpenings := ⟨w.rules, w.creator⟩

def TableContextOpenings.validateCanonical (o : TableContextOpenings) : PokerL1Result Unit := do
  o.rules.validateCanonical
  ensure (o.creator ≠ emptyPlayer) (.serialization "Texas governance creator is empty")

/-- The 32-byte hash with the address that its first 20 bytes are, and its own encoding. -/
structure Blake2b (D : Type) where
  hash : Bytes → D
  creatorAddress : D → Address
  codec : Codec D

namespace Blake2b

variable (b : Blake2b D)

def idBytes (id : ObjectID) : Bytes :=
  (leBytes 20 id.creatorAddress.toNat).reverse ++ leBytes 8 id.creationNonce

def rulesContextDomain : Bytes := textBytes "zchain.texas_poker.rules.v1"

def governanceContextDomain : Bytes := textBytes "zchain.texas_poker.governance.v1"

def deriveContextObjectId (tableId : ObjectID) (domain : Bytes) : ObjectID where
  creatorAddress := b.creatorAddress
    (b.hash (textBytes "zchain.texas_poker.context_object_id.v1" ++ idBytes tableId ++ domain))
  creationNonce := 0

def contextDigest {α : Type} (tableId : ObjectID) (domain : Bytes) (c : Codec α) (value : α) :
    PokerL1Result D := do
  let encoded ← labelled "Texas context opening borsh" (c.encode value)
  return b.hash (domain ++ idBytes tableId ++ encoded)

def tableContextBindings (tableId : ObjectID) (o : TableContextOpenings) :
    PokerL1Result (TableContextBindings D) := do
  o.validateCanonical
  let rules ← b.contextDigest tableId rulesContextDomain tableRules o.rules
  let governance ← b.contextDigest tableId governanceContextDomain address o.creator
  return {
    rules := ⟨b.deriveContextObjectId tableId rulesContextDomain, rules⟩
    governance := ⟨b.deriveContextObjectId tableId governanceContextDomain, governance⟩ }

end Blake2b

/-! ## Storing and restoring -/

section Codec

variable [AddCommGroup G] [DecidableEq G]

/-- The slots in play. -/
def activeSeats (w : Table G) : List (Seat G) := (List.ofFn w.seats).take w.rules.maxPlayers

def persistedSeats (w : Table G) : PokerL1Result (List (Seat G)) := do
  (activeSeats w).forM Seat.validateCanonical
  return activeSeats w

def canonicalHandPhase (w : Table G) : PokerL1Result (HandPhase G) := do
  w.view.validateHandPhase
  return w.handPhase

/-- The record of a table under a schema version and what stands ahead of its seats. -/
def persist (w : Table G) (version : ℕ) (header : H) : PokerL1Result (Persisted H G) := do
  let seats ← persistedSeats w
  let handPhase ← canonicalHandPhase w
  return .ofTable w version header seats handPhase

def restoreSeats (seats : List (Seat G)) (maxPlayers : ℕ) :
    PokerL1Result (Fin maxSeats → Seat G) := do
  ensure (seats.length ≤ 9)
    (.serialization s!"Texas persisted seat count {seats.length} exceeds MAX_PLAYERS")
  ensure (seats.length = maxPlayers) (.serialization
    s!"Texas persisted seat layout mismatch: max_players={maxPlayers}, seats={seats.length}")
  seats.forM Seat.validateCanonical
  return fun i => seats.getD i.1 .empty

def restoreTable (v : Persisted H G) (rules : TableRules) (creator : Address) :
    PokerL1Result (Table G) := do
  let seats ← restoreSeats v.seats rules.maxPlayers
  let table := v.toTable rules creator seats
  table.validateStateSchema
  return table

/-- A check of the table, as its reader reports it. -/
def refuse {α : Type} (x : PokerL1Result α) : Except ReadFailure α :=
  x.mapError fun e => .invalid e.text

/-- Name what failed; a panic is no report. -/
def relabel {α : Type} (label : String) (x : Except ReadFailure α) : Except ReadFailure α :=
  x.mapError fun
    | .invalid e => .invalid (PokerL1Error.serialization s!"{label}: {e}").text
    | .panic => .panic

/-- Read the whole input. -/
def readAll {α : Type} (r : Reader α) (input : Bytes) : Except ReadFailure α := do
  let (a, rest) ← r input
  ensure (rest = []) (.invalid "Not all bytes read")
  return a

variable (point : Codec G) (b : Blake2b D)

/-- A resolved table from its record. -/
def ofPersisted (v : PersistedTexasPokerTable G) : PokerL1Result (Table G) := do
  ensure (v.stateSchemaVersion = tableStateSchemaVersion)
    (.serialization s!"unsupported canonical Texas schema {v.stateSchemaVersion}")
  restoreTable v v.header.2 v.header.1

def serialize (w : Table G) : Except String Bytes := do
  w.validateStateSchema.mapError PokerL1Error.text
  let v ← (persist w tableStateSchemaVersion (w.creator, w.rules)).mapError PokerL1Error.text
  (persistedTexasPokerTable point).encode v

def encodeTableState (w : Table G) : PokerL1Result Bytes := do
  w.validateStateSchema
  labelled "TexasPokerTable borsh" (serialize point w)

/-- The version is looked at ahead of the record, whose reader then starts over. -/
def deserializeReader : Reader (Table G) := fun input => do
  let (_, mid) ← report objectID.decode input
  let (schema, _) ← report (Codec.uint 1).decode mid
  ensure (schema = tableStateSchemaVersion)
    (.invalid s!"unsupported Texas table schema {schema}")
  let (v, rest) ← (persistedTexasPokerTable point).read input
  let w ← refuse (ofPersisted v)
  return (w, rest)

def decodeTableState (bytes : Bytes) : Except ReadFailure (Table G) := do
  let w ← relabel s!"TexasPokerTable must use current resolved schema v{tableStateSchemaVersion}"
    (readAll (deserializeReader point) bytes)
  refuse w.validateStateSchema
  return w

def encodeHotTableState (w : Table G) : PokerL1Result Bytes := do
  w.validateStateSchema
  let context ← b.tableContextBindings w.id (.fromTable w)
  let v ← persist w hotStateSchemaVersion context
  labelled "Texas hot table borsh" ((persistedTexasPokerHotTable b.codec point).encode v)

def decodeHotTableState [DecidableEq D] (bytes : Bytes) (o : TableContextOpenings) :
    Except ReadFailure (Table G) := do
  let v ← relabel "Texas hot table v31 borsh"
    (readAll (persistedTexasPokerHotTable b.codec point).read bytes)
  refuse (ensure (v.stateSchemaVersion = hotStateSchemaVersion)
    (.serialization s!"unsupported Texas hot table schema {v.stateSchemaVersion}"))
  let context ← refuse (b.tableContextBindings v.id o)
  refuse (ensure (v.header = context)
    (.serialization "Texas hot table context binding/opening mismatch"))
  refuse (restoreTable v o.rules o.creator)

end Codec

end TexasPoker.Wire
