import TexasPoker.Appchain.Ledger
import TexasPoker.Core.Table

/-! # The appchain exit

A hand is settled on the appchain from its mirror: the hand is projected, its plan derived,
the ledger brought up to date, and the settlement submitted and proved.
-/

namespace TexasPoker.Appchain

open Fallible Hooks

variable {G σ : Type}

/-! ## Projection -/

structure HandParticipant where
  wallet : Wallet
  stack : ℕ

/-- A participant by its seat in the mirror. -/
structure Participant where
  seatIdx : ℕ
  wallet : ℕ
  totalBet : ℕ
  stack : ℕ

/-- One seat of the projection. -/
structure ProjectedSeat where
  totalBet : ℕ
  inactive : Bool
  allIn : Bool
  holeCards : List ℕ
  participant : Option Participant

/-- A vacant seat. -/
def ProjectedSeat.vacant : ProjectedSeat := ⟨0, true, false, [], none⟩

structure MirrorProjection where
  snapshot : TableSnapshot
  boards : List (List ℕ)
  participants : List Participant
  mirrorPot : ℕ

/-- Total bet, folded, all-in and cards of a seat that is not vacant. -/
def seatView (s : Seat G) : Option (ℕ × Bool × Bool × List Card) :=
  match s with
  | .playing p => some (p.totalBet, s.isFolded || s.hasLeftHand, s.isAllIn, p.hand.cards)
  | .departedThisHand _ totalBet _ => some (totalBet, true, false, [])
  | .waiting _ => some (0, true, false, [])
  | .vacant _ => none

/-- Match a seat with its participant. A seat that contests the pot shows two cards. -/
def projectSeat (keys : Keys) (seatIdx : ℕ) (view : ℕ × Bool × Bool × List Card)
    (participant : HandParticipant) : Except String ProjectedSeat := do
  let (totalBet, folded, allIn, cards) := view
  let wallet ← orErr (keys.parseWalletFelt participant.wallet)
    s!"wallet unparsable: {participant.wallet}"
  ensure (folded ∨ cards.length = 2)
    (s!"contested seat {seatIdx} hole cards not materialized ({cards.length}); " ++
      "appchain exit unsupported — legacy fallback")
  return {
    totalBet
    inactive := folded
    allIn
    holeCards := if folded then [] else cards.map Card.index
    participant := some ⟨seatIdx, wallet, totalBet, participant.stack⟩ }

/-- The seats take the participants in order. -/
def projectSeats (keys : Keys) : ℕ → List (Seat G) → List HandParticipant →
    Except String (List ProjectedSeat × List HandParticipant)
  | _, [], rest => .ok ([], rest)
  | seatIdx, s :: seats, rest =>
    match seatView s, rest with
    | none, _ => do
      let (out, rest) ← projectSeats keys (seatIdx + 1) seats rest
      return (.vacant :: out, rest)
    | some _, [] => .error "mirror seat without matching HandStart participant"
    | some view, participant :: rest => do
      let seat ← projectSeat keys seatIdx view participant
      let (out, rest) ← projectSeats keys (seatIdx + 1) seats rest
      return (seat :: out, rest)

/-- What the settlement core reads of a mirror; only hands that were shown down. -/
def projectSnapshot (keys : Keys) (table : TexasPokerTable G)
    (participants : List HandParticipant) : Except String MirrorProjection := do
  let board := table.communityCards.cards.map Card.index
  ensure (board.length = 5)
    (s!"appchain exit supports river-showdown hands only (board {board.length}); " ++
      "fold-win/early hands fall back to legacy")
  let (seats, rest) ← projectSeats keys 0 ((List.finRange maxSeats).map table.seats) participants
  ensure (rest = [])
    (s!"participant/mirror mismatch: {participants.length - rest.length} joined vs " ++
      s!"{participants.length} recorded")
  let out := seats.filterMap ProjectedSeat.participant
  ensure (∃ p ∈ out, p.totalBet ≠ 0) "no seat contributions in mirror snapshot"
  return {
    snapshot := {
      seatCount := maxSeats
      button := min table.button (maxSeats - 1)
      totalBets := seats.map ProjectedSeat.totalBet
      inactive := seats.map ProjectedSeat.inactive
      allIn := seats.map ProjectedSeat.allIn
      holeCards := seats.map ProjectedSeat.holeCards
      rakeMode := table.rules.rakeMode
      rakeBps := table.rules.rakeBps
      rakeCap := table.rules.rakeCap }
    boards := [board]
    participants := out
    mirrorPot := table.pot }

/-- Fold the last seat, and collect the bets of the round. -/
def applyPendingFinalFold (snap : TexasPokerTable G) (seat : ℕ) : TexasPokerTable G :=
  let table := snap.setSeat seat ((snap.seat seat).setStatus .folded)
  let total := ((List.finRange maxSeats).map fun i => (table.seats i).bet).sum
  { table.mapSeats Seat.clearBet with pot := table.pot + total }

/-- The mirror of a hand. -/
structure VmTable (G : Type) where
  table : TexasPokerTable G
  preSettlement : Option (TexasPokerTable G)
  preSettlementFinalFold : Option ℕ

/-- The table before its payouts. -/
def VmTable.settleTable (mirror : VmTable G) : TexasPokerTable G :=
  match mirror.preSettlementFinalFold, mirror.preSettlement with
  | some seat, some snap => applyPendingFinalFold snap seat
  | _, some snap => snap
  | _, none => mirror.table

/-! ## Ledger -/

structure SeatInput where
  seatIdx : ℕ
  wallet : ℕ
  input : SettleInput

/-- An owner signs the spending of a note. -/
def auth (keys : Keys) (wallet : ℕ) (note : Note) (scope : List ℕ) (effect : ℕ) : SpendAuth :=
  let nullifier := keys.nullifier note (keys.spendSecretOf wallet)
  let digest := keys.spendDigest (keys.commitmentBytes note) nullifier scope effect
  { commitment := keys.commitmentBytes note, nullifier, sig := keys.sign wallet digest }

namespace AppchainRuntime

variable (rt : AppchainRuntime σ)

/-- The first note of the ledger with a property. -/
def findNote (p : NoteEntry → Bool) : Effect (World σ) Failure (Option Note) :=
  view fun s => ((rt.chain.notes s).find? p).map NoteEntry.note

/-- The value of an option, or an error with a text. -/
def orErr {α : Type} (o : Option α) (message : String) : Effect (World σ) Failure α :=
  .ofExcept (Fallible.orErr o (.err message))

/-- Fail with a text unless a condition holds. -/
def require (p : Prop) [Decidable p] (message : String) : Effect (World σ) Failure Unit :=
  .ofExcept (ensure p (.err message))

/-- A computation of the settlement core, with a text in front of its error. -/
def labelled {α : Type} (label : String) (x : Except String α) : Effect (World σ) Failure α :=
  .ofExcept (x.mapError fun message => .err s!"{label}: {message}")

/-- Submit an operation, and mark it proven. -/
def submitProven (hand : Hand) (op : Operation) (label : String) :
    Effect (World σ) Failure ℕ := do
  let frame ← (rt.submitOperation hand op).mapError (.labelled label)
  external (rt.chain.markProven frame)
  return frame

/-- Open the table the first time; a closed one stays closed. -/
def ensureTable (hand : Hand) (policy : FeePolicy) : Effect (World σ) Failure Unit := do
  match ← view fun s => rt.chain.tableOpen s hand.tableId with
  | some true => return ()
  | some false => throw (.err s!"table {hand.tableId} closed in appchain ledger")
  | none =>
    labelled "fee policy invalid" (rt.chain.validatePolicy policy)
    let _ ← rt.submitProven hand (.openTable hand.tableId policy) "open table rejected"

/-- The balance of a player, at least the stack. Only play money is minted here. -/
def ensureBalance (hand : Hand) (p : Participant) (owner : ℕ) :
    Effect (World σ) Failure Note := do
  let assetClass := rt.config.assetClass
  match ← rt.findNote fun e => decide (e.note.owner = owner ∧ e.note.tableId = none ∧
      e.note.assetClass = assetClass ∧ p.stack ≤ e.note.amount) with
  | some note => return note
  | none =>
    match assetClass with
    | .play =>
      let depositId := rt.chain.blake2s32 "texas-appchain.seat-deposit.v1"
        [hand.tableId, hand.handId, p.wallet]
      let frame ← rt.submitProven hand (.deposit depositId owner assetClass p.stack)
        "seat deposit rejected"
      orErr (← rt.findNote fun e => e.createdAtOp = frame) "minted deposit note not found"
    | .real =>
      throw (.err (s!"REAL balance insufficient for seat {p.seatIdx} (need {p.stack} wei) " ++
        "— deposit bridge must fund first"))

/-- Split a note in two by a transfer. -/
def splitNote (hand : Hand) (p : Participant) (note : Note) (outputs : List NoteSpec)
    (label : String) : Effect (World σ) Failure ℕ :=
  let effect := rt.chain.effectDigest (.transfer [] [] outputs)
  let spend := auth rt.chain.toKeys p.wallet note rt.chain.transferScope effect
  rt.submitProven hand (.transfer [spend] [note] outputs) label

/-- A balance note of exactly the stack. -/
def exactBalance (hand : Hand) (p : Participant) (owner : ℕ) (balance : Note) :
    Effect (World σ) Failure Note := do
  let assetClass := rt.config.assetClass
  if p.stack < balance.amount then
    let outputs := [⟨assetClass, p.stack, owner, none, 0, 0⟩,
      ⟨assetClass, balance.amount - p.stack, owner, none, 0, 0⟩]
    let frame ← rt.splitNote hand p balance outputs "balance split rejected"
    orErr (← rt.findNote fun e => decide (e.createdAtOp = frame ∧ e.note.amount = p.stack))
      "split balance note not found"
  else return balance

/-- The note of a player's seat, by its amount. -/
def seatNoteOfAmount (hand : Hand) (owner want : ℕ) : Effect (World σ) Failure (Option Note) :=
  rt.findNote fun e => decide (e.note.owner = owner ∧ e.note.tableId = some hand.tableId ∧
    e.note.amount = want ∧ e.note.assetClass = rt.config.assetClass)

/-- Buy the player in, unless the seat has its note. -/
def ensureSeatNote (hand : Hand) (p : Participant) (owner : ℕ) (balance : Note) :
    Effect (World σ) Failure Note := do
  match ← rt.seatNoteOfAmount hand owner p.stack with
  | some note => return note
  | none =>
    let effect := rt.chain.effectDigest (.buyIn hand.tableId [] [] owner)
    let spend := auth rt.chain.toKeys p.wallet balance rt.chain.buyInScope effect
    let _ ← rt.submitProven hand (.buyIn hand.tableId [spend] [balance] owner) "buy-in rejected"
    orErr (← rt.seatNoteOfAmount hand owner p.stack) "minted seat note not found"

/-- A seat note of exactly the total bet. -/
def splitSeatNote (hand : Hand) (p : Participant) (owner : ℕ) (seat : Note) :
    Effect (World σ) Failure Note := do
  let assetClass := rt.config.assetClass
  if seat.amount = p.totalBet then return seat
  else
    let rest := seat.amount - p.totalBet
    let bet : NoteSpec := ⟨assetClass, p.totalBet, owner, some hand.tableId, 0, 0⟩
    let outputs := if 0 < rest then [bet, ⟨assetClass, rest, owner, none, 0, 0⟩] else [bet]
    let _ ← rt.splitNote hand p seat outputs "seat split rejected"
    orErr (← rt.seatNoteOfAmount hand owner p.totalBet) "split seat note not found"

/-- The input of one participant; who bet nothing has none. -/
def ensureSeat (hand : Hand) (p : Participant) : Effect (World σ) Failure (Option SeatInput) := do
  if p.totalBet = 0 then return none
  else
    require (p.stack ≠ 0) s!"seat {p.seatIdx} has total_bet but zero start stack"
    let owner := rt.chain.ownerKeyOf p.wallet
    let balance ← rt.ensureBalance hand p owner
    let balance ← rt.exactBalance hand p owner balance
    let seat ← rt.ensureSeatNote hand p owner balance
    let settleSeat ← rt.splitSeatNote hand p owner seat
    return some ⟨p.seatIdx, p.wallet, ⟨settleSeat, .placeholder⟩⟩

def ensureSeats (hand : Hand) (participants : List Participant) :
    Effect (World σ) Failure (List SeatInput) := do
  let out := (← participants.mapM (rt.ensureSeat hand)).reduceOption
  require (out ≠ []) "no settle-able seats after ledger sync"
  return out

/-! ## Settlement -/

/-- The digest of the archive. -/
def archiveDigest (hp : Option HandProofBinding) : Option ℕ := do
  rt.chain.parseArchive (← hp).archiveBytes

def handBindingDerived (hand : Hand) : ℕ :=
  rt.chain.blake2s32 "texas-appchain.hand-binding.v1" [hand.tableId, hand.handId]

/-- The note that pays one award, if there is one. -/
def payoutOf (assetClass : AssetClass) (ownerOfSeat : ℕ → Option ℕ) (potIndex runoutIndex : ℕ)
    (award : ℕ × ℕ) : Except String (Option NoteSpec) :=
  let (amount, seat) := award
  if amount = 0 then .ok none
  else do
    let owner ← Fallible.orErr (ownerOfSeat seat)
      s!"plan awards seat {seat} without a settle input (unprovable)"
    return some ⟨assetClass, amount, owner, none, potIndex, runoutIndex⟩

/-- The payouts of a plan by pot, board and seat. -/
def payoutsOf (assetClass : AssetClass) (ownerOfSeat : ℕ → Option ℕ) (plan : SettlementPlan) :
    Except String (List NoteSpec) := do
  let specs ← plan.pots.mapM fun pot => do
    let activeRunouts := if pot.isContested then plan.runoutCount else 1
    let specs ← (pot.runouts.zipIdx.take activeRunouts).mapM fun (runout, runoutIndex) =>
      runout.awards.zipIdx.mapM
        (payoutOf assetClass ownerOfSeat pot.potIndex (min runoutIndex 255))
    return specs.flatten
  return specs.flatten.reduceOption

/-- The record of a settlement, signed by every owner. -/
def buildRecord (hand : Hand) (handBinding : ℕ) (plan : SettlementPlan) (seats : List SeatInput)
    (policy : FeePolicy) (handProof : Option HandProofBinding) :
    Except String SettlementRecord := do
  let keys := rt.chain.toKeys
  let ownerOfSeat seat := (seats.reverse.find? fun s => s.seatIdx = seat).map fun s =>
    keys.ownerKeyOf s.wallet
  let first ← Fallible.orErr seats.head? "no seats"
  let payouts ← payoutsOf first.input.note.assetClass ownerOfSeat plan
  let record : SettlementRecord := {
    tableId := hand.tableId
    handBinding
    policyCommitment := keys.policyCommitment policy
    pot := plan.grossPot
    inputs := seats.map SeatInput.input
    payouts
    rake := ⟨plan.rake, none, none⟩
    plan
    handProof }
  let (treasuryOut, operatorOut) := keys.rakeOutputs record policy
  let record := { record with rake := { record.rake with treasuryOut, operatorOut } }
  let scope := keys.settleSpendScope handBinding
  let named (s : SeatInput) : SettleInput := { s.input with
    spend := { s.input.spend with
      commitment := keys.commitmentBytes s.input.note
      nullifier := keys.nullifier s.input.note (keys.spendSecretOf s.wallet) } }
  let record := { record with inputs := seats.map named }
  let effect := keys.settleEffect record
  return { record with inputs := seats.map fun s =>
    { s.input with spend := auth keys s.wallet s.input.note scope effect } }

structure AppchainSettleReceipt where
  settleOpIndex : ℕ
  handBinding : ℕ
  proven : Bool
  batchRoot : Option ℕ

/-- Real money needs the archive of its hand. -/
def requireArchive (handProof : Option HandProofBinding) : Effect (World σ) Failure Unit :=
  require (¬ (rt.config.assetClass = .real ∧ handProof = none))
    ("REAL settlement requires canonical archive (hand_proof); no producer wired — " ++
      "falling back to legacy")

/-- Everything before the settlement is submitted. -/
def prepareSettlement (hand : Hand) (projection : MirrorProjection) (rakeCollected : ℕ)
    (handProof : Option HandProofBinding) : Effect (World σ) Failure SettlementRecord := do
  rt.requireArchive handProof
  let plan ← labelled "settlement-core derive failed"
    (rt.chain.deriveSettlementPlan projection.snapshot projection.boards)
  require (plan.grossPot = projection.mirrorPot)
    (s!"mirror pot mismatch: plan gross_pot {plan.grossPot} vs mirror pot " ++
      s!"{projection.mirrorPot}")
  require (plan.rake = rakeCollected)
    s!"rake mismatch: settlement-core plan {plan.rake} vs game layer {rakeCollected}"
  rt.ensureTable hand rt.feePolicy
  let seats ← rt.ensureSeats hand projection.participants
  let handBinding := (rt.archiveDigest handProof).getD (rt.handBindingDerived hand)
  let record ← .ofExcept ((rt.buildRecord hand handBinding plan seats rt.feePolicy
    handProof).mapError .err)
  labelled "settlement record invalid" (rt.chain.validateSettlement record rt.feePolicy)
  return record

/-- The proof of an accepted settlement. -/
def proofJob (hand : Hand) (record : SettlementRecord) (frame : ℕ) : ProofJob where
  opIndex := frame
  tableId := hand.tableId
  record
  policy := rt.feePolicy
  priority := match rt.config.assetClass with
    | .real => .real
    | .play => .play

/-- Wait for the proof. A wait that ends with an error leaves the settlement unproven. -/
def awaitProven (frame : ℕ) : Effect (World σ) Failure Bool := do
  match ← (external (rt.chain.awaitProven frame)).attempt with
  | .ok () => return true
  | .error (.err _) => return false
  | .error .panicked => throw .panicked

/-- Everything after the settlement is accepted. -/
def handOver (hand : Hand) (record : SettlementRecord) (frame : ℕ) :
    Effect (World σ) Failure AppchainSettleReceipt := do
  (external (rt.chain.pipelineSubmit (rt.proofJob hand record frame))).mapError
    (.labelled "pipeline submit rejected")
  let proven ← rt.awaitProven frame
  let batchRoot ← view fun s =>
    if proven then do
      let through ← (rt.chain.batchCoveredThrough s).filter fun t => decide (frame ≤ t)
      rt.chain.batchRootAt s through
    else none
  return { settleOpIndex := frame, handBinding := record.handBinding, proven, batchRoot }

/-- Submit the settlement, and hand its proof over. -/
def submitSettle (hand : Hand) (record : SettlementRecord) :
    Effect (World σ) Failure AppchainSettleReceipt := do
  let frame ← (rt.submitOperation hand (.settle record)).mapError
    (.labelled "sequencer settle rejected")
  rt.handOver hand record frame

def settleFromProjection (hand : Hand) (projection : MirrorProjection) (rakeCollected : ℕ)
    (handProof : Option HandProofBinding) : Effect (World σ) Failure AppchainSettleReceipt := do
  let record ← rt.prepareSettlement hand projection rakeCollected handProof
  rt.submitSettle hand record

end AppchainRuntime

/-- What a completed hand hands to the exit. -/
structure SettleRequest (G : Type) where
  mirror : VmTable G
  participants : List HandParticipant
  rakeCollected : ℕ
  handProof : Option HandProofBinding

/-- Settle a hand from its mirror. -/
def settleFromMirror (rt : Option (AppchainRuntime σ)) (hand : Hand) (request : SettleRequest G) :
    Effect (World σ) Failure AppchainRuntime.AppchainSettleReceipt := do
  let rt ← AppchainRuntime.orErr rt "appchain runtime not initialized"
  rt.requireArchive request.handProof
  let projection ← .ofExcept ((projectSnapshot rt.chain.toKeys request.mirror.settleTable
    request.participants).mapError .err)
  rt.settleFromProjection hand projection request.rakeCollected request.handProof

end TexasPoker.Appchain
