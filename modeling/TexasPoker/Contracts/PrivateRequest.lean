import TexasPoker.Contracts.AutoDefaults

/-! # The private settlement request

The server builds a request from the results of a hand and its action log, writes it out as
the arguments of the circuit, and predicts the public segment.
-/

namespace TexasPoker.Contracts

open Fallible

/-! ## The request -/

/-- One slot of the arrays of players, signs and magnitudes. -/
structure RequestSlot where
  player : Felt
  sign : ℕ
  magnitude : ℕ
  deriving DecidableEq

/-- A request for a proof; wire words stand for the field elements they are written from. -/
structure SettlementPrivateRequest where
  handId : Fin u32Bound
  handBinding : Felt
  registeredDigest : Felt
  slots : List RequestSlot
  nParticipants : ℕ
  commitments : List Felt
  actionLogDigest : Felt
  actionEntries : List Felt
  deriving DecidableEq

/-- The accumulators of the loop over the results. -/
structure RequestFold where
  slots : List RequestSlot
  nParticipants : ℕ
  sum : ℤ

/-- One result: its slot, and whether it counts as a participant. -/
def requestStep (players : List Felt) (s : RequestFold) (result : ℤ × ℕ) :
    Except String RequestFold := do
  let (delta, i) := result
  ensure (delta.natAbs < u64Bound) s!"|delta| at seat {i} exceeds u64"
  let slot : RequestSlot := ⟨players.getD i 0, if 0 ≤ delta then 1 else 0, delta.natAbs⟩
  let nParticipants := if delta ≠ 0 then s.nParticipants + 1 else s.nParticipants
  let sum := s.sum + delta
  ensure (-2 ^ 127 ≤ sum ∧ sum < 2 ^ 127) s!"delta sum overflow at seat {i}"
  return ⟨s.slots ++ [slot], nParticipants, sum⟩

/-- The request for a hand; its digest folds the players that took part. -/
def buildRequest (P : Primitives) (handId : Fin u32Bound) (handBinding : Felt)
    (players : List Felt) (deltas : List ℤ) (commitments : List Felt) (actionLogDigest : Felt)
    (actionEntries : List (Felt × Felt)) : Except String SettlementPrivateRequest := do
  let entries := actionEntries.length
  ensure (entries ≤ maxActions)
    s!"action log has {entries} entries, exceeds circuit maximum 30"
  ensure (players.length ≤ nPlayers ∧ deltas.length ≤ nPlayers)
    "participants exceed circuit maximum of 8"
  let fold ← deltas.zipIdx.foldlM (requestStep players) ⟨[], 0, 0⟩
  ensure (fold.sum = 0) "settlement is not zero-sum"
  commitments.zipIdx.forM fun (commitment, i) =>
    ensure (¬ (0 < deltas.getD i 0 ∧ commitment = 0))
      s!"winner at seat {i} has no payout commitment"
  let slots := fold.slots ++ List.replicate (nPlayers - fold.slots.length) ⟨0, 0, 0⟩
  let fields := (slots.take players.length).flatMap fun s =>
    [s.player, natFelt s.sign, natFelt s.magnitude]
  return { handId
           handBinding
           registeredDigest := P.poseidon (natFelt handId :: (fields ++ [actionLogDigest]))
           slots
           nParticipants := fold.nParticipants
           commitments
           actionLogDigest
           actionEntries := actionEntries.flatMap fun e => [e.1, e.2] }

namespace SettlementPrivateRequest

variable (r : SettlementPrivateRequest)

/-- The two words of an entry slot; an unused slot holds zeros. -/
def actionPair (i : ℕ) : List Felt :=
  if i * 2 + 2 ≤ r.actionEntries.length then
    [slot r.actionEntries (i * 2), slot r.actionEntries (i * 2 + 1)]
  else [0, 0]

/-- The arguments of the circuit. -/
def inputsFelts : List Felt :=
  [natFelt r.handId, r.registeredDigest, natFelt r.nParticipants, r.handBinding] ++
    r.slots.map RequestSlot.player ++ r.slots.map (fun s => natFelt s.sign) ++
    r.slots.map (fun s => natFelt s.magnitude) ++ r.commitments ++
    [r.actionLogDigest, natFelt (r.actionEntries.length / 2)] ++
    (List.range maxActions).flatMap r.actionPair

/-- The claims that the server expects of the winners. -/
def deriveClaimCms (P : Primitives) : List Felt :=
  (r.slots.zip r.commitments).map fun (s, commitment) =>
    if s.sign = 1 ∧ s.magnitude ≠ 0 then
      P.poseidon [commitment, r.handBinding, natFelt s.magnitude, 0]
    else 0

/-- The total that the server expects, which stops at the largest 64-bit value. -/
def totalWinnings : ℕ :=
  r.slots.foldl (fun total s =>
    if s.sign = 1 ∧ s.magnitude ≠ 0 then min (total + s.magnitude) u64Max else total) 0

/-- The public segment that the server expects. -/
def publicSegmentFelts (P : Primitives) : List Felt :=
  [settlementSegmentMagic, natFelt r.handId, r.registeredDigest, natFelt r.nParticipants,
    r.handBinding] ++ r.deriveClaimCms P ++ [natFelt r.totalWinnings, r.actionLogDigest]

end SettlementPrivateRequest

/-- The words of a log, as the submission lists them. -/
def actionPairs (log : List ActionLogEntry) : Option (List (Felt × Felt)) :=
  log.mapM fun e => do
    return (← actionEntryWord e, ← legalityWord e)

/-! ## The arguments of the circuit -/

/-- The named arguments of the circuit, taken from their positions. -/
def SettlementInputs.ofFelts (args : List Felt) : SettlementInputs where
  handId := slot args 0
  registeredDigest := slot args 1
  nExpected := slot args 2
  handBinding := slot args 3
  entries := (List.range nPlayers).map fun i =>
    ⟨slot args (4 + i), slot args (12 + i), slot args (20 + i)⟩
  commitments := (List.range nPlayers).map fun i => slot args (28 + i)
  actionLogDigest := slot args 36
  actionCount := slot args 37
  words := (List.range (2 * maxActions)).map fun i => slot args (38 + i)
  length_entries := by simp
  length_commitments := by simp
  length_words := by simp

/-- A run of the circuit on a list of arguments. -/
def settlementMain (P : Primitives) (args : List Felt) : Revert (List Felt) := do
  ensure (args.length = 38 + 2 * maxActions) "wrong number of arguments"
  settlementPrivate P (.ofFelts args)

end TexasPoker.Contracts
