import TexasPoker.Runtime.Session
import TexasPoker.Runtime.Transparent

/-! # Honest clients

Calls that honest players and the host make on the transparent curve, and their runs: each
step reads the table it is made on.
-/

namespace TexasPoker.Transparent

/-- What a player or the host does next. -/
inductive ClientStep where
  | join (player : Address) (buyIn : ℕ) (sk : ℤ)
  | start
  | shuffle (seat : ℕ)
  | reveal (seat : ℕ)
  | reconstruct (seat : ℕ)
  | act (command : CanonicalCommand) (seat : ℕ) (payload : Bytes)
  | foldWithProof (seat : ℕ)
  | kick (seat : ℕ)
  | advance (nowMs : ℕ)
  deriving DecidableEq

/-- The bytes `readAddress` reads. -/
def addressBytes (a : Address) : Bytes :=
  (List.range 20).map fun i => (a >>> (8 * (19 - i))).setWidth 8

def writeVec {α : Type} (write : α → Bytes) (l : List α) : Bytes :=
  leBytes 4 l.length ++ l.flatMap write

def writeCard (c : ElGamalCiphertext ℤ) : Bytes := writeInt c.c1 ++ writeInt c.c2

def writeStatement (s : ReconstructionStatement ℤ (ElGamalCiphertext ℤ)) : Bytes :=
  writeInt s.aggregatePk ++ writeInt s.ownerPk ++ writeVec writeInt s.cards ++
    writeVec writeCard s.residualCarriers ++ leBytes 32 s.contextDigest.toNat ++
    leBytes 32 s.priorStateDigest.toNat ++ leBytes 8 s.reconstructionEpoch ++
    writeVec writeCard s.contributions

/-- The secret key of a seat, which is its public key. -/
def secretKey (t : TexasPokerTable ℤ) (seat : ℕ) : ℤ := (t.seat seat).pk.getD 0

/-- The tokens a seat owes, in order. -/
def owedTokens (t : TexasPokerTable ℤ) (seat : ℕ) : List ℤ :=
  (t.revealAssignments.filter fun a => seatMaskContains a.pendingMask seat).map fun a =>
    match t.revealCiphertext seat a with
    | .ok c => secretKey t seat * c.c1
    | .error _ => 0

/-- The deck without the layer of a seat, whose own slots stay. -/
def foldedDeck (t : TexasPokerTable ℤ) (seat : ℕ) : List (ElGamalCiphertext ℤ) :=
  t.deckState.encrypted.toVec.zipIdx.map fun (c, i) =>
    if i ∈ Exec.ownRevealSlots t seat then c else ⟨c.c1, c.c2 - secretKey t seat * c.c1⟩

/-- Contributions that blind no card. -/
def blankContributions : List (ElGamalCiphertext ℤ) := List.replicate 52 ⟨0, 0⟩

/-- The statement the table prescribes for a seat. -/
def statementBytes (t : TexasPokerTable ℤ) (seat : ℕ) : Bytes :=
  match Exec.expectedStatement ⟨t, []⟩ seat blankContributions with
  | .ok s => writeStatement s
  | .error _ => []

/-- The time of every call that does not set its own. -/
abbrev defaultTime : ℕ := 1000000

/-- The call of a seat's player. -/
def seatCall (t : TexasPokerTable ℤ) (command : CanonicalCommand) (seat : ℕ) (payload : Bytes) :
    Call :=
  ⟨⟨(t.seat seat).player, defaultTime⟩, command.selector ℤ, leBytes 1 seat ++ payload⟩

/-- The call of the host. -/
def hostCall (t : TexasPokerTable ℤ) (command : CanonicalCommand) (nowMs : ℕ) (args : Bytes) :
    Call :=
  ⟨⟨t.creator, nowMs⟩, command.selector ℤ, args⟩

/-- The call of a step on a table. -/
def ClientStep.call (t : TexasPokerTable ℤ) : ClientStep → Call
  | .join player buyIn sk =>
    ⟨⟨player, defaultTime⟩, CanonicalCommand.joinTable.selector ℤ,
      addressBytes player ++ leBytes 8 buyIn ++ writeInt sk ++
        (leBytes 1 starkTag ++ leBytes 4 32 ++ leBytes 32 0) ++
        (leBytes 4 64 ++ leBytes 32 1 ++ leBytes 32 (1 + sk).toNat)⟩
  | .start => hostCall t .startHand defaultTime []
  | .shuffle seat =>
    seatCall t .submitShuffleV2 seat (writeVec writeCard t.deckState.encrypted.toVec)
  | .reveal seat =>
    let tokens := owedTokens t seat
    seatCall t .submitPlayerRevealTokens seat
      (writeVec writeInt tokens ++ leBytes 4 tokens.length)
  | .reconstruct seat => seatCall t .submitReconstructDeck seat (statementBytes t seat)
  | .act command seat payload => seatCall t command seat payload
  | .foldWithProof seat => seatCall t .foldWithProof seat (writeVec writeCard (foldedDeck t seat))
  | .kick seat => hostCall t .kickPlayer defaultTime (leBytes 1 seat)
  | .advance nowMs => hostCall t .advanceDeadline nowMs []

/-- Make one step. -/
def takeStep (s : Exec ℤ) (step : ClientStep) : PokerL1Result (Exec ℤ) := s.call (step.call s.table)

/-- Make steps one after another. -/
def play (s : Exec ℤ) (steps : List ClientStep) : PokerL1Result (Exec ℤ) := steps.foldlM takeStep s

/-- The last table of a run; the fresh one when a step is refused. -/
def played (rules : TableRules) (steps : List ClientStep) : TexasPokerTable ℤ :=
  match play ⟨.fresh ⟨7, 0⟩ 7 rules, []⟩ steps with
  | .ok s => s.table
  | .error _ => .fresh ⟨7, 0⟩ 7 rules

theorem play_reachable {s s' : Exec ℤ} {steps : List ClientStep} (h : play s steps = .ok s')
    (hs : (session ℤ).Reachable s) : (session ℤ).Reachable s' := by
  have hstep : ∀ step ∈ steps, ∀ s s', takeStep s step = .ok s' → (session ℤ).Reachable s →
      (session ℤ).Reachable s' := fun step _ s _ h hr => .next (step.call s.table) hr h
  exact Fallible.foldlM_keeps hstep h hs

/-- A run of clients ends on a reachable table. -/
theorem played_reachable {rules : TableRules} (hr : rules.validateCanonical = .ok ())
    (steps : List ClientStep) : (played rules steps).Reachable := by
  have hf : (session ℤ).Reachable ⟨.fresh ⟨7, 0⟩ 7 rules, []⟩ := .init ⟨_, _, rules, hr, rfl⟩
  unfold played
  split
  · rename_i s hs
    exact ⟨s.events, play_reachable hs hf⟩
  · exact ⟨[], hf⟩

/-- Make one step that meets a condition. -/
def takeAllowed (allowed : Exec ℤ → Call → Bool) (s : Exec ℤ) (step : ClientStep) :
    PokerL1Result (Exec ℤ) := do
  let c := step.call s.table
  ensure (allowed s c) (.serialization "the step is not allowed")
  s.call c

/-- The last state of a run whose steps meet a condition. -/
def playAllowed (allowed : Exec ℤ → Call → Bool) (rules : TableRules) (steps : List ClientStep) :
    PokerL1Result (Exec ℤ) :=
  steps.foldlM (takeAllowed allowed) ⟨.fresh ⟨7, 0⟩ 7 rules, []⟩

theorem playAllowed_reachable {allowed : Exec ℤ → Call → Bool} {condition : Exec ℤ → Call → Prop}
    (hc : ∀ s c, allowed s c = true → condition s c) {rules : TableRules}
    (hr : rules.validateCanonical = .ok ()) {steps : List ClientStep} {s : Exec ℤ}
    (h : playAllowed allowed rules steps = .ok s) :
    ((session ℤ).restrict condition).Reachable s := by
  refine Fallible.foldlM_keeps (fun step _ s s' hstep hs => ?_) h (.init ⟨_, _, rules, hr, rfl⟩)
  simp only [takeAllowed, Fallible.bind_eq_ok, Fallible.ensure_eq_ok] at hstep
  obtain ⟨_, hallowed, hcall⟩ := hstep
  exact .next (step.call s.table) hs ⟨hc s _ hallowed, hcall⟩

end TexasPoker.Transparent
