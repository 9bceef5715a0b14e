import TexasPoker.Runtime.Session
import TexasPoker.Spec.Hand
import TexasPoker.Spec.Moves

/-! # Commands as moves

An accepted dispatch runs one command, normalizes, and advances the clock and the counters.
All but six commands are sequences of moves.
-/

namespace TexasPoker

variable {G : Type}

/-- The commands of the players of a hand. -/
def CanonicalCommand.isPlay : CanonicalCommand → Bool
  | .fold | .check | .call | .raise | .bet | .forceFold | .addon | .rebuy | .submitShuffleV2
  | .submitReconstructDeck | .setLeaveAfterHand => true
  | _ => false

/-- The same table under other counters. -/
structure TexasPokerTable.Recounted (t t' : TexasPokerTable G) : Prop where
  rest : t' = { t with callSeq := t'.callSeq, handId := t'.handId }

section Dispatch

variable [DecidableEq G]

theorem advanceCounters_recounted {pre t t' : TexasPokerTable G} {events : List TexasPokerEvent}
    (h : advanceCounters pre t events = .ok t') : t.Recounted t' := by
  unfold advanceCounters at h
  split at h
  · cases h
    exact ⟨rfl⟩
  · simp only [Fallible.bind_eq_ok] at h
    obtain ⟨c, -, h⟩ := h
    cases h
    exact ⟨rfl⟩

omit [DecidableEq G] in
theorem rearmBettingDeadline_retimed {context : DispatchContext} {t t' : TexasPokerTable G}
    (h : rearmBettingDeadline context t = .ok t') : t.Retimed t' := by
  unfold rearmBettingDeadline at h
  split at h
  · exact TexasPokerTable.armBettingDeadline_retimed h
  · cases h
    exact .refl t

end Dispatch

namespace Exec

variable [AddCommGroup G] [Protocol G] [DecidableEq G]
variable {context : DispatchContext} {args : Bytes} {s s' : Exec G}

/-- The tokens that the arguments of a submission carry. -/
def readSubmission (args : Bytes) :
    PokerL1Result (ℕ × List G × List (Protocol.RevealTokenProof G)) :=
  decodeArgs (readSeatAnd do
    let tokens ← Decoder.vec (Protocol.readPoint (G := G))
    return (tokens, ← Decoder.vec (Protocol.readRevealTokenProof (G := G)))) args
    "submit_player_reveal_tokens"

/-- What an accepted command ran. -/
inductive Runs (context : DispatchContext) (args : Bytes) (s : Exec G) :
    CanonicalCommand → Exec G → Prop where
  | create {t : TexasPokerTable G} {maxPlayers smallBlind bigBlind ritMode : ℕ} :
      s.table.applyCreateTable context.caller maxPlayers smallBlind bigBlind ritMode = .ok t →
      Runs context args s .createTable (s.withTable t)
  | join {s' : Exec G} {buyIn : ℕ} {pk : G} {txPk : TaggedPubkey} {proof : Bytes} :
      s.applyJoinTable context.caller buyIn pk txPk proof = .ok s' → Runs context args s .joinTable s'
  | leave {s' : Exec G} {i : ℕ} :
      authenticatedCallerSeat context s.table "leave_table" = .ok i →
      s.applyLeaveTable i = .ok s' → Runs context args s .leaveTable s'
  | start {s' : Exec G} : s.startHand = .ok s' → Runs context args s .startHand s'
  | foldWithProof {s' : Exec G} {i : ℕ} {outputCards : List (ElGamalCiphertext G)}
      {proof : Protocol.LeaveProof G} :
      authenticatedCallerSeat context s.table "fold_with_proof" = .ok i →
      s.applyFoldWithProof i outputCards proof = .ok s' → Runs context args s .foldWithProof s'
  | kick {s' : Exec G} {i : ℕ} : s.kickPlayerInternal i .admin = .ok s' →
      Runs context args s .kickPlayer s'
  | tokens {m s' : Exec G} {i : ℕ} {tokens : List G} {proofs : List (Protocol.RevealTokenProof G)} :
      readSubmission (G := G) args = .ok (i, tokens, proofs) → GivesTokens s m i tokens →
      Plays m s' → Runs context args s .submitPlayerRevealTokens s'
  | advance {s' : Exec G} {r : AdvanceDeadlineExecution} :
      s.advanceDeadlineWithReport context.blockTimestamp = .ok (s', r) →
      Runs context args s .advanceDeadline s'
  | play {s' : Exec G} {command : CanonicalCommand} : command.isPlay = true → Plays s s' →
      Runs context args s command s'

omit [AddCommGroup G] [Protocol G] [DecidableEq G] in
/-- A command of one seat runs on the caller's own. -/
theorem dispatchSeat_eq_ok {α : Type} {method : String} {d : Decoder α}
    {run : Exec G → ℕ → α → PokerL1Result (Exec G)}
    (h : s.dispatchSeat context args method d run = .ok s') :
    ∃ i a, i < s.table.rules.maxPlayers ∧ decodeArgs (readSeatAnd d) args method = .ok (i, a) ∧
      authenticatedCallerSeat context s.table method = .ok i ∧ run s i a = .ok s' := by
  simp only [dispatchSeat, resolveCallerSeat, Fallible.bind_eq_ok, Fallible.ensure_eq_ok] at h
  obtain ⟨⟨claimed, a⟩, hargs, i, ⟨_, hlt, resolved, hr, _, hclaim, hi⟩, h⟩ := h
  cases hi
  obtain rfl : claimed = i := hclaim
  exact ⟨claimed, a, hlt, hargs, hr, h⟩

theorem runCommand_runs {command : CanonicalCommand}
    (h : runCommand context args s command = .ok s') : Runs context args s command s' := by
  cases command with
  | createTable =>
    simp only [runCommand, dispatchCreateTable, Fallible.bind_eq_ok] at h
    obtain ⟨⟨maxPlayers, smallBlind, bigBlind, ritMode⟩, -, t, ht, h⟩ := h
    cases h
    exact .create ht
  | joinTable =>
    simp only [runCommand, dispatchJoinTable] at h
    rw [Fallible.bind_eq_ok] at h
    obtain ⟨⟨player, buyIn, pk, txPk, proof⟩, -, h⟩ := h
    simp only [Fallible.bind_eq_ok, Fallible.ensure_eq_ok] at h
    obtain ⟨_, rfl, h⟩ := h
    exact .join h
  | leaveTable =>
    simp only [runCommand, dispatchLeaveTable] at h
    obtain ⟨i, a, -, -, hi, h⟩ := dispatchSeat_eq_ok h
    exact .leave hi h
  | startHand =>
    simp only [runCommand, dispatchStartHand, Fallible.bind_eq_ok] at h
    obtain ⟨_, -, _, -, h⟩ := h
    exact .start h
  | advanceDeadline =>
    simp only [runCommand, dispatchAdvanceDeadline, Fallible.bind_eq_ok] at h
    obtain ⟨_, -, ⟨m, r⟩, hm, h⟩ := h
    cases h
    exact .advance hm
  | forceFold =>
    simp only [runCommand, dispatchForceFold, applyFoldInternal, Fallible.bind_eq_ok] at h
    obtain ⟨_, -, _, -, h⟩ := h
    exact .play rfl (applyPlayerAction_plays h)
  | kickPlayer =>
    simp only [runCommand, dispatchKickPlayer, Fallible.bind_eq_ok] at h
    obtain ⟨i, -, _, -, h⟩ := h
    exact .kick h
  | submitShuffleV2 =>
    simp only [runCommand, dispatchSubmitShuffleV2] at h
    obtain ⟨i, a, hi, -, -, h⟩ := dispatchSeat_eq_ok h
    exact .play rfl (Play.submitShuffle hi h).plays
  | submitPlayerRevealTokens =>
    simp only [runCommand, dispatchSubmitPlayerRevealTokens] at h
    obtain ⟨i, a, -, hargs, -, h⟩ := dispatchSeat_eq_ok h
    obtain ⟨m, hm, h⟩ := applySubmitPlayerRevealTokens_plays h
    exact .tokens hargs hm h
  | submitReconstructDeck =>
    simp only [runCommand, dispatchSubmitReconstructDeck] at h
    obtain ⟨i, a, -, -, -, h⟩ := dispatchSeat_eq_ok h
    exact .play rfl (Play.submitReconstruct h).plays
  | fold =>
    simp only [runCommand, dispatchFold] at h
    obtain ⟨i, a, -, -, -, h⟩ := dispatchSeat_eq_ok h
    rw [applyFold] at h
    exact .play rfl (applyPlayerAction_plays h)
  | check =>
    simp only [runCommand, dispatchCheck] at h
    obtain ⟨i, a, -, -, -, h⟩ := dispatchSeat_eq_ok h
    exact .play rfl (applyCheck_plays h)
  | call =>
    simp only [runCommand, dispatchCall] at h
    obtain ⟨i, a, -, -, -, h⟩ := dispatchSeat_eq_ok h
    exact .play rfl (applyCall_plays h)
  | raise =>
    simp only [runCommand, dispatchRaise] at h
    obtain ⟨i, a, -, -, -, h⟩ := dispatchSeat_eq_ok h
    rw [applyRaise] at h
    exact .play rfl (applyPlayerAction_plays h)
  | bet =>
    simp only [runCommand, dispatchBet] at h
    obtain ⟨i, a, -, -, -, h⟩ := dispatchSeat_eq_ok h
    exact .play rfl (applyBet_plays h)
  | addon =>
    simp only [runCommand, dispatchAddon] at h
    obtain ⟨i, a, -, -, -, h⟩ := dispatchSeat_eq_ok h
    exact .play rfl (Play.fund h).plays
  | rebuy =>
    simp only [runCommand, dispatchRebuy] at h
    obtain ⟨i, a, -, -, -, h⟩ := dispatchSeat_eq_ok h
    exact .play rfl (Play.fund h).plays
  | setLeaveAfterHand =>
    simp only [runCommand, dispatchSetLeaveAfterHand] at h
    obtain ⟨i, a, -, -, -, h⟩ := dispatchSeat_eq_ok h
    exact .play rfl (Play.askLeave h).plays
  | foldWithProof =>
    simp only [runCommand, dispatchFoldWithProof] at h
    obtain ⟨i, a, -, -, hi, h⟩ := dispatchSeat_eq_ok h
    exact .foldWithProof hi h

/-- An accepted call ran one command, normalized until blocked, armed the betting clock and
counted. -/
structure Calls (s : Exec G) (c : Call) (command : CanonicalCommand) (m n s' : Exec G) : Prop where
  decoded : CanonicalCommand.fromSelector G c.selector = some command
  runs : Runs c.context c.args ⟨s.table, []⟩ command m
  normalizes : Plays m n
  blocked : n.table.nextNormalizationStep = .ok none
  table : ∃ u, n.table.Retimed u ∧ u.Recounted s'.table
  events : s'.events = s.events ++ n.events

/-- The stages of a dispatch up to the counters. -/
theorem calls_of_stages {c : Call} {command : CanonicalCommand} {m n : Exec G}
    {report : List NormalizationStep} {u t : TexasPokerTable G} {events : List TexasPokerEvent}
    (hc : CanonicalCommand.fromSelector G c.selector = some command)
    (hm : runCommand c.context c.args ⟨s.table, []⟩ command = .ok m)
    (hn : m.normalizeUntilBlocked c.context.blockTimestamp = .ok (n, report))
    (hu : rearmBettingDeadline c.context n.table = .ok u)
    (ht : advanceCounters s.table u n.events = .ok t) (he : events = s.events ++ n.events) :
    Calls s c command m n ⟨t, events⟩ := by
  obtain ⟨hdeals, hblocked⟩ := normalizeUntilBlocked_deals hn
  exact ⟨hc, runCommand_runs hm, hdeals.plays, hblocked,
    ⟨u, rearmBettingDeadline_retimed hu, advanceCounters_recounted ht⟩, he⟩

theorem call_eq_ok {c : Call} (h : s.call c = .ok s') :
    ∃ command m n, Calls s c command m n s' := by
  obtain ⟨r, hd, hevents⟩ := call_dispatches h
  obtain ⟨command, m, n, report, u, hc, hm, hn, hu, ht, he⟩ := dispatch_eq_ok hd
  exact ⟨command, m, n, calls_of_stages hc hm hn hu ht (by rw [hevents, he])⟩

/-! ## Steps -/

/-- A step without reveal tokens: a move, or a command around the hands. -/
inductive PlainStep (s s' : Exec G) : Prop where
  | move : Move s s' → PlainStep s s'
  | create {caller : Address} {maxPlayers smallBlind bigBlind ritMode : ℕ} :
      s.table.applyCreateTable caller maxPlayers smallBlind bigBlind ritMode = .ok s'.table →
      PlainStep s s'
  | join {player : Address} {buyIn : ℕ} {pk : G} {txPk : TaggedPubkey} {proof : Bytes} :
      s.applyJoinTable player buyIn pk txPk proof = .ok s' → PlainStep s s'
  | leave {i : ℕ} : s.applyLeaveTable i = .ok s' → PlainStep s s'
  | prepare : s.table.roundState = roundWaiting →
      s'.table = { (seated s.table).setInitialEncryptedDeck with
        handPhase := .shuffling (.initial ⟨(seated s.table).getActiveSeatMask, 0⟩ 0) } →
      PlainStep s s'
  | foldOut {i : ℕ} {encrypted : CipherDeck G} : s.table.isBettingRound = true →
      s'.table = foldedOut s.table i encrypted → PlainStep s s'
  | count : s.table.Recounted s'.table → PlainStep s s'

/-- One step of a table. -/
inductive Step (s s' : Exec G) : Prop where
  | plain : PlainStep s s' → Step s s'
  | tokens {i : ℕ} {tokens : List G} : GivesTokens s s' i tokens → Step s s'

abbrev PlainSteps : Exec G → Exec G → Prop := Relation.ReflTransGen PlainStep

abbrev Steps : Exec G → Exec G → Prop := Relation.ReflTransGen Step

theorem Moves.plain (h : Moves s s') : PlainSteps s s' :=
  Relation.ReflTransGen.mono (fun _ _ h => .move h) _ _ h

theorem Plays.plain (h : Plays s s') : PlainSteps s s' := Moves.plain (Plays.moves h)

theorem PlainSteps.steps (h : PlainSteps s s') : Steps s s' :=
  Relation.ReflTransGen.mono (fun _ _ h => .plain h) _ _ h

theorem startHand_plain (h : s.startHand = .ok s') : PlainSteps s s' := by
  simp only [startHand] at h
  rw [Fallible.bind_eq_ok] at h
  obtain ⟨_, hround, h⟩ := h
  rw [Fallible.bind_eq_ok] at h
  obtain ⟨_, -, h⟩ := h
  rw [Fallible.bind_eq_ok] at h
  obtain ⟨t, ht, h⟩ := h
  obtain rfl := TexasPokerTable.enterInitialShuffling_eq_ok ht
  refine .head (.prepare (Fallible.ensure_eq_ok.mp hround) ?_) (Play.passShuffle h).plays.plain
  rw [getPendingSeatMask_zero]
  rfl

theorem applyFoldWithProof_plain {i : ℕ} {outputCards : List (ElGamalCiphertext G)}
    {proof : Protocol.LeaveProof G} (h : s.applyFoldWithProof i outputCards proof = .ok s') :
    PlainSteps s s' := by
  obtain ⟨_, _, m, hb, -, -, -, -, -, -, -, ht, -, h⟩ := applyFoldWithProof_eq_ok h
  refine .head (.foldOut hb ht) ?_
  rcases h with ⟨hc, h⟩ | h
  · exact (Play.ended hc h).plays.plain
  · exact (advanceTurn_deals h).plays.plain

/-- Every command but a submission of tokens is a sequence of plain steps. -/
theorem Runs.plain {command : CanonicalCommand} (h : Runs context args s command s')
    (hc : command ≠ .submitPlayerRevealTokens) : PlainSteps s s' := by
  cases h with
  | create h => exact .single (.create h)
  | join h => exact .single (.join h)
  | leave _ h => exact .single (.leave h)
  | start h => exact startHand_plain h
  | foldWithProof _ h => exact applyFoldWithProof_plain h
  | kick h => exact (kickPlayerInternal_moves h).plain
  | tokens => exact absurd rfl hc
  | advance h => exact (advanceDeadlineWithReport_moves h).plain
  | play _ h => exact h.plain

/-- A submission of tokens goes on with plain steps. -/
theorem Runs.tokens_plain (h : Runs context args s .submitPlayerRevealTokens s') :
    ∃ i tokens proofs m, readSubmission (G := G) args = .ok (i, tokens, proofs) ∧
      GivesTokens s m i tokens ∧ PlainSteps m s' := by
  cases h with
  | tokens hargs hm h => exact ⟨_, _, _, _, hargs, hm, h.plain⟩
  | play hc _ => cases hc

/-- After the command, a call takes plain steps to its table. -/
theorem Calls.settles {c : Call} {command : CanonicalCommand} {m n : Exec G}
    (h : Calls s c command m n s') : PlainSteps m (n.withTable s'.table) := by
  obtain ⟨u, hu, hcount⟩ := h.table
  refine h.normalizes.plain.trans ?_
  exact .head (.move (.play (.clock hu))) (.single (.count hcount))

/-- A call is a sequence of steps on its table. -/
theorem Calls.steps {c : Call} {command : CanonicalCommand} {m n : Exec G}
    (h : Calls s c command m n s') : ∃ k : Exec G, k.table = s'.table ∧ Steps ⟨s.table, []⟩ k := by
  refine ⟨n.withTable s'.table, rfl, ?_⟩
  by_cases hcommand : command = .submitPlayerRevealTokens
  · subst hcommand
    obtain ⟨i, tokens, _, k, -, hk, hm⟩ := h.runs.tokens_plain
    exact .head (.tokens hk) (PlainSteps.steps (hm.trans h.settles))
  · exact PlainSteps.steps ((h.runs.plain hcommand).trans h.settles)

/-- Every accepted call is a sequence of steps on its table. -/
theorem call_steps {c : Call} (h : s.call c = .ok s') :
    ∃ n : Exec G, n.table = s'.table ∧ Steps ⟨s.table, []⟩ n := by
  obtain ⟨_, _, _, hc⟩ := call_eq_ok h
  exact hc.steps

end Exec

end TexasPoker
