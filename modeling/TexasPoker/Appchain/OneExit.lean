import TexasPoker.Appchain.Exit
import TexasPoker.Lib.Transition

/-! # One exit for every hand

Before its last submission the exit settles nothing; after it only a refused proof or a panic
makes the exit fail.
-/

namespace TexasPoker.Appchain

open Effect Hooks

variable {G σ α : Type}

/-! ## Settled hands -/

/-- The sequencer has accepted a settlement of the hand. -/
def World.Settled (w : World σ) (hand : Hand) : Prop :=
  ∃ record, (hand, Operation.settle record) ∈ w.accepted

/-- An operation that settles no hand. -/
def Operation.Prepares : Operation → Prop
  | .settle _ => False
  | _ => True

instance : DecidablePred Operation.Prepares
  | .settle _ => .isFalse id
  | .openTable .. | .deposit .. | .transfer .. | .buyIn .. => .isTrue trivial

variable {hand h : Hand} {rt : AppchainRuntime σ} {w w' : World σ} {P : World σ → Prop}

theorem settled_iff : w.Settled h ↔ ∃ e ∈ w.accepted, e.1 = h ∧ ¬ e.2.Prepares := by
  constructor
  · rintro ⟨record, hmem⟩
    exact ⟨_, hmem, rfl, not_false⟩
  · rintro ⟨⟨_, op⟩, hmem, rfl, hop⟩
    cases op with
    | settle record => exact ⟨record, hmem⟩
    | _ => exact absurd trivial hop

instance : Decidable (w.Settled h) := decidable_of_iff _ settled_iff.symm

theorem settled_cons {op : Operation} {chain : σ} :
    (World.mk chain ((hand, op) :: w.accepted)).Settled h ↔
      (h = hand ∧ ¬ op.Prepares) ∨ w.Settled h := by
  simp only [settled_iff, List.mem_cons, exists_eq_or_imp, eq_comm]

/-- An operation that was accepted for a hand. -/
def World.push (w : World σ) (hand : Hand) (op : Operation) : World σ :=
  { w with accepted := (hand, op) :: w.accepted }

/-- A property of the accepted operations alone. -/
def Recorded (P : World σ → Prop) : Prop :=
  ∀ w chain, P w → P { w with chain }

/-- A recorded property that only settlements change. -/
structure Stable (P : World σ → Prop) : Prop where
  recorded : Recorded P
  push : ∀ hand op w, op.Prepares → P w → P (w.push hand op)

theorem stable_settled : Stable fun w : World σ => w.Settled h where
  recorded _ _ hw := hw
  push _ _ _ _ hw := settled_cons.mpr (.inr hw)

theorem stable_unsettled : Stable fun w : World σ => ¬ w.Settled h where
  recorded _ _ hw := hw
  push hand op w hop hw hs := by
    rcases settled_cons.mp hs with ⟨-, hnot⟩ | hs
    · exact hnot hop
    · exact hw hs

/-! ## What the parts of the exit keep -/

section Parts

theorem keeps_external {prog : Effect σ Failure α} (hP : Recorded P) :
    (external prog).Keeps P :=
  keeps_within hP

theorem keeps_view {read : σ → α} : (view read).Keeps P :=
  keeps_get.bind fun _ => keeps_pure

theorem keeps_orErr {o : Option α} {message : String} :
    (AppchainRuntime.orErr (σ := σ) o message).Keeps P :=
  keeps_ofExcept

theorem keeps_require {p : Prop} [Decidable p] {message : String} :
    (AppchainRuntime.require (σ := σ) p message).Keeps P :=
  keeps_ofExcept

theorem keeps_labelled {label : String} {x : Except String α} :
    (AppchainRuntime.labelled (σ := σ) label x).Keeps P :=
  keeps_ofExcept

namespace AppchainRuntime

theorem keeps_findNote {p : NoteEntry → Bool} : (rt.findNote p).Keeps P := keeps_view

theorem accept_keeps {op : Operation} (hP : Recorded P) (hop : ∀ w, P w → P (w.push hand op)) :
    (rt.accept hand op).Keeps P :=
  (keeps_external hP).bind fun _ => (keeps_modify hop).bind fun _ => keeps_pure

theorem submitOperation_keeps {op : Operation} (hP : Recorded P)
    (hop : ∀ w, P w → P (w.push hand op)) : (rt.submitOperation hand op).Keeps P :=
  (accept_keeps hP hop).bind fun _ => (keeps_external hP).bind fun _ => keeps_pure

theorem submitProven_keeps {op : Operation} {label : String} (hP : Stable P)
    (hop : op.Prepares) : (rt.submitProven hand op label).Keeps P :=
  (submitOperation_keeps hP.recorded fun w => hP.push hand op w hop).mapError.bind fun _ =>
    (keeps_external hP.recorded).bind fun _ => keeps_pure

theorem ensureTable_keeps (hP : Stable P) {policy : FeePolicy} :
    (rt.ensureTable hand policy).Keeps P := by
  refine keeps_view.bind fun o => ?_
  rcases o with _ | _ | _
  · exact keeps_labelled.bind fun _ =>
      (submitProven_keeps hP (by trivial)).bind fun _ => keeps_pure
  · exact keeps_throw
  · exact keeps_pure

variable {p : Participant} {owner : ℕ} {note : Note}

theorem ensureBalance_keeps (hP : Stable P) :
    (rt.ensureBalance hand p owner).Keeps P := by
  refine keeps_findNote.bind fun o => ?_
  rcases o with _ | note
  · dsimp only
    cases rt.config.assetClass with
    | real => exact keeps_throw
    | play =>
      exact (submitProven_keeps hP (by trivial)).bind fun _ =>
        keeps_findNote.bind fun _ => keeps_orErr
  · exact keeps_pure

theorem splitNote_keeps (hP : Stable P) {outputs : List NoteSpec} {label : String} :
    (rt.splitNote hand p note outputs label).Keeps P :=
  submitProven_keeps hP (by trivial)

theorem exactBalance_keeps (hP : Stable P) :
    (rt.exactBalance hand p owner note).Keeps P := by
  unfold exactBalance
  dsimp only
  split
  · exact (splitNote_keeps hP).bind fun _ => keeps_findNote.bind fun _ => keeps_orErr
  · exact keeps_pure

theorem ensureSeatNote_keeps (hP : Stable P) :
    (rt.ensureSeatNote hand p owner note).Keeps P := by
  refine keeps_findNote.bind fun o => ?_
  rcases o with _ | note
  · exact (submitProven_keeps hP (by trivial)).bind fun _ =>
        keeps_findNote.bind fun _ => keeps_orErr
  · exact keeps_pure

theorem splitSeatNote_keeps (hP : Stable P) :
    (rt.splitSeatNote hand p owner note).Keeps P := by
  unfold splitSeatNote
  dsimp only
  split
  · exact keeps_pure
  · exact (splitNote_keeps hP).bind fun _ => keeps_findNote.bind fun _ => keeps_orErr

theorem ensureSeat_keeps (hP : Stable P) : (rt.ensureSeat hand p).Keeps P := by
  unfold ensureSeat
  split
  · exact keeps_pure
  · exact keeps_require.bind fun _ => (ensureBalance_keeps hP).bind fun _ =>
      (exactBalance_keeps hP).bind fun _ => (ensureSeatNote_keeps hP).bind fun _ =>
        (splitSeatNote_keeps hP).bind fun _ => keeps_pure

theorem ensureSeats_keeps (hP : Stable P) {participants : List Participant} :
    (rt.ensureSeats hand participants).Keeps P :=
  (keeps_mapM fun _ _ => ensureSeat_keeps hP).bind fun _ => keeps_require.bind fun _ =>
    keeps_pure

/-- Everything before the last submission only prepares. -/
theorem prepareSettlement_keeps (hP : Stable P) {projection : MirrorProjection}
    {rakeCollected : ℕ} {handProof : Option HandProofBinding} :
    (rt.prepareSettlement hand projection rakeCollected handProof).Keeps P :=
  keeps_require.bind fun _ => keeps_labelled.bind fun _ => keeps_require.bind fun _ =>
    keeps_require.bind fun _ => (ensureTable_keeps hP).bind fun _ =>
      (ensureSeats_keeps hP).bind fun _ => keeps_ofExcept.bind fun _ =>
        keeps_labelled.bind fun _ => keeps_pure

theorem awaitProven_keeps {frame : ℕ} (hP : Recorded P) : (rt.awaitProven frame).Keeps P := by
  refine (keeps_external hP).attempt.bind fun r => ?_
  rcases r with (_ | _) | _
  · exact keeps_pure
  · exact keeps_throw
  · exact keeps_pure

/-- The last steps submit nothing. -/
theorem handOver_keeps {record : SettlementRecord} {frame : ℕ} (hP : Recorded P) :
    (rt.handOver hand record frame).Keeps P :=
  (keeps_external hP).mapError.bind fun _ =>
    (awaitProven_keeps hP).bind fun _ => keeps_view.bind fun _ => keeps_pure

end AppchainRuntime

end Parts

/-! ## The settlement as a commit -/

section Commit

/-- After the sequencer took a settlement, its listeners hear of it, the pipeline takes its
proof, and the wait for the proof does not panic. -/
def Chain.TakesProof (c : Chain σ) (job : ProofJob) (s : σ) : Prop :=
  ∃ s₁ s₂, (c.emitSoftConfirm job.opIndex).exec s = (.ok (), s₁) ∧
    (c.pipelineSubmit job).exec s₁ = (.ok (), s₂) ∧
    ((c.awaitProven job.opIndex).exec s₂).1 ≠ .error .panicked

variable {projection : MirrorProjection} {rakeCollected : ℕ}
  {handProof : Option HandProofBinding} {record : SettlementRecord} {frame : ℕ}

theorem exec_external {prog : Effect σ Failure α} :
    (external prog).exec w = ((prog.exec w.chain).1, { w with chain := (prog.exec w.chain).2 }) :=
  rfl

namespace AppchainRuntime

/-- The steps after the acceptance. -/
def afterAccept (rt : AppchainRuntime σ) (hand : Hand) (record : SettlementRecord) (frame : ℕ) :
    Effect (World σ) Failure AppchainSettleReceipt := do
  (external (rt.chain.emitSoftConfirm frame)).mapError (.labelled "sequencer settle rejected")
  rt.handOver hand record frame

theorem afterAccept_keeps (hP : Recorded P) : (rt.afterAccept hand record frame).Keeps P :=
  (keeps_external hP).mapError.bind fun _ => handOver_keeps hP

theorem submitOperation_bind {op : Operation} {g : Failure → Failure}
    {f : ℕ → Effect (World σ) Failure α} : ((rt.submitOperation hand op).mapError g >>= f) =
      (rt.accept hand op).mapError g >>= fun frame =>
        (external (rt.chain.emitSoftConfirm frame)).mapError g >>= fun _ => f frame := by
  unfold submitOperation
  rw [mapError_bind, bind_assoc]
  refine congrArg _ (funext fun frame => ?_)
  rw [mapError_bind, bind_assoc]
  rfl

theorem awaitProven_succeeds_iff : (rt.awaitProven frame).Succeeds w ↔
    ((rt.chain.awaitProven frame).exec w.chain).1 ≠ .error .panicked := by
  have hattempt : ((external (rt.chain.awaitProven frame)).attempt :
      Effect (World σ) Failure _).exec w = _ := exec_attempt
  unfold awaitProven Succeeds
  rw [exec_bind_of_ok hattempt, exec_external]
  rcases (rt.chain.awaitProven frame).exec w.chain with ⟨(_ | _) | _, _⟩
  · exact ⟨nofun, fun _ => ⟨false, rfl⟩⟩
  · exact ⟨fun ⟨_, h⟩ => (nomatch h), fun h => absurd rfl h⟩
  · exact ⟨nofun, fun _ => ⟨true, rfl⟩⟩

theorem external_eq_ok {prog : Effect σ Failure α} {a : α} :
    (external prog).exec w = (.ok a, w') ↔
      ∃ s, prog.exec w.chain = (.ok a, s) ∧ { w with chain := s } = w' :=
  within_eq_ok

theorem handOver_succeeds_iff : (rt.handOver hand record frame).Succeeds w ↔
    ∃ s, (rt.chain.pipelineSubmit (rt.proofJob hand record frame)).exec w.chain = (.ok (), s) ∧
      ((rt.chain.awaitProven frame).exec s).1 ≠ .error .panicked := by
  have hrest : ∀ w, (do
      let proven ← rt.awaitProven frame
      let batchRoot ← view fun s =>
        if proven then do
          let through ← (rt.chain.batchCoveredThrough s).filter fun t => decide (frame ≤ t)
          rt.chain.batchRootAt s through
        else none
      return AppchainSettleReceipt.mk frame record.handBinding proven batchRoot).Succeeds w ↔
      ((rt.chain.awaitProven frame).exec w.chain).1 ≠ .error .panicked := fun w => by
    rw [← awaitProven_succeeds_iff]
    exact succeeds_bind_of_forall fun _ _ => ⟨_, rfl⟩
  unfold handOver
  rw [succeeds_bind]
  constructor
  · rintro ⟨⟨⟩, w₁, hsubmit, hs⟩
    obtain ⟨s, hs₁, rfl⟩ := external_eq_ok.mp (mapError_eq_ok.mp hsubmit)
    exact ⟨s, hs₁, (hrest _).mp hs⟩
  · rintro ⟨s, hs₁, hs⟩
    exact ⟨(), _, mapError_eq_ok.mpr (external_eq_ok.mpr ⟨s, hs₁, rfl⟩), (hrest _).mpr hs⟩

/-- The steps after the acceptance succeed exactly when the proof is taken. -/
theorem afterAccept_succeeds_iff : (rt.afterAccept hand record frame).Succeeds w ↔
    rt.chain.TakesProof (rt.proofJob hand record frame) w.chain := by
  unfold afterAccept
  rw [succeeds_bind]
  constructor
  · rintro ⟨⟨⟩, w₁, hemit, hs⟩
    obtain ⟨s, hs₁, rfl⟩ := external_eq_ok.mp (mapError_eq_ok.mp hemit)
    obtain ⟨s₂, hsubmit, hawait⟩ := handOver_succeeds_iff.mp hs
    exact ⟨s, s₂, hs₁, hsubmit, hawait⟩
  · rintro ⟨s, s₂, hs₁, hsubmit, hawait⟩
    exact ⟨(), _, mapError_eq_ok.mpr (external_eq_ok.mpr ⟨s, hs₁, rfl⟩),
      handOver_succeeds_iff.mpr ⟨s₂, hsubmit, hawait⟩⟩

/-- An operation is on record exactly when the sequencer took it. -/
theorem exec_accept {op : Operation} : (rt.accept hand op).exec w =
    match (rt.chain.submit op).exec w.chain with
    | (.ok frame, s) => (.ok frame, ⟨s, (hand, op) :: w.accepted⟩)
    | (.error e, s) => (.error e, ⟨s, w.accepted⟩) := by
  unfold accept
  rw [exec_bind, exec_external]
  rcases (rt.chain.submit op).exec w.chain with ⟨_ | _, _⟩ <;> rfl

theorem accept_eq_ok {op : Operation} : (rt.accept hand op).exec w = (.ok frame, w') ↔
    ∃ s, (rt.chain.submit op).exec w.chain = (.ok frame, s) ∧
      ⟨s, (hand, op) :: w.accepted⟩ = w' := by
  rw [exec_accept]
  rcases (rt.chain.submit op).exec w.chain with ⟨_ | _, _⟩ <;> simp [and_assoc]

/-- A refused submission settles nothing. -/
theorem accept_cleanAt {op : Operation} (hw : ¬ w.Settled h) :
    (rt.accept hand op).CleanAt (fun w => ¬ w.Settled h) w := by
  intro e w' herr
  rw [exec_accept] at herr
  split at herr
  · cases herr
  · cases herr
    exact hw

/-- When the sequencer takes the settlement of a hand, the pipeline takes the proof. -/
def ProofFollows (rt : AppchainRuntime σ) (hand : Hand) (record : SettlementRecord) (s : σ) :
    Prop :=
  ∀ frame s₁, (rt.chain.submit (.settle record)).exec s = (.ok frame, s₁) →
    rt.chain.TakesProof (rt.proofJob hand record frame) s₁

/-- The last half of the exit is clean exactly when the proof follows the settlement. -/
theorem submitSettle_cleanAt_iff (hw : ¬ w.Settled hand) :
    (rt.submitSettle hand record).CleanAt (fun w => ¬ w.Settled hand) w ↔
      rt.ProofFollows hand record w.chain := by
  unfold submitSettle
  rw [submitOperation_bind]
  have hcommit : ∀ frame w₁, ((rt.accept hand (.settle record)).mapError
      (Failure.labelled "sequencer settle rejected")).exec w = (.ok frame, w₁) →
      w₁.Settled hand := fun frame w₁ hok => by
    obtain ⟨s, -, rfl⟩ := accept_eq_ok.mp (mapError_eq_ok.mp hok)
    exact ⟨record, .head _⟩
  refine (cleanAt_commit (accept_cleanAt hw).mapError hcommit
    (fun _ => afterAccept_keeps stable_settled.recorded) fun w hs hn => hn hs).trans ?_
  constructor
  · intro hs frame s₁ hok
    exact afterAccept_succeeds_iff.mp
      (hs frame _ (mapError_eq_ok.mpr (accept_eq_ok.mpr ⟨s₁, hok, rfl⟩)))
  · intro hs frame w₁ hok
    obtain ⟨s, hsubmit, rfl⟩ := accept_eq_ok.mp (mapError_eq_ok.mp hok)
    exact afterAccept_succeeds_iff.mpr (hs frame s hsubmit)

/-- The exit fails without a settled hand exactly when the proof follows every settlement that
it submits. -/
theorem settleFromProjection_cleanAt_iff (hw : ¬ w.Settled hand) :
    (rt.settleFromProjection hand projection rakeCollected handProof).CleanAt
      (fun w => ¬ w.Settled hand) w ↔
    ∀ record w₁, (rt.prepareSettlement hand projection rakeCollected handProof).exec w =
      (.ok record, w₁) → rt.ProofFollows hand record w₁.chain := by
  refine (cleanAt_bind (prepareSettlement_keeps stable_unsettled) hw).trans ?_
  refine forall_congr' fun record => forall_congr' fun w₁ => imp_congr_right fun hok => ?_
  have hkept : ¬ w₁.Settled hand := (prepareSettlement_keeps stable_unsettled).of_exec hw hok
  exact submitSettle_cleanAt_iff hkept

/-- A success went through the acceptance of the settlement. -/
theorem submitSettle_succeeds_iff : (rt.submitSettle hand record).Succeeds w ↔
    ∃ frame s, (rt.chain.submit (.settle record)).exec w.chain = (.ok frame, s) ∧
      rt.chain.TakesProof (rt.proofJob hand record frame) s := by
  unfold submitSettle
  rw [submitOperation_bind, succeeds_bind]
  constructor
  · rintro ⟨frame, w₁, hok, hs⟩
    obtain ⟨s, hsubmit, rfl⟩ := accept_eq_ok.mp (mapError_eq_ok.mp hok)
    exact ⟨frame, s, hsubmit, afterAccept_succeeds_iff.mp hs⟩
  · rintro ⟨frame, s, hsubmit, hs⟩
    exact ⟨frame, _, mapError_eq_ok.mpr (accept_eq_ok.mpr ⟨s, hsubmit, rfl⟩),
      afterAccept_succeeds_iff.mpr hs⟩

theorem submitSettle_keeps (hP : Recorded P)
    (hop : ∀ w, P w → P (w.push hand (.settle record))) : (rt.submitSettle hand record).Keeps P :=
  (submitOperation_keeps hP hop).mapError.bind fun _ => handOver_keeps hP

/-- A success leaves the hand settled. -/
theorem settled_of_submitSettle {receipt : AppchainSettleReceipt}
    (h : (rt.submitSettle hand record).exec w = (.ok receipt, w')) : w'.Settled hand := by
  unfold submitSettle at h
  rw [submitOperation_bind] at h
  obtain ⟨frame, w₁, hok, hrest⟩ := exec_bind_eq_ok.mp h
  obtain ⟨s, -, rfl⟩ := accept_eq_ok.mp (mapError_eq_ok.mp hok)
  exact (afterAccept_keeps stable_settled.recorded).of_exec ⟨record, .head _⟩ hrest

end AppchainRuntime

end Commit

/-! ## The settlement of a mirror -/

section Mirror

variable {runtime : Option (AppchainRuntime σ)} {request : SettleRequest G}
  {record : SettlementRecord} {frame : ℕ} {s : σ}

/-- The exit comes as far as the acceptance of its settlement. -/
def Commits (runtime : Option (AppchainRuntime σ)) (hand : Hand) (request : SettleRequest G)
    (w : World σ) (rt : AppchainRuntime σ) (record : SettlementRecord) (frame : ℕ) (s : σ) :
    Prop :=
  runtime = some rt ∧ ∃ projection w₁,
    projectSnapshot rt.chain.toKeys request.mirror.settleTable request.participants =
      .ok projection ∧
    (rt.prepareSettlement hand projection request.rakeCollected request.handProof).exec w =
      (.ok record, w₁) ∧
    (rt.chain.submit (.settle record)).exec w₁.chain = (.ok frame, s)

theorem requireArchive_cases (rt : AppchainRuntime σ) (handProof : Option HandProofBinding) :
    (∃ e, rt.requireArchive handProof = throw e) ∨ rt.requireArchive handProof = pure () := by
  unfold AppchainRuntime.requireArchive AppchainRuntime.require Fallible.ensure
  split
  · exact .inr rfl
  · exact .inl ⟨_, rfl⟩

/-- The checks of a mirror change nothing: either they refuse it, or the exit goes on with its
projection. -/
theorem exec_settleFromMirror (runtime : Option (AppchainRuntime σ)) (hand : Hand)
    (request : SettleRequest G) (w : World σ) : (∃ e, (settleFromMirror runtime hand request).exec w =
      (.error e, w) ∧ ∀ rt record frame s, ¬ Commits runtime hand request w rt record frame s) ∨
    ∃ rt projection, runtime = some rt ∧
      projectSnapshot rt.chain.toKeys request.mirror.settleTable request.participants =
        .ok projection ∧
      (settleFromMirror runtime hand request).exec w =
        (rt.settleFromProjection hand projection request.rakeCollected request.handProof).exec
          w := by
  unfold settleFromMirror AppchainRuntime.orErr
  rw [exec_ofExcept_bind]
  rcases runtime with _ | rt
  · exact .inl ⟨_, rfl, fun _ _ _ _ h => nomatch h.1⟩
  dsimp only [Fallible.orErr]
  rcases requireArchive_cases rt request.handProof with ⟨e, harch⟩ | harch
  · refine .inl ⟨e, by rw [harch]; rfl, ?_⟩
    rintro _ record frame s ⟨⟨⟩, projection, w₁, -, hprep, -⟩
    unfold AppchainRuntime.prepareSettlement at hprep
    rw [harch] at hprep
    cases hprep
  rw [harch, pure_bind, exec_ofExcept_bind]
  cases hproj : projectSnapshot rt.chain.toKeys request.mirror.settleTable request.participants with
  | error e =>
    refine .inl ⟨_, rfl, ?_⟩
    rintro _ record frame s ⟨⟨⟩, projection, w₁, hproj', -⟩
    rw [hproj] at hproj'
    cases hproj'
  | ok projection => exact .inr ⟨rt, projection, rfl, hproj, rfl⟩

/-- The exit leaves a refused hand unsettled exactly when the proof follows the settlement. -/
theorem settleFromMirror_cleanAt_iff (hw : ¬ w.Settled hand) :
    (settleFromMirror runtime hand request).CleanAt (fun w => ¬ w.Settled hand) w ↔
      ∀ rt record frame s, Commits runtime hand request w rt record frame s →
        rt.chain.TakesProof (rt.proofJob hand record frame) s := by
  rcases exec_settleFromMirror runtime hand request w with ⟨e, hexec, hno⟩ | ⟨rt, projection, rfl, hproj, hexec⟩
  · refine iff_of_true (fun e' w' herr => ?_) fun rt record frame s h =>
      absurd h (hno rt record frame s)
    rw [hexec] at herr
    cases herr
    exact hw
  · unfold CleanAt
    rw [hexec]
    refine (AppchainRuntime.settleFromProjection_cleanAt_iff hw).trans ?_
    constructor
    · rintro h _ record frame s ⟨⟨⟩, projection', w₁, hproj', hprep, hsubmit⟩
      rw [hproj] at hproj'
      cases hproj'
      exact h record w₁ hprep frame s hsubmit
    · intro h record w₁ hprep frame s hsubmit
      exact h rt record frame s ⟨rfl, projection, w₁, hproj, hprep, hsubmit⟩

/-- The exit succeeds exactly when it is accepted and its proof follows. -/
theorem settleFromMirror_succeeds_iff : (settleFromMirror runtime hand request).Succeeds w ↔
    ∃ rt record frame s, Commits runtime hand request w rt record frame s ∧
      rt.chain.TakesProof (rt.proofJob hand record frame) s := by
  unfold Succeeds
  rcases exec_settleFromMirror runtime hand request w with ⟨e, hexec, hno⟩ | ⟨rt, projection, rfl, hproj, hexec⟩
  · rw [hexec]
    exact iff_of_false nofun fun ⟨rt, record, frame, s, h, _⟩ => hno rt record frame s h
  · rw [hexec]
    refine succeeds_bind.trans ?_
    constructor
    · rintro ⟨record, w₁, hprep, hs⟩
      obtain ⟨frame, s, hsubmit, hproof⟩ := AppchainRuntime.submitSettle_succeeds_iff.mp hs
      exact ⟨rt, record, frame, s, ⟨rfl, projection, w₁, hproj, hprep, hsubmit⟩, hproof⟩
    · rintro ⟨_, record, frame, s, ⟨⟨⟩, projection', w₁, hproj', hprep, hsubmit⟩, hproof⟩
      rw [hproj] at hproj'
      cases hproj'
      exact ⟨record, w₁, hprep, AppchainRuntime.submitSettle_succeeds_iff.mpr
        ⟨frame, s, hsubmit, hproof⟩⟩

theorem settled_of_settleFromMirror {receipt : AppchainRuntime.AppchainSettleReceipt}
    (h : (settleFromMirror runtime hand request).exec w = (.ok receipt, w')) :
    w'.Settled hand := by
  rcases exec_settleFromMirror runtime hand request w with
    ⟨e, hexec, -⟩ | ⟨rt, projection, -, -, hexec⟩ <;> rw [hexec] at h
  · cases h
  · obtain ⟨record, w₁, -, hsubmit⟩ := exec_bind_eq_ok.mp h
    exact AppchainRuntime.settled_of_submitSettle hsubmit

/-- What an exit leaves of a property that its settlement does not touch. -/
theorem settleFromMirror_keeps (hP : Stable P)
    (hop : ∀ record w, P w → P (w.push hand (.settle record))) :
    (settleFromMirror runtime hand request).Keeps P := by
  intro w hw
  rcases exec_settleFromMirror runtime hand request w with ⟨e, hexec, -⟩ | ⟨rt, projection, -, -, hexec⟩
  · rw [hexec]
    exact hw
  · rw [hexec]
    exact ((AppchainRuntime.prepareSettlement_keeps hP).bind fun record =>
      AppchainRuntime.submitSettle_keeps hP.recorded (hop record)) w hw

end Mirror

end TexasPoker.Appchain
