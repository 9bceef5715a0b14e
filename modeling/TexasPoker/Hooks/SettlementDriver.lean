import Mathlib.Data.Finset.Card
import Mathlib.Logic.Function.Basic
import TexasPoker.Lib.Transition

/-! # The settlement driver

The server hands every completed hand to a task that reconciles, builds and submits its
settlement. Settlements of the legacy exit wait in one map entry per table; the tasks of all
tables run side by side and meet only in the shared maps.
-/

namespace TexasPoker.Hooks

/-- A hand of a table. -/
structure Hand where
  tableId : ℕ
  handId : ℕ
  deriving DecidableEq

abbrev Wallet := String

/-- The final state of a receipt. -/
inductive SettleStatus where
  | settled
  | refused
  | failed
  deriving DecidableEq

/-- The chains that a hand can be settled on. -/
inductive Exit where
  | appchain
  | legacy
  | dual
  deriving DecidableEq

/-- The answer of an exit: it took the hand, had it already, did not take it, or took it while
the caller sees an error. -/
inductive Answer where
  | accepted
  | replay
  | refused
  | lost
  deriving DecidableEq

/-- What the server was started with. -/
structure Config where
  chain : Bool
  settlementAddress : Bool
  dualSettlementAddress : Bool
  appchainExit : Bool
  settlementModeSnip36 : Bool

/-- A settlement that waits for its submission. -/
structure PendingSettle where
  hand : Hand
  attempts : ℕ
  deriving DecidableEq

def maxSettleAttempts : ℕ := 8

/-- A task of the server at one of the points where others come in between. -/
inductive Task where
  | settleFromLiveMirror (hand : Hand)
  | appchainExit (hand : Hand)
  | settlementBuild (hand : Hand)
  | snip36SettleFlow (hand : Hand)
  | submitDualSettlement (hand : Hand) (departed : List Wallet)
  | runSettleAttempt (tableId : ℕ)
  | submitSettlement (pending : PendingSettle)
  | scheduleLeaveRelease (wallet : Wallet) (lastHand : Hand) (handSettled : Bool)
  | insertRelease (wallet : Wallet) (lastHand : Hand)
  | flushLeaveReleases (hand : Hand)
  | abortFlushLeaveReleases (handId : ℕ) (runtime : Bool)
  | releasePlayerLock (wallet : Wallet)
  deriving DecidableEq

/-- The hand whose settlement a task holds. -/
def Task.hand : Task → Option Hand
  | .settleFromLiveMirror hand => some hand
  | .appchainExit hand => some hand
  | .settlementBuild hand => some hand
  | .snip36SettleFlow hand => some hand
  | .submitDualSettlement hand _ => some hand
  | .submitSettlement pending => some pending.hand
  | _ => none

/-- The task will take the releases that wait for a hand. -/
def Task.Flushes (handId : ℕ) : Task → Prop
  | .flushLeaveReleases hand => hand.handId = handId
  | .abortFlushLeaveReleases id _ => id = handId
  | _ => False

/-- The shared maps and the running tasks. The completed hands, the exits that took a hand and the
releases that were dropped are kept for the record. -/
structure Driver where
  settleOk : Hand → Bool
  settleAttempts : Hand → ℕ
  pendingSettle : ℕ → Option PendingSettle
  pendingLeaveReleases : List (Wallet × ℕ)
  failedHands : Finset ℕ
  receipts : Hand → Option SettleStatus
  tasks : List Task
  completed : Hand → Bool
  taken : Hand → List Exit
  deferred : List (Wallet × ℕ)

def Driver.empty : Driver where
  settleOk := fun _ => false
  settleAttempts := fun _ => 0
  pendingSettle := fun _ => none
  pendingLeaveReleases := []
  failedHands := ∅
  receipts := fun _ => none
  tasks := []
  completed := fun _ => false
  taken := fun _ => []
  deferred := []

namespace Driver

variable (cfg : Config) (d : Driver)

def spawn (task : Task) : Driver := { d with tasks := task :: d.tasks }

def finish (task : Task) : Driver := { d with tasks := d.tasks.erase task }

/-! ## Releases of departed players -/

/-- Take the players who wait for a hand out of the map. -/
def takePendingReleasesFor (handId : ℕ) : Driver :=
  { d with pendingLeaveReleases := d.pendingLeaveReleases.filter fun e => e.2 ≠ handId }

/-- The players who wait for a hand. -/
def due (handId : ℕ) : List Wallet :=
  (d.pendingLeaveReleases.filter fun e => e.2 = handId).map Prod.fst

/-- A player waits for one hand at a time. -/
def insertRelease (wallet : Wallet) (handId : ℕ) : Driver :=
  { d with pendingLeaveReleases :=
      (wallet, handId) :: d.pendingLeaveReleases.filter fun e => e.1 ≠ wallet }

def restorePendingReleases (entries : List Wallet) (handId : ℕ) : Driver :=
  entries.foldl (fun d wallet => d.insertRelease wallet handId) d

/-- The set of failed hands is emptied when it has grown too large. -/
def markHandSettlementFailed (handId : ℕ) : Driver :=
  let failedHands := if 4096 < d.failedHands.card then ∅ else d.failedHands
  { d with failedHands := insert handId failedHands }

/-- Start the releases of some players. -/
def spawnReleases (wallets : List Wallet) : Driver :=
  { d with tasks := wallets.map .releasePlayerLock ++ d.tasks }

/-- The hand is settled: release the players who still wait for it. -/
def flushLeaveReleases (hand : Hand) : Driver :=
  (d.takePendingReleasesFor hand.handId).spawnReleases (d.due hand.handId)

/-- The hand ends without a settlement: release the players who wait for it. Without a runtime
they leave the map all the same. -/
def abortFlushLeaveReleases (handId : ℕ) (runtime : Bool) : Driver :=
  let due := d.due handId
  let d := d.takePendingReleasesFor handId
  if runtime then d.spawnReleases due
  else { d with deferred := d.deferred ++ due.map fun wallet => (wallet, handId) }

/-- A player leaves. The caller looks up whether the last hand is settled, and starts a task. -/
def leave (wallet : Wallet) (lastHand : Hand) : Driver :=
  d.spawn (.scheduleLeaveRelease wallet lastHand (d.settleOk lastHand))

/-- Release a player who left at once when the last hand is over for good. Otherwise the task goes
on to the map, and others come in between. -/
def scheduleLeaveRelease (wallet : Wallet) (lastHand : Hand) (handSettled : Bool) : Driver :=
  if handSettled ∨ lastHand.handId ∈ d.failedHands then d.spawn (.releasePlayerLock wallet)
  else d.spawn (.insertRelease wallet lastHand)

/-! ## Final states -/

def record (hand : Hand) (status : SettleStatus) : Driver :=
  { d with receipts := Function.update d.receipts hand (some status) }

/-- The hand is never settled: report it, and release its departed players. Others come in between
the set of failed hands and the map. -/
def refuseSettlement (hand : Hand) (status : SettleStatus) (runtime : Bool) : Driver :=
  ((d.record hand status).markHandSettlementFailed hand.handId).spawn
    (.abortFlushLeaveReleases hand.handId runtime)

def settleOkOnce (hand : Hand) : Driver :=
  { d with settleOk := Function.update d.settleOk hand true }.record hand .settled

/-! ## Tasks -/

/-- The exit took the hand. -/
def take (hand : Hand) (exit : Exit) : Driver :=
  { d with taken := Function.update d.taken hand (exit :: d.taken hand) }

def insertPending (pending : PendingSettle) : Driver :=
  { d with pendingSettle :=
      Function.update d.pendingSettle pending.hand.tableId (some pending) }

def removePending (tableId : ℕ) : Driver :=
  { d with pendingSettle := Function.update d.pendingSettle tableId none }

/-- A hand is over. A table whose last settlement still waits skips it. -/
def onHandComplete (hand : Hand) (input live runtime : Bool) : Driver :=
  let completed := Function.update d.completed hand true
  let d := { d with completed }
  if (d.pendingSettle hand.tableId).isSome then d
  else if !input then d
  else if !live then d.refuseSettlement hand .refused runtime
  else if !runtime then d
  else d.spawn (.settleFromLiveMirror hand)

/-- Reconcile the hand, and go to the first exit. -/
def settleFromLiveMirror (hand : Hand) (parity provable crossCheck : Bool) : Driver :=
  if d.settleOk hand then d
  else
    let settleAttempts := Function.update d.settleAttempts hand (d.settleAttempts hand + 1)
    let d := { d with settleAttempts }
    if 5 < d.settleAttempts hand then d
    else if !parity then d.refuseSettlement hand .refused true
    else if !provable then d.refuseSettlement hand .refused true
    else if !crossCheck then d.refuseSettlement hand .refused true
    else if cfg.appchainExit then d.spawn (.appchainExit hand)
    else d.spawn (.settlementBuild hand)

/-- The appchain has answered; every error falls back to the other exits. -/
def appchainAnswered (hand : Hand) : Answer → Driver
  | .accepted => (d.take hand .appchain).settleOkOnce hand
  | .replay => d.spawn (.settlementBuild hand)
  | .refused => d.spawn (.settlementBuild hand)
  | .lost => (d.take hand .appchain).spawn (.settlementBuild hand)

/-- The settlement is built: check it once more, and queue it. -/
def settlementBuilt (hand : Hand) (built rakeMatches conserves : Bool) : Driver :=
  if !built then d.refuseSettlement hand .failed true
  else if !rakeMatches then d.refuseSettlement hand .refused true
  else if !conserves then d.refuseSettlement hand .refused true
  else if cfg.settlementModeSnip36 then d.spawn (.snip36SettleFlow hand)
  else (d.insertPending ⟨hand, 0⟩).spawn (.runSettleAttempt hand.tableId)

/-- Take the waiting settlement of a table and submit it. -/
def runSettleAttempt (tableId : ℕ) : Driver :=
  match d.pendingSettle tableId with
  | none => d
  | some pending =>
    let d := d.removePending tableId
    if !cfg.chain then d
    else if !cfg.settlementAddress then d
    else d.spawn (.submitSettlement { pending with attempts := pending.attempts + 1 })

/-- Keep the settlement for another attempt, or give up. -/
def retryLater (pending : PendingSettle) : Driver :=
  if maxSettleAttempts ≤ pending.attempts then d.record pending.hand .failed
  else d.insertPending pending

def settlementSubmitted (pending : PendingSettle) : Answer → Driver
  | .accepted => (d.take pending.hand .legacy).settleOkOnce pending.hand
  | .replay => d.settleOkOnce pending.hand
  | .refused => d.retryLater pending
  | .lost => (d.take pending.hand .legacy).retryLater pending

def retryPendingSettlement (tableId : ℕ) : Driver :=
  if (d.pendingSettle tableId).isSome then d.spawn (.runSettleAttempt tableId) else d

/-- The settlement takes the players who wait for its hand along. -/
def submitDualSettlement (hand : Hand) : Driver :=
  (d.takePendingReleasesFor hand.handId).spawn (.submitDualSettlement hand (d.due hand.handId))

/-- Settle on the dual contract after the proof of the signed actions has ended. -/
def submitDualFallback (hand : Hand) (built : Bool) : Driver :=
  if !cfg.chain then d
  else if !cfg.dualSettlementAddress then d
  else if !built then d
  else d.submitDualSettlement hand

def dualSubmitted (hand : Hand) (departed : List Wallet) : Answer → Driver
  | .accepted => ((d.take hand .dual).settleOkOnce hand).spawn (.flushLeaveReleases hand)
  | .replay => d.settleOkOnce hand
  | .refused => d.restorePendingReleases departed hand.handId
  | .lost => (d.take hand .dual).restorePendingReleases departed hand.handId

end Driver

/-! ## Steps -/

/-- What happens next, with what the task that runs learns from the outside. -/
inductive Event where
  | onHandComplete (hand : Hand) (input live runtime : Bool)
  | settleFromLiveMirror (hand : Hand) (parity provable crossCheck : Bool)
  | appchainAnswered (hand : Hand) (answer : Answer)
  | settlementBuilt (hand : Hand) (built rakeMatches conserves : Bool)
  | submitDualFallback (hand : Hand) (built : Bool)
  | dualSubmitted (hand : Hand) (departed : List Wallet) (answer : Answer)
  | runSettleAttempt (tableId : ℕ)
  | settlementSubmitted (pending : PendingSettle) (answer : Answer)
  | retryPendingSettlement (tableId : ℕ)
  | leave (wallet : Wallet) (lastHand : Hand)
  | scheduleLeaveRelease (wallet : Wallet) (lastHand : Hand) (handSettled : Bool)
  | insertRelease (wallet : Wallet) (lastHand : Hand)
  | flushLeaveReleases (hand : Hand)
  | abortFlushLeaveReleases (handId : ℕ) (runtime : Bool)
  | releasePlayerLock (wallet : Wallet)

/-- The task that an event continues. -/
def Event.task : Event → Option Task
  | .settleFromLiveMirror hand .. => some (.settleFromLiveMirror hand)
  | .appchainAnswered hand _ => some (.appchainExit hand)
  | .settlementBuilt hand .. => some (.settlementBuild hand)
  | .submitDualFallback hand .. => some (.snip36SettleFlow hand)
  | .dualSubmitted hand departed _ => some (.submitDualSettlement hand departed)
  | .runSettleAttempt tableId => some (.runSettleAttempt tableId)
  | .settlementSubmitted pending _ => some (.submitSettlement pending)
  | .scheduleLeaveRelease wallet hand settled => some (.scheduleLeaveRelease wallet hand settled)
  | .insertRelease wallet hand => some (.insertRelease wallet hand)
  | .flushLeaveReleases hand => some (.flushLeaveReleases hand)
  | .abortFlushLeaveReleases handId runtime => some (.abortFlushLeaveReleases handId runtime)
  | .releasePlayerLock wallet => some (.releasePlayerLock wallet)
  | _ => none

namespace Driver

variable (cfg : Config) (d : Driver)

/-- An exit takes a hand once, and answers with a replay only for a hand it has taken. -/
def Possible (hand : Hand) (exit : Exit) : Answer → Prop
  | .accepted => exit ∉ d.taken hand
  | .replay => exit ∈ d.taken hand
  | .refused => True
  | .lost => exit ∉ d.taken hand

instance {hand : Hand} {exit : Exit} {answer : Answer} : Decidable (d.Possible hand exit answer) := by
  cases answer <;> unfold Possible <;> infer_instance

/-- When an event can happen: hands are completed once, and a task is there to go on. -/
def Enabled : Event → Prop
  | .onHandComplete hand .. => d.completed hand = false
  | .appchainAnswered hand answer =>
    .appchainExit hand ∈ d.tasks ∧ d.Possible hand .appchain answer
  | .dualSubmitted hand departed answer =>
    .submitDualSettlement hand departed ∈ d.tasks ∧ d.Possible hand .dual answer
  | .settlementSubmitted pending answer =>
    .submitSettlement pending ∈ d.tasks ∧ d.Possible pending.hand .legacy answer
  | e => ∀ task ∈ e.task, task ∈ d.tasks

instance : ∀ e, Decidable (d.Enabled e)
  | .onHandComplete .. => inferInstanceAs (Decidable (_ = _))
  | .appchainAnswered .. => inferInstanceAs (Decidable (_ ∧ _))
  | .dualSubmitted .. => inferInstanceAs (Decidable (_ ∧ _))
  | .settlementSubmitted .. => inferInstanceAs (Decidable (_ ∧ _))
  | .settleFromLiveMirror .. => inferInstanceAs (Decidable (∀ task ∈ some _, task ∈ d.tasks))
  | .settlementBuilt .. => inferInstanceAs (Decidable (∀ task ∈ some _, task ∈ d.tasks))
  | .submitDualFallback .. => inferInstanceAs (Decidable (∀ task ∈ some _, task ∈ d.tasks))
  | .runSettleAttempt .. => inferInstanceAs (Decidable (∀ task ∈ some _, task ∈ d.tasks))
  | .retryPendingSettlement .. => inferInstanceAs (Decidable (∀ task ∈ none, task ∈ d.tasks))
  | .leave .. => inferInstanceAs (Decidable (∀ task ∈ none, task ∈ d.tasks))
  | .scheduleLeaveRelease .. => inferInstanceAs (Decidable (∀ task ∈ some _, task ∈ d.tasks))
  | .insertRelease .. => inferInstanceAs (Decidable (∀ task ∈ some _, task ∈ d.tasks))
  | .flushLeaveReleases .. => inferInstanceAs (Decidable (∀ task ∈ some _, task ∈ d.tasks))
  | .abortFlushLeaveReleases .. => inferInstanceAs (Decidable (∀ task ∈ some _, task ∈ d.tasks))
  | .releasePlayerLock .. => inferInstanceAs (Decidable (∀ task ∈ some _, task ∈ d.tasks))

/-- The effect of an event after its task was taken off. -/
def act : Event → Driver
  | .onHandComplete hand input live runtime => d.onHandComplete hand input live runtime
  | .settleFromLiveMirror hand parity provable crossCheck =>
    d.settleFromLiveMirror cfg hand parity provable crossCheck
  | .appchainAnswered hand answer => d.appchainAnswered hand answer
  | .settlementBuilt hand built rakeMatches conserves =>
    d.settlementBuilt cfg hand built rakeMatches conserves
  | .submitDualFallback hand built => d.submitDualFallback cfg hand built
  | .dualSubmitted hand departed answer => d.dualSubmitted hand departed answer
  | .runSettleAttempt tableId => d.runSettleAttempt cfg tableId
  | .settlementSubmitted pending answer => d.settlementSubmitted pending answer
  | .retryPendingSettlement tableId => d.retryPendingSettlement tableId
  | .leave wallet lastHand => d.leave wallet lastHand
  | .scheduleLeaveRelease wallet lastHand settled =>
    d.scheduleLeaveRelease wallet lastHand settled
  | .insertRelease wallet lastHand => d.insertRelease wallet lastHand.handId
  | .flushLeaveReleases hand => d.flushLeaveReleases hand
  | .abortFlushLeaveReleases handId runtime => d.abortFlushLeaveReleases handId runtime
  | .releasePlayerLock _ => d

/-- Take the event's task off, and act. -/
def step (e : Event) : Driver :=
  ((e.task.map d.finish).getD d).act cfg e

/-- The runs of a server. -/
def system : TransitionSystem Driver Event where
  init d := d = .empty
  next d e d' := d.Enabled e ∧ d' = d.step cfg e

end Driver

end TexasPoker.Hooks
