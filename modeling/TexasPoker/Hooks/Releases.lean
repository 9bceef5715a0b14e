import Mathlib.Algebra.Group.Nat.Defs
import TexasPoker.Hooks.SettlementDriver

/-! # The releases of departed players

A player who left waits in a map, under one hand, until that hand is over. The lookups and updates
of the shared maps are single steps of their tasks, so other hands and players come in between.
-/

namespace TexasPoker.Hooks

namespace Task

/-- The departed players whose release a task holds. -/
def wallets : Task → List Wallet
  | .submitDualSettlement _ departed => departed
  | .scheduleLeaveRelease wallet _ _ => [wallet]
  | .insertRelease wallet _ => [wallet]
  | .releasePlayerLock wallet => [wallet]
  | _ => []

/-- The task is about to let a player wait for a hand. -/
def Registers (failedHands : Finset ℕ) (handId : ℕ) : Task → Prop
  | .scheduleLeaveRelease _ hand settled =>
    hand.handId = handId ∧ settled = false ∧ handId ∉ failedHands
  | .insertRelease _ hand => hand.handId = handId
  | _ => False

end Task

/-! ## The vault -/

/-- What the chain says while a player is released: whether it and the vault's address are there,
the two limbs that the vault holds for the player, and whether it takes the unlocking. -/
structure VaultCalls where
  chain : Bool
  vaultAddress : Bool
  lockedBalance : Option (List ℕ)
  forceUnlock : Bool

/-- How the release of a player comes out. -/
inductive Release where
  | unlocked
  | alreadyUnlocked
  | skipped
  | failed
  deriving DecidableEq

/-- Unlock all that the vault holds for a player. An amount of two limbs is left alone, and an
unlocking that fails is only reported. -/
def releasePlayerLock (calls : VaultCalls) (player : Option ℕ) : Release :=
  if !calls.chain then .skipped
  else if !calls.vaultAddress then .skipped
  else
    match player with
    | none => .skipped
    | some _ =>
      match calls.lockedBalance with
      | none => .skipped
      | some felts =>
        if felts[1]?.any (· ≠ 0) then .skipped
        else if felts.head?.getD 0 % 2 ^ 128 = 0 then .alreadyUnlocked
        else if calls.forceUnlock then .unlocked
        else .failed

/-- The vault is there and holds an amount of one limb, which it unlocks. -/
structure VaultCalls.Answers (calls : VaultCalls) : Prop where
  chain : calls.chain = true
  vaultAddress : calls.vaultAddress = true
  lockedBalance : ∃ felts, calls.lockedBalance = some felts ∧ (∀ high ∈ felts[1]?, high = 0) ∧
    (felts.head?.getD 0 % 2 ^ 128 ≠ 0 → calls.forceUnlock = true)

theorem VaultCalls.Answers.releasePlayerLock {calls : VaultCalls} {player : Option ℕ}
    (h : calls.Answers) (hplayer : player.isSome) :
    releasePlayerLock calls player = .unlocked ∨
      releasePlayerLock calls player = .alreadyUnlocked := by
  obtain ⟨felts, hbalance, hhigh, hunlock⟩ := h.lockedBalance
  cases player with
  | none => cases hplayer
  | some player =>
    have hlimb : felts[1]?.any (· ≠ 0) = false := by
      rw [Option.any_eq_false]
      simpa using hhigh
    have heq : Hooks.releasePlayerLock calls (some player) =
        if felts.head?.getD 0 % 2 ^ 128 = 0 then .alreadyUnlocked
        else if calls.forceUnlock then .unlocked
        else .failed := by
      unfold Hooks.releasePlayerLock
      rw [h.chain, h.vaultAddress, hbalance]
      dsimp only
      rw [hlimb]
      rfl
    rw [heq]
    by_cases hzero : felts.head?.getD 0 % 2 ^ 128 = 0
    · exact .inr (if_pos hzero)
    · exact .inl ((if_neg hzero).trans (if_pos (hunlock hzero)))

/-! ## The floor -/

/-- How a settlement came out: in one transaction with the releases it took along, without them,
settled before, or not at all. -/
inductive Submission where
  | bundled
  | apart
  | replay
  | failed
  deriving DecidableEq

/-- The shared maps and the tasks that use them. The hands, the players who left and those who
were unlocked too early are kept for the record. -/
structure Floor where
  driver : Driver
  dealt : List Hand
  unsettled : List (Hand × List Wallet)
  left : Wallet → Bool
  early : List Wallet

def Floor.empty : Floor where
  driver := .empty
  dealt := []
  unsettled := []
  left := fun _ => false
  early := []

inductive LockEvent where
  | startHand (hand : Hand) (players : List Wallet)
  | leave (wallet : Wallet) (lastHand : Hand)
  | scheduleLeaveRelease (wallet : Wallet) (lastHand : Hand) (handSettled : Bool)
  | insertRelease (wallet : Wallet) (lastHand : Hand)
  | submitDualSettlement (hand : Hand)
  | submitted (hand : Hand) (departed : List Wallet) (answer : Submission)
  | settledElsewhere (hand : Hand)
  | refuseSettlement (hand : Hand) (status : SettleStatus) (runtime : Bool)
  | abortHand (hand : Hand) (runtime : Bool)
  | flushLeaveReleases (hand : Hand)
  | abortFlushLeaveReleases (handId : ℕ) (runtime : Bool)
  | releasePlayerLock (wallet : Wallet) (calls : VaultCalls)

/-- The task that an event continues. -/
def LockEvent.task : LockEvent → Option Task
  | .scheduleLeaveRelease wallet hand settled => some (.scheduleLeaveRelease wallet hand settled)
  | .insertRelease wallet hand => some (.insertRelease wallet hand)
  | .submitted hand departed _ => some (.submitDualSettlement hand departed)
  | .flushLeaveReleases hand => some (.flushLeaveReleases hand)
  | .abortFlushLeaveReleases handId runtime => some (.abortFlushLeaveReleases handId runtime)
  | .releasePlayerLock wallet _ => some (.releasePlayerLock wallet)
  | _ => none

namespace Floor

variable (parseFelt : Wallet → Option ℕ) (s : Floor)

/-- The wallet plays no unsettled hand. -/
def Free (wallet : Wallet) : Prop := ∀ h ∈ s.unsettled, wallet ∉ h.2

instance (wallet : Wallet) : Decidable (s.Free wallet) :=
  inferInstanceAs (Decidable (∀ h ∈ s.unsettled, wallet ∉ h.2))

def withDriver (driver : Driver) : Floor := { s with driver }

def spawn (task : Task) : Floor := s.withDriver (s.driver.spawn task)

def finish (task : Task) : Floor := s.withDriver (s.driver.finish task)

/-- The hand is over. -/
def close (hand : Hand) : Floor := { s with unsettled := s.unsettled.filter fun h => h.1 ≠ hand }

/-- The vault holds no more chips of a wallet that left. -/
def forget (wallet : Wallet) : Floor := { s with left := Function.update s.left wallet false }

/-- Unlock the chips of a wallet in the vault. -/
def unlock (wallet : Wallet) : Floor :=
  { s.forget wallet with early := if s.Free wallet then s.early else wallet :: s.early }

def unlockAll (wallets : List Wallet) : Floor := wallets.foldl unlock s

def startHand (hand : Hand) (players : List Wallet) : Floor :=
  { s with dealt := hand :: s.dealt, unsettled := (hand, players) :: s.unsettled }

def leave (wallet : Wallet) (lastHand : Hand) : Floor :=
  { s with
    driver := s.driver.leave wallet lastHand
    left := Function.update s.left wallet true }

/-- The settlement has ended. A bundled one has unlocked the releases it took along whose wallets
it could read. -/
def submitted (hand : Hand) (departed : List Wallet) : Submission → Floor
  | .bundled =>
    ((s.withDriver (s.driver.dualSubmitted hand departed .accepted)).close hand).unlockAll
      (departed.filter fun wallet => (parseFelt wallet).isSome)
  | .apart => (s.withDriver (s.driver.dualSubmitted hand departed .accepted)).close hand
  | .replay => (s.withDriver (s.driver.dualSubmitted hand departed .replay)).close hand
  | .failed => s.withDriver (s.driver.dualSubmitted hand departed .refused)

/-- Another exit settles the hand. -/
def settledElsewhere (hand : Hand) : Floor :=
  (s.withDriver (s.driver.settleOkOnce hand)).close hand

def refuseSettlement (hand : Hand) (status : SettleStatus) (runtime : Bool) : Floor :=
  (s.withDriver (s.driver.refuseSettlement hand status runtime)).close hand

/-- The hand is aborted, and refunds its bets. -/
def abortHand (hand : Hand) (runtime : Bool) : Floor :=
  (s.spawn (.abortFlushLeaveReleases hand.handId runtime)).close hand

def releasePlayerLock (wallet : Wallet) (calls : VaultCalls) : Floor :=
  match Hooks.releasePlayerLock calls (parseFelt wallet) with
  | .unlocked => s.unlock wallet
  | .alreadyUnlocked => s.forget wallet
  | .skipped => s
  | .failed => s

/-! ## Steps -/

/-- When an event can happen: a hand is dealt once, and a task is there to go on. -/
def Enabled : LockEvent → Prop
  | .startHand hand _ => hand ∉ s.dealt
  | .submitDualSettlement hand => hand ∈ s.dealt
  | .settledElsewhere hand => hand ∈ s.dealt
  | .refuseSettlement hand _ _ => hand ∈ s.dealt
  | .abortHand hand _ => hand ∈ s.dealt
  | e => ∀ task ∈ e.task, task ∈ s.driver.tasks

instance : ∀ e, Decidable (s.Enabled e)
  | .startHand .. => inferInstanceAs (Decidable (_ ∉ _))
  | .submitDualSettlement _ => inferInstanceAs (Decidable (_ ∈ _))
  | .settledElsewhere _ => inferInstanceAs (Decidable (_ ∈ _))
  | .refuseSettlement .. => inferInstanceAs (Decidable (_ ∈ _))
  | .abortHand .. => inferInstanceAs (Decidable (_ ∈ _))
  | .leave .. => inferInstanceAs (Decidable (∀ task ∈ none, task ∈ s.driver.tasks))
  | .scheduleLeaveRelease .. => inferInstanceAs (Decidable (∀ task ∈ some _, task ∈ s.driver.tasks))
  | .insertRelease .. => inferInstanceAs (Decidable (∀ task ∈ some _, task ∈ s.driver.tasks))
  | .submitted .. => inferInstanceAs (Decidable (∀ task ∈ some _, task ∈ s.driver.tasks))
  | .flushLeaveReleases _ => inferInstanceAs (Decidable (∀ task ∈ some _, task ∈ s.driver.tasks))
  | .abortFlushLeaveReleases .. =>
    inferInstanceAs (Decidable (∀ task ∈ some _, task ∈ s.driver.tasks))
  | .releasePlayerLock .. => inferInstanceAs (Decidable (∀ task ∈ some _, task ∈ s.driver.tasks))

/-- The effect of an event after its task was taken off. -/
def act : LockEvent → Floor
  | .startHand hand players => s.startHand hand players
  | .leave wallet lastHand => s.leave wallet lastHand
  | .scheduleLeaveRelease wallet lastHand settled =>
    s.withDriver (s.driver.scheduleLeaveRelease wallet lastHand settled)
  | .insertRelease wallet lastHand => s.withDriver (s.driver.insertRelease wallet lastHand.handId)
  | .submitDualSettlement hand => s.withDriver (s.driver.submitDualSettlement hand)
  | .submitted hand departed answer => s.submitted parseFelt hand departed answer
  | .settledElsewhere hand => s.settledElsewhere hand
  | .refuseSettlement hand status runtime => s.refuseSettlement hand status runtime
  | .abortHand hand runtime => s.abortHand hand runtime
  | .flushLeaveReleases hand => s.withDriver (s.driver.flushLeaveReleases hand)
  | .abortFlushLeaveReleases handId runtime =>
    s.withDriver (s.driver.abortFlushLeaveReleases handId runtime)
  | .releasePlayerLock wallet calls => s.releasePlayerLock parseFelt wallet calls

/-- Take the event's task off, and act. -/
def step (e : LockEvent) : Floor := ((e.task.map s.finish).getD s).act parseFelt e

/-- The runs of a server. -/
def system : TransitionSystem Floor LockEvent where
  init s := s = .empty
  next s e s' := s.Enabled e ∧ s' = s.step parseFelt e

/-! ## Releases that are kept -/

/-- The releases that wait for a hand are still to be taken: it is unsettled, or its flush is on
the way. -/
def Live (handId : ℕ) : Prop :=
  (∃ h ∈ s.unsettled, h.1.handId = handId) ∨ ∃ task ∈ s.driver.tasks, task.Flushes handId

/-- A task is about to let a player wait for a hand. -/
def Departing (handId : ℕ) : Prop :=
  ∃ task ∈ s.driver.tasks, task.Registers s.driver.failedHands handId

/-- A player waits for a hand. -/
def Awaited (handId : ℕ) : Prop := ∃ e ∈ s.driver.pendingLeaveReleases, e.2 = handId

/-- The release of a wallet is in the map or held by a task. -/
def Waits (wallet : Wallet) : Prop :=
  (∃ e ∈ s.driver.pendingLeaveReleases, e.1 = wallet) ∨
    ∃ task ∈ s.driver.tasks, wallet ∈ task.wallets

/-- The release of a wallet is held by a task, or will be taken by a flush. -/
def Remembered (wallet : Wallet) : Prop :=
  (∃ e ∈ s.driver.pendingLeaveReleases, e.1 = wallet ∧ s.Live e.2) ∨
    ∃ task ∈ s.driver.tasks, wallet ∈ task.wallets

/-- Nobody was unlocked while playing an unsettled hand, and no player who left is forgotten:
when all hands are over and no task is left, everybody is released. -/
structure Kept : Prop where
  safe : s.early = []
  remembered : ∀ wallet, s.left wallet = true → s.Remembered wallet
  released : s.driver.tasks = [] → s.unsettled = [] → ∀ wallet, s.left wallet = false

/-- A step that neither mixes up hands nor drops a release: hands have ids of their own and are
not dealt to players who wait for a release; a player who leaves plays no other unsettled hand,
and the hand is unsettled or known to be over; a hand is over for good only when nobody is about
to wait for it, and, without a flush, when nobody waits for it; a release that is started reaches
the vault. -/
def Orderly : LockEvent → Prop
  | .startHand hand players =>
    (∀ h ∈ s.dealt, h.handId ≠ hand.handId) ∧ ∀ wallet ∈ players, ¬ s.Waits wallet
  | .leave wallet hand =>
    (∀ h ∈ s.unsettled, wallet ∈ h.2 → h.1 = hand) ∧
      (s.driver.settleOk hand = true ∨ s.Live hand.handId ∨
        hand.handId ∈ s.driver.failedHands)
  | .submitted _ departed .bundled => ∀ wallet ∈ departed, (parseFelt wallet).isSome
  | .submitted _ departed .apart => departed = []
  | .submitted hand departed .replay =>
    departed = [] ∧ ((s.close hand).Live hand.handId ∨
      ¬ s.Departing hand.handId ∧ ¬ s.Awaited hand.handId)
  | .submitted hand departed .failed => departed = [] ∨ s.Live hand.handId
  | .settledElsewhere hand =>
    (s.close hand).Live hand.handId ∨ ¬ s.Departing hand.handId ∧ ¬ s.Awaited hand.handId
  | .refuseSettlement hand _ _ =>
    s.driver.failedHands.card ≤ 4096 ∨ ∀ wallet h,
      .scheduleLeaveRelease wallet h false ∈ s.driver.tasks → s.Live h.handId ∨
        h.handId = hand.handId
  | .flushLeaveReleases hand =>
    (s.finish (.flushLeaveReleases hand)).Live hand.handId ∨ ¬ s.Departing hand.handId
  | .abortFlushLeaveReleases handId runtime =>
    (runtime = true ∨ s.driver.due handId = []) ∧
      ((s.finish (.abortFlushLeaveReleases handId runtime)).Live handId ∨ ¬ s.Departing handId)
  | .releasePlayerLock wallet calls => (parseFelt wallet).isSome ∧ calls.Answers
  | _ => True

end Floor

end TexasPoker.Hooks
