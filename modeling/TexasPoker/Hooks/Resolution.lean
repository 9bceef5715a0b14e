import Mathlib.Algebra.GroupWithZero.Nat
import Mathlib.Data.List.Count
import TexasPoker.Hooks.SettlementDriver

/-! # Every completed hand is resolved once

A hand is held by one task or one map entry until it has a receipt. The steps that break this
overwrite the entry of another hand of the table, skip a hand, or drop one without a receipt;
runs without them resolve every hand once.
-/

namespace TexasPoker.Hooks

open Driver

namespace Driver

variable {cfg : Config} {d d' : Driver} {h hand : Hand} {task : Task} {cur : Option Hand}

/-- One for a hand with a receipt. -/
def reports (d : Driver) (h : Hand) : ℕ := if (d.receipts h).isSome then 1 else 0

/-- One for a completed hand. -/
def completions (d : Driver) (h : Hand) : ℕ := if d.completed h then 1 else 0

/-- One for the hand that is worked on. -/
def working (cur : Option Hand) (h : Hand) : ℕ := if cur = some h then 1 else 0

/-- The weight of the places that hold a hand: its tasks and its map entry. -/
def load (task : Task → ℕ) (entry : PendingSettle → ℕ) (d : Driver) (h : Hand) : ℕ :=
  (d.tasks.map fun t => if t.hand = some h then task t else 0).sum +
    (d.pendingSettle h.tableId).elim 0 fun p => if p.hand = h then entry p else 0

/-- The places that hold a hand. -/
def holding (d : Driver) (h : Hand) : ℕ := d.load (fun _ => 1) (fun _ => 1) h

/-- The hand was reported as not settled. -/
def Failed (d : Driver) (h : Hand) : Prop :=
  d.receipts h = some .refused ∨ d.receipts h = some .failed

/-- A task will take the releases that wait for a hand. -/
def Flushing (d : Driver) (handId : ℕ) : Prop := ∃ task ∈ d.tasks, task.Flushes handId

/-- What a waiting task relies on: only the legacy exit can have taken a hand that is still
held, and it does so once. -/
def Ready (d : Driver) : Task → Prop
  | .settleFromLiveMirror hand => d.taken hand = [] ∧ d.settleAttempts hand = 0
  | .appchainExit hand => d.taken hand = []
  | .settlementBuild hand => d.taken hand = []
  | .snip36SettleFlow hand => d.taken hand = []
  | .submitDualSettlement hand _ => d.taken hand = []
  | .submitSettlement pending =>
    (d.taken pending.hand = [] ∨ d.taken pending.hand = [.legacy]) ∧
      pending.attempts ≤ maxSettleAttempts
  | _ => True

/-- A completed hand is held once or has a receipt, unless it is the one being worked on. -/
structure Sound (cur : Option Hand) (d : Driver) : Prop where
  account : ∀ h, d.holding h + d.reports h + working cur h = d.completions h
  settleOk : ∀ h, d.settleOk h = true ↔ d.receipts h = some .settled
  settled : ∀ h, d.receipts h = some .settled → (d.taken h).length = 1
  failed : ∀ h, d.Failed h → d.taken h = [] ∧
    ∀ e ∈ d.pendingLeaveReleases, e.2 = h.handId → d.Flushing h.handId
  fresh : ∀ h, d.completed h = false → d.taken h = [] ∧ d.settleAttempts h = 0
  ready : ∀ task ∈ d.tasks, d.Ready task
  pending : ∀ t p, d.pendingSettle t = some p → p.hand.tableId = t ∧
    p.attempts < maxSettleAttempts ∧ (d.taken p.hand = [] ∨ d.taken p.hand = [.legacy])
  deferred : d.deferred = []

/-! ## Holding -/

@[simp] theorem working_none : working none h = 0 := rfl

@[simp] theorem working_self : working (some h) h = 1 := if_pos rfl

theorem working_of_ne (hne : hand ≠ h) : working (some hand) h = 0 :=
  if_neg fun heq => hne (Option.some_inj.mp heq)

theorem completions_le : d.completions h ≤ 1 := by
  unfold completions
  split <;> omega

theorem reports_eq_zero : d.reports h = 0 ↔ d.receipts h = none := by
  unfold reports
  cases d.receipts h <;> simp

section Load

variable {w : Task → ℕ} {v : PendingSettle → ℕ}

variable (task) in
theorem load_spawn : (d.spawn task).load w v h =
    d.load w v h + if task.hand = some h then w task else 0 := by
  have htasks : (d.spawn task).tasks = task :: d.tasks := rfl
  have hpending : (d.spawn task).pendingSettle = d.pendingSettle := rfl
  rw [load, load, htasks, hpending, List.map_cons, List.sum_cons]
  omega

theorem load_finish (hmem : task ∈ d.tasks) :
    (d.finish task).load w v h + (if task.hand = some h then w task else 0) = d.load w v h := by
  have hsum := ((List.perm_cons_erase hmem).map
    fun t : Task => if t.hand = some h then w t else 0).sum_nat
  rw [List.map_cons, List.sum_cons] at hsum
  have htasks : (d.finish task).tasks = d.tasks.erase task := rfl
  have hpending : (d.finish task).pendingSettle = d.pendingSettle := rfl
  rw [load, load, htasks, hpending]
  omega

/-- Tasks of no hand add no load. -/
theorem load_spawnReleases {wallets : List Wallet} :
    (d.spawnReleases wallets).load w v h = d.load w v h := by
  induction wallets with
  | nil => rfl
  | cons wallet wallets ih =>
    have hspawn := load_spawn (.releasePlayerLock wallet) (d := d.spawnReleases wallets)
      (h := h) (w := w) (v := v)
    rw [if_neg (by simp [Task.hand]), Nat.add_zero, ih] at hspawn
    exact hspawn

/-- The map entry of a table is filled. -/
theorem load_insertPending {p : PendingSettle} (hnone : d.pendingSettle p.hand.tableId = none) :
    (d.insertPending p).load w v h = d.load w v h + if p.hand = h then v p else 0 := by
  have htasks : (d.insertPending p).tasks = d.tasks := rfl
  have hpending : (d.insertPending p).pendingSettle =
    Function.update d.pendingSettle p.hand.tableId (some p) := rfl
  rw [load, load, htasks, hpending]
  by_cases ht : h.tableId = p.hand.tableId
  · rw [ht, Function.update_self, hnone, Option.elim_none, Option.elim_some]
    omega
  · have hne : p.hand ≠ h := by
      rintro rfl
      exact ht rfl
    rw [Function.update_of_ne ht, if_neg hne]
    omega

/-- The map entry of a table is taken. -/
theorem load_removePending {t : ℕ} {p : PendingSettle} (hp : d.pendingSettle t = some p)
    (ht : p.hand.tableId = t) :
    (d.removePending t).load w v h + (if p.hand = h then v p else 0) = d.load w v h := by
  have htasks : (d.removePending t).tasks = d.tasks := rfl
  have hpending : (d.removePending t).pendingSettle = Function.update d.pendingSettle t none := rfl
  rw [load, load, htasks, hpending]
  by_cases hh : h.tableId = t
  · rw [hh, Function.update_self, hp, Option.elim_none, Option.elim_some]
    omega
  · have hne : p.hand ≠ h := by
      rintro rfl
      exact hh ht
    rw [Function.update_of_ne hh, if_neg hne]
    omega

end Load

theorem Flushing.spawn {handId : ℕ} (hf : d.Flushing handId) : (d.spawn task).Flushing handId := by
  obtain ⟨other, hmem, hother⟩ := hf
  exact ⟨other, List.mem_cons_of_mem _ hmem, hother⟩

theorem Flushing.finish {handId : ℕ} (hf : d.Flushing handId) (hne : ¬ task.Flushes handId) :
    (d.finish task).Flushing handId := by
  obtain ⟨other, hmem, hother⟩ := hf
  refine ⟨other, (List.mem_erase_of_ne ?_).mpr hmem, hother⟩
  rintro rfl
  exact hne hother

theorem holding_spawn : (d.spawn task).holding h = d.holding h + working task.hand h :=
  load_spawn _

theorem holding_finish (hmem : task ∈ d.tasks) :
    (d.finish task).holding h + working task.hand h = d.holding h :=
  load_finish hmem

theorem holding_insertPending {p : PendingSettle} (hnone : d.pendingSettle p.hand.tableId = none) :
    (d.insertPending p).holding h = d.holding h + working (some p.hand) h := by
  rw [holding, holding, load_insertPending hnone, working]
  simp only [Option.some_inj]

theorem holding_removePending {t : ℕ} {p : PendingSettle} (hp : d.pendingSettle t = some p)
    (ht : p.hand.tableId = t) :
    (d.removePending t).holding h + working (some p.hand) h = d.holding h := by
  have hremove := load_removePending (h := h) (w := fun _ => 1) (v := fun _ => 1) hp ht
  rw [working]
  simp only [Option.some_inj]
  exact hremove

theorem holding_pos (hmem : task ∈ d.tasks) (hh : task.hand = some h) : 0 < d.holding h := by
  have hfinish := holding_finish (h := h) hmem
  rw [hh, working_self] at hfinish
  omega

theorem holding_pos_of_pending {t : ℕ} {p : PendingSettle} (hp : d.pendingSettle t = some p)
    (ht : p.hand.tableId = t) : 0 < d.holding p.hand := by
  have hremove := holding_removePending (h := p.hand) hp ht
  rw [working_self] at hremove
  omega

/-- A hand that is held has a task or the entry of its table. -/
theorem exists_of_holding_pos (hpos : 0 < d.holding h) : (∃ task ∈ d.tasks, task.hand = some h) ∨
    ∃ p, d.pendingSettle h.tableId = some p ∧ p.hand = h := by
  by_contra hnone
  rw [not_or] at hnone
  push Not at hnone
  obtain ⟨htasks, hentry⟩ := hnone
  have hzero : (d.tasks.map fun t => if t.hand = some h then 1 else 0).sum = 0 := by
    rw [List.sum_eq_zero_iff_forall_eq_nat]
    intro n hn
    obtain ⟨task, hmem, rfl⟩ := List.mem_map.mp hn
    exact if_neg (htasks task hmem)
  rw [holding, load, hzero] at hpos
  cases hp : d.pendingSettle h.tableId with
  | none => simp [hp] at hpos
  | some p => simp [hp, hentry p hp] at hpos

namespace Sound

/-- The hand that is worked on is held nowhere and has no receipt. -/
theorem current (hs : Sound (some hand) d) : d.holding hand = 0 ∧ d.receipts hand = none := by
  have hacc := hs.account hand
  have hle : d.completions hand ≤ 1 := completions_le
  rw [working_self] at hacc
  exact ⟨by omega, reports_eq_zero.mp (by omega)⟩

theorem hand_ne (hs : Sound (some hand) d) (hmem : task ∈ d.tasks) : task.hand ≠ some hand := by
  intro hh
  have := holding_pos hmem hh
  have := hs.current.1
  omega

theorem pending_ne (hs : Sound (some hand) d) {t : ℕ} {p : PendingSettle}
    (hp : d.pendingSettle t = some p) : p.hand ≠ hand := by
  rintro rfl
  have := holding_pos_of_pending hp (hs.pending t p hp).1
  have := hs.current.1
  omega

/-! ## Building blocks -/

/-- A task for a hand is taken off. -/
theorem finish (hs : Sound none d) (hmem : task ∈ d.tasks)
    (hflush : ∀ handId, ¬ task.Flushes handId) : Sound task.hand (d.finish task) where
  account h := by
    have hacc := hs.account h
    have hfin := holding_finish (h := h) hmem
    change (d.finish task).holding h + d.reports h + _ = d.completions h
    rw [working_none] at hacc
    omega
  settleOk := hs.settleOk
  settled := hs.settled
  failed h hf :=
    ⟨(hs.failed h hf).1, fun e he hid => ((hs.failed h hf).2 e he hid).finish (hflush _)⟩
  fresh := hs.fresh
  ready other hother := hs.ready other (List.mem_of_mem_erase hother)
  pending := hs.pending
  deferred := hs.deferred

/-- The hand goes on with a task. -/
theorem spawn (hs : Sound cur d) (hcur : task.hand = cur) (hready : d.Ready task) :
    Sound none (d.spawn task) where
  account h := by
    have hacc := hs.account h
    change (d.spawn task).holding h + d.reports h + 0 = d.completions h
    rw [holding_spawn, hcur]
    omega
  settleOk := hs.settleOk
  settled := hs.settled
  failed h hf :=
    ⟨(hs.failed h hf).1, fun e he hid => ((hs.failed h hf).2 e he hid).spawn⟩
  fresh := hs.fresh
  ready other hother := by
    rcases List.mem_cons.mp hother with rfl | hother
    · exact hready
    · exact hs.ready other hother
  pending := hs.pending
  deferred := hs.deferred

/-- A task of no hand comes or goes. -/
theorem spawnIdle (hs : Sound cur d) (hnone : task.hand = none) (hready : d.Ready task) :
    Sound cur (d.spawn task) where
  account h := by
    have hacc := hs.account h
    change (d.spawn task).holding h + d.reports h + _ = d.completions h
    rw [holding_spawn, hnone, working_none, Nat.add_zero, hacc]
  settleOk := hs.settleOk
  settled := hs.settled
  failed h hf :=
    ⟨(hs.failed h hf).1, fun e he hid => ((hs.failed h hf).2 e he hid).spawn⟩
  fresh := hs.fresh
  ready other hother := by
    rcases List.mem_cons.mp hother with rfl | hother
    · exact hready
    · exact hs.ready other hother
  pending := hs.pending
  deferred := hs.deferred

/-- An exit takes the hand that is worked on. -/
theorem take (hs : Sound (some hand) d) {exit : Exit} : Sound (some hand) (d.take hand exit) := by
  have htaken {h : Hand} (hne : h ≠ hand) : (d.take hand exit).taken h = d.taken h :=
    Function.update_of_ne hne _ _
  obtain ⟨hhold, hreceipt⟩ := hs.current
  have hready : ∀ task ∈ d.tasks, (d.take hand exit).Ready task := by
    intro task hmem
    have hne := hs.hand_ne hmem
    have hr := hs.ready task hmem
    cases task with
    | runSettleAttempt => trivial
    | scheduleLeaveRelease => trivial
    | insertRelease => trivial
    | flushLeaveReleases => trivial
    | abortFlushLeaveReleases => trivial
    | releasePlayerLock => trivial
    | _ =>
      have hne' := fun heq => hne (congrArg some heq)
      simp only [Ready, htaken hne'] at hr ⊢
      exact hr
  refine ⟨hs.account, hs.settleOk, fun h hr => ?_, fun h hf => ?_, fun h hc => ?_, hready,
    fun t p hp => ?_, hs.deferred⟩
  · have hne : h ≠ hand := by
      rintro rfl
      rw [show d.receipts h = some .settled from hr] at hreceipt
      cases hreceipt
    rw [htaken hne]
    exact hs.settled h hr
  · have hne : h ≠ hand := by
      rintro rfl
      rcases hf with hf | hf <;>
      · rw [show d.receipts h = _ from hf] at hreceipt
        cases hreceipt
    rw [htaken hne]
    exact hs.failed h hf
  · have hne : h ≠ hand := by
      rintro rfl
      have hacc := hs.account h
      have hzero : d.completions h = 0 := if_neg (Bool.not_eq_true _ ▸ hc)
      rw [working_self] at hacc
      omega
    rw [htaken hne]
    exact hs.fresh h hc
  · rw [htaken (hs.pending_ne hp)]
    exact hs.pending t p hp

/-- The hand that is worked on gets its receipt. -/
theorem resolve (hs : Sound (some hand) d) {status : SettleStatus} (htasks : d'.tasks = d.tasks)
    (hpending : d'.pendingSettle = d.pendingSettle) (hcompleted : d'.completed = d.completed)
    (htaken : d'.taken = d.taken) (hattempts : d'.settleAttempts = d.settleAttempts)
    (hreceipts : d'.receipts = Function.update d.receipts hand (some status))
    (hok : ∀ h, d'.settleOk h = true ↔ d.settleOk h = true ∨ h = hand ∧ status = .settled)
    (hreleases : ∀ e ∈ d'.pendingLeaveReleases, e ∈ d.pendingLeaveReleases)
    (hdeferred : d'.deferred = d.deferred)
    (hsettled : status = .settled → (d.taken hand).length = 1)
    (hfailed : status ≠ .settled → d.taken hand = [] ∧
      ∀ e ∈ d'.pendingLeaveReleases, e.2 = hand.handId → d.Flushing hand.handId) :
    Sound none d' := by
  obtain ⟨-, hreceipt⟩ := hs.current
  have hself : d'.receipts hand = some status := by rw [hreceipts, Function.update_self]
  have hother {h : Hand} (hne : h ≠ hand) : d'.receipts h = d.receipts h := by
    rw [hreceipts, Function.update_of_ne hne]
  have hready : ∀ task ∈ d'.tasks, d'.Ready task := by
    intro task hmem
    rw [htasks] at hmem
    have hr := hs.ready task hmem
    cases task <;> simp only [Ready, htaken, hattempts] <;> exact hr
  have hflushing {handId : ℕ} (hf : d.Flushing handId) : d'.Flushing handId := by
    rwa [Flushing, htasks]
  refine ⟨fun h => ?_, fun h => ?_, fun h hr => ?_, fun h hf => ?_, fun h hc => ?_, hready,
    fun t p hp => ?_, hdeferred.trans hs.deferred⟩
  · have hacc := hs.account h
    have hholding : d'.holding h = d.holding h := by
      rw [holding, load, htasks, hpending]
      rfl
    have hcompletions : d'.completions h = d.completions h := by
      rw [completions, completions, hcompleted]
    rw [hholding, hcompletions, working_none]
    by_cases hh : h = hand
    · subst hh
      have hzero : d.reports h = 0 := reports_eq_zero.mpr hreceipt
      have hone : d'.reports h = 1 := by rw [reports, hself, Option.isSome_some, if_pos rfl]
      rw [working_self] at hacc
      omega
    · rw [working_of_ne (Ne.symm hh)] at hacc
      rw [reports, hother hh]
      exact hacc
  · rw [hok]
    by_cases hh : h = hand
    · subst hh
      rw [hs.settleOk h, hreceipt, hself]
      simp
    · rw [hother hh, hs.settleOk h]
      simp [hh]
  · rw [htaken]
    by_cases hh : h = hand
    · subst hh
      rw [hself] at hr
      exact hsettled (Option.some_inj.mp hr)
    · rw [hother hh] at hr
      exact hs.settled h hr
  · rw [htaken]
    by_cases hh : h = hand
    · subst hh
      rw [Failed, hself] at hf
      have hne : status ≠ .settled := by
        rintro rfl
        simp at hf
      obtain ⟨ht, hrel⟩ := hfailed hne
      exact ⟨ht, fun e he hid => hflushing (hrel e he hid)⟩
    · rw [Failed, hother hh] at hf
      obtain ⟨ht, hrel⟩ := hs.failed h hf
      exact ⟨ht, fun e he hid => hflushing (hrel e (hreleases e he) hid)⟩
  · rw [htaken, hattempts]
    rw [hcompleted] at hc
    exact hs.fresh h hc
  · rw [htaken]
    rw [hpending] at hp
    exact hs.pending t p hp

theorem settleOkOnce (hs : Sound (some hand) d) (htaken : (d.taken hand).length = 1) :
    Sound none (d.settleOkOnce hand) := by
  refine hs.resolve rfl rfl rfl rfl rfl rfl (fun h => ?_) (fun _ he => he) rfl (fun _ => htaken)
    (fun h => absurd rfl h)
  change Function.update d.settleOk hand true h = true ↔ _
  by_cases hh : h = hand
  · subst hh
    simp
  · rw [Function.update_of_ne hh]
    simp [hh]

theorem settleOk_of_ne {status : SettleStatus} (hne : status ≠ .settled) (h : Hand) :
    d.settleOk h = true ↔ d.settleOk h = true ∨ h = hand ∧ status = .settled := by
  simp [hne]

/-- Releases come and go besides the hands. -/
theorem spawnReleases (hs : Sound cur d) {wallets : List Wallet} :
    Sound cur (d.spawnReleases wallets) := by
  induction wallets with
  | nil => exact hs
  | cons wallet wallets ih =>
    have hspawn : Sound cur ((d.spawnReleases wallets).spawn (.releasePlayerLock wallet)) :=
      ih.spawnIdle rfl trivial
    exact hspawn

/-- A hand is refused, and its releases will be taken. -/
theorem refuseSettlement (hs : Sound (some hand) d) (htaken : d.taken hand = [])
    {status : SettleStatus} (hne : status ≠ .settled) {runtime : Bool} :
    Sound none (d.refuseSettlement hand status runtime) := by
  have hflush : Sound (some hand) (d.spawn (.abortFlushLeaveReleases hand.handId runtime)) :=
    hs.spawnIdle rfl trivial
  refine hflush.resolve rfl rfl rfl rfl rfl rfl (settleOk_of_ne hne) (fun _ he => he) rfl
    (fun h => absurd h hne) fun _ => ⟨htaken, fun _ _ _ => ?_⟩
  exact ⟨_, List.mem_cons_self, rfl⟩

/-- A hand that is given up is resolved when nobody waits for it. -/
theorem recordFailed (hs : Sound (some hand) d) (htaken : d.taken hand = [])
    (hreleases : ∀ e ∈ d.pendingLeaveReleases, e.2 ≠ hand.handId) :
    Sound none (d.record hand .failed) :=
  hs.resolve rfl rfl rfl rfl rfl rfl (settleOk_of_ne (by decide)) (fun _ he => he) rfl
    (fun h => absurd h (by decide)) fun _ => ⟨htaken, fun e he hid => absurd hid (hreleases e he)⟩

/-- Fewer players wait. -/
theorem takePendingReleasesFor (hs : Sound cur d) {handId : ℕ} :
    Sound cur (d.takePendingReleasesFor handId) where
  account := hs.account
  settleOk := hs.settleOk
  settled := hs.settled
  failed h hf :=
    ⟨(hs.failed h hf).1, fun e he => (hs.failed h hf).2 e (List.mem_filter.mp he).1⟩
  fresh := hs.fresh
  ready := hs.ready
  pending := hs.pending
  deferred := hs.deferred

/-- A flush takes its own releases only, so the others still have theirs. -/
theorem flush (hs : Sound none d) {handId : ℕ} (hmem : task ∈ d.tasks) (hnone : task.hand = none)
    (hflush : ∀ id, task.Flushes id → id = handId) :
    Sound none ((d.finish task).takePendingReleasesFor handId) where
  account h := by
    have hacc := hs.account h
    have hfin := holding_finish (h := h) hmem
    change (d.finish task).holding h + d.reports h + 0 = d.completions h
    rw [working_none] at hacc
    rw [hnone, working_none] at hfin
    omega
  settleOk := hs.settleOk
  settled := hs.settled
  failed h hf := by
    refine ⟨(hs.failed h hf).1, fun e he hid => ?_⟩
    obtain ⟨he, hother⟩ := List.mem_filter.mp he
    have hne : e.2 ≠ handId := of_decide_eq_true hother
    exact ((hs.failed h hf).2 e he hid).finish fun hown => hne (hid.trans (hflush _ hown))
  fresh := hs.fresh
  ready other hother := hs.ready other (List.mem_of_mem_erase hother)
  pending := hs.pending
  deferred := hs.deferred

/-- A hand that is over takes its releases where they can be started, or nobody waits. -/
theorem abortFlushLeaveReleases (hs : Sound none d) {handId : ℕ} {runtime : Bool}
    (hmem : .abortFlushLeaveReleases handId runtime ∈ d.tasks)
    (hruntime : runtime = true ∨ d.due handId = []) :
    Sound none ((d.finish (.abortFlushLeaveReleases handId runtime)).abortFlushLeaveReleases
      handId runtime) := by
  have htaken : Sound none ((d.finish (.abortFlushLeaveReleases handId runtime)).takePendingReleasesFor
      handId) := hs.flush hmem rfl fun _ hid => hid.symm
  cases runtime with
  | true => exact htaken.spawnReleases
  | false =>
    have hnobody := hruntime.resolve_left Bool.false_ne_true
    refine { htaken with deferred := ?_ }
    change d.deferred ++ (d.due handId).map (fun wallet => (wallet, handId)) = []
    rw [hnobody, hs.deferred]
    rfl

/-- A player waits for a hand that was not given up, or for a flush that is still to come. -/
theorem insertRelease (hs : Sound cur d) {wallet : Wallet} {handId : ℕ}
    (hopen : ∀ h, d.Failed h → h.handId = handId → d.Flushing handId) :
    Sound cur (d.insertRelease wallet handId) where
  account := hs.account
  settleOk := hs.settleOk
  settled := hs.settled
  failed h hf := by
    refine ⟨(hs.failed h hf).1, fun e he hid => ?_⟩
    rcases List.mem_cons.mp he with rfl | he
    · obtain rfl : handId = h.handId := hid
      exact hopen h hf rfl
    · exact (hs.failed h hf).2 e (List.mem_filter.mp he).1 hid
  fresh := hs.fresh
  ready := hs.ready
  pending := hs.pending
  deferred := hs.deferred

theorem insertPending {p : PendingSettle} (hs : Sound (some p.hand) d)
    (hnone : d.pendingSettle p.hand.tableId = none) (hattempts : p.attempts < maxSettleAttempts)
    (htaken : d.taken p.hand = [] ∨ d.taken p.hand = [.legacy]) :
    Sound none (d.insertPending p) where
  account h := by
    have hacc := hs.account h
    change (d.insertPending p).holding h + d.reports h + 0 = d.completions h
    rw [holding_insertPending hnone]
    omega
  settleOk := hs.settleOk
  settled := hs.settled
  failed := hs.failed
  fresh := hs.fresh
  ready := hs.ready
  pending t q hq := by
    change Function.update d.pendingSettle p.hand.tableId (some p) t = some q at hq
    by_cases ht : t = p.hand.tableId
    · subst ht
      rw [Function.update_self] at hq
      cases hq
      exact ⟨rfl, hattempts, htaken⟩
    · rw [Function.update_of_ne ht] at hq
      exact hs.pending t q hq
  deferred := hs.deferred

theorem removePending (hs : Sound none d) {t : ℕ} {p : PendingSettle}
    (hp : d.pendingSettle t = some p) : Sound (some p.hand) (d.removePending t) where
  account h := by
    have hacc := hs.account h
    have hremove := holding_removePending (h := h) hp (hs.pending t p hp).1
    change (d.removePending t).holding h + d.reports h + _ = d.completions h
    rw [working_none] at hacc
    omega
  settleOk := hs.settleOk
  settled := hs.settled
  failed := hs.failed
  fresh := hs.fresh
  ready := hs.ready
  pending t' q hq := by
    change Function.update d.pendingSettle t none t' = some q at hq
    by_cases ht : t' = t
    · subst ht
      rw [Function.update_self] at hq
      cases hq
    · rw [Function.update_of_ne ht] at hq
      exact hs.pending t' q hq
  deferred := hs.deferred

/-- A hand that was not completed before is worked on. -/
theorem complete (hs : Sound none d) (hnew : d.completed hand = false) :
    Sound (some hand) { d with completed := Function.update d.completed hand true } where
  account h := by
    have hacc := hs.account h
    rw [working_none] at hacc
    change d.holding h + d.reports h + working (some hand) h =
      if Function.update d.completed hand true h = true then 1 else 0
    by_cases hh : h = hand
    · subst hh
      have hzero : d.completions h = 0 := if_neg (by simp [hnew])
      rw [Function.update_self, if_pos rfl, working_self]
      omega
    · rw [Function.update_of_ne hh, working_of_ne (Ne.symm hh)]
      exact hacc
  settleOk := hs.settleOk
  settled := hs.settled
  failed := hs.failed
  fresh h hc := by
    change Function.update d.completed hand true h = false at hc
    by_cases hh : h = hand
    · subst hh
      simp at hc
    · rw [Function.update_of_ne hh] at hc
      exact hs.fresh h hc
  ready := hs.ready
  pending := hs.pending
  deferred := hs.deferred

/-- Attempts of the hand that is worked on are counted. -/
theorem bump (hs : Sound (some hand) d) {n : ℕ} :
    Sound (some hand) { d with settleAttempts := Function.update d.settleAttempts hand n } where
  account := hs.account
  settleOk := hs.settleOk
  settled := hs.settled
  failed := hs.failed
  fresh h hc := by
    have hne : h ≠ hand := by
      rintro rfl
      have hacc := hs.account h
      have hzero : d.completions h = 0 := if_neg (Bool.not_eq_true _ ▸ hc)
      rw [working_self] at hacc
      omega
    obtain ⟨htaken, hattempts⟩ := hs.fresh h hc
    exact ⟨htaken, (Function.update_of_ne hne _ _).trans hattempts⟩
  ready task hmem := by
    have hne := hs.hand_ne hmem
    have hr := hs.ready task hmem
    cases task with
    | settleFromLiveMirror other =>
      have hother : other ≠ hand := fun heq => hne (congrArg some heq)
      exact ⟨hr.1, (Function.update_of_ne hother _ _).trans hr.2⟩
    | _ => exact hr
  pending := hs.pending
  deferred := hs.deferred

end Sound

/-! ## Orderly steps -/

/-- The condition on a step: a hand that completes was recorded, finds no waiting settlement of its
table, and runs where tasks can be started; no settlement is put into an entry that is in use, the
exits are configured and their settlements can be built, no exit takes a hand while it reports an
error that is not retried, the last attempt gives a hand up only when no exit took it and nobody
waits for it, no player comes to wait for a hand that was given up and flushed, and releases are
flushed where they can be started. -/
def Orderly (cfg : Config) (d : Driver) : Event → Prop
  | .onHandComplete hand input live runtime =>
    d.pendingSettle hand.tableId = none ∧ input = true ∧ (runtime = true ∨ live = false)
  | .appchainAnswered _ answer => answer ≠ .lost
  | .settlementBuilt hand built rakeMatches conserves =>
    built = true → rakeMatches = true → conserves = true → cfg.settlementModeSnip36 = false →
      d.pendingSettle hand.tableId = none
  | .submitDualFallback _ built =>
    cfg.chain = true ∧ cfg.dualSettlementAddress = true ∧ built = true
  | .dualSubmitted _ _ answer => answer = .accepted ∨ answer = .replay
  | .runSettleAttempt tableId =>
    d.pendingSettle tableId ≠ none → cfg.chain = true ∧ cfg.settlementAddress = true
  | .settlementSubmitted pending answer =>
    answer = .refused ∨ answer = .lost →
      if maxSettleAttempts ≤ pending.attempts then
        answer = .refused ∧ d.taken pending.hand = [] ∧
          ∀ e ∈ d.pendingLeaveReleases, e.2 ≠ pending.hand.handId
      else d.pendingSettle pending.hand.tableId = none
  | .insertRelease _ lastHand =>
    ∀ h, d.Failed h → h.handId = lastHand.handId → d.Flushing lastHand.handId
  | .abortFlushLeaveReleases handId runtime => runtime = true ∨ d.due handId = []
  | _ => True

theorem sound_empty : Sound none .empty where
  account _ := rfl
  settleOk _ := by simp [Driver.empty]
  settled _ h := by cases h
  failed _ h := by rcases h with h | h <;> cases h
  fresh _ _ := ⟨rfl, rfl⟩
  ready _ h := by cases h
  pending _ _ h := by cases h
  deferred := rfl

theorem sound_onHandComplete (hs : Sound none d) {live runtime : Bool}
    (hnew : d.completed hand = false) (hnone : d.pendingSettle hand.tableId = none)
    (hruntime : runtime = true ∨ live = false) :
    Sound none (d.onHandComplete hand true live runtime) := by
  have hc := hs.complete hnew
  have hfresh := hs.fresh hand hnew
  unfold onHandComplete
  rw [if_neg (by simp [hnone]), if_neg (by simp)]
  cases live with
  | false => exact hc.refuseSettlement hfresh.1 (by decide)
  | true =>
    rw [hruntime.resolve_right (Ne.symm Bool.false_ne_true)]
    exact hc.spawn rfl hfresh

theorem sound_settleFromLiveMirror (hs : Sound (some hand) d) (htaken : d.taken hand = [])
    (hattempts : d.settleAttempts hand = 0) {parity provable crossCheck : Bool} :
    Sound none (d.settleFromLiveMirror cfg hand parity provable crossCheck) := by
  have hopen : ¬ d.settleOk hand = true := by
    rw [hs.settleOk, hs.current.2]
    simp
  have hfew : ¬ 5 < Function.update d.settleAttempts hand (d.settleAttempts hand + 1) hand := by
    rw [Function.update_self, hattempts]
    decide
  have hb := hs.bump (n := d.settleAttempts hand + 1)
  unfold settleFromLiveMirror
  rw [if_neg hopen]
  dsimp only
  rw [if_neg hfew]
  split
  · exact hb.refuseSettlement htaken (by decide)
  · split
    · exact hb.refuseSettlement htaken (by decide)
    · split
      · exact hb.refuseSettlement htaken (by decide)
      · split
        · exact hb.spawn rfl htaken
        · exact hb.spawn rfl htaken

theorem sound_appchainAnswered (hs : Sound (some hand) d) (htaken : d.taken hand = [])
    {answer : Answer} (hanswer : answer ≠ .lost) : Sound none (d.appchainAnswered hand answer) := by
  cases answer with
  | accepted =>
    refine hs.take.settleOkOnce ?_
    change (Function.update d.taken hand (_ :: d.taken hand) hand).length = 1
    rw [Function.update_self, htaken]
    rfl
  | replay => exact hs.spawn rfl htaken
  | refused => exact hs.spawn rfl htaken
  | lost => exact absurd rfl hanswer

theorem sound_settlementBuilt (hs : Sound (some hand) d) (htaken : d.taken hand = [])
    {built rakeMatches conserves : Bool}
    (hfree : built = true → rakeMatches = true → conserves = true →
      cfg.settlementModeSnip36 = false → d.pendingSettle hand.tableId = none) :
    Sound none (d.settlementBuilt cfg hand built rakeMatches conserves) := by
  unfold settlementBuilt
  cases built with
  | false => exact hs.refuseSettlement htaken (by decide)
  | true =>
    cases rakeMatches with
    | false => exact hs.refuseSettlement htaken (by decide)
    | true =>
      cases conserves with
      | false => exact hs.refuseSettlement htaken (by decide)
      | true =>
        cases hmode : cfg.settlementModeSnip36 with
        | true => exact hs.spawn rfl htaken
        | false =>
          have hnone := hfree rfl rfl rfl hmode
          exact (hs.insertPending (p := ⟨hand, 0⟩) hnone (show 0 < maxSettleAttempts by decide)
            (.inl htaken)).spawnIdle rfl trivial

theorem sound_runSettleAttempt (hs : Sound none d) {tableId : ℕ}
    (hconfigured : d.pendingSettle tableId ≠ none →
      cfg.chain = true ∧ cfg.settlementAddress = true) :
    Sound none (d.runSettleAttempt cfg tableId) := by
  unfold runSettleAttempt
  split
  · exact hs
  · rename_i pending hp
    obtain ⟨hchain, haddress⟩ := hconfigured (by simp [hp])
    obtain ⟨-, hattempts, htaken⟩ := hs.pending tableId pending hp
    rw [hchain, haddress]
    exact (hs.removePending hp).spawn rfl ⟨htaken, hattempts⟩

theorem sound_settlementSubmitted {pending : PendingSettle} (hs : Sound (some pending.hand) d)
    (htaken : d.taken pending.hand = [] ∨ d.taken pending.hand = [.legacy])
    {answer : Answer} (hpossible : d.Possible pending.hand .legacy answer)
    (hretry : answer = .refused ∨ answer = .lost →
      if maxSettleAttempts ≤ pending.attempts then
        answer = .refused ∧ d.taken pending.hand = [] ∧
          ∀ e ∈ d.pendingLeaveReleases, e.2 ≠ pending.hand.handId
      else d.pendingSettle pending.hand.tableId = none) :
    Sound none (d.settlementSubmitted pending answer) := by
  have htake (hnot : .legacy ∉ d.taken pending.hand) :
      (d.take pending.hand .legacy).taken pending.hand = [.legacy] := by
    rcases htaken with htaken | htaken
    · change Function.update d.taken pending.hand (_ :: d.taken pending.hand) pending.hand = _
      rw [Function.update_self, htaken]
    · simp [htaken] at hnot
  cases answer with
  | accepted => exact hs.take.settleOkOnce (by rw [htake hpossible]; rfl)
  | replay =>
    rcases htaken with htaken | htaken
    · simp [Possible, htaken] at hpossible
    · exact hs.settleOkOnce (by rw [htaken]; rfl)
  | refused =>
    have hretry := hretry (.inl rfl)
    unfold settlementSubmitted retryLater
    dsimp only
    split
    · rename_i hmax
      rw [if_pos hmax] at hretry
      exact hs.recordFailed hretry.2.1 hretry.2.2
    · rename_i hmax
      rw [if_neg hmax] at hretry
      exact hs.insertPending hretry (not_le.mp hmax) htaken
  | lost =>
    have hretry := hretry (.inr rfl)
    unfold settlementSubmitted retryLater
    dsimp only
    split
    · rename_i hmax
      rw [if_pos hmax] at hretry
      cases hretry.1
    · rename_i hmax
      rw [if_neg hmax] at hretry
      exact hs.take.insertPending hretry (not_le.mp hmax) (.inr (htake hpossible))

theorem sound_retryPendingSettlement (hs : Sound none d) {tableId : ℕ} :
    Sound none (d.retryPendingSettlement tableId) := by
  unfold retryPendingSettlement
  split
  · exact hs.spawnIdle rfl trivial
  · exact hs

theorem sound_submitDualFallback (hs : Sound (some hand) d) (htaken : d.taken hand = [])
    (hchain : cfg.chain = true) (haddress : cfg.dualSettlementAddress = true) :
    Sound none (d.submitDualFallback cfg hand true) := by
  unfold submitDualFallback
  rw [hchain, haddress]
  exact hs.takePendingReleasesFor.spawn rfl htaken

theorem sound_dualSubmitted (hs : Sound (some hand) d) (htaken : d.taken hand = [])
    {departed : List Wallet} {answer : Answer} (hpossible : d.Possible hand .dual answer)
    (hanswer : answer = .accepted ∨ answer = .replay) :
    Sound none (d.dualSubmitted hand departed answer) := by
  rcases hanswer with rfl | rfl
  · refine (hs.take.settleOkOnce ?_).spawnIdle rfl trivial
    change (Function.update d.taken hand (_ :: d.taken hand) hand).length = 1
    rw [Function.update_self, htaken]
    rfl
  · simp [Possible, htaken] at hpossible

theorem sound_scheduleLeaveRelease (hs : Sound none d) {wallet : Wallet} {handSettled : Bool} :
    Sound none (d.scheduleLeaveRelease wallet hand handSettled) := by
  unfold scheduleLeaveRelease
  split <;> exact hs.spawnIdle rfl trivial

theorem sound_step {e : Event} (hs : Sound none d) (he : d.Enabled e) (ho : Orderly cfg d e) :
    Sound none (d.step cfg e) := by
  cases e with
  | onHandComplete hand input live runtime =>
    obtain ⟨hnone, rfl, hruntime⟩ := ho
    exact sound_onHandComplete hs he hnone hruntime
  | settleFromLiveMirror hand parity provable crossCheck =>
    have hmem := he _ rfl
    obtain ⟨htaken, hattempts⟩ := hs.ready _ hmem
    exact sound_settleFromLiveMirror (hs.finish hmem (by rintro _ ⟨⟩)) htaken hattempts
  | appchainAnswered hand answer =>
    exact sound_appchainAnswered (hs.finish he.1 (by rintro _ ⟨⟩)) (hs.ready _ he.1) ho
  | settlementBuilt hand built rakeMatches conserves =>
    have hmem := he _ rfl
    exact sound_settlementBuilt (hs.finish hmem (by rintro _ ⟨⟩)) (hs.ready _ hmem) ho
  | submitDualFallback hand built =>
    have hmem := he _ rfl
    obtain ⟨hchain, haddress, rfl⟩ := ho
    exact sound_submitDualFallback (hs.finish hmem (by rintro _ ⟨⟩)) (hs.ready _ hmem) hchain
      haddress
  | dualSubmitted hand departed answer =>
    exact sound_dualSubmitted (hs.finish he.1 (by rintro _ ⟨⟩)) (hs.ready _ he.1) he.2 ho
  | runSettleAttempt tableId =>
    exact sound_runSettleAttempt (hs.finish (he _ rfl) (by rintro _ ⟨⟩)) ho
  | settlementSubmitted pending answer =>
    exact sound_settlementSubmitted (hs.finish he.1 (by rintro _ ⟨⟩)) (hs.ready _ he.1).1 he.2 ho
  | retryPendingSettlement tableId => exact sound_retryPendingSettlement hs
  | leave wallet lastHand => exact hs.spawnIdle rfl trivial
  | scheduleLeaveRelease wallet lastHand handSettled =>
    exact sound_scheduleLeaveRelease (hs.finish (he _ rfl) (by rintro _ ⟨⟩))
  | insertRelease wallet lastHand =>
    refine (hs.finish (he _ rfl) (by rintro _ ⟨⟩)).insertRelease fun h hf hid => ?_
    exact (ho h hf hid).finish (by rintro ⟨⟩)
  | flushLeaveReleases hand => exact (hs.flush (he _ rfl) rfl fun _ hid => hid.symm).spawnReleases
  | abortFlushLeaveReleases handId runtime => exact hs.abortFlushLeaveReleases (he _ rfl) ho
  | releasePlayerLock wallet => exact hs.finish (he _ rfl) (by rintro _ ⟨⟩)

theorem sound_invariant : ((system cfg).restrict (Orderly cfg)).IsInvariant (Sound none) where
  init := by
    rintro _ rfl
    exact sound_empty
  next := by
    rintro d e _ - hs ⟨ho, he, rfl⟩
    exact sound_step hs he ho

/-! ## Entries and receipts over a step -/

/-- An entry stays until an attempt takes it. -/
def KeepsEntries (d : Driver) (e : Event) (d' : Driver) : Prop :=
  ∀ t p, d.pendingSettle t = some p → d'.pendingSettle t = some p ∨
    e = .runSettleAttempt t ∧
      .submitSettlement { p with attempts := p.attempts + 1 } ∈ d'.tasks

/-- A hand that has a receipt keeps it. -/
def KeepsReceipts (d d' : Driver) : Prop :=
  ∀ h status, d.receipts h = some status → d'.receipts h = some status

/-- The last attempt leaves a receipt. -/
def ReportsExhausted (e : Event) (d' : Driver) : Prop :=
  ∀ p answer, e = .settlementSubmitted p answer → maxSettleAttempts ≤ p.attempts →
    d'.receipts p.hand ≠ none

theorem pendingSettle_insertPending {p q : PendingSettle} {t : ℕ}
    (hnone : d.pendingSettle q.hand.tableId = none) (hp : d.pendingSettle t = some p) :
    (d.insertPending q).pendingSettle t = some p := by
  have hne : t ≠ q.hand.tableId := by
    rintro rfl
    rw [hnone] at hp
    cases hp
  exact (Function.update_of_ne hne _ _).trans hp

/-- Only the waiting releases change. -/
theorem restorePendingReleases_eq (departed : List Wallet) (handId : ℕ) : ∃ releases,
    d.restorePendingReleases departed handId = { d with pendingLeaveReleases := releases } := by
  induction departed generalizing d with
  | nil => exact ⟨_, rfl⟩
  | cons wallet departed ih =>
    obtain ⟨releases, heq⟩ := ih (d := d.insertRelease wallet handId)
    exact ⟨releases, heq⟩

theorem pendingSettle_restorePendingReleases {departed : List Wallet} {handId : ℕ} :
    (d.restorePendingReleases departed handId).pendingSettle = d.pendingSettle := by
  obtain ⟨releases, heq⟩ := restorePendingReleases_eq (d := d) departed handId
  rw [heq]

theorem keepsEntries_act {e : Event} (ho : Orderly cfg d e) : KeepsEntries d e (d.act cfg e) := by
  intro t p hp
  cases e with
  | onHandComplete hand input live runtime =>
    refine .inl ?_
    simp only [act, onHandComplete]
    split_ifs <;> exact hp
  | settleFromLiveMirror hand parity provable crossCheck =>
    refine .inl ?_
    simp only [act, settleFromLiveMirror]
    split_ifs <;> exact hp
  | appchainAnswered hand answer => cases answer <;> exact .inl hp
  | settlementBuilt hand built rakeMatches conserves =>
    refine .inl ?_
    cases hb : built && rakeMatches && conserves && !cfg.settlementModeSnip36 with
    | false =>
      simp only [act, settlementBuilt]
      split_ifs <;> first | exact hp | simp_all
    | true =>
      simp only [Bool.and_eq_true, Bool.not_eq_true'] at hb
      obtain ⟨⟨⟨rfl, rfl⟩, rfl⟩, hmode⟩ := hb
      simp only [act, settlementBuilt, hmode]
      exact pendingSettle_insertPending (q := ⟨hand, 0⟩) (ho rfl rfl rfl hmode) hp
  | submitDualFallback hand built =>
    refine .inl ?_
    simp only [act, submitDualFallback]
    split_ifs <;> exact hp
  | dualSubmitted hand departed answer =>
    refine .inl ?_
    cases answer with
    | accepted => exact hp
    | replay => exact hp
    | refused => exact (congrFun pendingSettle_restorePendingReleases t).trans hp
    | lost => exact (congrFun pendingSettle_restorePendingReleases t).trans hp
  | runSettleAttempt tableId =>
    simp only [act, runSettleAttempt]
    by_cases ht : t = tableId
    · subst ht
      obtain ⟨hchain, haddress⟩ := ho (by simp [hp])
      rw [hp, hchain, haddress]
      exact .inr ⟨rfl, List.mem_cons_self⟩
    · refine .inl ?_
      split
      · exact hp
      · have hkept : (d.removePending tableId).pendingSettle t = some p :=
          (Function.update_of_ne ht _ _).trans hp
        split_ifs <;> exact hkept
  | settlementSubmitted pending answer =>
    refine .inl ?_
    cases answer with
    | accepted => exact hp
    | replay => exact hp
    | refused =>
      have hretry := ho (.inl rfl)
      simp only [act, settlementSubmitted, retryLater]
      split
      · exact hp
      · rename_i hmax
        rw [if_neg hmax] at hretry
        exact pendingSettle_insertPending hretry hp
    | lost =>
      have hretry := ho (.inr rfl)
      simp only [act, settlementSubmitted, retryLater]
      split
      · exact hp
      · rename_i hmax
        rw [if_neg hmax] at hretry
        exact pendingSettle_insertPending (d := d.take pending.hand .legacy) hretry hp
  | retryPendingSettlement tableId =>
    refine .inl ?_
    simp only [act, retryPendingSettlement]
    split_ifs <;> exact hp
  | leave wallet lastHand => exact .inl hp
  | scheduleLeaveRelease wallet lastHand handSettled =>
    refine .inl ?_
    simp only [act, scheduleLeaveRelease]
    split_ifs <;> exact hp
  | insertRelease wallet lastHand => exact .inl hp
  | flushLeaveReleases hand => exact .inl hp
  | abortFlushLeaveReleases handId runtime => exact .inl (by cases runtime <;> exact hp)
  | releasePlayerLock wallet => exact .inl hp

theorem receipts_restorePendingReleases {departed : List Wallet} {handId : ℕ} :
    (d.restorePendingReleases departed handId).receipts = d.receipts := by
  obtain ⟨releases, heq⟩ := restorePendingReleases_eq (d := d) departed handId
  rw [heq]

/-- The hand that an event may report. -/
def reported : Event → Option Hand
  | .onHandComplete hand .. => some hand
  | e => e.task.bind Task.hand

/-- An event reports its own hand, or none. -/
theorem receipts_act (e : Event) : (d.act cfg e).receipts = d.receipts ∨
    ∃ h status, reported e = some h ∧
      (d.act cfg e).receipts = Function.update d.receipts h (some status) := by
  cases e with
  | onHandComplete hand input live runtime =>
    simp only [act, onHandComplete]
    split_ifs <;> first | exact .inl rfl | exact .inr ⟨hand, _, rfl, rfl⟩
  | settleFromLiveMirror hand parity provable crossCheck =>
    simp only [act, settleFromLiveMirror]
    split_ifs <;> first | exact .inl rfl | exact .inr ⟨hand, _, rfl, rfl⟩
  | appchainAnswered hand answer =>
    cases answer with
    | accepted => exact .inr ⟨hand, _, rfl, rfl⟩
    | _ => exact .inl rfl
  | settlementBuilt hand built rakeMatches conserves =>
    simp only [act, settlementBuilt]
    split_ifs <;> first | exact .inl rfl | exact .inr ⟨hand, _, rfl, rfl⟩
  | submitDualFallback hand built =>
    simp only [act, submitDualFallback]
    split_ifs <;> exact .inl rfl
  | dualSubmitted hand departed answer =>
    cases answer with
    | accepted => exact .inr ⟨hand, _, rfl, rfl⟩
    | replay => exact .inr ⟨hand, _, rfl, rfl⟩
    | refused => exact .inl receipts_restorePendingReleases
    | lost => exact .inl receipts_restorePendingReleases
  | runSettleAttempt tableId =>
    simp only [act, runSettleAttempt]
    split
    · exact .inl rfl
    · split_ifs <;> exact .inl rfl
  | settlementSubmitted pending answer =>
    cases answer with
    | accepted => exact .inr ⟨pending.hand, _, rfl, rfl⟩
    | replay => exact .inr ⟨pending.hand, _, rfl, rfl⟩
    | _ =>
      simp only [act, settlementSubmitted, retryLater]
      split_ifs <;> first | exact .inl rfl | exact .inr ⟨pending.hand, _, rfl, rfl⟩
  | retryPendingSettlement tableId =>
    simp only [act, retryPendingSettlement]
    split_ifs <;> exact .inl rfl
  | leave wallet lastHand => exact .inl rfl
  | scheduleLeaveRelease wallet lastHand handSettled =>
    simp only [act, scheduleLeaveRelease]
    split_ifs <;> exact .inl rfl
  | insertRelease wallet lastHand => exact .inl rfl
  | flushLeaveReleases hand => exact .inl rfl
  | abortFlushLeaveReleases handId runtime => exact .inl (by cases runtime <;> rfl)
  | releasePlayerLock wallet => exact .inl rfl

/-- The hand that an event may report has no receipt yet. -/
theorem Sound.reported_open {e : Event} (hs : Sound none d) (he : d.Enabled e)
    (hr : reported e = some h) : d.receipts h = none := by
  have hacc := hs.account h
  rw [working_none] at hacc
  have hheld (task : Task) (hmem : task ∈ d.tasks) (hh : task.hand = some h) :
      d.receipts h = none := by
    have hpos := holding_pos hmem hh
    have hle : d.completions h ≤ 1 := completions_le
    exact reports_eq_zero.mp (by omega)
  cases e with
  | onHandComplete hand input live runtime =>
    cases hr
    have hzero : d.completions h = 0 := if_neg (by simp [show d.completed h = false from he])
    exact reports_eq_zero.mp (by omega)
  | appchainAnswered hand answer => exact hheld _ he.1 hr
  | dualSubmitted hand departed answer => exact hheld _ he.1 hr
  | settlementSubmitted pending answer => exact hheld _ he.1 hr
  | retryPendingSettlement tableId => cases hr
  | leave wallet lastHand => cases hr
  | _ => exact hheld _ (he _ rfl) hr

theorem keepsReceipts_step {e : Event} (hs : Sound none d) (he : d.Enabled e) :
    KeepsReceipts d (d.step cfg e) := by
  intro h status hreceipt
  have hfinished : ((e.task.map d.finish).getD d).receipts = d.receipts := by
    cases e.task <;> rfl
  unfold step
  have hreports : (((e.task.map d.finish).getD d).act cfg e).receipts = _ ∨ _ := receipts_act e
  rcases hreports with hkept | ⟨h', status', hr, hupdate⟩
  · rw [hkept, hfinished, hreceipt]
  · have hne : h ≠ h' := by
      rintro rfl
      rw [hs.reported_open he hr] at hreceipt
      cases hreceipt
    rw [hupdate, Function.update_of_ne hne, hfinished, hreceipt]

theorem keepsEntries_step {e : Event} (ho : Orderly cfg d e) :
    KeepsEntries d e (d.step cfg e) := by
  unfold step
  cases htask : e.task with
  | none => exact keepsEntries_act ho
  | some task =>
    -- the condition reads nothing that taking the task off changes
    have ho' : Orderly cfg (d.finish task) e := by
      cases e with
      | insertRelease wallet lastHand =>
        cases htask
        exact fun h hf hid => (ho h hf hid).finish (by rintro ⟨⟩)
      | _ => exact ho
    exact fun t p hp => keepsEntries_act ho' t p hp

theorem reportsExhausted_step {e : Event} : ReportsExhausted e (d.step cfg e) := by
  rintro p answer rfl hmax
  have hreported {d : Driver} {status : SettleStatus} :
      (d.record p.hand status).receipts p.hand ≠ none := by
    change Function.update d.receipts p.hand (some status) p.hand ≠ none
    simp
  cases answer with
  | accepted => exact hreported
  | replay => exact hreported
  | refused =>
    simp only [step, act, settlementSubmitted, retryLater, if_pos hmax]
    exact hreported
  | lost =>
    simp only [step, act, settlementSubmitted, retryLater, if_pos hmax]
    exact hreported

/-! ## Resolution -/

/-- The hand was settled by one exit, once. -/
def SettledOnce (d : Driver) (h : Hand) : Prop :=
  d.receipts h = some .settled ∧ (d.taken h).length = 1

/-- The hand was reported as not settled, no exit took it, and the releases of its departed players
are started, or their flush is on the way. -/
def GivenUp (d : Driver) (h : Hand) : Prop :=
  d.Failed h ∧ d.taken h = [] ∧ (∀ e ∈ d.deferred, e.2 ≠ h.handId) ∧
    ∀ e ∈ d.pendingLeaveReleases, e.2 = h.handId → d.Flushing h.handId

/-- A completed hand is held by exactly one task or entry and not reported yet, or is no longer
held and has ended in exactly one way. -/
def Resolves (d : Driver) : Prop :=
  ∀ h, d.completed h = true → d.holding h = 1 ∧ d.receipts h = none ∨
    d.holding h = 0 ∧ Xor (d.SettledOnce h) (d.GivenUp h)

theorem Sound.givenUp (hs : Sound none d) (hf : d.Failed h) : d.GivenUp h := by
  obtain ⟨htaken, hflush⟩ := hs.failed h hf
  refine ⟨hf, htaken, ?_, hflush⟩
  rw [hs.deferred]
  exact fun _ he => absurd he List.not_mem_nil

theorem Sound.resolves (hs : Sound none d) : Resolves d := by
  intro h hc
  have hacc := hs.account h
  have hone : d.completions h = 1 := if_pos hc
  rw [working_none, hone] at hacc
  cases hreceipt : d.receipts h with
  | none =>
    have hzero : d.reports h = 0 := reports_eq_zero.mpr hreceipt
    exact .inl ⟨by omega, rfl⟩
  | some status =>
    have hreported : d.reports h = 1 := if_pos (by simp [hreceipt])
    refine .inr ⟨by omega, ?_⟩
    cases status with
    | settled =>
      refine .inl ⟨⟨hreceipt, hs.settled h hreceipt⟩, ?_⟩
      rintro ⟨hfailed, -⟩
      simp [Failed, hreceipt] at hfailed
    | refused =>
      refine .inr ⟨hs.givenUp (.inl hreceipt), ?_⟩
      rintro ⟨hsettled, -⟩
      simp [hreceipt] at hsettled
    | failed =>
      refine .inr ⟨hs.givenUp (.inr hreceipt), ?_⟩
      rintro ⟨hsettled, -⟩
      simp [hreceipt] at hsettled

end Driver

end TexasPoker.Hooks
