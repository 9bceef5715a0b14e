import TexasPoker.Hooks.Resolution
import TexasPoker.Lib.Liveness

/-! # Every completed hand comes to an end

A hand goes from task to task and, after an attempt that was refused, back into the entry of its
table. The attempts are bounded, so a server that runs its tasks and retries ends every hand.
-/

namespace TexasPoker.Hooks

/-- An attempt takes two steps. -/
def PendingSettle.rank (p : PendingSettle) : ℕ := 2 * (maxSettleAttempts - p.attempts)

/-- A bound on the steps that a task is from the end of its hand. -/
def Task.rank : Task → ℕ
  | .settleFromLiveMirror _ => 19
  | .appchainExit _ => 18
  | .settlementBuild _ => 17
  | .snip36SettleFlow _ => 2
  | .submitDualSettlement .. => 1
  | .submitSettlement pending => pending.rank + 1
  | _ => 0

open Driver

namespace Driver

variable {cfg : Config} {d d' : Driver} {h hand : Hand} {task : Task} {e : Event} {n : ℕ}

/-- A bound on the steps that a hand is from its end. -/
def toGo (d : Driver) (h : Hand) : ℕ :=
  (if d.completed h then 0 else 20) + d.load Task.rank PendingSettle.rank h

/-- The hand that an event goes on with. -/
def workedOn (d : Driver) : Event → Option Hand
  | .runSettleAttempt tableId => (d.pendingSettle tableId).map PendingSettle.hand
  | e => reported e

/-- One hand gets at most some steps further from its end, and the others none. -/
def Defers (d d' : Driver) (hand : Hand) (n : ℕ) : Prop :=
  ∀ h, d'.toGo h ≤ d.toGo h + if hand = h then n else 0

/-! ## One step -/

theorem toGo_spawn :
    (d.spawn task).toGo h = d.toGo h + if task.hand = some h then task.rank else 0 := by
  have hcompleted : (d.spawn task).completed = d.completed := rfl
  rw [toGo, toGo, hcompleted, load_spawn]
  omega

theorem toGo_spawn_idle (hnone : task.hand = none) : (d.spawn task).toGo h = d.toGo h := by
  simp [toGo_spawn, hnone]

theorem toGo_finish (hmem : task ∈ d.tasks) :
    (d.finish task).toGo h + (if task.hand = some h then task.rank else 0) = d.toGo h := by
  have hcompleted : (d.finish task).completed = d.completed := rfl
  have hload := load_finish (h := h) (w := Task.rank) (v := PendingSettle.rank) hmem
  rw [toGo, toGo, hcompleted]
  omega

theorem toGo_finish_idle (hmem : task ∈ d.tasks) (hnone : task.hand = none) :
    (d.finish task).toGo h = d.toGo h := by
  have hfinish := toGo_finish (h := h) hmem
  simpa [hnone] using hfinish

theorem toGo_spawnReleases {wallets : List Wallet} :
    (d.spawnReleases wallets).toGo h = d.toGo h := by
  have hcompleted : (d.spawnReleases wallets).completed = d.completed := rfl
  rw [toGo, toGo, hcompleted, load_spawnReleases]

theorem toGo_restorePendingReleases {departed : List Wallet} {handId : ℕ} :
    (d.restorePendingReleases departed handId).toGo h = d.toGo h := by
  obtain ⟨releases, heq⟩ := restorePendingReleases_eq (d := d) departed handId
  rw [heq]
  rfl

theorem Defers.of_eq (heq : ∀ h, d'.toGo h = d.toGo h) : Defers d d' hand n :=
  fun h => (heq h).le.trans (Nat.le_add_right _ _)

variable (task) in
theorem Defers.spawn (hhand : task.hand = some hand) (hn : task.rank ≤ n) :
    Defers d (d.spawn task) hand n := by
  intro h
  rw [toGo_spawn, hhand]
  by_cases hh : hand = h
  · simpa [hh] using hn
  · simp [hh]

theorem Defers.insertPending {p : PendingSettle} (hnone : d.pendingSettle p.hand.tableId = none) :
    Defers d (d.insertPending p) p.hand p.rank := by
  intro h
  have hcompleted : (d.insertPending p).completed = d.completed := rfl
  rw [toGo, toGo, hcompleted, load_insertPending hnone]
  omega

theorem toGo_refuseSettlement {status : SettleStatus} {runtime : Bool} :
    (d.refuseSettlement hand status runtime).toGo h = d.toGo h :=
  toGo_spawn_idle rfl

theorem defers_settleFromLiveMirror {parity provable crossCheck : Bool} :
    Defers d (d.settleFromLiveMirror cfg hand parity provable crossCheck) hand 18 := by
  have hrefused {d' : Driver} (heq : ∀ h, d'.toGo h = d.toGo h) :
      Defers d (d'.refuseSettlement hand .refused true) hand 18 :=
    .of_eq fun h => toGo_refuseSettlement.trans (heq h)
  unfold settleFromLiveMirror
  dsimp only
  split
  · exact .of_eq fun _ => rfl
  · split
    · exact .of_eq fun _ => rfl
    · split
      · exact hrefused fun _ => rfl
      · split
        · exact hrefused fun _ => rfl
        · split
          · exact hrefused fun _ => rfl
          · split
            · exact Defers.spawn (.appchainExit hand) rfl le_rfl
            · exact Defers.spawn (.settlementBuild hand) rfl (by simp [Task.rank])

theorem defers_appchainAnswered {answer : Answer} :
    Defers d (d.appchainAnswered hand answer) hand 17 := by
  cases answer with
  | accepted => exact .of_eq fun _ => rfl
  | replay => exact Defers.spawn (.settlementBuild hand) rfl le_rfl
  | refused => exact Defers.spawn (.settlementBuild hand) rfl le_rfl
  | lost => exact Defers.spawn (.settlementBuild hand) rfl le_rfl

theorem defers_settlementBuilt {built rakeMatches conserves : Bool}
    (hfree : built = true → rakeMatches = true → conserves = true →
      cfg.settlementModeSnip36 = false → d.pendingSettle hand.tableId = none) :
    Defers d (d.settlementBuilt cfg hand built rakeMatches conserves) hand 16 := by
  have hrefused {status : SettleStatus} : Defers d (d.refuseSettlement hand status true) hand 16 :=
    .of_eq fun _ => toGo_refuseSettlement
  unfold settlementBuilt
  cases built with
  | false => exact hrefused
  | true =>
    cases rakeMatches with
    | false => exact hrefused
    | true =>
      cases conserves with
      | false => exact hrefused
      | true =>
        cases hmode : cfg.settlementModeSnip36 with
        | true => exact Defers.spawn (.snip36SettleFlow hand) rfl (by simp [Task.rank])
        | false =>
          intro h
          have hinsert := Defers.insertPending (p := ⟨hand, 0⟩) (hfree rfl rfl rfl hmode) h
          exact (toGo_spawn_idle rfl).le.trans hinsert

theorem defers_submitDualFallback {built : Bool} :
    Defers d (d.submitDualFallback cfg hand built) hand 1 := by
  unfold submitDualFallback
  split_ifs
  · exact .of_eq fun _ => rfl
  · exact .of_eq fun _ => rfl
  · exact .of_eq fun _ => rfl
  · exact Defers.spawn (.submitDualSettlement hand (d.due hand.handId))
      (d := d.takePendingReleasesFor hand.handId) rfl le_rfl

theorem defers_dualSubmitted {departed : List Wallet} {answer : Answer} :
    Defers d (d.dualSubmitted hand departed answer) hand 0 := by
  cases answer with
  | accepted => exact .of_eq fun _ => toGo_spawn_idle rfl
  | replay => exact .of_eq fun _ => rfl
  | refused => exact .of_eq fun _ => toGo_restorePendingReleases
  | lost => exact .of_eq fun _ => toGo_restorePendingReleases

/-- A refused attempt waits for the next one. -/
theorem defers_retryLater {pending : PendingSettle}
    (hfree : ¬ maxSettleAttempts ≤ pending.attempts →
      d.pendingSettle pending.hand.tableId = none) :
    Defers d (d.retryLater pending) pending.hand pending.rank := by
  unfold retryLater
  split
  · exact .of_eq fun _ => rfl
  · rename_i hmax
    exact .insertPending (hfree hmax)

variable (cfg) in
theorem defers_settlementSubmitted {pending : PendingSettle} {answer : Answer}
    (ho : Orderly cfg d (.settlementSubmitted pending answer)) :
    Defers d (d.settlementSubmitted pending answer) pending.hand pending.rank := by
  cases answer with
  | accepted => exact .of_eq fun _ => rfl
  | replay => exact .of_eq fun _ => rfl
  | refused =>
    have hretry := ho (.inl rfl)
    exact defers_retryLater fun hmax => by rwa [if_neg hmax] at hretry
  | lost =>
    have hretry := ho (.inr rfl)
    exact defers_retryLater (d := d.take pending.hand .legacy) fun hmax => by
      rwa [if_neg hmax] at hretry

/-- A task leaves its hand closer to the end than it found it. -/
theorem Defers.toGo_lt (hg : Defers (d.finish task) d' hand n) (hmem : task ∈ d.tasks)
    (hhand : task.hand = some hand) (hn : n < task.rank) :
    d'.toGo h + working (some hand) h ≤ d.toGo h := by
  have hfinish := toGo_finish (h := h) hmem
  have hdefers := hg h
  rw [hhand] at hfinish
  by_cases hh : hand = h
  · subst hh
    rw [if_pos rfl] at hfinish hdefers
    rw [working_self]
    omega
  · rw [if_neg fun heq => hh (Option.some_inj.mp heq)] at hfinish
    rw [if_neg hh] at hdefers
    rw [working_of_ne hh]
    omega

theorem toGo_complete (hnew : d.completed hand = false) :
    ({ d with completed := Function.update d.completed hand true } : Driver).toGo h +
      20 * working (some hand) h = d.toGo h := by
  have hcompleted : (if Function.update d.completed hand true h then 0 else 20) +
      20 * working (some hand) h = if d.completed h then 0 else 20 := by
    by_cases hh : h = hand
    · subst hh
      simp [hnew]
    · simp [hh, working_of_ne (Ne.symm hh)]
  change (if Function.update d.completed hand true h then 0 else 20) +
    d.load Task.rank PendingSettle.rank h + 20 * working (some hand) h = d.toGo h
  rw [toGo]
  omega

theorem toGo_onHandComplete {input live runtime : Bool} (hnew : d.completed hand = false) :
    (d.onHandComplete hand input live runtime).toGo h + working (some hand) h ≤ d.toGo h := by
  have hcomplete := toGo_complete (h := h) hnew
  have hle {d' : Driver} (heq : d'.toGo h =
      ({ d with completed := Function.update d.completed hand true } : Driver).toGo h) :
      d'.toGo h + working (some hand) h ≤ d.toGo h := by omega
  unfold onHandComplete
  dsimp only
  split_ifs
  · exact hle rfl
  · exact hle rfl
  · exact hle toGo_refuseSettlement
  · exact hle rfl
  · have hspawn := Defers.spawn (.settleFromLiveMirror hand)
      (d := { d with completed := Function.update d.completed hand true }) (n := 19) rfl le_rfl h
    by_cases hh : hand = h
    · subst hh
      rw [if_pos rfl] at hspawn
      rw [working_self] at hcomplete ⊢
      omega
    · rw [if_neg hh] at hspawn
      rw [working_of_ne hh] at hcomplete ⊢
      omega

theorem toGo_runSettleAttempt (hs : Sound none d) {tableId : ℕ} :
    (d.runSettleAttempt cfg tableId).toGo h +
      working ((d.pendingSettle tableId).map PendingSettle.hand) h ≤ d.toGo h := by
  unfold runSettleAttempt
  cases hp : d.pendingSettle tableId with
  | none => exact le_rfl
  | some p =>
    obtain ⟨ht, hfew, -⟩ := hs.pending tableId p hp
    have hremove : (d.removePending tableId).toGo h + (if p.hand = h then p.rank else 0) =
        d.toGo h := by
      have hload := load_removePending (h := h) (w := Task.rank) (v := PendingSettle.rank) hp ht
      have hcompleted : (d.removePending tableId).completed = d.completed := rfl
      rw [toGo, toGo, hcompleted]
      omega
    have hpos : 0 < p.rank := by
      unfold PendingSettle.rank
      omega
    have hnext : PendingSettle.rank { p with attempts := p.attempts + 1 } + 2 = p.rank := by
      change 2 * (maxSettleAttempts - (p.attempts + 1)) + 2 = 2 * (maxSettleAttempts - p.attempts)
      omega
    have hspawn := Defers.spawn (.submitSettlement { p with attempts := p.attempts + 1 })
      (d := d.removePending tableId) rfl le_rfl h
    simp only [Task.rank] at hspawn
    have hworking : working (some p.hand) h = if p.hand = h then 1 else 0 := by
      unfold working
      simp only [Option.some_inj]
    simp only [Option.map_some, hworking]
    split_ifs at hremove hspawn ⊢ <;> omega

theorem toGo_scheduleLeaveRelease {wallet : Wallet} {handSettled : Bool} :
    (d.scheduleLeaveRelease wallet hand handSettled).toGo h = d.toGo h := by
  unfold scheduleLeaveRelease
  split <;> exact toGo_spawn_idle rfl

theorem toGo_abortFlushLeaveReleases {handId : ℕ} {runtime : Bool} :
    (d.abortFlushLeaveReleases handId runtime).toGo h = d.toGo h := by
  cases runtime with
  | true => exact toGo_spawnReleases
  | false => rfl

/-- No step gets a hand further from its end, and the steps that go on with it get it closer. -/
theorem toGo_step (hs : Sound none d) (he : d.Enabled e) (ho : Orderly cfg d e) :
    (d.step cfg e).toGo h + working (d.workedOn e) h ≤ d.toGo h := by
  have hidle {d' : Driver} {task : Task} (hmem : task ∈ d.tasks) (hnone : task.hand = none)
      (heq : d'.toGo h = (d.finish task).toGo h) : d'.toGo h + 0 ≤ d.toGo h :=
    (heq.trans (toGo_finish_idle hmem hnone)).le
  cases e with
  | onHandComplete hand input live runtime => exact toGo_onHandComplete he
  | settleFromLiveMirror hand parity provable crossCheck =>
    exact defers_settleFromLiveMirror.toGo_lt (he _ rfl) rfl (Nat.lt_succ_self _)
  | appchainAnswered hand answer =>
    exact defers_appchainAnswered.toGo_lt he.1 rfl (Nat.lt_succ_self _)
  | settlementBuilt hand built rakeMatches conserves =>
    exact (defers_settlementBuilt (d := d.finish (.settlementBuild hand)) ho).toGo_lt (he _ rfl) rfl
      (Nat.lt_succ_self _)
  | submitDualFallback hand built =>
    exact defers_submitDualFallback.toGo_lt (he _ rfl) rfl (Nat.lt_succ_self _)
  | dualSubmitted hand departed answer =>
    exact defers_dualSubmitted.toGo_lt he.1 rfl (Nat.lt_succ_self _)
  | runSettleAttempt tableId =>
    have hmem := he _ rfl
    have hfinished := hs.finish hmem (by rintro _ ⟨⟩)
    exact (toGo_runSettleAttempt hfinished).trans (toGo_finish_idle hmem rfl).le
  | settlementSubmitted pending answer =>
    exact (defers_settlementSubmitted cfg (d := d.finish (.submitSettlement pending))
      ho).toGo_lt he.1 rfl (Nat.lt_succ_self _)
  | retryPendingSettlement tableId =>
    change (d.retryPendingSettlement tableId).toGo h + 0 ≤ d.toGo h
    unfold retryPendingSettlement
    split
    · exact (toGo_spawn_idle rfl).le
    · exact le_rfl
  | leave wallet lastHand => exact (toGo_spawn_idle rfl).le
  | scheduleLeaveRelease wallet lastHand handSettled =>
    exact hidle (he _ rfl) rfl toGo_scheduleLeaveRelease
  | insertRelease wallet lastHand => exact hidle (he _ rfl) rfl rfl
  | flushLeaveReleases hand => exact hidle (he _ rfl) rfl toGo_spawnReleases
  | abortFlushLeaveReleases handId runtime =>
    exact hidle (he _ rfl) rfl toGo_abortFlushLeaveReleases
  | releasePlayerLock wallet => exact hidle (he _ rfl) rfl rfl

theorem toGo_variant : ((system cfg).restrict (Orderly cfg)).Variant (fun d => d.toGo h)
    fun d e => d.workedOn e = some h where
  le := by
    rintro d e _ hd ⟨ho, he, rfl⟩
    have hstep := toGo_step (h := h) (sound_invariant.of_reachable hd) he ho
    omega
  lt := by
    rintro d e _ hd ⟨ho, he, rfl⟩ hworks
    have hstep := toGo_step (h := h) (sound_invariant.of_reachable hd) he ho
    rw [hworks, working_self] at hstep
    omega

/-! ## Endless runs -/

theorem completed_restorePendingReleases {departed : List Wallet} {handId : ℕ} :
    (d.restorePendingReleases departed handId).completed = d.completed := by
  obtain ⟨releases, heq⟩ := restorePendingReleases_eq (d := d) departed handId
  rw [heq]

theorem completed_act (hc : d.completed h = true) : (d.act cfg e).completed h = true := by
  cases e with
  | onHandComplete hand input live runtime =>
    have hupdate : Function.update d.completed hand true h = true := by
      by_cases hh : h = hand
      · simp [hh]
      · simp [hh, hc]
    simp only [act, onHandComplete]
    split_ifs <;> exact hupdate
  | settleFromLiveMirror hand parity provable crossCheck =>
    simp only [act, settleFromLiveMirror]
    split_ifs <;> exact hc
  | appchainAnswered hand answer => cases answer <;> exact hc
  | settlementBuilt hand built rakeMatches conserves =>
    simp only [act, settlementBuilt]
    split_ifs <;> exact hc
  | submitDualFallback hand built =>
    simp only [act, submitDualFallback]
    split_ifs <;> exact hc
  | dualSubmitted hand departed answer =>
    cases answer with
    | accepted => exact hc
    | replay => exact hc
    | refused => exact (congrFun completed_restorePendingReleases h).trans hc
    | lost => exact (congrFun completed_restorePendingReleases h).trans hc
  | runSettleAttempt tableId =>
    simp only [act, runSettleAttempt]
    split
    · exact hc
    · split_ifs <;> exact hc
  | settlementSubmitted pending answer =>
    cases answer with
    | accepted => exact hc
    | replay => exact hc
    | _ =>
      simp only [act, settlementSubmitted, retryLater]
      split_ifs <;> exact hc
  | retryPendingSettlement tableId =>
    simp only [act, retryPendingSettlement]
    split_ifs <;> exact hc
  | leave wallet lastHand => exact hc
  | scheduleLeaveRelease wallet lastHand handSettled =>
    simp only [act, scheduleLeaveRelease]
    split_ifs <;> exact hc
  | insertRelease wallet lastHand => exact hc
  | flushLeaveReleases hand => exact hc
  | abortFlushLeaveReleases handId runtime => cases runtime <;> exact hc
  | releasePlayerLock wallet => exact hc

theorem completed_step (hc : d.completed h = true) : (d.step cfg e).completed h = true := by
  unfold step
  refine completed_act ?_
  cases e.task <;> exact hc

/-- After a flush nobody waits for its hand. -/
theorem not_waiting_step {handId : ℕ} (htask : e.task = some task) (hflush : task.Flushes handId) :
    ∀ entry ∈ (d.step cfg e).pendingLeaveReleases, entry.2 ≠ handId := by
  intro entry hentry
  cases e with
  | flushLeaveReleases hand =>
    cases htask
    obtain rfl : hand.handId = handId := hflush
    exact of_decide_eq_true (List.mem_filter.mp hentry).2
  | abortFlushLeaveReleases id runtime =>
    cases htask
    obtain rfl : id = handId := hflush
    cases runtime <;> exact of_decide_eq_true (List.mem_filter.mp hentry).2
  | _ =>
    cases htask
    try cases hflush

/-- The server runs its tasks, and the tables retry the settlements that wait. -/
structure Served (x : ((system cfg).restrict (Orderly cfg)).Execution) : Prop where
  tasks : ∀ n, ∀ task ∈ (x.state n).tasks, ∃ m ≥ n, (x.label m).task = some task
  retries : ∀ n tableId, (x.state n).pendingSettle tableId ≠ none →
    ∃ m ≥ n, x.label m = .retryPendingSettlement tableId

section Served

variable {x : ((system cfg).restrict (Orderly cfg)).Execution} {m : ℕ}

theorem sound_state : Sound none (x.state n) := sound_invariant.of_reachable (x.reachable n)

theorem completed_state (hc : (x.state n).completed h = true) (hnm : n ≤ m) :
    (x.state m).completed h = true := by
  induction m, hnm using Nat.le_induction with
  | base => exact hc
  | succ m _ ih =>
    rw [(x.next m).2.2]
    exact completed_step ih

theorem receipts_state {status : SettleStatus} (hr : (x.state n).receipts h = some status)
    (hnm : n ≤ m) : (x.state m).receipts h = some status := by
  induction m, hnm using Nat.le_induction with
  | base => exact hr
  | succ m _ ih =>
    rw [(x.next m).2.2]
    exact keepsReceipts_step sound_state (x.next m).2.1 h status ih

/-- An entry stays until an attempt takes it. -/
theorem pendingSettle_state {t : ℕ} {p : PendingSettle}
    (hp : (x.state n).pendingSettle t = some p) (hnm : n ≤ m) :
    (x.state m).pendingSettle t = some p ∨
      ∃ k ≥ n, x.label k = .runSettleAttempt t ∧ (x.state k).pendingSettle t = some p := by
  induction m, hnm using Nat.le_induction with
  | base => exact .inl hp
  | succ m hnm ih =>
    rcases ih with hp | htaken
    · rw [(x.next m).2.2]
      rcases keepsEntries_step (x.next m).1 t p hp with hkept | ⟨hlabel, -⟩
      · exact .inl hkept
      · exact .inr ⟨m, hnm, hlabel, hp⟩
    · exact .inr htaken

theorem workedOn_of_task (htask : e.task = some task) (hhand : task.hand = some h) :
    d.workedOn e = some h := by
  cases e with
  | runSettleAttempt tableId =>
    cases htask
    cases hhand
  | _ => cases htask <;> exact hhand

theorem Served.workedOn_of_pending (hserved : Served x) {p : PendingSettle}
    (hp : (x.state n).pendingSettle p.hand.tableId = some p) :
    ∃ m ≥ n, (x.state m).workedOn (x.label m) = some p.hand := by
  have hworks {k : ℕ} (hlabel : x.label k = .runSettleAttempt p.hand.tableId)
      (hpending : (x.state k).pendingSettle p.hand.tableId = some p) :
      (x.state k).workedOn (x.label k) = some p.hand := by
    rw [hlabel, workedOn, hpending]
    rfl
  obtain ⟨m, hnm, hretry⟩ := hserved.retries n p.hand.tableId (by simp [hp])
  rcases pendingSettle_state hp hnm with hkept | ⟨k, hnk, hlabel, htaken⟩
  · have hspawned : .runSettleAttempt p.hand.tableId ∈ (x.state (m + 1)).tasks := by
      rw [(x.next m).2.2, hretry]
      change .runSettleAttempt p.hand.tableId ∈
        ((x.state m).retryPendingSettlement p.hand.tableId).tasks
      rw [retryPendingSettlement, hkept]
      exact List.mem_cons_self
    obtain ⟨k, hmk, htask⟩ := hserved.tasks (m + 1) _ hspawned
    have hlabel : x.label k = .runSettleAttempt p.hand.tableId := by
      cases hk : x.label k <;> rw [hk] at htask <;> cases htask
      rfl
    rcases pendingSettle_state hkept (show m ≤ k by omega) with hkept | ⟨j, hmj, hlabel, htaken⟩
    · exact ⟨k, by omega, hworks hlabel hkept⟩
    · exact ⟨j, by omega, hworks hlabel htaken⟩
  · exact ⟨k, hnk, hworks hlabel htaken⟩

theorem Served.fair (hserved : Served x) :
    x.Fair (fun d e => d.workedOn e = some h) fun d => d.holding h = 0 := by
  intro n hheld
  rcases exists_of_holding_pos (Nat.pos_of_ne_zero hheld) with ⟨task, hmem, hhand⟩ | ⟨p, hp, rfl⟩
  · obtain ⟨m, hnm, htask⟩ := hserved.tasks n task hmem
    exact ⟨m, hnm, workedOn_of_task htask hhand⟩
  · exact hserved.workedOn_of_pending hp

/-- The hand is held no longer, was settled once or given up, and then nobody waits for it. -/
def Ended (d : Driver) (h : Hand) : Prop :=
  d.holding h = 0 ∧ Xor (d.SettledOnce h)
    (d.GivenUp h ∧ ∀ e ∈ d.pendingLeaveReleases, e.2 ≠ h.handId)

theorem Served.ended (hserved : Served x) (hc : (x.state n).completed h = true) :
    ∃ m ≥ n, (x.state m).Ended h := by
  obtain ⟨m, hnm, hfree⟩ := (hserved.fair (h := h)).eventually toGo_variant n
  rcases sound_state.resolves h (completed_state hc hnm) with
    ⟨hone, -⟩ | ⟨-, ⟨hsettled, hnot⟩ | ⟨hgiven, hnot⟩⟩
  · omega
  · exact ⟨m, hnm, hfree, .inl ⟨hsettled, fun hend => hnot hend.1⟩⟩
  · by_cases hnobody : ∀ entry ∈ (x.state m).pendingLeaveReleases, entry.2 ≠ h.handId
    · exact ⟨m, hnm, hfree, .inr ⟨⟨hgiven, hnobody⟩, hnot⟩⟩
    · -- the flush on the way ends the hand, since its receipt is final
      push Not at hnobody
      obtain ⟨entry, hentry, hid⟩ := hnobody
      obtain ⟨task, hmem, hflush⟩ := hgiven.2.2.2 entry hentry hid
      obtain ⟨k, hmk, htask⟩ := hserved.tasks m task hmem
      have hflushed : ∀ entry ∈ (x.state (k + 1)).pendingLeaveReleases, entry.2 ≠ h.handId := by
        rw [(x.next k).2.2]
        exact not_waiting_step htask hflush
      have hfailed : (x.state (k + 1)).Failed h :=
        hgiven.1.imp (receipts_state · (by omega)) (receipts_state · (by omega))
      have hreported : (x.state (k + 1)).receipts h ≠ none := by
        rcases hfailed with hr | hr <;> simp [hr]
      rcases sound_state.resolves h (completed_state hc (show n ≤ k + 1 by omega)) with
        ⟨-, hnone⟩ | ⟨hholding, -⟩
      · exact absurd hnone hreported
      · refine ⟨k + 1, by omega, hholding, .inr ⟨⟨sound_state.givenUp hfailed, hflushed⟩, ?_⟩⟩
        rintro ⟨hsettled, -⟩
        rcases hfailed with hr | hr <;> simp [hr] at hsettled

end Served

/-! ## Steps that can come -/

/-- The exits of the settlements are there. -/
def Configured (cfg : Config) : Prop :=
  cfg.chain = true ∧ cfg.settlementAddress = true ∧ cfg.dualSettlementAddress = true

/-- An orderly run can go on until the hand is held no longer. -/
def CanEnd (cfg : Config) (d : Driver) (h : Hand) : Prop :=
  ∃ steps d', ((system cfg).restrict (Orderly cfg)).Run d steps d' ∧ d'.holding h = 0

theorem CanEnd.cons (hn : ((system cfg).restrict (Orderly cfg)).next d e d')
    (hend : CanEnd cfg d' h) : CanEnd cfg d h := by
  obtain ⟨steps, d'', hrun, hfree⟩ := hend
  exact ⟨_, d'', (TransitionSystem.Run.nil.snoc hn).append hrun, hfree⟩

/-- The exits can answer the task that holds a hand. -/
theorem exists_orderly_of_task (hs : Sound none d) (hcfg : Configured cfg) (hmem : task ∈ d.tasks)
    (hhand : task.hand = some h) :
    ∃ e, Orderly cfg d e ∧ d.Enabled e ∧ d.workedOn e = some h := by
  have htask {e : Event} {task : Task} (he : e.task = some task) (hmem : task ∈ d.tasks) :
      ∀ t ∈ e.task, t ∈ d.tasks := by
    intro t ht
    rw [he] at ht
    cases ht
    exact hmem
  have hready := hs.ready task hmem
  cases task with
  | settleFromLiveMirror hand =>
    exact ⟨.settleFromLiveMirror hand true true true, trivial, htask rfl hmem, hhand⟩
  | appchainExit hand =>
    exact ⟨.appchainAnswered hand .refused, by rintro ⟨⟩, ⟨hmem, trivial⟩, hhand⟩
  | settlementBuild hand =>
    exact ⟨.settlementBuilt hand false true true, by rintro ⟨⟩, htask rfl hmem, hhand⟩
  | snip36SettleFlow hand =>
    exact ⟨.submitDualFallback hand true, ⟨hcfg.1, hcfg.2.2, rfl⟩, htask rfl hmem, hhand⟩
  | submitDualSettlement hand departed =>
    have hnot : Exit.dual ∉ d.taken hand := by simp [show d.taken hand = [] from hready]
    exact ⟨.dualSubmitted hand departed .accepted, .inl rfl, ⟨hmem, hnot⟩, hhand⟩
  | submitSettlement pending =>
    rcases hready.1 with hnot | htaken
    · refine ⟨.settlementSubmitted pending .accepted, ?_, ⟨hmem, ?_⟩, hhand⟩
      · exact fun hne => absurd hne (by decide)
      · simp [Possible, hnot]
    · refine ⟨.settlementSubmitted pending .replay, ?_, ⟨hmem, ?_⟩, hhand⟩
      · exact fun hne => absurd hne (by decide)
      · simp [Possible, htaken]
  | _ => cases hhand

theorem canEnd (hcfg : Configured cfg)
    (hd : ((system cfg).restrict (Orderly cfg)).Reachable d) : CanEnd cfg d h := by
  induction hrank : d.toGo h using Nat.strong_induction_on generalizing d with
  | _ r ih =>
    have hs := sound_invariant.of_reachable hd
    by_cases hfree : d.holding h = 0
    · exact ⟨[], d, .nil, hfree⟩
    · have hgo {d' d'' : Driver} {e : Event} (hd' : ((system cfg).restrict (Orderly cfg)).Reachable d')
          (hle : d'.toGo h ≤ d.toGo h) (hn : ((system cfg).restrict (Orderly cfg)).next d' e d'')
          (hworks : d'.workedOn e = some h) : CanEnd cfg d' h := by
        have hlower := toGo_variant.lt d' e d'' hd' hn hworks
        exact (ih _ (by omega) (.next e hd' hn) rfl).cons hn
      rcases exists_of_holding_pos (Nat.pos_of_ne_zero hfree) with ⟨task, hmem, hhand⟩ | ⟨p, hp, rfl⟩
      · obtain ⟨e, ho, he, hworks⟩ := exists_orderly_of_task hs hcfg hmem hhand
        exact hgo hd le_rfl ⟨ho, he, rfl⟩ hworks
      · -- the retry of the table, and the attempt that it starts
        have hretry : ((system cfg).restrict (Orderly cfg)).next d
            (.retryPendingSettlement p.hand.tableId)
            (d.spawn (.runSettleAttempt p.hand.tableId)) := by
          refine ⟨trivial, by rintro _ ⟨⟩, ?_⟩
          change _ = d.retryPendingSettlement p.hand.tableId
          rw [retryPendingSettlement, hp]
          rfl
        refine CanEnd.cons hretry (hgo (e := .runSettleAttempt p.hand.tableId) (.next _ hd hretry)
          (toGo_spawn_idle rfl).le ⟨fun _ => ⟨hcfg.1, hcfg.2.1⟩, ?_, rfl⟩ ?_)
        · rintro _ ⟨⟩
          exact List.mem_cons_self
        · change (d.pendingSettle p.hand.tableId).map PendingSettle.hand = some p.hand
          rw [hp]
          rfl

/-! ## Resolution -/

/-- In runs of orderly steps every completed hand is held once or resolved once, entries are only
taken by an attempt, reports are final, the last attempt reports, and every hand can come to its
end; in endless runs of a server that runs its tasks and retries, it does. -/
theorem completed_hands_resolved {cfg : Config} :
    (∀ d, ((system cfg).restrict (Orderly cfg)).Reachable d →
      Resolves d ∧
      (∀ e d', (system cfg).next d e d' → Orderly cfg d e →
        KeepsEntries d e d' ∧ KeepsReceipts d d' ∧ ReportsExhausted e d') ∧
      (Configured cfg → ∀ h, CanEnd cfg d h)) ∧
    ∀ x : ((system cfg).restrict (Orderly cfg)).Execution, Served x → ∀ h n,
      (x.state n).completed h = true → ∃ m ≥ n, (x.state m).Ended h := by
  refine ⟨fun d hd => ?_, fun x hserved h n hc => hserved.ended hc⟩
  have hs := sound_invariant.of_reachable hd
  refine ⟨hs.resolves, ?_, fun hcfg h => canEnd hcfg hd⟩
  rintro e _ ⟨he, rfl⟩ ho
  exact ⟨keepsEntries_step ho, keepsReceipts_step hs he, reportsExhausted_step⟩

/-- A server of the legacy exit. -/
def legacyServer : Config where
  chain := true
  settlementAddress := true
  dualSettlementAddress := false
  appchainExit := false
  settlementModeSnip36 := false

/-- A hand is completed, built and submitted. -/
def submitted (hand : Hand) : List Event :=
  [.onHandComplete hand true true true, .settleFromLiveMirror hand true true true,
    .settlementBuilt hand true true true, .runSettleAttempt hand.tableId]

/-- A submission that is refused, and accepted when the table retries. -/
def retried : List Event :=
  submitted ⟨1, 1⟩ ++ [.settlementSubmitted ⟨⟨1, 1⟩, 1⟩ .refused, .retryPendingSettlement 1,
    .runSettleAttempt 1, .settlementSubmitted ⟨⟨1, 1⟩, 2⟩ .accepted]

/-- The events, and the ticks of the table after them. -/
def retriedEvent (n : ℕ) : Event := retried.getD n (.retryPendingSettlement 1)

def retriedState : ℕ → Driver
  | 0 => .empty
  | n + 1 => (retriedState n).step legacyServer (retriedEvent n)

def retriedRun : ((system legacyServer).restrict (Orderly legacyServer)).Execution where
  state := retriedState
  label := retriedEvent
  init := rfl
  next
    | 0 => ⟨⟨rfl, rfl, .inl rfl⟩, rfl, rfl⟩
    | 1 => ⟨trivial, by decide, rfl⟩
    | 2 => ⟨fun _ _ _ _ => rfl, by decide, rfl⟩
    | 3 => ⟨fun _ => ⟨rfl, rfl⟩, by decide, rfl⟩
    | 4 => ⟨fun _ => by decide, by decide, rfl⟩
    | 5 => ⟨trivial, by decide, rfl⟩
    | 6 => ⟨fun _ => ⟨rfl, rfl⟩, by decide, rfl⟩
    | 7 => ⟨fun hne => absurd hne (by decide), by decide, rfl⟩
    | n + 8 => ⟨trivial, by rintro _ ⟨⟩, rfl⟩

theorem step_retryPendingSettlement {tableId : ℕ} (hnone : d.pendingSettle tableId = none) :
    d.step cfg (.retryPendingSettlement tableId) = d := by
  change d.retryPendingSettlement tableId = d
  rw [retryPendingSettlement, hnone]
  rfl

/-- Once the hand is settled nothing is left to do. -/
theorem retriedState_add (n : ℕ) : retriedState (n + 8) = retriedState 8 := by
  induction n with
  | zero => rfl
  | succ n ih =>
    have hnext : retriedState (n + 1 + 8) =
      (retriedState (n + 8)).step legacyServer (.retryPendingSettlement 1) := rfl
    rw [hnext, ih]
    exact step_retryPendingSettlement (by decide)

theorem pendingSettle_retriedState {t : ℕ} (ht : t ≠ 1) :
    ∀ n, (retriedState n).pendingSettle t = none
  | 0 => rfl
  | 1 => rfl
  | 2 => rfl
  | 3 => Function.update_of_ne ht _ _
  | 4 => (Function.update_of_ne ht _ _).trans (pendingSettle_retriedState ht 3)
  | 5 => (Function.update_of_ne ht _ _).trans (pendingSettle_retriedState ht 4)
  | 6 => pendingSettle_retriedState ht 5
  | 7 => (Function.update_of_ne ht _ _).trans (pendingSettle_retriedState ht 6)
  | 8 => pendingSettle_retriedState ht 7
  | n + 9 => by
    rw [show n + 9 = n + 1 + 8 from rfl, retriedState_add]
    exact pendingSettle_retriedState ht 8

theorem tasks_retriedState : ∀ n, (retriedState n).tasks = (retriedEvent n).task.toList
  | 0 => rfl
  | 1 => rfl
  | 2 => rfl
  | 3 => rfl
  | 4 => rfl
  | 5 => rfl
  | 6 => rfl
  | 7 => rfl
  | n + 8 => by
    rw [retriedState_add]
    rfl

theorem retriedRun_served : Served retriedRun where
  tasks n task hmem := by
    change task ∈ (retriedState n).tasks at hmem
    rw [tasks_retriedState] at hmem
    exact ⟨n, le_rfl, Option.mem_toList.mp hmem⟩
  retries n t hpending := by
    by_cases ht : t = 1
    · subst ht
      exact ⟨n + 8, by omega, rfl⟩
    · exact absurd (pendingSettle_retriedState ht n) hpending

/-- A hand whose first submission is refused comes to its end. -/
theorem accepted_hand_resolved : ∃ m ≥ 1, (retriedRun.state m).Ended ⟨1, 1⟩ :=
  completed_hands_resolved.2 retriedRun retriedRun_served ⟨1, 1⟩ 1 rfl

/-! ## Runs of given events -/

/-- The events can happen one after the other. -/
def Plays (cfg : Config) : Driver → List Event → Prop
  | _, [] => True
  | d, e :: events => d.Enabled e ∧ Plays cfg (d.step cfg e) events

instance instDecidablePlays : ∀ d events, Decidable (Plays cfg d events)
  | _, [] => .isTrue trivial
  | d, e :: events =>
    have : Decidable (Plays cfg (d.step cfg e) events) := instDecidablePlays _ _
    inferInstanceAs (Decidable (_ ∧ _))

theorem reachable_of_plays {events : List Event} (hd : (system cfg).Reachable d)
    (hp : Plays cfg d events) : (system cfg).Reachable (events.foldl (step cfg) d) := by
  induction events generalizing d with
  | nil => exact hd
  | cons e events ih => exact ih (.next _ hd ⟨hp.1, rfl⟩) hp.2

/-- The second hand of a table is queued while the first one is being submitted. The first one is
refused, and put back over the second one. -/
def overtaken : List Event :=
  submitted ⟨1, 1⟩ ++ (submitted ⟨1, 2⟩).take 3 ++
    [.settlementSubmitted ⟨⟨1, 1⟩, 1⟩ .refused, .runSettleAttempt 1,
      .settlementSubmitted ⟨⟨1, 1⟩, 2⟩ .accepted]

theorem Resolves.reported (hr : Resolves d) (hc : d.completed h = true) (hh : d.holding h = 0) :
    d.receipts h ≠ none := by
  intro hnone
  rcases hr h hc with ⟨hone, -⟩ | ⟨-, ⟨⟨hsettled, -⟩, -⟩ | ⟨⟨hfailed, -⟩, -⟩⟩
  · omega
  · simp [hnone] at hsettled
  · simp [Failed, hnone] at hfailed

/-- The second hand was completed, nothing is left to do, and it has no receipt. -/
theorem overtaken_hand_lost : ∃ d, (system legacyServer).Reachable d ∧
    d.completed ⟨1, 2⟩ = true ∧ d.tasks = [] ∧ d.pendingSettle 1 = none ∧
    d.receipts ⟨1, 2⟩ = none ∧ ¬ Resolves d := by
  have hplays : Plays legacyServer .empty overtaken := by decide
  exact ⟨_, reachable_of_plays (.init rfl) hplays, by decide, by decide, by decide, by decide,
    fun hr => hr.reported (h := ⟨1, 2⟩) (by decide) (by decide) (by decide)⟩

end Driver

end TexasPoker.Hooks
