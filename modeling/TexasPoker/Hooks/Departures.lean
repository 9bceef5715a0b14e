import TexasPoker.Hooks.Releases

/-! # No departed player is forgotten

A release that waits in the map waits for a hand whose flush is still to come, and a wallet that
waits plays no other unsettled hand. Orderly steps keep this, so releases are neither early nor
lost.
-/

namespace TexasPoker.Hooks

namespace Floor

variable {parseFelt : Wallet → Option ℕ} {s s' : Floor} {cur rest : List Wallet} {wallet : Wallet}
  {hand : Hand} {handId : ℕ} {task : Task}

/-- The wallet plays unsettled hands of this id only. -/
def Only (s : Floor) (wallet : Wallet) (handId : ℕ) : Prop :=
  ∀ h ∈ s.unsettled, wallet ∈ h.2 → h.1.handId = handId

/-- The hands of this id are over. -/
def Over (s : Floor) (handId : ℕ) : Prop :=
  (∃ h ∈ s.dealt, h.handId = handId) ∧ ∀ h ∈ s.unsettled, h.1.handId ≠ handId

/-- What a task relies on. -/
def Supports (s : Floor) : Task → Prop
  | .scheduleLeaveRelease wallet hand settled =>
    (settled = true → s.Free wallet) ∧ (settled = false → s.Only wallet hand.handId ∧
      (s.Live hand.handId ∨ hand.handId ∈ s.driver.failedHands))
  | .insertRelease wallet hand => s.Only wallet hand.handId ∧ s.Live hand.handId
  | .submitDualSettlement hand departed =>
    hand ∈ s.dealt ∧ ∀ wallet ∈ departed, s.Only wallet hand.handId
  | .flushLeaveReleases hand => s.Over hand.handId
  | .abortFlushLeaveReleases handId _ => s.Over handId
  | .releasePlayerLock wallet => s.Free wallet
  | _ => True

/-- The state between two steps, while the releases of some wallets are in hand. -/
structure Tidy (cur : List Wallet) (s : Floor) : Prop where
  early : s.early = []
  left : ∀ wallet, s.left wallet = true → wallet ∈ cur ∨ s.Waits wallet
  pending : ∀ e ∈ s.driver.pendingLeaveReleases, s.Only e.1 e.2 ∧ s.Live e.2
  tasks : ∀ task ∈ s.driver.tasks, s.Supports task
  dealt : ∀ h ∈ s.unsettled, h.1 ∈ s.dealt
  ids : ∀ h ∈ s.dealt, ∀ h' ∈ s.dealt, h.handId = h'.handId → h = h'
  failed : ∀ handId ∈ s.driver.failedHands, s.Over handId
  settleOk : ∀ hand, s.driver.settleOk hand = true → s.Over hand.handId

theorem Tidy.kept (h : s.Tidy []) : s.Kept where
  safe := h.early
  remembered wallet hleft := by
    rcases h.left wallet hleft with hcur | ⟨e, he, hwallet⟩ | htask
    · cases hcur
    · exact .inl ⟨e, he, hwallet, (h.pending e he).2⟩
    · exact .inr htask
  released htasks hunsettled wallet := by
    by_contra hleft
    rcases h.left wallet (by simpa using hleft) with hcur | ⟨e, he, -⟩ | ⟨task, htask, -⟩
    · cases hcur
    · rcases (h.pending e he).2 with ⟨x, hx, -⟩ | ⟨task, htask, -⟩
      · rw [hunsettled] at hx
        cases hx
      · rw [htasks] at htask
        cases htask
    · rw [htasks] at htask
      cases htask

theorem Tidy.mono (h : s.Tidy cur) (hsub : ∀ wallet ∈ cur, wallet ∈ rest) : s.Tidy rest :=
  { h with left := fun wallet hleft => (h.left wallet hleft).imp_left (hsub wallet) }

theorem Over.mono (h : s.Over handId) (hunsettled : ∀ x ∈ s'.unsettled, x ∈ s.unsettled)
    (hdealt : ∀ x ∈ s.dealt, x ∈ s'.dealt) : s'.Over handId := by
  obtain ⟨⟨x, hx, hid⟩, hover⟩ := h
  exact ⟨⟨x, hdealt x hx, hid⟩, fun x hx => hover x (hunsettled x hx)⟩

/-- Only the tasks in hand and the hands that are over change. -/
theorem Supports.mono (h : s.Supports task)
    (hunsettled : ∀ x ∈ s'.unsettled, x ∈ s.unsettled) (hdealt : ∀ x ∈ s.dealt, x ∈ s'.dealt)
    (hfailed : s'.driver.failedHands = s.driver.failedHands)
    (hlive : ∀ handId, s.Live handId → s'.Live handId ∨
      ¬ task.Registers s.driver.failedHands handId) : s'.Supports task := by
  have honly {wallet : Wallet} {handId : ℕ} (h : s.Only wallet handId) : s'.Only wallet handId :=
    fun x hx => h x (hunsettled x hx)
  have hfree {wallet : Wallet} (h : s.Free wallet) : s'.Free wallet :=
    fun x hx => h x (hunsettled x hx)
  cases task with
  | scheduleLeaveRelease wallet hand settled =>
    refine ⟨fun hs => hfree (h.1 hs), fun hs => ⟨honly (h.2 hs).1, ?_⟩⟩
    rw [hfailed]
    by_cases hmem : hand.handId ∈ s.driver.failedHands
    · exact .inr hmem
    · have hregisters : (Task.scheduleLeaveRelease wallet hand settled).Registers
          s.driver.failedHands hand.handId := ⟨rfl, hs, hmem⟩
      exact .inl ((hlive _ ((h.2 hs).2.resolve_right hmem)).resolve_right
        fun hno => hno hregisters)
  | insertRelease wallet hand =>
    exact ⟨honly h.1, (hlive _ h.2).resolve_right fun hno => hno rfl⟩
  | submitDualSettlement hand departed =>
    exact ⟨hdealt _ h.1, fun wallet hwallet => honly (h.2 wallet hwallet)⟩
  | flushLeaveReleases hand => exact Over.mono h hunsettled hdealt
  | abortFlushLeaveReleases handId runtime => exact Over.mono h hunsettled hdealt
  | releasePlayerLock wallet => exact hfree h
  | _ => trivial

theorem supports_of_flushes (hflush : task.Flushes handId) (hover : s.Over handId) :
    s.Supports task := by
  cases task with
  | flushLeaveReleases hand =>
    obtain rfl : hand.handId = handId := hflush
    exact hover
  | abortFlushLeaveReleases id runtime =>
    obtain rfl : id = handId := hflush
    exact hover
  | _ => cases hflush

theorem wallets_of_flushes (hflush : task.Flushes handId) : task.wallets = [] := by
  cases task with
  | flushLeaveReleases => rfl
  | abortFlushLeaveReleases => rfl
  | _ => cases hflush

/-! ## Tasks -/

theorem live_finish (hflush : ∀ handId, ¬ task.Flushes handId) (h : s.Live handId) :
    (s.finish task).Live handId := by
  refine h.imp_right fun ⟨other, hmem, hother⟩ => ⟨other, ?_, hother⟩
  refine (List.mem_erase_of_ne ?_).mpr hmem
  rintro rfl
  exact hflush handId hother

/-- A task that goes on has its releases in hand. -/
theorem Tidy.finish (h : s.Tidy []) (task : Task) (hflush : ∀ handId, ¬ task.Flushes handId) :
    (s.finish task).Tidy task.wallets where
  early := h.early
  left wallet hleft := by
    rcases h.left wallet hleft with hcur | hpending | ⟨other, hmem, hwallet⟩
    · cases hcur
    · exact .inr (.inl hpending)
    · by_cases heq : other = task
      · exact .inl (heq ▸ hwallet)
      · exact .inr (.inr ⟨other, (List.mem_erase_of_ne heq).mpr hmem, hwallet⟩)
  pending e he := ⟨(h.pending e he).1, live_finish hflush (h.pending e he).2⟩
  tasks other hmem := (h.tasks other (List.mem_of_mem_erase hmem)).mono (fun _ hx => hx)
    (fun _ hx => hx) rfl fun _ hl => .inl (live_finish hflush hl)
  dealt := h.dealt
  ids := h.ids
  failed := h.failed
  settleOk := h.settleOk

theorem live_spawn (h : s.Live handId) : (s.spawn task).Live handId :=
  h.imp_right fun ⟨other, hmem, hother⟩ => ⟨other, List.mem_cons_of_mem _ hmem, hother⟩

theorem Supports.spawn {other : Task} (h : s.Supports other) : (s.spawn task).Supports other :=
  h.mono (fun _ hx => hx) (fun _ hx => hx) rfl fun _ hl => .inl (live_spawn hl)

variable (task) in
/-- A new task takes releases over. -/
theorem Tidy.spawn (h : s.Tidy cur) (htask : s.Supports task)
    (hcur : ∀ wallet ∈ cur, wallet ∈ rest ∨ wallet ∈ task.wallets) :
    (s.spawn task).Tidy rest where
  early := h.early
  left wallet hleft := by
    have hnew (hwallet : wallet ∈ task.wallets) : (s.spawn task).Waits wallet :=
      .inr ⟨task, List.mem_cons_self, hwallet⟩
    rcases h.left wallet hleft with hmem | hpending | ⟨other, hmem, hwallet⟩
    · exact (hcur wallet hmem).imp_right hnew
    · exact .inr (.inl hpending)
    · exact .inr (.inr ⟨other, List.mem_cons_of_mem _ hmem, hwallet⟩)
  pending e he := ⟨(h.pending e he).1, live_spawn (h.pending e he).2⟩
  tasks other hmem := by
    rcases List.mem_cons.mp hmem with rfl | hmem
    · exact htask.spawn
    · exact (h.tasks other hmem).spawn
  dealt := h.dealt
  ids := h.ids
  failed := h.failed
  settleOk := h.settleOk

theorem Tidy.spawnReleases {wallets : List Wallet} (h : s.Tidy (wallets ++ rest))
    (hfree : ∀ wallet ∈ wallets, s.Free wallet) :
    (s.withDriver (s.driver.spawnReleases wallets)).Tidy rest := by
  induction wallets generalizing rest with
  | nil => exact h
  | cons wallet wallets ih =>
    have htidy : (s.withDriver (s.driver.spawnReleases wallets)).Tidy (wallet :: rest) :=
      ih (h.mono fun x hx => by simpa [or_comm, or_left_comm] using hx)
        fun x hx => hfree x (List.mem_cons_of_mem _ hx)
    have hsupports : (s.withDriver (s.driver.spawnReleases wallets)).Supports
      (.releasePlayerLock wallet) := hfree wallet List.mem_cons_self
    exact htidy.spawn _ hsupports fun x hx => (List.mem_cons.mp hx).symm.imp_right List.mem_singleton.mpr

/-! ## The map -/

theorem Tidy.withPending {pending : List (Wallet × ℕ)} (h : s.Tidy cur)
    (hpending : ∀ e ∈ pending, s.Only e.1 e.2 ∧ s.Live e.2)
    (hkept : ∀ e ∈ s.driver.pendingLeaveReleases, e.1 ∈ rest ∨ ∃ e' ∈ pending, e'.1 = e.1)
    (hcur : ∀ wallet ∈ cur, wallet ∈ rest ∨ ∃ e ∈ pending, e.1 = wallet) :
    (s.withDriver { s.driver with pendingLeaveReleases := pending }).Tidy rest where
  early := h.early
  left wallet hleft := by
    rcases h.left wallet hleft with hmem | ⟨e, he, rfl⟩ | htask
    · exact (hcur wallet hmem).imp_right .inl
    · exact (hkept e he).imp_right .inl
    · exact .inr (.inr htask)
  pending := hpending
  tasks task htask :=
    (h.tasks task htask).mono (fun _ hx => hx) (fun _ hx => hx) rfl fun _ hl => .inl hl
  dealt := h.dealt
  ids := h.ids
  failed := h.failed
  settleOk := h.settleOk

theorem Tidy.insertRelease (h : s.Tidy (wallet :: rest)) (honly : s.Only wallet handId)
    (hlive : s.Live handId) : (s.withDriver (s.driver.insertRelease wallet handId)).Tidy rest := by
  have hnew : ∃ e ∈ (wallet, handId) :: s.driver.pendingLeaveReleases.filter fun e => e.1 ≠ wallet,
      e.1 = wallet := ⟨_, List.mem_cons_self, rfl⟩
  refine h.withPending ?_ ?_ ?_
  · intro e he
    rcases List.mem_cons.mp he with rfl | he
    · exact ⟨honly, hlive⟩
    · exact h.pending e (List.mem_filter.mp he).1
  · intro e he
    by_cases hwallet : e.1 = wallet
    · exact .inr (hwallet ▸ hnew)
    · exact .inr ⟨e, List.mem_cons_of_mem _ (List.mem_filter.mpr ⟨he, by simpa using hwallet⟩), rfl⟩
  · intro x hx
    rcases List.mem_cons.mp hx with rfl | hx
    · exact .inr hnew
    · exact .inl hx

theorem Tidy.restorePendingReleases {departed : List Wallet} (h : s.Tidy departed)
    (honly : ∀ wallet ∈ departed, s.Only wallet handId) (hlive : departed = [] ∨ s.Live handId) :
    (s.withDriver (s.driver.restorePendingReleases departed handId)).Tidy [] := by
  induction departed generalizing s with
  | nil => exact h
  | cons wallet departed ih =>
    have hlive := hlive.resolve_left (List.cons_ne_nil _ _)
    exact ih (h.insertRelease (honly wallet List.mem_cons_self) hlive)
      (fun x hx => honly x (List.mem_cons_of_mem _ hx)) (.inr hlive)

theorem mem_due : wallet ∈ s.driver.due handId ↔
    (wallet, handId) ∈ s.driver.pendingLeaveReleases := by
  simp only [Driver.due, List.mem_map, List.mem_filter, decide_eq_true_eq]
  constructor
  · rintro ⟨e, ⟨he, rfl⟩, rfl⟩
    exact he
  · intro h
    exact ⟨_, ⟨h, rfl⟩, rfl⟩

/-- The releases that are taken out of the map are in hand. -/
theorem Tidy.takePendingReleasesFor (h : s.Tidy []) :
    (s.withDriver (s.driver.takePendingReleasesFor handId)).Tidy (s.driver.due handId) := by
  refine h.withPending (fun e he => h.pending e (List.mem_filter.mp he).1) ?_ fun _ hx => ?_
  · rintro ⟨wallet, id⟩ he
    by_cases hid : id = handId
    · subst hid
      exact .inl (mem_due.mpr he)
    · exact .inr ⟨_, List.mem_filter.mpr ⟨he, by simpa using hid⟩, rfl⟩
  · cases hx

/-! ## Ends of hands -/

theorem mem_close {x : Hand × List Wallet} :
    x ∈ (s.close hand).unsettled ↔ x ∈ s.unsettled ∧ x.1 ≠ hand := by
  simp [close]

theorem Tidy.over_close (h : s.Tidy cur) (hdealt : hand ∈ s.dealt) :
    (s.close hand).Over hand.handId := by
  refine ⟨⟨hand, hdealt, rfl⟩, fun x hx hid => ?_⟩
  obtain ⟨hx, hne⟩ := mem_close.mp hx
  exact hne (h.ids _ (h.dealt x hx) _ hdealt hid)

/-- A wallet that waits for a hand is free once the hand is over. -/
theorem Over.free (h : s.Over handId) (honly : s.Only wallet handId) : s.Free wallet :=
  fun x hx hwallet => h.2 x hx (honly x hx hwallet)

theorem Only.close (h : s.Only wallet handId) : (s.close hand).Only wallet handId :=
  fun x hx => h x (mem_close.mp hx).1

variable (hand) in
theorem live_close (h : s.Live handId) : (s.close hand).Live handId ∨ handId = hand.handId := by
  rcases h with ⟨x, hx, rfl⟩ | htask
  · by_cases hhand : x.1 = hand
    · exact .inr (congrArg _ hhand)
    · exact .inl (.inl ⟨x, mem_close.mpr ⟨hx, hhand⟩, rfl⟩)
  · exact .inl (.inr htask)

/-- Hands can end and tasks without a wallet can go when no release relies on them. -/
theorem Tidy.shrink (h : s.Tidy cur) (hunsettled : ∀ x ∈ s'.unsettled, x ∈ s.unsettled)
    (hdealt : s'.dealt = s.dealt) (hearly : s'.early = s.early) (hleft : s'.left = s.left)
    (hpending : s'.driver.pendingLeaveReleases = s.driver.pendingLeaveReleases)
    (hfailed : s'.driver.failedHands = s.driver.failedHands)
    (hok : s'.driver.settleOk = s.driver.settleOk)
    (htasks : ∀ task ∈ s'.driver.tasks, task ∈ s.driver.tasks ∨ s'.Supports task)
    (hkept : ∀ task ∈ s.driver.tasks, ∀ wallet ∈ task.wallets, task ∈ s'.driver.tasks)
    (hlive : ∀ handId, s.Live handId → s'.Live handId ∨
      ¬ s.Departing handId ∧ ¬ s.Awaited handId) : s'.Tidy cur where
  early := hearly.trans h.early
  left wallet hl := by
    rw [hleft] at hl
    refine (h.left wallet hl).imp_right (Or.imp (fun hp => ?_) fun ⟨task, htask, hwallet⟩ => ?_)
    · rwa [hpending]
    · exact ⟨task, hkept task htask wallet hwallet, hwallet⟩
  pending e he := by
    rw [hpending] at he
    refine ⟨fun x hx => (h.pending e he).1 x (hunsettled x hx), ?_⟩
    exact (hlive _ (h.pending e he).2).resolve_right fun hno => hno.2 ⟨e, he, rfl⟩
  tasks task htask := by
    rcases htasks task htask with htask | hsupports
    · exact (h.tasks task htask).mono hunsettled (fun _ hx => hdealt ▸ hx) hfailed fun handId hl =>
        (hlive handId hl).imp_right fun hno hregisters => hno.1 ⟨task, htask, hregisters⟩
    · exact hsupports
  dealt x hx := hdealt ▸ h.dealt x (hunsettled x hx)
  ids := hdealt ▸ h.ids
  failed handId hmem :=
    (h.failed handId (hfailed ▸ hmem)).mono hunsettled fun _ hx => hdealt ▸ hx
  settleOk hand hmem := (h.settleOk hand (hok ▸ hmem)).mono hunsettled fun _ hx => hdealt ▸ hx

theorem Tidy.close (h : s.Tidy cur) (hquiet : (s.close hand).Live hand.handId ∨
    ¬ s.Departing hand.handId ∧ ¬ s.Awaited hand.handId) : (s.close hand).Tidy cur := by
  refine h.shrink (fun x hx => (mem_close.mp hx).1) rfl rfl rfl rfl rfl rfl (fun _ ht => .inl ht)
    (fun _ ht _ _ => ht) fun handId hlive => ?_
  rcases live_close hand hlive with hlive | rfl
  · exact .inl hlive
  · exact hquiet

variable (task) in
/-- A hand is over, and its flush is on the way. -/
theorem Tidy.settle (h : s.Tidy cur) (hdealt : hand ∈ s.dealt)
    (hflush : task.Flushes hand.handId) : ((s.spawn task).close hand).Tidy cur := by
  refine h.shrink (fun x hx => (mem_close.mp hx).1) rfl rfl rfl rfl rfl rfl (fun other ht => ?_)
    (fun _ ht _ _ => List.mem_cons_of_mem _ ht) fun handId hlive => ?_
  · rcases List.mem_cons.mp ht with rfl | ht
    · exact .inr (supports_of_flushes hflush (h.over_close hdealt))
    · exact .inl ht
  · rcases live_close hand hlive with hlive | rfl
    · exact .inl (live_spawn hlive)
    · exact .inl (.inr ⟨_, List.mem_cons_self, hflush⟩)

/-- A flush is over when nobody can come to wait for its hand, or another flush will come. -/
theorem Tidy.finish_flush (h : s.Tidy cur) (hflush : task.Flushes handId)
    (hquiet : (s.finish task).Live handId ∨ ¬ s.Departing handId ∧ ¬ s.Awaited handId) :
    (s.finish task).Tidy cur := by
  refine h.shrink (fun _ hx => hx) rfl rfl rfl rfl rfl rfl
    (fun _ ht => .inl (List.mem_of_mem_erase ht))
    (fun other ht wallet hwallet => (List.mem_erase_of_ne ?_).mpr ht) fun id hlive => ?_
  · rintro rfl
    rw [wallets_of_flushes hflush] at hwallet
    cases hwallet
  · rcases hlive with hunsettled | ⟨other, ht, hother⟩
    · exact .inl (.inl hunsettled)
    · by_cases heq : other = task
      · subst heq
        obtain rfl : id = handId := by
          cases other with
          | flushLeaveReleases hand => exact hother.symm.trans hflush
          | abortFlushLeaveReleases _ runtime => exact hother.symm.trans hflush
          | _ => cases hother
        exact hquiet
      · exact .inl (.inr ⟨other, (List.mem_erase_of_ne heq).mpr ht, hother⟩)

theorem Tidy.settleOkOnce (h : s.Tidy cur) (hover : s.Over hand.handId) :
    (s.withDriver (s.driver.settleOkOnce hand)).Tidy cur where
  early := h.early
  left := h.left
  pending := h.pending
  tasks task htask :=
    (h.tasks task htask).mono (fun _ hx => hx) (fun _ hx => hx) rfl fun _ hl => .inl hl
  dealt := h.dealt
  ids := h.ids
  failed := h.failed
  settleOk other hok := by
    by_cases heq : other = hand
    · subst heq
      exact hover
    · refine h.settleOk other ?_
      simpa [withDriver, Driver.settleOkOnce, Driver.record, heq] using hok

theorem Tidy.take (hand : Hand) (exit : Exit) (h : s.Tidy cur) :
    (s.withDriver (s.driver.take hand exit)).Tidy cur :=
  h.shrink (fun _ hx => hx) rfl rfl rfl rfl rfl rfl (fun _ ht => .inl ht) (fun _ ht _ _ => ht)
    fun _ hl => .inl hl

theorem Tidy.record (hand : Hand) (status : SettleStatus) (h : s.Tidy cur) :
    (s.withDriver (s.driver.record hand status)).Tidy cur :=
  h.shrink (fun _ hx => hx) rfl rfl rfl rfl rfl rfl (fun _ ht => .inl ht) (fun _ ht _ _ => ht)
    fun _ hl => .inl hl

/-- The set of failed hands may be emptied when no task relies on it. -/
theorem Tidy.markHandSettlementFailed (h : s.Tidy cur) (hover : s.Over handId)
    (hroom : s.driver.failedHands.card ≤ 4096 ∨ ∀ wallet h,
      .scheduleLeaveRelease wallet h false ∈ s.driver.tasks → s.Live h.handId ∨
        h.handId = handId) :
    (s.withDriver (s.driver.markHandSettlementFailed handId)).Tidy cur where
  early := h.early
  left := h.left
  pending := h.pending
  tasks task htask := by
    have hsupports := h.tasks task htask
    cases task with
    | scheduleLeaveRelease wallet lastHand settled =>
      refine ⟨hsupports.1, fun hs => ⟨(hsupports.2 hs).1, ?_⟩⟩
      subst hs
      change _ ∨ lastHand.handId ∈ insert handId
        (if 4096 < s.driver.failedHands.card then ∅ else s.driver.failedHands)
      rw [Finset.mem_insert]
      rcases hroom with hroom | hroom
      · rw [if_neg (by omega)]
        exact (hsupports.2 rfl).2.imp_right .inr
      · exact (hroom wallet lastHand htask).imp_right .inl
    | _ => exact hsupports
  dealt := h.dealt
  ids := h.ids
  failed id hfailed := by
    change id ∈ insert handId
      (if 4096 < s.driver.failedHands.card then ∅ else s.driver.failedHands) at hfailed
    rcases Finset.mem_insert.mp hfailed with rfl | hfailed
    · exact hover
    · split at hfailed
      · cases hfailed
      · exact h.failed id hfailed
  settleOk := h.settleOk

theorem Tidy.forget (h : s.Tidy (wallet :: rest)) : (s.forget wallet).Tidy rest where
  early := h.early
  left other hleft := by
    by_cases heq : other = wallet
    · subst heq
      simp [Floor.forget] at hleft
    · have hleft : s.left other = true := by simpa [Floor.forget, heq] using hleft
      exact (h.left other hleft).imp_left fun hmem => (List.mem_cons.mp hmem).resolve_left heq
  pending := h.pending
  tasks task htask :=
    (h.tasks task htask).mono (fun _ hx => hx) (fun _ hx => hx) rfl fun _ hl => .inl hl
  dealt := h.dealt
  ids := h.ids
  failed := h.failed
  settleOk := h.settleOk

theorem Tidy.unlock (h : s.Tidy (wallet :: rest)) (hfree : s.Free wallet) :
    (s.unlock wallet).Tidy rest := by
  unfold Floor.unlock
  rw [if_pos hfree]
  exact h.forget

theorem Tidy.unlockAll {departed : List Wallet} (h : s.Tidy departed)
    (hfree : ∀ wallet ∈ departed, s.Free wallet) : (s.unlockAll departed).Tidy [] := by
  induction departed generalizing s with
  | nil => exact h
  | cons wallet departed ih =>
    exact ih (h.unlock (hfree wallet List.mem_cons_self))
      fun x hx => hfree x (List.mem_cons_of_mem _ hx)

/-! ## Orderly steps -/

/-- The hands that are over keep their ids to themselves. -/
theorem Over.startHand {players : List Wallet} (h : s.Over handId)
    (hfresh : ∀ h ∈ s.dealt, h.handId ≠ hand.handId) :
    (s.startHand hand players).Over handId := by
  obtain ⟨⟨x, hx, rfl⟩, hover⟩ := h
  refine ⟨⟨x, List.mem_cons_of_mem _ hx, rfl⟩, fun y hy => ?_⟩
  rcases List.mem_cons.mp hy with rfl | hy
  · exact (hfresh x hx).symm
  · exact hover y hy

section StartHand

variable {players : List Wallet}

theorem live_startHand (h : s.Live handId) : (s.startHand hand players).Live handId :=
  h.imp_left fun ⟨x, hx, hid⟩ => ⟨x, List.mem_cons_of_mem _ hx, hid⟩

theorem Only.startHand (hplayers : ∀ wallet ∈ players, ¬ s.Waits wallet) (h : s.Only wallet handId)
    (hwaits : s.Waits wallet) : (s.startHand hand players).Only wallet handId := by
  intro x hx hwallet
  rcases List.mem_cons.mp hx with rfl | hx
  · exact absurd hwaits (hplayers wallet hwallet)
  · exact h x hx hwallet

theorem Free.startHand (hplayers : ∀ wallet ∈ players, ¬ s.Waits wallet) (h : s.Free wallet)
    (hwaits : s.Waits wallet) : (s.startHand hand players).Free wallet := by
  intro x hx hwallet
  rcases List.mem_cons.mp hx with rfl | hx
  · exact hplayers wallet hwallet hwaits
  · exact h x hx hwallet

/-- A task relies on what a new hand without its wallets leaves as it is. -/
theorem Supports.startHand (hfresh : ∀ h ∈ s.dealt, h.handId ≠ hand.handId)
    (hplayers : ∀ wallet ∈ players, ¬ s.Waits wallet) (htask : task ∈ s.driver.tasks)
    (h : s.Supports task) : (s.startHand hand players).Supports task := by
  have hwaits {wallet : Wallet} (hw : wallet ∈ task.wallets) : s.Waits wallet :=
    .inr ⟨task, htask, hw⟩
  cases task with
  | scheduleLeaveRelease wallet lastHand settled =>
    have hw := hwaits (List.mem_singleton_self wallet)
    exact ⟨fun hs => (h.1 hs).startHand hplayers hw, fun hs =>
      ⟨(h.2 hs).1.startHand hplayers hw, (h.2 hs).2.imp_left live_startHand⟩⟩
  | insertRelease wallet lastHand =>
    exact ⟨h.1.startHand hplayers (hwaits (List.mem_singleton_self wallet)), live_startHand h.2⟩
  | submitDualSettlement other departed =>
    exact ⟨List.mem_cons_of_mem _ h.1, fun wallet hmem =>
      (h.2 wallet hmem).startHand hplayers (hwaits hmem)⟩
  | flushLeaveReleases other => exact Over.startHand h hfresh
  | abortFlushLeaveReleases id runtime => exact Over.startHand h hfresh
  | releasePlayerLock wallet =>
    exact Free.startHand hplayers h (hwaits (List.mem_singleton_self wallet))
  | _ => trivial

/-- The players of a new hand wait for no release, so it delays none. -/
theorem Tidy.startHand (h : s.Tidy []) (hfresh : ∀ h ∈ s.dealt, h.handId ≠ hand.handId)
    (hplayers : ∀ wallet ∈ players, ¬ s.Waits wallet) : (s.startHand hand players).Tidy [] where
  early := h.early
  left := h.left
  pending e he :=
    ⟨(h.pending e he).1.startHand hplayers (.inl ⟨e, he, rfl⟩), live_startHand (h.pending e he).2⟩
  tasks task htask := (h.tasks task htask).startHand hfresh hplayers htask
  dealt x hx := by
    rcases List.mem_cons.mp hx with rfl | hx
    · exact List.mem_cons_self
    · exact List.mem_cons_of_mem _ (h.dealt x hx)
  ids x hx y hy hid := by
    rcases List.mem_cons.mp hx with hx | hx <;> rcases List.mem_cons.mp hy with hy | hy
    · exact hx.trans hy.symm
    · exact absurd (hx ▸ hid.symm) (hfresh y hy)
    · exact absurd (hy ▸ hid) (hfresh x hx)
    · exact h.ids x hx y hy hid
  failed handId hfailed := (h.failed handId hfailed).startHand hfresh
  settleOk other hok := (h.settleOk other hok).startHand hfresh

end StartHand

theorem Tidy.leave (h : s.Tidy []) (honly : ∀ h ∈ s.unsettled, wallet ∈ h.2 → h.1 = hand)
    (hknown : s.driver.settleOk hand = true ∨ s.Live hand.handId ∨
      hand.handId ∈ s.driver.failedHands) : (s.leave wallet hand).Tidy [] := by
  have hleaving : { s with left := Function.update s.left wallet true }.Tidy [wallet] := {
    h with
    left := by
      intro other hleft
      by_cases heq : other = wallet
      · exact .inl (List.mem_singleton.mpr heq)
      · have hleft : s.left other = true := by simpa [heq] using hleft
        exact .inr ((h.left other hleft).resolve_left List.not_mem_nil)
    tasks := fun task ht =>
      (h.tasks task ht).mono (fun _ hx => hx) (fun _ hx => hx) rfl fun _ hl => .inl hl }
  have hthis : s.Only wallet hand.handId := fun x hx hwallet => by rw [honly x hx hwallet]
  refine hleaving.spawn _ ⟨fun hs => ?_, fun hs => ⟨hthis, ?_⟩⟩ fun _ hx => .inr hx
  · exact (h.settleOk hand hs).free hthis
  · exact hknown.resolve_left (Bool.eq_false_iff.mp hs)

theorem Tidy.scheduleLeaveRelease {settled : Bool} (h : s.Tidy [wallet])
    (hsupports : s.Supports (.scheduleLeaveRelease wallet hand settled)) :
    (s.withDriver (s.driver.scheduleLeaveRelease wallet hand settled)).Tidy [] := by
  unfold Driver.scheduleLeaveRelease
  split
  · rename_i hover
    refine h.spawn (.releasePlayerLock wallet) ?_ fun _ hx => .inr hx
    cases settled with
    | true => exact hsupports.1 rfl
    | false =>
      have hfailed := hover.resolve_left Bool.false_ne_true
      exact (h.failed _ hfailed).free (hsupports.2 rfl).1
  · rename_i hopen
    rw [not_or, Bool.not_eq_true] at hopen
    obtain ⟨honly, hlive⟩ := hsupports.2 hopen.1
    exact h.spawn (.insertRelease wallet hand) ⟨honly, hlive.resolve_right hopen.2⟩
      fun _ hx => .inr hx

theorem Tidy.submitDualSettlement (h : s.Tidy []) (hdealt : hand ∈ s.dealt) :
    (s.withDriver (s.driver.submitDualSettlement hand)).Tidy [] := by
  refine h.takePendingReleasesFor.spawn
    (.submitDualSettlement hand (s.driver.due hand.handId))
    ⟨hdealt, fun wallet hw => ?_⟩ fun _ hx => .inr hx
  exact (h.pending _ (mem_due.mp hw)).1

/-- An accepted settlement is over, and a flush follows it. -/
theorem Tidy.accepted {departed : List Wallet} (h : s.Tidy cur) (hdealt : hand ∈ s.dealt) :
    ((s.withDriver (s.driver.dualSubmitted hand departed .accepted)).close hand).Tidy cur :=
  ((h.settle (.flushLeaveReleases hand) hdealt rfl).take hand .dual).settleOkOnce
    (h.over_close hdealt)

theorem Tidy.submitted {departed : List Wallet} {answer : Submission} (h : s.Tidy departed)
    (hsupports : s.Supports (.submitDualSettlement hand departed))
    (horderly : s.Orderly parseFelt (.submitted hand departed answer)) :
    (s.submitted parseFelt hand departed answer).Tidy [] := by
  obtain ⟨hdealt, honly⟩ := hsupports
  cases answer with
  | bundled =>
    have hall : departed.filter (fun wallet => (parseFelt wallet).isSome) = departed :=
      List.filter_eq_self.mpr horderly
    unfold Floor.submitted
    rw [hall]
    exact h.accepted hdealt |>.unlockAll fun wallet hw =>
      (h.over_close hdealt).free (honly wallet hw).close
  | apart =>
    obtain rfl : departed = [] := horderly
    exact h.accepted hdealt
  | replay =>
    obtain ⟨rfl, hquiet⟩ := horderly
    exact (h.close hquiet).settleOkOnce (h.over_close hdealt)
  | failed => exact h.restorePendingReleases honly horderly

theorem Tidy.refuseSettlement {status : SettleStatus} {runtime : Bool} (h : s.Tidy [])
    (hdealt : hand ∈ s.dealt)
    (horderly : s.Orderly parseFelt (.refuseSettlement hand status runtime)) :
    (s.refuseSettlement hand status runtime).Tidy [] := by
  have hsettle := (h.settle (.abortFlushLeaveReleases hand.handId runtime) hdealt
    rfl).record hand status
  refine hsettle.markHandSettlementFailed (h.over_close hdealt) ?_
  refine horderly.imp_right fun hroom wallet other ht => ?_
  rcases List.mem_cons.mp ht with heq | ht
  · cases heq
  · exact (hroom wallet other ht).imp_left fun hl =>
      (live_close hand hl).elim live_spawn fun hid => .inr ⟨_, List.mem_cons_self, hid.symm⟩

theorem not_awaited_takePendingReleasesFor :
    ¬ (s.withDriver (s.driver.takePendingReleasesFor handId)).Awaited handId := by
  rintro ⟨e, he, hid⟩
  simpa [hid] using (List.mem_filter.mp he).2

variable (task) in
/-- A flush takes its releases out of the map, and nobody comes to wait for its hand. -/
theorem Tidy.flush (h : s.Tidy []) (hflush : task.Flushes handId)
    (hquiet : (s.finish task).Live handId ∨ ¬ s.Departing handId) :
    ((s.finish task).withDriver ((s.driver.finish task).takePendingReleasesFor handId)).Tidy
      (s.driver.due handId) := by
  have htidy : (s.withDriver (s.driver.takePendingReleasesFor handId)).Tidy
      (s.driver.due handId) := h.takePendingReleasesFor
  exact htidy.finish_flush hflush
    (hquiet.imp_right fun hno => ⟨hno, not_awaited_takePendingReleasesFor⟩)

theorem Tidy.free_due (h : s.Tidy []) (hover : s.Over handId) (hmem : wallet ∈ s.driver.due handId) :
    s.Free wallet :=
  hover.free (h.pending _ (mem_due.mp hmem)).1

theorem Tidy.flushLeaveReleases (h : s.Tidy [])
    (htask : .flushLeaveReleases hand ∈ s.driver.tasks)
    (horderly : s.Orderly parseFelt (.flushLeaveReleases hand)) :
    (s.step parseFelt (.flushLeaveReleases hand)).Tidy [] :=
  ((h.flush (.flushLeaveReleases hand) rfl horderly).mono fun _ hx =>
    List.mem_append_left _ hx).spawnReleases fun _ hw => h.free_due (h.tasks _ htask) hw

theorem Tidy.abortFlushLeaveReleases {runtime : Bool} (h : s.Tidy [])
    (htask : .abortFlushLeaveReleases handId runtime ∈ s.driver.tasks)
    (horderly : s.Orderly parseFelt (.abortFlushLeaveReleases handId runtime)) :
    (s.step parseFelt (.abortFlushLeaveReleases handId runtime)).Tidy [] := by
  have hflush := h.flush (.abortFlushLeaveReleases handId runtime) rfl horderly.2
  cases runtime with
  | true =>
    exact (hflush.mono fun _ hx => List.mem_append_left _ hx).spawnReleases
      fun _ hw => h.free_due (h.tasks _ htask) hw
  | false =>
    have hnobody := horderly.1.resolve_left Bool.false_ne_true
    rw [hnobody] at hflush
    exact hflush.shrink (fun _ hx => hx) rfl rfl rfl rfl rfl rfl (fun _ ht => .inl ht)
      (fun _ ht _ _ => ht) fun _ hl => .inl hl

/-- A release that reaches the vault is done. -/
theorem Tidy.releasePlayerLock {calls : VaultCalls} (h : s.Tidy [wallet]) (hfree : s.Free wallet)
    (horderly : s.Orderly parseFelt (.releasePlayerLock wallet calls)) :
    (s.releasePlayerLock parseFelt wallet calls).Tidy [] := by
  unfold Floor.releasePlayerLock
  rcases horderly.2.releasePlayerLock horderly.1 with hrelease | hrelease
  · rw [hrelease]
    exact h.unlock hfree
  · rw [hrelease]
    exact h.forget

theorem Tidy.step {e : LockEvent} (h : s.Tidy []) (henabled : s.Enabled e)
    (horderly : s.Orderly parseFelt e) : (s.step parseFelt e).Tidy [] := by
  cases e with
  | startHand hand players => exact h.startHand horderly.1 horderly.2
  | leave wallet hand => exact h.leave horderly.1 horderly.2
  | scheduleLeaveRelease wallet hand settled =>
    refine (h.finish (.scheduleLeaveRelease wallet hand settled)
      (by rintro _ ⟨⟩)).scheduleLeaveRelease ?_
    exact (h.tasks _ (henabled _ rfl)).mono (fun _ hx => hx) (fun _ hx => hx) rfl
      fun _ hl => .inl (live_finish (by rintro _ ⟨⟩) hl)
  | insertRelease wallet hand =>
    obtain ⟨honly, hlive⟩ := h.tasks _ (henabled _ rfl)
    exact (h.finish (.insertRelease wallet hand) (by rintro _ ⟨⟩)).insertRelease honly
      (live_finish (by rintro _ ⟨⟩) hlive)
  | submitDualSettlement hand => exact h.submitDualSettlement henabled
  | submitted hand departed answer =>
    have hfinish : ∀ handId, ¬ (Task.submitDualSettlement hand departed).Flushes handId := by
      rintro _ ⟨⟩
    refine (h.finish _ hfinish).submitted (h.tasks _ (henabled _ rfl)) ?_
    cases answer with
    | bundled => exact horderly
    | apart => exact horderly
    | replay =>
      refine horderly.imp_right (Or.imp ?_ (And.imp_left (mt ?_)))
      · exact fun hl => live_finish (s := s.close hand) hfinish hl
      · rintro ⟨task, ht, hregisters⟩
        exact ⟨task, List.mem_of_mem_erase ht, hregisters⟩
    | failed => exact horderly.imp_right (live_finish hfinish)
  | settledElsewhere hand => exact (h.close horderly).settleOkOnce (h.over_close henabled)
  | refuseSettlement hand status runtime => exact h.refuseSettlement henabled horderly
  | abortHand hand runtime => exact h.settle _ henabled rfl
  | flushLeaveReleases hand => exact h.flushLeaveReleases (henabled _ rfl) horderly
  | abortFlushLeaveReleases handId runtime =>
    exact h.abortFlushLeaveReleases (henabled _ rfl) horderly
  | releasePlayerLock wallet calls =>
    exact (h.finish (.releasePlayerLock wallet) (by rintro _ ⟨⟩)).releasePlayerLock
      (h.tasks _ (henabled _ rfl)) horderly

theorem Tidy.empty : Floor.empty.Tidy [] where
  early := rfl
  left _ hleft := absurd hleft Bool.false_ne_true
  pending _ he := absurd he List.not_mem_nil
  tasks _ ht := absurd ht List.not_mem_nil
  dealt _ hx := absurd hx List.not_mem_nil
  ids _ hx := absurd hx List.not_mem_nil
  failed _ hfailed := absurd hfailed (Finset.notMem_empty _)
  settleOk _ hok := absurd hok Bool.false_ne_true

/-- In runs of orderly steps no wallet is unlocked while it plays an unsettled hand, and no
player who left is forgotten. -/
theorem releases_kept {parseFelt : Wallet → Option ℕ} {s : Floor}
    (h : ((system parseFelt).restrict (Orderly parseFelt)).Reachable s) : s.Kept := by
  have htidy : ((system parseFelt).restrict (Orderly parseFelt)).IsInvariant (Tidy []) := {
    init := by
      rintro _ rfl
      exact .empty
    next := by
      rintro s e _ - h ⟨horderly, henabled, rfl⟩
      exact h.step henabled horderly }
  exact (htidy.of_reachable h).kept

/-! ## Runs -/

/-- The wallets of the runs. -/
def player : Wallet → Option ℕ
  | "0xa" => some 10
  | _ => none

/-- The state after some steps. -/
def after (events : List LockEvent) : Floor := events.foldl (step player) .empty

/-- The vault holds five chips for the player. -/
def holdsFive (forceUnlock : Bool) : VaultCalls where
  chain := true
  vaultAddress := true
  lockedBalance := some [5, 0]
  forceUnlock := forceUnlock

/-- A player leaves its hand, which is then aborted. -/
def leftBeforeAbort : List LockEvent :=
  [.startHand ⟨1, 5⟩ ["0xa"], .leave "0xa" ⟨1, 5⟩, .scheduleLeaveRelease "0xa" ⟨1, 5⟩ false,
    .insertRelease "0xa" ⟨1, 5⟩, .abortHand ⟨1, 5⟩ true, .abortFlushLeaveReleases 5 true]

theorem reachable_leftBeforeAbort :
    ((system player).restrict (Orderly player)).Reachable (after leftBeforeAbort) := by
  have hdealt : ((system player).restrict (Orderly player)).Reachable
      (after (leftBeforeAbort.take 1)) := by
    refine .next (.startHand ⟨1, 5⟩ ["0xa"]) (.init rfl) ⟨⟨by decide, fun _ _ hwaits => ?_⟩,
      by decide, rfl⟩
    rcases hwaits with ⟨_, hmem, -⟩ | ⟨_, hmem, -⟩
    · exact absurd hmem List.not_mem_nil
    · exact absurd hmem List.not_mem_nil
  have hleft : ((system player).restrict (Orderly player)).Reachable
      (after (leftBeforeAbort.take 2)) := by
    refine .next (.leave "0xa" ⟨1, 5⟩) hdealt ⟨⟨by decide, .inr (.inl (.inl ?_))⟩, by decide, rfl⟩
    exact ⟨(⟨1, 5⟩, ["0xa"]), by decide, rfl⟩
  have hwaiting : ((system player).restrict (Orderly player)).Reachable
      (after (leftBeforeAbort.take 4)) :=
    .next (.insertRelease "0xa" ⟨1, 5⟩)
      (.next (.scheduleLeaveRelease "0xa" ⟨1, 5⟩ false) hleft ⟨trivial, by decide, rfl⟩)
      ⟨trivial, by decide, rfl⟩
  have habort : ((system player).restrict (Orderly player)).Reachable
      (after (leftBeforeAbort.take 5)) :=
    .next (.abortHand ⟨1, 5⟩ true) hwaiting ⟨trivial, by decide, rfl⟩
  refine .next (.abortFlushLeaveReleases 5 true) habort ⟨⟨.inl rfl, .inr ?_⟩, by decide, rfl⟩
  rintro ⟨task, hmem, hregisters⟩
  obtain rfl := List.mem_singleton.mp hmem
  cases hregisters

/-- The player is released. -/
theorem leaver_kept :
    ((after leftBeforeAbort).step player (.releasePlayerLock "0xa" (holdsFive true))).Kept := by
  refine releases_kept (.next (.releasePlayerLock "0xa" (holdsFive true)) reachable_leftBeforeAbort
    ⟨⟨rfl, rfl, rfl, [5, 0], rfl, ?_, fun _ => rfl⟩, by decide, rfl⟩)
  rintro high ⟨⟩
  rfl

/-- Each step can happen when it comes. -/
def runs : Floor → List LockEvent → Bool
  | _, [] => true
  | s, e :: events => decide (s.Enabled e) && runs (s.step player e) events

theorem reachable_foldl {events : List LockEvent} (h : (system player).Reachable s)
    (hruns : s.runs events = true) : (system player).Reachable (events.foldl (step player) s) := by
  induction events generalizing s with
  | nil => exact h
  | cons e events ih =>
    obtain ⟨henabled, hruns⟩ := Bool.and_eq_true_iff.mp hruns
    exact ih (.next e h ⟨of_decide_eq_true henabled, rfl⟩) hruns

/-- A wallet plays hand 5 at one table and hand 7 at another, and leaves. -/
def twoTables : List LockEvent :=
  [.startHand ⟨1, 5⟩ ["0xa"], .startHand ⟨2, 7⟩ ["0xa"], .leave "0xa" ⟨2, 7⟩,
    .scheduleLeaveRelease "0xa" ⟨2, 7⟩ false, .insertRelease "0xa" ⟨2, 7⟩,
    .submitDualSettlement ⟨2, 7⟩, .submitted ⟨2, 7⟩ ["0xa"] .bundled]

/-- A hand is aborted before one of its players leaves. -/
def leftAfterAbort : List LockEvent :=
  [.startHand ⟨1, 5⟩ ["0xa"], .abortHand ⟨1, 5⟩ true, .abortFlushLeaveReleases 5 true,
    .leave "0xa" ⟨1, 5⟩, .scheduleLeaveRelease "0xa" ⟨1, 5⟩ false, .insertRelease "0xa" ⟨1, 5⟩]

/-- The vault does not take the unlocking of a player who left. -/
def unlockRefused : List LockEvent :=
  leftBeforeAbort ++ [.releasePlayerLock "0xa" (holdsFive false)]

variable (wallet) in
theorem Kept.forgets (h : s.Kept) (htasks : s.driver.tasks = []) (hunsettled : s.unsettled = []) :
    s.left wallet ≠ true := by
  rw [h.released htasks hunsettled wallet]
  exact Bool.false_ne_true

/-- The settlement of hand 7 unlocks the wallet while hand 5 is unsettled, the player of the
aborted hand waits for a flush that never comes, and nobody tries the refused unlocking again. -/
theorem early_and_forgotten :
    (∃ s, (system player).Reachable s ∧ s.early = ["0xa"] ∧ (⟨1, 5⟩, ["0xa"]) ∈ s.unsettled ∧
        ¬ s.Kept) ∧
      (∃ s, (system player).Reachable s ∧ s.driver.tasks = [] ∧ s.unsettled = [] ∧
        s.left "0xa" = true ∧ s.driver.pendingLeaveReleases = [("0xa", 5)] ∧ ¬ s.Kept) ∧
      ∃ s, (system player).Reachable s ∧ s.driver.tasks = [] ∧ s.unsettled = [] ∧
        s.left "0xa" = true ∧ s.driver.pendingLeaveReleases = [] ∧ ¬ s.Kept := by
  refine ⟨⟨after twoTables, reachable_foldl (.init rfl) (by decide), by decide, by decide,
    fun h => ?_⟩, ⟨after leftAfterAbort, reachable_foldl (.init rfl) (by decide), by decide,
    by decide, by decide, by decide, fun h => ?_⟩, after unlockRefused,
    reachable_foldl (.init rfl) (by decide), by decide, by decide, by decide, by decide,
    fun h => ?_⟩
  · exact absurd h.safe (by decide)
  · exact h.forgets "0xa" (by decide) (by decide) (by decide)
  · exact h.forgets "0xa" (by decide) (by decide) (by decide)

end Floor

end TexasPoker.Hooks
