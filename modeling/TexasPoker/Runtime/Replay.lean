import TexasPoker.Runtime.Client
import TexasPoker.Runtime.TableRuntime

/-! # Replays and held reveals

No account's nonce is applied twice. A held reveal that the table would take today is taken by
the flush exactly when its own nonce and signature are still good.
-/

namespace TexasPoker

variable {G : Type}

namespace TableRuntime

variable {verifySignature : SignatureVerifier} {rt rt' : TableRuntime G} {sub : Submission}
  {selector : Hash} {args : Bytes} {address : Address} {nonce : ℕ}

/-! ## Nonces -/

/-- The applied nonces of every account increase. -/
def NoncesIncrease (rt : TableRuntime G) : Prop :=
  rt.applied.Pairwise fun a b => a.1 = b.1 → a.2 < b.2

/-- The nonces increase, and none exceeds its account's mark. -/
structure Marked (rt : TableRuntime G) : Prop where
  increase : rt.NoncesIncrease
  marks : ∀ a ∈ rt.applied, ∃ last, rt.accountNonces a.1 = some last ∧ a.2 ≤ last

/-- The records of the two runtimes agree. -/
structure SameRecord (rt rt' : TableRuntime G) : Prop where
  applied : rt'.applied = rt.applied
  nonces : rt'.accountNonces = rt.accountNonces

theorem SameRecord.marked (h : SameRecord rt rt') (hm : rt.Marked) : rt'.Marked := by
  refine ⟨?_, ?_⟩
  · unfold NoncesIncrease
    rw [h.applied]
    exact hm.increase
  · rw [h.applied, h.nonces]
    exact hm.marks

theorem isStale_eq_false_iff {last : Option ℕ} :
    isStale last nonce = false ↔ ∀ l, last = some l → l < nonce := by
  cases last <;> simp [isStale]

/-- A nonce above the mark keeps the record marked. -/
theorem marked_recordNonce (hm : rt.Marked) (hs : isStale (rt.accountNonces address) nonce = false) :
    (rt.recordNonce address nonce).Marked := by
  have hfresh := isStale_eq_false_iff.mp hs
  have hmark : ∃ last, (rt.recordNonce address nonce).accountNonces address = some last ∧
      nonce ≤ last ∧ ∀ l, rt.accountNonces address = some l → l ≤ last := by
    rcases hl : rt.accountNonces address with _ | l
    · exact ⟨nonce, by simp [recordNonce, hl], le_rfl, by simp⟩
    · exact ⟨max l nonce, by simp [recordNonce, hl], le_max_right l nonce, by simp⟩
  constructor
  · refine List.pairwise_append.mpr ⟨hm.increase, List.pairwise_singleton _ _, ?_⟩
    intro a ha b hb hab
    obtain rfl := List.mem_singleton.mp hb
    obtain ⟨last, hl, hle⟩ := hm.marks a ha
    rw [hab] at hl
    exact hle.trans_lt (hfresh last hl)
  · intro a ha
    obtain ⟨last, hlast, hn, hle⟩ := hmark
    rcases List.mem_append.mp ha with ha | ha
    · obtain ⟨l, hl, hal⟩ := hm.marks a ha
      by_cases haddr : a.1 = address
      · rw [haddr] at hl ⊢
        exact ⟨last, hlast, hal.trans (hle l hl)⟩
      · exact ⟨l, by simpa [recordNonce, haddr] using hl, hal⟩
    · obtain rfl := List.mem_singleton.mp ha
      exact ⟨last, hlast, hn⟩

variable [AddCommGroup G] [Protocol G] [DecidableEq G]

theorem sameRecord_dispatchNext {blockTimestamp : ℕ} {r : PokerL1Result (DispatchResult G)}
    (h : rt.dispatchNext address blockTimestamp selector args = (r, rt')) : SameRecord rt rt' := by
  cases h
  exact ⟨rfl, rfl⟩

theorem marked_applySubmission (hm : rt.Marked) :
    (applySubmission verifySignature sub selector args rt).2.Marked := by
  unfold applySubmission
  split
  · exact hm
  · split
    · exact hm
    · rename_i address _ hs
      split
      · exact hm
      · split
        · rename_i h
          exact (sameRecord_dispatchNext h).marked hm
        · rename_i result rt₁ h
          have hsame := sameRecord_dispatchNext h
          have hs₁ : isStale (rt₁.accountNonces address) sub.nonce = false := by
            rw [hsame.nonces]
            simpa using hs
          have hmarked := marked_recordNonce (hsame.marked hm) hs₁
          have hcollect : SameRecord (rt₁.recordNonce address sub.nonce)
              ((rt₁.recordNonce address sub.nonce).collect result.output) := ⟨rfl, rfl⟩
          exact hcollect.marked hmarked

theorem marked_step {call : RuntimeCall} (hm : rt.Marked) :
    (rt.step verifySignature call).Marked := by
  cases call with
  | submitUnsigned wallet blockTimestamp selector args =>
    simp only [step, submitUnsigned]
    split
    · exact hm
    · split
      · rename_i h
        exact (sameRecord_dispatchNext h).marked hm
      · rename_i result rt₁ h
        have hcollect : SameRecord rt₁ (rt₁.collect result.output) := ⟨rfl, rfl⟩
        exact hcollect.marked ((sameRecord_dispatchNext h).marked hm)
  | submitSigned sub =>
    simp only [step, submitSigned]
    split
    · exact hm
    · split
      · exact hm
      · split
        · exact hm
        · have hsubmit : (PendingQueue.submit (applySubmission verifySignature) rt.pending sub
              sub.selector sub.args rt).2.2.Marked :=
            PendingQueue.submit_keeps (P := Marked) (marked_applySubmission hm)
          exact ⟨hsubmit.increase, hsubmit.marks⟩
  | flushPending =>
    have hflush : (PendingQueue.flush (applySubmission verifySignature) rt.pending rt).state.Marked :=
      PendingQueue.flush_keeps (P := Marked) (fun _ _ _ _ hm => marked_applySubmission hm) hm
    exact ⟨hflush.increase, hflush.marks⟩
  | resetForNextHand => exact ⟨hm.increase, hm.marks⟩

theorem marked_invariant : (runtimeSystem G verifySignature).IsInvariant Marked where
  init := by
    rintro _ ⟨table, chainId, rfl⟩
    exact ⟨List.Pairwise.nil, by simp [new]⟩
  next := by
    rintro rt call _ - hm rfl
    exact marked_step hm

/-! ## Held reveals -/

/-- The submission's own nonce and signature pass. -/
def Current (verifySignature : SignatureVerifier) (rt : TableRuntime G)
    (entry : PendingEntry Submission) : Prop :=
  (∀ address last, walletToAddress entry.envelope.wallet = .ok address →
    rt.accountNonces address = some last → last < entry.envelope.nonce) ∧
  rt.verifySubmission verifySignature entry.envelope.wallet entry.selector entry.args
    entry.envelope.nonce entry.envelope.signature = .ok ()

/-- The table takes the same command from the same player under some nonce and signature. -/
def WouldAccept (verifySignature : SignatureVerifier) (rt : TableRuntime G)
    (entry : PendingEntry Submission) : Prop :=
  ∃ nonce signature, (applySubmission verifySignature { entry.envelope with nonce, signature }
    entry.selector entry.args rt).1 = .applied

theorem applied_iff : (applySubmission verifySignature sub selector args rt).1 = .applied ↔
    ∃ address, walletToAddress sub.wallet = .ok address ∧
      isStale (rt.accountNonces address) sub.nonce = false ∧
      rt.verifySubmission verifySignature sub.wallet selector args sub.nonce sub.signature = .ok () ∧
      ∃ r, (rt.dispatchNext address sub.blockTimestamp selector args).1 = .ok r := by
  unfold applySubmission
  rcases walletToAddress sub.wallet with e | address
  · simp
  · simp only [Except.ok.injEq, exists_eq_left']
    split
    · rename_i hs
      simp [hs]
    · rename_i hs
      rw [Bool.not_eq_true] at hs
      rcases hv : rt.verifySubmission verifySignature sub.wallet selector args sub.nonce sub.signature
        with e | u
      · simp
      · rcases hd : rt.dispatchNext address sub.blockTimestamp selector args with ⟨e | r, rt₁⟩
        · simp only [hs, reduceCtorEq, exists_false, and_false, iff_false]
          unfold classifyDispatchError
          split
          · split <;> simp
          · simp
        · simp [hs]

theorem applied_iff_current {entry : PendingEntry Submission} (h : rt.WouldAccept verifySignature entry) :
    (PendingQueue.tryEntry (applySubmission verifySignature) entry rt).1 = .applied ↔
      rt.Current verifySignature entry := by
  obtain ⟨nonce, signature, h⟩ := h
  obtain ⟨address, ha, -, -, hd⟩ := applied_iff.mp h
  unfold PendingQueue.tryEntry
  rw [applied_iff]
  constructor
  · rintro ⟨address', ha', hs, hv, -⟩
    refine ⟨fun a last haddr hlast => ?_, hv⟩
    obtain rfl := Except.ok.inj (haddr.symm.trans ha')
    exact isStale_eq_false_iff.mp hs last hlast
  · rintro ⟨hn, hv⟩
    exact ⟨address, ha, isStale_eq_false_iff.mpr fun last hl => hn address last ha hl, hv, hd⟩

/-- A try that is held back is not one the table would take. -/
theorem not_held_of_wouldAccept {entry : PendingEntry Submission}
    (h : rt.WouldAccept verifySignature entry) :
    (PendingQueue.tryEntry (applySubmission verifySignature) entry rt).1 ≠ .hold := by
  obtain ⟨nonce, signature, h⟩ := h
  obtain ⟨address, ha, -, -, r, hd⟩ := applied_iff.mp h
  dsimp only at ha hd
  unfold PendingQueue.tryEntry applySubmission
  rw [ha]
  dsimp only
  split
  · exact nofun
  · split
    · exact nofun
    · split
      · rename_i herr
        rw [herr] at hd
        cases hd
      · exact nofun

/-! ## What a flush leaves -/

/-- A try leaves everything that was applied before. -/
theorem applied_subset_applySubmission :
    rt.applied ⊆ (applySubmission verifySignature sub selector args rt).2.applied := by
  unfold applySubmission
  split
  · exact List.Subset.refl _
  · split
    · exact List.Subset.refl _
    · split
      · exact List.Subset.refl _
      · split
        · rename_i h
          rw [(sameRecord_dispatchNext h).applied]
          exact List.Subset.refl _
        · rename_i h
          rw [← (sameRecord_dispatchNext h).applied]
          exact List.subset_append_left _ _

theorem applied_subset_of_goesOn (h : PendingQueue.GoesOn (applySubmission verifySignature) rt rt') :
    rt.applied ⊆ rt'.applied := by
  induction h with
  | refl => exact List.Subset.refl _
  | tail _ hlast ih =>
    obtain ⟨envelope, selector, args, rfl⟩ := hlast
    exact fun a ha => applied_subset_applySubmission (ih ha)

/-- A try that applies records the account and its nonce. -/
theorem mem_applied_of_applied
    (h : (applySubmission verifySignature sub selector args rt).1 = .applied)
    (ha : walletToAddress sub.wallet = .ok address) :
    (address, sub.nonce) ∈ (applySubmission verifySignature sub selector args rt).2.applied := by
  obtain ⟨address', ha', hs, hv, r, hd⟩ := applied_iff.mp h
  obtain rfl := Except.ok.inj (ha.symm.trans ha')
  rcases hdispatch : rt.dispatchNext address sub.blockTimestamp selector args with ⟨result, rt₁⟩
  obtain rfl : result = .ok r := by rw [← hd, hdispatch]
  unfold applySubmission
  simp only [ha, hs, hv, hdispatch, Bool.false_eq_true, if_false]
  exact List.mem_append_right _ (List.mem_singleton_self _)

/-- What a flush makes of the held submissions. -/
structure FlushSettles (verifySignature : SignatureVerifier) (rt : TableRuntime G) : Prop where
  /-- Each is tried, and its try is what decides whether it was applied, waits on or is buried. -/
  tried : ∀ entry ∈ rt.pending.entries, ∃ entry' rt',
    PendingQueue.Tries (applySubmission verifySignature) rt.pending rt entry' rt' ∧
      entry'.command = entry.command ∧
        PendingQueue.Fate rt.pending (rt.flushPending verifySignature).pending entry'
          (PendingQueue.tryEntry (applySubmission verifySignature) entry' rt').1
  /-- A try of one that the table would take applies it, or its own authentication failed. -/
  taken : ∀ entry rt',
    PendingQueue.Tries (applySubmission verifySignature) rt.pending rt entry rt' →
      rt'.WouldAccept verifySignature entry →
        (PendingQueue.tryEntry (applySubmission verifySignature) entry rt').1 ≠ .hold ∧
          ((PendingQueue.tryEntry (applySubmission verifySignature) entry rt').1 = .applied ↔
            rt'.Current verifySignature entry)
  /-- The flush goes on from what an applied one left. -/
  effect : ∀ entry rt',
    PendingQueue.Tries (applySubmission verifySignature) rt.pending rt entry rt' →
      (PendingQueue.tryEntry (applySubmission verifySignature) entry rt').1 = .applied →
        (∀ address, walletToAddress entry.envelope.wallet = .ok address →
          (address, entry.envelope.nonce) ∈ (rt.flushPending verifySignature).applied) ∧
        ∃ last, PendingQueue.GoesOn (applySubmission verifySignature)
            (PendingQueue.tryEntry (applySubmission verifySignature) entry rt').2 last ∧
          rt.flushPending verifySignature =
            { last with pending := (rt.flushPending verifySignature).pending }
  /-- What lies buried was tried and not applied. -/
  buried : ∀ d ∈ (rt.flushPending verifySignature).pending.dead,
    PendingQueue.Buried (applySubmission verifySignature)
      (PendingQueue.Tries (applySubmission verifySignature) rt.pending rt) rt.pending.dead d

theorem flushSettles (rt : TableRuntime G) : rt.FlushSettles verifySignature where
  tried _ he := PendingQueue.fate_flush he
  taken _ _ _ hw := ⟨not_held_of_wouldAccept hw, applied_iff_current hw⟩
  effect entry rt' htries happlied := by
    have hon := PendingQueue.goesOn_of_tries htries
    constructor
    · intro address ha
      exact applied_subset_of_goesOn hon (mem_applied_of_applied happlied ha)
    · exact ⟨_, hon, rfl⟩
  buried _ hd := PendingQueue.buried_flushRounds hd

/-- In every run nonces are applied in order. A flush tries every held reveal, applies one that the
table would take exactly when its nonce and signature are good, and loses none. -/
theorem replay_protection (hr : (runtimeSystem G verifySignature).Reachable rt) :
    rt.NoncesIncrease ∧ rt.FlushSettles verifySignature :=
  ⟨(marked_invariant.of_reachable hr).increase, flushSettles rt⟩

end TableRuntime

/-! ## A reveal before a later command -/

namespace Transparent

/-- A verifier that accepts every signature. -/
def trustingVerifier : SignatureVerifier := fun _ _ _ => .ok ()

/-- A player joins with a session key. -/
def registeredJoin (player : Address) (buyIn : ℕ) (sk : ℤ) : Call :=
  ⟨⟨player, defaultTime⟩, CanonicalCommand.joinTable.selector ℤ,
    addressBytes player ++ leBytes 8 buyIn ++ writeInt sk ++
      (leBytes 1 starkTag ++ leBytes 4 32 ++ leBytes 32 1) ++
      (leBytes 4 64 ++ leBytes 32 1 ++ leBytes 32 (1 + sk).toNat)⟩

/-- Two players with session keys, and the steps they make. -/
def registeredTable (steps : List ClientStep) : TexasPokerTable ℤ :=
  match (do
    let s ← [registeredJoin 1 1000 2, registeredJoin 2 1000 3].foldlM Exec.call
      ⟨.fresh ⟨7, 0⟩ 7 (.new 4 50 100), []⟩
    play s steps) with
  | .ok s => s.table
  | .error _ => .fresh ⟨7, 0⟩ 7 (.new 4 50 100)

/-- The cards are dealt, and seat one is to act. -/
def dealtSteps : List ClientStep := [.start, .shuffle 0, .shuffle 1, .reveal 0, .reveal 1]

/-- The call that reveals the flop for seat one. -/
def flopReveal : Call :=
  (ClientStep.reveal 1).call (registeredTable (dealtSteps ++ [.act .call 1 [], .act .check 0 []]))

/-- The early reveal of player two under a nonce. -/
def earlyReveal (nonce : ℕ) : Submission :=
  ⟨"0x2", defaultTime, flopReveal.selector, flopReveal.args, [], nonce⟩

/-- The reveal comes while seat one is still to act; the two actions that open the flop follow. -/
def revealThenAct (nonce : ℕ) : List RuntimeCall :=
  [.submitSigned (earlyReveal nonce),
    .submitSigned ⟨"0x2", defaultTime, CanonicalCommand.call.selector ℤ, leBytes 1 1, [], 2⟩,
    .submitSigned ⟨"0x1", defaultTime, CanonicalCommand.check.selector ℤ, leBytes 1 0, [], 1⟩]

/-- The runtime after the early reveal and the two actions. -/
def afterActs (nonce : ℕ) : TableRuntime ℤ :=
  (revealThenAct nonce).foldl (TableRuntime.step trustingVerifier)
    (.new (registeredTable dealtSteps) 377)

theorem afterActs_reachable (nonce : ℕ) :
    (runtimeSystem ℤ trustingVerifier).Reachable (afterActs nonce) := by
  have hfold (calls : List RuntimeCall) (rt : TableRuntime ℤ)
      (hr : (runtimeSystem ℤ trustingVerifier).Reachable rt) :
      (runtimeSystem ℤ trustingVerifier).Reachable
        (calls.foldl (TableRuntime.step trustingVerifier) rt) := by
    induction calls generalizing rt with
    | nil => exact hr
    | cons call calls ih => exact ih _ (.next call hr rfl)
  exact hfold _ _ (.init ⟨_, 377, rfl⟩)

/-- The reveal as it waits. -/
def heldReveal (nonce : ℕ) : PendingEntry Submission :=
  ⟨earlyReveal nonce, flopReveal.selector, flopReveal.args, 0, none⟩

/-- The flop is open and the table would take the reveal, but a later nonce was applied. -/
theorem stale_reveal_buried :
    (runtimeSystem ℤ trustingVerifier).Reachable (afterActs 1) ∧
      (afterActs 1).pending.entries = [heldReveal 1] ∧
      (afterActs 1).WouldAccept trustingVerifier (heldReveal 1) ∧
      (PendingQueue.tryEntry (TableRuntime.applySubmission trustingVerifier) (heldReveal 1)
        (afterActs 1)).1 = .reject (.staleTxNonce 1) ∧
      ((afterActs 1).flushPending trustingVerifier).pending.dead.map PendingEntry.envelope =
        [earlyReveal 1] := by
  obtain ⟨hentries, haccept, hreject, hdead⟩ :
      (afterActs 1).pending.entries = [heldReveal 1] ∧
      (TableRuntime.applySubmission trustingVerifier (earlyReveal 3) flopReveal.selector
        flopReveal.args (afterActs 1)).1 = .applied ∧
      (PendingQueue.tryEntry (TableRuntime.applySubmission trustingVerifier) (heldReveal 1)
        (afterActs 1)).1 = .reject (.staleTxNonce 1) ∧
      ((afterActs 1).flushPending trustingVerifier).pending.dead.map PendingEntry.envelope =
        [earlyReveal 1] := by
    decide +kernel
  exact ⟨afterActs_reachable 1, hentries, ⟨3, [], haccept⟩, hreject, hdead⟩

/-- Under a higher nonce the flush applies the same reveal. -/
theorem fresh_reveal_applied :
    (2, 3) ∈ ((afterActs 3).flushPending trustingVerifier).applied := by
  have hcurrent (rt : TableRuntime ℤ) (entry : PendingEntry Submission)
      (ha : walletToAddress entry.envelope.wallet = .ok 2)
      (hn : isStale (rt.accountNonces 2) entry.envelope.nonce = false)
      (hv : rt.verifySubmission trustingVerifier entry.envelope.wallet entry.selector entry.args
        entry.envelope.nonce entry.envelope.signature = .ok ()) :
      rt.Current trustingVerifier entry := by
    constructor
    · intro address last haddr hlast
      obtain rfl := Except.ok.inj (ha.symm.trans haddr)
      exact TableRuntime.isStale_eq_false_iff.mp hn last hlast
    · exact hv
  obtain ⟨hentries, haccept, ha, hn, hv⟩ :
      (afterActs 3).pending.entries = [heldReveal 3] ∧
      (TableRuntime.applySubmission trustingVerifier (earlyReveal 4) flopReveal.selector
        flopReveal.args (afterActs 3)).1 = .applied ∧
      walletToAddress "0x2" = .ok 2 ∧ isStale ((afterActs 3).accountNonces 2) 3 = false ∧
      (afterActs 3).verifySubmission trustingVerifier "0x2" flopReveal.selector flopReveal.args 3 [] =
        .ok () := by
    decide +kernel
  have htry : PendingQueue.Tries (TableRuntime.applySubmission trustingVerifier)
      (afterActs 3).pending (afterActs 3) (heldReveal 3) (afterActs 3) :=
    .pass (by rw [hentries]; exact .here)
  have hsettles := (TableRuntime.replay_protection (afterActs_reachable 3)).2
  have happlied := (hsettles.taken _ _ htry ⟨4, [], haccept⟩).2.mpr
    (hcurrent (afterActs 3) (heldReveal 3) ha hn hv)
  exact (hsettles.effect _ _ htry happlied).1 2 ha

end Transparent

end TexasPoker
