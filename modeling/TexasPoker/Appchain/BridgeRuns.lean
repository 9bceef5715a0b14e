import TexasPoker.Appchain.Bridge

/-! # Runs of the bridge

No deposit is minted twice. When every mint, payment and burn is followed by what belongs to it
and no restart finds a queue, nothing is lost or paid twice either.
-/

namespace TexasPoker.Appchain

open Effect

namespace Bridge

variable {keys : Keys} {b b' : Bridge} {event : DepositEvent} {answer : MintAnswer} {id n : ℕ}
  {request : WithdrawalRequest} {P : Bridge → Prop}

/-! ## What a deposit does -/

/-- What follows a mint. -/
def afterMint (keys : Keys) (n : ℕ) (event : DepositEvent) (note : Bool)
    (confirm : Except String Unit) (proven : Bool) : Effect Bridge BridgeError ℕ := do
  confirmMinted (event.depositId keys) note confirm
  modify fun b => if proven then b.markProven (event.depositId keys) else b
  modify fun b => b.moveCursor event
  return n + 1

/-- A deposit changes nothing but the cursor, or it is minted, if its id is new. -/
theorem processDeposit_cases : ((processDeposit keys n (event, answer)).exec b).2 = b ∨
    ((processDeposit keys n (event, answer)).exec b).2 = b.moveCursor event ∨
    event.depositId keys ∉ b.depositIds ∧ ∃ note confirm proven,
      answer = .minted note confirm proven ∧ (processDeposit keys n (event, answer)).exec b =
        (afterMint keys n event note confirm proven).exec (b.mint keys event) := by
  unfold processDeposit
  dsimp only
  split
  · exact .inl rfl
  rw [exec_bind_of_ok (rfl : (get : Effect Bridge BridgeError Bridge).exec b = (.ok b, b))]
  split
  · exact .inr (.inl rfl)
  · rename_i hnew
    cases answer with
    | rejected message => exact .inl rfl
    | minted note confirm proven => exact .inr (.inr ⟨hnew, note, confirm, proven, rfl, rfl⟩)

theorem afterMint_keeps {note proven : Bool} {confirm : Except String Unit}
    (hconfirm : ∀ b, P b → P (b.confirmDeposit (event.depositId keys)))
    (hproven : ∀ b, P b → P (b.markProven (event.depositId keys)))
    (hcursor : ∀ b, P b → P (b.moveCursor event)) :
    (afterMint keys n event note confirm proven).Keeps P := by
  have hminted : (confirmMinted (event.depositId keys) note confirm).Keeps P := by
    unfold confirmMinted
    split
    · exact keeps_ofExcept.bind fun _ => keeps_modify hconfirm
    · exact keeps_pure
  refine hminted.bind fun _ => (keeps_modify fun b hb => ?_).bind fun _ =>
    (keeps_modify hcursor).bind fun _ => keeps_pure
  split
  · exact hproven b hb
  · exact hb

/-- What a round of deposits keeps when every deposit does. -/
theorem processDepositsOnce_keeps {polled : Except String (List (DepositEvent × MintAnswer))}
    (h : ∀ entries, polled = .ok entries → ∀ n, ∀ entry ∈ entries,
      (processDeposit keys n entry).Keeps P) :
    ((processDepositsOnce keys polled).Keeps P) := by
  cases polled with
  | error message => exact keeps_throw
  | ok entries => exact keeps_foldlM (h entries rfl) 0

/-! ## Minted once -/

/-- The sequencer knows the ids of the minted deposits, each once. -/
structure Known (keys : Keys) (b : Bridge) : Prop where
  depositIds : b.depositIds = b.minted.map (DepositEvent.depositId keys)
  nodup : b.depositIds.Nodup

theorem Known.mint (h : Known keys b) (hnew : event.depositId keys ∉ b.depositIds) :
    Known keys (b.mint keys event) where
  depositIds := congrArg _ h.depositIds
  nodup := List.nodup_cons.mpr ⟨hnew, h.nodup⟩

theorem processDeposit_keeps_known {entry : DepositEvent × MintAnswer} :
    (processDeposit keys n entry).Keeps (Known keys) := by
  intro b hb
  rcases processDeposit_cases with hexec | hexec | ⟨hnew, note, confirm, proven, -, hexec⟩
  · rw [hexec]
    exact hb
  · rw [hexec]
    exact ⟨hb.depositIds, hb.nodup⟩
  · rw [hexec]
    refine afterMint_keeps ?_ ?_ ?_ _ (hb.mint hnew) <;> exact fun b hb => ⟨hb.depositIds, hb.nodup⟩

/-! ## Withdrawals -/

/-- A payment is not tried any more, fails, or goes through. -/
theorem processWithdrawal_cases {answers : ℕ → PayAnswer} {entry : WithdrawalRequest × ℕ} :
    ((processWithdrawal answers n entry).exec b).2 = b.bumpAttempts entry.1 ∨
    answers entry.2 = .paid false ∧
      ((processWithdrawal answers n entry).exec b).2 = (b.bumpAttempts entry.1).pay entry.1 ∨
    answers entry.2 = .paid true ∧ ((processWithdrawal answers n entry).exec b).2 =
      ((b.bumpAttempts entry.1).pay entry.1).markPaid entry.1 := by
  obtain ⟨request, i⟩ := entry
  unfold processWithdrawal
  dsimp only
  rw [exec_bind_of_ok (rfl : (modify fun b => b.bumpAttempts request :
    Effect Bridge BridgeError Unit).exec b = (.ok (), b.bumpAttempts request))]
  rw [exec_bind_of_ok (rfl : (get : Effect Bridge BridgeError Bridge).exec
    (b.bumpAttempts request) = (.ok (b.bumpAttempts request), b.bumpAttempts request))]
  split
  · exact .inl rfl
  · rcases hans : answers i with _ | _ | _
    · exact .inl rfl
    · exact .inr (.inl ⟨rfl, rfl⟩)
    · exact .inr (.inr ⟨rfl, rfl⟩)

/-- What a round of withdrawals keeps when every payment does. -/
theorem processWithdrawalsOnce_keeps {answers : ℕ → PayAnswer}
    (h : ∀ n entry, (processWithdrawal answers n entry).Keeps P) :
    (processWithdrawalsOnce answers).Keeps P :=
  keeps_get.bind fun _ => keeps_foldlM (fun n entry _ => h n entry) 0

/-- A request ends before its burn, or the burn is accepted. -/
theorem requestWithdrawal_cases {wallet : ℕ} {ans : BurnAnswer} :
    ((requestWithdrawal keys wallet request ans).exec b).2 = b ∨
    ans.burn = .ok () ∧ ∃ note,
      ((requestWithdrawal keys wallet request ans).exec b).2 =
        if ans.provenance = true ∧ ans.enqueue = .ok true then
          (b.burn ⟨note, request⟩).enqueue ⟨note, request⟩
        else b.burn ⟨note, request⟩ := by
  unfold requestWithdrawal
  dsimp only
  rw [exec_ofExcept_bind]
  split
  · rename_i note _
    rw [exec_ofExcept_bind]
    rcases hburn : ans.burn with message | ⟨⟨⟩⟩
    · exact .inl rfl
    refine .inr ⟨rfl, note, ?_⟩
    dsimp only [Except.mapError]
    rw [exec_bind_of_ok (rfl : (modify fun b => b.burn ⟨note, request⟩ :
      Effect Bridge BridgeError Unit).exec b = (.ok (), b.burn ⟨note, request⟩)),
      exec_ofExcept_bind]
    by_cases hprov : ans.provenance = true
    · rw [Fallible.ensure_pos hprov]
      dsimp only
      rw [exec_ofExcept_bind]
      rcases henq : ans.enqueue with message | _ | _ <;> simp only [hprov] <;> rfl
    · rw [Fallible.ensure_eq_error.mpr ⟨hprov, rfl⟩, if_neg fun h => hprov h.1]
  · exact .inl rfl

/-! ## Rounds that are completed -/

/-- A minted deposit is found, confirmed and marked proven. -/
def MintAnswer.Completed : MintAnswer → Prop
  | .rejected _ => True
  | .minted note confirm proven => note = true ∧ confirm = .ok () ∧ proven = true

/-- What the answers of a round or request must be: a minted deposit is found, confirmed and
proven, a payment is marked, a burn is queued, and a restart finds no queue. -/
def Completed (b : Bridge) : BridgeEvent → Prop
  | .processDepositsOnce polled => ∀ entries, polled = .ok entries →
      ∀ entry ∈ entries, MintAnswer.Completed entry.2
  | .processWithdrawalsOnce answers => ∀ i, answers i ≠ .paid false
  | .requestWithdrawal _ _ answer => answer.burn = .ok () →
      answer.provenance = true ∧ answer.enqueue = .ok true
  | .restart => b.queue = []

/-- Every mint is confirmed and proven, every queued request waits or is paid, and every burned
note is queued. -/
structure Sound (keys : Keys) (b : Bridge) : Prop where
  known : Known keys b
  settled : ∀ e ∈ b.minted, e.depositId keys ∈ b.confirmed ∧ e.depositId keys ∈ b.proven
  balance : ∀ r, (b.enqueued.map Burn.request).count r = b.queue.count r + b.paid.count r
  burned : b.burned = b.enqueued

theorem Sound.moveCursor (h : Sound keys b) : Sound keys (b.moveCursor event) :=
  ⟨⟨h.known.depositIds, h.known.nodup⟩, h.settled, h.balance, h.burned⟩

theorem processDeposit_keeps_sound {entry : DepositEvent × MintAnswer}
    (hentry : MintAnswer.Completed entry.2) :
    (processDeposit keys n entry).Keeps (Sound keys) := by
  obtain ⟨event, answer⟩ := entry
  intro b hb
  rcases processDeposit_cases with hexec | hexec | ⟨hnew, note, confirm, proven, hans, hexec⟩
  · rw [hexec]
    exact hb
  · rw [hexec]
    exact hb.moveCursor
  · subst hans
    obtain ⟨rfl, rfl, rfl⟩ := hentry
    rw [hexec]
    have hminted := hb.known.mint hnew
    refine ⟨⟨hminted.depositIds, hminted.nodup⟩, fun e he => ?_, hb.balance, hb.burned⟩
    rcases List.mem_cons.mp he with rfl | he
    · exact ⟨.head _, .head _⟩
    · exact ⟨.tail _ (hb.settled e he).1, .tail _ (hb.settled e he).2⟩

/-- The rest of a round is still in the queue. -/
structure Paying (keys : Keys) (rest : List (WithdrawalRequest × ℕ)) (b : Bridge) : Prop where
  sound : Sound keys b
  waiting : ∀ r, (rest.map Prod.fst).count r ≤ b.queue.count r

theorem Paying.skip {entry : WithdrawalRequest × ℕ} {rest : List (WithdrawalRequest × ℕ)}
    (h : Paying keys (entry :: rest) b) : Paying keys rest (b.bumpAttempts entry.1) where
  sound := ⟨⟨h.sound.known.depositIds, h.sound.known.nodup⟩, h.sound.settled, h.sound.balance,
    h.sound.burned⟩
  waiting r := (List.count_le_count_cons ..).trans (h.waiting r)

/-- A payment that is marked leaves the queue. -/
theorem Paying.pay {entry : WithdrawalRequest × ℕ} {rest : List (WithdrawalRequest × ℕ)}
    (h : Paying keys (entry :: rest) b) :
    Paying keys rest (((b.bumpAttempts entry.1).pay entry.1).markPaid entry.1) := by
  have hhead := h.waiting entry.1
  rw [List.map_cons, List.count_cons_self] at hhead
  have hmem : entry.1 ∈ b.queue := List.count_pos_iff.mp (by omega)
  have hqueue : ∀ r, b.queue.count r =
      (b.queue.erase entry.1).count r + if entry.1 == r then 1 else 0 := fun r => by
    rw [(List.perm_cons_erase hmem).count_eq r, List.count_cons]
  refine ⟨⟨⟨h.sound.known.depositIds, h.sound.known.nodup⟩, h.sound.settled, fun r => ?_,
    h.sound.burned⟩, fun r => ?_⟩
  · have hbalance := h.sound.balance r
    have hpaid : (entry.1 :: b.paid).count r = b.paid.count r + if entry.1 == r then 1 else 0 :=
      List.count_cons
    change (b.enqueued.map Burn.request).count r =
      (b.queue.erase entry.1).count r + (entry.1 :: b.paid).count r
    rw [hpaid, hbalance, hqueue r]
    omega
  · have hwait := h.waiting r
    rw [List.map_cons, List.count_cons, hqueue r] at hwait
    change _ ≤ (b.queue.erase entry.1).count r
    omega

theorem processWithdrawalsOnce_keeps_sound {answers : ℕ → PayAnswer}
    (hans : ∀ i, answers i ≠ .paid false) :
    (processWithdrawalsOnce answers).Keeps (Sound keys) := by
  intro b hb
  have hstart : Paying keys b.queue.zipIdx b := ⟨hb, fun r => by rw [List.zipIdx_map_fst]⟩
  unfold processWithdrawalsOnce
  rw [exec_bind_of_ok (rfl : (get : Effect Bridge BridgeError Bridge).exec b = (.ok b, b))]
  have hstep : ∀ (n : ℕ) entry l b, Paying keys (entry :: l) b →
      Paying keys l ((processWithdrawal answers n entry).exec b).2 := fun n entry l b h => by
    rcases processWithdrawal_cases with hexec | ⟨hfalse, -⟩ | ⟨-, hexec⟩
    · rw [hexec]
      exact h.skip
    · exact absurd hfalse (hans _)
    · rw [hexec]
      exact h.pay
  obtain ⟨rest, hrest⟩ := foldlM_rest hstep (a := 0) hstart
  exact hrest.sound

theorem requestWithdrawal_keeps_sound {wallet : ℕ} {ans : BurnAnswer}
    (hans : ans.burn = .ok () → ans.provenance = true ∧ ans.enqueue = .ok true) :
    (requestWithdrawal keys wallet request ans).Keeps (Sound keys) := by
  intro b hb
  rcases requestWithdrawal_cases with hexec | ⟨hburn, note, hexec⟩
  · rw [hexec]
    exact hb
  · rw [hexec, if_pos (hans hburn)]
    refine ⟨⟨hb.known.depositIds, hb.known.nodup⟩, hb.settled, fun r => ?_, ?_⟩
    · have hbalance := hb.balance r
      have henq : (request :: b.enqueued.map Burn.request).count r =
          (b.enqueued.map Burn.request).count r + if request == r then 1 else 0 := List.count_cons
      have hqueue : (b.queue ++ [request]).count r =
          b.queue.count r + if request == r then 1 else 0 := by
        rw [List.count_append, List.count_singleton]
      change (request :: b.enqueued.map Burn.request).count r =
        (b.queue ++ [request]).count r + b.paid.count r
      omega
    · exact congrArg _ hb.burned

/-- A round or request that is completed keeps the bridge sound. -/
theorem Sound.step (h : Sound keys b) {e : BridgeEvent} (he : b.Completed e) :
    Sound keys (b.step keys e) := by
  cases e with
  | processDepositsOnce polled =>
    exact processDepositsOnce_keeps
      (fun entries heq n entry hmem => processDeposit_keeps_sound (he entries heq entry hmem)) b h
  | processWithdrawalsOnce answers => exact processWithdrawalsOnce_keeps_sound he b h
  | requestWithdrawal wallet request answer => exact requestWithdrawal_keeps_sound he b h
  | restart =>
    refine ⟨⟨h.known.depositIds, h.known.nodup⟩, h.settled, fun r => ?_, h.burned⟩
    have hbalance := h.balance r
    rw [show b.queue = [] from he] at hbalance
    exact hbalance

theorem sound_invariant :
    ((system keys).restrict Completed).IsInvariant (Sound keys) where
  init b hb := by
    subst hb
    exact ⟨⟨rfl, List.nodup_nil⟩, nofun, fun _ => rfl, rfl⟩
  next b e b' _ hs hn := by
    obtain ⟨hcompleted, rfl⟩ := hn
    exact hs.step hcompleted

/-- Deposits are minted at most once, and confirmed and proven; requests are paid at most once
and not lost; and the burned notes are the queued ones. -/
structure Faithful (keys : Keys) (b : Bridge) : Prop where
  mintedOnce : (b.minted.map (DepositEvent.depositId keys)).Nodup
  settled : ∀ e ∈ b.minted, e.depositId keys ∈ b.confirmed ∧ e.depositId keys ∈ b.proven
  paidOnce : ∀ r, b.paid.count r ≤ (b.enqueued.map Burn.request).count r
  noneLost : ∀ r, (b.enqueued.map Burn.request).count r = b.queue.count r + b.paid.count r
  burnedIffQueued : ∀ n, b.burned.count n = b.enqueued.count n

/-- The bridge is faithful in every run whose rounds and requests are completed. -/
theorem faithful_of_completed (hb : ((system keys).restrict Completed).Reachable b) :
    Faithful keys b := by
  have hs := sound_invariant.of_reachable hb
  refine ⟨hs.known.depositIds ▸ hs.known.nodup, hs.settled, fun r => ?_, hs.balance, fun n => ?_⟩
  · have hbalance := hs.balance r
    omega
  · rw [hs.burned]

/-! ## Deposits in every run -/

/-- A property of what happened to the deposits. -/
def ReadsDeposits (P : Bridge → Prop) : Prop :=
  ∀ b b' : Bridge, b'.depositIds = b.depositIds → b'.minted = b.minted →
    b'.confirmed = b.confirmed → P b → P b'

/-- Only a round of deposits changes what happened to them. -/
theorem step_keeps_deposits (hP : ReadsDeposits P) (e : BridgeEvent)
    (hdeposit : ∀ n entry, (processDeposit keys n entry).Keeps P) (hb : P b) :
    P (b.step keys e) := by
  cases e with
  | processDepositsOnce polled =>
    exact processDepositsOnce_keeps (fun _ _ n entry _ => hdeposit n entry) b hb
  | processWithdrawalsOnce answers =>
    refine processWithdrawalsOnce_keeps (fun n entry b hb => ?_) b hb
    rcases processWithdrawal_cases with hexec | ⟨-, hexec⟩ | ⟨-, hexec⟩ <;> rw [hexec] <;>
      exact hP b _ rfl rfl rfl hb
  | requestWithdrawal wallet request answer =>
    rcases requestWithdrawal_cases with hexec | ⟨-, note, hexec⟩
    · exact (congrArg P hexec).mpr hb
    · refine (congrArg P hexec).mpr ?_
      split <;> exact hP b _ rfl rfl rfl hb
  | restart => exact hP b _ rfl rfl rfl hb

theorem known_invariant : (system keys).IsInvariant (Known keys) where
  init b hb := by
    subst hb
    exact ⟨rfl, List.nodup_nil⟩
  next b e b' _ hk hn := by
    subst hn
    refine step_keeps_deposits (fun b b' hids hminted _ h => ?_) e
      (fun _ _ => processDeposit_keeps_known) hk
    exact ⟨by rw [hids, hminted, h.depositIds], hids ▸ h.nodup⟩

/-- No deposit is minted twice, whatever fails. -/
theorem minted_once (hb : (system keys).Reachable b) :
    (b.minted.map (DepositEvent.depositId keys)).Nodup :=
  (known_invariant.of_reachable hb).depositIds ▸ (known_invariant.of_reachable hb).nodup

/-- A deposit that was minted without being confirmed. -/
def Unconfirmed (id : ℕ) (b : Bridge) : Prop := id ∈ b.depositIds ∧ id ∉ b.confirmed

theorem processDeposit_keeps_unconfirmed {entry : DepositEvent × MintAnswer} :
    (processDeposit keys n entry).Keeps (Unconfirmed id) := by
  obtain ⟨event, answer⟩ := entry
  intro b hb
  rcases processDeposit_cases with hexec | hexec | ⟨hnew, note, confirm, proven, -, hexec⟩
  · rw [hexec]
    exact hb
  · rw [hexec]
    exact hb
  · rw [hexec]
    have hne : id ≠ event.depositId keys := fun heq => hnew (heq ▸ hb.1)
    refine afterMint_keeps (fun b hb => ⟨hb.1, fun hmem => ?_⟩) (fun b hb => hb) (fun b hb => hb) _
      ⟨.tail _ hb.1, hb.2⟩
    rcases List.mem_cons.mp hmem with heq | hmem
    · exact hne heq
    · exact hb.2 hmem

/-- No later round confirms a deposit that was minted without being confirmed. -/
theorem stays_unconfirmed {steps : List (TransitionSystem.Step Bridge BridgeEvent)}
    (hb : Unconfirmed id b) (hrun : (system keys).Run b steps b') : Unconfirmed id b' := by
  induction hrun with
  | nil => exact hb
  | snoc _ hn ih =>
    subst hn
    refine step_keeps_deposits (fun b b' hids _ hconfirmed h => ?_) _
      (fun _ _ => processDeposit_keeps_unconfirmed) ih
    exact ⟨hids ▸ h.1, hconfirmed ▸ h.2⟩

/-! ## A deposit and a withdrawal -/

def toyDeposit : DepositEvent := ⟨1, 2, 3, 0, 10, 500, 0⟩

def toyWithdrawal : WithdrawalRequest := ⟨7, 9, 500⟩

/-- The deposit is minted, confirmed and proven. -/
def toyMint : BridgeEvent :=
  .processDepositsOnce (.ok [(toyDeposit, .minted true (.ok ()) true)])

/-- The note is burned, and the request queued. -/
def toyBurn : BridgeEvent :=
  .requestWithdrawal 10 toyWithdrawal ⟨[⟨.real, 500, 10, none, 1⟩], .ok (), true, .ok true⟩

/-- The queue is paid. -/
def toyPay : BridgeEvent := .processWithdrawalsOnce fun _ => .paid true

/-- The bridge after the three rounds. -/
def toyBridge : Bridge := ((empty.step toyKeys toyMint).step toyKeys toyBurn).step toyKeys toyPay

theorem toyBridge_faithful : Faithful toyKeys toyBridge ∧ toyBridge.paid = [toyWithdrawal] := by
  have hmint : empty.Completed toyMint := by
    rintro _ ⟨⟩ entry hmem
    rw [List.mem_singleton.mp hmem]
    exact ⟨rfl, rfl, rfl⟩
  refine ⟨faithful_of_completed ?_, by decide⟩
  refine .next toyPay (.next toyBurn (.next toyMint (.init rfl) ⟨hmint, rfl⟩) ⟨?_, rfl⟩) ⟨?_, rfl⟩
  · exact fun _ => ⟨rfl, rfl⟩
  · exact fun _ => nofun

/-- The custody ledger refuses the confirmation of a minted deposit, and no later round makes
up for it. -/
theorem refused_confirmation_lost : ∃ b, (system toyKeys).Reachable b ∧ toyDeposit ∈ b.minted ∧
    ∀ steps b', (system toyKeys).Run b steps b' →
      toyDeposit.depositId toyKeys ∉ b'.confirmed := by
  refine ⟨_, .next (.processDepositsOnce
    (.ok [(toyDeposit, .minted true (.error "ledger busy") true)])) (.init rfl) rfl, .head _,
    fun steps b' hrun => (stays_unconfirmed ⟨.head _, List.not_mem_nil⟩ hrun).2⟩

end Bridge

end TexasPoker.Appchain
