import Mathlib.Order.Fin.Basic
import TexasPoker.Contracts.SettlesRegistered

/-! # The hand ids of all tables

Every table draws its hand ids from the clock and its own counter, while one contract
registers the hands of all tables above a single last id. Hands keep clear of each other as
long as no table starts a hand behind another's counter and hands are registered in the order
of their starts.
-/

namespace TexasPoker.Hooks

open Contracts Fallible

instance : NeZero u32Bound := ⟨by decide⟩

/-- A hand under the id that its table gave it. -/
structure TableHand where
  tableId : Fin u32Bound
  handId : Fin u32Bound
  deriving DecidableEq

/-- What the settlement of a hand submits, besides its aggregate. -/
structure HandSettlement where
  hand : TableHand
  preStateRoot : Felt × Felt
  postStateRoot : Felt × Felt
  settlementDigest : Felt
  actionLogDigest : Felt
  players : List ContractAddress
  deltas : List ℤ

/-- An error that says the hand's own registration stands. -/
def isRegisterReplay (e : String) : Bool :=
  e = "Digest already registered" || e = "Aggregate already registered"

/-- An error that says the hand was settled. -/
def isSettleReplay (e : String) : Bool := e = "Hand already settled"

/-- The id counters of the tables, the contract, and what became of the hands. -/
structure Fleet where
  handIdSeq : Fin u32Bound → Fin u32Bound
  chain : Registrar
  started : List TableHand
  registered : List TableHand
  refused : List TableHand
  settled : List TableHand
  alreadySettled : List TableHand

/-- What happens next: a table starts a hand, or a submission makes one of its two calls. -/
inductive FleetStep where
  | start (tableId unix : Fin u32Bound)
  | register (settlement : HandSettlement)
  | settle (settlement : HandSettlement)

namespace Fleet

variable (P : Primitives) (operator : ContractAddress) (aggregateDigest : TableHand → Felt × Felt)
  (s : Fleet)

/-- The next id of a table: one more than the last, and not behind the clock. -/
def nextHandId (tableId unix : Fin u32Bound) : Fin u32Bound := max (s.handIdSeq tableId + 1) unix

def start (tableId unix : Fin u32Bound) : Fleet :=
  let handId := s.nextHandId tableId unix
  { s with
    handIdSeq := Function.update s.handIdSeq tableId handId
    started := s.started ++ [⟨tableId, handId⟩] }

/-- The first call of a submission: the hand is an aggregate of its own. -/
def register (h : HandSettlement) : Fleet :=
  let handId := h.hand.handId.1
  match s.chain.registerAggregate ⟨operator, 0, []⟩ (aggregateDigest h.hand) handId handId
    h.preStateRoot h.postStateRoot [h.settlementDigest] with
  | .ok chain => { s with chain, registered := s.registered ++ [h.hand] }
  | .error e => if isRegisterReplay e then s else { s with refused := s.refused ++ [h.hand] }

/-- The second call: a hand that the contract calls settled counts as settled. -/
def settle (h : HandSettlement) : Fleet :=
  match s.chain.settleHand P ⟨operator, 0, []⟩ (aggregateDigest h.hand) h.hand.handId.1
    h.actionLogDigest h.players h.deltas with
  | .ok chain => { s with chain, settled := s.settled ++ [h.hand] }
  | .error e => if isSettleReplay e then { s with alreadySettled := s.alreadySettled ++ [h.hand] }
    else s

/-- Tables start hands at any time, and submissions run in any order; the second call waits
until the registration is visible. -/
def system : TransitionSystem Fleet FleetStep where
  init s := ∃ custody address owner, operator ≠ 0 ∧
    s = ⟨fun _ => 0, ⟨custody, address, .constructor owner operator⟩, [], [], [], [], []⟩
  next s l s' := match l with
    | .start tableId unix => s' = s.start tableId unix
    | .register h => h.hand ∈ s.started ∧ s' = s.register operator aggregateDigest h
    | .settle h => h.hand ∈ s.registered ∧ s' = s.settle P operator aggregateDigest h

/-- No hand stands in another's way: ids are distinct, no registration was refused, and only
hands that were settled counted as settled. -/
structure Unshadowed : Prop where
  distinct : (s.started.map TableHand.handId).Nodup
  accepted : s.refused = []
  settled : ∀ h ∈ s.alreadySettled, h ∈ s.settled

/-- The ids of the hands ascend in the order of their starts. -/
def Ascending : Prop := (s.started.map TableHand.handId).Pairwise (· < ·)

/-- A table starts a hand while its counter is not at its end, and every other counter is at most
its own or behind the clock. Hands are first registered in the order of their starts. -/
def Ordered : FleetStep → Prop
  | .start tableId unix => (s.handIdSeq tableId).1 + 1 < u32Bound ∧
      ∀ t, t ≠ tableId → s.handIdSeq t ≤ s.handIdSeq tableId ∨ s.handIdSeq t < unix
  | .register h => h.hand ∈ s.registered ∨
      ∀ g ∈ s.registered, s.started.idxOf g < s.started.idxOf h.hand
  | .settle _ => True

end Fleet

/-! ## The two calls -/

section Calls

variable {P : Primitives} {tx : Tx} {c c' : Registrar} {digest root log : Felt}
  {aggregate pre post : Felt × Felt} {handId : ℕ} {players : List ContractAddress} {deltas : List ℤ}

/-- A digest that is taken is refused as its own replay. -/
theorem registerAggregate_replay (hprover : c.settlement.provers tx.caller = true)
    (hzero : aggregate ≠ (0, 0)) (htaken : (c.settlement.aggregates aggregate).firstHandId ≠ 0) :
    c.registerAggregate tx aggregate handId handId pre post [root] =
      .error "Digest already registered" := by
  have hne : aggregate.1 ≠ 0 ∨ aggregate.2 ≠ 0 := by
    by_contra h
    push Not at h
    exact hzero (Prod.ext h.1 h.2)
  simp [Registrar.registerAggregate, ensure, hprover, hne, htaken]

/-- One hand under a new digest is registered exactly above the last id. -/
theorem registerAggregate_single (hprover : c.settlement.provers tx.caller = true)
    (hzero : aggregate ≠ (0, 0)) (hfree : c.settlement.aggregates aggregate = .unregistered) :
    (c.settlement.lastHandId < handId ∧
        ∃ c', c.registerAggregate tx aggregate handId handId pre post [root] = .ok c') ∨
      handId ≤ c.settlement.lastHandId ∧
        c.registerAggregate tx aggregate handId handId pre post [root] =
          .error "Hand range overlaps past" := by
  have hne : aggregate.1 ≠ 0 ∨ aggregate.2 ≠ 0 := by
    by_contra h
    push Not at h
    exact hzero (Prod.ext h.1 h.2)
  have hone : u64Add 0 1 = .ok 1 := by decide
  have hsmall : 1 < u32Bound := by decide
  by_cases hlt : c.settlement.lastHandId < handId
  · refine .inl ⟨hlt, ?_⟩
    simp [Registrar.registerAggregate, ensure, hprover, hne, hfree, Aggregate.unregistered, hone,
      hsmall, hlt, writeRoots, pure, Except.pure]
  · refine .inr ⟨not_lt.mp hlt, ?_⟩
    simp [Registrar.registerAggregate, ensure, hprover, hne, hfree, Aggregate.unregistered, hone,
      hsmall, hlt]

theorem u256Add_ne_replay {a b : ℕ} : u256Add a b ≠ .error "Hand already settled" := by
  unfold u256Add
  split
  · exact nofun
  · exact fun h => absurd (Except.error.inj h) (by decide)

theorem u256Sub_ne_replay {a b : ℕ} : u256Sub a b ≠ .error "Hand already settled" := by
  unfold u256Sub
  split
  · exact nofun
  · exact fun h => absurd (Except.error.inj h) (by decide)

/-- The vault does not speak of hands. -/
theorem applySettlement_ne_replay {v : Custody} {player : ContractAddress} {delta : ℤ} :
    v.applySettlement tx player delta ≠ .error "Hand already settled" := by
  unfold Custody.applySettlement
  refine bind_ne_error (ensure_ne_error (by decide)) fun _ => ?_
  split
  · refine bind_ne_error (ensure_ne_error (by decide)) fun _ =>
      bind_ne_error ?_ fun _ => pure_ne_error
    exact bind_ne_error u256Add_ne_replay fun _ =>
      bind_ne_error u256Add_ne_replay fun _ => pure_ne_error
  · split
    · refine bind_ne_error (ensure_ne_error (by decide)) fun _ =>
        bind_ne_error (ensure_ne_error (by decide)) fun _ => bind_ne_error ?_ fun _ => pure_ne_error
      exact bind_ne_error u256Sub_ne_replay fun _ =>
        bind_ne_error u256Sub_ne_replay fun _ => pure_ne_error
    · exact pure_ne_error

theorem computeSettlementDigest_ne_replay :
    computeSettlementDigest P handId log players deltas ≠ .error "Hand already settled" := by
  unfold computeSettlementDigest
  refine bind_ne_error (mapM_ne_error fun e => bind_ne_error ?_ fun _ => pure_ne_error)
    fun _ => pure_ne_error
  unfold deltaFelts
  refine bind_ne_error (ensure_ne_error ?_) fun _ => pure_ne_error
  split <;> decide

/-- Only a settled hand is refused as settled. -/
theorem settledHands_of_replay
    (h : c.settleHand P tx aggregate handId log players deltas = .error "Hand already settled") :
    c.settlement.settledHands handId = true := by
  by_contra hopen
  revert h
  unfold Registrar.settleHand
  refine bind_ne_error (ensure_ne_error (by decide)) fun _ =>
    bind_ne_error (ensure_ne_error (by decide)) fun _ =>
    bind_ne_error (ensure_ne_error (by decide)) fun _ =>
    bind_ne_error (ensure_ne_error (by decide)) fun _ => ?_
  rw [ensure_pos (by simpa using hopen), ok_bind]
  refine bind_ne_error (ensure_ne_error (by decide)) fun _ =>
    bind_ne_error (ensure_ne_error (by decide)) fun _ =>
    bind_ne_error computeSettlementDigest_ne_replay fun _ =>
    bind_ne_error (ensure_ne_error (by decide)) fun _ =>
    bind_ne_error (ensure_ne_error (by decide)) fun _ =>
    bind_ne_error (foldlM_ne_error fun _ _ => ?_) fun _ => pure_ne_error
  exact bind_ne_error applySettlement_ne_replay fun _ => pure_ne_error

end Calls

namespace Fleet

variable {P : Primitives} {operator : ContractAddress} {aggregateDigest : TableHand → Felt × Felt}
  {s s' : Fleet}

/-- The contract remembers the hands of the fleet, and nothing else. -/
structure Agrees (operator : ContractAddress) (aggregateDigest : TableHand → Felt × Felt)
    (s : Fleet) : Prop where
  prover : s.chain.settlement.provers operator = true
  registered : ∀ h ∈ s.registered, h ∈ s.started ∧ h.handId.1 ≤ s.chain.settlement.lastHandId ∧
    (s.chain.settlement.aggregates (aggregateDigest h)).firstHandId ≠ 0
  settled : ∀ h ∈ s.settled ++ s.alreadySettled, h ∈ s.registered
  unregistered : ∀ h, h ∉ s.registered →
    s.chain.settlement.aggregates (aggregateDigest h) = .unregistered
  last : s.chain.settlement.lastHandId = 0 ∨
    ∃ h ∈ s.registered, h.handId.1 = s.chain.settlement.lastHandId
  settledHands : ∀ i, s.chain.settlement.settledHands i = true → ∃ h ∈ s.settled, h.handId.1 = i

theorem agrees_init (h : (system P operator aggregateDigest).init s) :
    Agrees operator aggregateDigest s := by
  obtain ⟨custody, address, owner, hne, rfl⟩ := h
  constructor
  · simp [PokerSettlement.constructor, hne]
  · simp
  · simp
  · exact fun _ _ => rfl
  · exact .inl rfl
  · exact fun _ h => absurd h (by simp [PokerSettlement.constructor])

/-- A registration is the hand's own replay, is accepted above the last id, or is refused. -/
inductive RegisterCase (aggregateDigest : TableHand → Felt × Felt) (s s' : Fleet)
    (h : HandSettlement) : Prop where
  | replay (mem : h.hand ∈ s.registered) (same : s' = s)
  | accepted (fresh : h.hand ∉ s.registered)
      (above : s.chain.settlement.lastHandId < h.hand.handId.1) (chain : Registrar)
      (effect : Registrar.Registered (aggregateDigest h.hand)
        ⟨h.hand.handId.1, h.hand.handId.1, h.preStateRoot, h.postStateRoot⟩ [h.settlementDigest]
        s.chain chain)
      (after : s' = { s with chain, registered := s.registered ++ [h.hand] })
  | refused (fresh : h.hand ∉ s.registered)
      (below : h.hand.handId.1 ≤ s.chain.settlement.lastHandId)
      (after : s' = { s with refused := s.refused ++ [h.hand] })

theorem registerCase_of_agrees (hne : ∀ h, aggregateDigest h ≠ (0, 0))
    (hs : Agrees operator aggregateDigest s) (h : HandSettlement) :
    RegisterCase aggregateDigest s (s.register operator aggregateDigest h) h := by
  unfold register
  by_cases hmem : h.hand ∈ s.registered
  · have hreplay : s.chain.registerAggregate ⟨operator, 0, []⟩ (aggregateDigest h.hand)
        h.hand.handId.1 h.hand.handId.1 h.preStateRoot h.postStateRoot [h.settlementDigest] =
          .error "Digest already registered" :=
      registerAggregate_replay hs.prover (hne h.hand) (hs.registered _ hmem).2.2
    dsimp only
    rw [hreplay]
    exact .replay hmem rfl
  · have hsingle : (_ ∧ ∃ c', s.chain.registerAggregate ⟨operator, 0, []⟩ (aggregateDigest h.hand)
        h.hand.handId.1 h.hand.handId.1 h.preStateRoot h.postStateRoot [h.settlementDigest] =
          .ok c') ∨ _ :=
      registerAggregate_single hs.prover (hne h.hand) (hs.unregistered _ hmem)
    rcases hsingle with ⟨hlt, chain, hok⟩ | ⟨hle, herr⟩
    · dsimp only
      rw [hok]
      exact .accepted hmem hlt chain (Registrar.registerAggregate_eq_ok hok) rfl
    · dsimp only
      rw [herr]
      exact .refused hmem hle rfl

theorem Agrees.start (hs : Agrees operator aggregateDigest s) (tableId unix : Fin u32Bound) :
    Agrees operator aggregateDigest (s.start tableId unix) := by
  refine ⟨hs.prover, fun h hh => ?_, hs.settled, hs.unregistered, hs.last, hs.settledHands⟩
  obtain ⟨hstarted, hrest⟩ := hs.registered h hh
  exact ⟨List.mem_append_left _ hstarted, hrest⟩

theorem Agrees.register (hinj : Function.Injective aggregateDigest)
    (hs : Agrees operator aggregateDigest s) {h : HandSettlement} (hstarted : h.hand ∈ s.started)
    (hcase : RegisterCase aggregateDigest s s' h) : Agrees operator aggregateDigest s' := by
  cases hcase with
  | replay mem same => rwa [same]
  | refused fresh below after =>
    subst after
    exact ⟨hs.prover, hs.registered, hs.settled, hs.unregistered, hs.last, hs.settledHands⟩
  | accepted fresh above chain effect after =>
    subst after
    have hlast := effect.lastHandId
    have hother : ∀ g, g ≠ h.hand → chain.settlement.aggregates (aggregateDigest g) =
        s.chain.settlement.aggregates (aggregateDigest g) := by
      intro g hg
      rw [effect.aggregates]
      exact Function.update_of_ne (fun heq => hg (hinj heq)) ..
    have hself : chain.settlement.aggregates (aggregateDigest h.hand) =
        ⟨h.hand.handId.1, h.hand.handId.1, h.preStateRoot, h.postStateRoot⟩ := by
      rw [effect.aggregates]
      exact Function.update_self ..
    constructor
    · rw [effect.provers]
      exact hs.prover
    · intro g hg
      rcases List.mem_append.mp hg with hg | hg
      · obtain ⟨h₁, h₂, h₃⟩ := hs.registered g hg
        refine ⟨h₁, ?_, ?_⟩
        · rw [hlast]
          change g.handId.1 ≤ h.hand.handId.1
          omega
        · rw [hother g fun heq => fresh (heq ▸ hg)]
          exact h₃
      · obtain rfl := List.mem_singleton.mp hg
        refine ⟨hstarted, hlast.ge, ?_⟩
        rw [hself]
        change h.hand.handId.1 ≠ 0
        omega
    · exact fun g hg => List.mem_append_left _ (hs.settled g hg)
    · intro g hg
      rw [List.mem_append, List.mem_singleton, not_or] at hg
      rw [hother g hg.2]
      exact hs.unregistered g hg.1
    · exact .inr ⟨h.hand, List.mem_append_right _ (List.mem_singleton_self _), hlast.symm⟩
    · rw [effect.settledHands]
      exact hs.settledHands

/-- A settlement is accepted, was made before by a hand of this id, or fails. -/
inductive SettleCase (P : Primitives) (aggregateDigest : TableHand → Felt × Felt) (s s' : Fleet)
    (h : HandSettlement) : Prop where
  | accepted (chain : Registrar)
      (effect : Registrar.Settled P (aggregateDigest h.hand) h.hand.handId.1 h.actionLogDigest
        h.players h.deltas s.chain chain)
      (after : s' = { s with chain, settled := s.settled ++ [h.hand] })
  | replay (settled : s.chain.settlement.settledHands h.hand.handId.1 = true)
      (after : s' = { s with alreadySettled := s.alreadySettled ++ [h.hand] })
  | failed (same : s' = s)

theorem settleCase (s : Fleet) (h : HandSettlement) :
    SettleCase P aggregateDigest s (s.settle P operator aggregateDigest h) h := by
  unfold settle
  cases hrun : s.chain.settleHand P ⟨operator, 0, []⟩ (aggregateDigest h.hand) h.hand.handId.1
    h.actionLogDigest h.players h.deltas with
  | ok chain => exact .accepted chain (Registrar.settleHand_eq_ok hrun) rfl
  | error e =>
    by_cases he : isSettleReplay e = true
    · obtain rfl : e = "Hand already settled" := of_decide_eq_true he
      exact .replay (settledHands_of_replay hrun) (if_pos he)
    · exact .failed (if_neg he)

theorem Agrees.settle (hs : Agrees operator aggregateDigest s) {h : HandSettlement}
    (hmem : h.hand ∈ s.registered) (hcase : SettleCase P aggregateDigest s s' h) :
    Agrees operator aggregateDigest s' := by
  cases hcase with
  | failed same => rwa [same]
  | replay settled after =>
    subst after
    refine ⟨hs.prover, hs.registered, fun g hg => ?_, hs.unregistered, hs.last, hs.settledHands⟩
    rw [← List.append_assoc, List.mem_append, List.mem_singleton] at hg
    rcases hg with hg | rfl
    · exact hs.settled g hg
    · exact hmem
  | accepted chain effect after =>
    subst after
    constructor
    · rw [effect.provers]
      exact hs.prover
    · rw [effect.lastHandId, effect.aggregates]
      exact hs.registered
    · intro g hg
      simp only [List.mem_append, List.mem_singleton] at hg
      rcases hg with (hg | rfl) | hg
      · exact hs.settled g (List.mem_append_left _ hg)
      · exact hmem
      · exact hs.settled g (List.mem_append_right _ hg)
    · rw [effect.aggregates]
      exact hs.unregistered
    · rw [effect.lastHandId]
      exact hs.last
    · intro i hi
      rw [effect.settledHands] at hi
      by_cases heq : i = h.hand.handId.1
      · exact ⟨h.hand, List.mem_append_right _ (List.mem_singleton_self _), heq.symm⟩
      · rw [Function.update_of_ne heq] at hi
        obtain ⟨g, hg, hgi⟩ := hs.settledHands i hi
        exact ⟨g, List.mem_append_left _ hg, hgi⟩

/-- The contract agrees with the fleet along every run. -/
theorem agrees_of_reachable (hinj : Function.Injective aggregateDigest)
    (hne : ∀ h, aggregateDigest h ≠ (0, 0))
    (h : (system P operator aggregateDigest).Reachable s) : Agrees operator aggregateDigest s := by
  induction h with
  | init hi => exact agrees_init hi
  | next l _ hn ih =>
    cases l with
    | start tableId unix =>
      obtain rfl := hn
      exact ih.start tableId unix
    | register h =>
      obtain ⟨hstarted, rfl⟩ := hn
      exact ih.register hinj hstarted (registerCase_of_agrees hne ih h)
    | settle h =>
      obtain ⟨hmem, rfl⟩ := hn
      exact ih.settle hmem (settleCase _ h)

/-! ## The counters -/

/-- Away from its end the counter of a table moves past its last id and not behind the clock. -/
theorem nextHandId_val {tableId : Fin u32Bound} (unix : Fin u32Bound)
    (h : (s.handIdSeq tableId).1 + 1 < u32Bound) :
    (s.nextHandId tableId unix).1 = max ((s.handIdSeq tableId).1 + 1) unix.1 := by
  have hsucc : (s.handIdSeq tableId + 1).1 = (s.handIdSeq tableId).1 + 1 := by
    rw [Fin.val_add, Fin.val_one', Nat.add_mod_mod, Nat.mod_eq_of_lt h]
  rw [nextHandId, Fin.coe_max, hsucc]

/-- The counter of a table is its last id, above the ids it gave before, and the ids of all tables
ascend. -/
structure Counted (s : Fleet) : Prop where
  counter : ∀ t, s.handIdSeq t = 0 ∨ ⟨t, s.handIdSeq t⟩ ∈ s.started
  bounded : ∀ h ∈ s.started, h.handId ≤ s.handIdSeq h.tableId
  positive : ∀ h ∈ s.started, 0 < h.handId
  ascending : s.Ascending

/-- A new id is above all others exactly when no other counter has gone past the table's own and
the clock. -/
theorem Counted.above_iff (hs : s.Counted) {tableId unix : Fin u32Bound} :
    (∀ h ∈ s.started, h.handId < s.nextHandId tableId unix) ↔
      s.Ordered (.start tableId unix) := by
  constructor
  · intro habove
    have hroom : (s.handIdSeq tableId).1 + 1 < u32Bound := by
      by_contra hfull
      -- the last id of the table is the greatest of all
      have hlt := (s.handIdSeq tableId).2
      rcases hs.counter tableId with hzero | hmem
      · rw [hzero] at hfull
        exact hfull (by decide)
      · have habove := Fin.lt_def.mp (habove _ hmem)
        change (s.handIdSeq tableId).1 < _ at habove
        have := (s.nextHandId tableId unix).2
        omega
    refine ⟨hroom, fun t _ => ?_⟩
    rcases hs.counter t with hzero | hmem
    · rw [hzero]
      exact .inl (Fin.zero_le _)
    · have hlt := Fin.lt_def.mp (habove _ hmem)
      rw [nextHandId_val unix hroom] at hlt
      rw [Fin.le_def, Fin.lt_def]
      change (s.handIdSeq t).1 < _ at hlt
      omega
  · rintro ⟨hroom, hothers⟩ h hmem
    have hbound := Fin.le_def.mp (hs.bounded h hmem)
    rw [Fin.lt_def, nextHandId_val unix hroom]
    by_cases hown : h.tableId = tableId
    · rw [hown] at hbound
      omega
    · rcases hothers _ hown with hle | hlt
      · rw [Fin.le_def] at hle
        omega
      · rw [Fin.lt_def] at hlt
        omega

/-- The ids keep ascending exactly when the new one is above them. -/
theorem ascending_start_iff (h : s.Ascending) {tableId unix : Fin u32Bound} :
    (s.start tableId unix).Ascending ↔
      ∀ h ∈ s.started, h.handId < s.nextHandId tableId unix := by
  have happend : (s.start tableId unix).started.map TableHand.handId =
      s.started.map TableHand.handId ++ [s.nextHandId tableId unix] := by
    rw [start, List.map_append]
    rfl
  rw [Ascending] at h ⊢
  rw [happend, List.pairwise_append]
  simp [h]

theorem Counted.start (hs : s.Counted) {tableId unix : Fin u32Bound}
    (h : s.Ordered (.start tableId unix)) : (s.start tableId unix).Counted := by
  have habove := hs.above_iff.mpr h
  have hval := s.nextHandId_val unix h.1
  have hmove : s.handIdSeq tableId < s.nextHandId tableId unix := by
    rw [Fin.lt_def, hval]
    omega
  constructor
  · intro t
    by_cases ht : t = tableId
    · subst ht
      refine .inr (List.mem_append_right _ ?_)
      simp [Fleet.start]
    · have hsame : (s.start tableId unix).handIdSeq t = s.handIdSeq t :=
        Function.update_of_ne ht ..
      rw [hsame]
      exact (hs.counter t).imp_right (List.mem_append_left _)
  · intro g hg
    have hseq (t : Fin u32Bound) : s.handIdSeq t ≤ (s.start tableId unix).handIdSeq t := by
      by_cases ht : t = tableId
      · subst ht
        simpa [Fleet.start] using hmove.le
      · exact (Function.update_of_ne ht ..).ge
    rcases List.mem_append.mp hg with hg | hg
    · exact (hs.bounded g hg).trans (hseq _)
    · obtain rfl := List.mem_singleton.mp hg
      simp [Fleet.start]
  · intro g hg
    rcases List.mem_append.mp hg with hg | hg
    · exact hs.positive g hg
    · obtain rfl := List.mem_singleton.mp hg
      exact (Fin.zero_le _).trans_lt hmove
  · exact (ascending_start_iff hs.ascending).mpr habove

/-- A call changes no counter. -/
theorem Counted.of_eq (hs : s.Counted) (hseq : s'.handIdSeq = s.handIdSeq)
    (hstarted : s'.started = s.started) : s'.Counted := by
  obtain ⟨h₁, h₂, h₃, h₄⟩ := hs
  rw [Ascending, ← hstarted] at h₄
  rw [← hstarted] at h₁ h₂ h₃
  rw [← hseq] at h₁ h₂
  exact ⟨h₁, h₂, h₃, h₄⟩

/-- Hands that started in some order have ids in that order. -/
theorem Ascending.idxOf_lt_iff (hs : s.Ascending) {g h : TableHand} (hg : g ∈ s.started)
    (hh : h ∈ s.started) :
    s.started.idxOf g < s.started.idxOf h ↔ g.handId < h.handId := by
  have hmono {g h : TableHand} (hg : g ∈ s.started) (hh : h ∈ s.started)
      (hlt : s.started.idxOf g < s.started.idxOf h) : g.handId < h.handId := by
    rw [Ascending, List.pairwise_map, List.pairwise_iff_getElem] at hs
    have hpair := hs _ _ (List.idxOf_lt_length_of_mem hg) (List.idxOf_lt_length_of_mem hh) hlt
    rwa [List.getElem_idxOf, List.getElem_idxOf] at hpair
  refine ⟨hmono hg hh, fun hlt => ?_⟩
  rcases lt_trichotomy (s.started.idxOf g) (s.started.idxOf h) with hidx | hidx | hidx
  · exact hidx
  · rw [List.idxOf_inj hg] at hidx
    exact absurd hlt (hidx ▸ lt_irrefl _)
  · exact absurd hlt (hmono hh hg hidx).asymm

/-! ## The exact schedule -/

theorem Counted.register (hs : s.Counted) {h : HandSettlement} :
    (s.register operator aggregateDigest h).Counted := by
  unfold Fleet.register
  dsimp only
  split
  · exact hs.of_eq rfl rfl
  · split <;> exact hs.of_eq rfl rfl

theorem Counted.settle (hs : s.Counted) {h : HandSettlement} :
    (s.settle P operator aggregateDigest h).Counted := by
  unfold Fleet.settle
  split
  · exact hs.of_eq rfl rfl
  · split <;> exact hs.of_eq rfl rfl

/-- A registration keeps every hand out of the others' way exactly when it follows the order of
starts. -/
theorem unshadowed_register_iff (hne : ∀ h, aggregateDigest h ≠ (0, 0))
    (hs : Agrees operator aggregateDigest s) (hc : s.Counted) (hun : s.Unshadowed)
    {h : HandSettlement} (hstarted : h.hand ∈ s.started) :
    (s.register operator aggregateDigest h).Unshadowed ↔ s.Ordered (.register h) := by
  have hidx {g : TableHand} (hg : g ∈ s.registered) :=
    hc.ascending.idxOf_lt_iff (hs.registered g hg).1 hstarted
  cases registerCase_of_agrees hne hs h with
  | replay mem same =>
    rw [same]
    exact ⟨fun _ => .inl mem, fun _ => hun⟩
  | accepted fresh above chain effect after =>
    rw [after]
    refine ⟨fun _ => .inr fun g hg => ?_, fun _ => ⟨hun.distinct, hun.accepted, hun.settled⟩⟩
    exact (hidx hg).mpr (Fin.lt_def.mpr ((hs.registered g hg).2.1.trans_lt above))
  | refused fresh below after =>
    rw [after]
    constructor
    · intro h
      exact absurd h.accepted (by simp)
    · rintro (hmem | hbefore)
      · exact absurd hmem fresh
      · rcases hs.last with hzero | ⟨g, hg, hlast⟩
        · have := Fin.lt_def.mp (hc.positive _ hstarted)
          rw [hzero] at below
          exact absurd this (not_lt.mpr below)
        · have := Fin.lt_def.mp ((hidx hg).mp (hbefore g hg))
          omega

/-- A settlement call leaves every hand out of the others' way. -/
theorem Unshadowed.settle (hs : Agrees operator aggregateDigest s) (hun : s.Unshadowed)
    {h : HandSettlement} (hmem : h.hand ∈ s.registered) :
    (s.settle P operator aggregateDigest h).Unshadowed := by
  have hcase : SettleCase P aggregateDigest s (s.settle P operator aggregateDigest h) h :=
    settleCase s h
  cases hcase with
  | failed same => rwa [same]
  | accepted chain effect after =>
    rw [after]
    exact ⟨hun.distinct, hun.accepted, fun g hg => List.mem_append_left _ (hun.settled g hg)⟩
  | replay settled after =>
    rw [after]
    refine ⟨hun.distinct, hun.accepted, fun g hg => ?_⟩
    rcases List.mem_append.mp hg with hg | hg
    · exact hun.settled g hg
    · rw [List.mem_singleton.mp hg]
      obtain ⟨g', hg', hid⟩ := hs.settledHands _ settled
      have hstarted := (hs.registered g' (hs.settled g' (List.mem_append_left _ hg'))).1
      have hstarted' := (hs.registered _ hmem).1
      rwa [← List.inj_on_of_nodup_map hun.distinct hstarted hstarted' (Fin.ext hid)]

/-- A step keeps the ids ascending and every hand out of the others' way exactly when it is in
order. -/
theorem unshadowed_next_iff (hne : ∀ h, aggregateDigest h ≠ (0, 0))
    (hs : Agrees operator aggregateDigest s) (hc : s.Counted) (hun : s.Unshadowed) {l : FleetStep}
    (hn : (system P operator aggregateDigest).next s l s') :
    s'.Unshadowed ∧ s'.Ascending ↔ s.Ordered l := by
  cases l with
  | start tableId unix =>
    obtain rfl := hn
    have hiff : (s.start tableId unix).Ascending ↔ s.Ordered (.start tableId unix) :=
      (ascending_start_iff hc.ascending).trans hc.above_iff
    refine ⟨fun h => hiff.mp h.2, fun h => ⟨⟨?_, hun.accepted, hun.settled⟩, hiff.mpr h⟩⟩
    exact (hiff.mpr h).imp ne_of_lt
  | register h =>
    obtain ⟨hstarted, rfl⟩ := hn
    have hasc : (s.register operator aggregateDigest h).Ascending := hc.register.ascending
    rw [← unshadowed_register_iff hne hs hc hun hstarted]
    exact and_iff_left hasc
  | settle h =>
    obtain ⟨hmem, rfl⟩ := hn
    have hasc : (s.settle P operator aggregateDigest h).Ascending := hc.settle.ascending
    exact iff_of_true ⟨hun.settle hs hmem, hasc⟩ trivial

/-- Along runs in order no hand stands in another's way. -/
theorem unshadowed_of_reachable (hinj : Function.Injective aggregateDigest)
    (hne : ∀ h, aggregateDigest h ≠ (0, 0))
    (h : ((system P operator aggregateDigest).restrict Ordered).Reachable s) :
    s.Counted ∧ s.Unshadowed := by
  induction h with
  | init hi =>
    obtain ⟨custody, address, owner, -, rfl⟩ := hi
    exact ⟨⟨fun _ => .inl rfl, by simp, by simp, .nil⟩, .nil, rfl, by simp⟩
  | @next s s' l hr hn ih =>
    have hs := agrees_of_reachable hinj hne hr.of_restrict
    refine ⟨?_, ((unshadowed_next_iff hne hs ih.1 ih.2 hn.2).mpr hn.1).1⟩
    cases l with
    | start tableId unix =>
      obtain ⟨hordered, rfl⟩ := hn
      exact ih.1.start hordered
    | register h =>
      obtain ⟨-, -, rfl⟩ := hn
      exact ih.1.register
    | settle h =>
      obtain ⟨-, -, rfl⟩ := hn
      exact ih.1.settle

/-- As long as no table starts a hand behind another's counter and hands are registered in the
order of their starts, no table blocks or shadows another. The first step that breaks this puts
an id out of order or a hand in another's way. -/
theorem unshadowed_of_ordered (hinj : Function.Injective aggregateDigest)
    (hne : ∀ h, aggregateDigest h ≠ (0, 0)) :
    (∀ s, ((system P operator aggregateDigest).restrict Ordered).Reachable s → s.Unshadowed) ∧
      ∀ s l s', ((system P operator aggregateDigest).restrict Ordered).Reachable s →
        (system P operator aggregateDigest).next s l s' →
          (s'.Unshadowed ∧ s'.Ascending ↔ s.Ordered l) := by
  refine ⟨fun s hs => (unshadowed_of_reachable hinj hne hs).2, fun s l s' hs hn => ?_⟩
  obtain ⟨hc, hun⟩ := unshadowed_of_reachable hinj hne hs
  exact unshadowed_next_iff hne (agrees_of_reachable hinj hne hs.of_restrict) hc hun hn

/-! ## Runs on fixed inputs -/

/-- An aggregate digest that tells the hands apart. -/
def plainDigest (h : TableHand) : Felt × Felt :=
  (natFelt h.tableId.1, natFelt (h.handId.1 + 1))

theorem natFelt_inj_of_lt {m n : ℕ} (hm : m < u64Bound) (hn : n < u64Bound)
    (h : natFelt m = natFelt n) : m = n := by
  have := congrArg Fin.val h
  rwa [natFelt_val_of_lt hm, natFelt_val_of_lt hn] at this

theorem u32_lt_u64 (i : Fin u32Bound) : i.1 + 1 < u64Bound := by
  have := i.2
  have : u32Bound + 1 < u64Bound := by decide
  omega

theorem plainDigest_injective : Function.Injective plainDigest := by
  rintro ⟨t, i⟩ ⟨t', i'⟩ h
  obtain ⟨ht, hi⟩ := Prod.mk.inj h
  have ht := natFelt_inj_of_lt ((Nat.lt_succ_self _).trans (u32_lt_u64 t))
    ((Nat.lt_succ_self _).trans (u32_lt_u64 t')) ht
  have hi := natFelt_inj_of_lt (u32_lt_u64 i) (u32_lt_u64 i') hi
  rw [Fin.ext ht, Fin.ext (Nat.succ.inj hi)]

theorem plainDigest_ne_zero (h : TableHand) : plainDigest h ≠ (0, 0) := by
  intro hz
  have hval := congrArg Fin.val (Prod.mk.inj hz).2
  rw [natFelt_val_of_lt (u32_lt_u64 _)] at hval
  cases hval

/-- The fleet of prover six before its first hand. -/
def idleFleet : Fleet :=
  ⟨fun _ => 0, ⟨Chain.deployed.custody, 4, .constructor 5 6⟩, [], [], [], [], []⟩

/-- What the hand of a table submits when nobody wins. -/
def plainSettlement (h : TableHand) : HandSettlement := ⟨h, (0, 0), (0, 0), 1, 0, [], []⟩

/-- Table one starts a second after table zero. -/
def twoStarted : Fleet := (idleFleet.start 0 100).start 1 101

/-- The later hand is registered first. -/
def laterFirst : Fleet := twoStarted.register 6 plainDigest (plainSettlement ⟨1, 101⟩)

theorem later_hand_blocks :
    (∃ s, (system Chain.toyPrimitives 6 plainDigest).Reachable s ∧
      ¬ (s.started.map TableHand.handId).Nodup) ∧
    ∃ s s', (system Chain.toyPrimitives 6 plainDigest).Reachable s ∧
      (s.started.map TableHand.handId).Nodup ∧
      (system Chain.toyPrimitives 6 plainDigest).next s (.register (plainSettlement ⟨0, 100⟩)) s' ∧
      s.registered = [⟨1, 101⟩] ∧ s'.refused = [⟨0, 100⟩] := by
  have hidle : (system Chain.toyPrimitives 6 plainDigest).Reachable idleFleet :=
    .init ⟨_, _, 5, by decide, rfl⟩
  have htwo : (system Chain.toyPrimitives 6 plainDigest).Reachable twoStarted :=
    .next (.start 1 101) (.next (.start 0 100) hidle rfl) rfl
  have hlater : (system Chain.toyPrimitives 6 plainDigest).Reachable laterFirst :=
    .next (.register (plainSettlement ⟨1, 101⟩)) htwo ⟨by decide +kernel, rfl⟩
  refine ⟨⟨_, .next (.start 1 100) (.next (.start 0 100) hidle rfl) rfl, by decide +kernel⟩,
    laterFirst, _, hlater, by decide +kernel, ⟨by decide +kernel, rfl⟩, by decide +kernel,
    by decide +kernel⟩

/-- Registered in the order of their ids, both hands are accepted. -/
theorem earlier_first_unshadowed :
    ∃ s, ((system Chain.toyPrimitives 6 plainDigest).restrict Ordered).Reachable s ∧
      s.registered = [⟨0, 100⟩, ⟨1, 101⟩] ∧ s.Unshadowed := by
  let earlier : Fleet := twoStarted.register 6 plainDigest (plainSettlement ⟨0, 100⟩)
  let both : Fleet := earlier.register 6 plainDigest (plainSettlement ⟨1, 101⟩)
  have hidle : ((system Chain.toyPrimitives 6 plainDigest).restrict Ordered).Reachable idleFleet :=
    .init ⟨_, _, 5, by decide, rfl⟩
  have hone : ((system Chain.toyPrimitives 6 plainDigest).restrict Ordered).Reachable
      (idleFleet.start 0 100) := by
    refine .next (.start 0 100) hidle ⟨⟨by decide, fun t _ => .inl ?_⟩, rfl⟩
    exact Fin.zero_le _
  have htwo : ((system Chain.toyPrimitives 6 plainDigest).restrict Ordered).Reachable twoStarted := by
    refine .next (.start 1 101) hone ⟨⟨by decide +kernel, fun t ht => ?_⟩, rfl⟩
    by_cases hzero : t = 0
    · subst hzero
      exact .inr (by decide +kernel)
    · refine .inl ?_
      have hidle : (idleFleet.start 0 100).handIdSeq t = 0 := Function.update_of_ne hzero ..
      rw [hidle]
      exact Fin.zero_le _
  have hearlier : ((system Chain.toyPrimitives 6 plainDigest).restrict Ordered).Reachable earlier := by
    refine .next (.register (plainSettlement ⟨0, 100⟩)) htwo ⟨.inr ?_, by decide +kernel, rfl⟩
    simp [twoStarted, idleFleet, Fleet.start]
  have hboth : ((system Chain.toyPrimitives 6 plainDigest).restrict Ordered).Reachable both := by
    refine .next (.register (plainSettlement ⟨1, 101⟩)) hearlier ⟨.inr ?_, by decide +kernel, rfl⟩
    change ∀ g ∈ earlier.registered, earlier.started.idxOf g < earlier.started.idxOf ⟨1, 101⟩
    decide +kernel
  exact ⟨both, hboth, by decide +kernel,
    (unshadowed_of_ordered plainDigest_injective plainDigest_ne_zero).1 both hboth⟩

end Fleet

end TexasPoker.Hooks
