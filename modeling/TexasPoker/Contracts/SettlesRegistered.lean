import TexasPoker.Contracts.AggregateSettlement
import TexasPoker.Contracts.SettleOnce

/-! # Settling what was registered

Over any run of the aggregate settlement contract the registered ranges ascend, a written
digest stays, and a hand is settled at most once, by arguments that hash to its digest.
-/

namespace TexasPoker.Contracts

open Fallible

/-- The range of a registration. -/
def RegistrarCall.range : RegistrarCall → Option (ℕ × ℕ)
  | .registerAggregate _ firstHandId lastHandId _ _ _ => some (firstHandId, lastHandId)
  | _ => none

/-- The hand that a call settles. -/
def RegistrarCall.hand : RegistrarCall → Option ℕ
  | .settleHand _ handId _ _ _ => some handId
  | _ => none

/-- A registered aggregate has a hand in its range. -/
def Aggregate.Contains (a : Aggregate) (handId : ℕ) : Prop :=
  a.firstHandId ≠ 0 ∧ a.firstHandId ≤ handId ∧ handId ≤ a.lastHandId

/-- Each hand of the range gets its own root, and no other hand is touched. -/
theorem writeRoots_eq_ok {lastHandId handId : ℕ} {roots : List Felt} {digests digests' : ℕ → Felt}
    (h : writeRoots lastHandId roots handId digests = .ok digests') (hle : handId ≤ lastHandId) :
    (∀ k root, roots[k]? = some root → handId + k ≤ lastHandId → digests' (handId + k) = root) ∧
      ∀ i, i < handId ∨ lastHandId < i → digests' i = digests i := by
  induction roots generalizing handId digests with
  | nil => cases h
  | cons root roots ih =>
    unfold writeRoots at h
    split at h
    · rename_i heq
      subst heq
      obtain rfl := pure_eq_ok.mp h
      constructor
      · intro k root' hk hkl
        obtain rfl : k = 0 := by omega
        obtain rfl : root = root' := by simpa using hk
        exact Function.update_self ..
      · intro i hi
        exact Function.update_of_ne (by omega) ..
    · rename_i hne
      obtain ⟨next, hnext, h⟩ := bind_eq_ok.mp h
      obtain rfl : handId + 1 = next := by
        unfold u64Add at hnext
        split at hnext
        · exact Except.ok.inj hnext
        · cases hnext
      obtain ⟨hwritten, hkept⟩ := ih h (by omega)
      constructor
      · intro k root' hk hkl
        cases k with
        | zero =>
          obtain rfl : root = root' := by simpa using hk
          rw [add_zero, hkept handId (by omega)]
          exact Function.update_self ..
        | succ k =>
          have := hwritten k root' (by simpa using hk) (by omega)
          rwa [add_assoc, add_comm 1 k] at this
      · intro i hi
        rw [hkept i (by omega)]
        exact Function.update_of_ne (by omega) ..

namespace Registrar

variable {P : Primitives} {tx : Tx} {c c' : Registrar} {aggregateDigest : Felt × Felt}
  {firstHandId lastHandId handId : ℕ} {preStateRoot postStateRoot : Felt × Felt}
  {settlementRoots : List Felt} {actionLogDigest : Felt} {players : List ContractAddress}
  {deltas : List ℤ}

/-! ## One call -/

/-- What an accepted registration does. -/
structure Registered (aggregateDigest : Felt × Felt) (a : Aggregate) (roots : List Felt)
    (c c' : Registrar) : Prop where
  fresh : (c.settlement.aggregates aggregateDigest).firstHandId = 0
  range : a.firstHandId ≤ a.lastHandId
  above : c.settlement.lastHandId < a.firstHandId
  aggregates : c'.settlement.aggregates = Function.update c.settlement.aggregates aggregateDigest a
  written : ∀ k root, roots[k]? = some root → c'.settlement.settlementDigests (a.firstHandId + k) = root
  kept : ∀ i, i < a.firstHandId ∨ a.lastHandId < i →
    c'.settlement.settlementDigests i = c.settlement.settlementDigests i
  roots : roots.length = a.lastHandId - a.firstHandId + 1
  settledHands : c'.settlement.settledHands = c.settlement.settledHands
  lastHandId : c'.settlement.lastHandId = a.lastHandId
  provers : c'.settlement.provers = c.settlement.provers

theorem registerAggregate_eq_ok (h : c.registerAggregate tx aggregateDigest firstHandId lastHandId
    preStateRoot postStateRoot settlementRoots = .ok c') :
    Registered aggregateDigest ⟨firstHandId, lastHandId, preStateRoot, postStateRoot⟩
      settlementRoots c c' := by
  simp only [registerAggregate, bind_eq_ok, ensure_eq_ok, pure_eq_ok] at h
  obtain ⟨-, -, -, -, -, hfresh, -, hle, count, hcount, -, -, -, hlen, -, habove, digests, hdigests,
    rfl⟩ := h
  obtain rfl : lastHandId - firstHandId + 1 = count := by
    unfold u64Add at hcount
    split at hcount
    · exact Except.ok.inj hcount
    · cases hcount
  obtain ⟨hwritten, hkept⟩ := writeRoots_eq_ok hdigests hle
  refine ⟨hfresh.1, hle, habove, rfl, fun k root hk => hwritten k root hk ?_, hkept, hlen, rfl, rfl,
    rfl⟩
  obtain ⟨hlt, -⟩ := List.getElem?_eq_some_iff.mp hk
  omega

theorem settlement_of_applySettlements {l : List (ContractAddress × ℤ)}
    (h : l.foldlM (fun c e => c.applySettlement tx e.1 e.2) c = .ok c') :
    c'.settlement = c.settlement := by
  have hstep : ∀ e ∈ l, ∀ c₁ c₂ : Registrar, c₁.applySettlement tx e.1 e.2 = .ok c₂ →
      c₁.settlement = c.settlement → c₂.settlement = c.settlement := by
    intro e _ c₁ c₂ h₁ hc
    simp only [applySettlement, bind_eq_ok, pure_eq_ok] at h₁
    obtain ⟨_, -, rfl⟩ := h₁
    exact hc
  exact foldlM_keeps (P := fun c₁ => c₁.settlement = c.settlement) hstep h rfl

/-- What an accepted settlement checks and does. -/
structure Settled (P : Primitives) (aggregateDigest : Felt × Felt) (handId : ℕ)
    (actionLogDigest : Felt) (players : List ContractAddress) (deltas : List ℤ)
    (c c' : Registrar) : Prop where
  fresh : c.settlement.settledHands handId = false
  contains : (c.settlement.aggregates aggregateDigest).Contains handId
  digest : computeSettlementDigest P handId actionLogDigest players deltas =
    .ok (c.settlement.settlementDigests handId)
  lengths : players.length = deltas.length
  zeroSum : deltas.sum = 0
  settledHands : c'.settlement.settledHands = Function.update c.settlement.settledHands handId true
  aggregates : c'.settlement.aggregates = c.settlement.aggregates
  settlementDigests : c'.settlement.settlementDigests = c.settlement.settlementDigests
  lastHandId : c'.settlement.lastHandId = c.settlement.lastHandId
  provers : c'.settlement.provers = c.settlement.provers

theorem settleHand_eq_ok (h : c.settleHand P tx aggregateDigest handId actionLogDigest players
    deltas = .ok c') :
    Settled P aggregateDigest handId actionLogDigest players deltas c c' := by
  simp only [settleHand, bind_eq_ok, ensure_eq_ok, pure_eq_ok] at h
  obtain ⟨-, -, -, hlen, -, -, -, -, -, hfresh, -, hne, -, hrange, computed, hcomputed, -, rfl, -,
    hsum, c₁, hc₁, rfl⟩ := h
  have hkeep := settlement_of_applySettlements hc₁
  exact
    { fresh := hfresh
      contains := ⟨hne, hrange⟩
      digest := hcomputed
      lengths := hlen
      zeroSum := hsum
      settledHands := by rw [hkeep]
      aggregates := by rw [hkeep]
      settlementDigests := by rw [hkeep]
      lastHandId := by rw [hkeep]
      provers := by rw [hkeep] }

/-- The maps of hands and aggregates. -/
def hands (s : PokerSettlement) :=
  (s.aggregates, s.settlementDigests, s.settledHands, s.lastHandId)

/-- What a call does to the hands: a registration, a settlement, or nothing. -/
inductive Effect (P : Primitives) (call : RegistrarCall) (c c' : Registrar) : Prop where
  | registers (aggregateDigest : Felt × Felt) (a : Aggregate) (roots : List Felt)
      (isRegister : call = .registerAggregate aggregateDigest a.firstHandId a.lastHandId
        a.preStateRoot a.postStateRoot roots) (effect : Registered aggregateDigest a roots c c')
  | settles (aggregateDigest : Felt × Felt) (handId : ℕ) (actionLogDigest : Felt)
      (players : List ContractAddress) (deltas : List ℤ)
      (isSettle : call = .settleHand aggregateDigest handId actionLogDigest players deltas)
      (effect : Settled P aggregateDigest handId actionLogDigest players deltas c c')
  | idle (notRange : call.range = none) (notHand : call.hand = none)
      (effect : hands c'.settlement = hands c.settlement)

theorem effect_of_run {call : RegistrarCall} (h : c.run P tx call = .ok c') :
    Effect P call c c' := by
  cases call with
  | vault call =>
    simp only [run, bind_eq_ok, pure_eq_ok] at h
    obtain ⟨_, -, rfl⟩ := h
    exact .idle rfl rfl rfl
  | registerAggregate aggregateDigest firstHandId lastHandId pre post roots =>
    exact .registers aggregateDigest ⟨firstHandId, lastHandId, pre, post⟩ roots rfl
      (registerAggregate_eq_ok h)
  | settleHand aggregateDigest handId log players deltas =>
    exact .settles aggregateDigest handId log players deltas rfl (settleHand_eq_ok h)
  | setProver prover =>
    simp only [run, setProver, bind_eq_ok] at h
    obtain ⟨_, -, h⟩ := h
    split at h <;> obtain rfl := pure_eq_ok.mp h <;> exact .idle rfl rfl rfl
  | removeProver prover =>
    simp only [run, removeProver, bind_eq_ok, pure_eq_ok] at h
    obtain ⟨_, -, rfl⟩ := h
    exact .idle rfl rfl rfl

/-! ## Runs -/

/-- A step of a run. -/
abbrev CallStep := TransitionSystem.Step Registrar (Tx × RegistrarCall)

/-- Whether the call of a step was accepted. -/
def accepted (P : Primitives) (s : CallStep) : Bool := (s.before.run P s.label.1 s.label.2).isOk

/-- The ranges that a run registers, in order. -/
def ranges (P : Primitives) (steps : List CallStep) : List (ℕ × ℕ) :=
  steps.filterMap fun s => if accepted P s then s.label.2.range else none

/-- Whether a step settles a hand. -/
def settles (P : Primitives) (handId : ℕ) (s : CallStep) : Bool :=
  accepted P s && s.label.2.hand = some handId

/-- A reverted call leaves the state, an accepted one has its effect. -/
theorem effect_of_next {l : Tx × RegistrarCall} (h : (system P).next c l c') :
    accepted P ⟨c, l, c'⟩ = false ∧ c' = c ∨
      accepted P ⟨c, l, c'⟩ = true ∧ Effect P l.2 c c' := by
  obtain rfl : c' = c.attempt P l := h
  unfold attempt accepted
  cases hrun : c.run P l.1 l.2 with
  | error e => exact .inl ⟨rfl, rfl⟩
  | ok c₁ => exact .inr ⟨rfl, effect_of_run hrun⟩

variable {steps : List CallStep} {c₀ : Registrar}

theorem ranges_snoc {s : CallStep} : ranges P (steps ++ [s]) =
    ranges P steps ++ (if accepted P s then s.label.2.range else none).toList := by
  rw [ranges, List.filterMap_append, ← ranges, List.filterMap_cons, List.filterMap_nil]
  cases (if accepted P s then s.label.2.range else none) <;> rfl

/-- The maps of the contract follow the accepted calls of a run. -/
structure Tracks (P : Primitives) (steps : List CallStep) (c : Registrar) : Prop where
  ascending : (ranges P steps).Pairwise fun a b => a.2 < b.1
  nonempty : ∀ r ∈ ranges P steps, 0 < r.1 ∧ r.1 ≤ r.2 ∧ r.2 ≤ c.settlement.lastHandId
  registered : ∀ s ∈ steps, accepted P s = true → ∀ aggregateDigest a roots,
    s.label.2 = .registerAggregate aggregateDigest (Aggregate.firstHandId a) a.lastHandId
      a.preStateRoot a.postStateRoot roots →
    c.settlement.aggregates aggregateDigest = a ∧ roots.length = a.lastHandId - a.firstHandId + 1 ∧
      ∀ k root, roots[k]? = some root → c.settlement.settlementDigests (a.firstHandId + k) = root
  stored : ∀ aggregateDigest, (c.settlement.aggregates aggregateDigest).firstHandId ≠ 0 →
    ∃ s ∈ steps, accepted P s = true ∧ ∃ roots, s.label.2 = .registerAggregate aggregateDigest
      (c.settlement.aggregates aggregateDigest).firstHandId
      (c.settlement.aggregates aggregateDigest).lastHandId
      (c.settlement.aggregates aggregateDigest).preStateRoot
      (c.settlement.aggregates aggregateDigest).postStateRoot roots
  disjoint : ∀ d d' handId, (c.settlement.aggregates d).Contains handId →
    (c.settlement.aggregates d').Contains handId → d = d'
  below : ∀ d, (c.settlement.aggregates d).lastHandId ≤ c.settlement.lastHandId
  settled : ∀ handId, steps.countP (settles P handId) =
    if c.settlement.settledHands handId then 1 else 0

theorem tracks_init (h : (system P).init c₀) : Tracks P [] c₀ := by
  obtain ⟨custody, address, owner, prover, rfl⟩ := h
  constructor
  · exact .nil
  · simp [ranges]
  · simp
  · exact fun _ hne => absurd rfl hne
  · exact fun _ _ _ h => absurd rfl h.1
  · exact fun _ => le_rfl
  · exact fun _ => rfl

/-- A step that registers and settles nothing. -/
theorem Tracks.idle {s : CallStep} (h : Tracks P steps s.before)
    (hrange : accepted P s = true → s.label.2.range = none)
    (hhand : accepted P s = true → s.label.2.hand = none)
    (heq : hands s.after.settlement = hands s.before.settlement) :
    Tracks P (steps ++ [s]) s.after := by
  obtain ⟨haggs, hdigs, hsettled, hlast⟩ : s.after.settlement.aggregates = s.before.settlement.aggregates ∧
      s.after.settlement.settlementDigests = s.before.settlement.settlementDigests ∧
      s.after.settlement.settledHands = s.before.settlement.settledHands ∧
      s.after.settlement.lastHandId = s.before.settlement.lastHandId := by
    simpa [hands] using heq
  have hranges : ranges P (steps ++ [s]) = ranges P steps := by
    rw [ranges_snoc]
    by_cases ha : accepted P s = true
    · rw [if_pos ha, hrange ha, Option.toList_none, List.append_nil]
    · rw [if_neg ha, Option.toList_none, List.append_nil]
  constructor
  · rw [hranges]
    exact h.ascending
  · rw [hranges, hlast]
    exact h.nonempty
  · intro s' hs' ha d a roots hcall
    rw [haggs, hdigs]
    rcases List.mem_append.mp hs' with hs' | hs'
    · exact h.registered s' hs' ha d a roots hcall
    · obtain rfl := List.mem_singleton.mp hs'
      have := hrange ha
      rw [hcall] at this
      cases this
  · intro d
    rw [haggs]
    intro hne
    obtain ⟨s', hs', hreg⟩ := h.stored d hne
    exact ⟨s', List.mem_append_left _ hs', hreg⟩
  · rw [haggs]
    exact h.disjoint
  · rw [haggs, hlast]
    exact h.below
  · intro handId
    have hs : settles P handId s = false := by
      unfold settles
      by_cases ha : accepted P s = true
      · rw [hhand ha]
        simp
      · simp [ha]
    rw [List.countP_append, List.countP_singleton, if_neg (by simp [hs]), add_zero, hsettled]
    exact h.settled handId

/-- A registration above the last hand. -/
theorem Tracks.register {s : CallStep} {d : Felt × Felt} {a : Aggregate} {roots : List Felt}
    (h : Tracks P steps s.before) (ha : accepted P s = true)
    (hcall : s.label.2 = .registerAggregate d a.firstHandId a.lastHandId a.preStateRoot
      a.postStateRoot roots) (hreg : Registered d a roots s.before s.after) :
    Tracks P (steps ++ [s]) s.after := by
  have habove := hreg.above
  have hrange := hreg.range
  have hranges : ranges P (steps ++ [s]) = ranges P steps ++ [(a.firstHandId, a.lastHandId)] := by
    rw [ranges_snoc, if_pos ha, hcall]
    rfl
  have hother : ∀ d', d' ≠ d →
      s.after.settlement.aggregates d' = s.before.settlement.aggregates d' := by
    intro d' hne
    rw [hreg.aggregates]
    exact Function.update_of_ne hne ..
  have hself : s.after.settlement.aggregates d = a := by
    rw [hreg.aggregates]
    exact Function.update_self ..
  have hapart : ∀ d' handId, a.firstHandId ≤ handId →
      ¬ (s.before.settlement.aggregates d').Contains handId := by
    intro d' handId hle hc
    have := h.below d'
    have := hc.2.2
    omega
  constructor
  · rw [hranges]
    refine List.pairwise_append.mpr ⟨h.ascending, List.pairwise_singleton _ _, fun r hr r' hr' => ?_⟩
    rw [List.mem_singleton.mp hr']
    have := (h.nonempty r hr).2.2
    change r.2 < a.firstHandId
    omega
  · rw [hranges, hreg.lastHandId]
    intro r hr
    rcases List.mem_append.mp hr with hr | hr
    · obtain ⟨h₁, h₂, h₃⟩ := h.nonempty r hr
      exact ⟨h₁, h₂, by omega⟩
    · rw [List.mem_singleton.mp hr]
      exact ⟨by change 0 < a.firstHandId; omega, hrange, le_rfl⟩
  · intro s' hs' ha' d' a' roots' hcall'
    rcases List.mem_append.mp hs' with hs' | hs'
    · obtain ⟨hstored, hlen, hdigests⟩ := h.registered s' hs' ha' d' a' roots' hcall'
      have hmem : (a'.firstHandId, a'.lastHandId) ∈ ranges P steps := by
        refine List.mem_filterMap.mpr ⟨s', hs', ?_⟩
        rw [if_pos ha', hcall']
        rfl
      obtain ⟨hpos, hle, hlast⟩ := h.nonempty _ hmem
      have hne : d' ≠ d := by
        rintro rfl
        have hfresh := hreg.fresh
        rw [hstored] at hfresh
        exact hpos.ne' hfresh
      refine ⟨(hother d' hne).trans hstored, hlen, fun k root hk => ?_⟩
      obtain ⟨hlt, -⟩ := List.getElem?_eq_some_iff.mp hk
      dsimp only at hpos hle hlast
      rw [hreg.kept _ (.inl (by omega))]
      exact hdigests k root hk
    · obtain rfl := List.mem_singleton.mp hs'
      rw [hcall] at hcall'
      obtain ⟨rfl, h₁, h₂, h₃, h₄, rfl⟩ := RegistrarCall.registerAggregate.inj hcall'
      obtain rfl : a = a' := by
        cases a
        cases a'
        simp_all
      exact ⟨hself, hreg.roots, hreg.written⟩
  · intro d' hne
    by_cases hd : d' = d
    · subst hd
      rw [hself]
      exact ⟨s, List.mem_append_right _ (List.mem_singleton_self _), ha, roots, hcall⟩
    · rw [hother d' hd] at hne ⊢
      obtain ⟨s', hs', hreg'⟩ := h.stored d' hne
      exact ⟨s', List.mem_append_left _ hs', hreg'⟩
  · intro d₁ d₂ handId h₁ h₂
    by_cases hd₁ : d₁ = d
    · by_cases hd₂ : d₂ = d
      · rw [hd₁, hd₂]
      · rw [hd₁, hself] at h₁
        rw [hother d₂ hd₂] at h₂
        exact absurd h₂ (hapart d₂ handId h₁.2.1)
    · rw [hother d₁ hd₁] at h₁
      by_cases hd₂ : d₂ = d
      · rw [hd₂, hself] at h₂
        exact absurd h₁ (hapart d₁ handId h₂.2.1)
      · rw [hother d₂ hd₂] at h₂
        exact h.disjoint d₁ d₂ handId h₁ h₂
  · intro d'
    rw [hreg.lastHandId]
    by_cases hd : d' = d
    · rw [hd, hself]
    · rw [hother d' hd]
      have := h.below d'
      omega
  · intro handId
    have hs : settles P handId s = false := by
      unfold settles
      rw [hcall]
      simp [RegistrarCall.hand]
    rw [List.countP_append, List.countP_singleton, if_neg (by simp [hs]), add_zero,
      hreg.settledHands]
    exact h.settled handId

/-- A settlement marks one hand, which was open. -/
theorem Tracks.settle {s : CallStep} {d : Felt × Felt} {handId : ℕ} {log : Felt}
    {players : List ContractAddress} {deltas : List ℤ} (h : Tracks P steps s.before)
    (ha : accepted P s = true) (hcall : s.label.2 = .settleHand d handId log players deltas)
    (hset : Settled P d handId log players deltas s.before s.after) :
    Tracks P (steps ++ [s]) s.after := by
  have hranges : ranges P (steps ++ [s]) = ranges P steps := by
    rw [ranges_snoc, if_pos ha, hcall]
    exact List.append_nil _
  constructor
  · rw [hranges]
    exact h.ascending
  · rw [hranges, hset.lastHandId]
    exact h.nonempty
  · intro s' hs' ha' d' a' roots' hcall'
    rw [hset.aggregates, hset.settlementDigests]
    rcases List.mem_append.mp hs' with hs' | hs'
    · exact h.registered s' hs' ha' d' a' roots' hcall'
    · obtain rfl := List.mem_singleton.mp hs'
      rw [hcall] at hcall'
      cases hcall'
  · intro d'
    rw [hset.aggregates]
    intro hne
    obtain ⟨s', hs', hreg⟩ := h.stored d' hne
    exact ⟨s', List.mem_append_left _ hs', hreg⟩
  · rw [hset.aggregates]
    exact h.disjoint
  · rw [hset.aggregates, hset.lastHandId]
    exact h.below
  · intro i
    rw [List.countP_append, List.countP_singleton, h.settled i, hset.settledHands]
    unfold settles
    rw [ha, hcall]
    by_cases hi : i = handId
    · subst hi
      simp [RegistrarCall.hand, hset.fresh]
    · have hi' : ¬ handId = i := fun h => hi h.symm
      simp [RegistrarCall.hand, hi, hi']

/-- The contract keeps track of every run. -/
theorem tracks_of_run (hinit : (system P).init c₀) (h : (system P).Run c₀ steps c) :
    Tracks P steps c := by
  induction h with
  | nil => exact tracks_init hinit
  | snoc _ hn ih =>
    rename_i steps c c' l _
    rcases effect_of_next hn with ⟨ha, rfl⟩ | ⟨ha, heff⟩
    · exact ih.idle (s := ⟨c', l, c'⟩) (by simp [ha]) (by simp [ha]) rfl
    · cases heff with
      | registers d a roots hcall hreg => exact ih.register (s := ⟨c, l, c'⟩) ha hcall hreg
      | settles d handId log players deltas hcall hset =>
        exact ih.settle (s := ⟨c, l, c'⟩) ha hcall hset
      | idle hrange hhand heq => exact ih.idle (s := ⟨c, l, c'⟩) (fun _ => hrange) (fun _ => hhand) heq

/-! ## What a run settles -/

/-- Over a run that ends in `c`, hands are settled once and as registered. -/
structure SettlesOnce (P : Primitives) (steps : List CallStep) (c : Registrar) : Prop where
  ascending : (ranges P steps).Pairwise fun a b => a.2 < b.1
  nonempty : ∀ r ∈ ranges P steps, r.1 ≤ r.2
  disjoint : ∀ d d' handId, (c.settlement.aggregates d).Contains handId →
    (c.settlement.aggregates d').Contains handId → d = d'
  registered : ∀ s ∈ steps, accepted P s = true → ∀ d a roots,
    s.label.2 = .registerAggregate d (Aggregate.firstHandId a) a.lastHandId a.preStateRoot
      a.postStateRoot roots →
    c.settlement.aggregates d = a ∧
      ∀ k root, roots[k]? = some root → c.settlement.settlementDigests (a.firstHandId + k) = root
  locked : ∀ past s future, steps = past ++ s :: future → ∀ r ∈ ranges P past, ∀ handId,
    r.1 ≤ handId → handId ≤ r.2 →
      s.after.settlement.settlementDigests handId = s.before.settlement.settlementDigests handId
  once : ∀ handId, steps.countP (settles P handId) ≤ 1
  backed : ∀ past s future, steps = past ++ s :: future → accepted P s = true →
    ∀ d handId log players deltas, s.label.2 = .settleHand d handId log players deltas →
      players.length = deltas.length ∧ deltas.sum = 0 ∧
      (∀ d', (c.settlement.aggregates d').Contains handId ↔ d' = d) ∧
      ∃ r ∈ past, accepted P r = true ∧ ∃ a roots root,
        r.label.2 = .registerAggregate d (Aggregate.firstHandId a) a.lastHandId a.preStateRoot
          a.postStateRoot roots ∧ a.Contains handId ∧ roots[handId - a.firstHandId]? = some root ∧
        computeSettlementDigest P handId log players deltas = .ok root ∧
        c.settlement.settlementDigests handId = root
  plain : ∀ S : Set (List Felt), Set.InjOn P.poseidon S →
    ∀ handId log players deltas log' players' deltas',
      players.length = deltas.length → players'.length = deltas'.length →
      (Statement.ofPlaintext handId players deltas log).words ∈ S →
      (Statement.ofPlaintext handId players' deltas' log').words ∈ S →
      computeSettlementDigest P handId log players deltas =
        .ok (c.settlement.settlementDigests handId) →
      computeSettlementDigest P handId log' players' deltas' =
        .ok (c.settlement.settlementDigests handId) →
      players = players' ∧ deltas = deltas' ∧ log = log'
  reverted : ∀ s ∈ steps, accepted P s = false → s.after = s.before

/-- A hand that is registered has its own aggregate and root. -/
theorem Tracks.root_of_contains {d : Felt × Felt} (h : Tracks P steps c)
    (hc : (c.settlement.aggregates d).Contains handId) :
    ∃ r ∈ steps, accepted P r = true ∧ ∃ roots root, r.label.2 = .registerAggregate d
        (c.settlement.aggregates d).firstHandId (c.settlement.aggregates d).lastHandId
        (c.settlement.aggregates d).preStateRoot (c.settlement.aggregates d).postStateRoot roots ∧
      roots[handId - (c.settlement.aggregates d).firstHandId]? = some root ∧
      c.settlement.settlementDigests handId = root := by
  obtain ⟨r, hr, ha, roots, hcall⟩ := h.stored d hc.1
  obtain ⟨-, hlen, hdigests⟩ := h.registered r hr ha d _ roots hcall
  have hlt : handId - (c.settlement.aggregates d).firstHandId < roots.length := by
    rw [hlen]
    have := hc.2
    omega
  have hroot := List.getElem?_eq_getElem hlt
  have hdigest := hdigests _ _ hroot
  rw [Nat.add_sub_of_le hc.2.1] at hdigest
  exact ⟨r, hr, ha, roots, _, hcall, hroot, hdigest⟩

theorem digest_kept {s : CallStep} (h : Tracks P steps s.before)
    (hn : (system P).next s.before s.label s.after) {r : ℕ × ℕ} (hr : r ∈ ranges P steps)
    (hlast : handId ≤ r.2) :
    s.after.settlement.settlementDigests handId = s.before.settlement.settlementDigests handId := by
  rcases effect_of_next hn with ⟨-, heq⟩ | ⟨-, heff⟩
  · rw [heq]
  · cases heff with
    | registers d a roots hcall hreg =>
      have := (h.nonempty r hr).2.2
      have := hreg.above
      exact hreg.kept handId (.inl (by omega))
    | settles d handId' log players deltas hcall hset => rw [hset.settlementDigests]
    | idle hrange hhand heq => exact congrFun (congrArg (fun x => x.2.1) heq) handId

/-- The aggregate settlement contract settles what was registered, once. -/
theorem settles_once (hinit : (system P).init c₀) (h : (system P).Run c₀ steps c) :
    SettlesOnce P steps c := by
  have htracks := tracks_of_run hinit h
  constructor
  · exact htracks.ascending
  · exact fun r hr => (htracks.nonempty r hr).2.1
  · exact htracks.disjoint
  · intro s hs ha d a roots hcall
    obtain ⟨hstored, -, hdigests⟩ := htracks.registered s hs ha d a roots hcall
    exact ⟨hstored, hdigests⟩
  · rintro past s future rfl r hr handId - hlast
    obtain ⟨hpast, hn⟩ := h.split
    exact digest_kept (tracks_of_run hinit hpast) hn hr hlast
  · intro handId
    rw [htracks.settled handId]
    split <;> simp
  · rintro past s future rfl ha d handId log players deltas hcall
    obtain ⟨hpast, hn⟩ := h.split
    have hbefore := tracks_of_run hinit hpast
    rcases effect_of_next hn with ⟨hna, -⟩ | ⟨-, heff⟩
    · rw [show accepted P s = false from hna] at ha
      cases ha
    cases heff with
    | registers d' a roots hcall' hreg =>
      rw [hcall] at hcall'
      cases hcall'
    | idle hrange hhand heq =>
      rw [hcall] at hhand
      cases hhand
    | settles d' handId' log' players' deltas' hcall' hset =>
      rw [hcall] at hcall'
      cases hcall'
      obtain ⟨r, hr, har, roots, root, hcallr, hroot, hdigest⟩ :=
        hbefore.root_of_contains hset.contains
      obtain ⟨hstored, -, hfinal⟩ := htracks.registered r (List.mem_append_left _ hr) har d _ roots
        hcallr
      have hcontains : (c.settlement.aggregates d).Contains handId := by
        rw [hstored]
        exact hset.contains
      have hroot' := hfinal _ _ hroot
      rw [Nat.add_sub_of_le hset.contains.2.1] at hroot'
      refine ⟨hset.lengths, hset.zeroSum, fun d' => ⟨fun hd' => ?_, fun hd' => ?_⟩, r, hr, har, _,
        roots, root, hcallr, hset.contains, hroot, ?_, hroot'⟩
      · exact htracks.disjoint d' d handId hd' hcontains
      · rw [hd']
        exact hcontains
      · rw [hset.digest, hdigest]
  · intro S hS handId log players deltas log' players' deltas' hlen hlen' hmem hmem' hd hd'
    obtain ⟨hall, hdigest⟩ := computeSettlementDigest_eq_ok hd
    obtain ⟨hall', hdigest'⟩ := computeSettlementDigest_eq_ok hd'
    have heq := Chain.digest_injOn hS hmem hmem' (hdigest.trans hdigest'.symm)
    have hzip := map_ofDelta_injective hall hall' (congrArg Statement.entries heq)
    refine ⟨?_, ?_, congrArg Statement.actionLogDigest heq⟩
    · rw [← List.map_fst_zip hlen.le, ← List.map_fst_zip hlen'.le, hzip]
    · rw [← List.map_snd_zip hlen.ge, ← List.map_snd_zip hlen'.ge, hzip]
  · intro s hs ha
    obtain ⟨past, future, rfl⟩ := List.append_of_mem hs
    rcases effect_of_next h.split.2 with ⟨-, heq⟩ | ⟨hna, -⟩
    · exact heq
    · rw [show accepted P s = true from hna] at ha
      cases ha

/-- The state after calls made one after another. -/
def attemptAll (P : Primitives) (c : Registrar) (calls : List (Tx × RegistrarCall)) : Registrar :=
  calls.foldl (attempt P) c

theorem run_attemptAll (calls : List (Tx × RegistrarCall)) :
    ∃ steps, (system P).Run c steps (c.attemptAll P calls) := by
  induction calls using List.reverseRecOn with
  | nil => exact ⟨[], .nil⟩
  | append_singleton calls l ih =>
    obtain ⟨steps, h⟩ := ih
    have hlast : c.attemptAll P (calls ++ [l]) = (c.attemptAll P calls).attempt P l :=
      List.foldl_concat ..
    exact ⟨_, .snoc h hlast⟩

/-- The contract beside the vault of players nine and ten; prover six. -/
def deployed : Registrar := ⟨Chain.deployed.custody, 4, .constructor 5 6⟩

/-- Both buy in, their hand is registered and settled, and settling it again reverts. -/
def settledRun : List (Tx × RegistrarCall) :=
  [(⟨9, 0, []⟩, .vault (.deposit 1000)), (⟨10, 0, []⟩, .vault (.deposit 1000)),
    (⟨6, 0, []⟩, .registerAggregate (7, 0) 1 1 (0, 0) (0, 0) [Chain.handDigest]),
    (⟨6, 0, []⟩, .settleHand (7, 0) 1 11 [9, 10] [1000, -1000]),
    (⟨6, 0, []⟩, .settleHand (7, 0) 1 11 [9, 10] [1000, -1000])]

theorem settledRun_settles_once : ∃ steps c, (system Chain.toyPrimitives).Run deployed steps c ∧
    c.settlement.settledHands 1 = true ∧ c.custody.vault.chipBalances 9 = 2000 ∧
    SettlesOnce Chain.toyPrimitives steps c := by
  obtain ⟨steps, h⟩ := run_attemptAll (P := Chain.toyPrimitives) (c := deployed) settledRun
  have hend : (deployed.attemptAll Chain.toyPrimitives settledRun).settlement.settledHands 1 = true ∧
      (deployed.attemptAll Chain.toyPrimitives settledRun).custody.vault.chipBalances 9 = 2000 := by
    decide +kernel
  exact ⟨steps, _, h, hend.1, hend.2, settles_once ⟨_, _, _, _, rfl⟩ h⟩

end Registrar

end TexasPoker.Contracts
