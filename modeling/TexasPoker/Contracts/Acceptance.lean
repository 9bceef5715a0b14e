import Mathlib.Data.Set.List
import TexasPoker.Contracts.ActionLog

/-! # What the settlement circuit accepts

The circuit accepts a log word that names an action, with a legality word that is empty or
lawful as the circuit reads it. The accepted inputs are described exactly.
-/

namespace TexasPoker.Contracts

open Fallible

/-! ## One entry of the log -/

/-- What the circuit asks of an entry. -/
structure ActionOk (count : ℕ) (words : List Felt) (i : ℕ) : Prop where
  log_lt : (slot words (2 * i)).1 / u128Bound < logMaxHigh
  name : i < count → (slot words (2 * i)).1 % 2 ^ 40 ∈ actionNames
  auto : i < count → (slot words (2 * i)).1 / 2 ^ 40 % p2_4 % 2 = 1 →
    assertLawfulDefault (slot words (2 * i + 1)) = .ok ()
  plain : i < count → (slot words (2 * i)).1 / 2 ^ 40 % p2_4 % 2 ≠ 1 →
    slot words (2 * i + 1) = 0
  padding : ¬ i < count → slot words (2 * i) = 0 ∧ slot words (2 * i + 1) = 0

variable {count n i : ℕ} {words absorbed absorbed' : List Felt} {leg : Felt}

theorem absorbAction_eq_ok : absorbAction count words absorbed i = .ok absorbed' ↔
    ActionOk count words i ∧
      (if i < count then absorbed ++ [slot words (2 * i)] else absorbed) = absorbed' := by
  unfold absorbAction
  dsimp only
  by_cases hi : i < count
  · simp only [if_pos hi]
    constructor
    · intro h
      obtain ⟨_, hlog, h⟩ := bind_eq_ok.mp h
      obtain ⟨_, hname, h⟩ := bind_eq_ok.mp h
      by_cases hauto : (slot words (2 * i)).1 / 2 ^ 40 % p2_4 % 2 = 1
      · rw [if_pos hauto] at h
        obtain ⟨_, hleg, h⟩ := bind_eq_ok.mp h
        exact ⟨⟨ensure_eq_ok.mp hlog, fun _ => ensure_eq_ok.mp hname, fun _ _ => hleg,
          fun _ hn => absurd hauto hn, fun hn => absurd hi hn⟩, pure_eq_ok.mp h⟩
      · rw [if_neg hauto] at h
        obtain ⟨_, hleg, h⟩ := bind_eq_ok.mp h
        exact ⟨⟨ensure_eq_ok.mp hlog, fun _ => ensure_eq_ok.mp hname, fun _ ha => absurd ha hauto,
          fun _ _ => ensure_eq_ok.mp hleg, fun hn => absurd hi hn⟩, pure_eq_ok.mp h⟩
    · rintro ⟨hok, rfl⟩
      refine bind_eq_ok.mpr ⟨(), ensure_pos hok.log_lt, ?_⟩
      refine bind_eq_ok.mpr ⟨(), ensure_pos (hok.name hi), ?_⟩
      by_cases hauto : (slot words (2 * i)).1 / 2 ^ 40 % p2_4 % 2 = 1
      · rw [if_pos hauto]
        exact bind_eq_ok.mpr ⟨(), hok.auto hi hauto, rfl⟩
      · rw [if_neg hauto]
        exact bind_eq_ok.mpr ⟨(), ensure_pos (hok.plain hi hauto), rfl⟩
  · simp only [if_neg hi]
    constructor
    · intro h
      obtain ⟨_, hlog, h⟩ := bind_eq_ok.mp h
      obtain ⟨_, hzero, h⟩ := bind_eq_ok.mp h
      obtain ⟨_, hleg, h⟩ := bind_eq_ok.mp h
      exact ⟨⟨ensure_eq_ok.mp hlog, fun h => absurd h hi, fun h => absurd h hi,
        fun h => absurd h hi, fun _ => ⟨ensure_eq_ok.mp hzero, ensure_eq_ok.mp hleg⟩⟩,
        pure_eq_ok.mp h⟩
    · rintro ⟨hok, rfl⟩
      refine bind_eq_ok.mpr ⟨(), ensure_pos hok.log_lt, ?_⟩
      refine bind_eq_ok.mpr ⟨(), ensure_pos (hok.padding hi).1, ?_⟩
      exact bind_eq_ok.mpr ⟨(), ensure_pos (hok.padding hi).2, rfl⟩

theorem map_range_min_succ {α : Type} {f : ℕ → α} :
    (List.range (min (n + 1) count)).map f = if n < count then
      (List.range (min n count)).map f ++ [f n] else (List.range (min n count)).map f := by
  split
  · rename_i hn
    rw [min_eq_left (Nat.succ_le_of_lt hn), min_eq_left hn.le, List.range_succ, List.map_append,
      List.map_singleton]
  · rename_i hn
    rw [min_eq_right (by omega), min_eq_right (not_lt.mp hn)]

/-- The replay absorbs the log words of the used entries. -/
theorem foldlM_absorbAction : (List.range n).foldlM (absorbAction count words) [] = .ok absorbed ↔
    (∀ i < n, ActionOk count words i) ∧
      (List.range (min n count)).map (fun i => slot words (2 * i)) = absorbed := by
  induction n generalizing absorbed with
  | zero => simp
  | succ n ih =>
    rw [List.range_succ, List.foldlM_append, bind_eq_ok, map_range_min_succ]
    simp only [List.foldlM_cons, List.foldlM_nil, bind_pure, ih, absorbAction_eq_ok]
    constructor
    · rintro ⟨_, ⟨hall, rfl⟩, hok, rfl⟩
      refine ⟨fun i hi => ?_, rfl⟩
      rcases Nat.lt_succ_iff_lt_or_eq.mp hi with hi | rfl
      exacts [hall i hi, hok]
    · rintro ⟨hall, rfl⟩
      exact ⟨_, ⟨fun i hi => hall i (hi.trans n.lt_succ_self), rfl⟩, hall n n.lt_succ_self, rfl⟩

/-! ## The lawful default -/

/-- The default for the bets of a legality word whose kind has the radix `r`. -/
def defaultAt (r leg : ℕ) : Option AutoActionKind :=
  legalAutoAction (leg / r % u64Bound) (leg / r / u64Bound % u64Bound)
    (leg / r / u64Bound / u64Bound)

theorem AutoActionKind.kindCode_lt {k : AutoActionKind} : k.name.kindCode < 3 := by
  cases k <;> decide

/-- The circuit reads the bets above the fourth bit of a legality word. -/
theorem assertLawfulDefault_eq_ok : assertLawfulDefault leg = .ok () ↔
    leg.1 < 2 ^ 194 ∧ ∃ k, defaultAt p2_4 leg.1 = some k ∧ leg.1 % p2_4 = k.name.kindCode := by
  have hrange : leg.1 / u128Bound < legMaxHigh ↔ leg.1 < 2 ^ 194 :=
    Nat.div_lt_iff_lt_mul (by decide)
  unfold assertLawfulDefault defaultAt legalAutoAction
  dsimp only
  split_ifs
  · simp [hrange, AutoActionKind.name, ActionName.kindCode]
    omega
  · simp [hrange, AutoActionKind.name, ActionName.kindCode]
    omega
  · simp [hrange, AutoActionKind.name, ActionName.kindCode]
    omega

/-! ## The accepted inputs -/

/-- The log words of the entries that count. -/
def SettlementInputs.loggedWords (inputs : SettlementInputs) : List Felt :=
  (List.range inputs.actionCount.1).map fun i => slot inputs.words (2 * i)

/-- The segment of accepted inputs. -/
def circuitSegment (P : Primitives) (inputs : SettlementInputs) : List Felt :=
  [settlementSegmentMagic, inputs.handId, inputs.registeredDigest, inputs.nExpected,
    inputs.handBinding] ++ (inputs.entries.zip inputs.commitments).map
      (circuitClaim P inputs.handBinding) ++
    [circuitTotal inputs.entries, inputs.actionLogDigest]

/-- What the circuit asks of its inputs. -/
structure Accepts (P : Primitives) (inputs : SettlementInputs) : Prop where
  digest : inputs.statement.digest P = inputs.registeredDigest
  count : inputs.actionCount.1 ≤ maxActions
  actions : ∀ i < maxActions, ActionOk inputs.actionCount.1 inputs.words i
  chain : P.poseidon (actionLogDomain :: inputs.loggedWords) = inputs.actionLogDigest
  signs : ∀ e ∈ inputs.entries, e.sign * (e.sign - 1) = 0
  magnitudes : ∀ e ∈ inputs.entries, e.magnitude.1 < u64Bound
  zeroSum : inputs.entries.foldl
    (fun sum e => if e.sign = 1 then sum + e.magnitude else sum - e.magnitude) 0 = 0
  expected : natFelt (inputs.entries.countP fun e => e.magnitude ≠ 0) = inputs.nExpected

variable {P : Primitives} {inputs : SettlementInputs} {segment : List Felt}

theorem settlementPrivate_eq_ok : settlementPrivate P inputs = .ok segment ↔
    Accepts P inputs ∧ circuitSegment P inputs = segment := by
  have hwords : inputs.actionCount.1 ≤ maxActions →
      (List.range (min maxActions inputs.actionCount.1)).map (fun i => slot inputs.words (2 * i)) =
        inputs.loggedWords := by
    intro h
    rw [min_eq_right h]
    rfl
  unfold settlementPrivate
  constructor
  · intro h
    obtain ⟨_, hdigest, h⟩ := bind_eq_ok.mp h
    obtain ⟨_, -, h⟩ := bind_eq_ok.mp h
    obtain ⟨_, hcount, h⟩ := bind_eq_ok.mp h
    obtain ⟨_, hfold, h⟩ := bind_eq_ok.mp h
    obtain ⟨hactions, rfl⟩ := foldlM_absorbAction.mp hfold
    rw [hwords (ensure_eq_ok.mp hcount)] at h
    obtain ⟨_, hchain, h⟩ := bind_eq_ok.mp h
    obtain ⟨_, hform, h⟩ := bind_eq_ok.mp h
    obtain ⟨_, hsum, h⟩ := bind_eq_ok.mp h
    obtain ⟨_, hexpected, h⟩ := bind_eq_ok.mp h
    have hforms : ∀ e ∈ inputs.entries, e.sign * (e.sign - 1) = 0 ∧ e.magnitude.1 < u64Bound := by
      intro e he
      obtain ⟨_, hsign, hmag⟩ := bind_eq_ok.mp (forM_eq_ok.mp hform e he)
      exact ⟨ensure_eq_ok.mp hsign, ensure_eq_ok.mp hmag⟩
    exact ⟨⟨ensure_eq_ok.mp hdigest, ensure_eq_ok.mp hcount, hactions, ensure_eq_ok.mp hchain,
      fun e he => (hforms e he).1, fun e he => (hforms e he).2, ensure_eq_ok.mp hsum,
      ensure_eq_ok.mp hexpected⟩, pure_eq_ok.mp h⟩
  · rintro ⟨ha, rfl⟩
    have hu32 : inputs.actionCount.1 < u32Bound := ha.count.trans_lt (by decide)
    refine bind_eq_ok.mpr ⟨(), ensure_pos ha.digest, ?_⟩
    refine bind_eq_ok.mpr ⟨(), ensure_pos hu32, ?_⟩
    refine bind_eq_ok.mpr ⟨(), ensure_pos ha.count, ?_⟩
    refine bind_eq_ok.mpr ⟨_, foldlM_absorbAction.mpr ⟨ha.actions, rfl⟩, ?_⟩
    rw [hwords ha.count]
    refine bind_eq_ok.mpr ⟨(), ensure_pos ha.chain, ?_⟩
    refine bind_eq_ok.mpr ⟨(), forM_eq_ok.mpr fun e he => ?_, ?_⟩
    · exact bind_eq_ok.mpr ⟨(), ensure_pos (ha.signs e he), ensure_pos (ha.magnitudes e he)⟩
    refine bind_eq_ok.mpr ⟨(), ensure_pos ha.zeroSum, ?_⟩
    exact bind_eq_ok.mpr ⟨(), ensure_pos ha.expected, rfl⟩

end TexasPoker.Contracts
