import Mathlib.Algebra.Order.BigOperators.Group.List
import Mathlib.Algebra.Order.Group.Nat
import TexasPoker.Contracts.DualSettlement

/-! # Settlement statements

What a settlement digest says about a hand, and the circuit that proves a public segment
from such a statement.
-/

namespace TexasPoker.Contracts

open Fallible

/-- One result of a hand as the digest lists it. -/
structure Entry where
  player : Felt
  sign : Felt
  magnitude : Felt
  deriving DecidableEq

def Entry.words (e : Entry) : List Felt := [e.player, e.sign, e.magnitude]

/-- The result with its sign. -/
def Entry.delta (e : Entry) : ℤ := if e.sign = 1 then e.magnitude.1 else -e.magnitude.1

/-- The entry of a plain result. -/
def Entry.ofDelta (e : ContractAddress × ℤ) : Entry :=
  ⟨addressFelt e.1, if 0 ≤ e.2 then 1 else 0, natFelt e.2.natAbs⟩

/-- What a settlement digest commits to. -/
structure Statement where
  handId : Felt
  entries : List Entry
  actionLogDigest : Felt
  deriving DecidableEq

namespace Statement

def words (s : Statement) : List Felt :=
  s.handId :: (s.entries.flatMap Entry.words ++ [s.actionLogDigest])

def digest (P : Primitives) (s : Statement) : Felt := P.poseidon s.words

/-- What the winners win together. -/
def winnings (s : Statement) : ℕ := (s.entries.map fun e => e.delta.toNat).sum

/-- What an account gains when `f` is applied to every result. -/
def gain (s : Statement) (f : ℤ → ℤ) (account : ContractAddress) : ℤ :=
  (s.entries.map fun e => if e.player = addressFelt account then f e.delta else 0).sum

/-- The statement of plain results. -/
def ofPlaintext (handId : ℕ) (players : List ContractAddress) (deltas : List ℤ)
    (actionLogDigest : Felt) : Statement where
  handId := natFelt handId
  entries := (players.zip deltas).map Entry.ofDelta
  actionLogDigest

end Statement

/-! ## Statements are told apart by their words -/

@[simp] theorem length_flatMap_words (entries : List Entry) :
    (entries.flatMap Entry.words).length = 3 * entries.length := by
  induction entries with
  | nil => rfl
  | cons e entries ih =>
    rw [List.flatMap_cons, List.length_append, ih, List.length_cons]
    simp only [Entry.words, List.length_cons, List.length_nil]
    omega

theorem flatMap_words_injective : Function.Injective (List.flatMap Entry.words) := by
  intro entries entries' h
  induction entries generalizing entries' with
  | nil =>
    cases entries' with
    | nil => rfl
    | cons e entries' => simp [Entry.words] at h
  | cons e entries ih =>
    cases entries' with
    | nil => simp [Entry.words] at h
    | cons e' entries' =>
      obtain ⟨player, sign, magnitude⟩ := e
      obtain ⟨player', sign', magnitude'⟩ := e'
      simp only [List.flatMap_cons, Entry.words, List.cons_append, List.nil_append,
        List.cons.injEq] at h
      obtain ⟨rfl, rfl, rfl, h⟩ := h
      rw [ih h]

/-- The number of words tells the number of entries. -/
theorem Statement.words_injective : Function.Injective Statement.words := by
  rintro ⟨handId, entries, actionLogDigest⟩ ⟨handId', entries', actionLogDigest'⟩ h
  simp only [Statement.words, List.cons.injEq] at h
  obtain ⟨rfl, h⟩ := h
  obtain ⟨hentries, hlog⟩ := List.append_inj' h rfl
  cases flatMap_words_injective hentries
  cases hlog
  rfl

theorem addressFelt_injective : Function.Injective addressFelt := by
  intro a b h
  have hlt : 2 ^ 251 ≤ feltPrime := by decide
  have hval : a.1 % feltPrime = b.1 % feltPrime := congrArg Fin.val h
  rw [Nat.mod_eq_of_lt (a.2.trans_le hlt), Nat.mod_eq_of_lt (b.2.trans_le hlt)] at hval
  exact Fin.ext hval

theorem u64Bound_lt : u64Bound < feltPrime := by decide

theorem natFelt_val_of_lt {n : ℕ} (h : n < u64Bound) : (natFelt n).1 = n :=
  Nat.mod_eq_of_lt (h.trans u64Bound_lt)

theorem delta_ofDelta {e : ContractAddress × ℤ} (h : e.2.natAbs < u64Bound) :
    (Entry.ofDelta e).delta = e.2 := by
  unfold Entry.ofDelta Entry.delta
  rw [natFelt_val_of_lt h]
  by_cases hpos : 0 ≤ e.2
  · rw [if_pos hpos, if_pos rfl]
    omega
  · rw [if_neg hpos, if_neg (show ¬ (0 : Felt) = 1 by decide)]
    omega

/-- A result can be read back from its entry. -/
theorem ofDelta_injective {e e' : ContractAddress × ℤ} (h : e.2.natAbs < u64Bound)
    (h' : e'.2.natAbs < u64Bound) (heq : Entry.ofDelta e = Entry.ofDelta e') : e = e' := by
  apply Prod.ext
  · exact addressFelt_injective (congrArg Entry.player heq)
  · rw [← delta_ofDelta h, ← delta_ofDelta h', heq]

/-- The arguments of a plaintext settlement, whose hand number has 64 bits. -/
structure Plain (handId : ℕ) (players : List ContractAddress) (deltas : List ℤ) : Prop where
  handId : handId < u64Bound
  lengths : players.length = deltas.length
  deltas : ∀ e ∈ players.zip deltas, e.2.natAbs < u64Bound

theorem map_ofDelta_injective {l l' : List (ContractAddress × ℤ)}
    (h : ∀ e ∈ l, e.2.natAbs < u64Bound) (h' : ∀ e ∈ l', e.2.natAbs < u64Bound)
    (heq : l.map Entry.ofDelta = l'.map Entry.ofDelta) : l = l' := by
  induction l generalizing l' with
  | nil =>
    cases l' with
    | nil => rfl
    | cons e' l' => simp at heq
  | cons e l ih =>
    cases l' with
    | nil => simp at heq
    | cons e' l' =>
      rw [List.forall_mem_cons] at h h'
      rw [List.map_cons, List.map_cons, List.cons.injEq] at heq
      rw [ofDelta_injective h.1 h'.1 heq.1, ih h.2 h'.2 heq.2]

/-- A statement of plain results tells what they are. -/
theorem ofPlaintext_injective {handId handId' : ℕ} {players players' : List ContractAddress}
    {deltas deltas' : List ℤ} {log log' : Felt} (h : Plain handId players deltas)
    (h' : Plain handId' players' deltas')
    (heq : Statement.ofPlaintext handId players deltas log =
      Statement.ofPlaintext handId' players' deltas' log') :
    handId = handId' ∧ players = players' ∧ deltas = deltas' ∧ log = log' := by
  have hzip := map_ofDelta_injective h.deltas h'.deltas (congrArg Statement.entries heq)
  have hid := congrArg (fun s => (Statement.handId s).1) heq
  simp only [Statement.ofPlaintext, natFelt_val_of_lt h.handId, natFelt_val_of_lt h'.handId] at hid
  refine ⟨hid, ?_, ?_, congrArg Statement.actionLogDigest heq⟩
  · rw [← List.map_fst_zip h.lengths.le, ← List.map_fst_zip h'.lengths.le, hzip]
  · rw [← List.map_snd_zip h.lengths.ge, ← List.map_snd_zip h'.lengths.ge, hzip]

theorem deltaFelts_eq_ok {delta : ℤ} {words : List Felt} :
    deltaFelts delta = .ok words ↔
      delta.natAbs < u64Bound ∧ words = [if 0 ≤ delta then 1 else 0, natFelt delta.natAbs] := by
  simp only [deltaFelts, Fallible.bind_eq_ok, Fallible.ensure_eq_ok, Fallible.pure_eq_ok]
  constructor
  · rintro ⟨_, h, rfl⟩
    exact ⟨h, rfl⟩
  · rintro ⟨h, rfl⟩
    exact ⟨(), h, rfl⟩

theorem mapM_words_eq_ok {l : List (ContractAddress × ℤ)} {results : List (List Felt)}
    (h : (l.mapM fun e => do
      return addressFelt e.1 :: (← deltaFelts e.2)) = (Except.ok results : Revert _)) :
    (∀ e ∈ l, e.2.natAbs < u64Bound) ∧ results.flatten = (l.map Entry.ofDelta).flatMap Entry.words := by
  induction l generalizing results with
  | nil =>
    obtain rfl : [] = results := by simpa using h
    exact ⟨by simp, rfl⟩
  | cons e l ih =>
    simp only [List.mapM_cons, bind_eq_ok, pure_eq_ok, deltaFelts_eq_ok] at h
    obtain ⟨_, ⟨_, ⟨hlt, rfl⟩, rfl⟩, rest, hrest, rfl⟩ := h
    obtain ⟨hall, hflat⟩ := ih hrest
    rw [List.forall_mem_cons, List.flatten_cons, hflat]
    exact ⟨⟨hlt, hall⟩, rfl⟩

theorem mapM_words_of_lt {l : List (ContractAddress × ℤ)} (h : ∀ e ∈ l, e.2.natAbs < u64Bound) :
    (l.mapM fun e => do return addressFelt e.1 :: (← deltaFelts e.2)) =
      (Except.ok (l.map fun e => (Entry.ofDelta e).words) : Revert _) := by
  induction l with
  | nil => rfl
  | cons e l ih =>
    rw [List.forall_mem_cons] at h
    have hdelta := deltaFelts_eq_ok.mpr ⟨h.1, rfl⟩
    rw [List.mapM_cons, ih h.2, hdelta]
    rfl

/-- Results of 64 bits have a digest. -/
theorem computeSettlementDigest_of_lt {P : Primitives} {handId : ℕ} {log : Felt}
    {players : List ContractAddress} {deltas : List ℤ}
    (h : ∀ e ∈ players.zip deltas, e.2.natAbs < u64Bound) :
    computeSettlementDigest P handId log players deltas =
      .ok ((Statement.ofPlaintext handId players deltas log).digest P) := by
  have hwords := mapM_words_of_lt h
  refine bind_eq_ok.mpr ⟨_, hwords, ?_⟩
  rw [pure_eq_ok, Statement.digest, Statement.words, Statement.ofPlaintext, List.flatMap_map,
    List.flatMap_def]

/-- The contract computes the digest of the statement of its arguments. -/
theorem computeSettlementDigest_eq_ok {P : Primitives} {handId : ℕ} {log digest : Felt}
    {players : List ContractAddress} {deltas : List ℤ}
    (h : computeSettlementDigest P handId log players deltas = .ok digest) :
    (∀ e ∈ players.zip deltas, e.2.natAbs < u64Bound) ∧
      (Statement.ofPlaintext handId players deltas log).digest P = digest := by
  simp only [computeSettlementDigest, bind_eq_ok, pure_eq_ok] at h
  obtain ⟨results, hresults, rfl⟩ := h
  obtain ⟨hall, hflat⟩ := mapM_words_eq_ok hresults
  exact ⟨hall, by rw [hflat]; rfl⟩

/-! ## The circuit -/

/-- The participants of a private settlement. -/
def nPlayers : ℕ := 8

/-- The entries of an action log that a proof can hold. -/
def maxActions : ℕ := 30

def actionLogDomain : Felt :=
  natFelt 0x11b4269299cbd19c8d701730e13001ca46cbdd2d7a74ba25d7b30be4258fa6e

/-- The names of the actions. -/
def actionNames : List ℕ := [0x464F4C44, 0x434845434B, 0x43414C4C, 0x5241495345]

def logMaxHigh : ℕ := 0x400000000000000000000

def legMaxHigh : ℕ := 0x40000000000000000

/-- The arguments of the circuit. -/
structure SettlementInputs where
  handId : Felt
  registeredDigest : Felt
  nExpected : Felt
  handBinding : Felt
  entries : List Entry
  commitments : List Felt
  actionLogDigest : Felt
  actionCount : Felt
  words : List Felt
  length_entries : entries.length = nPlayers
  length_commitments : commitments.length = nPlayers
  length_words : words.length = 2 * maxActions

def SettlementInputs.statement (inputs : SettlementInputs) : Statement :=
  ⟨inputs.handId, inputs.entries, inputs.actionLogDigest⟩

/-- The divisor of the low fields, named for the fourth power of two. -/
def p2_4 : ℕ := 16

/-- An action that the server made for a player has to be the lawful default. -/
def assertLawfulDefault (leg : Felt) : Revert Unit := do
  ensure (leg.1 / u128Bound < legMaxHigh) "LEG_OVER_194BIT"
  let kind := leg.1 % p2_4
  let owed := leg.1 / p2_4 % u64Bound
  let myBet := leg.1 / p2_4 / u64Bound % u64Bound
  let bigBlind := leg.1 / p2_4 / u64Bound / u64Bound
  ensure (kind ≠ 3) "BAD_AUTO_KIND"
  if owed = 0 ∨ owed ≤ myBet then
    ensure (kind = 0) "AUTO_CHECK_REQUIRED"
  else if owed - myBet ≤ bigBlind then
    ensure (kind = 1) "AUTO_CALL_REQUIRED"
  else
    ensure (kind = 2) "AUTO_FOLD_REQUIRED"

/-- One entry of the action log; a used entry is absorbed into the chain. -/
def absorbAction (count : ℕ) (words : List Felt) (absorbed : List Felt) (i : ℕ) :
    Revert (List Felt) := do
  let log := slot words (2 * i)
  let leg := slot words (2 * i + 1)
  ensure (log.1 / u128Bound < logMaxHigh) "LOG_OVER_202BIT"
  if i < count then
    let action := log.1 % 2 ^ 40
    let auto := log.1 / 2 ^ 40 % p2_4 % 2
    ensure (action ∈ actionNames) "BAD_ACTION"
    if auto = 1 then
      assertLawfulDefault leg
    else
      ensure (leg = 0) "NON_AUTO_LEGALITY_ZERO"
    return absorbed ++ [log]
  else
    ensure (log = 0) "PADDING_NOT_ZERO"
    ensure (leg = 0) "PADDING_NOT_ZERO"
    return absorbed

/-- The claim that the segment publishes for a participant. -/
def circuitClaim (P : Primitives) (handBinding : Felt) (e : Entry × Felt) : Felt :=
  if e.1.sign = 1 then
    if e.1.magnitude ≠ 0 then P.poseidon [e.2, handBinding, e.1.magnitude, 0] else 0
  else 0

/-- The public segment of a private settlement. -/
def settlementPrivate (P : Primitives) (inputs : SettlementInputs) : Revert (List Felt) := do
  ensure (inputs.statement.digest P = inputs.registeredDigest) "DIGEST_MISMATCH"
  ensure (inputs.actionCount.1 < u32Bound) "COUNT_NOT_USIZE"
  ensure (inputs.actionCount.1 ≤ maxActions) "COUNT_OVER_30"
  let absorbed ←
    (List.range maxActions).foldlM (absorbAction inputs.actionCount.1 inputs.words) []
  ensure (P.poseidon (actionLogDomain :: absorbed) = inputs.actionLogDigest) "ACTION_CHAIN_MISMATCH"
  inputs.entries.forM fun e => do
    ensure (e.sign * (e.sign - 1) = 0) "SIGN_NOT_BOOL"
    ensure (e.magnitude.1 < u64Bound) "MAGNITUDE_OVER_U64"
  let sum := inputs.entries.foldl
    (fun sum e => if e.sign = 1 then sum + e.magnitude else sum - e.magnitude) 0
  ensure (sum = 0) "NOT_ZERO_SUM"
  ensure (natFelt (inputs.entries.countP fun e => e.magnitude ≠ 0) = inputs.nExpected)
    "COUNT_MISMATCH"
  let cms := (inputs.entries.zip inputs.commitments).map (circuitClaim P inputs.handBinding)
  let totalWinnings := inputs.entries.foldl
    (fun total e => if e.sign = 1 ∧ e.magnitude ≠ 0 then total + e.magnitude else total) 0
  return [settlementSegmentMagic, inputs.handId, inputs.registeredDigest, inputs.nExpected,
    inputs.handBinding] ++ cms ++ [totalWinnings, inputs.actionLogDigest]

variable {P : Primitives} {inputs : SettlementInputs} {segment : List Felt}

/-- The total that the circuit publishes. -/
def circuitTotal (entries : List Entry) : Felt :=
  entries.foldl
    (fun total e => if e.sign = 1 ∧ e.magnitude ≠ 0 then total + e.magnitude else total) 0

/-- What the circuit has checked of the segment it returns. -/
structure Proves (P : Primitives) (inputs : SettlementInputs) (segment : List Felt) : Prop where
  digest : inputs.statement.digest P = inputs.registeredDigest
  magnitudes : ∀ e ∈ inputs.entries, e.magnitude.1 < u64Bound
  segment : segment = [settlementSegmentMagic, inputs.handId, inputs.registeredDigest,
    inputs.nExpected, inputs.handBinding] ++
      ((inputs.entries.zip inputs.commitments).map (circuitClaim P inputs.handBinding) ++
        [circuitTotal inputs.entries, inputs.actionLogDigest])

theorem proves_of_settlementPrivate (h : settlementPrivate P inputs = .ok segment) :
    Proves P inputs segment := by
  unfold settlementPrivate at h
  obtain ⟨_, hdigest, h⟩ := bind_eq_ok.mp h
  obtain ⟨_, -, h⟩ := bind_eq_ok.mp h
  obtain ⟨_, -, h⟩ := bind_eq_ok.mp h
  obtain ⟨_, -, h⟩ := bind_eq_ok.mp h
  obtain ⟨_, -, h⟩ := bind_eq_ok.mp h
  obtain ⟨_, hform, h⟩ := bind_eq_ok.mp h
  obtain ⟨_, -, h⟩ := bind_eq_ok.mp h
  obtain ⟨_, -, h⟩ := bind_eq_ok.mp h
  obtain rfl := pure_eq_ok.mp h
  refine ⟨ensure_eq_ok.mp hdigest, ?_, by rw [List.append_assoc]; rfl⟩
  intro e he
  obtain ⟨_, -, hmag⟩ := bind_eq_ok.mp (forM_eq_ok.mp hform e he)
  exact ensure_eq_ok.mp hmag

/-! ## What a proved segment says -/

theorem natFelt_add {a b : ℕ} : natFelt (a + b) = natFelt a + natFelt b := by
  apply Fin.ext
  rw [Fin.val_add, natFelt_val, natFelt_val, natFelt_val, Nat.add_mod]

@[simp] theorem natFelt_val_self {x : Felt} : natFelt x.1 = x := Fin.ofNat_val_eq_self x

theorem delta_pos_iff {e : Entry} : 0 < e.delta ↔ e.sign = 1 ∧ e.magnitude ≠ 0 := by
  have hmag : e.magnitude ≠ 0 ↔ e.magnitude.1 ≠ 0 := not_congr Fin.ext_iff
  rw [hmag]
  unfold Entry.delta
  by_cases hs : e.sign = 1
  · rw [if_pos hs, and_iff_right hs]
    omega
  · rw [if_neg hs]
    simp only [hs, false_and, iff_false]
    omega

theorem toNat_delta {e : Entry} (h : 0 < e.delta) : e.delta.toNat = e.magnitude.1 := by
  rw [Entry.delta, if_pos (delta_pos_iff.mp h).1, Int.toNat_natCast]

theorem foldl_circuitTotal {entries : List Entry} {n : ℕ} :
    entries.foldl
      (fun total e => if e.sign = 1 ∧ e.magnitude ≠ 0 then total + e.magnitude else total)
      (natFelt n) = natFelt (n + (entries.map fun e => e.delta.toNat).sum) := by
  induction entries generalizing n with
  | nil => rfl
  | cons e entries ih =>
    rw [List.foldl_cons, List.map_cons, List.sum_cons]
    by_cases hpos : 0 < e.delta
    · rw [if_pos (delta_pos_iff.mp hpos), toNat_delta hpos, ← add_assoc, ← ih, natFelt_add,
        natFelt_val_self]
    · rw [if_neg fun h => hpos (delta_pos_iff.mpr h), Int.toNat_of_nonpos (not_lt.mp hpos),
        zero_add, ih]

theorem winnings_lt (h : ∀ e ∈ inputs.entries, e.magnitude.1 < u64Bound) :
    inputs.statement.winnings < feltPrime := by
  have hle : ∀ n ∈ inputs.entries.map fun e => e.delta.toNat, n ≤ u64Bound := by
    intro n hn
    obtain ⟨e, he, rfl⟩ := List.mem_map.mp hn
    have hlt := h e he
    unfold Entry.delta
    split <;> omega
  have hsum := List.sum_le_card_nsmul _ _ hle
  rw [List.length_map, inputs.length_entries] at hsum
  have hprime : nPlayers • u64Bound < feltPrime := by decide
  exact hsum.trans_lt hprime

namespace Proves

theorem slot_digest (h : Proves P inputs segment) :
    slot segment 2 = inputs.statement.digest P := by
  rw [h.segment, h.digest]
  rfl

theorem length_claims (hb : Felt) :
    ((inputs.entries.zip inputs.commitments).map (circuitClaim P hb)).length = 8 := by
  rw [List.length_map, List.length_zip, inputs.length_entries, inputs.length_commitments]
  rfl

/-- The total of the segment is what the winners win. -/
theorem slot_total (h : Proves P inputs segment) :
    (slot segment 13).1 = inputs.statement.winnings := by
  have htotal : circuitTotal inputs.entries = natFelt inputs.statement.winnings := by
    have hfold : inputs.entries.foldl _ (natFelt 0) = _ := foldl_circuitTotal
    rw [zero_add] at hfold
    exact hfold
  have hslot : slot segment 13 = circuitTotal inputs.entries := by
    rw [slot, h.segment, List.getD_eq_getElem?_getD, List.getElem?_append_right (by simp),
      List.getElem?_append_right (by rw [length_claims]; simp), length_claims]
    rfl
  rw [hslot, htotal]
  exact Nat.mod_eq_of_lt (winnings_lt h.magnitudes)

/-- A winner's slot holds the claim of the amount won, another slot zero. -/
theorem slot_claim (h : Proves P inputs segment) {i : ℕ} {e : Entry} {commitment : Felt}
    (he : inputs.entries[i]? = some e) (hc : inputs.commitments[i]? = some commitment) :
    slot segment (5 + i) = if 0 < e.delta then
      Chain.claimMessage P commitment inputs.handBinding e.delta.toNat else 0 := by
  have hi : i < 8 := by
    have hlt := (List.getElem?_eq_some_iff.mp he).1
    rwa [inputs.length_entries] at hlt
  have hslot : slot segment (5 + i) = circuitClaim P inputs.handBinding (e, commitment) := by
    rw [slot, h.segment, List.getD_eq_getElem?_getD, List.getElem?_append_right (by simp),
      List.getElem?_append_left (by rw [length_claims]; simp; omega), List.getElem?_map]
    have hz : (inputs.entries.zip inputs.commitments)[5 + i - 5]? = some (e, commitment) := by
      rw [Nat.add_sub_cancel_left]
      exact List.getElem?_zip_eq_some.mpr ⟨he, hc⟩
    simp only [List.length_cons, List.length_nil, zero_add] at hz ⊢
    rw [hz]
    rfl
  rw [hslot, circuitClaim]
  by_cases hpos : 0 < e.delta
  · obtain ⟨hsign, hmag⟩ := delta_pos_iff.mp hpos
    have hlt : e.magnitude.1 < u128Bound :=
      (h.magnitudes e (List.mem_of_getElem? he)).trans (by decide)
    rw [if_pos hpos, if_pos hsign, if_pos hmag, Chain.claimMessage, toNat_delta hpos,
      Nat.mod_eq_of_lt hlt, Nat.div_eq_of_lt hlt, natFelt_val_self]
    rfl
  · rw [if_neg hpos]
    split
    · rw [if_neg fun hm => hpos (delta_pos_iff.mpr ⟨‹_›, hm⟩)]
    · rfl

end Proves

end TexasPoker.Contracts
