import Mathlib.Algebra.Group.Fin.Basic
import Mathlib.Data.List.GetD
import Mathlib.Tactic.Abel
import TexasPoker.Contracts.PrivateRequest

/-! # The circuit on honest hands

The request of a hand passes the circuit exactly when eight players took part, the actions of
the server are written and made as the circuit reads them, and the winnings have 64 bits.
-/

namespace TexasPoker.Contracts

open Fallible

/-! ## Arguments by position -/

variable {pre post : List Felt} {i k : ℕ}

theorem slot_append_left (hi : i < pre.length) : slot (pre ++ post) i = slot pre i := by
  rw [slot, slot, List.getD_append _ _ _ _ hi]

theorem slot_append_right (hk : pre.length = k) : slot (pre ++ post) (k + i) = slot post i := by
  rw [slot, slot, List.getD_append_right _ _ _ _ (by omega)]
  congr 1
  omega

theorem slot_map {α : Type} {f : α → Felt} {l : List α} (hi : i < l.length) :
    slot (l.map f) i = f l[i] := by
  rw [slot, List.getD_eq_getElem?_getD, List.getElem?_map, List.getElem?_eq_getElem hi]
  rfl

theorem getElem?_flatMap_pair {α : Type} {f g : α → Felt} {l : List α} {i : ℕ} :
    (l.flatMap fun a => [f a, g a])[2 * i]? = l[i]?.map f ∧
      (l.flatMap fun a => [f a, g a])[2 * i + 1]? = l[i]?.map g := by
  induction l generalizing i with
  | nil => simp
  | cons a l ih =>
    cases i with
    | zero => exact ⟨rfl, rfl⟩
    | succ i => exact ih

theorem length_flatMap_pair {α : Type} {f g : α → Felt} {l : List α} :
    (l.flatMap fun a => [f a, g a]).length = 2 * l.length := by
  induction l with
  | nil => rfl
  | cons a l ih =>
    rw [List.flatMap_cons, List.length_append, ih, List.length_cons]
    simp only [List.length_cons, List.length_nil]
    omega

/-- The slot of a result. -/
def RequestSlot.ofDelta (e : ContractAddress × ℤ) : RequestSlot :=
  ⟨addressFelt e.1, if 0 ≤ e.2 then 1 else 0, e.2.natAbs⟩

/-- A slot as the circuit takes it. -/
def RequestSlot.entry (s : RequestSlot) : Entry := ⟨s.player, natFelt s.sign, natFelt s.magnitude⟩

theorem entry_ofDelta {e : ContractAddress × ℤ} :
    (RequestSlot.ofDelta e).entry = Entry.ofDelta e := by
  unfold RequestSlot.entry RequestSlot.ofDelta Entry.ofDelta
  split <;> rfl

namespace SettlementPrivateRequest

variable {r : SettlementPrivateRequest}

/-- The arrays of a request have eight slots. -/
structure Eight (r : SettlementPrivateRequest) : Prop where
  slots : r.slots.length = nPlayers
  commitments : r.commitments.length = nPlayers

/-- The words of the scalars, and those of the arrays. -/
def scalars (r : SettlementPrivateRequest) : List Felt :=
  [natFelt r.handId, r.registeredDigest, natFelt r.nParticipants, r.handBinding]

def playerWords (r : SettlementPrivateRequest) : List Felt := r.slots.map RequestSlot.player

def signWords (r : SettlementPrivateRequest) : List Felt := r.slots.map fun s => natFelt s.sign

def magnitudeWords (r : SettlementPrivateRequest) : List Felt :=
  r.slots.map fun s => natFelt s.magnitude

def logWords (r : SettlementPrivateRequest) : List Felt :=
  [r.actionLogDigest, natFelt (r.actionEntries.length / 2)]

def actionWords (r : SettlementPrivateRequest) : List Felt :=
  (List.range maxActions).flatMap r.actionPair

theorem length_scalars : r.scalars.length = 4 := rfl

theorem length_logWords : r.logWords.length = 2 := rfl

theorem inputsFelts_eq : r.inputsFelts = r.scalars ++ (r.playerWords ++ (r.signWords ++
    (r.magnitudeWords ++ (r.commitments ++ (r.logWords ++ r.actionWords))))) := by
  simp only [inputsFelts, scalars, playerWords, signWords, magnitudeWords, logWords, actionWords,
    List.append_assoc]

theorem actionPair_eq : r.actionPair = fun i =>
    [if i * 2 + 2 ≤ r.actionEntries.length then slot r.actionEntries (i * 2) else 0,
      if i * 2 + 2 ≤ r.actionEntries.length then slot r.actionEntries (i * 2 + 1) else 0] := by
  funext i
  unfold actionPair
  split <;> rfl

theorem length_actionWords : r.actionWords.length = 2 * maxActions := by
  rw [actionWords, actionPair_eq, length_flatMap_pair, List.length_range]

namespace Eight

variable (h : r.Eight)
include h

theorem length_playerWords : r.playerWords.length = 8 := by
  rw [playerWords, List.length_map, h.slots]
  rfl

theorem length_signWords : r.signWords.length = 8 := by
  rw [signWords, List.length_map, h.slots]
  rfl

theorem length_magnitudeWords : r.magnitudeWords.length = 8 := by
  rw [magnitudeWords, List.length_map, h.slots]
  rfl

theorem length_commitments : r.commitments.length = 8 := h.commitments

theorem length_inputsFelts : r.inputsFelts.length = 38 + 2 * maxActions := by
  simp only [inputsFelts_eq, List.length_append, length_actionWords, h.length_playerWords,
    h.length_signWords, h.length_magnitudeWords, h.length_commitments]
  rfl

theorem slot_player (hi : i < 8) : slot r.inputsFelts (4 + i) = slot r.playerWords i := by
  rw [inputsFelts_eq, slot_append_right length_scalars, slot_append_left (by rwa [h.length_playerWords])]

theorem slot_sign (hi : i < 8) : slot r.inputsFelts (12 + i) = slot r.signWords i := by
  rw [inputsFelts_eq, show 12 + i = 4 + (8 + i) by omega, slot_append_right length_scalars,
    slot_append_right h.length_playerWords, slot_append_left (by rwa [h.length_signWords])]

theorem slot_magnitude (hi : i < 8) : slot r.inputsFelts (20 + i) = slot r.magnitudeWords i := by
  rw [inputsFelts_eq, show 20 + i = 4 + (8 + (8 + i)) by omega, slot_append_right length_scalars,
    slot_append_right h.length_playerWords, slot_append_right h.length_signWords,
    slot_append_left (by rwa [h.length_magnitudeWords])]

theorem slot_commitment (hi : i < 8) : slot r.inputsFelts (28 + i) = slot r.commitments i := by
  rw [inputsFelts_eq, show 28 + i = 4 + (8 + (8 + (8 + i))) by omega, slot_append_right length_scalars,
    slot_append_right h.length_playerWords, slot_append_right h.length_signWords,
    slot_append_right h.length_magnitudeWords, slot_append_left (by rwa [h.length_commitments])]

theorem slot_log : slot r.inputsFelts (36 + i) = slot (r.logWords ++ r.actionWords) i := by
  rw [inputsFelts_eq, show 36 + i = 4 + (8 + (8 + (8 + (8 + i)))) by omega, slot_append_right length_scalars,
    slot_append_right h.length_playerWords, slot_append_right h.length_signWords,
    slot_append_right h.length_magnitudeWords, slot_append_right h.length_commitments]

/-- The circuit takes its arguments as the server writes them. -/
theorem entries_ofFelts :
    (SettlementInputs.ofFelts r.inputsFelts).entries = r.slots.map RequestSlot.entry := by
  refine List.ext_getElem (by simp [SettlementInputs.ofFelts, h.slots]) fun i hi hi' => ?_
  have hlt : i < r.slots.length := by simpa using hi'
  have h8 : i < 8 := hlt.trans_eq h.slots
  simp only [SettlementInputs.ofFelts, List.getElem_map, List.getElem_range, h.slot_player h8,
    h.slot_sign h8, h.slot_magnitude h8, playerWords, signWords, magnitudeWords, slot_map hlt]
  rfl

theorem commitments_ofFelts :
    (SettlementInputs.ofFelts r.inputsFelts).commitments = r.commitments := by
  refine List.ext_getElem (by simp [SettlementInputs.ofFelts, h.commitments]) fun i hi hi' => ?_
  have h8 : i < 8 := hi'.trans_eq h.commitments
  simp only [SettlementInputs.ofFelts, List.getElem_map, List.getElem_range, h.slot_commitment h8]
  rw [slot, List.getD_eq_getElem _ _ hi']

theorem actionLogDigest_ofFelts :
    (SettlementInputs.ofFelts r.inputsFelts).actionLogDigest = r.actionLogDigest := h.slot_log (i := 0)

theorem statement_ofFelts : (SettlementInputs.ofFelts r.inputsFelts).statement =
    ⟨natFelt r.handId, r.slots.map RequestSlot.entry, r.actionLogDigest⟩ := by
  rw [SettlementInputs.statement, h.entries_ofFelts, h.actionLogDigest_ofFelts]
  rfl

theorem actionCount_ofFelts : (SettlementInputs.ofFelts r.inputsFelts).actionCount =
    natFelt (r.actionEntries.length / 2) := h.slot_log (i := 1)

theorem words_ofFelts : (SettlementInputs.ofFelts r.inputsFelts).words = r.actionWords := by
  refine List.ext_getElem (by simp [SettlementInputs.ofFelts, length_actionWords])
    fun i hi hi' => ?_
  have hslot : slot r.inputsFelts (38 + i) = slot r.actionWords i := by
    rw [show 38 + i = 36 + (2 + i) by omega, h.slot_log, slot_append_right length_logWords]
  simp only [SettlementInputs.ofFelts, List.getElem_map, List.getElem_range, hslot]
  rw [slot, List.getD_eq_getElem _ _ hi']

end Eight

end SettlementPrivateRequest

/-! ## The words of a log -/

variable {P : Primitives} {log : List ActionLogEntry} {pairs : List (Felt × Felt)}

namespace ActionLogEntry

variable {e : ActionLogEntry}

/-- The action that an entry names. -/
def name (e : ActionLogEntry) : ActionName := (ActionName.ofText e.action).getD .fold

/-- The words of an entry. -/
def pair (e : ActionLogEntry) : Felt × Felt :=
  (natFelt (e.logged e.name).word, if e.auto then
    natFelt (legWord (actionKindCode e.action) e.owed e.myBet e.bigBlind) else 0)

theorem actionEntryWord_eq_some (h : (ActionName.ofText e.action).isSome) :
    actionEntryWord e = some e.pair.1 := by
  obtain ⟨a, ha⟩ := Option.isSome_iff_exists.mp h
  rw [actionEntryWord_eq, pair, name, ha]
  rfl

/-- An action of the server as the circuit reads it: its name in capitals, the amount owed a
multiple of four, and the bets taken two bits too high. -/
structure ReadsDefault (e : ActionLogEntry) : Prop where
  owed : 4 ∣ e.owed.1
  action : (legalAutoAction (e.owed / 4 + 2 ^ 62 * (e.myBet % 4))
    (e.myBet / 4 + 2 ^ 62 * (e.bigBlind % 4)) (e.bigBlind / 4)).map (fun k => k.name.text) =
      some e.action

end ActionLogEntry

theorem actionKindCode_eq_iff {action : String} {k : AutoActionKind} :
    actionKindCode action = k.name.kindCode ↔ k.name.text = action := by
  unfold actionKindCode
  constructor
  · split_ifs with hcheck hcall hfold
    · subst hcheck
      cases k <;> simp [AutoActionKind.name, ActionName.kindCode, ActionName.text]
    · subst hcall
      cases k <;> simp [AutoActionKind.name, ActionName.kindCode, ActionName.text]
    · subst hfold
      cases k <;> simp [AutoActionKind.name, ActionName.kindCode, ActionName.text]
    · cases k <;> simp [AutoActionKind.name, ActionName.kindCode]
  · rintro rfl
    cases k <;> decide

section Legality

variable {kind : ℕ} {owed myBet bigBlind : Fin u64Bound}

theorem legWord_mod_p2_4 (hkind : kind < 4) :
    legWord kind owed myBet bigBlind % p2_4 = kind + 4 * (owed.1 % 4) := by
  rw [legWord_eq, p2_4]
  unfold u64Bound
  omega

theorem defaultAt_p2_4 (hkind : kind < 4) : defaultAt p2_4 (legWord kind owed myBet bigBlind) =
    legalAutoAction (owed / 4 + 2 ^ 62 * (myBet % 4)) (myBet / 4 + 2 ^ 62 * (bigBlind % 4))
      (bigBlind / 4) := by
  have howed := owed.2
  have hbet := myBet.2
  have hblind := bigBlind.2
  rw [defaultAt, legWord_eq, p2_4]
  unfold u64Bound at *
  congr 1 <;> omega

end Legality

theorem assertLawfulDefault_iff {e : ActionLogEntry} :
    assertLawfulDefault (natFelt (legWord (actionKindCode e.action) e.owed e.myBet e.bigBlind)) =
      .ok () ↔ e.ReadsDefault := by
  have hkind : actionKindCode e.action < 4 := actionKindCode_lt
  have hlt : legWord (actionKindCode e.action) e.owed e.myBet e.bigBlind < 2 ^ 194 :=
    legWord_lt hkind
  have hval : (natFelt (legWord (actionKindCode e.action) e.owed e.myBet e.bigBlind)).1 =
      legWord (actionKindCode e.action) e.owed e.myBet e.bigBlind :=
    Nat.mod_eq_of_lt (hlt.trans (by decide))
  rw [assertLawfulDefault_eq_ok, hval, and_iff_right hlt, defaultAt_p2_4 hkind,
    legWord_mod_p2_4 hkind]
  constructor
  · rintro ⟨k, hk, hmod⟩
    have := k.kindCode_lt
    have hcode : actionKindCode e.action = k.name.kindCode := by omega
    refine ⟨by omega, ?_⟩
    rw [hk, Option.map_some, actionKindCode_eq_iff.mp hcode]
  · rintro ⟨howed, haction⟩
    obtain ⟨k, hk, htext⟩ := Option.map_eq_some_iff.mp haction
    have := actionKindCode_eq_iff.mpr htext
    exact ⟨k, hk, by omega⟩

theorem actionPairs_eq (h : ∀ e ∈ log, (ActionName.ofText e.action).isSome) :
    actionPairs log = some (log.map ActionLogEntry.pair) := by
  refine mapM_eq_some_map fun e he => ?_
  rw [ActionLogEntry.actionEntryWord_eq_some (h e he), legalityWord_eq]
  rfl

/-- The digest of a log. -/
def logDigest (P : Primitives) (log : List ActionLogEntry) : Felt :=
  P.poseidon (actionLogDomain :: log.map fun e => e.pair.1)

theorem actionLogDigestFelt_eq (h : ∀ e ∈ log, (ActionName.ofText e.action).isSome) :
    actionLogDigestFelt P log =
      some (logDigest P log) := by
  have hwords : log.mapM actionEntryWord = some (log.map fun e => e.pair.1) :=
    mapM_eq_some_map fun e he => ActionLogEntry.actionEntryWord_eq_some (h e he)
  rw [actionLogDigestFelt, hwords]
  rfl

/-! ## The request of a hand -/

section Fold

variable {deltas : List ℤ} {k : ℕ}

theorem foldlM_requestStep (players : List Felt) (s : RequestFold) (hlt : ∀ d ∈ deltas, d.natAbs < u64Bound)
    (hsum : s.sum.natAbs ≤ k * u64Bound) (hk : k + deltas.length ≤ nPlayers) :
    (deltas.zipIdx k).foldlM (requestStep players) s = .ok
      ⟨s.slots ++ (deltas.zipIdx k).map fun d =>
          ⟨players.getD d.2 0, if 0 ≤ d.1 then 1 else 0, d.1.natAbs⟩,
        s.nParticipants + deltas.countP fun d => d ≠ 0, s.sum + deltas.sum⟩ := by
  induction deltas generalizing s k with
  | nil => simp
  | cons d deltas ih =>
    rw [List.forall_mem_cons] at hlt
    rw [List.length_cons] at hk
    have hd := hlt.1
    have h8 : nPlayers = 8 := rfl
    have hsum' : (s.sum + d).natAbs ≤ (k + 1) * u64Bound := by
      have := Int.natAbs_add_le s.sum d
      rw [Nat.succ_mul]
      omega
    have hrange : -2 ^ 127 ≤ s.sum + d ∧ s.sum + d < 2 ^ 127 := by
      have : (k + 1) * u64Bound ≤ 8 * u64Bound := Nat.mul_le_mul_right _ (by omega)
      unfold u64Bound at *
      omega
    have hstep : requestStep players s (d, k) = .ok
        ⟨s.slots ++ [⟨players.getD k 0, if 0 ≤ d then 1 else 0, d.natAbs⟩],
          if d ≠ 0 then s.nParticipants + 1 else s.nParticipants, s.sum + d⟩ := by
      refine bind_eq_ok.mpr ⟨(), ensure_pos hd, ?_⟩
      exact bind_eq_ok.mpr ⟨(), ensure_pos hrange, rfl⟩
    rw [List.zipIdx_cons, List.foldlM_cons, hstep, ok_bind, ih _ hlt.2 hsum' (by omega)]
    congr 2
    · rw [List.map_cons, List.append_assoc, List.singleton_append]
    · rw [List.countP_cons]
      by_cases hz : d = 0
      · simp [hz]
      · simp [hz]
        omega
    · rw [List.sum_cons, add_assoc]

end Fold

/-- A hand whose request the server builds. -/
structure HonestHand (players : List ContractAddress) (deltas : List ℤ) (commitments : List Felt)
    (log : List ActionLogEntry) : Prop where
  two_le : 2 ≤ players.length
  le_eight : players.length ≤ nPlayers
  lengths : deltas.length = players.length
  zeroSum : deltas.sum = 0
  magnitudes : ∀ d ∈ deltas, d.natAbs < u64Bound
  slots : commitments.length = nPlayers
  winners : ∀ i < nPlayers, 0 < deltas.getD i 0 → commitments.getD i 0 ≠ 0
  entries : log.length ≤ maxActions
  known : ∀ e ∈ log, (ActionName.ofText e.action).isSome

/-- The slots of the results, and the unused ones. -/
def handSlots (players : List ContractAddress) (deltas : List ℤ) : List RequestSlot :=
  (players.zip deltas).map RequestSlot.ofDelta ++
    List.replicate (nPlayers - players.length) ⟨0, 0, 0⟩

/-- The request of an honest hand. -/
def handRequest (P : Primitives) (handId : Fin u32Bound) (handBinding : Felt)
    (players : List ContractAddress) (deltas : List ℤ) (commitments : List Felt)
    (log : List ActionLogEntry) : SettlementPrivateRequest where
  handId
  handBinding
  registeredDigest := (Statement.ofPlaintext handId players deltas (logDigest P log)).digest P
  slots := handSlots players deltas
  nParticipants := deltas.countP fun d => d ≠ 0
  commitments
  actionLogDigest := logDigest P log
  actionEntries := (log.map ActionLogEntry.pair).flatMap fun e => [e.1, e.2]

variable {handId : Fin u32Bound} {handBinding : Felt} {players : List ContractAddress}
  {deltas : List ℤ} {commitments : List Felt}

theorem map_zipIdx_slots (h : deltas.length = players.length) :
    deltas.zipIdx.map (fun d =>
      (⟨(players.map addressFelt).getD d.2 0, if 0 ≤ d.1 then 1 else 0, d.1.natAbs⟩ :
        RequestSlot)) = (players.zip deltas).map RequestSlot.ofDelta := by
  refine List.ext_getElem (by simp [h]) fun i hi hi' => ?_
  have hd : i < deltas.length := by simpa using hi
  have hp : i < (players.map addressFelt).length := by rwa [List.length_map, ← h]
  simp only [List.getElem_map, List.getElem_zipIdx, List.getElem_zip, RequestSlot.ofDelta,
    zero_add, List.getD_eq_getElem _ _ hp]

theorem flatMap_handSlots (h : HonestHand players deltas commitments log) :
    ((handSlots players deltas).take players.length).flatMap (fun s =>
      [s.player, natFelt s.sign, natFelt s.magnitude]) =
      ((players.zip deltas).map Entry.ofDelta).flatMap Entry.words := by
  have hlen : players.length = ((players.zip deltas).map RequestSlot.ofDelta).length := by
    simp [h.lengths]
  rw [handSlots, hlen, List.take_left, List.flatMap_map, List.flatMap_map]
  refine congrArg (List.flatMap · _) (funext fun e => ?_)
  rw [← entry_ofDelta]
  rfl

theorem buildRequest_eq (h : HonestHand players deltas commitments log) :
    buildRequest P handId handBinding (players.map addressFelt) deltas commitments
      (logDigest P log) (log.map ActionLogEntry.pair) =
      .ok (handRequest P handId handBinding players deltas commitments log) := by
  have hlen := h.le_eight
  have hpairs : (log.map ActionLogEntry.pair).length ≤ maxActions := by
    rw [List.length_map]
    exact h.entries
  have hfold := foldlM_requestStep (players.map addressFelt) ⟨[], 0, 0⟩ h.magnitudes
    (Nat.zero_le (0 * u64Bound)) (by rw [h.lengths, zero_add]; exact hlen)
  unfold buildRequest
  refine bind_eq_ok.mpr ⟨(), ensure_pos hpairs, ?_⟩
  refine bind_eq_ok.mpr ⟨(), ensure_pos ⟨by rwa [List.length_map], by rwa [h.lengths]⟩, ?_⟩
  refine bind_eq_ok.mpr ⟨_, hfold, ?_⟩
  refine bind_eq_ok.mpr ⟨(), ensure_pos (by rw [h.zeroSum]; rfl), ?_⟩
  refine bind_eq_ok.mpr ⟨(), forM_eq_ok.mpr ?_, ?_⟩
  · rintro ⟨commitment, i⟩ hmem
    refine ensure_pos ?_
    rintro ⟨hpos, rfl⟩
    obtain ⟨hi, hget⟩ := List.mem_zipIdx' hmem
    refine h.winners i (hi.trans_eq h.slots) hpos ?_
    rw [List.getD_eq_getElem _ _ hi, ← hget]
  · have hslots := map_zipIdx_slots h.lengths
    have hcount : ((players.zip deltas).map RequestSlot.ofDelta).length = players.length := by
      simp [h.lengths]
    simp only [List.nil_append, hslots, hcount, zero_add, List.length_map]
    rw [← handSlots, flatMap_handSlots h]
    rfl

/-! ## The replay of a log -/

section Replay

variable {r : SettlementPrivateRequest} {i : ℕ}

/-- The words of an entry slot are those of the entry, and zero without one. -/
theorem slot_actionWords (hr : r.actionEntries = pairs.flatMap fun e => [e.1, e.2])
    (hi : i < maxActions) :
    slot r.actionWords (2 * i) = (pairs[i]?.map Prod.fst).getD 0 ∧
      slot r.actionWords (2 * i + 1) = (pairs[i]?.map Prod.snd).getD 0 := by
  have hrange : (List.range maxActions)[i]? = some i := by
    rw [List.getElem?_eq_getElem (by rwa [List.length_range]), List.getElem_range]
  have hlen : r.actionEntries.length = 2 * pairs.length := by rw [hr, length_flatMap_pair]
  have hfst := (getElem?_flatMap_pair (f := Prod.fst) (g := Prod.snd) (l := pairs) (i := i)).1
  have hsnd := (getElem?_flatMap_pair (f := Prod.fst) (g := Prod.snd) (l := pairs) (i := i)).2
  rw [SettlementPrivateRequest.actionWords, SettlementPrivateRequest.actionPair_eq, slot, slot,
    List.getD_eq_getElem?_getD, List.getD_eq_getElem?_getD, getElem?_flatMap_pair.1,
    getElem?_flatMap_pair.2, hrange, Option.map_some, Option.map_some, Option.getD_some,
    Option.getD_some, hlen, slot, slot, List.getD_eq_getElem?_getD, List.getD_eq_getElem?_getD, hr,
    mul_comm i 2, hfst, hsnd]
  by_cases h : i < pairs.length
  · rw [if_pos (by omega), if_pos (by omega)]
    exact ⟨rfl, rfl⟩
  · rw [if_neg (by omega), if_neg (by omega), List.getElem?_eq_none (not_lt.mp h)]
    exact ⟨rfl, rfl⟩

theorem actionOk_iff {words : List Felt} {e : ActionLogEntry} (hi : i < log.length)
    (hlog : slot words (2 * i) = e.pair.1) (hleg : slot words (2 * i + 1) = e.pair.2) :
    ActionOk log.length words i ↔ (e.auto = true → e.ReadsDefault) := by
  have hval : (slot words (2 * i)).1 = (e.logged e.name).word := by
    rw [hlog]
    exact LoggedAction.natFelt_word
  have hflag : (slot words (2 * i)).1 / 2 ^ 40 % p2_4 % 2 = e.auto.toNat := by
    rw [hval, LoggedAction.word_auto]
    rfl
  constructor
  · intro h hauto
    rw [hauto] at hflag
    have hok := h.auto hi hflag
    rw [hleg, ActionLogEntry.pair, if_pos hauto] at hok
    exact assertLawfulDefault_iff.mp hok
  · intro h
    constructor
    · rw [hval]
      exact (Nat.div_lt_iff_lt_mul (by decide)).mpr (LoggedAction.word_lt.trans (by decide))
    · intro _
      rw [hval, LoggedAction.word_mod]
      exact ActionName.mem_actionNames.mpr ⟨_, rfl⟩
    · intro _ hauto
      have ha : e.auto = true := by
        rw [hflag] at hauto
        simpa using hauto
      rw [hleg, ActionLogEntry.pair, if_pos ha]
      exact assertLawfulDefault_iff.mpr (h ha)
    · intro _ hauto
      have ha : ¬ e.auto = true := by
        rintro ha
        rw [hflag, ha] at hauto
        exact hauto rfl
      rw [hleg, ActionLogEntry.pair, if_neg ha]
    · exact fun hn => absurd hi hn

/-- The circuit replays the words of a log when the actions of the server read as defaults. -/
theorem actions_iff (hr : r.actionEntries = (log.map ActionLogEntry.pair).flatMap
    fun e => [e.1, e.2]) (hlen : log.length ≤ maxActions) :
    (∀ i < maxActions, ActionOk log.length r.actionWords i) ↔
      ∀ e ∈ log, e.auto = true → e.ReadsDefault := by
  have hslot : ∀ (i : ℕ) (e : ActionLogEntry), log[i]? = some e → i < log.length ∧
      slot r.actionWords (2 * i) = e.pair.1 ∧ slot r.actionWords (2 * i + 1) = e.pair.2 := by
    intro i e he
    have hi := (List.getElem?_eq_some_iff.mp he).1
    obtain ⟨hlog, hleg⟩ := slot_actionWords hr (hi.trans_le hlen)
    rw [hlog, hleg, List.getElem?_map, he]
    exact ⟨hi, rfl, rfl⟩
  constructor
  · intro h e he
    obtain ⟨i, hi⟩ := List.mem_iff_getElem?.mp he
    obtain ⟨hlt, hlog, hleg⟩ := hslot i e hi
    exact (actionOk_iff hlt hlog hleg).mp (h i (hlt.trans_le hlen))
  · intro h i hi
    cases he : log[i]? with
    | some e =>
      obtain ⟨hlt, hlog, hleg⟩ := hslot i e he
      exact (actionOk_iff hlt hlog hleg).mpr (h e (List.mem_of_getElem? he))
    | none =>
      have hn : ¬ i < log.length := by simpa using he
      obtain ⟨hlog, hleg⟩ := slot_actionWords hr hi
      rw [List.getElem?_map, he] at hlog hleg
      refine ⟨?_, fun h => absurd h hn, fun h => absurd h hn, fun h => absurd h hn,
        fun _ => ⟨hlog, hleg⟩⟩
      rw [hlog]
      decide

end Replay

/-! ## The results in the circuit -/

section Results

variable {results : List (ContractAddress × ℤ)} {total : ℕ} {acc : Felt} {k : ℕ}

/-- The sum of signed entries in the field. -/
theorem foldl_signed (h : ∀ e ∈ results, e.2.natAbs < u64Bound) :
    (results.map Entry.ofDelta).foldl
      (fun sum e => if e.sign = 1 then sum + e.magnitude else sum - e.magnitude) acc =
      acc + natFelt (results.map fun e => e.2.toNat).sum -
        natFelt (results.map fun e => (-e.2).toNat).sum := by
  induction results generalizing acc with
  | nil =>
    have hzero : natFelt 0 = 0 := rfl
    simp [hzero]
  | cons e results ih =>
    rw [List.forall_mem_cons] at h
    simp only [List.map_cons, List.foldl_cons, List.sum_cons, natFelt_add, ih h.2]
    by_cases hpos : 0 ≤ e.2
    · have hneg : (-e.2).toNat = 0 := by omega
      have habs : e.2.natAbs = e.2.toNat := by omega
      have hzero : natFelt 0 = 0 := rfl
      simp only [Entry.ofDelta, if_pos hpos, if_true, hneg, habs, hzero, zero_add, add_assoc]
    · have hneg : e.2.toNat = 0 := by omega
      have habs : e.2.natAbs = (-e.2).toNat := by omega
      have hzero : natFelt 0 = 0 := rfl
      have hsign : ¬ (0 : Felt) = 1 := by decide
      simp only [Entry.ofDelta, if_neg hpos, if_neg hsign, hneg, habs, hzero, zero_add]
      abel

theorem foldl_signed_zeros :
    (List.replicate k (⟨0, 0, 0⟩ : Entry)).foldl
      (fun sum e => if e.sign = 1 then sum + e.magnitude else sum - e.magnitude) acc = acc := by
  have hsign : ¬ (0 : Felt) = 1 := by decide
  induction k with
  | zero => rfl
  | succ k ih => rw [List.replicate_succ, List.foldl_cons, if_neg hsign, sub_zero, ih]

theorem sum_toNat_eq (h : (results.map Prod.snd).sum = 0) :
    (results.map fun e => e.2.toNat).sum = (results.map fun e => (-e.2).toNat).sum := by
  have hdiff : (results.map Prod.snd).sum = ((results.map fun e => e.2.toNat).sum : ℕ) -
      ((results.map fun e => (-e.2).toNat).sum : ℕ) := by
    clear h
    induction results with
    | nil => rfl
    | cons e results ih =>
      simp only [List.map_cons, List.sum_cons, Nat.cast_add] at ih ⊢
      omega
  omega

/-- The total of the server stops at the largest 64-bit value. -/
theorem foldl_saturating (h : total ≤ u64Max) {slots : List RequestSlot} :
    slots.foldl (fun total s =>
      if s.sign = 1 ∧ s.magnitude ≠ 0 then min (total + s.magnitude) u64Max else total) total =
      min (total + (slots.map fun s => if s.sign = 1 then s.magnitude else 0).sum) u64Max := by
  induction slots generalizing total with
  | nil => simp [h]
  | cons s slots ih =>
    rw [List.foldl_cons, List.map_cons, List.sum_cons]
    by_cases hs : s.sign = 1
    · by_cases hm : s.magnitude = 0
      · rw [if_neg (by simp [hm]), if_pos hs, hm, zero_add, ih h]
      · rw [if_pos ⟨hs, hm⟩, if_pos hs, ih (min_le_right ..)]
        omega
    · rw [if_neg (fun h => hs h.1), if_neg hs, zero_add, ih h]

end Results

/-! ## Agreement -/

/-- What the winners of a hand win together. -/
def handWinnings (deltas : List ℤ) : ℕ := (deltas.map Int.toNat).sum

/-- The entries of a hand, and the unused ones. -/
theorem map_entry_handSlots : (handSlots players deltas).map RequestSlot.entry =
    (players.zip deltas).map Entry.ofDelta ++
      List.replicate (nPlayers - players.length) ⟨0, 0, 0⟩ := by
  rw [handSlots, List.map_append, List.map_map, List.map_replicate]
  congr 1
  exact List.map_congr_left fun e _ => entry_ofDelta

theorem zip_magnitudes (h : HonestHand players deltas commitments log) :
    ∀ e ∈ players.zip deltas, e.2.natAbs < u64Bound :=
  fun _ he => h.magnitudes _ (List.of_mem_zip he).2

/-- A slot has a sign and a magnitude of its machine type. -/
theorem mem_handSlots (h : HonestHand players deltas commitments log) {s : RequestSlot}
    (hs : s ∈ handSlots players deltas) : s.sign ≤ 1 ∧ s.magnitude < u64Bound := by
  rcases List.mem_append.mp hs with hs | hs
  · obtain ⟨e, he, rfl⟩ := List.mem_map.mp hs
    refine ⟨?_, zip_magnitudes h e he⟩
    simp only [RequestSlot.ofDelta]
    split <;> omega
  · rw [List.eq_of_mem_replicate hs]
    exact ⟨by decide, by decide⟩

theorem sign_entry_iff {s : RequestSlot} (h : s.sign ≤ 1) : s.entry.sign = 1 ↔ s.sign = 1 := by
  rcases Nat.le_one_iff_eq_zero_or_eq_one.mp h with h | h <;> simp only [RequestSlot.entry, h] <;>
    decide

theorem magnitude_entry_iff {s : RequestSlot} (h : s.magnitude < u64Bound) :
    s.entry.magnitude = 0 ↔ s.magnitude = 0 := by
  rw [RequestSlot.entry, Fin.ext_iff, natFelt_val_of_lt h]
  rfl

theorem eight_handRequest (h : HonestHand players deltas commitments log) :
    (handRequest P handId handBinding players deltas commitments log).Eight := by
  have hlen := h.le_eight
  refine ⟨?_, h.slots⟩
  simp only [handRequest, handSlots, List.length_append, List.length_map, List.length_zip,
    List.length_replicate, h.lengths]
  omega

/-- The claims of the circuit are those that the server expects. -/
theorem claims_handRequest (h : HonestHand players deltas commitments log) :
    (((handSlots players deltas).map RequestSlot.entry).zip commitments).map
      (circuitClaim P handBinding) =
      (handRequest P handId handBinding players deltas commitments log).deriveClaimCms P := by
  rw [List.zip_map_left, List.map_map]
  refine List.map_congr_left fun e he => ?_
  obtain ⟨hsign, hmag⟩ := mem_handSlots h (List.of_mem_zip he).1
  have hs := sign_entry_iff hsign
  have hm := magnitude_entry_iff hmag
  change circuitClaim P handBinding (e.1.entry, e.2) = if e.1.sign = 1 ∧ e.1.magnitude ≠ 0 then
    P.poseidon [e.2, handBinding, natFelt e.1.magnitude, 0] else 0
  rw [circuitClaim]
  by_cases h1 : e.1.sign = 1
  · rw [if_pos (hs.mpr h1)]
    by_cases h0 : e.1.magnitude = 0
    · rw [if_neg (not_not.mpr (hm.mpr h0)), if_neg fun hn => hn.2 h0]
    · rw [if_pos (fun hz => h0 (hm.mp hz)), if_pos ⟨h1, h0⟩]
      rfl
  · rw [if_neg (fun hn => h1 (hs.mp hn)), if_neg fun hn => h1 hn.1]

theorem delta_zero : (⟨0, 0, 0⟩ : Entry).delta = 0 := by decide

theorem handWinnings_eq (h : HonestHand players deltas commitments log) :
    handWinnings deltas = ((players.zip deltas).map fun e => e.2.toNat).sum := by
  have hmap : ((players.zip deltas).map fun e => e.2.toNat) =
      ((players.zip deltas).map Prod.snd).map Int.toNat := by rw [List.map_map]; rfl
  rw [hmap, List.map_snd_zip h.lengths.le, handWinnings]

/-- The total of the circuit is what the winners win. -/
theorem circuitTotal_handSlots (h : HonestHand players deltas commitments log) :
    circuitTotal ((handSlots players deltas).map RequestSlot.entry) =
      natFelt (handWinnings deltas) := by
  have hsum : (((players.zip deltas).map Entry.ofDelta).map fun e => e.delta.toNat).sum =
      handWinnings deltas := by
    rw [handWinnings_eq h, List.map_map]
    refine congrArg List.sum (List.map_congr_left fun e he => ?_)
    exact congrArg Int.toNat (delta_ofDelta (zip_magnitudes h e he))
  have htotal : ∀ entries, circuitTotal entries =
      natFelt (0 + (entries.map fun e => e.delta.toNat).sum) :=
    fun entries => foldl_circuitTotal (n := 0)
  rw [htotal, map_entry_handSlots, List.map_append, List.sum_append, hsum, List.map_replicate,
    delta_zero]
  simp

/-- The server's total stops at the largest 64-bit value. -/
theorem totalWinnings_handRequest (h : HonestHand players deltas commitments log) :
    (handRequest P handId handBinding players deltas commitments log).totalWinnings =
      min (handWinnings deltas) u64Max := by
  have hslot : ∀ e : ContractAddress × ℤ, (if (RequestSlot.ofDelta e).sign = 1 then
      (RequestSlot.ofDelta e).magnitude else 0) = e.2.toNat := by
    intro e
    have hsign : (RequestSlot.ofDelta e).sign = 1 ↔ 0 ≤ e.2 := by
      unfold RequestSlot.ofDelta
      split <;> simp_all
    have hmag : (RequestSlot.ofDelta e).magnitude = e.2.natAbs := rfl
    by_cases hpos : 0 ≤ e.2
    · rw [if_pos (hsign.mpr hpos)]
      omega
    · rw [if_neg fun h => hpos (hsign.mp h)]
      omega
  change (handSlots players deltas).foldl _ 0 = _
  rw [foldl_saturating (Nat.zero_le _), handSlots, List.map_append, List.map_map, List.sum_append,
    List.map_replicate, handWinnings_eq h]
  simp [Function.comp_def, hslot]

theorem handWinnings_lt (h : HonestHand players deltas commitments log) :
    handWinnings deltas < feltPrime := by
  have hle : ∀ n ∈ deltas.map Int.toNat, n ≤ u64Bound := by
    intro n hn
    obtain ⟨d, hd, rfl⟩ := List.mem_map.mp hn
    have := h.magnitudes d hd
    omega
  have hsum := List.sum_le_card_nsmul _ _ hle
  rw [List.length_map, h.lengths, smul_eq_mul] at hsum
  have hmul : players.length * u64Bound ≤ nPlayers * u64Bound :=
    Nat.mul_le_mul_right _ h.le_eight
  exact (hsum.trans hmul).trans_lt (by decide)

/-- The segments agree exactly when the winnings have 64 bits. -/
theorem natFelt_min_eq_iff (h : HonestHand players deltas commitments log) :
    natFelt (handWinnings deltas) = natFelt (min (handWinnings deltas) u64Max) ↔
      handWinnings deltas < u64Bound := by
  have hlt := handWinnings_lt h
  have hmax : u64Max + 1 = u64Bound := by decide
  rw [Fin.ext_iff, natFelt_val, natFelt_val, Nat.mod_eq_of_lt hlt,
    Nat.mod_eq_of_lt ((min_le_left _ _).trans_lt hlt)]
  omega

/-- What the circuit needs of an honest hand beyond being honest. -/
structure Provable (players : List ContractAddress) (deltas : List ℤ)
    (log : List ActionLogEntry) : Prop where
  full : players.length = nPlayers
  defaults : ∀ e ∈ log, e.auto = true → e.ReadsDefault
  winnings : handWinnings deltas < u64Bound

/-- The circuit runs on the request of a hand, returns the segment that the server expects, and
takes the digest that the contract registers. -/
def CircuitAgrees (P : Primitives) (handId : Fin u32Bound) (handBinding : Felt)
    (players : List ContractAddress) (deltas : List ℤ) (commitments : List Felt)
    (log : List ActionLogEntry) : Prop :=
  ∃ digest pairs r, actionLogDigestFelt P log = some digest ∧ actionPairs log = some pairs ∧
    buildRequest P handId handBinding (players.map addressFelt) deltas commitments digest pairs =
      .ok r ∧
    computeSettlementDigest P handId digest players deltas = .ok r.registeredDigest ∧
    settlementMain P r.inputsFelts = .ok (r.publicSegmentFelts P)

/-- The words that the contract and the circuit hash for a hand. -/
def hashedWords (P : Primitives) (handId : Fin u32Bound) (players : List ContractAddress)
    (deltas : List ℤ) (log : List ActionLogEntry) : Set (List Felt) :=
  {(Statement.ofPlaintext handId players deltas (logDigest P log)).words,
    (Statement.mk (natFelt handId) ((handSlots players deltas).map RequestSlot.entry)
      (logDigest P log)).words}

/-- The statement of the circuit is that of the contract when no slot is unused. -/
theorem statement_eq_iff (h : HonestHand players deltas commitments log) {logWord : Felt} :
    (Statement.mk (natFelt handId) ((handSlots players deltas).map RequestSlot.entry) logWord).words =
      (Statement.ofPlaintext handId players deltas logWord).words ↔ players.length = nPlayers := by
  have hlen := h.le_eight
  rw [map_entry_handSlots]
  constructor
  · intro heq
    have hentries := congrArg (fun s => s.entries.length) (Statement.words_injective heq)
    simp only [Statement.ofPlaintext, List.length_append, List.length_map, List.length_zip,
      List.length_replicate, h.lengths] at hentries
    omega
  · intro hfull
    rw [hfull, Nat.sub_self, List.replicate_zero, List.append_nil]
    rfl

/-- The inputs of the circuit for a hand. -/
def handInputs (P : Primitives) (handId : Fin u32Bound) (handBinding : Felt)
    (players : List ContractAddress) (deltas : List ℤ) (commitments : List Felt)
    (log : List ActionLogEntry) : SettlementInputs :=
  .ofFelts (handRequest P handId handBinding players deltas commitments log).inputsFelts

theorem actionCount_handInputs (h : HonestHand players deltas commitments log) :
    (handInputs P handId handBinding players deltas commitments log).actionCount.1 =
      log.length := by
  have hlen : (handRequest P handId handBinding players deltas commitments
      log).actionEntries.length = 2 * log.length := by
    rw [handRequest, length_flatMap_pair, List.length_map]
  rw [handInputs, (eight_handRequest h).actionCount_ofFelts, hlen, Nat.mul_div_cancel_left _ two_pos]
  exact Nat.mod_eq_of_lt (h.entries.trans_lt (by decide))

theorem loggedWords_handInputs (h : HonestHand players deltas commitments log) :
    (handInputs P handId handBinding players deltas commitments log).loggedWords =
      log.map fun e => e.pair.1 := by
  rw [SettlementInputs.loggedWords, actionCount_handInputs h, handInputs,
    (eight_handRequest h).words_ofFelts]
  refine List.ext_getElem (by simp) fun i hi hi' => ?_
  have hlt : i < log.length := by simpa using hi
  have hslot := (slot_actionWords (r := handRequest P handId handBinding players deltas commitments
    log) rfl (hlt.trans_le h.entries)).1
  rw [List.getElem_map, List.getElem_range, List.getElem_map, hslot, List.getElem?_map,
    List.getElem?_eq_getElem hlt]
  rfl

theorem actions_handInputs_iff (h : HonestHand players deltas commitments log) :
    (∀ i < maxActions, ActionOk
      (handInputs P handId handBinding players deltas commitments log).actionCount.1
      (handInputs P handId handBinding players deltas commitments log).words i) ↔
      ∀ e ∈ log, e.auto = true → e.ReadsDefault := by
  rw [actionCount_handInputs h, handInputs, (eight_handRequest h).words_ofFelts]
  exact actions_iff rfl h.entries

theorem entries_handInputs (h : HonestHand players deltas commitments log) :
    (handInputs P handId handBinding players deltas commitments log).entries =
      (handSlots players deltas).map RequestSlot.entry := (eight_handRequest h).entries_ofFelts

theorem zeroSum_handSlots (h : HonestHand players deltas commitments log) :
    ((handSlots players deltas).map RequestSlot.entry).foldl
      (fun sum e => if e.sign = 1 then sum + e.magnitude else sum - e.magnitude) 0 = 0 := by
  have hsum : ((players.zip deltas).map Prod.snd).sum = 0 := by
    rw [List.map_snd_zip h.lengths.le, h.zeroSum]
  rw [map_entry_handSlots, List.foldl_append, foldl_signed_zeros,
    foldl_signed (zip_magnitudes h), sum_toNat_eq hsum, zero_add, sub_self]

theorem countP_handSlots (h : HonestHand players deltas commitments log) :
    ((handSlots players deltas).map RequestSlot.entry).countP (fun e => e.magnitude ≠ 0) =
      deltas.countP fun d => d ≠ 0 := by
  have hmap : deltas.countP (fun d => d ≠ 0) =
      (players.zip deltas).countP fun e => e.2 ≠ 0 := by
    conv_lhs => rw [← List.map_snd_zip h.lengths.le, List.countP_map]
    rfl
  rw [map_entry_handSlots, List.countP_append, List.countP_map, List.countP_replicate, hmap]
  have hcount : (players.zip deltas).countP ((fun e => decide (e.magnitude ≠ 0)) ∘ Entry.ofDelta) =
      (players.zip deltas).countP fun e => e.2 ≠ 0 := by
    refine List.countP_congr fun e he => ?_
    have hm : natFelt e.2.natAbs = 0 ↔ e.2 = 0 := by
      rw [Fin.ext_iff, natFelt_val_of_lt (zip_magnitudes h e he)]
      exact Int.natAbs_eq_zero
    simp [Entry.ofDelta, hm]
  rw [hcount]
  simp

theorem accepts_handInputs_iff (h : HonestHand players deltas commitments log) :
    Accepts P (handInputs P handId handBinding players deltas commitments log) ↔
      (Statement.mk (natFelt handId) ((handSlots players deltas).map RequestSlot.entry)
        (logDigest P log)).digest P =
        (Statement.ofPlaintext handId players deltas (logDigest P log)).digest P ∧
      ∀ e ∈ log, e.auto = true → e.ReadsDefault := by
  have h8 : (handRequest P handId handBinding players deltas commitments log).Eight :=
    eight_handRequest h
  have hstatement : (handInputs P handId handBinding players deltas commitments log).statement =
      ⟨natFelt handId, (handSlots players deltas).map RequestSlot.entry, logDigest P log⟩ :=
    h8.statement_ofFelts
  constructor
  · intro ha
    have hdigest := ha.digest
    rw [hstatement] at hdigest
    exact ⟨hdigest, (actions_handInputs_iff h).mp ha.actions⟩
  · rintro ⟨hdigest, hdefaults⟩
    constructor
    · rw [hstatement]
      exact hdigest
    · rw [actionCount_handInputs h]
      exact h.entries
    · exact (actions_handInputs_iff h).mpr hdefaults
    · rw [loggedWords_handInputs h]
      exact h8.actionLogDigest_ofFelts.symm
    · rw [entries_handInputs h]
      intro e he
      obtain ⟨s, hs, rfl⟩ := List.mem_map.mp he
      rcases Nat.le_one_iff_eq_zero_or_eq_one.mp (mem_handSlots h hs).1 with h0 | h0 <;>
        simp only [RequestSlot.entry, h0] <;> decide
    · rw [entries_handInputs h]
      intro e he
      obtain ⟨s, hs, rfl⟩ := List.mem_map.mp he
      have hlt := (mem_handSlots h hs).2
      rwa [RequestSlot.entry, natFelt_val_of_lt hlt]
    · rw [entries_handInputs h]
      exact zeroSum_handSlots h
    · rw [entries_handInputs h, countP_handSlots h]
      rfl

/-- The segment of the circuit is the one that the server expects when the totals agree. -/
theorem circuitSegment_eq_iff (h : HonestHand players deltas commitments log) :
    circuitSegment P (handInputs P handId handBinding players deltas commitments log) =
      (handRequest P handId handBinding players deltas commitments log).publicSegmentFelts P ↔
      handWinnings deltas < u64Bound := by
  have h8 : (handRequest P handId handBinding players deltas commitments log).Eight :=
    eight_handRequest h
  have hclaims : _ = (handRequest P handId handBinding players deltas commitments
      log).deriveClaimCms P := claims_handRequest h
  have htotal : (handRequest P handId handBinding players deltas commitments log).totalWinnings =
      _ := totalWinnings_handRequest h
  have hcommitments : (handInputs P handId handBinding players deltas commitments
      log).commitments = commitments := h8.commitments_ofFelts
  have hlog : (handInputs P handId handBinding players deltas commitments log).actionLogDigest =
      logDigest P log := h8.actionLogDigest_ofFelts
  have hbinding : (handInputs P handId handBinding players deltas commitments log).handBinding =
      handBinding := rfl
  rw [circuitSegment, entries_handInputs h, hcommitments, hlog, hbinding, hclaims,
    circuitTotal_handSlots h, SettlementPrivateRequest.publicSegmentFelts, htotal,
    ← natFelt_min_eq_iff h]
  constructor
  · intro heq
    exact (List.cons.inj (List.append_inj' heq rfl).2).1
  · intro heq
    rw [heq]
    rfl

theorem settlementMain_handRequest (h : HonestHand players deltas commitments log)
    {segment : List Felt} : settlementMain P
      (handRequest P handId handBinding players deltas commitments log).inputsFelts = .ok segment ↔
    Accepts P (handInputs P handId handBinding players deltas commitments log) ∧
      circuitSegment P (handInputs P handId handBinding players deltas commitments log) =
        segment := by
  rw [settlementMain, ensure_pos (eight_handRequest h).length_inputsFelts, ok_bind]
  exact settlementPrivate_eq_ok

theorem provable_of_circuitAgrees (hS : Set.InjOn P.poseidon (hashedWords P handId players deltas log))
    (h : HonestHand players deltas commitments log)
    (hagrees : CircuitAgrees P handId handBinding players deltas commitments log) :
    Provable players deltas log := by
  obtain ⟨digest, pairs, r, hd, hp, hr, -, hrun⟩ := hagrees
  obtain rfl := Option.some.inj ((actionLogDigestFelt_eq h.known).symm.trans hd)
  obtain rfl := Option.some.inj ((actionPairs_eq h.known).symm.trans hp)
  obtain rfl := Except.ok.inj ((buildRequest_eq h).symm.trans hr)
  obtain ⟨haccepts, hsegment⟩ := (settlementMain_handRequest h).mp hrun
  obtain ⟨hsame, hdefaults⟩ := (accepts_handInputs_iff h).mp haccepts
  -- the digests agree, and the hash tells the folded slots from the players
  have hwords := hS (.inr rfl) (.inl rfl) hsame
  exact ⟨(statement_eq_iff h).mp hwords, hdefaults, (circuitSegment_eq_iff h).mp hsegment⟩

theorem circuitAgrees_of_provable (h : HonestHand players deltas commitments log)
    (hp : Provable players deltas log) :
    CircuitAgrees P handId handBinding players deltas commitments log := by
  refine ⟨_, _, _, actionLogDigestFelt_eq h.known, actionPairs_eq h.known, buildRequest_eq h,
    computeSettlementDigest_of_lt (zip_magnitudes h), (settlementMain_handRequest h).mpr ⟨?_, ?_⟩⟩
  · refine (accepts_handInputs_iff h).mpr ⟨?_, hp.defaults⟩
    exact congrArg P.poseidon ((statement_eq_iff h).mpr hp.full)
  · exact (circuitSegment_eq_iff h).mpr hp.winnings

/-- The circuit agrees with the server and the contract on an honest hand exactly when eight
players took part, the actions of the server read as defaults, and the winnings have 64 bits. -/
theorem circuitAgrees_iff (hS : Set.InjOn P.poseidon (hashedWords P handId players deltas log))
    (h : HonestHand players deltas commitments log) :
    CircuitAgrees P handId handBinding players deltas commitments log ↔
      Provable players deltas log :=
  ⟨provable_of_circuitAgrees hS h, circuitAgrees_of_provable h⟩

instance : NeZero u32Bound := ⟨by decide⟩

instance : NeZero u64Bound := ⟨by decide⟩

/-- A call of a player, and a fold of the server facing a raise. -/
def callThenFold : List ActionLogEntry :=
  [⟨0, 1, "call", 40, false, true, 40, 0, 40⟩, ⟨1, 2, "FOLD", 0, true, false, 160, 0, 40⟩]

theorem callThenFold_readsDefault : ∀ e ∈ callThenFold, e.auto = true → e.ReadsDefault := by
  intro e he hauto
  simp only [callThenFold, List.mem_cons, List.not_mem_nil, or_false] at he
  rcases he with rfl | rfl
  · exact absurd hauto (by decide)
  · exact ⟨by decide, by decide⟩

/-- Eight players, of whom the first wins a hundred from every other. -/
theorem fullTable_circuitAgrees : CircuitAgrees Chain.toyPrimitives ⟨4, by decide⟩ 77
    [9, 10, 11, 12, 13, 14, 15, 16] (700 :: List.replicate 7 (-100)) (50 :: List.replicate 7 0)
    callThenFold := by
  have hinj : Set.InjOn Chain.toyPrimitives.poseidon (hashedWords Chain.toyPrimitives
      ⟨4, by decide⟩ [9, 10, 11, 12, 13, 14, 15, 16] (700 :: List.replicate 7 (-100))
      callThenFold) :=
    Set.injOn_pair.mpr fun _ => by decide +kernel
  refine (circuitAgrees_iff hinj ?_).mpr ⟨rfl, callThenFold_readsDefault, by decide⟩
  exact ⟨by decide, by decide, by decide, by decide, by decide, by decide, by decide +kernel,
    by decide, by decide +kernel⟩

/-- The circuit refuses the digest of a hand of two players. -/
theorem headsUp_not_circuitAgrees :
    HonestHand [9, 10] [1000, -1000] (50 :: List.replicate 7 0) (callThenFold.take 1) ∧
    Set.InjOn Chain.toyPrimitives.poseidon (hashedWords Chain.toyPrimitives ⟨4, by decide⟩ [9, 10]
      [1000, -1000] (callThenFold.take 1)) ∧
    ¬ CircuitAgrees Chain.toyPrimitives ⟨4, by decide⟩ 77 [9, 10] [1000, -1000]
      (50 :: List.replicate 7 0) (callThenFold.take 1) := by
  have hhand : HonestHand [9, 10] [1000, -1000] (50 :: List.replicate 7 0)
      (callThenFold.take 1) :=
    ⟨by decide, by decide, by decide, by decide, by decide, by decide, by decide +kernel,
      by decide, by decide +kernel⟩
  have hinj : Set.InjOn Chain.toyPrimitives.poseidon (hashedWords Chain.toyPrimitives
      ⟨4, by decide⟩ [9, 10] [1000, -1000] (callThenFold.take 1)) :=
    Set.injOn_pair.mpr fun h => absurd h (by decide +kernel)
  exact ⟨hhand, hinj, fun h => absurd (provable_of_circuitAgrees hinj hhand h).full (by decide)⟩

end TexasPoker.Contracts
