import TexasPoker.Lib.Codec
import TexasPoker.Settlement.Encoding
import TexasPoker.Settlement.Validity

/-! # Decoding of settlement plans

The decoders of ranks, runouts, layers and plans. Each accepts its values from their encodings
only, so a plan has one encoding.
-/

namespace TexasPoker

open Decoder

/-! ## Ranks, masks and schedules -/

def readHandRank : Decoder HandRank := do
  let category ← uint 1
  let kickers ← many (uint 1) 5
  return ⟨category, kickers⟩

/-- A rank of bytes. -/
structure HandRank.Fits (r : HandRank) : Prop where
  category : r.category < 256 ^ 1
  kickers : r.kickers.length = 5 ∧ ∀ k ∈ r.kickers, k < 256 ^ 1

theorem reads_handRank : readHandRank.Reads HandRank.encode HandRank.Fits := by
  intro input rest r
  simp only [readHandRank, (reads_uint 1).bind_eq_ok, ((reads_uint 1).many 5).bind_eq_ok,
    pure_eq_ok]
  constructor
  · rintro ⟨category, _, hc, rfl, kickers, _, hk, rfl, rfl, rfl⟩
    exact ⟨⟨hc, hk⟩, by rw [HandRank.encode, List.append_assoc]⟩
  · rintro ⟨⟨hc, hk⟩, rfl⟩
    exact ⟨r.category, _, hc, List.append_assoc .., r.kickers, _, hk, rfl, rfl, rfl⟩

theorem encodeRank_eq : encodeRank = writeOption HandRank.encode := by
  funext o
  cases o <;> rfl

def readSeatMask : Decoder SeatMask := do return BitVec.ofNat 16 (← uint 2)

theorem reads_seatMask :
    readSeatMask.Reads (fun mask => leBytes 2 mask.toNat) fun _ => True := by
  intro input rest mask
  simp only [readSeatMask, (reads_uint 2).bind_eq_ok, pure_eq_ok]
  constructor
  · rintro ⟨n, _, hn, rfl, rfl, rfl⟩
    rw [BitVec.toNat_ofNat, Nat.mod_eq_of_lt (show n < 2 ^ 16 from hn)]
    exact ⟨trivial, rfl⟩
  · rintro ⟨-, rfl⟩
    exact ⟨mask.toNat, rest, mask.isLt, rfl, by simp, rfl⟩

def readRitStartStreet : Decoder RitStartStreet := do
  match ← uint 1 with
  | 0 => return .preflop
  | 1 => return .flop
  | 2 => return .turn
  | b => throw s!"Unexpected variant tag: {b}"

theorem reads_ritStartStreet :
    readRitStartStreet.Reads RitStartStreet.encode fun _ => True := by
  intro input rest start
  simp only [readRitStartStreet, (reads_uint 1).bind_eq_ok]
  constructor
  · rintro ⟨tag, mid, -, rfl, h⟩
    split at h
    case h_4 => exact absurd h throw_ne_ok
    all_goals
      obtain ⟨rfl, rfl⟩ := pure_eq_ok.mp h
      exact ⟨trivial, rfl⟩
  · rintro ⟨-, rfl⟩
    cases start with
    | preflop => exact ⟨0, rest, by decide, rfl, rfl⟩
    | flop => exact ⟨1, rest, by decide, rfl, rfl⟩
    | turn => exact ⟨2, rest, by decide, rfl, rfl⟩

def readSchedule : Decoder SettlementRunoutSchedule := do
  match ← uint 1 with
  | 0 => return .single
  | 1 => return .twice (← readRitStartStreet)
  | b => throw s!"Unexpected variant tag: {b}"

theorem reads_schedule :
    readSchedule.Reads SettlementRunoutSchedule.encode fun _ => True := by
  intro input rest schedule
  simp only [readSchedule, (reads_uint 1).bind_eq_ok]
  constructor
  · rintro ⟨tag, mid, -, rfl, h⟩
    split at h
    · obtain ⟨rfl, rfl⟩ := pure_eq_ok.mp h
      exact ⟨trivial, rfl⟩
    · obtain ⟨start, mid', -, rfl, hs⟩ := reads_ritStartStreet.bind_eq_ok.mp h
      obtain ⟨rfl, rfl⟩ := pure_eq_ok.mp hs
      exact ⟨trivial, (List.append_assoc ..).symm⟩
    · exact absurd h throw_ne_ok
  · rintro ⟨-, rfl⟩
    cases schedule with
    | single => exact ⟨0, rest, by decide, rfl, rfl⟩
    | twice start =>
      refine ⟨1, start.encode ++ rest, by decide, List.append_assoc .., ?_⟩
      exact reads_ritStartStreet.bind_eq_ok.mpr ⟨start, rest, trivial, rfl, rfl⟩

/-! ## Runouts -/

def readSeatAmounts : Decoder SeatAmounts := array (uint 8) maxSeats

theorem reads_seatAmounts :
    readSeatAmounts.Reads SeatAmounts.encode fun a => ∀ i, a i < 256 ^ 8 :=
  (reads_uint 8).array maxSeats

def readRunoutPotPlan : Decoder RunoutPotPlan := do
  let amount ← uint 8
  let winnerMask ← readSeatMask
  let ranks ← array (option readHandRank) maxSeats
  let awards ← readSeatAmounts
  if winnerMask = 0 ∧ (amount ≠ 0 ∨ (∃ i, (ranks i).isSome = true) ∨ ∃ i, awards i ≠ 0) then
    throw "inactive settlement runout carries non-zero payload"
  else return ⟨amount, winnerMask, ranks, awards⟩

namespace RunoutPotPlan

/-- The runout is one of machine words. -/
structure Fits (r : RunoutPotPlan) : Prop where
  amount : r.amount < 256 ^ 8
  ranks : ∀ i, ∀ rank ∈ r.ranks i, rank.Fits
  awards : ∀ i, r.awards i < 256 ^ 8

theorem fits_inactive : inactive.Fits where
  amount := by decide
  ranks _ _ h := by cases h
  awards _ := (by decide : 0 < 256 ^ 8)

/-- Without winners the slot is empty. -/
def Canonical (r : RunoutPotPlan) : Prop := r.winnerMask = 0 → r = .inactive

theorem canonical_iff {r : RunoutPotPlan} : r.Canonical ↔
    ¬ (r.winnerMask = 0 ∧
      (r.amount ≠ 0 ∨ (∃ i, (r.ranks i).isSome = true) ∨ ∃ i, r.awards i ≠ 0)) := by
  rw [not_and]
  refine imp_congr_right fun hmask => ?_
  simp only [not_or, not_exists, not_not, Bool.not_eq_true, Option.isSome_eq_false_iff,
    Option.isNone_iff_eq_none]
  constructor
  · intro h
    rw [h]
    exact ⟨rfl, fun _ => rfl, fun _ => rfl⟩
  · rintro ⟨hamount, hranks, hawards⟩
    obtain ⟨amount, winnerMask, ranks, awards⟩ := r
    obtain rfl : awards = .zero := funext hawards
    obtain rfl : ranks = fun _ => none := funext hranks
    simp_all [inactive]

end RunoutPotPlan

theorem reads_runoutPotPlan :
    readRunoutPotPlan.Reads RunoutPotPlan.encode fun r => r.Fits ∧ r.Canonical := by
  intro input rest r
  simp only [readRunoutPotPlan, (reads_uint 8).bind_eq_ok, reads_seatMask.bind_eq_ok,
    (reads_handRank.option.array maxSeats).bind_eq_ok, reads_seatAmounts.bind_eq_ok]
  constructor
  · rintro ⟨amount, _, hamount, rfl, mask, _, -, rfl, ranks, _, hranks, rfl, awards, mid, hawards,
      rfl, h⟩
    split at h
    · exact absurd h throw_ne_ok
    · rename_i hc
      obtain ⟨rfl, rfl⟩ := pure_eq_ok.mp h
      refine ⟨⟨⟨hamount, hranks, hawards⟩, RunoutPotPlan.canonical_iff.mpr hc⟩, ?_⟩
      simp only [RunoutPotPlan.encode, encodeRank_eq, List.append_assoc]
  · rintro ⟨⟨⟨hamount, hranks, hawards⟩, hc⟩, rfl⟩
    refine ⟨r.amount, _, hamount, ?_, r.winnerMask, _, trivial, rfl, r.ranks, _, hranks, rfl,
      r.awards, rest, hawards, rfl, ?_⟩
    · simp only [RunoutPotPlan.encode, encodeRank_eq, List.append_assoc]
    · rw [if_neg (RunoutPotPlan.canonical_iff.mp hc)]
      rfl

/-! ## Layers -/

/-- The fields of a layer in order. -/
def readPotFields : Decoder SettlementPotPlan := do
  let potIndex ← uint 1
  let grossAmount ← uint 8
  let rake ← uint 8
  let netAmount ← uint 8
  let eligibleMask ← readSeatMask
  let runouts ← array readRunoutPotPlan 2
  return ⟨potIndex, grossAmount, rake, netAmount, eligibleMask, runouts⟩

def readSettlementPotPlan : Decoder SettlementPotPlan := do
  let pot ← readPotFields
  if pot.eligibleMask = 0 then throw "settlement pot has no eligible seats" else return pot

/-- An empty slot of a plan. -/
def readInactivePotPlan : Decoder SettlementPotPlan := do
  let pot ← readPotFields
  if pot.potIndex ≠ 0 ∨ pot.grossAmount ≠ 0 ∨ pot.rake ≠ 0 ∨ pot.netAmount ≠ 0 ∨
      pot.eligibleMask ≠ 0 ∨ pot.runouts ≠ fun _ => .inactive then
    throw "inactive settlement pot slot carries non-zero payload"
  else return .inactive

namespace SettlementPotPlan

/-- The layer is one of machine words. -/
structure Fits (p : SettlementPotPlan) : Prop where
  potIndex : p.potIndex < 256 ^ 1
  grossAmount : p.grossAmount < 256 ^ 8
  rake : p.rake < 256 ^ 8
  netAmount : p.netAmount < 256 ^ 8
  runouts : ∀ r, (p.runouts r).Fits

theorem fits_inactive : inactive.Fits where
  potIndex := by decide
  grossAmount := by decide
  rake := by decide
  netAmount := by decide
  runouts _ := RunoutPotPlan.fits_inactive

theorem eq_inactive_iff {p : SettlementPotPlan} : p = .inactive ↔
    ¬ (p.potIndex ≠ 0 ∨ p.grossAmount ≠ 0 ∨ p.rake ≠ 0 ∨ p.netAmount ≠ 0 ∨ p.eligibleMask ≠ 0 ∨
      p.runouts ≠ fun _ => .inactive) := by
  obtain ⟨potIndex, grossAmount, rake, netAmount, eligibleMask, runouts⟩ := p
  simp only [inactive, mk.injEq, not_or, not_not]

end SettlementPotPlan

theorem reads_potFields : readPotFields.Reads SettlementPotPlan.encode fun p =>
    p.Fits ∧ ∀ r, (p.runouts r).Canonical := by
  intro input rest p
  simp only [readPotFields, (reads_uint 1).bind_eq_ok, (reads_uint 8).bind_eq_ok,
    reads_seatMask.bind_eq_ok, (reads_runoutPotPlan.array 2).bind_eq_ok, pure_eq_ok]
  constructor
  · rintro ⟨potIndex, _, hi, rfl, gross, _, hg, rfl, rake, _, hr, rfl, net, _, hn, rfl, mask, _, -,
      rfl, runouts, _, hrun, rfl, rfl, rfl⟩
    refine ⟨⟨⟨hi, hg, hr, hn, fun r => (hrun r).1⟩, fun r => (hrun r).2⟩, ?_⟩
    simp only [SettlementPotPlan.encode, List.append_assoc]
  · rintro ⟨⟨hfits, hcanonical⟩, rfl⟩
    refine ⟨p.potIndex, _, hfits.potIndex, ?_, p.grossAmount, _, hfits.grossAmount, rfl, p.rake, _,
      hfits.rake, rfl, p.netAmount, _, hfits.netAmount, rfl, p.eligibleMask, _, trivial, rfl,
      p.runouts, rest, fun r => ⟨hfits.runouts r, hcanonical r⟩, rfl, rfl, rfl⟩
    simp only [SettlementPotPlan.encode, List.append_assoc]

theorem reads_settlementPotPlan : readSettlementPotPlan.Reads SettlementPotPlan.encode fun p =>
    (p.Fits ∧ ∀ r, (p.runouts r).Canonical) ∧ p.eligibleMask ≠ 0 := by
  intro input rest p
  simp only [readSettlementPotPlan, reads_potFields.bind_eq_ok]
  constructor
  · rintro ⟨pot, mid, hpot, rfl, h⟩
    split at h
    · exact absurd h throw_ne_ok
    · rename_i hmask
      obtain ⟨rfl, rfl⟩ := pure_eq_ok.mp h
      exact ⟨⟨hpot, hmask⟩, rfl⟩
  · rintro ⟨⟨hpot, hmask⟩, rfl⟩
    refine ⟨p, rest, hpot, rfl, ?_⟩
    rw [if_neg hmask]
    rfl

theorem reads_inactivePotPlan :
    readInactivePotPlan.Reads SettlementPotPlan.encode fun p => p = .inactive := by
  intro input rest p
  simp only [readInactivePotPlan, reads_potFields.bind_eq_ok]
  constructor
  · rintro ⟨pot, mid, -, rfl, h⟩
    split at h
    · exact absurd h throw_ne_ok
    · rename_i hpot
      obtain ⟨rfl, rfl⟩ := pure_eq_ok.mp h
      rw [← SettlementPotPlan.eq_inactive_iff] at hpot
      exact ⟨rfl, by rw [hpot]⟩
  · rintro ⟨rfl, rfl⟩
    refine ⟨.inactive, rest, ⟨SettlementPotPlan.fits_inactive, fun _ _ => rfl⟩, rfl, ?_⟩
    rw [if_neg (SettlementPotPlan.eq_inactive_iff.mp rfl)]
    rfl

/-! ## Plans -/

/-- One slot of a plan: a layer, or nothing behind the last one. -/
def readPotSlot (potCount : ℕ) (slot : Fin maxSeats) : Decoder SettlementPotPlan :=
  if slot.1 < potCount then readSettlementPotPlan else readInactivePotPlan

def readSettlementPlan : Decoder SettlementPlan := do
  let version ← uint 1
  let schedule ← readSchedule
  let grossPot ← uint 8
  let rake ← uint 8
  let totalAwards ← uint 8
  let winnerMask ← readSeatMask
  let awards ← readSeatAmounts
  let potCount ← uint 1
  if maxSeats < potCount then throw "settlement plan pot_count exceeds fixed width" else
  let pots ← slots maxSeats (readPotSlot potCount)
  return ⟨version, schedule, grossPot, rake, totalAwards, winnerMask, awards, potCount, pots⟩

namespace SettlementPlan

/-- The plan is one of machine words. -/
structure Fits (p : SettlementPlan) : Prop where
  version : p.version < 256 ^ 1
  grossPot : p.grossPot < 256 ^ 8
  rake : p.rake < 256 ^ 8
  totalAwards : p.totalAwards < 256 ^ 8
  awards : ∀ i, p.awards i < 256 ^ 8
  potCount : p.potCount < 256 ^ 1
  pots : ∀ i, (p.pots i).Fits

/-- Empty slots of the plan and of its layers are empty. -/
structure Canonical (p : SettlementPlan) : Prop where
  potCount : p.potCount ≤ maxSeats
  active : ∀ i : Fin maxSeats, i.1 < p.potCount →
    (∀ r, ((p.pots i).runouts r).Canonical) ∧ (p.pots i).eligibleMask ≠ 0
  inactive : ∀ i : Fin maxSeats, p.potCount ≤ i.1 → p.pots i = .inactive

end SettlementPlan

theorem reads_potSlot (potCount : ℕ) (slot : Fin maxSeats) :
    (readPotSlot potCount slot).Reads SettlementPotPlan.encode fun pot =>
      if slot.1 < potCount then
        (pot.Fits ∧ ∀ r, (pot.runouts r).Canonical) ∧ pot.eligibleMask ≠ 0
      else pot = .inactive := by
  unfold readPotSlot
  split
  · exact reads_settlementPotPlan
  · exact reads_inactivePotPlan

theorem reads_settlementPlan : readSettlementPlan.Reads SettlementPlan.encode fun p =>
    p.Fits ∧ p.Canonical := by
  intro input rest p
  simp only [readSettlementPlan, (reads_uint 1).bind_eq_ok, (reads_uint 8).bind_eq_ok,
    reads_schedule.bind_eq_ok, reads_seatMask.bind_eq_ok, reads_seatAmounts.bind_eq_ok]
  constructor
  · rintro ⟨version, _, hv, rfl, schedule, _, -, rfl, gross, _, hg, rfl, rake, _, hr, rfl, total, _,
      ht, rfl, mask, _, -, rfl, awards, _, ha, rfl, potCount, mid, hp, rfl, h⟩
    split at h
    · exact absurd h throw_ne_ok
    rename_i hcount
    obtain ⟨pots, _, hpots, rfl, hplan⟩ := (reads_slots (reads_potSlot potCount)).bind_eq_ok.mp h
    obtain ⟨rfl, rfl⟩ := pure_eq_ok.mp hplan
    refine ⟨⟨⟨hv, hg, hr, ht, ha, hp, fun i => ?_⟩,
      ⟨not_lt.mp hcount, fun i hi => ?_, fun i hi => ?_⟩⟩, ?_⟩
    · have hi := hpots i
      dsimp only at hi ⊢
      split at hi
      · exact hi.1.1
      · rw [hi]
        exact SettlementPotPlan.fits_inactive
    · have hpot := hpots i
      rw [if_pos hi] at hpot
      exact ⟨hpot.1.2, hpot.2⟩
    · have hpot := hpots i
      rwa [if_neg (not_lt.mpr hi)] at hpot
    · simp only [SettlementPlan.encode, List.append_assoc]
  · rintro ⟨⟨hfits, hcanonical⟩, rfl⟩
    refine ⟨p.version, _, hfits.version, ?_, p.schedule, _, trivial, rfl, p.grossPot, _,
      hfits.grossPot, rfl, p.rake, _, hfits.rake, rfl, p.totalAwards, _, hfits.totalAwards, rfl,
      p.winnerMask, _, trivial, rfl, p.awards, _, hfits.awards, rfl, p.potCount,
      (List.ofFn p.pots).flatMap SettlementPotPlan.encode ++ rest, hfits.potCount, rfl, ?_⟩
    · simp only [SettlementPlan.encode, List.append_assoc]
    · rw [if_neg (not_lt.mpr hcanonical.potCount)]
      refine (reads_slots (reads_potSlot p.potCount)).bind_eq_ok.mpr
        ⟨p.pots, rest, fun i => ?_, rfl, rfl⟩
      split
      · rename_i hi
        obtain ⟨hruns, hmask⟩ := hcanonical.active i hi
        exact ⟨⟨hfits.pots i, hruns⟩, hmask⟩
      · rename_i hi
        exact hcanonical.inactive i (not_lt.mp hi)

/-! ## Validated plans -/

/-- The winners of a valid layer may win it. -/
theorem SettlementPotPlan.Settled.eligible_of_mem {schedule : SettlementRunoutSchedule}
    {seatCount index i : ℕ} {pot : SettlementPotPlan} (h : pot.Settled schedule seatCount index)
    (hi : Mask.mem pot.winnerMask i = true) : ∃ r, Mask.mem (pot.runouts r).winnerMask i = true ∧
      (pot.runouts r).winnerMask &&& ~~~pot.eligibleMask = 0 := by
  have hr (r : Fin 2) (hmem : Mask.mem (pot.runouts r).winnerMask i = true) :
      (pot.runouts r).winnerMask &&& ~~~pot.eligibleMask = 0 := by
    have hr := h.runouts r
    unfold SettlementPotPlan.RunoutValid at hr
    split at hr
    · rw [hr]
      exact BitVec.zero_and
    · exact hr.winners
  rw [SettlementPotPlan.winnerMask, Mask.mem_or, Bool.or_eq_true] at hi
  rcases hi with hi | hi
  · exact ⟨0, hi, hr 0 hi⟩
  · exact ⟨1, hi, hr 1 hi⟩

namespace SettlementPlan

variable {p : SettlementPlan} {seatCount : ℕ}

theorem Totals.mem_addPots {acc : Totals} {pots : List SettlementPotPlan} {i : ℕ} :
    Mask.mem (acc.addPots pots).winnerMask i = true ↔
      Mask.mem acc.winnerMask i = true ∨ ∃ pot ∈ pots, Mask.mem pot.winnerMask i = true := by
  induction pots generalizing acc with
  | nil => simp
  | cons pot pots ih =>
    rw [Totals.addPots_cons, ih]
    simp only [addPot, Mask.mem_or, Bool.or_eq_true, List.mem_cons, exists_eq_or_imp, or_assoc]

theorem Valid.settled_of_mem (h : p.Valid seatCount) {pot : SettlementPotPlan}
    (hpot : pot ∈ p.activePots) : ∃ index, pot.Settled p.schedule seatCount index := by
  obtain ⟨index, hindex, rfl⟩ := List.mem_iff_getElem.mp hpot
  exact ⟨index, h.settled (p.activePots[index], index) (List.mem_zipIdx_iff_getElem?.mpr
    (List.getElem?_eq_getElem hindex))⟩

theorem mem_activePots {i : Fin maxSeats} (hi : i.1 < p.potCount) : p.pots i ∈ p.activePots := by
  rw [activePots, List.mem_take_iff_getElem]
  have hlt : i.1 < min p.potCount (List.ofFn p.pots).length := by
    rw [List.length_ofFn]
    exact lt_min hi i.isLt
  exact ⟨i, hlt, List.getElem_ofFn ..⟩

theorem Valid.canonical (h : p.Valid seatCount) : p.Canonical where
  potCount := h.potBound
  active i hi := by
    obtain ⟨index, hs⟩ := h.settled_of_mem (mem_activePots hi)
    refine ⟨fun r hmask => ?_, fun hmask => hs.eligible (by rw [hmask]; rfl)⟩
    have hr := hs.runouts r
    unfold SettlementPotPlan.RunoutValid at hr
    split at hr
    · exact hr
    · have := hr.active
      rw [RunoutPotPlan.isActive, hmask] at this
      cases this
  inactive := h.inactive

/-- A seat paid by a valid plan won a layer it was eligible for. -/
theorem Valid.eligible_of_paid (h : p.Valid seatCount) {i : Fin maxSeats} (hi : 0 < p.awards i) :
    i.1 < seatCount ∧ ∃ pot ∈ p.activePots, ∃ r, Mask.mem (pot.runouts r).winnerMask i = true ∧
      (pot.runouts r).winnerMask &&& ~~~pot.eligibleMask = 0 := by
  constructor
  · by_contra hge
    have := h.seats i (not_lt.mp hge)
    omega
  · have hmem := h.paid i hi
    have hunion : (Totals.none.addPots p.activePots).winnerMask = p.winnerMask := by
      rw [h.totals]
    rw [← hunion, Totals.mem_addPots] at hmem
    obtain ⟨pot, hpot, hwon⟩ := hmem.resolve_left (by simp [Totals.none])
    obtain ⟨index, hs⟩ := h.settled_of_mem hpot
    exact ⟨pot, hpot, hs.eligible_of_mem hwon⟩

/-- A validated plan is decoded from its encoding, which is the only one; and what is decoded and
validated pays the pot less the rake, to seats that won a layer they were eligible for. -/
theorem canonicalEncoding :
    (∀ (p : SettlementPlan) (seatCount : ℕ), p.Fits → p.validate seatCount = .ok () →
      run readSettlementPlan p.encode = .ok p) ∧
    (∀ (input : Bytes) (p : SettlementPlan), run readSettlementPlan input = .ok p →
      p.encode = input) ∧
    ∀ (input : Bytes) (p : SettlementPlan) (seatCount : ℕ),
      run readSettlementPlan input = .ok p → p.validate seatCount = .ok () →
        p.rake ≤ p.grossPot ∧ p.awards.sum = p.grossPot - p.rake ∧
        ∀ i : Fin maxSeats, 0 < p.awards i → i.1 < seatCount ∧
          ∃ pot ∈ p.activePots, ∃ r, Mask.mem (pot.runouts r).winnerMask i = true ∧
            (pot.runouts r).winnerMask &&& ~~~pot.eligibleMask = 0 := by
  refine ⟨fun p seatCount hfits hv => ?_, fun input p hrun => ?_, fun _ p seatCount _ hv => ?_⟩
  · exact reads_settlementPlan.run_eq_ok.mpr ⟨⟨hfits, (valid_of_validate hv).canonical⟩, rfl⟩
  · exact (reads_settlementPlan.run_eq_ok.mp hrun).2.symm
  · have hvalid := valid_of_validate hv
    have := hvalid.conserves
    exact ⟨hvalid.balance.1, by omega, fun _ hi => hvalid.eligible_of_paid hi⟩

/-- An uncalled bet of thirty goes back to the first seat. -/
def returned : SettlementPlan where
  version := settlementPlanVersion
  schedule := .single
  grossPot := 30
  rake := 0
  totalAwards := 30
  winnerMask := 1
  awards := SeatAmounts.zero.put 0 30
  potCount := 1
  pots i := if i = 0 then
      ⟨0, 30, 0, 30, 1, fun r => if r = 0 then ⟨30, 1, fun _ => none, SeatAmounts.zero.put 0 30⟩
        else .inactive⟩
    else .inactive

theorem returned_fits : returned.Fits where
  version := by decide
  grossPot := by decide
  rake := by decide
  totalAwards := by decide
  awards := by decide
  potCount := by decide
  pots i := by
    unfold returned
    dsimp only
    split
    · refine ⟨by decide, by decide, by decide, by decide, fun r => ?_⟩
      dsimp only
      split
      · exact ⟨by decide, (fun _ _ h => by cases h), by decide⟩
      · exact RunoutPotPlan.fits_inactive
    · exact SettlementPotPlan.fits_inactive

theorem returned_canonical : run readSettlementPlan returned.encode = .ok returned ∧
    returned.awards.sum = returned.grossPot - returned.rake := by
  have hv : returned.validate 2 = .ok () := by decide +kernel
  have hrun := canonicalEncoding.1 returned 2 returned_fits hv
  exact ⟨hrun, (canonicalEncoding.2.2 _ returned 2 hrun hv).2.1⟩

end SettlementPlan

end TexasPoker
