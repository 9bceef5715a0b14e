import Mathlib.Data.Set.BooleanAlgebra
import Mathlib.Order.CompletePartialOrder
import TexasPoker.Poker.Reference

/-! # Side pots conserve and nest

The slot writes stay in range, the layers hold all chips, and the seats eligible for a layer
are eligible for the layers below it.
-/

namespace TexasPoker.SidePot

variable {cs : List Contribution} {l : List SidePot} {layer : SidePot} {prev level j : ℕ}

/-! ## Checked slots -/

section Checked

variable {α : Type}

/-- An indexed write, which panics out of range. -/
def setSlot? (slots : List α) (i : ℕ) (a : α) : Option (List α) :=
  if i < slots.length then some (slots.set i a) else none

/-- An indexed update, which panics out of range. -/
def modifySlot? (slots : List α) (i : ℕ) (f : α → α) : Option (List α) :=
  if i < slots.length then some (slots.modify i f) else none

/-- `levels` with checked writes. -/
def levels? (cs : List Contribution) : Option (List ℕ) :=
  cs.zipIdx.foldlM (fun slots (c, j) =>
    if c.isLevel then setSlot? slots (levelRank cs j c) c.bet else some slots)
    (List.replicate maxSidePots 0)

/-- `recordLayer` with checked writes. -/
def recordLayer? (r : SidePotResult) (layer : SidePot) : Option SidePotResult :=
  if layer.amount = 0 then some r
  else if layer.eligibleSeats = 0 ∧ 0 < r.potCount then do
    let merge (last : SidePot) := { last with amount := last.amount + layer.amount }
    let pots ← modifySlot? r.pots (r.potCount - 1) merge
    return { r with pots }
  else do
    let pots ← setSlot? r.pots r.potCount layer
    return ⟨pots, r.potCount + 1⟩

/-- `sliceLevel` with checked writes. -/
def sliceLevel? (cs : List Contribution) (acc : SidePotResult × ℕ) (level : ℕ) :
    Option (SidePotResult × ℕ) :=
  if level = 0 ∨ level ≤ acc.2 then some acc
  else do
    let r ← recordLayer? acc.1 (sliceLayer cs acc.2 (some level))
    return (r, level)

/-- The outermost layer with checked writes. -/
def outermost? (cs : List Contribution) (totalPot : ℕ) (acc : SidePotResult × ℕ) :
    Option SidePotResult :=
  if acc.2 < totalPot then recordLayer? acc.1 (sliceLayer cs acc.2 none) else some acc.1

/-- `calculateSidePots` with checked writes: a write out of range gives no result at all. -/
def calculateSidePots? (cs : List Contribution) : Option (Except SidePotError SidePotResult) :=
  if maxSidePots < cs.length then some (.error .lengthMismatch)
  else match sumBets (cs.map Contribution.bet) with
    | .error e => some (.error e)
    | .ok totalPot => do
      let slots ← levels? cs
      let acc ← slots.foldlM (sliceLevel? cs) (.empty, 0)
      let result ← outermost? cs totalPot acc
      if result.potCount = 0 then do
        let pots ← setSlot? result.pots 0 ⟨totalPot, 0⟩
        return .ok ⟨pots, 1⟩
      else some (.ok result)

theorem levels?_eq (hcs : cs.length ≤ maxSidePots) : levels? cs = some (levels cs) := by
  refine (Fallible.foldlM_eq_some (P := fun slots => slots.length = maxSidePots) ?_ rfl).1
  rintro ⟨c, j⟩ he slots hslots
  dsimp only
  by_cases hlevel : c.isLevel = true
  · have hrank : levelRank cs j c < slots.length := by
      rw [hslots]
      exact (levelRank_lt he hlevel).trans_le hcs
    rw [if_pos hlevel, if_pos hlevel, setSlot?, if_pos hrank]
    exact ⟨rfl, List.length_set.trans hslots⟩
  · rw [if_neg hlevel, if_neg hlevel]
    exact ⟨rfl, hslots⟩

theorem recordLayer?_eq (h : (addLayer l layer).length ≤ maxSidePots) :
    recordLayer? (ofActive l) layer = some (recordLayer (ofActive l) layer) := by
  unfold recordLayer? recordLayer
  by_cases ha : layer.amount = 0
  · rw [if_pos ha, if_pos ha]
  have hslots : l.length ≤ maxSidePots → (ofActive l).pots.length = maxSidePots := by
    intro hl
    simp only [ofActive, List.length_append, List.length_replicate]
    omega
  rw [if_neg ha, if_neg ha]
  by_cases he : layer.eligibleSeats = 0 ∧ 0 < (ofActive l).potCount
  · have hlen : l.length ≤ maxSidePots := by
      rw [addLayer, if_neg ha, if_pos ⟨he.1, List.length_pos_iff.mp he.2⟩, List.length_modify] at h
      exact h
    have hlast : (ofActive l).potCount - 1 < (ofActive l).pots.length := by
      rw [hslots hlen]
      change l.length - 1 < maxSidePots
      have : maxSidePots = 9 := rfl
      omega
    rw [if_pos he, if_pos he]
    simp only [modifySlot?, if_pos hlast]
    rfl
  · have hne : ¬ (layer.eligibleSeats = 0 ∧ l ≠ []) :=
      fun hp => he ⟨hp.1, List.length_pos_iff.mpr hp.2⟩
    rw [addLayer, if_neg ha, if_neg hne, List.length_append, List.length_singleton] at h
    have hnext : (ofActive l).potCount < (ofActive l).pots.length := by
      rw [hslots (by omega)]
      exact h
    rw [if_neg he, if_neg he]
    simp only [setSlot?, if_pos hnext]
    rfl

/-- The slots hold layers of the contributions up to the current level. -/
def Holds (cs : List Contribution) (acc : SidePotResult × ℕ) : Prop :=
  ∃ l, acc.1 = ofActive l ∧ Layered cs l acc.2

theorem sliceLevel?_eq (hcs : cs.length ≤ maxSidePots) {acc : SidePotResult × ℕ}
    (h : Holds cs acc) (hlevel : level = 0 ∨ ∃ c ∈ cs, c.bet = level) :
    sliceLevel? cs acc level = some (sliceLevel cs acc level) ∧
      Holds cs (sliceLevel cs acc level) := by
  obtain ⟨r, prev⟩ := acc
  obtain ⟨l, rfl, hl⟩ := h
  dsimp only at hl
  by_cases hk : level = 0 ∨ level ≤ prev
  · rw [sliceLevel?, sliceLevel, if_pos hk, if_pos hk]
    exact ⟨rfl, l, rfl, hl⟩
  · obtain ⟨c, hc, rfl⟩ := hlevel.resolve_left fun h => hk (.inl h)
    have hp : prev < c.bet := not_le.mp fun h => hk (.inr h)
    have hl' := hl.addLayer hp fun _ => ⟨c, hc, hp, le_rfl⟩
    have hlen := (hl'.length_le.trans card_betValues_le).trans hcs
    rw [sliceLevel?, sliceLevel, if_neg hk, if_neg hk, recordLayer?_eq hlen]
    exact ⟨rfl, _, recordLayer_ofActive hlen, hl'⟩

/-- The outermost layer finds a slot. -/
theorem outermost?_eq (hcs : cs.length ≤ maxSidePots) {acc : SidePotResult × ℕ} (h : Holds cs acc) :
    let result := if acc.2 < (cs.map Contribution.bet).sum then
      recordLayer acc.1 (sliceLayer cs acc.2 none) else acc.1
    outermost? cs (cs.map Contribution.bet).sum acc = some result ∧
      result.pots.length = maxSidePots := by
  obtain ⟨r, prev⟩ := acc
  obtain ⟨l, rfl, hl⟩ := h
  have hslots : ∀ l : List SidePot, l.length ≤ maxSidePots →
      (ofActive l).pots.length = maxSidePots := by
    intro l hlen
    simp only [ofActive, List.length_append, List.length_replicate]
    omega
  dsimp only [outermost?] at hl ⊢
  by_cases hp : prev < (cs.map Contribution.bet).sum
  · rw [if_pos hp, if_pos hp, sliceLayer_none fun c hc => bet_le_sum hc]
    have hl' := hl.addLayer hp fun ha => by
      obtain ⟨c, hc, hpc⟩ := exists_bet_of_slice ha
      exact ⟨c, hc, hpc, bet_le_sum hc⟩
    have hlen := (hl'.length_le.trans card_betValues_le).trans hcs
    refine ⟨recordLayer?_eq hlen, ?_⟩
    rw [recordLayer_ofActive hlen]
    exact hslots _ hlen
  · rw [if_neg hp, if_neg hp]
    exact ⟨rfl, hslots l ((hl.length_le.trans card_betValues_le).trans hcs)⟩

/-- No write leaves the slots. -/
theorem calculateSidePots?_eq (cs : List Contribution) :
    calculateSidePots? cs = some (calculateSidePots cs) := by
  by_cases hcs : maxSidePots < cs.length
  · rw [calculateSidePots?, if_pos hcs, calculateSidePots, Fallible.ensure, if_neg (not_le.mpr hcs)]
    rfl
  have hcs' := not_lt.mp hcs
  rw [calculateSidePots?, if_neg hcs, calculateSidePots, Fallible.ensure_pos hcs']
  cases hsum : sumBets (cs.map Contribution.bet) with
  | error e => rfl
  | ok total =>
    obtain ⟨-, rfl⟩ := sumBets_eq_ok.mp hsum
    obtain ⟨hfold, hholds⟩ := Fallible.foldlM_eq_some (P := Holds cs) (f := sliceLevel cs)
      (g := sliceLevel? cs) (l := levels cs) (s := (.empty, 0))
      (fun k hk acc h => sliceLevel?_eq hcs' h (mem_levels hk)) ⟨[], rfl, layered_nil⟩
    obtain ⟨hlast, hlen⟩ := outermost?_eq hcs' hholds
    simp only [levels?_eq hcs', Option.bind_eq_bind, Option.bind_some, hfold, hlast,
      Fallible.ok_bind]
    generalize (if ((levels cs).foldl (sliceLevel cs) (.empty, 0)).2 < _ then _ else _) = result at *
    have hfirst : 0 < maxSidePots := by decide
    rw [setSlot?, hlen, if_pos hfirst]
    by_cases hcount : result.potCount = 0
    · rw [if_pos hcount, if_pos hcount]
      rfl
    · rw [if_neg hcount, if_neg hcount]
      rfl

end Checked

/-! ## Nesting -/

/-- The seats of a mask. -/
def members (m : SeatMask) : Set ℕ := {j | Mask.mem m j = true}

@[simp] theorem mem_members {m : SeatMask} : j ∈ members m ↔ Mask.mem m j = true := Iff.rfl

/-- The seats that may win a layer. -/
def eligible (p : SidePot) : Set ℕ := members p.eligibleSeats

/-- Every all-in bet is also the bet of an unfolded seat. -/
def LevelsContested (cs : List Contribution) : Prop :=
  ∀ c ∈ cs, c.isLevel = true → ∃ d ∈ cs, d.bet = c.bet ∧ d.folded = false

/-- A level of the contributions, or the bottom. -/
def IsBound (cs : List Contribution) (q : ℕ) : Prop :=
  q = 0 ∨ ∃ c ∈ cs, c.isLevel = true ∧ c.bet = q

/-- The layers start at ascending bounds below `level`. -/
def Nested (cs : List Contribution) (l : List SidePot) (level : ℕ) : Prop :=
  ∃ qs : List ℕ, l.map SidePot.eligibleSeats = qs.map (reach cs) ∧ qs.Pairwise (· < ·) ∧
    ∀ q ∈ qs, q < level ∧ IsBound cs q

theorem nested_nil : Nested cs [] level := ⟨[], rfl, .nil, by simp⟩

theorem Nested.addLayer (h : Nested cs l prev) (hprev : IsBound cs prev) (hlt : prev < level)
    {upper : Option ℕ} : Nested cs (SidePot.addLayer l (sliceLayer cs prev upper)) level := by
  obtain ⟨qs, hmasks, hasc, hqs⟩ := h
  have hqs' : ∀ q ∈ qs, q < level ∧ IsBound cs q :=
    fun q hq => ⟨(hqs q hq).1.trans hlt, (hqs q hq).2⟩
  rcases addLayer_masks l (sliceLayer cs prev upper) with hm | ⟨-, -, hm⟩
  · exact ⟨qs, hm.trans hmasks, hasc, hqs'⟩
  · refine ⟨qs ++ [prev], ?_, ?_, ?_⟩
    · rw [hm, hmasks, List.map_append]
      rfl
    · refine List.pairwise_append.mpr ⟨hasc, List.pairwise_singleton _ _, fun q hq q' hq' => ?_⟩
      rw [List.mem_singleton.mp hq']
      exact (hqs q hq).1
    · intro q hq
      rcases List.mem_append.mp hq with hq | hq
      · exact hqs' q hq
      · rw [List.mem_singleton.mp hq]
        exact ⟨hlt, hprev⟩

theorem nested_foldl_addLevel {ks : List ℕ} (hks : ∀ k ∈ ks, IsBound cs k) (h : Nested cs l prev)
    (hprev : IsBound cs prev) :
    Nested cs (ks.foldl (addLevel cs) (l, prev)).1 (ks.foldl (addLevel cs) (l, prev)).2 ∧
      IsBound cs (ks.foldl (addLevel cs) (l, prev)).2 := by
  induction ks generalizing l prev with
  | nil => exact ⟨h, hprev⟩
  | cons k ks ih =>
    have hks' : ∀ k ∈ ks, IsBound cs k := fun k hk => hks k (List.mem_cons_of_mem _ hk)
    rw [List.foldl_cons, addLevel]
    by_cases hk : k ≤ prev
    · rw [if_pos hk]
      exact ih hks' h hprev
    · rw [if_neg hk]
      exact ih hks' (h.addLayer hprev (not_le.mp hk)) (hks k List.mem_cons_self)

theorem nested_layersAt {ks : List ℕ} (hks : ∀ k ∈ ks, IsBound cs k) :
    ∃ level, Nested cs (layersAt cs ks) level := by
  obtain ⟨h, hprev⟩ := nested_foldl_addLevel hks nested_nil (.inl rfl)
  rw [layersAt]
  dsimp only
  split
  · rename_i hlt
    exact ⟨_, h.addLayer hprev hlt⟩
  · exact ⟨_, h⟩

theorem reach_anti (hcs : cs.length ≤ maxSidePots) (h : prev ≤ level) :
    members (reach cs level) ⊆ members (reach cs prev) := by
  intro j hj
  rw [mem_members, mem_reach hcs] at hj ⊢
  obtain ⟨c, hc, hb, hf⟩ := hj
  exact ⟨c, hc, by omega, hf⟩

theorem reach_ssubset (hcs : cs.length ≤ maxSidePots) (h : prev < level)
    (hlevel : ∃ d ∈ cs, d.bet = level ∧ d.folded = false) :
    members (reach cs level) ⊂ members (reach cs prev) := by
  obtain ⟨d, hd, rfl, hf⟩ := hlevel
  obtain ⟨j, hj⟩ := List.mem_iff_getElem?.mp hd
  refine (Set.ssubset_iff_of_subset (reach_anti hcs h.le)).mpr ⟨j, ?_, ?_⟩
  · rw [mem_members, mem_reach hcs]
    exact ⟨d, hj, h, by rw [hf]; exact Bool.false_ne_true⟩
  · rw [mem_members, mem_reach hcs]
    rintro ⟨c, hc, hb, -⟩
    obtain rfl := Option.some.inj (hj.symm.trans hc)
    exact lt_irrefl _ hb

/-- A relation between the masks at ascending bounds holds between the layers. -/
theorem Nested.pairwise {R : SeatMask → SeatMask → Prop} (h : Nested cs l level)
    (hR : ∀ q q', q < q' → IsBound cs q' → R (reach cs q) (reach cs q')) :
    l.Pairwise fun p p' => R p.eligibleSeats p'.eligibleSeats := by
  obtain ⟨qs, hmasks, hasc, hqs⟩ := h
  rw [← List.pairwise_map, hmasks, List.pairwise_map]
  exact hasc.imp_of_mem fun _ hq' hlt => hR _ _ hlt (hqs _ hq').2

/-! ## The side pots of the contributions -/

/-- The layers hold the bets, nest, and leave the other slots empty. -/
structure WellLayered (cs : List Contribution) (r : SidePotResult) : Prop where
  total : (r.active.map SidePot.amount).sum = (cs.map Contribution.bet).sum
  pos : (∀ p ∈ r.active, 0 < p.amount) ∨ ∀ c ∈ cs, c.bet = 0
  slots : r.pots.length = maxSidePots ∧ 0 < r.potCount ∧ r.potCount ≤ maxSidePots
  unused : ∀ p ∈ r.pots.drop r.potCount, p = ⟨0, 0⟩
  unfolded : ∀ p ∈ r.active, ∀ j ∈ p.eligible, ∃ c, cs[j]? = some c ∧ c.folded = false
  chain : r.active.Pairwise fun p p' => p'.eligible ⊆ p.eligible
  strict : LevelsContested cs → r.active.Pairwise fun p p' => p'.eligible ⊂ p.eligible
  nonempty : (∃ c ∈ cs, 0 < c.bet ∧ c.folded = false) → ∀ p ∈ r.active, p.eligible.Nonempty
  abandoned : (∀ c ∈ cs, 0 < c.bet → c.folded = true) →
    ∃ p, r.active = [p] ∧ p.eligibleSeats = 0

theorem reach_zero_ne_zero_iff (hcs : cs.length ≤ maxSidePots) :
    reach cs 0 ≠ 0 ↔ ∃ c ∈ cs, 0 < c.bet ∧ c.folded = false := by
  rw [Mask.ne_zero_iff]
  constructor
  · rintro ⟨j, hj⟩
    obtain ⟨c, hc, hb, hf⟩ := (mem_reach hcs).mp hj
    exact ⟨c, List.mem_of_getElem? hc, hb, by simpa using hf⟩
  · rintro ⟨c, hc, hb, hf⟩
    obtain ⟨j, hj⟩ := List.mem_iff_getElem?.mp hc
    exact ⟨j, (mem_reach hcs).mpr ⟨c, hj, hb, by simpa using hf⟩⟩

/-- Without an unfolded bet there is at most one layer. -/
theorem Layered.singleton (h : Layered cs l level) (hcs : cs.length ≤ maxSidePots)
    (h0 : reach cs 0 = 0) (hne : l ≠ []) : ∃ p, l = [p] ∧ p.eligibleSeats = 0 := by
  cases l with
  | nil => exact absurd rfl hne
  | cons p l =>
    have hp : p.eligibleSeats = 0 := h.head_eligible.trans h0
    cases l with
    | nil => exact ⟨p, rfl, hp⟩
    | cons p' l =>
      obtain ⟨q, hq⟩ := h.eligible p' (by simp)
      refine absurd ?_ (h.tail p'.eligibleSeats (by simp))
      rw [hq, Mask.eq_zero_iff]
      intro j
      refine Bool.eq_false_iff.mpr fun hj => ?_
      have : j ∈ members (reach cs 0) := reach_anti hcs (Nat.zero_le q) hj
      rw [h0, mem_members, Mask.mem_zero] at this
      exact Bool.false_ne_true this

theorem wellLayered_ofActive (h : Layered cs l (cs.map Contribution.bet).sum)
    (hnest : Nested cs l level) (hcs : cs.length ≤ maxSidePots) (hne : l ≠ []) :
    WellLayered cs (ofActive l) := by
  have hlen : l.length ≤ maxSidePots := (h.length_le.trans card_betValues_le).trans hcs
  constructor
  · rw [ofActive_active, h.total, covered_of_le fun c hc => bet_le_sum hc]
  · left
    rw [ofActive_active]
    exact h.pos
  · refine ⟨?_, List.length_pos_iff.mpr hne, hlen⟩
    simp only [ofActive, List.length_append, List.length_replicate]
    omega
  · intro p hp
    rw [ofActive, List.drop_left] at hp
    exact List.eq_of_mem_replicate hp
  · rw [ofActive_active]
    intro p hp j hj
    obtain ⟨c, hc, -, hf⟩ := h.bet_pos hcs hp hj
    exact ⟨c, hc, by simpa using hf⟩
  · rw [ofActive_active]
    exact hnest.pairwise (R := fun m m' => members m' ⊆ members m) fun q q' hlt _ =>
      reach_anti hcs hlt.le
  · intro hlevels
    rw [ofActive_active]
    refine hnest.pairwise (R := fun m m' => members m' ⊂ members m) fun q q' hlt hq' =>
      reach_ssubset hcs hlt ?_
    obtain ⟨c, hc, hlevel, rfl⟩ := hq'.resolve_left (by omega)
    exact hlevels c hc hlevel
  · intro hc p hp
    rw [ofActive_active] at hp
    exact Mask.ne_zero_iff.mp (h.eligible_ne_zero ((reach_zero_ne_zero_iff hcs).mpr hc) hp)
  · intro hfold
    rw [ofActive_active]
    refine h.singleton hcs (not_not.mp fun h0 => ?_) hne
    obtain ⟨c, hc, hb, hf⟩ := (reach_zero_ne_zero_iff hcs).mp h0
    rw [hfold c hc hb] at hf
    exact Bool.noConfusion hf

/-- The single empty layer of a pot without bets. -/
theorem wellLayered_zero (h : ∀ c ∈ cs, c.bet = 0) : WellLayered cs (ofActive [⟨0, 0⟩]) where
  total := by
    have hzero : (cs.map Contribution.bet).sum = 0 := List.sum_eq_zero (by simpa using h)
    rw [ofActive_active, hzero]
    rfl
  pos := .inr h
  slots := by decide
  unused := by decide
  unfolded := by simp [eligible]
  chain := List.pairwise_singleton _ _
  strict _ := List.pairwise_singleton _ _
  nonempty := by
    rintro ⟨c, hc, hb, -⟩
    rw [h c hc] at hb
    exact absurd hb (lt_irrefl _)
  abandoned _ := ⟨_, rfl, rfl⟩

/-- Side pots conserve and nest: every slot write is in range, and the layers hold the bets
as a chain of eligible seats, which is strict when an unfolded seat meets every all-in bet. -/
theorem calculateSidePots_wellLayered (hcs : cs.length ≤ maxSidePots)
    (hmax : (cs.map Contribution.bet).sum ≤ maxTotalBet) :
    ∃ r, calculateSidePots? cs = some (.ok r) ∧ WellLayered cs r := by
  have hl := (layered_layersAt hcs sortedLevels_bet).1
  have hbound : ∀ k ∈ sortedLevels cs, IsBound cs k := fun _ hk => .inr (mem_sortedLevels hk)
  obtain ⟨level, hnest⟩ := nested_layersAt hbound
  rw [calculateSidePots?_eq, calculateSidePots_eq hcs hmax, layersAt_levels hcs]
  refine ⟨_, rfl, ?_⟩
  by_cases hnil : layersAt cs (sortedLevels cs) = []
  · rw [hnil] at hl
    rw [hnil, orEmpty, if_pos rfl]
    refine wellLayered_zero fun c hc => ?_
    have := bet_le_sum hc
    rw [hl.sum_eq_zero] at this
    exact Nat.le_zero.mp this
  · rw [orEmpty, if_neg hnil]
    exact wellLayered_ofActive hl hnest hcs hnil

/-- Two players match a bet of 100 over a third's all-in 50. -/
theorem three_way_wellLayered :
    ∃ r, calculateSidePots? [⟨50, false, true⟩, ⟨100, false, false⟩, ⟨100, false, false⟩] =
        some (.ok r) ∧
      WellLayered [⟨50, false, true⟩, ⟨100, false, false⟩, ⟨100, false, false⟩] r :=
  calculateSidePots_wellLayered (by decide) (by decide)

/-- When the seat that was all in for 50 has folded, both layers have the same seats. -/
theorem folded_all_in_not_strict :
    ∃ r, calculateSidePots? [⟨50, true, true⟩, ⟨100, false, false⟩, ⟨100, false, false⟩] =
        some (.ok r) ∧
      r.active = [⟨150, 6⟩, ⟨100, 6⟩] ∧
      ¬ r.active.Pairwise fun p p' => p'.eligible ⊂ p.eligible := by
  refine ⟨ofActive [⟨150, 6⟩, ⟨100, 6⟩], by decide +kernel, rfl, fun h => ?_⟩
  rw [ofActive_active, List.pairwise_pair] at h
  exact h.ne rfl

end TexasPoker.SidePot
