import Mathlib.Algebra.Order.BigOperators.Group.List
import Mathlib.Algebra.Order.Group.Nat
import Mathlib.Data.Finset.Card
import TexasPoker.Poker.SidePot

/-! # The layers of a pot

What the side-pot calculation computes: the chips of the layers add up to the bets, every
layer has chips, and the first layer belongs to every unfolded seat with a bet.
-/

namespace TexasPoker.SidePot

variable {cs : List Contribution} {l : List SidePot} {layer : SidePot} {prev level j : ℕ}

/-! ## Slices -/

/-- The chips of the contributions up to a level. -/
def covered (cs : List Contribution) (level : ℕ) : ℕ := (cs.map fun c => min c.bet level).sum

/-- The unfolded seats that bet above a level. -/
def reach (cs : List Contribution) (level : ℕ) : SeatMask := (sliceLayer cs level none).eligibleSeats

@[simp] theorem sliceLayer_eligibleSeats {upper : Option ℕ} :
    (sliceLayer cs prev upper).eligibleSeats = reach cs prev := rfl

theorem mem_reach (hl : cs.length ≤ maxSidePots) :
    Mask.mem (reach cs level) j = true ↔
      ∃ c, cs[j]? = some c ∧ level < c.bet ∧ ¬ c.folded = true := by
  have hidx : ∀ e ∈ cs.zipIdx, (level < e.1.bet ∧ ¬ e.1.folded = true) → e.2 < 16 := by
    rintro ⟨c, k⟩ he -
    have := List.snd_lt_of_mem_zipIdx he
    have : cs.length ≤ 9 := hl
    omega
  change Mask.mem (cs.zipIdx.foldl (fun mask e =>
    if level < e.1.bet ∧ ¬ e.1.folded = true then Mask.insert mask e.2 else mask) 0) j = true ↔ _
  rw [Mask.mem_foldl_insert hidx, Mask.mem_zero]
  simp only [Bool.false_eq_true, false_or]
  constructor
  · rintro ⟨⟨c, k⟩, he, hp, rfl⟩
    exact ⟨c, (List.mk_mem_zipIdx_iff_getElem? ).mp he, hp⟩
  · rintro ⟨c, hc, hp⟩
    exact ⟨(c, j), List.mk_mem_zipIdx_iff_getElem?.mpr hc, hp, rfl⟩

@[simp] theorem covered_zero : covered cs 0 = 0 := by simp [covered]

theorem covered_of_le (h : ∀ c ∈ cs, c.bet ≤ level) :
    covered cs level = (cs.map Contribution.bet).sum := by
  rw [covered, List.map_congr_left fun c hc => min_eq_left (h c hc)]

theorem covered_add_slice (h : prev ≤ level) :
    covered cs prev + (sliceLayer cs prev (some level)).amount = covered cs level := by
  simp only [covered, sliceLayer]
  induction cs with
  | nil => simp
  | cons c cs ih =>
    simp only [List.map_cons, List.sum_cons]
    split <;> omega

theorem sliceLayer_none (h : ∀ c ∈ cs, c.bet ≤ level) :
    sliceLayer cs prev none = sliceLayer cs prev (some level) := by
  have hb : ∀ c ∈ cs, (if prev < c.bet then c.bet - prev else 0) =
      if prev < c.bet then min c.bet level - prev else 0 := fun c hc => by
    rw [min_eq_left (h c hc)]
  simp only [sliceLayer, SidePot.mk.injEq, and_true]
  rw [List.map_congr_left hb]

theorem exists_bet_of_slice (h : (sliceLayer cs prev (some level)).amount ≠ 0) :
    ∃ c ∈ cs, prev < c.bet := by
  by_contra hn
  simp only [not_exists, not_and, not_lt] at hn
  refine h (List.sum_eq_zero ?_)
  simp only [List.mem_map]
  rintro _ ⟨c, hc, rfl⟩
  exact if_neg (not_lt.mpr (hn c hc))

/-! ## Slots -/

/-- The result with the given layers in its first slots. -/
def ofActive (l : List SidePot) : SidePotResult :=
  ⟨l ++ List.replicate (maxSidePots - l.length) ⟨0, 0⟩, l.length⟩

/-- Record a layer in a list of layers. -/
def addLayer (l : List SidePot) (layer : SidePot) : List SidePot :=
  if layer.amount = 0 then l
  else if layer.eligibleSeats = 0 ∧ l ≠ [] then
    l.modify (l.length - 1) fun last => { last with amount := last.amount + layer.amount }
  else l ++ [layer]

@[simp] theorem ofActive_active : (ofActive l).active = l := by simp [ofActive, SidePotResult.active]

@[simp] theorem ofActive_total : (ofActive l).total = (l.map SidePot.amount).sum := by
  simp [ofActive, SidePotResult.total]

theorem modify_last_append {α : Type} {l r : List α} (f : α → α) (h : l ≠ []) :
    (l ++ r).modify (l.length - 1) f = l.modify (l.length - 1) f ++ r := by
  have := List.length_pos_iff.mpr h
  refine List.ext_getElem? fun i => ?_
  simp only [List.getElem?_modify, List.getElem?_append, List.length_modify]
  by_cases hi : i < l.length
  · simp only [hi, if_true]
  · have : l.length - 1 ≠ i := by omega
    simp [this, hi]

theorem sum_modify_amount {k extra : ℕ} (h : k < l.length) :
    ((l.modify k fun p => { p with amount := p.amount + extra }).map SidePot.amount).sum =
      (l.map SidePot.amount).sum + extra := by
  induction l generalizing k with
  | nil => cases h
  | cons p l ih =>
    cases k with
    | zero =>
      simp
      omega
    | succ k =>
      simp [ih (Nat.lt_of_succ_lt_succ h)]
      omega

theorem recordLayer_ofActive (h : (addLayer l layer).length ≤ maxSidePots) :
    recordLayer (ofActive l) layer = ofActive (addLayer l layer) := by
  unfold recordLayer addLayer at *
  by_cases ha : layer.amount = 0
  · simp [ha]
  by_cases he : layer.eligibleSeats = 0 ∧ l ≠ []
  · have hpos : 0 < l.length := List.length_pos_iff.mpr he.2
    rw [if_neg ha, if_neg ha, if_pos ⟨he.1, hpos⟩, if_pos he]
    simp [ofActive, modify_last_append _ he.2]
  · have hpos : ¬ (layer.eligibleSeats = 0 ∧ 0 < (ofActive l).potCount) :=
      fun hp => he ⟨hp.1, List.length_pos_iff.mp hp.2⟩
    rw [if_neg ha, if_neg he] at h
    rw [if_neg ha, if_neg ha, if_neg hpos, if_neg he]
    simp only [List.length_append, List.length_cons, List.length_nil] at h
    obtain ⟨n, hn⟩ : ∃ n, maxSidePots - l.length = n + 1 := ⟨maxSidePots - l.length - 1, by omega⟩
    have hn' : maxSidePots - (l.length + 1) = n := by omega
    simp [ofActive, hn, hn', List.replicate_succ]

theorem addLayer_amounts :
    ((addLayer l layer).map SidePot.amount).sum = (l.map SidePot.amount).sum + layer.amount := by
  unfold addLayer
  split
  · simp_all
  split
  · rename_i h
    exact sum_modify_amount (by have := List.length_pos_iff.mpr h.2; omega)
  · simp

/-- The masks after recording: the same, or one more. -/
theorem addLayer_masks (l : List SidePot) (layer : SidePot) :
    (addLayer l layer).map SidePot.eligibleSeats = l.map SidePot.eligibleSeats ∨
      layer.amount ≠ 0 ∧ (layer.eligibleSeats ≠ 0 ∨ l = []) ∧
        (addLayer l layer).map SidePot.eligibleSeats =
          l.map SidePot.eligibleSeats ++ [layer.eligibleSeats] := by
  unfold addLayer
  split
  · exact .inl rfl
  split
  · refine .inl (List.ext_getElem? fun i => ?_)
    simp only [List.getElem?_map, List.getElem?_modify]
    cases l[i]? with
    | none => rfl
    | some p => by_cases hi : l.length - 1 = i <;> simp [hi]
  · rename_i ha he
    exact .inr ⟨ha, by tauto, by simp⟩

theorem addLayer_pos (h : ∀ p ∈ l, 0 < p.amount) : ∀ p ∈ addLayer l layer, 0 < p.amount := by
  unfold addLayer
  split
  · exact h
  split
  · intro p hp
    obtain ⟨i, hi⟩ := List.mem_iff_getElem?.mp hp
    rw [List.getElem?_modify] at hi
    obtain ⟨q, hq, rfl⟩ := Option.map_eq_some_iff.mp hi
    have := h q (List.mem_of_getElem? hq)
    by_cases hi : l.length - 1 = i
    · simp only [hi, if_true]
      omega
    · simpa only [hi, if_false] using this
  · rename_i ha _
    intro p hp
    rcases List.mem_append.mp hp with hp | hp
    · exact h p hp
    · rw [List.mem_singleton.mp hp]
      omega

/-! ## The calculation -/

/-- The positive bets up to a level. -/
def betValues (cs : List Contribution) (level : ℕ) : Finset ℕ :=
  (cs.map Contribution.bet).toFinset.filter fun b => 0 < b ∧ b ≤ level

theorem card_betValues_le : (betValues cs level).card ≤ cs.length :=
  (Finset.card_filter_le _ _).trans ((List.toFinset_card_le _).trans (List.length_map _).le)

theorem card_betValues_lt {c : Contribution} (hc : c ∈ cs) (hp : prev < c.bet)
    (hl : c.bet ≤ level) : (betValues cs prev).card < (betValues cs level).card := by
  have hmem : c.bet ∈ betValues cs level := by
    simp only [betValues, Finset.mem_filter, List.mem_toFinset, List.mem_map]
    exact ⟨⟨c, hc, rfl⟩, by omega, hl⟩
  refine Finset.card_lt_card ((Finset.ssubset_iff_of_subset ?_).mpr ⟨c.bet, hmem, ?_⟩)
  · intro b hb
    simp only [betValues, Finset.mem_filter] at hb ⊢
    exact ⟨hb.1, hb.2.1, by omega⟩
  · simp only [betValues, Finset.mem_filter]
    omega

/-- The layers of the contributions up to a level. -/
structure Layered (cs : List Contribution) (l : List SidePot) (level : ℕ) : Prop where
  total : (l.map SidePot.amount).sum = covered cs level
  length_le : l.length ≤ (betValues cs level).card
  pos : ∀ p ∈ l, 0 < p.amount
  eligible : ∀ p ∈ l, ∃ q, p.eligibleSeats = reach cs q
  head : ∀ m ∈ (l.map SidePot.eligibleSeats).head?, m = reach cs 0
  tail : ∀ m ∈ (l.map SidePot.eligibleSeats).tail, m ≠ 0

theorem layered_nil : Layered cs [] 0 where
  total := by simp
  length_le := Nat.zero_le _
  pos := by simp
  eligible := by simp
  head := by simp
  tail := by simp

theorem length_addLayer (l : List SidePot) (layer : SidePot) :
    (addLayer l layer).length = l.length ∨
      layer.amount ≠ 0 ∧ (addLayer l layer).length = l.length + 1 := by
  rcases addLayer_masks l layer with h | ⟨ha, -, h⟩
  · exact .inl (by simpa using congrArg List.length h)
  · exact .inr ⟨ha, by simpa using congrArg List.length h⟩

theorem reach_eq_of_covered_eq_zero (h : covered cs level = 0) :
    level = 0 ∨ ∀ c ∈ cs, c.bet = 0 := by
  rw [covered, List.sum_eq_zero_iff] at h
  by_cases hl : level = 0
  · exact .inl hl
  · refine .inr fun c hc => ?_
    have := h _ (List.mem_map_of_mem hc)
    omega

/-- One more slice, when some bet ends in it. -/
theorem Layered.addLayer (h : Layered cs l prev) (hpl : prev < level)
    (hbet : (sliceLayer cs prev (some level)).amount ≠ 0 →
      ∃ c ∈ cs, prev < c.bet ∧ c.bet ≤ level) :
    Layered cs (SidePot.addLayer l (sliceLayer cs prev (some level))) level := by
  have hmono : (betValues cs prev).card ≤ (betValues cs level).card := by
    refine Finset.card_le_card fun b hb => ?_
    simp only [betValues, Finset.mem_filter] at hb ⊢
    exact ⟨hb.1, hb.2.1, by omega⟩
  have hmask := addLayer_masks l (sliceLayer cs prev (some level))
  have hfirst : (sliceLayer cs prev (some level)).amount ≠ 0 → l = [] → prev = 0 := by
    rintro ha rfl
    obtain ⟨c, hc, hp, -⟩ := hbet ha
    have hz : covered cs prev = 0 := by simpa using h.total.symm
    rcases reach_eq_of_covered_eq_zero hz with h0 | h0
    · exact h0
    · have := h0 c hc
      omega
  constructor
  · rw [addLayer_amounts, h.total, covered_add_slice hpl.le]
  · rcases length_addLayer l (sliceLayer cs prev (some level)) with hl | ⟨ha, hl⟩
    · rw [hl]
      exact h.length_le.trans hmono
    · obtain ⟨c, hc, hp, hle⟩ := hbet ha
      have := card_betValues_lt hc hp hle
      have := h.length_le
      omega
  · exact addLayer_pos h.pos
  · have he : ∀ m ∈ l.map SidePot.eligibleSeats, ∃ q, m = reach cs q := by
      simpa using h.eligible
    have he' : ∀ m ∈ (SidePot.addLayer l (sliceLayer cs prev (some level))).map
        SidePot.eligibleSeats, ∃ q, m = reach cs q := by
      rcases hmask with hm | ⟨-, -, hm⟩ <;> rw [hm]
      · exact he
      · intro m hm
        rcases List.mem_append.mp hm with hm | hm
        · exact he m hm
        · exact ⟨prev, List.mem_singleton.mp hm⟩
    simpa using he'
  · rcases hmask with hm | ⟨ha, -, hm⟩ <;> rw [hm]
    · exact h.head
    · cases l with
      | nil => simp [hfirst ha rfl]
      | cons p l => simpa using h.head
  · rcases hmask with hm | ⟨-, hz, hm⟩ <;> rw [hm]
    · exact h.tail
    · cases l with
      | nil => simp
      | cons p l =>
        intro m hm
        rcases List.mem_append.mp hm with hm | hm
        · exact h.tail m hm
        · rw [List.mem_singleton.mp hm]
          exact hz.resolve_right (List.cons_ne_nil _ _)

theorem mem_levels {k : ℕ} (h : k ∈ levels cs) : k = 0 ∨ ∃ c ∈ cs, c.bet = k := by
  have key : ∀ (es : List (Contribution × ℕ)) (slots : List ℕ), (∀ e ∈ es, e.1 ∈ cs) →
      (∀ k ∈ slots, k = 0 ∨ ∃ c ∈ cs, c.bet = k) →
      ∀ k ∈ es.foldl (fun slots e =>
        if e.1.isLevel then slots.set (levelRank cs e.2 e.1) e.1.bet else slots) slots,
      k = 0 ∨ ∃ c ∈ cs, c.bet = k := by
    intro es
    induction es with
    | nil => exact fun _ _ h => h
    | cons e es ih =>
      intro slots hes hslots
      refine ih _ (fun e' he' => hes e' (List.mem_cons_of_mem e he')) fun k hk => ?_
      dsimp only at hk
      split at hk
      · rcases List.mem_or_eq_of_mem_set hk with hk | rfl
        · exact hslots k hk
        · exact .inr ⟨e.1, hes e List.mem_cons_self, rfl⟩
      · exact hslots k hk
  refine key cs.zipIdx (List.replicate maxSidePots 0) (fun e he => ?_) (fun k hk => ?_) k h
  · exact List.fst_mem_of_mem_zipIdx he
  · exact .inl (List.eq_of_mem_replicate hk)

/-- Cut a list of layers at one level, unless it is repeated. -/
def addLevel (cs : List Contribution) (acc : List SidePot × ℕ) (level : ℕ) : List SidePot × ℕ :=
  if level ≤ acc.2 then acc else (addLayer acc.1 (sliceLayer cs acc.2 (some level)), level)

/-- The layers of the contributions cut at the given levels, with the outermost one. -/
def layersAt (cs : List Contribution) (levels : List ℕ) : List SidePot :=
  let (l, prevLevel) := levels.foldl (addLevel cs) ([], 0)
  if prevLevel < (cs.map Contribution.bet).sum then addLayer l (sliceLayer cs prevLevel none) else l

/-- Slicing at levels that are bets keeps the layers, and the slots hold them. -/
theorem layered_foldl_addLevel (hcs : cs.length ≤ maxSidePots) {ks : List ℕ}
    (hks : ∀ k ∈ ks, k = 0 ∨ ∃ c ∈ cs, c.bet = k) (h : Layered cs l prev) :
    ∃ l' prev', ks.foldl (addLevel cs) (l, prev) = (l', prev') ∧
      ks.foldl (sliceLevel cs) (ofActive l, prev) = (ofActive l', prev') ∧
      Layered cs l' prev' := by
  induction ks generalizing l prev with
  | nil => exact ⟨l, prev, rfl, rfl, h⟩
  | cons k ks ih =>
    have hks' : ∀ k ∈ ks, k = 0 ∨ ∃ c ∈ cs, c.bet = k :=
      fun k hk => hks k (List.mem_cons_of_mem _ hk)
    rw [List.foldl_cons, List.foldl_cons]
    by_cases hk : k ≤ prev
    · rw [addLevel, if_pos hk, sliceLevel, if_pos (.inr hk)]
      exact ih hks' h
    · obtain ⟨c, hc, rfl⟩ := (hks k List.mem_cons_self).resolve_left (by omega)
      have hp : prev < c.bet := not_le.mp hk
      have hl := h.addLayer hp fun _ => ⟨c, hc, hp, le_rfl⟩
      have hslots := recordLayer_ofActive ((hl.length_le.trans card_betValues_le).trans hcs)
      rw [addLevel, if_neg hk, sliceLevel, if_neg (by omega), hslots]
      exact ih hks' hl

theorem sumBets_eq_ok {bets : List ℕ} {total : ℕ} :
    sumBets bets = .ok total ↔ bets.sum ≤ maxTotalBet ∧ total = bets.sum := by
  have key : ∀ acc ≤ maxTotalBet, (bets.foldlM (fun total bet => do
      let total ← checkedAdd total bet SidePotError.betOverflow
      ensure (total ≤ maxTotalBet) .betOverflow
      return total) acc : Except SidePotError ℕ) = .ok total ↔
        acc + bets.sum ≤ maxTotalBet ∧ total = acc + bets.sum := by
    induction bets with
    | nil =>
      intro acc hacc
      rw [List.foldlM_nil, Fallible.pure_eq_ok, List.sum_nil]
      omega
    | cons b bets ih =>
      intro acc _
      rw [List.foldlM_cons, Fallible.bind_eq_ok, List.sum_cons]
      simp only [Fallible.bind_eq_ok, Fallible.checkedAdd_eq_ok, Fallible.ensure_eq_ok,
        Fallible.pure_eq_ok]
      constructor
      · rintro ⟨_, ⟨_, ⟨-, rfl⟩, -, hb, rfl⟩, h⟩
        rw [ih _ hb] at h
        omega
      · rintro ⟨h, rfl⟩
        have hb : acc + b ≤ maxTotalBet := by omega
        have hu : acc + b ≤ u64Max := hb.trans (by decide)
        exact ⟨_, ⟨_, ⟨hu, rfl⟩, (), hb, rfl⟩, (ih _ hb).mpr ⟨by omega, by omega⟩⟩
  have h := key 0 (Nat.zero_le _)
  rwa [Nat.zero_add] at h

/-- A level above every bet changes nothing. -/
theorem Layered.of_le (h : Layered cs l prev) (hle : ∀ c ∈ cs, c.bet ≤ level) (hp : level ≤ prev) :
    Layered cs l level where
  total := by rw [h.total, covered_of_le hle, covered_of_le fun c hc => (hle c hc).trans hp]
  length_le := by
    refine h.length_le.trans (Finset.card_le_card fun b hb => ?_)
    simp only [betValues, Finset.mem_filter, List.mem_toFinset, List.mem_map] at hb ⊢
    obtain ⟨⟨c, hc, rfl⟩, hb⟩ := hb
    exact ⟨⟨c, hc, rfl⟩, hb.1, hle c hc⟩
  pos := h.pos
  eligible := h.eligible
  head := h.head
  tail := h.tail

theorem sum_le_of_calculateSidePots {r : SidePotResult} (h : calculateSidePots cs = .ok r) :
    (cs.map Contribution.bet).sum ≤ maxTotalBet := by
  simp only [calculateSidePots, Fallible.bind_eq_ok, sumBets_eq_ok] at h
  obtain ⟨-, -, -, ⟨h, -⟩, -⟩ := h
  exact h

theorem bet_le_sum {c : Contribution} (hc : c ∈ cs) : c.bet ≤ (cs.map Contribution.bet).sum :=
  List.single_le_sum (by simp) _ (List.mem_map_of_mem hc)

/-- Cut at levels that are bets, the layers hold all chips, and recording them in slots
gives the same. -/
theorem layered_layersAt (hcs : cs.length ≤ maxSidePots) {ks : List ℕ}
    (hks : ∀ k ∈ ks, k = 0 ∨ ∃ c ∈ cs, c.bet = k) :
    Layered cs (layersAt cs ks) (cs.map Contribution.bet).sum ∧
      (let (r, prevLevel) := ks.foldl (sliceLevel cs) (.empty, 0)
        if prevLevel < (cs.map Contribution.bet).sum then
          recordLayer r (sliceLayer cs prevLevel none) else r) = ofActive (layersAt cs ks) := by
  set total := (cs.map Contribution.bet).sum with htotal
  have hle : ∀ c ∈ cs, c.bet ≤ total := fun c hc => bet_le_sum hc
  have hstart : (SidePotResult.empty, 0) = (ofActive [], 0) := rfl
  obtain ⟨l, prev, hadd, hslice, hl⟩ := layered_foldl_addLevel hcs hks layered_nil
  rw [hstart, hslice, layersAt, hadd, ← htotal]
  dsimp only
  by_cases hp : prev < total
  · have hl' := hl.addLayer hp fun ha => by
      obtain ⟨c, hc, hpc⟩ := exists_bet_of_slice ha
      exact ⟨c, hc, hpc, hle c hc⟩
    rw [if_pos hp, if_pos hp, sliceLayer_none hle]
    exact ⟨hl', recordLayer_ofActive ((hl'.length_le.trans card_betValues_le).trans hcs)⟩
  · rw [if_neg hp, if_neg hp]
    exact ⟨hl.of_le hle (not_lt.mp hp), rfl⟩

/-- The layers of a pot: a pot without any bet has a single empty one. -/
def orEmpty (l : List SidePot) : List SidePot := if l = [] then [⟨0, 0⟩] else l

theorem Layered.sum_eq_zero (h : Layered cs [] (cs.map Contribution.bet).sum) :
    (cs.map Contribution.bet).sum = 0 := by
  rw [← covered_of_le fun c hc => bet_le_sum hc, ← h.total]
  rfl

/-- The calculation succeeds below the table bound, with the layers cut at its levels. -/
theorem calculateSidePots_eq (hcs : cs.length ≤ maxSidePots)
    (hmax : (cs.map Contribution.bet).sum ≤ maxTotalBet) :
    calculateSidePots cs = .ok (ofActive (orEmpty (layersAt cs (levels cs)))) := by
  have hks : ∀ k ∈ levels cs, k = 0 ∨ ∃ c ∈ cs, c.bet = k := fun _ => mem_levels
  obtain ⟨hl, hslots⟩ := layered_layersAt hcs hks
  have hbets : sumBets (cs.map Contribution.bet) = .ok (cs.map Contribution.bet).sum :=
    sumBets_eq_ok.mpr ⟨hmax, rfl⟩
  rw [calculateSidePots, Fallible.ensure_pos hcs, hbets]
  simp only [Fallible.ok_bind, hslots]
  by_cases hnil : layersAt cs (levels cs) = []
  · rw [hnil] at hl
    rw [hnil, hl.sum_eq_zero]
    rfl
  · have : (ofActive (layersAt cs (levels cs))).potCount ≠ 0 := by simp [ofActive, hnil]
    rw [if_neg this, orEmpty, if_neg hnil]
    rfl

/-- Below the table bound the layers hold all chips. Without any bet there is a single
empty layer. -/
theorem calculateSidePots_eq_ok (hcs : cs.length ≤ maxSidePots)
    (hmax : (cs.map Contribution.bet).sum ≤ maxTotalBet) :
    ∃ l, Layered cs l (cs.map Contribution.bet).sum ∧
      calculateSidePots cs = .ok (ofActive (if l = [] then [⟨0, 0⟩] else l)) :=
  ⟨_, (layered_layersAt hcs fun _ => mem_levels).1, calculateSidePots_eq hcs hmax⟩

/-- The eligible seats of a layer are unfolded and have a bet. -/
theorem Layered.bet_pos (h : Layered cs l level) (hcs : cs.length ≤ maxSidePots) {p : SidePot}
    (hp : p ∈ l) (hj : Mask.mem p.eligibleSeats j = true) :
    ∃ c, cs[j]? = some c ∧ 0 < c.bet ∧ ¬ c.folded = true := by
  obtain ⟨q, hq⟩ := h.eligible p hp
  rw [hq, mem_reach hcs] at hj
  obtain ⟨c, hc, hb, hf⟩ := hj
  exact ⟨c, hc, by omega, hf⟩

/-- When an unfolded seat has a bet, every layer has an eligible seat. -/
theorem Layered.eligible_ne_zero (h : Layered cs l level) (h0 : reach cs 0 ≠ 0) {p : SidePot}
    (hp : p ∈ l) : p.eligibleSeats ≠ 0 := by
  cases l with
  | nil => cases hp
  | cons q l =>
    rcases List.mem_cons.mp hp with rfl | hp
    · rw [h.head _ rfl]
      exact h0
    · exact h.tail _ (List.mem_map_of_mem hp)

/-- The first layer belongs to every unfolded seat with a bet. -/
theorem Layered.head_eligible {p : SidePot} (h : Layered cs (p :: l) level) :
    p.eligibleSeats = reach cs 0 := h.head _ rfl

end TexasPoker.SidePot
