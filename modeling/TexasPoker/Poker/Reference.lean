import Mathlib.Data.List.Sigma
import Mathlib.Data.Prod.Lex
import TexasPoker.Lib.Placement
import TexasPoker.Poker.Layers

/-! # Rank placement and sorting

The levels placed by rank are the sorted all-in bets followed by zeros, so the calculation
agrees with the one that collects, sorts and slices.
-/

namespace TexasPoker.SidePot

open List

variable {cs : List Contribution} {c : Contribution} {j : ℕ}

/-- Push a layer, or merge it into the last one when nobody can win it. -/
abbrev pushOrMerge : List SidePot → SidePot → List SidePot := addLayer

/-- The sort-based calculation: collect the positive all-in bets, sort them, slice at each
new level, push the outermost layer, and copy the layers into the slots. -/
def referenceSidePots (cs : List Contribution) : SidePotResult :=
  let totalPot := (cs.map Contribution.bet).sum
  let levels := ((cs.filter Contribution.isLevel).map Contribution.bet).mergeSort
  let (pots, prevLevel) := levels.foldl (fun (pots, prevLevel) level =>
    if level ≤ prevLevel then (pots, prevLevel)
    else (pushOrMerge pots (sliceLayer cs prevLevel (some level)), level)) ([], 0)
  let pots :=
    if prevLevel < totalPot then pushOrMerge pots (sliceLayer cs prevLevel none) else pots
  let pots := if pots = [] then [⟨totalPot, 0⟩] else pots
  ⟨pots ++ replicate (maxSidePots - pots.length) ⟨0, 0⟩, pots.length⟩

/-- The all-in levels in ascending order. -/
def sortedLevels (cs : List Contribution) : List ℕ :=
  ((cs.filter Contribution.isLevel).map Contribution.bet).mergeSort

/-- The all-in levels with their seats, which break ties. -/
def levelEntries (cs : List Contribution) : List (ℕ ×ₗ ℕ) :=
  (cs.zipIdx.filter fun e => e.1.isLevel).map fun e => toLex (e.1.bet, e.2)

theorem nodup_levelEntries : (levelEntries cs).Nodup := by
  have hseats : ((levelEntries cs).map fun e => (ofLex e).2).Nodup := by
    rw [levelEntries, map_map]
    exact (nodup_zipIdx_map_snd cs).sublist (filter_sublist.map Prod.snd)
  exact hseats.of_map _

theorem length_levelEntries_le : (levelEntries cs).length ≤ cs.length := by
  rw [levelEntries, length_map]
  exact (length_filter_le _ _).trans length_zipIdx.le

theorem map_levelEntries :
    (levelEntries cs).map (fun e => (ofLex e).1) =
      (cs.filter Contribution.isLevel).map Contribution.bet := by
  conv_rhs => rw [← zipIdx_map_fst 0 cs, filter_map, map_map]
  rw [levelEntries, map_map]
  rfl

/-- The rank counts the entries below a seat's own. -/
theorem levelRank_eq (h : (c, j) ∈ cs.zipIdx) :
    levelRank cs j c = Placement.rank (levelEntries cs) (toLex (c.bet, j)) := by
  rw [levelRank, Placement.rank, levelEntries, countP_map, countP_filter, ← countP_eq_length_filter]
  refine countP_congr ?_
  rintro ⟨other, k⟩ ho
  have hown : k = j → other = c := by
    rintro rfl
    have hk := mk_mem_zipIdx_iff_getElem?.mp ho
    rw [mk_mem_zipIdx_iff_getElem?.mp h] at hk
    exact (Option.some.inj hk).symm
  simp only [Function.comp, Prod.Lex.toLex_lt_toLex, Bool.and_eq_true, decide_eq_true_eq,
    Bool.or_eq_true, ne_eq]
  constructor
  · rintro ⟨⟨-, hlevel⟩, hlt⟩
    exact ⟨hlt, hlevel⟩
  · rintro ⟨hlt, hlevel⟩
    refine ⟨⟨fun hk => ?_, hlevel⟩, hlt⟩
    rw [hown hk, hk] at hlt
    omega

theorem levelRank_lt (h : (c, j) ∈ cs.zipIdx) (hlevel : c.isLevel = true) :
    levelRank cs j c < cs.length := by
  have hmem : toLex (c.bet, j) ∈ levelEntries cs :=
    mem_map.mpr ⟨(c, j), mem_filter.mpr ⟨h, hlevel⟩, rfl⟩
  rw [levelRank_eq h]
  exact (Placement.rank_lt_length hmem).trans_le length_levelEntries_le

theorem levels_eq_write :
    levels cs = Placement.write (Placement.rank (levelEntries cs)) (fun e => (ofLex e).1)
      (levelEntries cs) (replicate maxSidePots 0) := by
  conv_rhs => rw [Placement.write, levelEntries, foldl_map, foldl_filter, ← levelEntries]
  refine foldl_ext _ _ _ fun slots e he => ?_
  dsimp only
  split
  · rw [levelRank_eq he]
    rfl
  · rfl

/-- The slots hold the levels in ascending order, then zeros. -/
theorem levels_eq (hcs : cs.length ≤ maxSidePots) :
    ∃ n, levels cs = sortedLevels cs ++ replicate n 0 := by
  set sorted := (levelEntries cs).mergeSort (· ≤ ·)
  have hperm : (levelEntries cs).Perm sorted := (mergeSort_perm _ _).symm
  have hsorted : sorted.SortedLT :=
    sortedLE_mergeSort.sortedLT_of_nodup (hperm.nodup_iff.mp nodup_levelEntries)
  have hmap : sorted.map (fun e => (ofLex e).1) = sortedLevels cs := by
    refine Perm.eq_of_sortedLE ?_ sortedLE_mergeSort ?_
    · refine (pairwise_map.mpr (hsorted.pairwise.imp fun h => ?_)).sortedLE
      exact Prod.Lex.monotone_fst _ _ h.le
    · refine ((hperm.symm.map _).trans ?_).trans (mergeSort_perm _ _).symm
      rw [map_levelEntries]
  refine ⟨maxSidePots - (levelEntries cs).length, ?_⟩
  rw [levels_eq_write, Placement.write_rank hsorted hperm (length_levelEntries_le.trans hcs), hmap]

/-- Unused slots cut nothing. -/
theorem layersAt_append_zeros (ks : List ℕ) (n : ℕ) :
    layersAt cs (ks ++ replicate n 0) = layersAt cs ks := by
  have hzeros : ∀ acc : List SidePot × ℕ, (replicate n 0).foldl (addLevel cs) acc = acc := by
    induction n with
    | zero => exact fun acc => rfl
    | succ n ih =>
      intro acc
      rw [replicate_succ, foldl_cons, addLevel, if_pos (Nat.zero_le _), ih]
  rw [layersAt, layersAt, foldl_append, hzeros]

theorem mem_sortedLevels {k : ℕ} (h : k ∈ sortedLevels cs) : ∃ c ∈ cs, c.isLevel ∧ c.bet = k := by
  obtain ⟨c, hc, rfl⟩ := mem_map.mp (mem_mergeSort.mp h)
  exact ⟨c, mem_of_mem_filter hc, of_mem_filter hc, rfl⟩

theorem sortedLevels_bet : ∀ k ∈ sortedLevels cs, k = 0 ∨ ∃ c ∈ cs, c.bet = k := by
  intro k hk
  obtain ⟨c, hc, -, hb⟩ := mem_sortedLevels hk
  exact .inr ⟨c, hc, hb⟩

/-- Both calculations cut the same layers. -/
theorem layersAt_levels (hcs : cs.length ≤ maxSidePots) :
    layersAt cs (levels cs) = layersAt cs (sortedLevels cs) := by
  obtain ⟨n, hn⟩ := levels_eq hcs
  rw [hn, layersAt_append_zeros]

theorem referenceSidePots_eq (hcs : cs.length ≤ maxSidePots) :
    referenceSidePots cs = ofActive (orEmpty (layersAt cs (sortedLevels cs))) := by
  have hl := (layered_layersAt hcs sortedLevels_bet).1
  change ofActive (if layersAt cs (sortedLevels cs) = [] then [⟨(cs.map Contribution.bet).sum, 0⟩]
    else layersAt cs (sortedLevels cs)) = _
  by_cases hnil : layersAt cs (sortedLevels cs) = []
  · rw [hnil] at hl
    rw [hnil, hl.sum_eq_zero]
    rfl
  · rw [if_neg hnil, orEmpty, if_neg hnil]

/-- Placing levels by rank gives, slot for slot, what sorting them gives. -/
theorem calculateSidePots_eq_reference (hcs : cs.length ≤ maxSidePots)
    (hmax : (cs.map Contribution.bet).sum ≤ maxTotalBet) :
    calculateSidePots cs = .ok (referenceSidePots cs) := by
  rw [calculateSidePots_eq hcs hmax, layersAt_levels hcs, referenceSidePots_eq hcs]

/-- Two seats all in for 50, one of them folded, under two bets of 100. -/
theorem repeated_level_eq_reference :
    calculateSidePots [⟨50, false, true⟩, ⟨100, false, false⟩, ⟨50, true, true⟩,
        ⟨100, true, false⟩] =
      .ok (referenceSidePots [⟨50, false, true⟩, ⟨100, false, false⟩, ⟨50, true, true⟩,
        ⟨100, true, false⟩]) :=
  calculateSidePots_eq_reference (by decide) (by decide)

end TexasPoker.SidePot
