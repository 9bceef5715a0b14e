import TexasPoker.Poker.Standard

/-! # The networks access by access

The two sorts with the indexing and the loops of the source, where an access outside the array
has no result and neither has a recursion that does not end. Both sort.
-/

namespace TexasPoker.HandRank

open SortingNetwork

namespace Indexed

variable {α : Type} {lt : α → α → Bool}

/-- Swap two entries when the first is the smaller one. -/
def compareSwap (lt : α → α → Bool) (a : List α) (i j : ℕ) : Option (List α) := do
  let x ← a[i]?
  let y ← a[j]?
  return if lt x y then (a.set i y).set j x else a

/-- Sort five ranks descending by neighbour exchanges. -/
def sortFiveDesc (ranks : List ℕ) : Option (List ℕ) :=
  (List.range' 1 4).foldlM (fun a j =>
    (List.range j).reverse.foldlM (fun a i => compareSwap (· < ·) a i (i + 1)) a) ranks

/-- The last exchanges of a merge, from `i` on in steps. -/
def mergeLoop (r step stop : ℕ) : ℕ → List (ℕ × ℕ) → ℕ → Option (List (ℕ × ℕ))
  | 0, _, _ => none
  | fuel + 1, a, i =>
    if i + r < stop then do
      let a ← compareSwap groupLt a i (i + r)
      mergeLoop r step stop fuel a (i + step)
    else return a

/-- Merge the two sorted halves of `n` entries from `lo`, taking every `r`-th. -/
def oddEvenMerge : ℕ → List (ℕ × ℕ) → ℕ → ℕ → ℕ → Option (List (ℕ × ℕ))
  | 0, _, _, _, _ => none
  | fuel + 1, a, lo, n, r =>
    let step := r * 2
    if step < n then do
      let a ← oddEvenMerge fuel a lo n step
      let a ← oddEvenMerge fuel a (lo + r) n step
      mergeLoop r step (lo + n) n a (lo + r)
    else compareSwap groupLt a lo (lo + r)

/-- Sort the `n` entries from `lo`. -/
def sortNetworkRange : ℕ → List (ℕ × ℕ) → ℕ → ℕ → Option (List (ℕ × ℕ))
  | 0, _, _, _ => none
  | fuel + 1, a, lo, n =>
    if n ≤ 1 then return a
    else do
      let mid := n / 2
      let a ← sortNetworkRange fuel a lo mid
      let a ← sortNetworkRange fuel a (lo + mid) mid
      oddEvenMerge n a lo n 1

/-- Sort sixteen pairs descending. -/
def sortGroupsDesc (groups : List (ℕ × ℕ)) : Option (List (ℕ × ℕ)) :=
  sortNetworkRange 16 groups 0 16

/-! ## Accesses -/

/-- Exchange the pairs in order. -/
def follow (lt : α → α → Bool) (net : List (ℕ × ℕ)) (a : List α) : Option (List α) :=
  net.foldlM (fun a c => compareSwap lt a c.1 c.2) a

theorem compareSwap_eq {a : List α} {i j : ℕ} (hi : i < a.length) (hj : j < a.length) :
    compareSwap lt a i j = some (exchange lt a (i, j)) := by
  rw [compareSwap, List.getElem?_eq_getElem hi, List.getElem?_eq_getElem hj, exchange,
    dif_pos ⟨hi, hj⟩]
  rfl

/-- A network within the array reaches every entry it compares. -/
theorem follow_eq {net : List (ℕ × ℕ)} {a : List α}
    (h : ∀ c ∈ net, c.1 < a.length ∧ c.2 < a.length) : follow lt net a = some (run lt net a) := by
  induction net generalizing a with
  | nil => rfl
  | cons c net ih =>
    rw [List.forall_mem_cons] at h
    have hrest : follow lt net (exchange lt a c) = some (run lt net (exchange lt a c)) :=
      ih (by simpa using h.2)
    rw [follow, List.foldlM_cons, compareSwap_eq h.1.1 h.1.2]
    exact hrest

theorem follow_append (net net' : List (ℕ × ℕ)) (a : List α) :
    follow lt (net ++ net') a = follow lt net a >>= follow lt net' := List.foldlM_append

theorem follow_flatMap (pairs : ℕ → List (ℕ × ℕ)) (js : List ℕ) (a : List α) :
    follow lt (js.flatMap pairs) a = js.foldlM (fun a j => follow lt (pairs j) a) a := by
  induction js generalizing a with
  | nil => rfl
  | cons j js ih =>
    rw [List.flatMap_cons, follow_append, List.foldlM_cons]
    exact congrArg _ (funext ih)

/-- The pairs of the last exchanges. -/
def loopPairs (r step stop : ℕ) : ℕ → ℕ → Option (List (ℕ × ℕ))
  | 0, _ => none
  | fuel + 1, i =>
    if i + r < stop then do return (i, i + r) :: (← loopPairs r step stop fuel (i + step))
    else return []

/-- The pairs of a merge. -/
def mergePairs : ℕ → ℕ → ℕ → ℕ → Option (List (ℕ × ℕ))
  | 0, _, _, _ => none
  | fuel + 1, lo, n, r =>
    let step := r * 2
    if step < n then do
      let left ← mergePairs fuel lo n step
      let right ← mergePairs fuel (lo + r) n step
      return left ++ right ++ (← loopPairs r step (lo + n) n (lo + r))
    else return [(lo, lo + r)]

/-- The pairs of the merge sort. -/
def sortPairs : ℕ → ℕ → ℕ → Option (List (ℕ × ℕ))
  | 0, _, _ => none
  | fuel + 1, lo, n =>
    if n ≤ 1 then return []
    else do
      let left ← sortPairs fuel lo (n / 2)
      let right ← sortPairs fuel (lo + n / 2) (n / 2)
      return left ++ right ++ (← mergePairs n lo n 1)

theorem mergeLoop_eq {r step stop fuel i : ℕ} {net : List (ℕ × ℕ)}
    (h : loopPairs r step stop fuel i = some net) (a : List (ℕ × ℕ)) :
    mergeLoop r step stop fuel a i = follow groupLt net a := by
  induction fuel generalizing i net a with
  | zero => cases h
  | succ fuel ih =>
    rw [loopPairs] at h
    rw [mergeLoop]
    split at h
    · rename_i hlt
      obtain ⟨rest, hrest, h⟩ := Option.bind_eq_some_iff.mp h
      cases h
      rw [if_pos hlt, follow, List.foldlM_cons]
      exact congrArg _ (funext fun a => ih hrest a)
    · rename_i hlt
      cases h
      rw [if_neg hlt]
      rfl

theorem oddEvenMerge_eq {fuel lo n r : ℕ} {net : List (ℕ × ℕ)}
    (h : mergePairs fuel lo n r = some net) (a : List (ℕ × ℕ)) :
    oddEvenMerge fuel a lo n r = follow groupLt net a := by
  induction fuel generalizing lo r net a with
  | zero => cases h
  | succ fuel ih =>
    rw [mergePairs] at h
    rw [oddEvenMerge]
    split at h
    · rename_i hlt
      obtain ⟨left, hleft, h⟩ := Option.bind_eq_some_iff.mp h
      obtain ⟨right, hright, h⟩ := Option.bind_eq_some_iff.mp h
      obtain ⟨last, hlast, h⟩ := Option.bind_eq_some_iff.mp h
      cases h
      rw [if_pos hlt, follow_append, follow_append, ih hleft, bind_assoc]
      refine congrArg _ (funext fun a => ?_)
      rw [ih hright]
      exact congrArg _ (funext fun a => mergeLoop_eq hlast a)
    · rename_i hlt
      cases h
      rw [if_neg hlt, follow, List.foldlM_cons]
      exact (bind_pure _).symm

theorem sortNetworkRange_eq {fuel lo n : ℕ} {net : List (ℕ × ℕ)}
    (h : sortPairs fuel lo n = some net) (a : List (ℕ × ℕ)) :
    sortNetworkRange fuel a lo n = follow groupLt net a := by
  induction fuel generalizing lo n net a with
  | zero => cases h
  | succ fuel ih =>
    rw [sortPairs] at h
    rw [sortNetworkRange]
    split at h
    · rename_i hle
      cases h
      rw [if_pos hle]
      rfl
    · rename_i hle
      obtain ⟨left, hleft, h⟩ := Option.bind_eq_some_iff.mp h
      obtain ⟨right, hright, h⟩ := Option.bind_eq_some_iff.mp h
      obtain ⟨last, hlast, h⟩ := Option.bind_eq_some_iff.mp h
      cases h
      rw [if_neg hle, follow_append, follow_append, bind_assoc]
      dsimp only
      rw [ih hleft]
      refine congrArg _ (funext fun a => ?_)
      rw [ih hright]
      exact congrArg _ (funext fun a => oddEvenMerge_eq hlast a)

/-! ## Sorting -/

/-- The merge sort stays inside its sixteen slots. -/
theorem sortGroupsDesc_eq {groups : List (ℕ × ℕ)} (h : groups.length = 16) :
    sortGroupsDesc groups = some (HandRank.sortGroupsDesc groups) := by
  have hnet : sortPairs 16 0 16 = some (batcher 4) := by decide +kernel
  have hin : ∀ c ∈ batcher 4, c.1 < 16 ∧ c.2 < 16 := by decide
  rw [sortGroupsDesc, sortNetworkRange_eq hnet, follow_eq (by rw [h]; exact hin),
    HandRank.sortGroupsDesc_eq h]

/-- The neighbour exchanges stay inside their five slots. -/
theorem sortFiveDesc_eq {ranks : List ℕ} (h : ranks.length = 5) :
    sortFiveDesc ranks = some (HandRank.sortFiveDesc ranks) := by
  have hnet : sortFiveDesc ranks = follow (fun a b => decide (a < b)) fiveNet ranks := by
    have hpairs : fiveNet =
        (List.range' 1 4).flatMap fun j => (List.range j).reverse.map fun i => (i, i + 1) := by
      decide
    rw [hpairs, follow_flatMap]
    simp only [follow, List.foldlM_map]
    rfl
  rw [hnet, follow_eq (by rw [h]; decide), HandRank.sortFiveDesc_eq h]

end Indexed

theorem toLex_le_of_groupLt {a b : ℕ × ℕ} (h : groupLt a b = false) : toLex b ≤ toLex a := by
  rw [Prod.Lex.le_iff]
  simp only [groupLt, Bool.or_eq_false_iff, Bool.and_eq_false_iff, decide_eq_false_iff_not] at h
  change b.1 < a.1 ∨ b.1 = a.1 ∧ b.2 ≤ a.2
  omega

/-- The networks sort every array, with every access in range. -/
theorem networks_sort :
    (∀ groups : List (ℕ × ℕ), groups.length = 16 → ∃ sorted,
      Indexed.sortGroupsDesc groups = some sorted ∧ sorted = sortGroupsDesc groups ∧
        sorted.Perm groups ∧ sorted.Pairwise fun a b => toLex b ≤ toLex a) ∧
    ∀ ranks : List ℕ, ranks.length = 5 → ∃ sorted,
      Indexed.sortFiveDesc ranks = some sorted ∧ sorted = sortFiveDesc ranks ∧
        sorted.Perm ranks ∧ sorted.Pairwise fun a b => b ≤ a := by
  refine ⟨fun groups h => ⟨_, Indexed.sortGroupsDesc_eq h, rfl, ?_⟩,
    fun ranks h => ⟨_, Indexed.sortFiveDesc_eq h, rfl, ?_⟩⟩
  · rw [sortGroupsDesc_eq h]
    have hsorts : Sorts (batcher 4) groups.length := by rw [h]; exact sorts_batcher
    exact ⟨perm_run _ _, (hsorts.descending strictWeak_groupLt).imp toLex_le_of_groupLt⟩
  · rw [sortFiveDesc_eq h]
    have hsorts : Sorts fiveNet ranks.length := by rw [h]; exact sorts_fiveNet
    refine ⟨perm_run _ _, (hsorts.descending strictWeak_lt).imp fun hlt => ?_⟩
    exact not_lt.mp (of_decide_eq_false hlt)

end TexasPoker.HandRank
