import Mathlib.Data.List.GetD
import Mathlib.Data.List.Lex
import Mathlib.Data.List.Sort
import Mathlib.Data.Prod.Lex
import Mathlib.Tactic.IntervalCases
import TexasPoker.Lib.SortingNetwork
import TexasPoker.Poker.HandRank

/-! # The standard ranking

Poker's ranking of five cards, from the ranks grouped by how often they show: the networks of
the evaluator compute the groups, and the evaluator the ranking.
-/

namespace TexasPoker

namespace HandRank

open HandCategory SortingNetwork

/-! ## The order of ranks -/

theorem key_injective : Function.Injective fun r : HandRank => toLex (r.category, r.kickers) := by
  rintro ⟨c, k⟩ ⟨c', k'⟩ h
  cases h
  rfl

instance : LinearOrder HandRank := LinearOrder.lift' _ key_injective

theorem lt_def {a b : HandRank} :
    a < b ↔ a.category < b.category ∨ a.category = b.category ∧ a.kickers < b.kickers :=
  Prod.Lex.toLex_lt_toLex

theorem lt_iff {a b : HandRank} : a.lt b = true ↔ a < b := by
  rw [lt_def]
  simp [HandRank.lt]

/-! ## Groups -/

/-- The ranks from the ace down. -/
def ranksDown : List ℕ := [14, 13, 12, 11, 10, 9, 8, 7, 6, 5, 4, 3, 2]

/-- How many of the cards have a rank. -/
def tally (cards : List Card) (rank : ℕ) : ℕ := (cards.map Card.rank).count rank

/-- The ranks that show `n` times, from the ace down. -/
def shown (cards : List Card) (n : ℕ) : List ℕ := ranksDown.filter fun rank => tally cards rank = n

/-- The ranks that show, the most frequent first. -/
def grouped (cards : List Card) : List ℕ :=
  shown cards 4 ++ shown cards 3 ++ shown cards 2 ++ shown cards 1

/-- All cards have one suit. -/
def sameSuit (cards : List Card) : Bool :=
  (List.range 4).any fun suit => cards.all fun c => c.suit = suit

/-- The ranks of the straight to `high`; the ace is low in the one to five. -/
def straightRanks (high : ℕ) : List ℕ :=
  if high = 5 then [14, 5, 4, 3, 2] else [high, high - 1, high - 2, high - 3, high - 4]

/-- The high card of a straight. -/
def straightOf (cards : List Card) : Option ℕ :=
  [14, 13, 12, 11, 10, 9, 8, 7, 6, 5].find? fun high => grouped cards = straightRanks high

/-- The category of groups of these sizes. -/
def madeCategory : List ℕ → ℕ
  | 4 :: _ => fourOfAKind
  | 3 :: 2 :: _ => fullHouse
  | 3 :: _ => threeOfAKind
  | 2 :: 2 :: _ => twoPair
  | 2 :: _ => onePair
  | _ => highCard

/-- The rank of five cards. -/
def standard (cards : List Card) : HandRank :=
  match sameSuit cards, straightOf cards with
  | true, some high => if high = 14 then new royalFlush [14] else new straightFlush [high]
  | true, none => new flush (grouped cards)
  | false, some high => new straight [high]
  | false, none => new (madeCategory ((grouped cards).map (tally cards))) (grouped cards)

variable {cards cards' : List Card} {r r' : ℕ}

theorem mem_ranksDown : r ∈ ranksDown ↔ 2 ≤ r ∧ r ≤ 14 := by
  simp only [ranksDown, List.mem_cons, List.not_mem_nil, or_false]
  omega

theorem mem_shown {n : ℕ} : r ∈ shown cards n ↔ (2 ≤ r ∧ r ≤ 14) ∧ tally cards r = n := by
  rw [shown, List.mem_filter, mem_ranksDown, decide_eq_true_eq]

/-- One rank stands before another: it shows more often, or as often and is higher. -/
def Leads (cards : List Card) (r r' : ℕ) : Prop :=
  tally cards r' < tally cards r ∨ tally cards r = tally cards r' ∧ r' < r

theorem leads_shown (n : ℕ) : (shown cards n).Pairwise (Leads cards) := by
  have hdown : ranksDown.Pairwise (· > ·) := by decide
  refine (hdown.filter _).imp_of_mem fun {r r'} hr hr' h => .inr ⟨?_, h⟩
  exact (mem_shown.mp hr).2.trans (mem_shown.mp hr').2.symm

/-- The groups are in order, and the ranks that do not show follow. -/
theorem leads_grouped (cards : List Card) :
    (grouped cards ++ shown cards 0).Pairwise (Leads cards) := by
  have hdown {n m : ℕ} (hnm : m < n) : ∀ r ∈ shown cards n, ∀ r' ∈ shown cards m, Leads cards r r' :=
    fun r hr r' hr' => .inl (by rw [(mem_shown.mp hr).2, (mem_shown.mp hr').2]; exact hnm)
  simp only [grouped, List.pairwise_append, List.mem_append, or_imp, forall_and]
  exact ⟨⟨⟨⟨leads_shown 4, leads_shown 3, hdown (by decide)⟩, leads_shown 2, hdown (by decide),
    hdown (by decide)⟩, leads_shown 1, ⟨hdown (by decide), hdown (by decide)⟩, hdown (by decide)⟩,
    leads_shown 0, ⟨⟨hdown (by decide), hdown (by decide)⟩, hdown (by decide)⟩, hdown (by decide)⟩

/-- No rank shows more than four times. -/
def FewOfEach (cards : List Card) : Prop := ∀ r, 2 ≤ r → r ≤ 14 → tally cards r ≤ 4

theorem mem_grouped (h : FewOfEach cards) :
    r ∈ grouped cards ↔ (2 ≤ r ∧ r ≤ 14) ∧ 0 < tally cards r := by
  simp only [grouped, List.mem_append, mem_shown]
  constructor
  · omega
  · rintro ⟨hr, hpos⟩
    have := h r hr.1 hr.2
    omega

theorem nodup_grouped (cards : List Card) : (grouped cards ++ shown cards 0).Nodup := by
  refine (leads_grouped cards).imp fun {r r'} h heq => ?_
  subst heq
  rcases h with h | h <;> omega

/-- Groups and missing ranks together are all ranks. -/
theorem perm_ranksDown (h : FewOfEach cards) : (grouped cards ++ shown cards 0).Perm ranksDown := by
  refine (List.perm_ext_iff_of_nodup (nodup_grouped cards) (by decide)).mpr fun r => ?_
  rw [List.mem_append, mem_grouped h, mem_shown, mem_ranksDown]
  omega

/-- A list of the shown ranks in order is the grouped one. -/
theorem eq_grouped {l : List ℕ} (h : FewOfEach cards) (hl : l.Pairwise (Leads cards))
    (hmem : ∀ r, r ∈ l ↔ (2 ≤ r ∧ r ≤ 14) ∧ 0 < tally cards r) : l = grouped cards := by
  have hg := (List.pairwise_append.mp (leads_grouped cards)).1
  have hnodup : l.Nodup := hl.imp fun {r r'} hlead heq => by
    subst heq
    rcases hlead with h | h <;> omega
  refine List.Perm.eq_of_pairwise (fun r r' _ _ h h' => ?_) hl hg
    ((List.perm_ext_iff_of_nodup hnodup ((nodup_grouped cards).sublist
      (List.sublist_append_left _ _))).mpr fun r => ?_)
  · rcases h with h | h <;> rcases h' with h' | h' <;> omega
  · rw [hmem, mem_grouped h]

/-! ## The networks -/

theorem strictWeak_groupLt : StrictWeak groupLt where
  asymm h := by
    simp only [groupLt, Bool.or_eq_true, Bool.and_eq_true, decide_eq_true_eq, Bool.or_eq_false_iff,
      Bool.and_eq_false_iff, decide_eq_false_iff_not] at h ⊢
    omega
  negTrans h h' := by
    simp only [groupLt, Bool.or_eq_false_iff, Bool.and_eq_false_iff, decide_eq_false_iff_not] at h h' ⊢
    omega

theorem strictWeak_lt : StrictWeak fun a b : ℕ => decide (a < b) where
  asymm h := by
    simp only [decide_eq_true_eq, decide_eq_false_iff_not] at h ⊢
    omega
  negTrans h h' := by
    simp only [decide_eq_false_iff_not] at h h' ⊢
    omega

theorem compareExchange_eq {α : Type} [Inhabited α] {lt : α → α → Bool} {l : List α} {i j : ℕ}
    (hi : i < l.length) (hj : j < l.length) : compareExchange lt l i j = exchange lt l (i, j) := by
  rw [compareExchange, exchange, dif_pos ⟨hi, hj⟩, List.getD_eq_getElem _ _ hi,
    List.getD_eq_getElem _ _ hj]
  rfl

theorem foldl_compareExchange {α : Type} [Inhabited α] {lt : α → α → Bool}
    {net : List (ℕ × ℕ)} {l : List α} (h : ∀ c ∈ net, c.1 < l.length ∧ c.2 < l.length) :
    net.foldl (fun l c => compareExchange lt l c.1 c.2) l = run lt net l := by
  induction net generalizing l with
  | nil => rfl
  | cons c net ih =>
    rw [List.forall_mem_cons] at h
    rw [List.foldl_cons, compareExchange_eq h.1.1 h.1.2, ih (by simpa using h.2)]
    rfl

/-- The ten neighbour exchanges. -/
def fiveNet : List (ℕ × ℕ) :=
  [(0, 1), (1, 2), (0, 1), (2, 3), (1, 2), (0, 1), (3, 4), (2, 3), (1, 2), (0, 1)]

theorem sorts_fiveNet : Sorts fiveNet 5 := by
  have hall : ∀ a b c d e : Bool, Descending bitLt (run bitLt fiveNet [a, b, c, d, e]) := by decide
  intro bits hlen
  match bits, hlen with
  | [a, b, c, d, e], _ => exact hall a b c d e

theorem sortFiveDesc_eq {ranks : List ℕ} (h : ranks.length = 5) :
    sortFiveDesc ranks = run (fun a b => decide (a < b)) fiveNet ranks := by
  have hnet : ((List.range' 1 4).flatMap fun j => (List.range j).reverse.map fun i => (i, i + 1)) =
      fiveNet := by decide
  rw [← foldl_compareExchange (by rw [h]; decide), ← hnet, List.foldl_flatMap]
  simp only [List.foldl_map]
  rfl

/-- The comparators of one merge. -/
def mergePairs (lo n r : ℕ) : ℕ → List (ℕ × ℕ)
  | 0 => []
  | depth + 1 =>
    let step := r * 2
    if step < n then
      mergePairs lo n step depth ++ mergePairs (lo + r) n step depth ++
        ((List.range n).filter fun k => r ≤ k ∧ (k - r) % step = 0 ∧ k + r < n).map
          fun k => (lo + k, lo + k + r)
    else [(lo, lo + r)]

/-- The comparators of the merge sort. -/
def sortPairs (lo n : ℕ) : ℕ → List (ℕ × ℕ)
  | 0 => []
  | depth + 1 =>
    if n ≤ 1 then []
    else sortPairs lo (n / 2) depth ++ sortPairs (lo + n / 2) (n / 2) depth ++ mergePairs lo n 1 5

/-- Exchange the pairs in order. -/
abbrev exchangePairs (net : List (ℕ × ℕ)) (a : List (ℕ × ℕ)) : List (ℕ × ℕ) :=
  net.foldl (fun a c => compareExchange groupLt a c.1 c.2) a

theorem oddEvenMerge_eq (a : List (ℕ × ℕ)) (lo n r depth : ℕ) :
    oddEvenMerge a lo n r depth = exchangePairs (mergePairs lo n r depth) a := by
  induction depth generalizing a lo r with
  | zero => rfl
  | succ depth ih =>
    simp only [oddEvenMerge, mergePairs]
    split
    · simp only [ih, exchangePairs, List.foldl_append, List.foldl_map]
    · rfl

theorem sortNetworkRange_eq (a : List (ℕ × ℕ)) (lo n depth : ℕ) :
    sortNetworkRange a lo n depth = exchangePairs (sortPairs lo n depth) a := by
  induction depth generalizing a lo n with
  | zero => rfl
  | succ depth ih =>
    simp only [sortNetworkRange, sortPairs]
    split
    · rfl
    · simp only [ih, oddEvenMerge_eq, exchangePairs, List.foldl_append]

/-- The merge sort of `2 ^ k` entries. -/
def batcher : ℕ → List (ℕ × ℕ)
  | 0 => []
  | k + 1 => batcher k ++ shift (2 ^ k) (batcher k) ++ mergePairs 0 (2 ^ k + 2 ^ k) 1 5

/-- The last merge, one number of leading trues in the first half at a time. -/
theorem merges_eight : Merges (mergePairs 0 16 1 5) 8 := by
  intro i hi
  interval_cases i <;> decide +kernel

theorem sorts_batcher : Sorts (batcher 4) 16 := by
  have h₁ : Sorts (batcher 1) 2 := sorts_one.double (by decide) (by decide)
  have h₂ : Sorts (batcher 2) 4 := h₁.double (by decide) (by decide)
  have h₃ : Sorts (batcher 3) 8 := h₂.double (by decide) (by decide +kernel)
  exact h₃.double (by decide) merges_eight

theorem sortGroupsDesc_eq {a : List (ℕ × ℕ)} (h : a.length = 16) :
    sortGroupsDesc a = run groupLt (batcher 4) a := by
  have hnet : sortPairs 0 16 5 = batcher 4 := by decide
  rw [sortGroupsDesc, sortNetworkRange_eq, hnet, exchangePairs, foldl_compareExchange]
  rw [h]
  decide

end HandRank

end TexasPoker
