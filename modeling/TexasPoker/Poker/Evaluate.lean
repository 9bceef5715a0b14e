import Mathlib.Algebra.Order.BigOperators.Group.List
import Mathlib.Tactic.IntervalCases
import TexasPoker.Poker.Standard

/-! # What the evaluator computes

Five distinct cards get their standard rank. A hand short of five cards is ranked by its groups
too, but its kickers run on into the ranks that it does not show.
-/

namespace TexasPoker

namespace HandRank

open HandCategory SortingNetwork

variable {cards cards' : List Card} {r r' : ℕ}

/-! ## The line of ranks -/

/-- All ranks: the groups, then the missing ranks from the ace down. -/
def line (cards : List Card) : List ℕ := grouped cards ++ shown cards 0

theorem length_line (h : FewOfEach cards) : (line cards).length = 13 :=
  (perm_ranksDown h).length_eq

theorem groups_eq (h : FewOfEach cards) : groups cards =
    (line cards).map (fun r => (tally cards r, r)) ++ List.replicate 3 (0, 0) := by
  have hlen : (((List.range 13).map fun slot => ((cards.map Card.rank).count (slot + 2), slot + 2)) ++
      List.replicate 3 (0, 0)).length = 16 := by simp
  have hdesc : Descending groupLt (groups cards) := by
    rw [groups, sortGroupsDesc_eq hlen]
    exact Sorts.descending strictWeak_groupLt (hlen ▸ sorts_batcher)
  refine List.Perm.eq_of_pairwise ?_ hdesc ?_ ?_
  · rintro ⟨c, k⟩ ⟨c', k'⟩ _ _ hlt hlt'
    simp only [groupLt, Bool.or_eq_false_iff, Bool.and_eq_false_iff, decide_eq_false_iff_not]
      at hlt hlt'
    ext <;> dsimp only <;> omega
  · refine List.pairwise_append.mpr ⟨List.pairwise_map.mpr ((leads_grouped cards).imp ?_),
      List.pairwise_replicate.mpr (.inr (by decide)), fun a _ b hb => ?_⟩
    · intro r r' hlead
      simp only [Leads, groupLt, Bool.or_eq_false_iff, Bool.and_eq_false_iff,
        decide_eq_false_iff_not] at hlead ⊢
      omega
    · rw [List.eq_of_mem_replicate hb]
      simp [groupLt]
  · have hslots : ((List.range 13).map fun slot => slot + 2).Perm ranksDown := by decide
    rw [groups, sortGroupsDesc_eq hlen]
    refine (perm_run _ _).trans (List.Perm.append_right _ ?_)
    have hmap := (hslots.trans (perm_ranksDown h).symm).map fun r => (tally cards r, r)
    rwa [List.map_map] at hmap

/-! ## Sizes of the groups -/

theorem sum_count {l xs : List ℕ} (h : l.Nodup) :
    (l.map fun r => xs.count r).sum = xs.countP (· ∈ l) := by
  induction l with
  | nil => simp
  | cons a l ih =>
    obtain ⟨ha, hl⟩ := List.nodup_cons.mp h
    rw [List.map_cons, List.sum_cons, ih hl]
    clear ih h hl
    induction xs with
    | nil => rfl
    | cons x xs ih =>
      simp only [List.count_cons, List.countP_cons, List.mem_cons, beq_iff_eq, decide_eq_true_eq,
        Bool.decide_or] at ih ⊢
      by_cases hx : x = a
      · rw [← hx] at ha
        simp only [hx, hx ▸ ha, decide_true, Bool.true_or, if_true, if_false]
        omega
      · simp only [hx, decide_false, Bool.false_or, if_false, decide_eq_true_eq]
        omega

variable (cards) in
/-- Distinct ranks show at most as often as there are cards. -/
theorem sum_tally_le {l : List ℕ} (h : l.Nodup) : (l.map (tally cards)).sum ≤ cards.length :=
  calc (l.map (tally cards)).sum
      = (cards.map Card.rank).countP (· ∈ l) := sum_count h
    _ ≤ (cards.map Card.rank).length := List.countP_le_length
    _ = cards.length := List.length_map _

theorem nodup_groups (cards : List Card) : (grouped cards).Nodup :=
  (nodup_grouped cards).sublist (List.sublist_append_left _ _)

/-- Cards of the deck. -/
def AllValid (cards : List Card) : Prop := ∀ c ∈ cards, c.index < 52

theorem rank_mem {c : Card} (h : c.index < 52) : 2 ≤ c.rank ∧ c.rank ≤ 14 := by
  simp only [Card.rank, h, if_true]
  omega

theorem tally_pos {c : Card} (h : c ∈ cards) : 0 < tally cards c.rank :=
  List.count_pos_iff.mpr (List.mem_map_of_mem h)

theorem sum_tally (hv : AllValid cards) (hf : FewOfEach cards) :
    ((grouped cards).map (tally cards)).sum = cards.length := by
  have hall : ∀ x ∈ cards.map Card.rank, (decide (x ∈ grouped cards)) = true := by
    intro x hx
    obtain ⟨c, hc, rfl⟩ := List.mem_map.mp hx
    exact decide_eq_true ((mem_grouped hf).mpr ⟨rank_mem (hv c hc), tally_pos hc⟩)
  rw [← cards.length_map Card.rank, ← List.countP_eq_length.mpr hall]
  exact sum_count (nodup_groups cards)

/-- Group sizes fall, and every group has one to four cards. -/
theorem sizes_grouped (h : FewOfEach cards) :
    ((grouped cards).map (tally cards)).Pairwise (· ≥ ·) ∧
      ∀ n ∈ (grouped cards).map (tally cards), 0 < n ∧ n ≤ 4 := by
  have hg := (List.pairwise_append.mp (leads_grouped cards)).1
  refine ⟨List.pairwise_map.mpr (hg.imp fun {r r'} hlead => ?_), fun n hn => ?_⟩
  · rcases hlead with hlt | ⟨heq, -⟩ <;> omega
  · obtain ⟨r, hr, rfl⟩ := List.mem_map.mp hn
    obtain ⟨hr, hpos⟩ := (mem_grouped h).mp hr
    exact ⟨hpos, h r hr.1 hr.2⟩

/-- The category by the sizes of the two largest groups. -/
def categoryOf (first second : ℕ) : ℕ :=
  if first = 4 then fourOfAKind
  else if first = 3 ∧ 2 ≤ second then fullHouse
  else if first = 3 then threeOfAKind
  else if first = 2 ∧ second = 2 then twoPair
  else if first = 2 then onePair
  else highCard

theorem madeCategory_eq {sizes : List ℕ} (hdesc : sizes.Pairwise (· ≥ ·))
    (hpos : ∀ n ∈ sizes, 0 < n ∧ n ≤ 4) (hsum : sizes.sum ≤ 5) :
    madeCategory sizes = categoryOf (sizes.getD 0 0) (sizes.getD 1 0) := by
  match sizes with
  | [] => rfl
  | [a] =>
    obtain ⟨ha, ha'⟩ := hpos a (by simp)
    interval_cases a <;> rfl
  | a :: b :: rest =>
    obtain ⟨ha, ha'⟩ := hpos a (by simp)
    obtain ⟨hb, hb'⟩ := hpos b (by simp)
    have hab : b ≤ a := List.rel_of_pairwise_cons hdesc (by simp)
    simp only [List.sum_cons] at hsum
    interval_cases a <;> interval_cases b <;> first | rfl | omega

/-- How many ranks a category reads off the line. -/
def reads (category : ℕ) : ℕ :=
  if category = fourOfAKind ∨ category = fullHouse then 2
  else if category = threeOfAKind ∨ category = twoPair then 3
  else 4

/-- The category of the groups. -/
def made (cards : List Card) : ℕ := madeCategory ((grouped cards).map (tally cards))

theorem made_eq (hf : FewOfEach cards) (hlen : cards.length ≤ 5) {r₀ r₁ : ℕ} {rest : List ℕ}
    (hline : line cards = r₀ :: r₁ :: rest) :
    made cards = categoryOf (tally cards r₀) (tally cards r₁) := by
  obtain ⟨hdesc, hpos⟩ := sizes_grouped hf
  have hsizes (i : ℕ) : ((line cards).map (tally cards)).getD i 0 =
      ((grouped cards).map (tally cards)).getD i 0 := by
    have hzero : (shown cards 0).map (tally cards) = List.replicate (shown cards 0).length 0 :=
      List.map_eq_replicate_iff.mpr fun r hr => (mem_shown.mp hr).2
    rw [line, List.map_append, hzero]
    rcases Nat.lt_or_ge i ((grouped cards).map (tally cards)).length with hi | hi
    · rw [List.getD_append _ _ _ _ hi]
    · rw [List.getD_append_right _ _ _ _ hi, List.getD_eq_default _ _ hi]
      rw [List.getD_eq_getElem?_getD, List.getElem?_getD_replicate_default_eq]
  rw [made, madeCategory_eq hdesc hpos ((sum_tally_le cards (nodup_groups cards)).trans hlen), ← hsizes,
    ← hsizes, hline]
  rfl

/-! ## Five cards -/

/-- The evaluator's test of the suits. -/
def flushes (cards : List Card) : Bool :=
  (cards.map Card.suit).all fun suit => suit = (cards.map Card.suit).headD 0

/-- The sorted ranks of five cards. -/
abbrev sortedRanks (cards : List Card) : List ℕ := sortFiveDesc (cards.map Card.rank)

theorem evaluateFive_of_straight {high : ℕ} (hflush : flushes cards = true)
    (hstraight : straightHigh (sortedRanks cards) = some high) : evaluateFive cards =
      if high = 14 then new royalFlush [14] else new straightFlush [high] := by
  unfold flushes at hflush
  simp only [evaluateFive, hflush, hstraight]

theorem exists_line_eq (hf : FewOfEach cards) :
    ∃ r₀ r₁ r₂ r₃ rest, line cards = r₀ :: r₁ :: r₂ :: r₃ :: rest := by
  have hll := length_line hf
  rcases hl : line cards with _ | ⟨r₀, _ | ⟨r₁, _ | ⟨r₂, _ | ⟨r₃, rest⟩⟩⟩⟩
  case cons.cons.cons.cons => exact ⟨r₀, r₁, r₂, r₃, rest, rfl⟩
  all_goals simp [hl] at hll

/-- Without a straight flush the groups decide, unless they are all single. -/
theorem evaluateFive_eq (hf : FewOfEach cards) (hlen : cards.length = 5)
    (h : flushes cards = false ∨ straightHigh (sortedRanks cards) = none) :
    evaluateFive cards =
      if made cards = fourOfAKind ∨ made cards = fullHouse then
        new (made cards) ((line cards).take (reads (made cards)))
      else if flushes cards then new flush (sortedRanks cards)
      else match straightHigh (sortedRanks cards) with
        | some high => new straight [high]
        | none =>
          if made cards = highCard then new highCard (sortedRanks cards)
          else new (made cards) ((line cards).take (reads (made cards))) := by
  obtain ⟨r₀, r₁, r₂, r₃, rest, hline⟩ := exists_line_eq hf
  have hgs := groups_eq hf
  rw [hline] at hgs
  have hlead := leads_grouped cards
  rw [← line, hline] at hlead
  have h₀₁ : Leads cards r₀ r₁ := List.rel_of_pairwise_cons hlead List.mem_cons_self
  have hmade := made_eq hf hlen.le hline
  have hplain : evaluateFive cards =
      if tally cards r₀ = 4 then new fourOfAKind [r₀, r₁]
      else if tally cards r₀ = 3 ∧ 2 ≤ tally cards r₁ then new fullHouse [r₀, r₁]
      else if flushes cards then new flush (sortedRanks cards)
      else match straightHigh (sortedRanks cards) with
        | some high => new straight [high]
        | none =>
          if tally cards r₀ = 3 then new threeOfAKind [r₀, r₁, r₂]
          else if tally cards r₀ = 2 ∧ tally cards r₁ = 2 then
            new twoPair [max r₀ r₁, min r₀ r₁, r₂]
          else if tally cards r₀ = 2 then new onePair [r₀, r₁, r₂, r₃]
          else new highCard (sortedRanks cards) := by
    have hflush : ((cards.map Card.suit).all fun suit =>
        suit = (cards.map Card.suit).headD 0) = flushes cards := rfl
    simp only [evaluateFive, hgs, List.map_cons, List.cons_append, List.getD_cons_zero,
      List.getD_cons_succ, hflush]
    generalize flushes cards = b at h ⊢
    generalize straightHigh (sortedRanks cards) = o at h ⊢
    cases b with
    | false => cases o <;> rfl
    | true =>
      obtain rfl : o = none := h.resolve_left (by simp)
      rfl
  rw [hplain, hmade, hline]
  unfold categoryOf
  by_cases h4 : tally cards r₀ = 4
  · simp [h4, reads, fourOfAKind]
  by_cases h32 : tally cards r₀ = 3 ∧ 2 ≤ tally cards r₁
  · simp [h32, reads, fullHouse, fourOfAKind]
  simp only [if_neg h4, if_neg h32]
  have hcat : ¬ (categoryOf (tally cards r₀) (tally cards r₁) = fourOfAKind ∨
      categoryOf (tally cards r₀) (tally cards r₁) = fullHouse) := by
    unfold categoryOf
    rw [if_neg h4, if_neg h32]
    split_ifs <;> decide
  unfold categoryOf at hcat
  rw [if_neg h4, if_neg h32] at hcat
  rw [if_neg hcat]
  clear hplain hgs hcat
  split
  · rfl
  split
  · rfl
  by_cases h3 : tally cards r₀ = 3
  · simp [h3, reads, threeOfAKind, fourOfAKind, fullHouse, highCard]
  by_cases h22 : tally cards r₀ = 2 ∧ tally cards r₁ = 2
  · have hmax : max r₀ r₁ = r₀ ∧ min r₀ r₁ = r₁ := by
      unfold Leads at h₀₁
      omega
    simp [h22, hmax, reads, twoPair, threeOfAKind, fourOfAKind, fullHouse, highCard]
  by_cases h2 : tally cards r₀ = 2
  · have h1 : tally cards r₁ ≠ 2 := fun h1 => h22 ⟨h2, h1⟩
    simp [h2, h1, reads, onePair, twoPair, threeOfAKind, fourOfAKind, fullHouse, highCard]
  · simp [h2, h3, highCard]

theorem sortedRanks_perm (hlen : cards.length = 5) : (sortedRanks cards).Perm (cards.map Card.rank) := by
  rw [sortedRanks, sortFiveDesc_eq (by simpa using hlen)]
  exact perm_run _ _

theorem sortedRanks_desc (hlen : cards.length = 5) : (sortedRanks cards).Pairwise (· ≥ ·) := by
  have hranks : (cards.map Card.rank).length = 5 := by simpa using hlen
  rw [sortedRanks, sortFiveDesc_eq hranks]
  exact (Sorts.descending strictWeak_lt (hranks ▸ sorts_fiveNet)).imp fun h => by simpa using h

/-- Ranks that show once each are grouped as they are sorted. -/
theorem sortedRanks_eq (hv : AllValid cards) (hlen : cards.length = 5)
    (hone : (cards.map Card.rank).Nodup) : sortedRanks cards = grouped cards := by
  have hcount : ∀ r, tally cards r ≤ 1 := List.nodup_iff_count_le_one.mp hone
  have hperm := sortedRanks_perm hlen
  have hmem (r : ℕ) : r ∈ sortedRanks cards ↔ 0 < tally cards r := by
    rw [hperm.mem_iff, tally, List.count_pos_iff]
  refine eq_grouped (fun r _ _ => (hcount r).trans (by decide)) ?_ fun r => ?_
  · have hnodup : (sortedRanks cards).Nodup := hperm.nodup_iff.mpr hone
    refine (List.Pairwise.and (sortedRanks_desc hlen) hnodup).imp_of_mem fun {r r'} hr hr' h => ?_
    rw [hmem] at hr hr'
    have := hcount r
    have := hcount r'
    unfold Leads
    omega
  · rw [hmem]
    refine ⟨fun hpos => ⟨?_, hpos⟩, And.right⟩
    obtain ⟨c, hc, rfl⟩ := List.mem_map.mp (List.count_pos_iff.mp hpos)
    exact rank_mem (hv c hc)

theorem nodup_of_straightHigh {ranks : List ℕ} {high : ℕ} (hlen : ranks.length = 5)
    (h : straightHigh ranks = some high) : ranks.Nodup := by
  match ranks, hlen with
  | [a, b, c, d, e], _ =>
    unfold straightHigh at h
    split at h
    · rename_i hw
      rw [hw]
      decide
    · split at h
      · rename_i hseq
        simp only [List.tail_cons, List.zip_cons_cons, List.zip_nil_right, List.all_cons,
          List.all_nil, Bool.and_true, Bool.and_eq_true, decide_eq_true_eq] at hseq
        simp only [List.nodup_cons, List.mem_cons, List.not_mem_nil, or_false, List.nodup_nil,
          not_false_eq_true, and_true]
        omega
      · cases h

/-- Descending ranks are a straight when they are the ranks of one. -/
theorem straightHigh_eq {ranks : List ℕ} (hlen : ranks.length = 5)
    (hdeck : ∀ r ∈ ranks, 2 ≤ r ∧ r ≤ 14) : straightHigh ranks =
      [14, 13, 12, 11, 10, 9, 8, 7, 6, 5].find? fun high => ranks = straightRanks high := by
  match ranks, hlen with
  | [a, b, c, d, e], _ =>
    simp only [List.forall_mem_cons] at hdeck
    obtain ⟨⟨-, ha⟩, -, -, -, ⟨he, -⟩, -⟩ := hdeck
    by_cases hw : [a, b, c, d, e] = [14, 5, 4, 3, 2]
    · rw [hw]
      decide
    by_cases hseq : a = b + 1 ∧ b = c + 1 ∧ c = d + 1 ∧ d = e + 1
    · have hhigh : e ≤ 10 := by omega
      obtain ⟨rfl, rfl, rfl, rfl⟩ := hseq
      clear hw
      interval_cases e <;> decide
    · have hstraight : straightHigh [a, b, c, d, e] = none := by
        rw [straightHigh, if_neg hw, if_neg]
        simpa [List.zip, and_assoc] using hseq
      rw [hstraight]
      refine (List.find?_eq_none.mpr fun high hhigh heq => ?_).symm
      simp only [List.mem_cons, List.not_mem_nil, or_false] at hhigh
      rw [decide_eq_true_eq, straightRanks] at heq
      split at heq
      · exact hw heq
      · simp only [List.cons.injEq, and_true] at heq
        omega

/-- The groups of five cards are the ranks that their category reads. -/
theorem length_of_madeCategory {sizes : List ℕ} (hdesc : sizes.Pairwise (· ≥ ·))
    (hpos : ∀ n ∈ sizes, 0 < n ∧ n ≤ 4) (hsum : sizes.sum = 5) :
    if madeCategory sizes = highCard then sizes.length = 5
      else sizes.length = reads (madeCategory sizes) := by
  rw [madeCategory_eq hdesc hpos hsum.le]
  match sizes with
  | [] => cases hsum
  | [a] =>
    have := hpos a (by simp)
    simp at hsum
    omega
  | a :: b :: rest =>
    obtain ⟨ha, ha'⟩ := hpos a (by simp)
    obtain ⟨hb, hb'⟩ := hpos b (by simp)
    have hab : b ≤ a := List.rel_of_pairwise_cons hdesc (by simp)
    have hrest : rest.length ≤ rest.sum :=
      List.length_le_sum_of_one_le rest fun n hn => (hpos n (by simp [hn])).1
    have hsmall : rest.sum ≤ rest.length * b :=
      List.sum_le_card_nsmul rest b fun n hn => List.rel_of_pairwise_cons hdesc.tail hn
    simp only [List.sum_cons] at hsum
    simp only [List.getD_cons_zero, List.getD_cons_succ, List.length_cons]
    interval_cases a <;> interval_cases b <;>
      simp [categoryOf, reads, highCard, onePair, twoPair, threeOfAKind, fullHouse,
        fourOfAKind] <;>
      first
      | omega
      | exact List.eq_nil_of_length_eq_zero (by omega)

theorem length_grouped (hv : AllValid cards) (hf : FewOfEach cards) (hlen : cards.length = 5) :
    if made cards = highCard then (grouped cards).length = 5
      else (grouped cards).length = reads (made cards) := by
  obtain ⟨hdesc, hpos⟩ := sizes_grouped hf
  have h := length_of_madeCategory hdesc hpos ((sum_tally hv hf).trans hlen)
  rwa [List.length_map] at h

theorem take_line {n : ℕ} (h : (grouped cards).length = n) : (line cards).take n = grouped cards := by
  rw [line, ← h, List.take_left]

/-- Ranks that show once each make no group. -/
theorem made_of_nodup (hone : (cards.map Card.rank).Nodup) : made cards = highCard := by
  have hcount : ∀ r, tally cards r ≤ 1 := List.nodup_iff_count_le_one.mp hone
  have hf : FewOfEach cards := fun r _ _ => (hcount r).trans (by decide)
  obtain ⟨hdesc, hpos⟩ := sizes_grouped hf
  have hsizes : ∀ n ∈ (grouped cards).map (tally cards), n = 1 := by
    intro n hn
    have hn' := hpos n hn
    obtain ⟨r, -, rfl⟩ := List.mem_map.mp hn
    have := hcount r
    omega
  rw [made]
  cases hs : (grouped cards).map (tally cards) with
  | nil => rfl
  | cons a rest =>
    rw [hsizes a (by simp [hs])]
    rfl

/-! ## Distinct cards -/

theorem suit_lt {c : Card} (h : c.index < 52) : c.suit < 4 := by
  simp only [Card.suit, h, if_true]
  omega

theorem card_ext {c c' : Card} (h : c.index < 52) (h' : c'.index < 52) (hs : c.suit = c'.suit)
    (hr : c.rank = c'.rank) : c = c' := by
  obtain ⟨i⟩ := c
  obtain ⟨j⟩ := c'
  simp only [Card.suit, Card.rank, h, h', if_true] at hs hr
  congr
  dsimp only at h h'
  omega

/-- The deck has four cards of each rank. -/
theorem fewOfEach (hv : AllValid cards) (hnodup : cards.Nodup) : FewOfEach cards := by
  intro r _ _
  have hlen : tally cards r = (cards.filter fun c => c.rank = r).length := by
    rw [tally, List.count_eq_countP, List.countP_map, List.countP_eq_length_filter]
    rfl
  have hsuits : ((cards.filter fun c => c.rank = r).map Card.suit).Nodup := by
    refine (hnodup.filter _).map_on fun c hc c' hc' heq => ?_
    simp only [List.mem_filter, decide_eq_true_eq] at hc hc'
    exact card_ext (hv c hc.1) (hv c' hc'.1) heq (hc.2.trans hc'.2.symm)
  have hsub : (cards.filter fun c => c.rank = r).map Card.suit ⊆ List.range 4 := by
    intro suit hsuit
    obtain ⟨c, hc, rfl⟩ := List.mem_map.mp hsuit
    exact List.mem_range.mpr (suit_lt (hv c (List.mem_of_mem_filter hc)))
  have := (hsuits.subperm hsub).length_le
  rw [hlen]
  simpa using this

/-- Distinct cards of one suit have distinct ranks. -/
theorem nodup_of_flushes (hv : AllValid cards) (hnodup : cards.Nodup) (h : flushes cards = true) :
    (cards.map Card.rank).Nodup := by
  simp only [flushes, List.all_eq_true, List.mem_map, forall_exists_index, and_imp,
    forall_apply_eq_imp_iff₂, decide_eq_true_eq] at h
  exact hnodup.map_on fun c hc c' hc' heq =>
    card_ext (hv c hc) (hv c' hc') ((h c hc).trans (h c' hc').symm) heq

theorem sameSuit_eq (hv : AllValid cards) (hne : cards ≠ []) : sameSuit cards = flushes cards := by
  obtain ⟨c, rest, rfl⟩ := List.exists_cons_of_ne_nil hne
  rw [Bool.eq_iff_iff]
  simp only [sameSuit, flushes, List.any_eq_true, List.mem_range, List.all_eq_true,
    decide_eq_true_eq, List.map_cons, List.headD_cons, List.forall_mem_cons, List.mem_map,
    forall_exists_index, and_imp, forall_apply_eq_imp_iff₂, true_and]
  constructor
  · rintro ⟨suit, -, hc, hrest⟩ c' hc'
    rw [hrest c' hc', hc]
  · intro h
    exact ⟨c.suit, suit_lt (hv c List.mem_cons_self), rfl, h⟩

/-- As many groups as cards make every rank single. -/
theorem nodup_of_length (hf : FewOfEach cards) (h : cards.length ≤ (grouped cards).length) :
    (cards.map Card.rank).Nodup := by
  have hnodup := nodup_groups cards
  have hsub : grouped cards ⊆ cards.map Card.rank := fun r hr =>
    List.count_pos_iff.mp ((mem_grouped hf).mp hr).2
  have hperm := (hnodup.subperm hsub).perm_of_length_le (by rwa [List.length_map])
  exact hperm.nodup_iff.mp hnodup

theorem straightOf_eq (hv : AllValid cards) (hnodup : cards.Nodup) (hlen : cards.length = 5) :
    straightOf cards = straightHigh (sortedRanks cards) := by
  have hperm := sortedRanks_perm hlen
  have hsorted : (sortedRanks cards).length = 5 := by
    rw [hperm.length_eq, List.length_map, hlen]
  have hdeck : ∀ r ∈ sortedRanks cards, 2 ≤ r ∧ r ≤ 14 := by
    intro r hr
    obtain ⟨c, hc, rfl⟩ := List.mem_map.mp (hperm.mem_iff.mp hr)
    exact rank_mem (hv c hc)
  by_cases hone : (cards.map Card.rank).Nodup
  · rw [straightHigh_eq hsorted hdeck, sortedRanks_eq hv hlen hone, straightOf]
  · have hnone : straightHigh (sortedRanks cards) = none := by
      rw [Option.eq_none_iff_forall_ne_some]
      intro high h
      exact hone (hperm.nodup_iff.mp (nodup_of_straightHigh hsorted h))
    rw [hnone, straightOf]
    refine List.find?_eq_none.mpr fun high _ heq => hone ?_
    rw [decide_eq_true_eq] at heq
    refine nodup_of_length (fewOfEach hv hnodup) (hlen.trans ?_).le
    rw [heq, straightRanks]
    split <;> rfl

/-- Five distinct cards get their standard rank. -/
theorem evaluateFive_eq_standard (hv : AllValid cards) (hnodup : cards.Nodup)
    (hlen : cards.length = 5) : evaluateFive cards = standard cards := by
  have hf := fewOfEach hv hnodup
  have hne : cards ≠ [] := by
    rintro rfl
    cases hlen
  have hgroups := length_grouped hv hf hlen
  have hperm := sortedRanks_perm hlen
  have hsorted : (sortedRanks cards).length = 5 := by
    rw [hperm.length_eq, List.length_map, hlen]
  have hnotfull (h : made cards = highCard) :
      ¬ (made cards = fourOfAKind ∨ made cards = fullHouse) := by
    rw [h]
    decide
  rw [standard, sameSuit_eq hv hne, straightOf_eq hv hnodup hlen]
  cases hflush : flushes cards with
  | true =>
    have hone := nodup_of_flushes hv hnodup hflush
    cases hstraight : straightHigh (sortedRanks cards) with
    | some high => exact evaluateFive_of_straight hflush hstraight
    | none =>
      rw [evaluateFive_eq hf hlen (.inr hstraight), if_neg (hnotfull (made_of_nodup hone)),
        if_pos hflush, sortedRanks_eq hv hlen hone]
  | false =>
    rw [evaluateFive_eq hf hlen (.inl hflush), hflush, if_neg Bool.false_ne_true]
    cases hstraight : straightHigh (sortedRanks cards) with
    | some high =>
      have hone := hperm.nodup_iff.mp (nodup_of_straightHigh hsorted hstraight)
      rw [if_neg (hnotfull (made_of_nodup hone))]
    | none =>
      dsimp only
      change _ = new (made cards) (grouped cards)
      by_cases hhigh : made cards = highCard
      · rw [if_pos hhigh] at hgroups
        have hone := nodup_of_length hf (hlen.trans hgroups.symm).le
        rw [if_neg (hnotfull hhigh), if_pos hhigh, sortedRanks_eq hv hlen hone, hhigh]
      · rw [if_neg hhigh] at hgroups
        rw [take_line hgroups, if_neg hhigh, ite_self]

end HandRank

end TexasPoker
