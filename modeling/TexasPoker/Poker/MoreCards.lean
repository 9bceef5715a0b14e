import TexasPoker.Poker.Evaluate
import Mathlib.Order.Bounds.Basic

/-! # More cards

The best rank of five to seven cards is the greatest standard rank of five of them, so more
cards never make it worse. A shorter hand may be beaten by what it becomes: its phantom kickers
outrank the real ones.
-/

namespace TexasPoker

namespace HandRank

open HandCategory SortingNetwork

variable {cards cards' : List Card} {r r' : ℕ}

/-! ## The order of the cards -/

theorem flushes_iff : flushes cards = true ↔ ∀ c ∈ cards, ∀ c' ∈ cards, c.suit = c'.suit := by
  cases cards with
  | nil => simp [flushes]
  | cons a rest =>
    simp only [flushes, List.map_cons, List.headD_cons, List.all_eq_true, decide_eq_true_eq,
      List.forall_mem_cons, List.mem_map, forall_exists_index, and_imp,
      forall_apply_eq_imp_iff₂, true_and]
    exact ⟨fun h => ⟨fun c hc => (h c hc).symm,
      fun c hc => ⟨h c hc, fun c' hc' => (h c hc).trans (h c' hc').symm⟩⟩,
      fun h c hc => (h.1 c hc).symm⟩

theorem flushes_perm (h : cards.Perm cards') : flushes cards = flushes cards' := by
  rw [Bool.eq_iff_iff, flushes_iff, flushes_iff]
  simp only [h.mem_iff]

theorem evaluateFive_perm (h : cards.Perm cards') (hlen : cards.length = 5) :
    evaluateFive cards = evaluateFive cards' := by
  have hlen' : cards'.length = 5 := h.length_eq ▸ hlen
  have hranks : sortFiveDesc (cards.map Card.rank) = sortFiveDesc (cards'.map Card.rank) :=
    List.Perm.eq_of_pairwise (fun _ _ _ _ hle hge => le_antisymm hge hle) (sortedRanks_desc hlen)
      (sortedRanks_desc hlen')
      ((sortedRanks_perm hlen).trans ((h.map _).trans (sortedRanks_perm hlen').symm))
  have hgroups : groups cards = groups cards' := by
    unfold groups
    simp only [(h.map Card.rank).count_eq]
  have hflush : ((cards.map Card.suit).all fun suit => suit = (cards.map Card.suit).headD 0) =
      (cards'.map Card.suit).all fun suit => suit = (cards'.map Card.suit).headD 0 :=
    flushes_perm h
  simp only [evaluateFive, hranks, hgroups, hflush]

theorem padToFive_perm (h : cards.Perm cards') (n : ℕ) :
    (padToFive cards n).Perm (padToFive cards' n) := by
  induction n generalizing cards cards' with
  | zero => exact h
  | succ n ih =>
    have hsuits (suit : ℕ) : (cards.filter fun c => c.suit = suit).length =
        (cards'.filter fun c => c.suit = suit).length := (h.filter _).length_eq
    simp only [padToFive, hsuits]
    exact ih (h.append_right _)

theorem length_padToFive (cards : List Card) (n : ℕ) :
    (padToFive cards n).length = cards.length + n := by
  induction n generalizing cards with
  | zero => rfl
  | succ n ih =>
    rw [padToFive, ih, List.length_append, List.length_singleton]
    omega

/-! ## The best five -/

/-- Every rank of five cards is padded to five kickers. -/
theorem exists_new (cards : List Card) : ∃ category kickers, evaluateFive cards = new category kickers := by
  unfold evaluateFive
  dsimp only
  repeat' split
  all_goals exact ⟨_, _, rfl⟩

theorem length_kickers (category : ℕ) (kickers : List ℕ) : (new category kickers).kickers.length = 5 := by
  simp only [new, List.length_append, List.length_take, List.length_replicate]
  omega

theorem zeros_le {l : List ℕ} (h : l.length = 5) : [0, 0, 0, 0, 0] ≤ l := by
  match l, h with
  | [a, b, c, d, e], _ =>
    rw [← not_lt]
    simp [List.cons_lt_cons_iff]

theorem start_le (cards : List Card) : new highCard [0, 0, 0, 0, 0] ≤ evaluateFive cards := by
  obtain ⟨category, kickers, h⟩ := exists_new cards
  rw [h, ← not_lt, lt_def]
  rintro (hlt | ⟨-, hlt⟩)
  · exact absurd hlt (Nat.not_lt_zero _)
  · exact absurd hlt (not_lt.mpr (zeros_le (length_kickers category kickers)))

theorem foldl_best (hands : List (List Card)) (start : HandRank) :
    let best := hands.foldl (fun best five =>
      let rank := evaluateFive five
      if best.lt rank then rank else best) start
    (best = start ∨ ∃ five ∈ hands, evaluateFive five = best) ∧ start ≤ best ∧
      ∀ five ∈ hands, evaluateFive five ≤ best := by
  induction hands generalizing start with
  | nil => exact ⟨.inl rfl, le_rfl, nofun⟩
  | cons hand hands ih =>
    rw [List.foldl_cons]
    obtain ⟨hfrom, hstart, hall⟩ := ih (if start.lt (evaluateFive hand) then evaluateFive hand else start)
    by_cases hlt : start.lt (evaluateFive hand) = true
    · simp only [hlt, if_true] at hfrom hstart hall ⊢
      refine ⟨.inr ?_, (lt_iff.mp hlt).le.trans hstart, List.forall_mem_cons.mpr ⟨hstart, hall⟩⟩
      rcases hfrom with hfrom | ⟨five, hmem, hfive⟩
      · exact ⟨hand, List.mem_cons_self, hfrom.symm⟩
      · exact ⟨five, List.mem_cons_of_mem _ hmem, hfive⟩
    · have hle : evaluateFive hand ≤ start := not_lt.mp fun h => hlt (lt_iff.mpr h)
      rw [Bool.not_eq_true] at hlt
      simp only [hlt, Bool.false_eq_true, if_false] at hfrom hstart hall ⊢
      refine ⟨?_, hstart, List.forall_mem_cons.mpr ⟨hle.trans hstart, hall⟩⟩
      rcases hfrom with hfrom | ⟨five, hmem, hfive⟩
      · exact .inl hfrom
      · exact .inr ⟨five, List.mem_cons_of_mem _ hmem, hfive⟩

/-- The ranks of the five-card hands among some cards. -/
def fives (rank : List Card → HandRank) (cards : List Card) : Set HandRank :=
  { best | ∃ five, five.Sublist cards ∧ five.length = 5 ∧ rank five = best }

theorem isGreatest_evaluateFive (hlen : 5 ≤ cards.length) :
    IsGreatest (fives evaluateFive cards) (evaluateBest cards) := by
  have hbest := foldl_best (List.sublistsLen 5 cards) (new highCard [0, 0, 0, 0, 0])
  simp only [List.mem_sublistsLen] at hbest
  rw [evaluateBest, if_neg (by omega)]
  obtain ⟨hfrom, -, hall⟩ := hbest
  refine ⟨?_, ?_⟩
  · rcases hfrom with hfrom | ⟨five, ⟨hsub, hfive⟩, heq⟩
    · have htake := hall (cards.take 5) ⟨List.take_sublist 5 cards, by simpa using hlen⟩
      exact ⟨cards.take 5, List.take_sublist 5 cards, by simpa using hlen,
        le_antisymm htake (hfrom.trans_le (start_le _))⟩
    · exact ⟨five, hsub, hfive, heq⟩
  · rintro _ ⟨five, hsub, hfive, rfl⟩
    exact hall five ⟨hsub, hfive⟩

/-- Five cards out of a larger set are at most its best. -/
theorem le_evaluateBest {five : List Card} (hsub : five.Subperm cards) (hfive : five.length = 5) :
    evaluateFive five ≤ evaluateBest cards := by
  obtain ⟨five', hperm, hsub⟩ := hsub
  have hlen : five'.length = 5 := hperm.length_eq.trans hfive
  rw [← evaluateFive_perm hperm hlen]
  exact (isGreatest_evaluateFive (hlen ▸ hsub.length_le)).2 ⟨five', hsub, hlen, rfl⟩

/-- The order of the cards does not matter. -/
theorem evaluateBest_perm (h : cards.Perm cards') : evaluateBest cards = evaluateBest cards' := by
  rcases Nat.lt_or_ge cards.length 5 with hlen | hlen
  · rw [evaluateBest, if_pos hlen, evaluateBest, if_pos (h.length_eq ▸ hlen), ← h.length_eq]
    refine evaluateFive_perm (padToFive_perm h _) ?_
    rw [length_padToFive]
    omega
  · have hle {l l' : List Card} (hl : 5 ≤ l.length) (hperm : l.Perm l') :
        evaluateBest l ≤ evaluateBest l' := by
      obtain ⟨⟨five, hsub, hfive, heq⟩, -⟩ := isGreatest_evaluateFive hl
      rw [← heq]
      exact le_evaluateBest (hsub.subperm.trans hperm.subperm) hfive
    exact le_antisymm (hle hlen h) (hle (h.length_eq ▸ hlen) h.symm)

theorem isGreatest_standard (hv : AllValid cards) (hnodup : cards.Nodup) (hlen : 5 ≤ cards.length) :
    IsGreatest (fives standard cards) (evaluateBest cards) := by
  have heq : fives standard cards = fives evaluateFive cards := by
    ext best
    refine exists_congr fun five => and_congr_right fun hsub => and_congr_right fun hfive => ?_
    rw [evaluateFive_eq_standard (fun c hc => hv c (hsub.mem hc)) (hnodup.sublist hsub) hfive]
  rw [heq]
  exact isGreatest_evaluateFive hlen

/-! ## Short hands -/

/-- The suit of the next padding card. -/
def rarestSuit (cards : List Card) : ℕ :=
  (List.range 4).foldl (fun best suit =>
    if (cards.filter fun c => c.suit = suit).length < (cards.filter fun c => c.suit = best).length
    then suit else best) 0

theorem rarestSuit_spec (cards : List Card) : rarestSuit cards < 4 ∧ ∀ suit < 4,
    (cards.filter fun c => c.suit = rarestSuit cards).length ≤
      (cards.filter fun c => c.suit = suit).length := by
  have hrange : List.range 4 = [0, 1, 2, 3] := rfl
  unfold rarestSuit
  rw [hrange]
  simp only [List.foldl_cons, List.foldl_nil]
  constructor
  · split_ifs <;> decide
  · intro suit hsuit
    interval_cases suit <;> split_ifs <;> omega

theorem padToFive_succ (cards : List Card) (n : ℕ) : padToFive cards (n + 1) =
    padToFive cards n ++ [Card.new (rarestSuit (padToFive cards n)) 0] := by
  induction n generalizing cards with
  | zero => rfl
  | succ n ih =>
    change padToFive (cards ++ [Card.new (rarestSuit cards) 0]) (n + 1) = _
    rw [ih]
    rfl

theorem padding_card {suit : ℕ} (h : suit < 4) :
    (Card.new suit 0).rank = 0 ∧ (Card.new suit 0).suit = suit := by
  interval_cases suit <;> decide

/-- Padding adds cards without a rank. -/
theorem exists_pads (cards : List Card) (n : ℕ) :
    ∃ pads, padToFive cards n = cards ++ pads ∧ ∀ c ∈ pads, c.rank = 0 := by
  induction n with
  | zero => exact ⟨[], (List.append_nil _).symm, nofun⟩
  | succ n ih =>
    obtain ⟨pads, heq, hpads⟩ := ih
    refine ⟨pads ++ [Card.new (rarestSuit (padToFive cards n)) 0], ?_, fun c hc => ?_⟩
    · rw [padToFive_succ, heq, List.append_assoc]
    · rcases List.mem_append.mp hc with hc | hc
      · exact hpads c hc
      · rw [List.mem_singleton.mp hc]
        exact (padding_card (rarestSuit_spec _).1).1

/-- Padding never makes a flush. -/
theorem not_flushes_padded (h : cards.length < 5) :
    flushes (padToFive cards (5 - cards.length)) = false := by
  obtain ⟨n, hn⟩ : ∃ n, 5 - cards.length = n + 1 := ⟨4 - cards.length, by omega⟩
  rw [hn, padToFive_succ]
  set four := padToFive cards n
  have hfour : four.length = 4 := by
    have hlen : four.length = _ := length_padToFive cards n
    omega
  obtain ⟨hsuit, hrare⟩ := rarestSuit_spec four
  rw [← Bool.not_eq_true, flushes_iff]
  intro hall
  have hsame : ∀ c ∈ four, c.suit = rarestSuit four := by
    intro c hc
    have hcc := hall c (List.mem_append_left _ hc) (Card.new (rarestSuit four) 0)
      (List.mem_append_right _ List.mem_cons_self)
    exact hcc.trans (padding_card hsuit).2
  obtain ⟨other, hother, hne⟩ : ∃ other < 4, other ≠ rarestSuit four := by
    by_cases h0 : rarestSuit four = 0
    · exact ⟨1, by decide, by omega⟩
    · exact ⟨0, by decide, by omega⟩
  have hmany : (four.filter fun c => c.suit = rarestSuit four) = four :=
    List.filter_eq_self.mpr fun c hc => decide_eq_true (hsame c hc)
  have hnone : (four.filter fun c => c.suit = other) = [] :=
    List.filter_eq_nil_iff.mpr fun c hc heq => hne ((of_decide_eq_true heq).symm.trans (hsame c hc))
  have hle := hrare other hother
  rw [hmany, hnone, hfour] at hle
  exact absurd hle (by decide)

theorem tally_append (cards pads : List Card) (r : ℕ) :
    tally (cards ++ pads) r = tally cards r + tally pads r := by
  simp [tally]

theorem line_congr (h : ∀ r, 2 ≤ r → r ≤ 14 → tally cards r = tally cards' r) (n : ℕ) :
    shown cards n = shown cards' n := by
  refine List.filter_congr fun r hr => ?_
  obtain ⟨hr, hr'⟩ := mem_ranksDown.mp hr
  rw [h r hr hr']

theorem made_congr (hf : FewOfEach cards)
    (h : ∀ r, 2 ≤ r → r ≤ 14 → tally cards r = tally cards' r) : made cards = made cards' := by
  have hgrouped : grouped cards = grouped cards' := by
    simp only [grouped, line_congr h]
  unfold made
  rw [← hgrouped]
  congr 1
  refine List.map_congr_left fun r hr => ?_
  obtain ⟨⟨hr, hr'⟩, -⟩ := (mem_grouped hf).mp hr
  exact h r hr hr'

/-- The rank of the groups of at most five cards, with the missing ranks as further kickers. -/
def base (cards : List Card) : HandRank :=
  if made cards = highCard then new highCard (grouped cards)
  else new (made cards) ((line cards).take (reads (made cards)))

/-- No group means that every rank is single. -/
theorem nodup_of_made (hv : AllValid cards) (hf : FewOfEach cards) (hlen : cards.length ≤ 5)
    (h : made cards = highCard) : (cards.map Card.rank).Nodup := by
  refine List.nodup_iff_count_le_one.mpr fun r => ?_
  by_contra hr
  have hmem : r ∈ grouped cards := by
    have hpos : 0 < (cards.map Card.rank).count r := by omega
    obtain ⟨c, hc, rfl⟩ := List.mem_map.mp (List.count_pos_iff.mp hpos)
    exact (mem_grouped hf).mpr ⟨rank_mem (hv c hc), tally_pos hc⟩
  have hll := length_line hf
  match hline : line cards, hll with
  | r₀ :: r₁ :: rest, _ =>
    rw [made_eq hf hlen hline] at h
    have hlead := leads_grouped cards
    rw [← line, hline] at hlead
    have hfirst : tally cards r ≤ tally cards r₀ := by
      have hin : r ∈ r₀ :: r₁ :: rest := hline ▸ List.mem_append_left _ hmem
      rcases List.mem_cons.mp hin with rfl | hin
      · exact le_rfl
      · rcases List.rel_of_pairwise_cons hlead hin with hl | hl <;> omega
    have hfour : tally cards r₀ ≤ 4 := by
      have hin : r₀ ∈ ranksDown := (perm_ranksDown hf).mem_iff.mp (by rw [← line, hline]; simp)
      obtain ⟨h₀, h₀'⟩ := mem_ranksDown.mp hin
      exact hf r₀ h₀ h₀'
    change ¬ tally cards r ≤ 1 at hr
    unfold categoryOf at h
    split_ifs at h
    omega

theorem new_append_zeros (category : ℕ) {kickers : List ℕ} {n : ℕ} (h : kickers.length + n = 5) :
    new category (kickers ++ List.replicate n 0) = new category kickers := by
  have htake : (kickers ++ List.replicate n 0).take 5 = kickers ++ List.replicate n 0 :=
    List.take_of_length_le (by simp [h])
  have htake' : kickers.take 5 = kickers := List.take_of_length_le (by omega)
  rw [new, new, htake, htake', List.length_append, List.length_replicate, h,
    show 5 - kickers.length = n by omega]
  simp

/-- A hand short of five cards. -/
theorem evaluateBest_short (hv : AllValid cards) (hnodup : cards.Nodup) (hlen : cards.length < 5) :
    evaluateBest cards = base cards := by
  obtain ⟨pads, hpads, hzero⟩ := exists_pads cards (5 - cards.length)
  have hflush := not_flushes_padded hlen
  have hfive := length_padToFive cards (5 - cards.length)
  rw [evaluateBest, if_pos hlen]
  rw [hpads] at hflush hfive ⊢
  rw [show cards.length + (5 - cards.length) = 5 by omega] at hfive
  have hf := fewOfEach hv hnodup
  have htally : ∀ r, 2 ≤ r → r ≤ 14 → tally (cards ++ pads) r = tally cards r := by
    intro r hr _
    have hpad : tally pads r = 0 := by
      refine List.count_eq_zero.mpr fun hmem => ?_
      obtain ⟨c, hc, hcr⟩ := List.mem_map.mp hmem
      have := hzero c hc
      omega
    rw [tally_append, hpad, Nat.add_zero]
  have hf' : FewOfEach (cards ++ pads) := fun r hr hr' => by
    rw [htally r hr hr']
    exact hf r hr hr'
  have hperm := sortedRanks_perm hfive
  have hpadne : pads ≠ [] := by
    rintro rfl
    rw [List.append_nil] at hfive
    omega
  obtain ⟨pad, rest, rfl⟩ := List.exists_cons_of_ne_nil hpadne
  -- The rankless card stands last, and no card ranks just above it.
  have hstraight : straightHigh (sortedRanks (cards ++ pad :: rest)) = none := by
    have hmem0 : 0 ∈ sortedRanks (cards ++ pad :: rest) := by
      rw [hperm.mem_iff]
      exact List.mem_map.mpr ⟨pad, by simp, hzero pad List.mem_cons_self⟩
    have hmem1 : 1 ∉ sortedRanks (cards ++ pad :: rest) := by
      rw [hperm.mem_iff]
      intro hmem
      obtain ⟨c, hc, hc1⟩ := List.mem_map.mp hmem
      rcases List.mem_append.mp hc with hc | hc
      · have := rank_mem (hv c hc)
        omega
      · have := hzero c hc
        omega
    have hdesc := sortedRanks_desc hfive
    have hlen5 : (sortedRanks (cards ++ pad :: rest)).length = 5 := by
      rw [hperm.length_eq, List.length_map, hfive]
    match hs : sortedRanks (cards ++ pad :: rest), hlen5 with
    | [a, b, c, d, e], _ =>
      rw [hs] at hmem0 hmem1 hdesc
      simp only [List.mem_cons, List.not_mem_nil, or_false, not_or] at hmem0 hmem1
      simp only [List.pairwise_cons, List.mem_cons, List.not_mem_nil, or_false] at hdesc
      have he : e = 0 := by
        have h₁ := hdesc.1 e
        have h₂ := hdesc.2.1 e
        have h₃ := hdesc.2.2.1 e
        have h₄ := hdesc.2.2.2.1 e
        omega
      rw [straightHigh, if_neg, if_neg]
      · simp only [List.tail_cons, List.zip_cons_cons, List.zip_nil_right, List.all_cons,
          List.all_nil, Bool.and_true, Bool.and_eq_true, decide_eq_true_eq]
        omega
      · intro hw
        simp only [List.cons.injEq, and_true] at hw
        omega
  rw [evaluateFive_eq hf' hfive (.inl hflush), hflush, hstraight, if_neg Bool.false_ne_true,
    made_congr hf' htally, line, grouped]
  simp only [line_congr htally]
  change (if _ then new (made cards) ((line cards).take _) else if _ then new highCard (sortedRanks _)
    else new (made cards) ((line cards).take _)) = base cards
  unfold base
  by_cases hmade : made cards = highCard
  · have hone := nodup_of_made hv hf hlen.le hmade
    have hsorted : sortedRanks (cards ++ pad :: rest) =
        grouped cards ++ List.replicate (pad :: rest).length 0 := by
      have hgrouped : (grouped cards).Perm (cards.map Card.rank) := by
        refine (List.perm_ext_iff_of_nodup (nodup_groups cards) hone).mpr fun r => ?_
        rw [mem_grouped hf]
        refine ⟨fun h => List.count_pos_iff.mp h.2, fun h => ?_⟩
        obtain ⟨c, hc, rfl⟩ := List.mem_map.mp h
        exact ⟨rank_mem (hv c hc), tally_pos hc⟩
      have hpadranks : (pad :: rest).map Card.rank = List.replicate (pad :: rest).length 0 :=
        List.map_eq_replicate_iff.mpr hzero
      refine List.Perm.eq_of_pairwise (fun _ _ _ _ hle hge => le_antisymm hge hle)
        (sortedRanks_desc hfive) (List.pairwise_append.mpr ⟨?_, ?_, ?_⟩) ?_
      · have hlead := (List.pairwise_append.mp (leads_grouped cards)).1
        refine hlead.imp_of_mem fun {r r'} hr hr' h => ?_
        have hcount := List.nodup_iff_count_le_one.mp hone
        have h₁ : tally cards r ≤ 1 := hcount r
        have h₂ : tally cards r' ≤ 1 := hcount r'
        obtain ⟨-, hpos⟩ := (mem_grouped hf).mp hr'
        rcases h with h | h <;> omega
      · exact List.pairwise_replicate.mpr (.inr le_rfl)
      · intro a _ b hb
        rw [List.eq_of_mem_replicate hb]
        exact Nat.zero_le a
      · refine hperm.trans ?_
        rw [List.map_append, hpadranks]
        exact hgrouped.symm.append_right _
    have hgl : (grouped cards).length + (pad :: rest).length = 5 := by
      have := congrArg List.length hsorted
      rw [hperm.length_eq, List.length_map, hfive] at this
      simpa using this.symm
    rw [if_pos hmade, if_pos hmade, if_neg (by rw [hmade]; decide), hsorted, new_append_zeros _ hgl]
  · rw [if_neg hmade, if_neg hmade, ite_self]

/-! ## Comparing hands -/

/-- The order of two lists of one length is decided before what follows. -/
theorem append_lt_append {l l' : List ℕ} (hlen : l.length = l'.length) (h : l < l')
    (x y : List ℕ) : l ++ x < l' ++ y := by
  induction l generalizing l' with
  | nil =>
    obtain rfl := List.length_eq_zero_iff.mp hlen.symm
    exact absurd h (lt_irrefl _)
  | cons a l ih =>
    cases l' with
    | nil => cases hlen
    | cons b l' =>
      refine List.cons_lt_cons_iff.mpr ((List.cons_lt_cons_iff.mp h).imp_right ?_)
      rintro ⟨hab, hlt⟩
      exact ⟨hab, ih (Nat.succ_injective hlen) hlt⟩

theorem append_lt_left (l : List ℕ) {x y : List ℕ} (h : x < y) : l ++ x < l ++ y := by
  induction l with
  | nil => exact h
  | cons a l ih => exact List.cons_lt_cons_iff.mpr (.inr ⟨rfl, ih⟩)

theorem lt_of_forall₂ {l l' : List ℕ} (h : List.Forall₂ (· ≤ ·) l l') (hne : l ≠ l') : l < l' := by
  induction h with
  | nil => exact absurd rfl hne
  | cons hab _ ih =>
    rcases hab.lt_or_eq with hlt | rfl
    · exact List.cons_lt_cons_iff.mpr (.inl hlt)
    · exact List.cons_lt_cons_iff.mpr (.inr ⟨rfl, ih fun heq => hne (by rw [heq])⟩)

theorem new_lt {category : ℕ} {l l' : List ℕ} (hlen : l.length = l'.length) (hfive : l.length ≤ 5)
    (h : l < l') : new category l < new category l' := by
  refine lt_def.mpr (.inr ⟨rfl, ?_⟩)
  simp only [new, List.take_of_length_le hfive, List.take_of_length_le (hlen ▸ hfive)]
  exact append_lt_append hlen h _ _

theorem new_lt_of_category {category category' : ℕ} (h : category < category') (l l' : List ℕ) :
    new category l < new category' l' := lt_def.mpr (.inl h)

/-- The groups of more cards are position by position at least as large. -/
theorem below_line (hf : FewOfEach cards) (hf' : FewOfEach cards')
    (h : ∀ r, tally cards r ≤ tally cards' r) : List.Forall₂
      (fun r r' => groupLt (tally cards' r', r') (tally cards r, r) = false)
      (line cards) (line cards') := by
  have hbelow : Below groupLt (groups cards) (groups cards') := by
    have hlen (cards : List Card) : (((List.range 13).map fun slot =>
        ((cards.map Card.rank).count (slot + 2), slot + 2)) ++ List.replicate 3 (0, 0)).length = 16 := by
      simp
    unfold groups
    rw [sortGroupsDesc_eq (hlen cards), sortGroupsDesc_eq (hlen cards')]
    refine Below.run strictWeak_groupLt _ (List.rel_append ?_ ?_)
    · refine List.forall₂_map_left_iff.mpr (List.forall₂_map_right_iff.mpr
        (List.forall₂_same.mpr fun slot _ => ?_))
      have hle : (cards.map Card.rank).count (slot + 2) ≤ (cards'.map Card.rank).count (slot + 2) :=
        h (slot + 2)
      simp only [groupLt, Bool.or_eq_false_iff, Bool.and_eq_false_iff, decide_eq_false_iff_not]
      omega
    · exact List.forall₂_same.mpr fun a _ => strictWeak_groupLt.irrefl a
  rw [groups_eq hf, groups_eq hf'] at hbelow
  have htake := List.forall₂_take 13 hbelow
  rw [List.take_left' (by rw [List.length_map, length_line hf]),
    List.take_left' (by rw [List.length_map, length_line hf'])] at htake
  exact List.forall₂_map_right_iff.mp (List.forall₂_map_left_iff.mp htake)

theorem categoryOf_le {a b a' b' : ℕ} (ha : a ≤ a') (hb : b ≤ b') (hba : b' ≤ a') (ha4 : a' ≤ 4) :
    categoryOf a b ≤ categoryOf a' b' := by
  have ha' : a ≤ 4 := ha.trans ha4
  have hb' : b ≤ 4 := hb.trans (hba.trans ha4)
  have hb4 : b' ≤ 4 := hba.trans ha4
  interval_cases a' <;> interval_cases b' <;> interval_cases a <;> interval_cases b <;> decide

/-- The first two ranks of a line with their sizes. -/
structure Opens (cards : List Card) (r₀ r₁ : ℕ) (rest : List ℕ) : Prop where
  line : line cards = r₀ :: r₁ :: rest
  made : made cards = categoryOf (tally cards r₀) (tally cards r₁)
  few : tally cards r₀ ≤ 4
  falls : tally cards r₁ ≤ tally cards r₀
  leads : (r₀ :: r₁ :: rest).Pairwise (Leads cards)

theorem exists_opens (hf : FewOfEach cards) (hlen : cards.length ≤ 5) :
    ∃ r₀ r₁ rest, Opens cards r₀ r₁ rest := by
  have hll := length_line hf
  match hline : line cards, hll with
  | r₀ :: r₁ :: rest, _ =>
    have hlead := leads_grouped cards
    rw [← line, hline] at hlead
    have hin : r₀ ∈ ranksDown := (perm_ranksDown hf).mem_iff.mp (by rw [← line, hline]; simp)
    obtain ⟨h₀, h₀'⟩ := mem_ranksDown.mp hin
    refine ⟨r₀, r₁, rest, hline, made_eq hf hlen hline, hf r₀ h₀ h₀', ?_, hlead⟩
    rcases List.rel_of_pairwise_cons hlead List.mem_cons_self with h | h <;> omega

/-- More cards never have a lower category. -/
theorem made_le (hf : FewOfEach cards) (hf' : FewOfEach cards') (hlen : cards.length ≤ 5)
    (hlen' : cards'.length ≤ 5) (h : ∀ r, tally cards r ≤ tally cards' r) :
    made cards ≤ made cards' := by
  obtain ⟨r₀, r₁, rest, ho⟩ := exists_opens hf hlen
  obtain ⟨r₀', r₁', rest', ho'⟩ := exists_opens hf' hlen'
  have hbelow := below_line hf hf' h
  rw [ho.line, ho'.line, List.forall₂_cons, List.forall₂_cons] at hbelow
  obtain ⟨h₀, h₁, -⟩ := hbelow
  simp only [groupLt, Bool.or_eq_false_iff, decide_eq_false_iff_not, not_lt] at h₀ h₁
  rw [ho.made, ho'.made]
  exact categoryOf_le h₀.1 h₁.1 ho'.falls ho'.few

/-- Five cards are at least as good as their groups. -/
theorem base_le (hv : AllValid cards) (hnodup : cards.Nodup) (hlen : cards.length ≤ 5) :
    base cards ≤ evaluateBest cards ∧
      (made cards ≠ highCard → evaluateBest cards = base cards) := by
  rcases hlen.lt_or_eq with hlt | hfive
  · rw [evaluateBest_short hv hnodup hlt]
    exact ⟨le_rfl, fun _ => rfl⟩
  have hf := fewOfEach hv hnodup
  have hbest : evaluateBest cards = evaluateFive cards := by
    obtain ⟨⟨five, hsub, hlen5, heq⟩, -⟩ := isGreatest_evaluateFive hfive.ge
    rw [← heq, hsub.eq_of_length (hlen5.trans hfive.symm)]
  have hsorted : (sortedRanks cards).length = 5 := by
    rw [(sortedRanks_perm hfive).length_eq, List.length_map, hfive]
  rw [hbest]
  by_cases hmade : made cards = highCard
  · refine ⟨?_, fun h => absurd hmade h⟩
    have hone := nodup_of_made hv hf hlen hmade
    rw [base, if_pos hmade]
    cases hflush : flushes cards with
    | true =>
      cases hstraight : straightHigh (sortedRanks cards) with
      | some high =>
        rw [evaluateFive_of_straight hflush hstraight]
        split <;> exact (new_lt_of_category (by decide) _ _).le
      | none =>
        rw [evaluateFive_eq hf hfive (.inr hstraight), hflush, hmade, if_neg (by decide), if_pos rfl]
        exact (new_lt_of_category (by decide) _ _).le
    | false =>
      rw [evaluateFive_eq hf hfive (.inl hflush), hflush, hmade, if_neg (by decide),
        if_neg Bool.false_ne_true]
      cases hstraight : straightHigh (sortedRanks cards) with
      | some high => exact (new_lt_of_category (by decide) _ _).le
      | none =>
        dsimp only
        rw [if_pos rfl, sortedRanks_eq hv hfive hone]
  · have hrep : ¬ (cards.map Card.rank).Nodup := fun hone => hmade (made_of_nodup hone)
    have hflush : flushes cards = false := by
      rw [← Bool.not_eq_true]
      exact fun h => hrep (nodup_of_flushes hv hnodup h)
    have hstraight : straightHigh (sortedRanks cards) = none := by
      rw [Option.eq_none_iff_forall_ne_some]
      exact fun high h => hrep ((sortedRanks_perm hfive).nodup_iff.mp (nodup_of_straightHigh hsorted h))
    have heq : evaluateFive cards = base cards := by
      rw [evaluateFive_eq hf hfive (.inl hflush), hflush, hstraight, if_neg Bool.false_ne_true, base,
        if_neg hmade]
      dsimp only
      rw [if_neg hmade, ite_self]
    exact ⟨heq.ge, fun _ => heq⟩

/-! ## Kickers that more cards keep -/

/-- Among single ranks more cards are no worse. -/
theorem base_le_of_high (hf' : FewOfEach cards') (hv : AllValid cards) (hlen : cards.length ≤ 5)
    (hf : FewOfEach cards) (hlen' : cards'.length ≤ 5) (hmade : made cards = highCard)
    (h : ∀ r, tally cards r ≤ tally cards' r) (hv' : AllValid cards') : base cards ≤ base cards' := by
  rw [base, if_pos hmade]
  have hle := made_le hf hf' hlen hlen' h
  by_cases hmade' : made cards' = highCard
  swap
  · rw [base, if_neg hmade']
    refine (new_lt_of_category ?_ _ _).le
    rw [hmade] at hle
    exact lt_of_le_of_ne hle (Ne.symm hmade')
  rw [base, if_pos hmade']
  have hsingle {hand : List Card} (hv : AllValid hand) (hf : FewOfEach hand)
      (hlen : hand.length ≤ 5) (hmade : made hand = highCard) :
      grouped hand = ranksDown.filter fun r => 0 < tally hand r := by
    have hcount : ∀ r, tally hand r ≤ 1 :=
      List.nodup_iff_count_le_one.mp (nodup_of_made hv hf hlen hmade)
    refine (eq_grouped hf ?_ fun r => ?_).symm
    · have hdown : ranksDown.Pairwise (· > ·) := by decide
      refine (hdown.filter _).imp_of_mem fun {r r'} hr hr' hgt => .inr ⟨?_, hgt⟩
      have h₁ := of_decide_eq_true (List.mem_filter.mp hr).2
      have h₂ := of_decide_eq_true (List.mem_filter.mp hr').2
      have h₃ := hcount r
      have h₄ := hcount r'
      omega
    · rw [List.mem_filter, mem_ranksDown, decide_eq_true_eq]
  have hgl {hand : List Card} (hf : FewOfEach hand) (hlen : hand.length ≤ 5) :
      (grouped hand).length ≤ 5 := by
    have hsizes := (sizes_grouped hf).2
    have h₁ := List.length_le_sum_of_one_le _ fun n hn => (hsizes n hn).1
    rw [List.length_map] at h₁
    exact h₁.trans ((sum_tally_le hand (nodup_groups hand)).trans hlen)
  have hsub : (grouped cards).Sublist (grouped cards') := by
    rw [hsingle hv hf hlen hmade, hsingle hv' hf' hlen' hmade']
    refine List.monotone_filter_right _ fun r hr => ?_
    rw [decide_eq_true_eq] at hr ⊢
    exact hr.trans_le (h r)
  have hdesc : (grouped cards').Pairwise (· > ·) := by
    rw [hsingle hv' hf' hlen' hmade']
    exact (show ranksDown.Pairwise (· > ·) by decide).filter _
  have hpos : ∀ r ∈ grouped cards', 0 < r := fun r hr => by
    have := ((mem_grouped hf').mp hr).1
    omega
  -- A descending list, padded with zeros, is no greater than one with further entries.
  have hpad (n : ℕ) {l l' : List ℕ} (hs : l.Sublist l') (hd : l'.Pairwise (· > ·))
      (hp : ∀ r ∈ l', 0 < r) (hn : l'.length ≤ n) :
      l ++ List.replicate (n - l.length) 0 ≤ l' ++ List.replicate (n - l'.length) 0 := by
    induction hs generalizing n with
    | slnil => exact le_rfl
    | cons a hs ih =>
      rename_i l l'
      obtain ⟨n, rfl⟩ : ∃ m, n = m + 1 := ⟨n - 1, by rw [List.length_cons] at hn; omega⟩
      refine le_of_lt ?_
      cases l with
      | nil =>
        rw [List.nil_append, List.length_nil, Nat.sub_zero, List.replicate_succ, List.cons_append]
        exact List.cons_lt_cons_iff.mpr (.inl (hp a List.mem_cons_self))
      | cons b l =>
        rw [List.cons_append, List.cons_append]
        exact List.cons_lt_cons_iff.mpr (.inl (List.rel_of_pairwise_cons hd (hs.mem List.mem_cons_self)))
    | cons_cons a hs ih =>
      obtain ⟨n, rfl⟩ : ∃ m, n = m + 1 := ⟨n - 1, by rw [List.length_cons] at hn; omega⟩
      rw [List.length_cons, List.length_cons, Nat.add_sub_add_right, Nat.add_sub_add_right]
      exact List.cons_le_cons a (ih n (List.pairwise_cons.mp hd).2
        (fun r hr => hp r (List.mem_cons_of_mem _ hr)) (Nat.le_of_succ_le_succ hn))
  have hkick := hpad 5 hsub hdesc hpos (hgl hf' hlen')
  rw [← not_lt, lt_def, not_or]
  refine ⟨lt_irrefl _, fun hlt => ?_⟩
  simp only [new, List.take_of_length_le (hgl hf hlen), List.take_of_length_le (hgl hf' hlen')] at hlt
  exact absurd hlt.2 (not_lt.mpr hkick)

/-- A single rank below every missing one: no further card takes the place of a kicker that the
evaluator invents. -/
def EndsLow (cards : List Card) : Prop := ∃ k ∈ shown cards 1, ∀ r ∈ shown cards 0, k < r

/-- The groups of a short hand with a repeated and a single rank. -/
theorem sizes_of_single (hlen : cards.length < 5) {r₀ r₁ k : ℕ} {rest : List ℕ}
    (ho : Opens cards r₀ r₁ rest) (hmade : made cards ≠ highCard) (hk : k ∈ shown cards 1) :
    (tally cards r₀ = 2 ∨ tally cards r₀ = 3) ∧ tally cards r₁ = 1 := by
  have hkt := (mem_shown.mp hk).2
  have hkline : k ∈ r₀ :: r₁ :: rest :=
    ho.line ▸ List.mem_append_left _ (List.mem_append_right _ hk)
  have hfirst : 2 ≤ tally cards r₀ := by
    by_contra hlt
    refine hmade ?_
    rw [ho.made]
    have := ho.falls
    unfold categoryOf
    split_ifs <;> omega
  have hne₀ : k ≠ r₀ := by
    rintro rfl
    omega
  have hone : 1 ≤ tally cards r₁ := by
    rcases List.mem_cons.mp hkline with rfl | hkline
    · exact absurd rfl hne₀
    rcases List.mem_cons.mp hkline with rfl | hkline
    · exact hkt.ge
    · rcases List.rel_of_pairwise_cons (List.pairwise_cons.mp ho.leads).2 hkline with h | h <;> omega
  -- The first two ranks and the single one show on at most four cards.
  have hnodup : [r₀, r₁].Nodup := (nodup_grouped cards).sublist (by
    rw [← line, ho.line]
    simp)
  by_cases hne₁ : k = r₁
  · have hsum := (sum_tally_le cards hnodup).trans_lt hlen
    simp only [List.map_cons, List.map_nil, List.sum_cons, List.sum_nil] at hsum
    subst hne₁
    omega
  · have hnodup₃ : [r₀, r₁, k].Nodup := by
      simp only [List.nodup_cons, List.mem_cons, List.not_mem_nil, or_false, not_false_eq_true,
        List.nodup_nil, and_true] at hnodup ⊢
      exact ⟨fun h => h.elim hnodup fun h => hne₀ h.symm, fun h => hne₁ h.symm⟩
    have hsum := (sum_tally_le cards hnodup₃).trans_lt hlen
    simp only [List.map_cons, List.map_nil, List.sum_cons, List.sum_nil] at hsum
    omega

theorem tally_tail_le {r₀ r₁ : ℕ} {rest : List ℕ} (ho : Opens cards r₀ r₁ rest)
    (hone : tally cards r₁ ≤ 1) : ∀ r ∈ r₁ :: rest, tally cards r ≤ 1 := by
  intro r hr
  rcases List.mem_cons.mp hr with rfl | hr
  · exact hone
  · rcases List.rel_of_pairwise_cons (List.pairwise_cons.mp ho.leads).2 hr with h | h <;> omega

/-- One group, and then single ranks. -/
theorem exists_singles (hf : FewOfEach cards) {r₀ r₁ : ℕ} {rest : List ℕ}
    (ho : Opens cards r₀ r₁ rest) (hone : tally cards r₁ = 1) :
    ∃ gs, grouped cards = r₀ :: gs ∧ ∀ r ∈ gs, tally cards r = 1 := by
  have hr₀ : r₀ ∈ grouped cards := by
    have hin : r₀ ∈ line cards := ho.line ▸ List.mem_cons_self
    rcases List.mem_append.mp hin with hin | hin
    · exact hin
    · have := (mem_shown.mp hin).2
      have := ho.falls
      omega
  obtain ⟨g, gs, hg⟩ := List.exists_cons_of_ne_nil (List.ne_nil_of_mem hr₀)
  have hline := ho.line
  rw [line, hg, List.cons_append] at hline
  obtain ⟨rfl, hrest⟩ := List.cons.inj hline
  refine ⟨gs, hg, fun r hr => ?_⟩
  have hpos := ((mem_grouped hf).mp (hg ▸ List.mem_cons_of_mem _ hr)).2
  have hle := tally_tail_le ho hone.le r (hrest ▸ List.mem_append_left _ hr)
  omega

/-- In one category the first sizes agree, and all others are one. -/
theorem same_sizes {r₀ r₁ r₀' r₁' : ℕ} {rest rest' : List ℕ} (ho : Opens cards r₀ r₁ rest)
    (ho' : Opens cards' r₀' r₁' rest') (hsize₀ : tally cards r₀ = 2 ∨ tally cards r₀ = 3)
    (hsize₁ : tally cards r₁ = 1) (hcat : made cards = made cards')
    (h₀ : tally cards r₀ ≤ tally cards' r₀') (h₁ : tally cards r₁ ≤ tally cards' r₁') :
    tally cards' r₀' = tally cards r₀ ∧ tally cards' r₁' = 1 := by
  rw [ho.made, ho'.made, hsize₁] at hcat
  have hfalls := ho'.falls
  have hfew := ho'.few
  rw [hsize₁] at h₁
  generalize tally cards' r₀' = a at *
  generalize tally cards' r₁' = b at *
  rcases hsize₀ with h2 | h2 <;> rw [h2] at hcat h₀ ⊢ <;> interval_cases a <;> interval_cases b <;>
    first | exact ⟨rfl, rfl⟩ | cases hcat

/-- Position by position the leading ranks of more cards are no lower. -/
theorem ranks_le {r₀ r₀' r₁' : ℕ} {gs rest' : List ℕ} (ho' : Opens cards' r₀' r₁' rest')
    (hg : grouped cards = r₀ :: gs) (hone : ∀ r ∈ gs, tally cards r = 1)
    (hone' : tally cards' r₁' ≤ 1) (hfirst : tally cards' r₀' = tally cards r₀)
    (hbelow : List.Forall₂ (fun r r' => groupLt (tally cards' r', r') (tally cards r, r) = false)
      (line cards) (line cards')) :
    List.Forall₂ (· ≤ ·) (grouped cards) ((line cards').take (grouped cards).length) := by
  have hpairs := List.forall₂_take (grouped cards).length hbelow
  rw [take_line rfl] at hpairs
  rw [hg, ho'.line, List.length_cons, List.take_succ_cons, List.forall₂_cons] at hpairs ⊢
  obtain ⟨hhead, htail⟩ := hpairs
  simp only [groupLt, Bool.or_eq_false_iff, Bool.and_eq_false_iff, decide_eq_false_iff_not] at hhead
  refine ⟨by omega, List.forall₂_iff_get.mpr ⟨htail.length_eq, fun i hi hi' => ?_⟩⟩
  have hpair := (List.forall₂_iff_get.mp htail).2 i hi hi'
  have hs := hone _ (List.get_mem gs ⟨i, hi⟩)
  have hs' := tally_tail_le ho' hone' _ (List.mem_of_mem_take (List.get_mem _ ⟨i, hi'⟩))
  simp only [groupLt, Bool.or_eq_false_iff, Bool.and_eq_false_iff, decide_eq_false_iff_not] at hpair
  omega

/-- More cards that keep the leading ranks of a hand that ends low add none. -/
theorem line_eq_of_endsLow (hf : FewOfEach cards) (hf' : FewOfEach cards') {k r₀' r₁' : ℕ}
    {rest' : List ℕ} (ho' : Opens cards' r₀' r₁' rest') (hone' : tally cards' r₁' ≤ 1)
    (hk : k ∈ grouped cards) (hk₀ : k ≠ r₀') (hlow : ∀ r ∈ shown cards 0, k < r)
    (hsame : grouped cards <+: line cards') : line cards' = line cards := by
  obtain ⟨more, hmore⟩ := hsame
  have hperm : more.Perm (shown cards 0) := by
    refine (List.perm_append_left_iff (grouped cards)).mp ?_
    rw [hmore]
    exact (perm_ranksDown hf').trans (perm_ranksDown hf).symm
  have hlead := leads_grouped cards'
  rw [← line, ← hmore, List.pairwise_append] at hlead
  have hkone : tally cards' k ≤ 1 := by
    refine tally_tail_le ho' hone' k ((List.mem_cons.mp ?_).resolve_left hk₀)
    rw [← ho'.line, ← hmore]
    exact List.mem_append_left _ hk
  -- A further group would stand after the low kicker, and yet be higher.
  have hzero : ∀ r ∈ more, tally cards' r = 0 := by
    intro r hr
    have hlt := hlow r (hperm.mem_iff.mp hr)
    rcases hlead.2.2 k hk r hr with h | h <;> omega
  have hdown : ranksDown.Pairwise (· > ·) := by decide
  have heq : more = shown cards 0 := by
    refine List.Perm.eq_of_pairwise (fun _ _ _ _ (h : _ > _) h' => absurd h (lt_asymm h')) ?_
      (hdown.filter _) hperm
    refine hlead.2.1.imp_of_mem fun {r r'} hr hr' h => ?_
    have h₁ := hzero r hr
    have h₂ := hzero r' hr'
    rcases h with h | h <;> omega
  rw [← hmore, heq, line]

/-- With a kicker below every missing rank more cards are no worse. -/
theorem base_le_of_endsLow (hf : FewOfEach cards) (hf' : FewOfEach cards') (hlen : cards.length < 5)
    (hlen' : cards'.length ≤ 5) (hmade : made cards ≠ highCard) (hlow : EndsLow cards)
    (h : ∀ r, tally cards r ≤ tally cards' r) : base cards ≤ base cards' := by
  obtain ⟨k, hk, hlow⟩ := hlow
  obtain ⟨r₀, r₁, rest, ho⟩ := exists_opens hf hlen.le
  obtain ⟨r₀', r₁', rest', ho'⟩ := exists_opens hf' hlen'
  obtain ⟨hsize₀, hsize₁⟩ := sizes_of_single hlen ho hmade hk
  have hle := made_le hf hf' hlen.le hlen' h
  have hmade' : made cards' ≠ highCard := by
    intro h'
    rw [h'] at hle
    exact hmade (Nat.le_zero.mp hle)
  rw [base, if_neg hmade, base, if_neg hmade']
  rcases hle.lt_or_eq with hlt | hcat
  · exact (new_lt_of_category hlt _ _).le
  have hbelow := below_line hf hf' h
  obtain ⟨h₀, h₁⟩ : tally cards r₀ ≤ tally cards' r₀' ∧ tally cards r₁ ≤ tally cards' r₁' := by
    have hpairs := hbelow
    rw [ho.line, ho'.line, List.forall₂_cons, List.forall₂_cons] at hpairs
    obtain ⟨h₀, h₁, -⟩ := hpairs
    simp only [groupLt, Bool.or_eq_false_iff, decide_eq_false_iff_not, not_lt] at h₀ h₁
    exact ⟨h₀.1, h₁.1⟩
  obtain ⟨hsame₀, hone'⟩ := same_sizes ho ho' hsize₀ hsize₁ hcat h₀ h₁
  obtain ⟨gs, hg, hone⟩ := exists_singles hf ho hsize₁
  have hranks := ranks_le ho' hg hone hone'.le hsame₀ hbelow
  rw [← hcat]
  by_cases hsame : grouped cards = (line cards').take (grouped cards).length
  · have hkin : k ∈ grouped cards := List.mem_append_right _ hk
    have hk₀ : k ≠ r₀' := by
      rintro rfl
      have hfirst : r₀ = k := by
        rw [ho'.line, hg, List.length_cons, List.take_succ_cons] at hsame
        exact (List.cons.inj hsame).1
      rw [← hfirst] at hk
      have := (mem_shown.mp hk).2
      omega
    rw [line_eq_of_endsLow hf hf' ho' hone'.le hkin hk₀ hlow (List.prefix_iff_eq_take.mpr hsame)]
  · have hreads : (grouped cards).length ≤ reads (made cards) ∧ reads (made cards) ≤ 4 := by
      have hsum := (sum_tally_le cards (nodup_groups cards)).trans_lt hlen
      have hgs : gs.length ≤ (gs.map (tally cards)).sum := by
        rw [← gs.length_map (tally cards)]
        refine List.length_le_sum_of_one_le _ fun n hn => ?_
        obtain ⟨r, hr, rfl⟩ := List.mem_map.mp hn
        exact (hone r hr).ge
      rw [hg, List.map_cons, List.sum_cons] at hsum
      rw [hg, List.length_cons, ho.made, hsize₁]
      rcases hsize₀ with h2 | h2 <;> rw [h2] at hsum ⊢ <;>
        simp [categoryOf, reads, onePair, threeOfAKind, fourOfAKind, fullHouse, twoPair] <;> omega
    have hlt := lt_of_forall₂ hranks hsame
    have hsplit (l : List ℕ) : l.take (reads (made cards)) = l.take (grouped cards).length ++
        (l.take (reads (made cards))).drop (grouped cards).length := by
      conv_lhs => rw [← List.take_append_drop (grouped cards).length (l.take (reads (made cards)))]
      rw [List.take_take, min_eq_left hreads.1]
    have hlen₁ := length_line hf
    have hlen₂ := length_line hf'
    refine (new_lt ?_ ?_ ?_).le
    · rw [List.length_take, List.length_take, hlen₁, hlen₂]
    · rw [List.length_take]
      omega
    · rw [hsplit (line cards), hsplit (line cards'), take_line rfl]
      exact append_lt_append hranks.length_eq hlt _ _

/-! ## A low card added -/

theorem madeCategory_append_one (sizes : List ℕ) : madeCategory (sizes ++ [1]) = madeCategory sizes := by
  match sizes with
  | [] => rfl
  | [a] => rcases a with _ | _ | _ | _ | _ | a <;> rfl
  | a :: b :: rest =>
    rcases a with _ | _ | _ | _ | _ | a <;> rcases b with _ | _ | _ | b <;> rfl

/-- The groups of a short hand leave room for further kickers. -/
theorem length_lt_reads {sizes : List ℕ} (hdesc : sizes.Pairwise (· ≥ ·))
    (hpos : ∀ n ∈ sizes, 0 < n ∧ n ≤ 4) (hsum : sizes.sum < 5)
    (hmade : madeCategory sizes ≠ highCard) : sizes.length < reads (madeCategory sizes) := by
  rw [madeCategory_eq hdesc hpos hsum.le] at hmade ⊢
  match sizes with
  | [] => exact absurd rfl hmade
  | [a] =>
    have hreads (category : ℕ) : 1 < reads category := by
      unfold reads
      split_ifs <;> decide
    exact hreads _
  | a :: b :: rest =>
    obtain ⟨ha, ha'⟩ := hpos a (by simp)
    obtain ⟨hb, hb'⟩ := hpos b (by simp)
    have hab : b ≤ a := List.rel_of_pairwise_cons hdesc (by simp)
    have hrest : rest.length ≤ rest.sum :=
      List.length_le_sum_of_one_le rest fun n hn => (hpos n (by simp [hn])).1
    simp only [List.sum_cons] at hsum
    simp only [List.getD_cons_zero, List.getD_cons_succ, List.length_cons] at hmade ⊢
    interval_cases a <;> interval_cases b <;>
      simp [categoryOf, reads, highCard, onePair, twoPair, threeOfAKind, fullHouse,
        fourOfAKind] at hmade ⊢ <;>
      omega

theorem tally_snoc (cards : List Card) (card : Card) (r : ℕ) :
    tally (cards ++ [card]) r = tally cards r + if card.rank = r then 1 else 0 := by
  rw [tally_append]
  simp [tally, List.count_singleton]

/-- A card of the rank `r`. -/
def cardOf (r : ℕ) : Card := ⟨r - 2⟩

theorem cardOf_spec (h : 2 ≤ r) (h' : r ≤ 14) : (cardOf r).index < 52 ∧ (cardOf r).rank = r := by
  have hindex : (cardOf r).index < 52 := by
    change r - 2 < 52
    omega
  refine ⟨hindex, ?_⟩
  simp only [Card.rank, hindex, if_true]
  change (r - 2) % 13 + 2 = r
  omega

/-- A missing rank below all single ones joins the groups at the end. -/
theorem grouped_snoc (hf : FewOfEach cards) {card : Card} (hmiss : card.rank ∈ shown cards 0)
    (hlow : ∀ k ∈ shown cards 1, card.rank < k) :
    grouped (cards ++ [card]) = grouped cards ++ [card.rank] := by
  obtain ⟨hr, hzero⟩ := mem_shown.mp hmiss
  have hother : ∀ r ∈ grouped cards, tally (cards ++ [card]) r = tally cards r := by
    intro r hr
    have hpos := ((mem_grouped hf).mp hr).2
    rw [tally_snoc, if_neg, Nat.add_zero]
    rintro rfl
    omega
  have hself : tally (cards ++ [card]) card.rank = 1 := by
    rw [tally_snoc, hzero, if_pos rfl]
  have hf' : FewOfEach (cards ++ [card]) := by
    intro r hr hr'
    by_cases heq : card.rank = r
    · rw [← heq, hself]
      decide
    · rw [tally_snoc, if_neg heq]
      exact hf r hr hr'
  refine (eq_grouped hf' (List.pairwise_append.mpr ⟨?_, List.pairwise_singleton _ _, ?_⟩)
    fun r => ?_).symm
  · refine (List.pairwise_append.mp (leads_grouped cards)).1.imp_of_mem fun hr hr' h => ?_
    rw [Leads, hother _ hr, hother _ hr']
    exact h
  · intro r hr r' hr'
    rw [List.mem_singleton.mp hr', Leads, hother r hr, hself]
    obtain ⟨hdeck, hpos⟩ := (mem_grouped hf).mp hr
    by_cases hone : tally cards r = 1
    · exact .inr ⟨hone, hlow r (mem_shown.mpr ⟨hdeck, hone⟩)⟩
    · exact .inl (by omega)
  · rw [List.mem_append, List.mem_singleton, mem_grouped hf, tally_snoc]
    constructor
    · rintro (⟨hdeck, hpos⟩ | rfl)
      · exact ⟨hdeck, by omega⟩
      · exact ⟨hr, by simp⟩
    · rintro ⟨hdeck, hpos⟩
      by_cases heq : card.rank = r
      · exact .inr heq.symm
      · rw [if_neg heq] at hpos
        exact .inl ⟨hdeck, hpos⟩

/-- A short hand with a repeated rank and no low kicker is beaten by its own cards alone: the
lowest missing rank makes it worse. -/
theorem exists_worse (hv : AllValid cards) (hnodup : cards.Nodup) (hlen : cards.length < 5)
    (hrep : ¬ (cards.map Card.rank).Nodup) (hlow : ¬ EndsLow cards) :
    ∃ card, card.index < 52 ∧ card ∉ cards ∧ evaluateBest (cards ++ [card]) < evaluateBest cards := by
  have hf := fewOfEach hv hnodup
  have hmade : made cards ≠ highCard := fun h => hrep (nodup_of_made hv hf hlen.le h)
  have hgl : (grouped cards).length ≤ 4 := by
    have hone := List.length_le_sum_of_one_le _ fun n hn => ((sizes_grouped hf).2 n hn).1
    rw [List.length_map] at hone
    have hsum := sum_tally_le cards (nodup_groups cards)
    omega
  have hmany : 2 ≤ (shown cards 0).length := by
    have hline := length_line hf
    rw [line, List.length_append] at hline
    omega
  -- The lowest missing rank stands last.
  obtain ⟨front, low, hshown⟩ : ∃ front low, shown cards 0 = front ++ [low] := by
    rcases List.eq_nil_or_concat (shown cards 0) with h | ⟨front, low, h⟩
    · rw [h] at hmany
      cases hmany
    · exact ⟨front, low, by rw [h, List.concat_eq_append]⟩
  have hdown : (shown cards 0).Pairwise (· > ·) :=
    (show ranksDown.Pairwise (· > ·) by decide).filter _
  have hleast : ∀ r ∈ front, low < r := by
    rw [hshown, List.pairwise_append] at hdown
    exact fun r hr => hdown.2.2 r hr low List.mem_cons_self
  have hmiss : low ∈ shown cards 0 := by
    rw [hshown]
    simp
  obtain ⟨⟨hr, hr'⟩, hzero⟩ := mem_shown.mp hmiss
  obtain ⟨hindex, hrank⟩ := cardOf_spec hr hr'
  have hsingles : ∀ k ∈ shown cards 1, (cardOf low).rank < k := by
    intro k hk
    rw [hrank]
    by_contra hle
    refine hlow ⟨k, hk, fun r hmem => ?_⟩
    have hne : k ≠ low := by
      rintro rfl
      have := (mem_shown.mp hk).2
      omega
    rw [hshown, List.mem_append, List.mem_singleton] at hmem
    rcases hmem with hmem | rfl
    · have := hleast r hmem
      omega
    · omega
  have hnew : cardOf low ∉ cards := by
    intro hmem
    have hpos := tally_pos hmem
    rw [hrank] at hpos
    omega
  have hgrouped := grouped_snoc hf (hrank.symm ▸ hmiss) hsingles
  rw [hrank] at hgrouped
  have hv' : AllValid (cards ++ [cardOf low]) := by
    intro c hc
    rcases List.mem_append.mp hc with hc | hc
    · exact hv c hc
    · rw [List.mem_singleton.mp hc]
      exact hindex
  have hnodup' : (cards ++ [cardOf low]).Nodup := by
    rw [← List.concat_eq_append]
    exact hnodup.concat hnew
  have hf' := fewOfEach hv' hnodup'
  have hsame : made (cards ++ [cardOf low]) = made cards := by
    rw [made, hgrouped, List.map_append, List.map_singleton, tally_snoc, hrank, hzero, if_pos rfl,
      madeCategory_append_one, made]
    congr 1
    refine List.map_congr_left fun r hr => ?_
    have hpos := ((mem_grouped hf).mp hr).2
    rw [tally_snoc, hrank, if_neg, Nat.add_zero]
    rintro rfl
    omega
  have hlen' : (cards ++ [cardOf low]).length ≤ 5 := by
    rw [List.length_append, List.length_singleton]
    omega
  refine ⟨cardOf low, hindex, hnew, ?_⟩
  rw [(base_le hv' hnodup' hlen').2 (hsame ▸ hmade), evaluateBest_short hv hnodup hlen, base,
    if_neg (hsame ▸ hmade), base, if_neg hmade, hsame]
  have hreads : (grouped cards).length < reads (made cards) := by
    obtain ⟨hdesc, hpos⟩ := sizes_grouped hf
    have h := length_lt_reads hdesc hpos ((sum_tally_le cards (nodup_groups cards)).trans_lt hlen) hmade
    rwa [List.length_map] at h
  have hreads' : reads (made cards) ≤ 4 := by
    unfold reads
    split_ifs <;> decide
  have hlen₁ := length_line hf
  have hlen₂ := length_line hf'
  refine new_lt ?_ ?_ ?_
  · rw [List.length_take, List.length_take, hlen₁, hlen₂]
  · rw [List.length_take]
    omega
  · obtain ⟨more, hmore⟩ : ∃ more, reads (made cards) = (grouped cards).length + (more + 1) :=
      ⟨reads (made cards) - (grouped cards).length - 1, by omega⟩
    obtain ⟨top, front, rfl⟩ : ∃ top rest, front = top :: rest := by
      refine List.exists_cons_of_ne_nil ?_
      rintro rfl
      rw [hshown, List.nil_append, List.length_singleton] at hmany
      exact absurd hmany (by decide)
    rw [line, hgrouped, line, hshown, List.append_assoc, hmore, List.take_length_add_append,
      List.take_length_add_append]
    refine append_lt_left _ ?_
    rw [List.singleton_append, List.cons_append, List.take_succ_cons, List.take_succ_cons]
    exact List.cons_lt_cons_iff.mpr (.inl (hleast top List.mem_cons_self))

/-! ## More cards -/

/-- Five of the larger cards, or all of them, hold a short hand. -/
theorem exists_between (hsub : cards ⊆ cards') (hnodup : cards.Nodup)
    (hlen : cards.length ≤ 5) : ∃ five : List Card, cards.Subperm five ∧ five.Subperm cards' ∧
      five.length ≤ 5 ∧ (five.length = 5 ∨ five = cards') := by
  rcases Nat.lt_or_ge 5 cards'.length with hmany | hfew
  swap
  · exact ⟨cards', hnodup.subperm hsub, .refl _, hfew, .inr rfl⟩
  obtain ⟨cards₀, hperm₀, hsub₀⟩ := hnodup.subperm hsub
  obtain ⟨rest, hperm₁⟩ := hsub₀.exists_perm_append
  have hperm := hperm₁.trans (hperm₀.append_right rest)
  have hrest := hperm.length_eq
  rw [List.length_append] at hrest
  have hfive : (cards ++ rest.take (5 - cards.length)).length = 5 := by
    rw [List.length_append, List.length_take]
    omega
  refine ⟨cards ++ rest.take (5 - cards.length), (List.sublist_append_left _ _).subperm, ?_,
    hfive.le, .inl hfive⟩
  exact ((List.take_sublist _ rest).append_left cards).subperm.trans hperm.symm.subperm

/-- More cards do not make this hand worse. -/
def NeverWorse (cards : List Card) : Prop :=
  ∀ cards', AllValid cards' → cards'.Nodup → cards ⊆ cards' → cards'.length ≤ 7 →
    evaluateBest cards ≤ evaluateBest cards'

/-- No kicker of the hand is one that the evaluator invents, or the lowest is below all of these. -/
def KickersHold (cards : List Card) : Prop :=
  5 ≤ cards.length ∨ (cards.map Card.rank).Nodup ∨ EndsLow cards

theorem neverWorse_of_kickersHold (hv : AllValid cards) (hnodup : cards.Nodup)
    (h : KickersHold cards) : NeverWorse cards := by
  intro cards' hv' hnodup' hsub _
  rcases Nat.lt_or_ge cards.length 5 with hlen | hlen
  swap
  · obtain ⟨⟨five, hfive, hlen5, heq⟩, -⟩ := isGreatest_evaluateFive hlen
    rw [← heq]
    exact le_evaluateBest (hfive.subperm.trans (hnodup.subperm hsub)) hlen5
  obtain ⟨five, hsub₁, hsub₂, hlen5, hall⟩ := exists_between hsub hnodup hlen.le
  have hf := fewOfEach hv hnodup
  have hv₅ : AllValid five := fun c hc => hv' c (hsub₂.subset hc)
  have hnodup₅ : five.Nodup := by
    obtain ⟨five', hperm, hsublist⟩ := hsub₂
    exact hperm.nodup_iff.mp (hnodup'.sublist hsublist)
  have hf₅ := fewOfEach hv₅ hnodup₅
  have htally (r : ℕ) : tally cards r ≤ tally five r := by
    obtain ⟨cards₀, hperm₀, hsub₀⟩ := hsub₁
    rw [tally, ← (hperm₀.map Card.rank).count_eq]
    exact (hsub₀.map Card.rank).count_le r
  have hbase : base cards ≤ base five := by
    by_cases hmade : made cards = highCard
    · exact base_le_of_high hf₅ hv hlen.le hf hlen5 hmade htally hv₅
    · refine base_le_of_endsLow hf hf₅ hlen hlen5 hmade ?_ htally
      rcases h with h | h | h
      · omega
      · exact absurd (made_of_nodup h) hmade
      · exact h
  calc evaluateBest cards = base cards := evaluateBest_short hv hnodup hlen
    _ ≤ base five := hbase
    _ ≤ evaluateBest five := (base_le hv₅ hnodup₅ hlen5).1
    _ ≤ evaluateBest cards' := by
      rcases hall with hfive | rfl
      · obtain ⟨⟨best, hbest, hlenb, heq⟩, -⟩ := isGreatest_evaluateFive hfive.ge
        rw [← heq]
        exact le_evaluateBest (hbest.subperm.trans hsub₂) hlenb
      · exact le_rfl

/-- On five to seven cards the evaluator finds the best standard rank, in any order of the cards;
and more cards never make a hand worse when its kickers are not invented. -/
theorem neverWorse_iff (hv : AllValid cards) (hnodup : cards.Nodup) (hlen : cards.length ≤ 7) :
    (NeverWorse cards ↔ KickersHold cards) ∧
      (∀ cards', cards.Perm cards' → evaluateBest cards = evaluateBest cards') ∧
      (5 ≤ cards.length → IsGreatest (fives standard cards) (evaluateBest cards)) := by
  refine ⟨⟨fun h => ?_, neverWorse_of_kickersHold hv hnodup⟩, fun _ => evaluateBest_perm,
    isGreatest_standard hv hnodup⟩
  by_contra hnot
  simp only [KickersHold, not_or, not_le] at hnot
  obtain ⟨hshort, hrep, hlow⟩ := hnot
  obtain ⟨card, hindex, hnew, hlt⟩ := exists_worse hv hnodup hshort hrep hlow
  refine absurd (h (cards ++ [card]) ?_ ?_ (List.subset_append_left _ _) ?_) (not_le.mpr hlt)
  · intro c hc
    rcases List.mem_append.mp hc with hc | hc
    · exact hv c hc
    · rw [List.mem_singleton.mp hc]
      exact hindex
  · rw [← List.concat_eq_append]
    exact hnodup.concat hnew
  · rw [List.length_append, List.length_singleton]
    omega

/-- The deuce is below every rank that two aces and a deuce do not show; two aces alone have no
such card. -/
theorem neverWorse_aces_deuce :
    NeverWorse [⟨12⟩, ⟨25⟩, ⟨0⟩] ∧ ¬ NeverWorse [⟨12⟩, ⟨25⟩] := by
  constructor
  · refine (neverWorse_iff (by unfold AllValid; decide) (by decide) (by decide)).1.mpr
      (.inr (.inr ?_))
    unfold EndsLow
    decide
  · refine mt (neverWorse_iff (by unfold AllValid; decide) (by decide) (by decide)).1.mp ?_
    unfold KickersHold EndsLow
    decide

/-- Two aces alone beat the same aces with a deuce, a three and a four. -/
theorem not_neverWorse_aces : ¬ ∀ cards : List Card, AllValid cards → cards.Nodup →
    cards.length ≤ 7 → NeverWorse cards := by
  intro h
  have hle := h [⟨12⟩, ⟨25⟩] (by unfold AllValid; decide) (by decide) (by decide)
    [⟨12⟩, ⟨25⟩, ⟨0⟩, ⟨1⟩, ⟨2⟩] (by unfold AllValid; decide) (by decide) (by decide) (by decide)
  refine absurd hle (not_le.mpr (lt_iff.mp ?_))
  decide +kernel

end HandRank

end TexasPoker
