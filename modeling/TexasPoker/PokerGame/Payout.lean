import Mathlib.Algebra.Order.BigOperators.Group.List
import Mathlib.Algebra.Order.Ring.Nat
import Mathlib.Data.List.Dedup
import TexasPoker.PokerGame.Pots

/-! # Lost chips

The layers make up the pot, the rake comes out of the contested ones, and every layer that
somebody can win is paid in full. What a showdown loses is what lies in side pots that nobody can
win.
-/

namespace TexasPoker.PokerGame

/-! ## Layers -/

section Layers

variable {bets : List PlayerBet} {prev level : ℕ} {levels : List ℕ}

theorem sum_outerLayer : (outerLayer bets prev).amount = (bets.map fun b => b.bet - prev).sum := by
  unfold outerLayer
  refine congrArg List.sum (List.map_congr_left fun b _ => ?_)
  split
  · rfl
  · omega

theorem sum_layer (h : prev < level) :
    (layer bets prev level).amount + (bets.map fun b => b.bet - level).sum =
      (bets.map fun b => b.bet - prev).sum := by
  unfold layer
  dsimp only
  induction bets with
  | nil => rfl
  | cons b bets ih =>
    simp only [List.map_cons, List.sum_cons] at ih ⊢
    split <;> (try split) <;> omega

/-- The layers hold the bets. -/
theorem sum_cutLayers : ((cutLayers bets prev levels).map SidePot.amount).sum =
    (bets.map fun b => b.bet - prev).sum := by
  induction levels generalizing prev with
  | nil =>
    have h := @sum_outerLayer bets prev
    unfold cutLayers
    split
    · simpa using h
    · rename_i hz
      rw [List.map_nil, List.sum_nil, ← h]
      omega
  | cons level levels ih =>
    unfold cutLayers
    split
    · exact ih
    · rename_i hlt
      have hsum := @sum_layer bets _ _ (not_le.mp hlt)
      split
      · rw [List.map_cons, List.sum_cons, ih, hsum]
      · rename_i hz
        rw [ih, ← hsum]
        omega

theorem amount_pos_of_mem_cutLayers {p : SidePot} (h : p ∈ cutLayers bets prev levels) :
    0 < p.amount := by
  induction levels generalizing prev with
  | nil =>
    unfold cutLayers at h
    split at h
    · rename_i hz
      rw [List.mem_singleton.mp h]
      exact hz
    · cases h
  | cons level levels ih =>
    unfold cutLayers at h
    split at h
    · exact ih h
    · split at h
      · rename_i hz
        rcases List.mem_cons.mp h with rfl | h
        · exact hz
        · exact ih h
      · exact ih h

theorem eligibleAbove_eq_nil :
    eligibleAbove bets prev = [] ↔ ∀ b ∈ bets, b.folded = false → b.bet ≤ prev := by
  simp only [eligibleAbove, List.map_eq_nil_iff, List.filter_eq_nil_iff]
  refine forall₂_congr fun b _ => ?_
  cases b.folded <;> simp

/-- Above a level that nobody unfolded exceeds, nobody can win. -/
theorem players_of_mem_cutLayers (hm : eligibleAbove bets prev = []) {p : SidePot}
    (h : p ∈ cutLayers bets prev levels) : p.players = [] := by
  induction levels generalizing prev with
  | nil =>
    unfold cutLayers at h
    split at h
    · rw [List.mem_singleton.mp h]
      exact hm
    · cases h
  | cons level levels ih =>
    unfold cutLayers at h
    split at h
    · exact ih hm h
    · rename_i hlt
      have hlevel : eligibleAbove bets level = [] := by
        rw [eligibleAbove_eq_nil] at hm ⊢
        exact fun b hb hf => (hm b hb hf).trans (not_le.mp hlt).le
      split at h
      · rcases List.mem_cons.mp h with rfl | h
        · exact hm
        · exact ih hlevel h
      · exact ih hlevel h

/-- If nobody can win some layer, nobody can win the last one. -/
theorem players_getLast_cutLayers {p last : SidePot} (h : p ∈ cutLayers bets prev levels)
    (hp : p.players = []) (hlast : (cutLayers bets prev levels).getLast? = some last) :
    last.players = [] := by
  induction levels generalizing prev with
  | nil =>
    unfold cutLayers at h hlast
    split at h
    · rename_i hz
      rw [if_pos hz] at hlast
      cases hlast
      rw [← List.mem_singleton.mp h]
      exact hp
    · cases h
  | cons level levels ih =>
    unfold cutLayers at h hlast
    split at h
    · rename_i hle
      rw [if_pos hle] at hlast
      exact ih h hlast
    · rename_i hlt
      rw [if_neg hlt] at hlast
      split at h
      · rename_i hz
        rw [if_pos hz] at hlast
        rcases List.mem_cons.mp h with rfl | h
        · have hlevel : eligibleAbove bets level = [] := by
            have hm : eligibleAbove bets prev = [] := hp
            rw [eligibleAbove_eq_nil] at hm ⊢
            exact fun b hb hf => (hm b hb hf).trans (not_le.mp hlt).le
          rw [List.getLast?_cons] at hlast
          cases hrest : (cutLayers bets level levels).getLast? with
          | none =>
            rw [hrest] at hlast
            cases hlast
            exact hp
          | some last' =>
            rw [hrest] at hlast
            cases hlast
            exact players_of_mem_cutLayers hlevel (List.mem_of_getLast? hrest)
        · have hne : cutLayers bets level levels ≠ [] := List.ne_nil_of_mem h
          rw [List.getLast?_cons_of_ne_nil hne] at hlast
          exact ih h hlast
      · rename_i hz
        rw [if_neg hz] at hlast
        exact ih h hlast

theorem cutLayers_eq_nil : cutLayers bets prev levels = [] ↔ ∀ b ∈ bets, b.bet ≤ prev := by
  have hsum := @sum_cutLayers bets prev levels
  constructor
  · intro h b hb
    rw [h, List.map_nil, List.sum_nil, eq_comm, List.sum_eq_zero_iff] at hsum
    have := hsum _ (List.mem_map.mpr ⟨b, hb, rfl⟩)
    omega
  · intro h
    rw [List.eq_nil_iff_forall_not_mem]
    intro p hp
    have hle : p.amount ≤ ((cutLayers bets prev levels).map SidePot.amount).sum :=
      List.single_le_sum (by simp) _ (List.mem_map.mpr ⟨p, hp, rfl⟩)
    have hzero : (bets.map fun b => b.bet - prev).sum = 0 := by
      rw [List.sum_eq_zero_iff]
      intro x hx
      obtain ⟨b, hb, rfl⟩ := List.mem_map.mp hx
      have := h b hb
      omega
    have := amount_pos_of_mem_cutLayers hp
    omega

theorem layer_amount_pos (h : prev < level) (hb : ∃ b ∈ bets, b.bet = level) :
    0 < (layer bets prev level).amount := by
  obtain ⟨b, hb, rfl⟩ := hb
  have hle : b.bet - prev ≤ (layer bets prev b.bet).amount := by
    refine List.single_le_sum (by simp) _ (List.mem_map.mpr ⟨b, hb, ?_⟩)
    rw [if_pos h, if_neg (lt_irrefl _)]
  exact (Nat.sub_pos_of_lt h).trans_le hle

/-- Nobody can win a layer under the last one exactly when an all-in bet below the largest bet
starts above all unfolded ones. -/
theorem exists_dropLast_cutLayers (hsorted : levels.Pairwise (· < ·))
    (hprev : ∀ l ∈ levels, prev < l) (hbets : ∀ l ∈ levels, ∃ b ∈ bets, b.bet = l) :
    (∃ p ∈ (cutLayers bets prev levels).dropLast, p.players = []) ↔
      ∃ a' ∈ levels, (∃ b ∈ bets, a' < b.bet) ∧
        (eligibleAbove bets prev = [] ∨ ∃ a ∈ levels, a < a' ∧ eligibleAbove bets a = []) := by
  induction levels generalizing prev with
  | nil =>
    unfold cutLayers
    split <;> simp
  | cons level levels ih =>
    obtain ⟨hlevel, hsorted⟩ := List.pairwise_cons.mp hsorted
    have hlt := hprev level List.mem_cons_self
    have hpos := layer_amount_pos hlt (hbets level List.mem_cons_self)
    have ih := ih hsorted hlevel fun l hl => hbets l (List.mem_cons_of_mem _ hl)
    rw [cutLayers, if_neg (not_le.mpr hlt), if_pos hpos]
    by_cases hnil : cutLayers bets level levels = []
    · rw [hnil]
      rw [cutLayers_eq_nil] at hnil
      constructor
      · rintro ⟨p, hp, -⟩
        cases hp
      · rintro ⟨a', ha', ⟨b, hb, hlt'⟩, -⟩
        have hle : level ≤ a' := by
          rcases List.mem_cons.mp ha' with rfl | ha'
          · exact le_rfl
          · exact (hlevel a' ha').le
        exact absurd (hnil b hb) (by omega)
    · obtain ⟨b, hb, habove⟩ : ∃ b ∈ bets, level < b.bet := by
        by_contra hno
        refine hnil (cutLayers_eq_nil.mpr fun b hb => ?_)
        by_contra hlt'
        exact hno ⟨b, hb, not_le.mp hlt'⟩
      rw [List.dropLast_cons_of_ne_nil hnil, List.exists_mem_cons_iff, ih]
      change eligibleAbove bets prev = [] ∨ _ ↔ _
      constructor
      · rintro (h | ⟨a', ha', hb', h | ⟨a, ha, hlt', h⟩⟩)
        · exact ⟨level, List.mem_cons_self, ⟨b, hb, habove⟩, .inl h⟩
        · exact ⟨a', List.mem_cons_of_mem _ ha', hb',
            .inr ⟨level, List.mem_cons_self, hlevel a' ha', h⟩⟩
        · exact ⟨a', List.mem_cons_of_mem _ ha', hb',
            .inr ⟨a, List.mem_cons_of_mem _ ha, hlt', h⟩⟩
      · rintro ⟨a', ha', hb', h | ⟨a, ha, hlt', h⟩⟩
        · exact .inl h
        · refine .inr ⟨a', ?_, hb', ?_⟩
          · refine (List.mem_cons.mp ha').resolve_left fun he => ?_
            rcases List.mem_cons.mp ha with rfl | ha
            · omega
            · have := hlevel a ha
              omega
          · rcases List.mem_cons.mp ha with rfl | ha
            · exact .inl h
            · exact .inr ⟨a, ha, hlt', h⟩

/-! ## The last layer -/

variable {pots : List SidePot}

theorem lastEligible_lt (h : pots ≠ []) : lastEligible pots < pots.length := by
  unfold lastEligible
  cases hfind : (List.range pots.length).reverse.find? fun k =>
      pots[k]?.any fun p => p.players ≠ [] with
  | none => exact List.length_pos_iff.mpr h
  | some k => simpa using List.mem_of_find?_eq_some hfind

theorem sum_modify {i d : ℕ} (h : i < pots.length) :
    ((pots.modify i fun p => { p with amount := p.amount + d }).map SidePot.amount).sum =
      (pots.map SidePot.amount).sum + d := by
  induction pots generalizing i with
  | nil => cases h
  | cons p pots ih =>
    cases i with
    | zero =>
      simp only [List.modify_zero_cons, List.map_cons, List.sum_cons]
      omega
    | succ i =>
      have := ih (Nat.lt_of_succ_lt_succ h)
      simp only [List.modify_succ_cons, List.map_cons, List.sum_cons] at this ⊢
      omega

theorem players_modify {i d : ℕ} :
    (pots.modify i fun p => { p with amount := p.amount + d }).map SidePot.players =
      pots.map SidePot.players := by
  induction pots generalizing i with
  | nil => simp
  | cons p pots ih => cases i <;> simp [ih]

/-- A merge moves chips, not players. -/
theorem sum_mergeLast : ((mergeLast pots).map SidePot.amount).sum =
    (pots.map SidePot.amount).sum := by
  unfold mergeLast
  split
  · rfl
  · rename_i last hlast
    obtain ⟨rest, rfl⟩ := List.getLast?_eq_some_iff.mp hlast
    split
    · rename_i hempty
      simp only [List.dropLast_concat]
      split
      · rename_i hrest
        simp [hrest]
      · rename_i hrest
        rw [sum_modify (lastEligible_lt hrest)]
        simp
    · rfl

theorem amount_pos_of_mem_mergeLast (h : ∀ p ∈ pots, 0 < p.amount) {p : SidePot}
    (hp : p ∈ mergeLast pots) : 0 < p.amount := by
  unfold mergeLast at hp
  split at hp
  · exact h p hp
  · rename_i last hlast
    split at hp
    · rename_i hempty
      dsimp only at hp
      split at hp
      · rw [List.mem_singleton.mp hp]
        exact hempty.2
      · obtain ⟨i, hi, rfl⟩ := List.mem_iff_getElem.mp hp
        rw [List.length_modify] at hi
        rw [List.getElem_modify]
        have hmem := h _ (List.dropLast_subset _ (List.getElem_mem hi))
        split
        · exact Nat.add_pos_left hmem _
        · exact hmem
    · exact h p hp

/-- After the merge nobody can win a side pot exactly when nobody could win a layer between the
first and the last one. -/
theorem exists_tail_mergeLast (hpos : ∀ p ∈ pots, 0 < p.amount)
    (hlast : ∀ p ∈ pots, p.players = [] → ∀ last, pots.getLast? = some last → last.players = []) :
    (∃ p ∈ (mergeLast pots).tail, p.players = []) ↔ ∃ p ∈ pots.dropLast.tail, p.players = [] := by
  have hmap (l : List SidePot) : (∃ p ∈ l.tail, p.players = []) ↔
      [] ∈ (l.map SidePot.players).tail := by
    rw [← List.map_tail, List.mem_map]
  cases hl : pots.getLast? with
  | none =>
    rw [List.getLast?_eq_none_iff] at hl
    subst hl
    rfl
  | some last =>
    obtain ⟨rest, rfl⟩ := List.getLast?_eq_some_iff.mp hl
    by_cases hempty : last.players = []
    · have hpos' := hpos last (List.mem_append_right _ List.mem_cons_self)
      unfold mergeLast
      rw [hl]
      simp only [List.dropLast_concat]
      rw [if_pos ⟨hempty, hpos'⟩]
      split
      · rename_i hrest
        simp [hrest]
      · rw [hmap, hmap, players_modify]
    · have hmerge : mergeLast (rest ++ [last]) = rest ++ [last] := by
        unfold mergeLast
        rw [hl]
        exact if_neg fun h => hempty h.1
      rw [hmerge, List.dropLast_concat]
      constructor
      · rintro ⟨p, hp, h⟩
        exact absurd (hlast p (List.mem_of_mem_tail hp) h last hl) hempty
      · rintro ⟨p, hp, h⟩
        exact absurd (hlast p (List.mem_append_left _ (List.mem_of_mem_tail hp)) h last hl) hempty

theorem players_of_mem_mergeLast {p : SidePot} (hp : p ∈ mergeLast pots) :
    ∃ q ∈ pots, p.players = q.players := by
  unfold mergeLast at hp
  split at hp
  · exact ⟨p, hp, rfl⟩
  · rename_i last hlast
    split at hp
    · rename_i hempty
      dsimp only at hp
      split at hp
      · rw [List.mem_singleton.mp hp]
        exact ⟨last, List.mem_of_getLast? hlast, hempty.1.symm⟩
      · have hmem := List.mem_map_of_mem (f := SidePot.players) hp
        rw [players_modify] at hmem
        obtain ⟨q, hq, hpq⟩ := List.mem_map.mp hmem
        exact ⟨q, List.dropLast_subset _ hq, hpq.symm⟩
    · exact ⟨p, hp, rfl⟩

theorem mem_players_of_mem_cutLayers {p : SidePot} (h : p ∈ cutLayers bets prev levels) {id : ℕ}
    (hid : id ∈ p.players) : ∃ b ∈ bets, b.folded = false ∧ b.id = id := by
  have heligible {prev : ℕ} (h : id ∈ eligibleAbove bets prev) :
      ∃ b ∈ bets, b.folded = false ∧ b.id = id := by
    obtain ⟨b, hb, rfl⟩ := List.mem_map.mp h
    obtain ⟨hb, hf⟩ := List.mem_filter.mp hb
    exact ⟨b, hb, by simpa using (Bool.and_eq_true_iff.mp hf).2, rfl⟩
  induction levels generalizing prev with
  | nil =>
    unfold cutLayers at h
    split at h
    · rw [List.mem_singleton.mp h] at hid
      exact heligible hid
    · cases h
  | cons level levels ih =>
    unfold cutLayers at h
    split at h
    · exact ih h
    · split at h
      · rcases List.mem_cons.mp h with rfl | h
        · exact heligible hid
        · exact ih h
      · exact ih h

end Layers

/-! ## Rake -/

section Rake

variable {layers : List (ℕ × ℕ)} {shares : List ℕ} {remainder totalRake gross : ℕ}

theorem computeRake_le (pot : ℕ) (params : RakeParams) : computeRake pot params ≤ pot := by
  unfold computeRake
  split
  · exact Nat.zero_le _
  · exact min_le_right _ _

/-- A share that its layer can bear: nothing of an uncontested one. -/
def Bears (l : ℕ × ℕ) (share : ℕ) : Prop := share ≤ l.1 ∧ (l.2 < 2 → share = 0)

/-- The chips of the contested layers. -/
def contested (layers : List (ℕ × ℕ)) : ℕ := ((layers.filter fun l => 2 ≤ l.2).map Prod.fst).sum

theorem contested_cons (l : ℕ × ℕ) (layers : List (ℕ × ℕ)) :
    contested (l :: layers) = (if l.2 < 2 then 0 else l.1) + contested layers := by
  unfold contested
  by_cases h : l.2 < 2
  · rw [List.filter_cons_of_neg (by simpa using h), if_pos h, Nat.zero_add]
  · rw [List.filter_cons, if_pos (decide_eq_true (not_lt.mp h)), if_neg h, List.map_cons,
      List.sum_cons]

theorem sum_le_contested (h : List.Forall₂ Bears layers shares) :
    shares.sum ≤ contested layers := by
  induction h with
  | nil => exact Nat.zero_le _
  | cons hb _ ih =>
    rw [List.sum_cons, contested_cons]
    split
    · rename_i hl
      rw [hb.2 hl]
      omega
    · have := hb.1
      omega

theorem spreadRemainder_spec (h : List.Forall₂ Bears layers shares)
    (hr : remainder + shares.sum ≤ contested layers) :
    List.Forall₂ Bears layers (spreadRemainder layers shares remainder) ∧
      (spreadRemainder layers shares remainder).sum = shares.sum + remainder := by
  induction h generalizing remainder with
  | nil =>
    have : remainder = 0 := by
      have : contested [] = 0 := rfl
      rw [List.sum_nil] at hr
      omega
    subst this
    exact ⟨.nil, rfl⟩
  | @cons l share layers shares hb hrest ih =>
    rw [List.sum_cons, contested_cons] at hr
    unfold spreadRemainder
    split
    · rename_i hl
      rw [if_pos hl, hb.2 hl] at hr
      obtain ⟨hbears, hsum⟩ := @ih remainder (by omega)
      refine ⟨.cons hb hbears, ?_⟩
      rw [List.sum_cons, List.sum_cons, hsum]
      omega
    · rename_i hl
      rw [if_neg hl] at hr
      have hle := sum_le_contested hrest
      have hshare := hb.1
      obtain ⟨hbears, hsum⟩ := @ih (remainder - min remainder (l.1 - share)) (by omega)
      refine ⟨.cons ⟨by omega, fun h => absurd h hl⟩ hbears, ?_⟩
      rw [List.sum_cons, List.sum_cons, hsum]
      omega

theorem sum_shares_le :
    (layers.map fun l => if 2 ≤ l.2 then l.1 * totalRake / gross else 0).sum ≤
      contested layers * totalRake / gross := by
  induction layers with
  | nil => simp
  | cons l layers ih =>
    rw [List.map_cons, List.sum_cons, contested_cons]
    by_cases hl : l.2 < 2
    · rw [if_neg (by omega), if_pos hl, Nat.zero_add, Nat.zero_add]
      exact ih
    · rw [if_pos (by omega), if_neg hl, Nat.add_mul]
      exact (Nat.add_le_add_left ih _).trans Nat.div_add_div_le_add_div

/-- The rake is split exactly, and no layer pays more than it holds. -/
theorem allocateRake_spec (hle : totalRake ≤ contested layers) :
    List.Forall₂ Bears layers (allocateRake layers totalRake (contested layers)) ∧
      (allocateRake layers totalRake (contested layers)).sum = totalRake := by
  unfold allocateRake
  split
  · rename_i hz
    have hzero : totalRake = 0 := by
      rcases hz with h | h | h
      · exact h
      · rw [h] at hle
        exact Nat.le_zero.mp hle
      · rw [h] at hle
        exact Nat.le_zero.mp hle
    subst hzero
    constructor
    · rw [List.forall₂_map_right_iff]
      exact List.forall₂_same.mpr fun l _ => ⟨Nat.zero_le _, fun _ => rfl⟩
    · simp
  · rename_i hz
    have hgross : 0 < contested layers := by
      rcases Nat.eq_zero_or_pos (contested layers) with h | h
      · exact absurd (.inr (.inr h)) hz
      · exact h
    have hshares := @sum_shares_le layers totalRake (contested layers)
    rw [Nat.mul_div_cancel_left _ hgross] at hshares
    have hbears : List.Forall₂ Bears layers
        (layers.map fun l => if 2 ≤ l.2 then l.1 * totalRake / contested layers else 0) := by
      rw [List.forall₂_map_right_iff]
      refine List.forall₂_same.mpr fun l _ => ⟨?_, fun hl => if_neg (by omega)⟩
      split
      · refine Nat.div_le_of_le_mul ?_
        rw [Nat.mul_comm]
        exact Nat.mul_le_mul_right _ hle
      · exact Nat.zero_le _
    have hrest : totalRake - (layers.map fun l =>
        if 2 ≤ l.2 then l.1 * totalRake / contested layers else 0).sum + (layers.map fun l =>
        if 2 ≤ l.2 then l.1 * totalRake / contested layers else 0).sum ≤ contested layers := by
      rw [Nat.sub_add_cancel hshares]
      exact hle
    obtain ⟨hb, hsum⟩ := spreadRemainder_spec hbears hrest
    refine ⟨hb, hsum.trans ?_⟩
    omega

end Rake

/-! ## Side pots -/

namespace Seats

variable {maxPlayers : ℕ} (seats : Seats maxPlayers)

theorem mem_playerBets {b : PlayerBet} : b ∈ seats.playerBets ↔
    ∃ e ∈ seats.entries, 0 < e.2.totalBet ∧
      b = ⟨e.1, e.2.totalBet, e.2.folded, e.2.stack = 0⟩ := by
  simp only [playerBets, List.mem_map, List.mem_filter, decide_eq_true_eq]
  constructor
  · rintro ⟨e, ⟨he, hpos⟩, rfl⟩
    exact ⟨e, he, hpos, rfl⟩
  · rintro ⟨e, he, hpos, rfl⟩
    exact ⟨e, ⟨he, hpos⟩, rfl⟩

theorem mem_allInBets {a : ℕ} : a ∈ seats.allInBets ↔
    ∃ b ∈ seats.playerBets, b.allIn = true ∧ b.bet = a := by
  simp only [allInBets, List.mem_dedup, List.mem_insertionSort, List.mem_map, List.mem_filter,
    and_assoc]

theorem bet_pos {b : PlayerBet} (h : b ∈ seats.playerBets) : 0 < b.bet := by
  obtain ⟨e, -, hpos, rfl⟩ := seats.mem_playerBets.mp h
  exact hpos

theorem sorted_allInBets : seats.allInBets.Pairwise (· < ·) := by
  have hle : seats.allInBets.Pairwise (· ≤ ·) :=
    (List.pairwise_insertionSort (· ≤ ·) _).sublist (List.dedup_sublist _)
  have hne : seats.allInBets.Pairwise (· ≠ ·) := List.nodup_dedup _
  exact (hle.and hne).imp fun h => lt_of_le_of_ne h.1 h.2

/-- Between two bets of seats without a stack, the larger of them exceeded by somebody, some
unfolded seat bet more than the smaller one. -/
def Reaches : Prop :=
  ∀ a ∈ seats.allInBets, ∀ a' ∈ seats.allInBets, a < a' → (∃ b ∈ seats.playerBets, a' < b.bet) →
    ∃ b ∈ seats.playerBets, b.folded = false ∧ a < b.bet

instance : Decidable seats.Reaches :=
  inferInstanceAs (Decidable (∀ a ∈ seats.allInBets, ∀ a' ∈ seats.allInBets, _))

theorem not_reaches_iff : ¬ seats.Reaches ↔
    ∃ a ∈ seats.allInBets, ∃ a' ∈ seats.allInBets, a < a' ∧ (∃ b ∈ seats.playerBets, a' < b.bet) ∧
      eligibleAbove seats.playerBets a = [] := by
  simp only [Reaches, eligibleAbove_eq_nil, not_forall, not_exists, not_and, not_lt, exists_prop]

end Seats

namespace Showdown

variable {maxPlayers : ℕ} {R : Type} [DecidableEq R] (s : Showdown maxPlayers)

@[simp] theorem seats_calculateSidePots : s.calculateSidePots.seats = s.seats := by
  unfold calculateSidePots
  split <;> rfl

@[simp] theorem pot_calculateSidePots : s.calculateSidePots.pot = s.pot := by
  unfold calculateSidePots
  split <;> rfl

@[simp] theorem rakeCollected_calculateSidePots :
    s.calculateSidePots.rakeCollected = s.rakeCollected := by
  unfold calculateSidePots
  split <;> rfl

/-- Some side pot has nobody who can win it exactly when the seats do not reach. -/
theorem exists_sidePot_iff :
    (∃ p ∈ s.calculateSidePots.sidePots, p.players = []) ↔ ¬ s.seats.Reaches := by
  rw [Seats.not_reaches_iff]
  unfold calculateSidePots
  split
  · rename_i h
    constructor
    · rintro ⟨p, hp, -⟩
      cases hp
    · rintro ⟨a, ha, -⟩
      rcases h with h | h
      · obtain ⟨b, hb, -⟩ := s.seats.mem_allInBets.mp ha
        rw [h] at hb
        cases hb
      · rw [h] at ha
        cases ha
  · dsimp only
    rw [exists_tail_mergeLast (fun _ => amount_pos_of_mem_cutLayers) fun _ hp h _ =>
      players_getLast_cutLayers hp h]
    have hsorted := s.seats.sorted_allInBets
    have hbets (l : ℕ) (hl : l ∈ s.seats.allInBets) : ∃ b ∈ s.seats.playerBets, b.bet = l := by
      obtain ⟨b, hb, -, he⟩ := s.seats.mem_allInBets.mp hl
      exact ⟨b, hb, he⟩
    have hpos (l : ℕ) (hl : l ∈ s.seats.allInBets) : 0 < l := by
      obtain ⟨b, hb, rfl⟩ := hbets l hl
      exact s.seats.bet_pos hb
    cases hlevels : s.seats.allInBets with
    | nil => simp_all
    | cons first levels =>
      rw [hlevels] at hsorted hbets hpos
      obtain ⟨hfirst, hsorted⟩ := List.pairwise_cons.mp hsorted
      have hlt := hpos first List.mem_cons_self
      rw [cutLayers, if_neg (not_le.mpr hlt),
        if_pos (layer_amount_pos hlt (hbets first List.mem_cons_self))]
      have htail (p : SidePot) (pots : List SidePot) :
          (p :: pots).dropLast.tail = pots.dropLast := by
        cases pots <;> rfl
      rw [htail, exists_dropLast_cutLayers hsorted hfirst fun l hl =>
        hbets l (List.mem_cons_of_mem _ hl)]
      constructor
      · rintro ⟨a', ha', hb', h | ⟨a, ha, hlt', h⟩⟩
        · exact ⟨first, List.mem_cons_self, a', List.mem_cons_of_mem _ ha', hfirst a' ha', hb', h⟩
        · exact ⟨a, List.mem_cons_of_mem _ ha, a', List.mem_cons_of_mem _ ha', hlt', hb', h⟩
      · rintro ⟨a, ha, a', ha', hlt', hb', h⟩
        refine ⟨a', ?_, hb', ?_⟩
        · refine (List.mem_cons.mp ha').resolve_left fun he => ?_
          rcases List.mem_cons.mp ha with rfl | ha
          · omega
          · have := hfirst a ha
            omega
        · rcases List.mem_cons.mp ha with rfl | ha
          · exact .inl h
          · exact .inr ⟨a, ha, hlt', h⟩

theorem sum_sidePots (hpot : s.pot = (s.seats.values.map Seat.totalBet).sum) :
    (s.calculateSidePots.sidePots.map SidePot.amount).sum ≤ s.pot := by
  unfold calculateSidePots
  split
  · exact Nat.zero_le _
  · have hbets : (s.seats.playerBets.map fun b => b.bet - 0).sum = s.pot := by
      rw [hpot, Seats.playerBets, Seats.values, List.map_map, List.map_map]
      induction s.seats.entries with
      | nil => rfl
      | cons e entries ih =>
        by_cases he : 0 < e.2.totalBet
        · rw [List.filter_cons_of_pos (by simpa using he), List.map_cons, List.map_cons,
            List.sum_cons, List.sum_cons, ih]
          rfl
        · rw [List.filter_cons_of_neg (by simpa using he), List.map_cons, List.sum_cons, ih]
          simp [Nat.eq_zero_of_not_pos he]
    have hsum : ((mergeLast (cutLayers s.seats.playerBets 0 s.seats.allInBets)).map
        SidePot.amount).sum = s.pot := by
      rw [sum_mergeLast, sum_cutLayers, hbets]
    dsimp only
    cases hpots : mergeLast (cutLayers s.seats.playerBets 0 s.seats.allInBets) with
    | nil => exact Nat.zero_le _
    | cons p pots =>
      rw [hpots, List.map_cons, List.sum_cons] at hsum
      exact hsum ▸ Nat.le_add_left _ _

/-- The winners of a side pot did not fold. -/
theorem isUnfolded_of_mem_players {p : SidePot} (hp : p ∈ s.calculateSidePots.sidePots) {id : ℕ}
    (hid : id ∈ p.players) : s.seats.isUnfolded id = true := by
  unfold calculateSidePots at hp
  split at hp
  · cases hp
  · obtain ⟨q, hq, hpq⟩ := players_of_mem_mergeLast (List.mem_of_mem_tail hp)
    rw [hpq] at hid
    obtain ⟨b, hb, hf, rfl⟩ := mem_players_of_mem_cutLayers hq hid
    obtain ⟨e, he, -, rfl⟩ := s.seats.mem_playerBets.mp hb
    rw [Seats.isUnfolded, s.seats.mem_entries.mp he]
    simpa using hf

theorem amount_pos_of_mem_sidePots {p : SidePot} (hp : p ∈ s.calculateSidePots.sidePots) :
    0 < p.amount := by
  unfold calculateSidePots at hp
  split at hp
  · cases hp
  · exact amount_pos_of_mem_mergeLast (fun _ => amount_pos_of_mem_cutLayers)
      (List.mem_of_mem_tail hp)

/-! ## The rake of a showdown -/

/-- A side pot before and after its rake. -/
def Raked (p q : SidePot) : Prop :=
  q.players = p.players ∧ q.amount ≤ p.amount ∧ (p.players = [] → q.amount = p.amount)

theorem exists_of_raked {pots pots' : List SidePot} (h : List.Forall₂ Raked pots pots')
    {q : SidePot} (hq : q ∈ pots') : ∃ p ∈ pots, q.players = p.players := by
  induction h with
  | nil => cases hq
  | cons h _ ih =>
    rcases List.mem_cons.mp hq with rfl | hq
    · exact ⟨_, List.mem_cons_self, h.1⟩
    · obtain ⟨p, hp, hpq⟩ := ih hq
      exact ⟨p, List.mem_cons_of_mem _ hp, hpq⟩

/-- What lies in side pots that nobody can win. -/
def dead (pots : List SidePot) : ℕ :=
  ((pots.filter fun p => p.players = []).map SidePot.amount).sum

theorem dead_eq_zero_iff {pots : List SidePot} (hpos : ∀ p ∈ pots, 0 < p.amount) :
    dead pots = 0 ↔ ¬ ∃ p ∈ pots, p.players = [] := by
  rw [dead, List.sum_eq_zero_iff]
  constructor
  · rintro h ⟨p, hp, hempty⟩
    have := h _ (List.mem_map.mpr ⟨p, List.mem_filter.mpr ⟨hp, by simpa using hempty⟩, rfl⟩)
    have := hpos p hp
    omega
  · rintro h x hx
    obtain ⟨p, hp, -⟩ := List.mem_map.mp hx
    obtain ⟨hp, hempty⟩ := List.mem_filter.mp hp
    exact absurd ⟨p, hp, by simpa using hempty⟩ h

theorem dead_cons (p : SidePot) (pots : List SidePot) :
    dead (p :: pots) = (if p.players = [] then p.amount else 0) + dead pots := by
  unfold dead
  by_cases h : p.players = []
  · rw [List.filter_cons_of_pos (by simpa using h), if_pos h, List.map_cons, List.sum_cons]
  · rw [List.filter_cons_of_neg (by simpa using h), if_neg h, Nat.zero_add]

theorem dead_of_raked {pots pots' : List SidePot} (h : List.Forall₂ Raked pots pots') :
    dead pots' = dead pots := by
  induction h with
  | nil => rfl
  | cons h _ ih =>
    rw [dead_cons, dead_cons, ih, h.1]
    split
    · rename_i hempty
      rw [h.2.2 hempty]
    · rfl

theorem zipWith_raked {pots : List SidePot} {shares : List ℕ} {isUnfolded : ℕ → Bool}
    (h : List.Forall₂ Bears
      (pots.map fun p => (p.amount, (p.players.filter isUnfolded).length)) shares) :
    List.Forall₂ Raked pots
        (List.zipWith (fun p share => { p with amount := p.amount - share }) pots shares) ∧
      ((List.zipWith (fun p share => { p with amount := p.amount - share }) pots shares).map
        SidePot.amount).sum + shares.sum = (pots.map SidePot.amount).sum := by
  induction pots generalizing shares with
  | nil =>
    cases h
    exact ⟨.nil, rfl⟩
  | cons p pots ih =>
    cases h with
    | @cons _ share _ shares hb hrest =>
      obtain ⟨hraked, hsum⟩ := ih hrest
      have hshare : share ≤ p.amount := hb.1
      refine ⟨.cons ⟨rfl, Nat.sub_le _ _, fun hp => ?_⟩ hraked, ?_⟩
      · have hzero : share = 0 := hb.2 (by simp [hp])
        simp [hzero]
      · simp only [List.zipWith_cons_cons, List.map_cons, List.sum_cons]
        omega

theorem map_zipIdx_getD {pots : List SidePot} {shares : List ℕ} (main : ℕ)
    (h : pots.length = shares.length) :
    (pots.zipIdx.map fun p =>
      { p.1 with amount := p.1.amount - (main :: shares).getD (p.2 + 1) 0 : SidePot }) =
      List.zipWith (fun p share => { p with amount := p.amount - share }) pots shares := by
  refine List.ext_getElem (by simp [h]) fun i hi hi' => ?_
  have hlt : i < shares.length := by simpa [h] using hi
  simp [List.getD_eq_getElem?_getD, hlt]

@[simp] theorem seats_collectRakeForSettlement (params : RakeParams) :
    (s.collectRakeForSettlement params).seats = s.seats := by
  unfold collectRakeForSettlement
  dsimp only
  split <;> rfl

/-- The rake leaves the side pots covered, and does not touch those that nobody can win. -/
theorem collectRakeForSettlement_spec (params : RakeParams)
    (hsum : (s.sidePots.map SidePot.amount).sum ≤ s.pot) :
    List.Forall₂ Raked s.sidePots (s.collectRakeForSettlement params).sidePots ∧
      ((s.collectRakeForSettlement params).sidePots.map SidePot.amount).sum ≤
        (s.collectRakeForSettlement params).pot ∧
      (s.collectRakeForSettlement params).pot ≤ s.pot := by
  unfold collectRakeForSettlement
  dsimp only
  split
  · exact ⟨List.forall₂_same.mpr fun _ _ => ⟨rfl, le_rfl, fun _ => rfl⟩, hsum, le_rfl⟩
  · obtain ⟨hbears, htotal⟩ := allocateRake_spec
      (computeRake_le (contested s.rakeLayers) params)
    unfold contested at hbears htotal
    generalize computeRake ((s.rakeLayers.filter fun l => 2 ≤ l.2).map Prod.fst).sum params =
      totalRake at hbears htotal ⊢
    generalize allocateRake s.rakeLayers totalRake
      ((s.rakeLayers.filter fun l => 2 ≤ l.2).map Prod.fst).sum = allocations at hbears htotal ⊢
    cases hbears with
    | @cons _ main _ shares hmain hside =>
      have hlen : s.sidePots.length = shares.length := by simpa using hside.length_eq
      have hle : main ≤ s.pot - (s.sidePots.map SidePot.amount).sum := hmain.1
      obtain ⟨hraked, hpots⟩ := zipWith_raked hside
      rw [map_zipIdx_getD main hlen]
      rw [List.sum_cons] at htotal
      refine ⟨hraked, ?_, Nat.sub_le _ _⟩
      dsimp only
      omega

end Showdown

/-! ## Payments -/

namespace Seats

variable {maxPlayers : ℕ} (seats : Seats maxPlayers)

/-- The chips of the seats that did not fold. -/
def unfoldedStacks : ℕ := (seats.entries.map fun e => if e.2.folded then 0 else e.2.stack).sum

@[simp] theorem isUnfolded_winHand {id id' amount : ℕ} :
    (seats.modify id (·.winHand amount)).isUnfolded id' = seats.isUnfolded id' := by
  unfold isUnfolded
  by_cases h : id' = id
  · subst h
    rw [get_modify_self]
    cases seats.get id' <;> rfl
  · rw [seats.get_modify_of_ne h]

/-- One unfolded seat changes. -/
theorem unfoldedStacks_modify {id : ℕ} {x : Seat} {f : Seat → Seat} (hx : seats.get id = some x)
    (hf : x.folded = false) (hf' : (f x).folded = false) :
    (seats.modify id f).unfoldedStacks + x.stack = seats.unfoldedStacks + (f x).stack := by
  have hmem := seats.mem_entries.mpr hx
  have hnodup := seats.nodup
  unfold unfoldedStacks modify
  dsimp only
  rw [List.map_map]
  generalize seats.entries = entries at hmem hnodup
  induction entries with
  | nil => cases hmem
  | cons e entries ih =>
    rw [List.map_cons, List.nodup_cons] at hnodup
    rw [List.map_cons, List.map_cons, List.sum_cons, List.sum_cons]
    rcases List.mem_cons.mp hmem with rfl | hmem
    · have hrest : (entries.map ((fun e : ℕ × Seat => if e.2.folded then 0 else e.2.stack) ∘
          fun e => (e.1, if e.1 = id then f e.2 else e.2))) =
          entries.map fun e => if e.2.folded then 0 else e.2.stack := by
        refine List.map_congr_left fun e' he' => ?_
        have hne : e'.1 ≠ id := fun h => hnodup.1 (List.mem_map.mpr ⟨e', he', h⟩)
        simp [hne]
      rw [hrest]
      simp only [Function.comp_apply, if_true, hf, hf', Bool.false_eq_true, if_false]
      omega
    · have hne : e.1 ≠ id := by
        rintro rfl
        exact hnodup.1 (List.mem_map.mpr ⟨_, hmem, rfl⟩)
      have hsum := ih hmem hnodup.2
      simp only [Function.comp_apply, hne, if_false]
      omega

/-- Every unfolded stack can take an amount without wrapping around. -/
def HasRoom (amount : ℕ) : Prop :=
  ∀ e ∈ seats.entries, e.2.folded = false → e.2.stack + amount < 2 ^ 64

instance (amount : ℕ) : Decidable (seats.HasRoom amount) :=
  inferInstanceAs (Decidable (∀ e ∈ seats.entries, _ → _))

/-- The unfolded seats were paid an amount. Each wrap of a stack loses 2 ^ 64 chips, and none
happens where there is room. -/
structure Paid (seats after : Seats maxPlayers) (amount : ℕ) : Prop where
  total : ∃ wraps, after.unfoldedStacks + 2 ^ 64 * wraps = seats.unfoldedStacks + amount
  room : ∀ rest, seats.HasRoom (amount + rest) →
    after.HasRoom rest ∧ after.unfoldedStacks = seats.unfoldedStacks + amount
  unfolded : ∀ id, after.isUnfolded id = seats.isUnfolded id

variable {seats} {after later : Seats maxPlayers} {amount amount' : ℕ}

theorem Paid.refl : Paid seats seats 0 where
  total := ⟨0, rfl⟩
  room rest h := ⟨by rwa [Nat.zero_add] at h, rfl⟩
  unfolded _ := rfl

theorem Paid.trans (h : Paid seats after amount) (h' : Paid after later amount') :
    Paid seats later (amount + amount') where
  total := by
    obtain ⟨wraps, hsum⟩ := h.total
    obtain ⟨wraps', hsum'⟩ := h'.total
    exact ⟨wraps + wraps', by omega⟩
  room := by
    intro rest hroom
    rw [Nat.add_assoc] at hroom
    obtain ⟨hroom, hsum⟩ := h.room _ hroom
    obtain ⟨hroom', hsum'⟩ := h'.room _ hroom
    exact ⟨hroom', by omega⟩
  unfolded id := (h'.unfolded id).trans (h.unfolded id)

theorem paid_winHand {id : ℕ} (h : seats.isUnfolded id = true) :
    Paid seats (seats.modify id (·.winHand amount)) amount := by
  obtain ⟨x, hx, hf⟩ := (Option.any_eq_true _ _).mp h
  have hf : x.folded = false := by simpa using hf
  have hsum := seats.unfoldedStacks_modify (f := (·.winHand amount)) hx hf hf
  have hstack : (x.winHand amount).stack = (x.stack + amount) % 2 ^ 64 := rfl
  refine ⟨⟨(x.stack + amount) / 2 ^ 64, by omega⟩, fun rest hroom => ⟨?_, ?_⟩,
    fun _ => isUnfolded_winHand seats⟩
  · intro e he hfolded
    obtain ⟨e', he', rfl⟩ := List.mem_map.mp he
    dsimp only at hfolded ⊢
    split at hfolded
    · rename_i heq
      rw [if_pos heq]
      have hlt := hroom e' he' hfolded
      have hstack' : (e'.2.winHand amount).stack = (e'.2.stack + amount) % 2 ^ 64 := rfl
      omega
    · rename_i hne
      rw [if_neg hne]
      have hlt := hroom e' he' hfolded
      omega
  · have hlt := hroom _ (seats.mem_entries.mpr hx) hf
    dsimp only at hlt
    omega

theorem paid_pay {payouts : List (ℕ × ℕ)} (h : ∀ w ∈ payouts, seats.isUnfolded w.1 = true) :
    Paid seats (seats.pay payouts) (payouts.map Prod.snd).sum := by
  induction payouts generalizing seats with
  | nil => exact .refl
  | cons w payouts ih =>
    refine (paid_winHand (h w List.mem_cons_self)).trans (ih fun w' hw' => ?_)
    rw [isUnfolded_winHand]
    exact h w' (List.mem_cons_of_mem _ hw')

end Seats

theorem sum_evenSplit {winners : List ℕ} (amount : ℕ) (h : winners ≠ []) :
    ((evenSplit amount winners).map Prod.snd).sum = amount := by
  have hlength := List.length_pos_iff.mpr h
  have hsum (share rest k : ℕ) (winners : List ℕ) :
      ((winners.zipIdx k).map fun w => share + if w.2 < rest then 1 else 0).sum =
        winners.length * share + (min (k + winners.length) rest - min k rest) := by
    induction winners generalizing k with
    | nil => simp
    | cons w winners ih =>
      rw [List.zipIdx_cons, List.map_cons, List.sum_cons, ih, List.length_cons, Nat.add_one_mul]
      split <;> omega
  have hmod := Nat.mod_lt amount hlength
  have hdiv := Nat.div_add_mod amount winners.length
  unfold evenSplit
  rw [List.map_map]
  refine (hsum _ _ 0 winners).trans ?_
  omega

namespace Showdown

variable {maxPlayers : ℕ} {R : Type} [DecidableEq R] (s : Showdown maxPlayers)

/-- Seats that can win are paid the whole amount, and nothing else changes. -/
theorem determineWinnerByIds_spec (hands : List (ℕ × R)) (amount : ℕ) {ids : List ℕ}
    (hu : ∀ id ∈ ids, s.seats.isUnfolded id = true) :
    Seats.Paid s.seats (s.determineWinnerByIds hands amount ids).seats
        (if ids = [] then 0 else amount) ∧
      (s.determineWinnerByIds hands amount ids).mainPot = s.mainPot := by
  have hsplit (winners : List ℕ) (hne : winners ≠ []) (hsub : ∀ id ∈ winners, id ∈ ids) :
      Seats.Paid s.seats (s.seats.pay (evenSplit amount winners)) amount := by
    have hpaid : Seats.Paid s.seats (s.seats.pay (evenSplit amount winners))
        ((evenSplit amount winners).map Prod.snd).sum := by
      refine Seats.paid_pay fun w hw => ?_
      obtain ⟨⟨id, i⟩, hid, rfl⟩ := List.mem_map.mp hw
      exact hu id (hsub id (List.fst_mem_of_mem_zipIdx (l := winners) (k := 0) hid))
    rwa [sum_evenSplit amount hne] at hpaid
  unfold determineWinnerByIds
  match ids with
  | [] => exact ⟨.refl, rfl⟩
  | [winner] =>
    have hpaid : Seats.Paid s.seats (s.seats.pay [(winner, amount)]) amount :=
      Seats.paid_pay fun w hw => by
        rw [List.mem_singleton.mp hw]
        exact hu _ List.mem_cons_self
    exact ⟨hpaid, rfl⟩
  | first :: second :: ids =>
    dsimp only
    split
    · exact ⟨hsplit _ (List.cons_ne_nil _ _) fun _ h => h, rfl⟩
    · rename_i best rest hbest
      refine ⟨hsplit _ ?_ ?_, rfl⟩
      · rw [List.filter_cons_of_pos (by simp)]
        exact List.cons_ne_nil _ _
      · intro id hid
        obtain ⟨h, hh, rfl⟩ := List.mem_map.mp hid
        have hmem := (List.mem_filter.mp hh).1
        rw [← hbest] at hmem
        simpa using (List.mem_filter.mp hmem).2

theorem foldl_determineWinnerByIds (hands : List (ℕ × R)) {pots : List SidePot}
    (hu : ∀ p ∈ pots, ∀ id ∈ p.players, s.seats.isUnfolded id = true) :
    let after := (pots.map fun p => (p.amount, p.players)).foldl
      (fun s p => s.determineWinnerByIds hands p.1 p.2) s
    (∃ paid, Seats.Paid s.seats after.seats paid ∧
      paid + dead pots = (pots.map SidePot.amount).sum) ∧ after.mainPot = s.mainPot := by
  induction pots generalizing s with
  | nil => exact ⟨⟨0, .refl, rfl⟩, rfl⟩
  | cons p pots ih =>
    obtain ⟨hpaid, hmain⟩ := s.determineWinnerByIds_spec hands p.amount (hu p List.mem_cons_self)
    obtain ⟨⟨paid, hpaid', hsum⟩, hmain'⟩ := ih (s.determineWinnerByIds hands p.amount p.players)
      fun q hq id hid => by
        rw [hpaid.unfolded]
        exact hu q (List.mem_cons_of_mem _ hq) id hid
    refine ⟨⟨_, hpaid.trans hpaid', ?_⟩, hmain'.trans hmain⟩
    rw [dead_cons, List.map_cons, List.sum_cons]
    split <;> omega

theorem determineSidePotWinners_spec (hands : List (ℕ × R))
    (hu : ∀ p ∈ s.sidePots, ∀ id ∈ p.players, s.seats.isUnfolded id = true) :
    (∃ paid, Seats.Paid s.seats (s.determineSidePotWinners hands).seats paid ∧
      paid + dead s.sidePots = (s.sidePots.map SidePot.amount).sum) ∧
      (s.determineSidePotWinners hands).mainPot = s.mainPot := by
  have hplayers : (s.sidePots.map fun p => (p.amount, p.players.filter s.seats.isUnfolded)) =
      s.sidePots.map fun p => (p.amount, p.players) := by
    refine List.map_congr_left fun p hp => ?_
    rw [List.filter_eq_self.mpr (hu p hp)]
  unfold determineSidePotWinners
  rw [hplayers]
  exact s.foldl_determineWinnerByIds hands hu

/-- A showdown pays out its pot but for the rake and the dead side pots. -/
theorem settleHand_pays (params : RakeParams) (hands : List (ℕ × R))
    (hpot : s.pot = (s.seats.values.map Seat.totalBet).sum)
    (hu : ∃ e ∈ s.seats.entries, e.2.folded = false) :
    ∃ paid, Seats.Paid s.seats (s.settleHand params hands).seats paid ∧
      paid + dead s.calculateSidePots.sidePots =
        (s.calculateSidePots.collectRakeForSettlement params).pot := by
  have hsum := s.sum_sidePots hpot
  rw [← pot_calculateSidePots] at hsum
  obtain ⟨hraked, hcovered, -⟩ :=
    s.calculateSidePots.collectRakeForSettlement_spec params hsum
  unfold settleHand
  generalize hraked' : s.calculateSidePots.collectRakeForSettlement params = raked
    at hraked hcovered ⊢
  have hseats : raked.seats = s.seats := by
    rw [← hraked']
    simp
  have hplayers : ∀ p ∈ raked.sidePots, ∀ id ∈ p.players, raked.seats.isUnfolded id = true := by
    intro q hq id hid
    obtain ⟨p, hp, hpq⟩ := exists_of_raked hraked hq
    rw [hpq] at hid
    rw [hseats]
    exact s.isUnfolded_of_mem_players hp hid
  obtain ⟨⟨side, hside, hsides⟩, hmain⟩ := raked.determineSidePotWinners_spec hands hplayers
  rw [hseats] at hside
  rw [dead_of_raked hraked] at hsides
  generalize raked.determineSidePotWinners hands = paid at hside hmain ⊢
  have hids : ∀ id ∈ (paid.seats.entries.filter fun e => !e.2.folded).map Prod.fst,
      paid.seats.isUnfolded id = true := by
    intro id hid
    obtain ⟨e, he, rfl⟩ := List.mem_map.mp hid
    obtain ⟨he, hf⟩ := List.mem_filter.mp he
    rw [Seats.isUnfolded, paid.seats.mem_entries.mp he]
    exact hf
  obtain ⟨hpaid, -⟩ := paid.determineWinnerByIds_spec hands paid.mainPot hids
  have hne : (paid.seats.entries.filter fun e => !e.2.folded).map Prod.fst ≠ [] := by
    obtain ⟨e, he, hf⟩ := hu
    have hwins : paid.seats.isUnfolded e.1 = true := by
      rw [hside.unfolded, Seats.isUnfolded, s.seats.mem_entries.mp he]
      simpa using hf
    obtain ⟨x, hx, hxf⟩ := (Option.any_eq_true _ _).mp hwins
    exact List.ne_nil_of_mem (List.mem_map.mpr
      ⟨(e.1, x), List.mem_filter.mpr ⟨paid.seats.mem_entries.mpr hx, hxf⟩, rfl⟩)
  rw [if_neg hne] at hpaid
  refine ⟨_, hside.trans hpaid, ?_⟩
  rw [hmain]
  unfold mainPot
  omega

/-- The layers make up the pot, and the seats that did not fold get the pot less the rake. -/
def PaysAll (params : RakeParams) (hands : List (ℕ × R)) : Prop :=
  (s.calculateSidePots.sidePots.map SidePot.amount).sum + s.calculateSidePots.mainPot = s.pot ∧
    (s.settleHand params hands).seats.unfoldedStacks =
      s.seats.unfoldedStacks + (s.calculateSidePots.collectRakeForSettlement params).pot

instance (params : RakeParams) (hands : List (ℕ × R)) : Decidable (s.PaysAll params hands) :=
  inferInstanceAs (Decidable (_ ∧ _))

/-- A showdown loses chips when the unfolded bets do not reach into the layers, and only then as
long as no stack can wrap around. -/
theorem paysAll_iff (params : RakeParams) (hands : List (ℕ × R))
    (hpot : s.pot = (s.seats.values.map Seat.totalBet).sum)
    (hu : ∃ e ∈ s.seats.entries, e.2.folded = false) :
    (s.PaysAll params hands → s.seats.Reaches) ∧
      (s.seats.HasRoom s.pot → (s.PaysAll params hands ↔ s.seats.Reaches)) := by
  have hsum := s.sum_sidePots hpot
  obtain ⟨paid, hpaid, htotal⟩ := s.settleHand_pays params hands hpot hu
  have hdead := dead_eq_zero_iff fun p => s.amount_pos_of_mem_sidePots (p := p)
  rw [exists_sidePot_iff, not_not] at hdead
  have hlayers : (s.calculateSidePots.sidePots.map SidePot.amount).sum +
      s.calculateSidePots.mainPot = s.pot := by
    rw [mainPot, pot_calculateSidePots]
    omega
  have hrake : (s.calculateSidePots.collectRakeForSettlement params).pot ≤ s.pot := by
    have hspec := s.calculateSidePots.collectRakeForSettlement_spec params
      (by rwa [pot_calculateSidePots])
    simpa using hspec.2.2
  have hreaches : s.PaysAll params hands → s.seats.Reaches := by
    rintro ⟨-, h⟩
    obtain ⟨wraps, hwraps⟩ := hpaid.total
    exact hdead.mp (by omega)
  refine ⟨hreaches, fun hroom => ⟨hreaches, fun h => ⟨hlayers, ?_⟩⟩⟩
  have hroom : s.seats.HasRoom (paid + (s.pot - paid)) := by
    rwa [Nat.add_sub_of_le (by omega)]
  rw [(hpaid.room _ hroom).2]
  have hzero := hdead.mpr h
  omega

end Showdown

/-! ## Two showdowns -/

section Tables

/-- A seat of a showdown. -/
def shown (stack totalBet : ℕ) (folded : Bool) : Seat where
  player := none
  stack := stack
  bet := 0
  totalBet := totalBet
  folded := folded
  sittingOut := false
  isWaiting := false

/-- A short all-in and a larger one against a caller, with a folded bet between them. -/
def shortAllIns : Showdown 9 where
  seats := ⟨[(1, shown 0 100 false), (2, shown 0 300 false), (3, shown 700 300 false),
    (4, shown 750 250 true)], by decide, by decide⟩
  pot := 950
  sidePots := []
  rakeCollected := 0

/-- Every chip of the two pots is paid. -/
theorem shortAllIns_paysAll : shortAllIns.PaysAll ⟨500, 30⟩ [(2, 7), (1, 7), (3, 4)] := by
  refine ((shortAllIns.paysAll_iff _ _ rfl ⟨(1, shown 0 100 false), by decide, rfl⟩).2 ?_).mpr ?_
  · decide +kernel
  · decide +kernel

/-- A caller of 100 against three folded bets of 200, 300 and 400; two of them were all-in. -/
def foldedAllIns : Showdown 9 where
  seats := ⟨[(1, shown 900 100 false), (2, shown 0 200 true), (3, shown 0 300 true),
    (4, shown 600 400 true)], by decide, by decide⟩
  pot := 1000
  sidePots := []
  rakeCollected := 0

/-- The layer between the all-in bets has no winner and is paid to nobody. -/
theorem foldedAllIns_loses :
    foldedAllIns.pot = (foldedAllIns.seats.values.map Seat.totalBet).sum ∧
      foldedAllIns.calculateSidePots.sidePots = [⟨200, []⟩] ∧
      (foldedAllIns.settleHand ⟨500, 30⟩ ([] : List (ℕ × ℕ))).seats.get 1 =
        some (shown 1700 0 false) ∧
      ¬ foldedAllIns.PaysAll ⟨500, 30⟩ ([] : List (ℕ × ℕ)) := by
  decide +kernel

/-- The winner of a pot of 20 whose stack is the largest 64-bit number. -/
def fullStack : Showdown 9 where
  seats := ⟨[(1, shown (2 ^ 64 - 1) 10 false), (2, shown 50 10 false)], by decide, by decide⟩
  pot := 20
  sidePots := []
  rakeCollected := 0

/-- Without room the stack of the winner wraps around, though the bets reach. -/
theorem fullStack_loses : fullStack.seats.Reaches ∧
    (fullStack.settleHand ⟨500, 30⟩ [(1, 7), (2, 4)]).seats.get 1 = some (shown 18 0 false) ∧
      ¬ fullStack.PaysAll ⟨500, 30⟩ [(1, 7), (2, 4)] := by
  decide +kernel

end Tables

end TexasPoker.PokerGame
