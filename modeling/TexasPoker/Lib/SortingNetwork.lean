import Mathlib.Data.List.Forall2
import Mathlib.Data.Bool.Basic
import Mathlib.Tactic.Common

/-! # Sorting networks

Comparators with fixed positions, over any weak order. A network that sorts all lists of
bits sorts all lists, and two sorters with a merger make a sorter of twice the size.
-/

namespace TexasPoker.SortingNetwork

variable {α : Type}

/-- A strict weak order. -/
structure StrictWeak (lt : α → α → Bool) : Prop where
  asymm : ∀ {a b}, lt a b = true → lt b a = false
  negTrans : ∀ {a b c}, lt a b = false → lt b c = false → lt a c = false

theorem StrictWeak.irrefl {lt : α → α → Bool} (h : StrictWeak lt) (a : α) : lt a a = false := by
  cases ha : lt a a with
  | false => rfl
  | true => exact ha.symm.trans (h.asymm ha)

/-- The order of bits. -/
def bitLt (a b : Bool) : Bool := !a && b

/-- Compare two positions and move the larger entry to the first. -/
def exchange (lt : α → α → Bool) (l : List α) (c : ℕ × ℕ) : List α :=
  if h : c.1 < l.length ∧ c.2 < l.length then
    if lt (l.get ⟨c.1, h.1⟩) (l.get ⟨c.2, h.2⟩) then
      (l.set c.1 (l.get ⟨c.2, h.2⟩)).set c.2 (l.get ⟨c.1, h.1⟩)
    else l
  else l

/-- Run the comparators in order. -/
def run (lt : α → α → Bool) (net : List (ℕ × ℕ)) (l : List α) : List α := net.foldl (exchange lt) l

/-- No entry is below a later one. -/
def Descending (lt : α → α → Bool) (l : List α) : Prop := l.Pairwise fun a b => lt a b = false

instance (l : List Bool) : Decidable (Descending bitLt l) :=
  inferInstanceAs (Decidable (l.Pairwise fun a b => bitLt a b = false))

variable {lt : α → α → Bool} {net net' : List (ℕ × ℕ)} {c : ℕ × ℕ} {l l' : List α}

@[simp] theorem length_exchange (l : List α) (c : ℕ × ℕ) : (exchange lt l c).length = l.length := by
  unfold exchange
  split
  · split <;> simp
  · rfl

@[simp] theorem length_run (net : List (ℕ × ℕ)) (l : List α) : (run lt net l).length = l.length := by
  induction net generalizing l with
  | nil => rfl
  | cons c net ih => exact (ih _).trans (length_exchange l c)

theorem run_append (net net' : List (ℕ × ℕ)) (l : List α) :
    run lt (net ++ net') l = run lt net' (run lt net l) := List.foldl_append

theorem perm_exchange (l : List α) (c : ℕ × ℕ) : (exchange lt l c).Perm l := by
  unfold exchange
  split
  · rename_i h
    split
    · exact List.set_set_perm h.1 h.2
    · exact .refl l
  · exact .refl l

theorem perm_run (net : List (ℕ × ℕ)) (l : List α) : (run lt net l).Perm l := by
  induction net generalizing l with
  | nil => exact .refl l
  | cons c net ih => exact (ih _).trans (perm_exchange l c)

/-! ## The zero-one principle -/

/-- Comparators commute with monotone bits. -/
theorem exchange_map {f : α → Bool} (hlt : ∀ a b, lt a b = true → f a ≤ f b)
    (hge : ∀ a b, lt a b = false → f b ≤ f a) (l : List α) (c : ℕ × ℕ) :
    (exchange lt l c).map f = exchange bitLt (l.map f) c := by
  unfold exchange
  by_cases h : c.1 < l.length ∧ c.2 < l.length
  swap
  · rw [dif_neg h, dif_neg (by simpa using h)]
  rw [dif_pos h, dif_pos (by simpa using h)]
  simp only [List.get_eq_getElem, List.getElem_map]
  cases hab : lt l[c.1] l[c.2] with
  | true =>
    have hle := hlt _ _ hab
    rw [if_pos rfl]
    by_cases hbit : bitLt (f l[c.1]) (f l[c.2]) = true
    · rw [if_pos hbit, List.map_set, List.map_set]
    · have heq : f l[c.1] = f l[c.2] := by
        revert hle hbit
        cases f l[c.1] <;> cases f l[c.2] <;> decide
      rw [if_neg hbit, List.map_set, List.map_set, heq]
      refine List.ext_getElem (by simp) fun k hk hk' => ?_
      simp only [List.getElem_set, List.getElem_map]
      split
      · rename_i hkc
        subst hkc
        rfl
      · split
        · rename_i hkc
          subst hkc
          exact heq.symm
        · rfl
  | false =>
    have hle := hge _ _ hab
    rw [if_neg Bool.false_ne_true, if_neg]
    revert hle
    cases f l[c.1] <;> cases f l[c.2] <;> decide

theorem run_map {f : α → Bool} (hlt : ∀ a b, lt a b = true → f a ≤ f b)
    (hge : ∀ a b, lt a b = false → f b ≤ f a) (net : List (ℕ × ℕ)) (l : List α) :
    (run lt net l).map f = run bitLt net (l.map f) := by
  induction net generalizing l with
  | nil => rfl
  | cons c net ih =>
    change (run lt net (exchange lt l c)).map f = run bitLt net (exchange bitLt (l.map f) c)
    rw [ih, exchange_map hlt hge]

/-- The network sorts every list of `n` bits. -/
def Sorts (net : List (ℕ × ℕ)) (n : ℕ) : Prop :=
  ∀ bits : List Bool, bits.length = n → Descending bitLt (run bitLt net bits)

/-- A network that sorts bits sorts. -/
theorem Sorts.descending (hw : StrictWeak lt) (h : Sorts net l.length) :
    Descending lt (run lt net l) := by
  refine List.pairwise_iff_getElem.mpr fun i j hi hj hij => ?_
  by_contra hbad
  rw [Bool.not_eq_false] at hbad
  set c := (run lt net l)[j] with hc
  let f : α → Bool := fun a => !lt a c
  have hlt (a b : α) (hab : lt a b = true) : f a ≤ f b := by
    by_contra hf
    have hfa : lt a c = false := by
      revert hf
      simp only [f]
      cases lt a c <;> cases lt b c <;> decide
    have hfb : lt b c = true := by
      revert hf
      simp only [f]
      cases lt a c <;> cases lt b c <;> decide
    rw [hw.negTrans hfa (hw.asymm hfb)] at hab
    cases hab
  have hge (a b : α) (hab : lt a b = false) : f b ≤ f a := by
    by_contra hf
    have hfb : lt b c = false := by
      revert hf
      simp only [f]
      cases lt a c <;> cases lt b c <;> decide
    have hfa : lt a c = true := by
      revert hf
      simp only [f]
      cases lt a c <;> cases lt b c <;> decide
    rw [hw.negTrans hab hfb] at hfa
    cases hfa
  have hbits := h (l.map f) (List.length_map f)
  rw [← run_map hlt hge] at hbits
  have hpair := List.pairwise_iff_getElem.mp hbits i j (by simpa using hi) (by simpa using hj) hij
  simp only [List.getElem_map, f, ← hc, hbad, hw.irrefl, bitLt] at hpair
  cases hpair

/-! ## Larger networks -/

/-- The same network further up. -/
def shift (k : ℕ) (net : List (ℕ × ℕ)) : List (ℕ × ℕ) := net.map fun c => (k + c.1, k + c.2)

theorem run_append_left (hnet : ∀ c ∈ net, c.1 < l.length ∧ c.2 < l.length) (r : List α) :
    run lt net (l ++ r) = run lt net l ++ r := by
  induction net generalizing l with
  | nil => rfl
  | cons c net ih =>
    rw [List.forall_mem_cons] at hnet
    have hc : exchange lt (l ++ r) c = exchange lt l c ++ r := by
      unfold exchange
      rw [dif_pos (by simp; omega), dif_pos hnet.1]
      simp only [List.get_eq_getElem, List.getElem_append_left hnet.1.1,
        List.getElem_append_left hnet.1.2]
      split
      · rw [List.set_append_left _ _ hnet.1.1, List.set_append_left _ _ (by simpa using hnet.1.2)]
      · rfl
    change run lt net (exchange lt (l ++ r) c) = run lt net (exchange lt l c) ++ r
    rw [hc]
    exact ih (by simpa using hnet.2)

theorem run_shift (net : List (ℕ × ℕ)) (l r : List α) :
    run lt (shift l.length net) (l ++ r) = l ++ run lt net r := by
  induction net generalizing r with
  | nil => rfl
  | cons c net ih =>
    have hc : exchange lt (l ++ r) (l.length + c.1, l.length + c.2) = l ++ exchange lt r c := by
      unfold exchange
      by_cases h : c.1 < r.length ∧ c.2 < r.length
      · rw [dif_pos (by simpa using h), dif_pos h]
        simp only [List.get_eq_getElem, List.getElem_append_right (Nat.le_add_right _ _),
          Nat.add_sub_cancel_left]
        split
        · rw [List.set_append_right _ _ (Nat.le_add_right _ _),
            List.set_append_right _ _ (Nat.le_add_right _ _)]
          simp only [Nat.add_sub_cancel_left]
        · rfl
      · rw [dif_neg (by simpa using h), dif_neg h]
    change run lt (shift l.length net) (exchange lt (l ++ r) (l.length + c.1, l.length + c.2)) =
      l ++ run lt net (exchange lt r c)
    rw [hc]
    exact ih _

/-- Descending bits are ones, then zeros. -/
theorem eq_replicate_of_descending {bits : List Bool} (h : Descending bitLt bits) :
    ∃ ones ≤ bits.length,
      bits = List.replicate ones true ++ List.replicate (bits.length - ones) false := by
  induction bits with
  | nil => exact ⟨0, Nat.zero_le _, rfl⟩
  | cons b bits ih =>
    obtain ⟨hb, hrest⟩ := List.pairwise_cons.mp h
    cases b with
    | true =>
      obtain ⟨ones, hle, heq⟩ := ih hrest
      refine ⟨ones + 1, Nat.succ_le_succ hle, ?_⟩
      rw [List.length_cons, Nat.add_sub_add_right, List.replicate_succ, List.cons_append, ← heq]
    | false =>
      refine ⟨0, Nat.zero_le _, ?_⟩
      have hzero : ∀ a ∈ bits, a = false := by
        intro a ha
        have := hb a ha
        cases a
        · rfl
        · cases this
      rw [List.eq_replicate_of_mem hzero]
      simp [List.replicate_succ]

/-- The network sorts two sorted halves of `n` bits each. -/
def Merges (net : List (ℕ × ℕ)) (n : ℕ) : Prop :=
  ∀ i ≤ n, ∀ j ≤ n, Descending bitLt (run bitLt net
    ((List.replicate i true ++ List.replicate (n - i) false) ++
      (List.replicate j true ++ List.replicate (n - j) false)))

instance (net : List (ℕ × ℕ)) (n : ℕ) : Decidable (Merges net n) :=
  inferInstanceAs (Decidable (∀ i ≤ n, ∀ j ≤ n, _))

theorem sorts_one : Sorts [] 1 := by
  intro bits hlen
  obtain ⟨b, rfl⟩ := List.length_eq_one_iff.mp hlen
  exact List.pairwise_singleton _ _

/-- Sort both halves and merge them. -/
theorem Sorts.double {merge : List (ℕ × ℕ)} {n : ℕ} (hin : ∀ c ∈ net, c.1 < n ∧ c.2 < n)
    (h : Sorts net n) (hm : Merges merge n) : Sorts (net ++ shift n net ++ merge) (n + n) := by
  intro bits hlen
  obtain ⟨l, r, rfl, hl, hr⟩ : ∃ l r, bits = l ++ r ∧ l.length = n ∧ r.length = n :=
    ⟨bits.take n, bits.drop n, (List.take_append_drop n bits).symm, by simp [hlen], by simp [hlen]⟩
  have hleft : run bitLt net (l ++ r) = run bitLt net l ++ r :=
    run_append_left (by simpa [hl] using hin) r
  have hright : run bitLt (shift n net) (run bitLt net l ++ r) =
      run bitLt net l ++ run bitLt net r := by
    rw [show n = (run bitLt net l).length by simp [hl]]
    exact run_shift net _ r
  obtain ⟨i, hi, heqi⟩ := eq_replicate_of_descending (h l hl)
  obtain ⟨j, hj, heqj⟩ := eq_replicate_of_descending (h r hr)
  rw [length_run, hl] at hi heqi
  rw [length_run, hr] at hj heqj
  rw [run_append, run_append, hleft, hright, heqi, heqj]
  exact hm i hi j hj

/-! ## Monotonicity -/

/-- Entry by entry, the first list is not above the second. -/
def Below (lt : α → α → Bool) : List α → List α → Prop := List.Forall₂ fun a b => lt b a = false

theorem Below.exchange (hw : StrictWeak lt) (h : Below lt l l') :
    Below lt (exchange lt l c) (exchange lt l' c) := by
  have hlen := h.length_eq
  have hget := (List.forall₂_iff_get.mp h).2
  unfold SortingNetwork.exchange
  by_cases hc : c.1 < l.length ∧ c.2 < l.length
  swap
  · rw [dif_neg hc, dif_neg (by rwa [← hlen])]
    exact h
  have hc' : c.1 < l'.length ∧ c.2 < l'.length := by rwa [← hlen]
  rw [dif_pos hc, dif_pos hc']
  have h₁ := hget c.1 hc.1 hc'.1
  have h₂ := hget c.2 hc.2 hc'.2
  simp only [List.get_eq_getElem] at h₁ h₂ hget ⊢
  have hswap (a b a' b' : α) (ha : lt a' a = false) (hb : lt b' b = false) :
      (lt a b = true → lt a' b' = false → lt a' b = false ∧ lt b' a = false) ∧
        (lt a b = false → lt a' b' = true → lt b' a = false ∧ lt a' b = false) := by
    refine ⟨fun hab hab' => ⟨hw.negTrans hab' hb, ?_⟩, fun hab hab' => ⟨?_, hw.negTrans ha hab⟩⟩
    · exact hw.negTrans hb (hw.asymm hab)
    · exact hw.negTrans (hw.asymm hab') ha
  obtain ⟨hs₁, hs₂⟩ := hswap _ _ _ _ h₁ h₂
  -- Either list may swap; the greater entry of the first is never above that of the second.
  by_cases hab : lt l[c.1] l[c.2] = true <;> by_cases hab' : lt l'[c.1] l'[c.2] = true <;>
    simp only [hab, hab', if_true, if_false, Bool.false_eq_true]
  all_goals
    refine List.forall₂_iff_get.mpr ⟨by simp [hlen], fun k hk hk' => ?_⟩
    have hk₀ := hget k (by simpa using hk) (by simpa using hk')
    simp only [List.get_eq_getElem, List.getElem_set]
    grind

theorem Below.run (hw : StrictWeak lt) (net : List (ℕ × ℕ)) (h : Below lt l l') :
    Below lt (run lt net l) (run lt net l') := by
  induction net generalizing l l' with
  | nil => exact h
  | cons c net ih => exact ih (h.exchange hw)

end TexasPoker.SortingNetwork
