import Mathlib.Data.Int.ModEq
import Mathlib.Data.List.Nodup
import Mathlib.Tactic.Common

/-! # Rotations

The indices below `n` in clockwise order from the one after a start.
-/

namespace TexasPoker

/-- `start + 1`, ..., `start + n` modulo `n`. -/
def rotation (start n : ℕ) : List ℕ := (List.range' 1 n).map fun offset => (start + offset) % n

variable {start n i : ℕ}

theorem length_rotation : (rotation start n).length = n := by simp [rotation]

theorem mem_rotation (start : ℕ) : i ∈ rotation start n ↔ i < n := by
  simp only [rotation, List.mem_map, List.mem_range'_1]
  constructor
  · rintro ⟨o, ho, rfl⟩
    exact Nat.mod_lt _ (by omega)
  · intro hi
    have hs : start % n < n := Nat.mod_lt _ (by omega)
    by_cases h : start % n < i
    · refine ⟨i - start % n, by omega, ?_⟩
      rw [Nat.add_mod, Nat.mod_eq_of_lt (by omega : i - start % n < n),
        ← Nat.add_sub_assoc (by omega : start % n ≤ i),
        Nat.add_sub_cancel_left, Nat.mod_eq_of_lt hi]
    · refine ⟨i + n - start % n, by omega, ?_⟩
      have hmod : start = n * (start / n) + start % n := (Nat.div_add_mod start n).symm
      have : start + (i + n - start % n) = i + n * (start / n + 1) := by
        rw [Nat.mul_add, Nat.mul_one]
        omega
      rw [this, Nat.add_mul_mod_self_left, Nat.mod_eq_of_lt hi]

theorem nodup_rotation (start : ℕ) : (rotation start n).Nodup := by
  refine List.Nodup.map_on (fun a ha b hb h => ?_) List.nodup_range'
  rw [List.mem_range'_1] at ha hb
  have h' : a % n = b % n := Nat.ModEq.add_left_cancel' start h
  have ha' := Nat.div_add_mod a n
  have hb' := Nat.div_add_mod b n
  by_cases han : a = n
  · subst han
    rw [Nat.mod_self] at h'
    by_contra hne
    have : b % a = b := Nat.mod_eq_of_lt (by omega)
    omega
  · have ham : a % n = a := Nat.mod_eq_of_lt (by omega)
    by_cases hbn : b = n
    · subst hbn
      rw [Nat.mod_self] at h'
      omega
    · have hbm : b % n = b := Nat.mod_eq_of_lt (by omega)
      omega

/-- A rotation comes back to its start last. -/
theorem exists_rotation_eq_append (h : start < n) :
    ∃ before, rotation start n = before ++ [start] ∧ start ∉ before := by
  obtain ⟨m, rfl⟩ := Nat.exists_eq_add_one_of_ne_zero (Nat.ne_zero_of_lt h)
  have hlast : (start + (1 + m)) % (m + 1) = start := by
    rw [Nat.add_comm 1 m, Nat.add_mod_right, Nat.mod_eq_of_lt h]
  have hsplit : rotation start (m + 1) =
      ((List.range' 1 m).map fun offset => (start + offset) % (m + 1)) ++ [start] := by
    rw [rotation, List.range'_1_concat, List.map_append, List.map_singleton, hlast]
  refine ⟨_, hsplit, fun hmem => ?_⟩
  have hnodup := nodup_rotation (n := m + 1) start
  rw [hsplit, List.nodup_append] at hnodup
  exact hnodup.2.2 start hmem start (by simp) rfl

/-- How many indices stand between the start and `i`. -/
def lap (start n i : ℕ) : ℕ := (i + n - (start + 1) % n) % n

theorem lap_offset {o : ℕ} (h₁ : 1 ≤ o) (h : o ≤ n) : lap start n ((start + o) % n) = o - 1 := by
  have hn : 0 < n := h₁.trans h
  have hs : (start + 1) % n < n := Nat.mod_lt _ hn
  refine Nat.ModEq.eq_of_lt_of_lt (?_ : _ ≡ _ [MOD n]) (Nat.mod_lt _ hn) (by omega)
  refine Nat.ModEq.add_right_cancel' (start + 1) ?_
  calc lap start n ((start + o) % n) + (start + 1)
      ≡ ((start + o) % n + n - (start + 1) % n) + (start + 1) % n [MOD n] :=
        (Nat.mod_modEq _ _).add (Nat.mod_modEq _ _).symm
    _ = (start + o) % n + n := Nat.sub_add_cancel (by omega)
    _ ≡ start + o [MOD n] := by
      rw [Nat.ModEq, Nat.add_mod_right]
      exact Nat.mod_mod _ _
    _ = o - 1 + (start + 1) := by omega

/-- A rotation runs through the laps. -/
theorem pairwise_rotation (start n : ℕ) :
    (rotation start n).Pairwise fun i j => lap start n i < lap start n j := by
  have hlt : (List.range' 1 n).Pairwise (· < ·) := List.pairwise_lt_range'
  refine List.pairwise_map.mpr (hlt.imp_of_mem fun {o o'} ho ho' h => ?_)
  rw [List.mem_range'_1] at ho ho'
  rw [lap_offset ho.1 (by omega), lap_offset ho'.1 (by omega)]
  omega

/-! ## Clockwise order -/

section Clockwise

variable {α β : Type*} [LinearOrder α] [LinearOrder β]

/-- The elements after a start, and then those up to it. -/
def clockwise (l : List α) (start : α) : List α :=
  l.filter (start < ·) ++ l.filter (· ≤ start)

@[simp] theorem mem_clockwise {l : List α} {start a : α} : a ∈ clockwise l start ↔ a ∈ l := by
  simp only [clockwise, List.mem_append, List.mem_filter, decide_eq_true_eq, ← and_or_left]
  exact and_iff_left (lt_or_ge _ _)

theorem filter_clockwise {l : List α} {start : α} {p : α → Bool} :
    (clockwise l start).filter p = clockwise (l.filter p) start := by
  rw [clockwise, clockwise, List.filter_append]
  congr 1 <;> simp only [List.filter_filter, Bool.and_comm]

/-- Starts with the same elements behind them give the same order. -/
theorem clockwise_congr {l : List α} {start start' : α}
    (h : ∀ a ∈ l, start < a ↔ start' < a) : clockwise l start = clockwise l start' := by
  have hle (a : α) (ha : a ∈ l) : a ≤ start ↔ a ≤ start' := by
    rw [← not_lt, ← not_lt, h a ha]
  rw [clockwise, clockwise]
  congr 1
  · exact List.filter_congr fun a ha => by simp [h a ha]
  · exact List.filter_congr fun a ha => by simp [hle a ha]

theorem clockwise_of_forall_lt {l : List α} {start : α} (h : ∀ a ∈ l, start < a) :
    clockwise l start = l := by
  rw [clockwise, List.filter_eq_self.mpr fun a ha => by simpa using h a ha,
    List.filter_eq_nil_iff.mpr fun a ha => by simpa using h a ha, List.append_nil]

theorem clockwise_of_forall_le {l : List α} {start : α} (h : ∀ a ∈ l, a ≤ start) :
    clockwise l start = l := by
  rw [clockwise, List.filter_eq_nil_iff.mpr fun a ha => by simpa using h a ha,
    List.filter_eq_self.mpr fun a ha => by simpa using h a ha, List.nil_append]

/-- An order preserving renumbering of the elements renumbers their clockwise order. -/
theorem clockwise_map {l : List α} {start : α} {f : α → β}
    (hf : ∀ a ∈ l, f start < f a ↔ start < a) :
    clockwise (l.map f) (f start) = (clockwise l start).map f := by
  have hle (a : α) (ha : a ∈ l) : f a ≤ f start ↔ a ≤ start := by
    rw [← not_lt, ← not_lt, hf a ha]
  rw [clockwise, clockwise, List.map_append, List.filter_map, List.filter_map]
  congr 2
  · exact List.filter_congr fun a ha => by simp [hf a ha]
  · exact List.filter_congr fun a ha => by simp [hle a ha]

end Clockwise

/-- The clockwise order of the first indices is one lap around them. -/
theorem clockwise_range {k : ℕ} : clockwise (List.range (start + 1 + k)) start =
    List.range' (start + 1) k ++ List.range (start + 1) := by
  have hlow : ∀ i ∈ List.range (start + 1), i ≤ start := by
    intro i hi
    exact Nat.lt_succ_iff.mp (List.mem_range.mp hi)
  have hhigh : ∀ i ∈ List.range' (start + 1) k, start < i := by
    intro i hi
    exact (List.mem_range'_1.mp hi).1
  have hsplit : List.range (start + 1 + k) =
      List.range (start + 1) ++ List.range' (start + 1) k := by
    rw [List.range_eq_range', List.range_eq_range', ← List.range'_append_1, Nat.zero_add]
  rw [clockwise, hsplit, List.filter_append, List.filter_append,
    List.filter_eq_nil_iff.mpr fun i hi => by simpa using hlow i hi,
    List.filter_eq_self.mpr fun i hi => by simpa using hhigh i hi,
    List.filter_eq_self.mpr fun i hi => by simpa using hlow i hi,
    List.filter_eq_nil_iff.mpr fun i hi => by simpa using hhigh i hi, List.nil_append,
    List.append_nil]

/-- A rotation of the indices is their clockwise order. -/
theorem rotation_eq_clockwise (h : start < n) :
    rotation start n = clockwise (List.range n) start := by
  obtain ⟨k, rfl⟩ := Nat.exists_eq_add_of_le (Nat.succ_le_of_lt h)
  rw [clockwise_range, rotation, Nat.add_comm (start + 1) k, ← List.range'_append_1,
    List.map_append]
  congr 1
  · refine List.ext_getElem (by simp) fun i hi _ => ?_
    simp only [List.length_map, List.length_range'] at hi
    simp only [List.getElem_map, List.getElem_range']
    rw [Nat.mod_eq_of_lt (by omega)]
    omega
  · refine List.ext_getElem (by simp) fun i hi _ => ?_
    simp only [List.length_map, List.length_range'] at hi
    simp only [List.getElem_map, List.getElem_range', List.getElem_range]
    rw [show start + (1 + k + 1 * i) = k + (start + 1) + i by omega, Nat.add_mod_left,
      Nat.mod_eq_of_lt (by omega)]

end TexasPoker
