import Mathlib.Data.BitVec
import Mathlib.Tactic.Common

/-! # Bit masks as sets of indices

Insertion, removal, first member and size of the sets of indices a bit vector
encodes, each with its membership rule.
-/

namespace TexasPoker.Mask

variable {w : ℕ} {m m' : BitVec w} {i j : ℕ}

/-- The mask with the single member `i`. -/
def single (w i : ℕ) : BitVec w := BitVec.twoPow w i

/-- Whether `i` is a member. -/
abbrev mem (m : BitVec w) (i : ℕ) : Bool := m.getLsbD i

def insert (m : BitVec w) (i : ℕ) : BitVec w := m ||| single w i

def erase (m : BitVec w) (i : ℕ) : BitVec w := m &&& ~~~single w i

/-- Number of members. -/
def size (m : BitVec w) : ℕ := ((List.range w).filter fun i => mem m i).length

/-- Smallest member. -/
def first (m : BitVec w) : Option ℕ := (List.range w).find? fun i => mem m i

@[simp] theorem mem_zero : mem (0 : BitVec w) i = false := by simp [mem]

@[simp] theorem mem_single : mem (single w i) j = decide (j < w ∧ j = i) := by
  simp [mem, single, BitVec.getLsbD_twoPow, eq_comm]
  grind

@[simp] theorem mem_insert (hi : i < w) : mem (insert m i) j = (mem m j || decide (j = i)) := by
  rw [mem, insert, BitVec.getLsbD_or]
  have := mem_single (w := w) (i := i) (j := j)
  grind

@[simp] theorem mem_erase : mem (erase m i) j = (mem m j && decide (j ≠ i)) := by
  rw [mem, erase, BitVec.getLsbD_and, BitVec.getLsbD_not]
  have := mem_single (w := w) (i := i) (j := j)
  by_cases hj : j < w
  · grind
  · simp [hj, BitVec.getLsbD_of_ge m j (not_lt.mp hj)]

@[simp] theorem mem_or : mem (m ||| m') i = (mem m i || mem m' i) := BitVec.getLsbD_or

@[simp] theorem mem_and : mem (m &&& m') i = (mem m i && mem m' i) := BitVec.getLsbD_and

@[simp] theorem mem_and_not : mem (m &&& ~~~m') i = (mem m i && !mem m' i) := by
  by_cases hi : i < w
  · simp [mem, hi]
  · simp [mem, BitVec.getLsbD_of_ge m i (not_lt.mp hi)]

theorem lt_of_mem (h : mem m i = true) : i < w := BitVec.lt_of_getLsbD h

theorem ext_mem (h : ∀ i < w, mem m i = mem m' i) : m = m' :=
  BitVec.eq_of_getLsbD_eq h

theorem eq_zero_iff : m = 0 ↔ ∀ i, mem m i = false := by
  constructor
  · rintro rfl i
    exact mem_zero
  · intro h
    exact ext_mem fun i _ => by rw [h i, mem_zero]

theorem ne_zero_iff : m ≠ 0 ↔ ∃ i, mem m i = true := by
  rw [Ne, eq_zero_iff]
  simp

theorem mem_of_first (h : first m = some i) : mem m i = true := by
  simpa using List.find?_some h

theorem size_eq_zero_iff : size m = 0 ↔ m = 0 := by
  rw [size, List.length_eq_zero_iff, List.filter_eq_nil_iff, eq_zero_iff]
  constructor
  · intro h i
    by_cases hi : i < w
    · simpa using h i (List.mem_range.mpr hi)
    · exact Bool.eq_false_iff.mpr fun hm => hi (lt_of_mem hm)
  · intro h i _
    simp [h i]

theorem size_single (hi : i < w) : size (single w i) = 1 := by
  have hfilter : (List.range w).filter (fun j => mem (single w i) j) = [i] := by
    have hmem : ∀ j ∈ List.range w, mem (single w i) j = (j == i) := fun j hj => by
      rw [mem_single, Bool.eq_iff_iff]
      simp [List.mem_range.mp hj]
    rw [List.filter_congr hmem, List.filter_beq, List.count_eq_one_of_mem List.nodup_range
      (List.mem_range.mpr hi)]
    rfl
  rw [size, hfilter]
  rfl

/-- Every member of `m` is one of `m'`. -/
theorem and_not_eq_zero_iff : m &&& ~~~m' = 0 ↔ ∀ i, mem m i = true → mem m' i = true := by
  rw [eq_zero_iff]
  refine forall_congr' fun i => ?_
  rw [mem_and_not]
  cases mem m i <;> cases mem m' i <;> simp

/-- Inserting the indices of the entries with a property. -/
theorem mem_foldl_insert {α : Type} {p : α → Prop} [DecidablePred p] {index : α → ℕ} {l : List α}
    (hl : ∀ a ∈ l, p a → index a < w) :
    mem (l.foldl (fun m a => if p a then insert m (index a) else m) m) j = true ↔
      mem m j = true ∨ ∃ a ∈ l, p a ∧ j = index a := by
  induction l generalizing m with
  | nil => simp
  | cons a l ih =>
    rw [List.foldl_cons, ih fun b hb => hl b (List.mem_cons_of_mem a hb)]
    by_cases hp : p a
    · rw [if_pos hp, mem_insert (hl a List.mem_cons_self hp)]
      simp [hp, or_assoc]
    · simp [hp]

end TexasPoker.Mask
