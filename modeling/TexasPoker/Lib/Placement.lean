import Mathlib.Data.List.Count
import Mathlib.Data.List.Sort

/-! # Placement by rank

Writing the entries of a list at their ranks, the numbers of smaller entries, into an array
sorts the list.
-/

namespace TexasPoker.Placement

variable {α β : Type} [LinearOrder α] {l s : List α} {x y : α}

/-- The number of entries below `x`. -/
def rank (l : List α) (x : α) : ℕ := l.countP (· < x)

theorem rank_perm (h : l.Perm s) : rank l x = rank s x := h.countP_eq _

theorem rank_lt_length (hx : x ∈ l) : rank l x < l.length :=
  List.countP_lt_length_iff.mpr ⟨x, hx, by simp⟩

theorem rank_lt_rank (hx : x ∈ l) (h : x < y) : rank l x < rank l y := by
  induction l with
  | nil => cases hx
  | cons z l ih =>
    have hle : rank l x ≤ rank l y := by
      refine List.countP_mono_left fun z _ hz => ?_
      rw [decide_eq_true_eq] at hz ⊢
      exact hz.trans h
    have hz : (if z < x then 1 else 0) ≤ if z < y then 1 else 0 := by
      by_cases hzx : z < x
      · rw [if_pos hzx, if_pos (hzx.trans h)]
      · rw [if_neg hzx]
        exact Nat.zero_le _
    simp only [rank, List.countP_cons, decide_eq_true_eq] at *
    rcases List.mem_cons.mp hx with rfl | hx
    · rw [if_neg (lt_irrefl _), if_pos h]
      omega
    · have := ih hx
      omega

theorem rank_injOn : Set.InjOn (rank l) {x | x ∈ l} := by
  intro x hx y hy h
  by_contra hne
  rcases lt_or_gt_of_ne hne with hlt | hlt
  · exact (rank_lt_rank hx hlt).ne h
  · exact (rank_lt_rank hy hlt).ne' h

/-- In a sorted list the rank of an entry is its index. -/
theorem rank_getElem (hs : s.SortedLT) {i : ℕ} (hi : i < s.length) : rank s s[i] = i := by
  have hbelow : (s.take i).countP (· < s[i]) = (s.take i).length := by
    refine List.countP_eq_length.mpr fun y hy => ?_
    obtain ⟨k, hk, rfl⟩ := List.mem_take_iff_getElem.mp hy
    exact decide_eq_true (hs.getElem_lt_getElem_of_lt (by omega))
  have habove : (s.drop i).countP (· < s[i]) = 0 := by
    refine List.countP_eq_zero.mpr fun y hy => ?_
    obtain ⟨k, hk, rfl⟩ := List.mem_drop_iff_getElem.mp hy
    have : s[i] ≤ s[i + k] := hs.sortedLE.getElem_le_getElem_of_le (by omega)
    simpa using this
  calc rank s s[i] = (s.take i ++ s.drop i).countP (· < s[i]) := by
        rw [List.take_append_drop, rank]
    _ = i := by
        rw [List.countP_append, hbelow, habove, List.length_take]
        omega

/-! ## Writing into slots -/

section Slots

omit [LinearOrder α]

variable {pos : α → ℕ} {f : α → β} {slots : List β} {i : ℕ}

/-- Write every entry at its position. -/
def write (pos : α → ℕ) (f : α → β) (l : List α) (slots : List β) : List β :=
  l.foldl (fun slots x => slots.set (pos x) (f x)) slots

@[simp] theorem length_write : (write pos f l slots).length = slots.length := by
  induction l generalizing slots with
  | nil => rfl
  | cons x l ih => exact ih.trans List.length_set

theorem getElem?_write_of_ne (h : ∀ x ∈ l, pos x ≠ i) : (write pos f l slots)[i]? = slots[i]? := by
  induction l generalizing slots with
  | nil => rfl
  | cons x l ih =>
    refine (ih fun y hy => h y (List.mem_cons_of_mem x hy)).trans ?_
    exact List.getElem?_set_ne (h x List.mem_cons_self)

theorem getElem?_write (hinj : Set.InjOn pos {x | x ∈ l}) (hx : x ∈ l)
    (hpos : pos x < slots.length) : (write pos f l slots)[pos x]? = some (f x) := by
  induction l generalizing slots with
  | nil => cases hx
  | cons y l ih =>
    have hinj' : Set.InjOn pos {x | x ∈ l} :=
      hinj.mono fun z hz => List.mem_cons_of_mem y hz
    by_cases hl : x ∈ l
    · exact ih hinj' hl (by rwa [List.length_set])
    · obtain rfl := (List.mem_cons.mp hx).resolve_right hl
      have hne : ∀ z ∈ l, pos z ≠ pos x := by
        rintro z hz h
        rw [hinj (List.mem_cons_of_mem x hz) List.mem_cons_self h] at hz
        exact hl hz
      exact (getElem?_write_of_ne hne).trans (List.getElem?_set_self hpos)

end Slots

/-- Placement by rank sorts: the sorted entries come first, the other slots keep their
content. -/
theorem write_rank {f : α → β} {d : β} {n : ℕ} (hs : s.SortedLT) (hperm : l.Perm s)
    (hn : l.length ≤ n) :
    write (rank l) f l (List.replicate n d) = s.map f ++ List.replicate (n - l.length) d := by
  have hlen : s.length = l.length := hperm.length_eq.symm
  refine List.ext_getElem? fun i => ?_
  by_cases hi : i < s.length
  · have hmem : s[i] ∈ l := hperm.mem_iff.mpr (List.getElem_mem hi)
    have hrank : rank l s[i] = i := (rank_perm hperm).trans (rank_getElem hs hi)
    have hw : (write (rank l) f l (List.replicate n d))[rank l s[i]]? = some (f s[i]) :=
      getElem?_write rank_injOn hmem (by rw [List.length_replicate]; omega)
    rw [hrank] at hw
    rw [hw, List.getElem?_append_left (by rwa [List.length_map]), List.getElem?_map,
      List.getElem?_eq_getElem hi, Option.map_some]
  · have hne : ∀ x ∈ l, rank l x ≠ i := by
      intro x hx h
      have := rank_lt_length hx
      omega
    rw [getElem?_write_of_ne hne, List.getElem?_append_right (by rw [List.length_map]; omega),
      List.getElem?_replicate, List.getElem?_replicate, List.length_map]
    by_cases hin : i < n
    · rw [if_pos hin, if_pos (by omega)]
    · rw [if_neg hin, if_neg (by omega)]

end TexasPoker.Placement
