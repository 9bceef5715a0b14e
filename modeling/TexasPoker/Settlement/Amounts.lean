import Mathlib.Algebra.BigOperators.Fin
import Mathlib.Algebra.Order.BigOperators.Group.Finset
import Mathlib.Algebra.Order.Group.Nat
import TexasPoker.Lib.Rotation
import TexasPoker.Settlement.Derive

/-! # Seat amounts

Sums of seat amounts, and the equal split of an amount among winners: every chip is paid,
and only to winners.
-/

namespace TexasPoker

namespace SeatAmounts

variable {a b : SeatAmounts} {seat amount : ℕ} {e : PokerL1Error}

/-- The sum over all seats. -/
def sum (a : SeatAmounts) : ℕ := ∑ i, a i

@[simp] theorem sum_zero : zero.sum = 0 := by simp [sum, zero]

theorem sum_add : sum (fun i => a i + b i) = a.sum + b.sum :=
  Finset.sum_add_distrib

theorem le_sum (a : SeatAmounts) (i : Fin maxSeats) : a i ≤ a.sum :=
  Finset.single_le_sum (fun _ _ => Nat.zero_le _) (Finset.mem_univ i)

theorem total_eq_ok {n : ℕ} : a.total e = .ok n ↔ a.sum ≤ u64Max ∧ n = a.sum := by
  rw [total, Fallible.checkedSum_eq_ok, List.sum_ofFn, sum]

theorem put_of_ne {i : Fin maxSeats} (h : i.1 ≠ seat) : a.put seat amount i = a i := if_neg h

theorem sum_put (amount : ℕ) (i : Fin maxSeats) (h : a i = 0) : (a.put i amount).sum = a.sum + amount := by
  have hput : a.put i amount = Function.update a i amount := by
    funext j
    by_cases hj : j = i
    · subst hj
      simp [put]
    · rw [put_of_ne fun h => hj (Fin.ext h), Function.update_of_ne hj]
  have hupd := Finset.sum_update_of_mem (Finset.mem_univ i) a amount
  have herase := Finset.add_sum_erase Finset.univ a (Finset.mem_univ i)
  rw [Finset.sdiff_singleton_eq_erase] at hupd
  rw [hput, sum, sum]
  omega

/-- Overwrite several seats. -/
def putAll (a : SeatAmounts) (entries : List (ℕ × ℕ)) : SeatAmounts :=
  entries.foldl (fun a e => a.put e.1 e.2) a

theorem putAll_of_not_mem {entries : List (ℕ × ℕ)} {i : Fin maxSeats}
    (h : i.1 ∉ entries.map Prod.fst) : a.putAll entries i = a i := by
  induction entries generalizing a with
  | nil => rfl
  | cons e es ih =>
    simp only [List.map_cons, List.mem_cons, not_or] at h
    change (a.put e.1 e.2).putAll es i = a i
    rw [ih h.2, put_of_ne h.1]

theorem sum_putAll {entries : List (ℕ × ℕ)} (hnd : (entries.map Prod.fst).Nodup)
    (hlt : ∀ s ∈ entries.map Prod.fst, s < maxSeats)
    (hz : ∀ i : Fin maxSeats, i.1 ∈ entries.map Prod.fst → a i = 0) :
    (a.putAll entries).sum = a.sum + (entries.map Prod.snd).sum := by
  induction entries generalizing a with
  | nil => simp [putAll]
  | cons e es ih =>
    simp only [List.map_cons, List.nodup_cons, List.mem_cons, forall_eq_or_imp] at hnd hlt hz
    change ((a.put e.1 e.2).putAll es).sum = _
    have hput := sum_put e.2 ⟨e.1, hlt.1⟩ (hz ⟨e.1, hlt.1⟩ (.inl rfl))
    rw [ih hnd.2 hlt.2 fun i hi => ?_]
    · simp only [List.map_cons, List.sum_cons] at hput ⊢
      omega
    · rw [put_of_ne fun h => hnd.1 (by rwa [← h])]
      exact hz i (.inr hi)

end SeatAmounts

/-! ## Equal shares -/

/-- The share of the `k`-th of `n` winners. -/
def shareOf (amount n k : ℕ) : ℕ := amount / n + if k < amount % n then 1 else 0

/-- The shares add up to the amount. -/
theorem sum_shareOf {amount n : ℕ} (hn : 0 < n) :
    ((List.range n).map (shareOf amount n)).sum = amount := by
  have hcount : ∀ m r, ((List.range m).map fun k => if k < r then 1 else 0).sum = min m r := by
    intro m r
    induction m with
    | zero => simp
    | succ m ih =>
      rw [List.range_succ, List.map_append, List.sum_append, ih]
      simp only [List.map_cons, List.map_nil, List.sum_singleton]
      split <;> omega
  have hr : amount % n < n := Nat.mod_lt _ hn
  have hd := Nat.div_add_mod amount n
  change ((List.range n).map fun k => amount / n + if k < amount % n then 1 else 0).sum = amount
  rw [List.sum_map_add, hcount, List.map_const', List.sum_replicate, List.length_range, smul_eq_mul]
  omega

theorem mem_orderedWinners {mask : SeatMask} (button : ℕ) {n seat : ℕ} :
    seat ∈ orderedWinners mask button n ↔ seat < n ∧ Mask.mem mask seat = true := by
  rw [← mem_rotation button]
  exact List.mem_filter

theorem nodup_orderedWinners {mask : SeatMask} {button n : ℕ} :
    (orderedWinners mask button n).Nodup := (nodup_rotation button).filter _

section Split

variable {amount button n : ℕ} {mask : SeatMask}

/-- The awards of an equal split. -/
def equalSplit (amount : ℕ) (mask : SeatMask) (button n : ℕ) : SeatAmounts :=
  SeatAmounts.zero.putAll ((orderedWinners mask button n).zipIdx.map fun e =>
    (e.1, shareOf amount (orderedWinners mask button n).length e.2))

/-- A split succeeds exactly when some winner has a seat. -/
theorem splitAmongWinners_eq_ok {awards : SeatAmounts} :
    splitAmongWinners amount mask button n = .ok awards ↔
      (∃ w < n, Mask.mem mask w = true) ∧ awards = equalSplit amount mask button n := by
  have hne : orderedWinners mask button n ≠ [] ↔ ∃ w < n, Mask.mem mask w = true := by
    constructor
    · intro h
      obtain ⟨w, hw⟩ := List.exists_mem_of_ne_nil _ h
      exact ⟨w, (mem_orderedWinners _).mp hw⟩
    · rintro ⟨w, hw⟩
      exact List.ne_nil_of_mem ((mem_orderedWinners _).mpr hw)
  rw [splitAmongWinners, Fallible.bind_eq_ok, ← hne]
  simp only [Fallible.ensure_eq_ok, Fallible.pure_eq_ok, exists_const]
  rw [equalSplit, SeatAmounts.putAll, List.foldl_map, eq_comm (a := awards)]
  rfl

theorem sum_equalSplit (hn : n ≤ maxSeats) (hw : ∃ w < n, Mask.mem mask w = true) :
    (equalSplit amount mask button n).sum = amount := by
  obtain ⟨w, hw⟩ := hw
  have hlen : 0 < (orderedWinners mask button n).length :=
    List.length_pos_of_mem ((mem_orderedWinners _).mpr hw)
  have hfst : ((orderedWinners mask button n).zipIdx.map fun e =>
      (e.1, shareOf amount (orderedWinners mask button n).length e.2)).map Prod.fst =
        orderedWinners mask button n := by
    rw [List.map_map]
    exact List.zipIdx_map_fst 0 _
  have hsnd : ((orderedWinners mask button n).zipIdx.map fun e =>
      (e.1, shareOf amount (orderedWinners mask button n).length e.2)).map Prod.snd =
        (List.range (orderedWinners mask button n).length).map
          (shareOf amount (orderedWinners mask button n).length) := by
    rw [List.map_map, List.range_eq_range', ← List.zipIdx_map_snd 0 (orderedWinners mask button n),
      List.map_map]
    rfl
  rw [equalSplit, SeatAmounts.sum_putAll, hsnd, sum_shareOf hlen, SeatAmounts.sum_zero,
    Nat.zero_add]
  · rw [hfst]
    exact nodup_orderedWinners
  · rw [hfst]
    exact fun s hs => ((mem_orderedWinners _).mp hs).1.trans_le hn
  · exact fun i _ => rfl

/-- Only winners with a seat are paid. -/
theorem mem_of_equalSplit {i : Fin maxSeats} (h : equalSplit amount mask button n i ≠ 0) :
    i.1 < n ∧ Mask.mem mask i = true := by
  rw [← mem_orderedWinners button]
  by_contra hn
  refine h (SeatAmounts.putAll_of_not_mem ?_)
  rwa [List.map_map, show ((Prod.fst ∘ fun e : ℕ × ℕ =>
    (e.1, shareOf amount (orderedWinners mask button n).length e.2))) = Prod.fst from rfl,
    List.zipIdx_map_fst]

end Split

/-- Both halves make up the amount. -/
theorem sum_splitAcrossRunouts (amount count : ℕ) :
    splitAcrossRunouts amount count 0 + splitAcrossRunouts amount count 1 = amount := by
  unfold splitAcrossRunouts
  split
  · simp
  · simp
    omega

end TexasPoker
