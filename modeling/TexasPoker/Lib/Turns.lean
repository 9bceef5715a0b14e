import TexasPoker.Lib.Rotation

/-! # Turns

A turn passes clockwise among the indices able to act. While everybody able before an index that
owes an action owes one too, the turn always finds an index that owes one.
-/

namespace TexasPoker

/-- How far `i` is clockwise from `cur`. -/
def ahead (cur n i : ℕ) : ℕ := (i + n - cur) % n

variable {n cur next i j : ℕ}

theorem ahead_eq (hcur : cur < n) (hi : i < n) :
    ahead cur n i = if cur ≤ i then i - cur else i + n - cur := by
  unfold ahead
  split
  · rw [show i + n - cur = i - cur + n by omega, Nat.add_mod_right, Nat.mod_eq_of_lt (by omega)]
  · exact Nat.mod_eq_of_lt (by omega)

theorem lap_eq (hcur : cur < n) (hi : i < n) :
    lap cur n i = if cur < i then i - (cur + 1) else i + n - (cur + 1) := by
  unfold lap
  by_cases hlast : cur + 1 = n
  · rw [hlast, Nat.mod_self, Nat.sub_zero, Nat.add_mod_right, Nat.mod_eq_of_lt hi,
      if_neg (by omega), Nat.add_sub_cancel]
  · rw [Nat.mod_eq_of_lt (by omega : cur + 1 < n)]
    split
    · rw [show i + n - (cur + 1) = i - (cur + 1) + n by omega, Nat.add_mod_right,
        Nat.mod_eq_of_lt (by omega)]
    · exact Nat.mod_eq_of_lt (by omega)

/-- The first index found on a lap comes before every other. -/
theorem lap_le_of_find? {p : ℕ → Bool} (h : (rotation cur n).find? p = some next) (hj : j < n)
    (hp : p j = true) : lap cur n next ≤ lap cur n j := by
  obtain ⟨-, before, after, hsplit, hbefore⟩ := List.find?_eq_some_iff_append.mp h
  have hmem := (mem_rotation cur).mpr hj
  have hpairs := pairwise_rotation cur n
  rw [hsplit, List.mem_append, List.mem_cons] at hmem
  rw [hsplit] at hpairs
  rcases hmem with hmem | rfl | hmem
  · have := hbefore j hmem
    rw [hp] at this
    cases this
  · exact Nat.le_refl _
  · exact (List.rel_of_pairwise_cons (List.pairwise_append.mp hpairs).2.1 hmem).le

/-- The turn is with an index that owes an action, and everybody able before another that owes
one owes one too. -/
structure Due (n : ℕ) (able owes : ℕ → Bool) (cur : ℕ) : Prop where
  turn : owes cur = true
  before : ∀ i j, i < n → j < n → able i = true → owes j = true →
    ahead cur n i ≤ ahead cur n j → owes i = true

/-- The index with the turn has acted; the others are as before. -/
structure Passing (n : ℕ) (able owes : ℕ → Bool) (cur : ℕ) : Prop where
  done : owes cur = false
  before : ∀ i j, i < n → j < n → i ≠ cur → able i = true → owes j = true →
    ahead cur n i ≤ ahead cur n j → owes i = true

variable {able owes able' owes' : ℕ → Bool}

theorem Due.of_all (howes : owes cur = true) (hall : ∀ i < n, able i = true → owes i = true) :
    Due n able owes cur :=
  ⟨howes, fun i _ hi _ hable _ _ => hall i hi hable⟩

theorem Passing.of_all (hdone : owes cur = false)
    (hall : ∀ i < n, i ≠ cur → able i = true → owes i = true) : Passing n able owes cur :=
  ⟨hdone, fun i _ hi _ hne hable _ _ => hall i hi hne hable⟩

/-- Others may stop being able. -/
theorem Due.mono (h : Due n able owes cur) (hcur : owes' cur = true)
    (hable : ∀ i, able' i = true → able i = true ∧ (owes i = true → owes' i = true))
    (howes : ∀ i, owes' i = true → owes i = true) : Due n able' owes' cur where
  turn := hcur
  before i j hi hj hi' hj' hle :=
    (hable i hi').2 (h.before i j hi hj (hable i hi').1 (howes j hj') hle)

theorem Due.passing (h : Due n able owes cur) (hdone : owes' cur = false)
    (hable : ∀ i, i ≠ cur → able' i = true → able i = true ∧ (owes i = true → owes' i = true))
    (howes : ∀ i, owes' i = true → owes i = true) : Passing n able' owes' cur where
  done := hdone
  before i j hi hj hne hi' hj' hle :=
    (hable i hne hi').2 (h.before i j hi hj (hable i hne hi').1 (howes j hj') hle)

/-- The next index able to act owes an action while anybody does. -/
theorem Passing.pass (h : Passing n able owes cur) (hcur : cur < n)
    (hable : ∀ i < n, owes i = true → able i = true) (hj : j < n) (howes : owes j = true)
    (hnext : (rotation cur n).find? able = some next) : Due n able owes next := by
  have hlt : next < n := (mem_rotation cur).mp (List.mem_of_find?_eq_some hnext)
  have hne : ∀ k, owes k = true → k ≠ cur := by
    rintro k hk rfl
    rw [h.done] at hk
    cases hk
  -- every index able to act, but for the one that acted, is no nearer than the next
  have hfirst : ∀ k < n, k ≠ cur → able k = true →
      ahead cur n next ≤ ahead cur n k ∧ next ≠ cur := by
    intro k hk hkc hkable
    have hlap := lap_le_of_find? hnext hk hkable
    rw [lap_eq hcur hlt, lap_eq hcur hk] at hlap
    rw [ahead_eq hcur hlt, ahead_eq hcur hk]
    split_ifs at hlap ⊢ <;> omega
  have hj' := hfirst j hj (hne j howes) (hable j hj howes)
  have hnable : able next = true := List.find?_some hnext
  refine ⟨h.before next j hlt hj hj'.2 hnable howes hj'.1, fun i k hi hk hia hko hle => ?_⟩
  have hkc := hne k hko
  have hk' := hfirst k hk hkc (hable k hk hko)
  by_cases hic : i = cur
  · rw [hic, ahead_eq hlt hcur, ahead_eq hlt hk] at hle
    have hk'' := hk'.1
    rw [ahead_eq hcur hlt, ahead_eq hcur hk] at hk''
    split_ifs at hle hk'' <;> omega
  · refine h.before i k hi hk hic hia hko ?_
    have hi' := (hfirst i hi hic hia).1
    have hk'' := hk'.1
    rw [ahead_eq hcur hlt, ahead_eq hcur hi] at hi'
    rw [ahead_eq hcur hlt, ahead_eq hcur hk] at hk''
    rw [ahead_eq hlt hi, ahead_eq hlt hk] at hle
    rw [ahead_eq hcur hi, ahead_eq hcur hk]
    split_ifs at hi' hk'' hle ⊢ <;> omega

end TexasPoker
