import Mathlib.Tactic.Common
import Mathlib.Tactic.Push

/-! # Binary hash trees

The hash of a complete binary tree whose leaves are addressed by keys of fixed bit length,
and the hash at the top of a path of siblings. A path along true siblings climbs to the tree's
hash, and with an injective node hash no other path does.
-/

namespace TexasPoker

universe u v

/-- Keys of `n` bits; bit zero decides at the top of the tree. -/
class BitKey (K : Type u) (n : outParam ℕ) where
  bit : K → ℕ → Bool
  set : K → ℕ → Bool → K
  bit_set : ∀ {k : K} {i j : ℕ} {b : Bool}, i < n → j < n →
    bit (set k i b) j = if j = i then b else bit k j
  ext : ∀ {k k' : K}, (∀ i < n, bit k i = bit k' i) → k = k'

namespace BitKey

variable {K : Type u} {n h i : ℕ} [BitKey K n] {k k' k'' : K}

/-- The key with one bit changed. -/
def flip (k : K) (i : ℕ) : K := set k i (!bit k i)

/-- The keys lie in the same subtree of height `h`. -/
def Agree (n : ℕ) [BitKey K n] (h : ℕ) (k k' : K) : Prop := ∀ i, i + h < n → bit k i = bit k' i

theorem bit_flip {j : ℕ} (hi : i < n) (hj : j < n) :
    bit (flip k i) j = if j = i then !bit k i else bit k j :=
  bit_set hi hj

theorem Agree.refl (k : K) : Agree n h k k := fun _ _ => rfl

theorem Agree.symm (hk : Agree n h k k') : Agree n h k' k := fun i hi => (hk i hi).symm

theorem Agree.trans (hk : Agree n h k k') (hk' : Agree n h k' k'') : Agree n h k k'' :=
  fun i hi => (hk i hi).trans (hk' i hi)

theorem Agree.mono {h' : ℕ} (hk : Agree n h k k') (hle : h ≤ h') : Agree n h' k k' :=
  fun i hi => hk i (by omega)

theorem agree_zero_iff : Agree n 0 k k' ↔ k = k' := by
  constructor
  · intro h
    exact ext h
  · rintro rfl
    exact .refl k

theorem agree_set {b : Bool} (hi : i < n) (hh : n ≤ i + h) : Agree n h (set k i b) k := by
  intro j hj
  rw [bit_set hi (by omega), if_neg (by omega)]

theorem Agree.set {b : Bool} (hk : Agree n (h + 1) k k') (hi : i + h + 1 = n) :
    Agree n h (set k i b) (BitKey.set k' i b) := by
  intro j hj
  rw [bit_set (by omega) (by omega), bit_set (by omega) (by omega)]
  split
  · rfl
  · exact hk j (by omega)

theorem set_bit (hi : i < n) : set k i (bit k i) = k := by
  apply ext
  intro j hj
  rw [bit_set hi hj]
  split
  · rename_i hji
    rw [hji]
  · rfl

theorem flip_ne (hi : i < n) : flip k i ≠ k := by
  intro h
  have hb := bit_flip (k := k) hi hi
  rw [h, if_pos rfl] at hb
  exact absurd hb (by simp)

theorem flip_flip (hi : i < n) : flip (flip k i) i = k := by
  apply ext
  intro j hj
  rw [bit_flip hi hj, bit_flip hi hi, bit_flip hi hj]
  by_cases hji : j = i
  · subst hji
    simp
  · rw [if_neg hji, if_neg hji]

/-- Flipping the deciding bit leaves the subtree. -/
theorem not_agree_flip (hi : i + h + 1 = n) : ¬ Agree n h (flip k i) k := by
  intro hk
  have := hk i (by omega)
  rw [bit_flip (by omega) (by omega), if_pos rfl] at this
  exact absurd this (by simp)

theorem agree_flip (hi : i < n) (hh : n ≤ i + h) : Agree n h (flip k i) k := agree_set hi hh

end BitKey

namespace HashTree

open BitKey

variable {K : Type u} {D : Type v} {n : ℕ} [BitKey K n] (node : D → D → D)

/-- Join a hash with its sibling; the bit tells that the hash is on the right. -/
def join (bit : Bool) (current sibling : D) : D :=
  if bit then node sibling current else node current sibling

/-- The hash of the subtree of height `h` around a key. -/
def subtree (leaf : K → D) : ℕ → K → D
  | 0, k => leaf k
  | h + 1, k => node (subtree leaf h (set k (n - 1 - h) false)) (subtree leaf h (set k (n - 1 - h) true))

/-- The hash of an empty subtree of height `h`. -/
def uniform (empty : D) : ℕ → D
  | 0 => empty
  | h + 1 => node (uniform empty h) (uniform empty h)

/-- The hash after `h` levels of a path of siblings. -/
def climb (key : K) (sibling : ℕ → D) (current : D) : ℕ → D
  | 0 => current
  | h + 1 => join node (bit key (n - 1 - h)) (climb key sibling current h) (sibling h)

variable {node} {leaf leaf' : K → D} {k k' : K} {h : ℕ}

theorem subtree_congr_key (hn : h ≤ n) (hk : Agree n h k k') :
    subtree node leaf h k = subtree node leaf h k' := by
  induction h generalizing k k' with
  | zero => rw [agree_zero_iff.mp hk]
  | succ h ih =>
    rw [subtree, subtree, ih (by omega) (hk.set (by omega)), ih (by omega) (hk.set (by omega))]

theorem subtree_congr_leaf (hn : h ≤ n) (hl : ∀ k', Agree n h k' k → leaf k' = leaf' k') :
    subtree node leaf h k = subtree node leaf' h k := by
  induction h generalizing k with
  | zero => exact hl k (.refl k)
  | succ h ih =>
    have hset (b : Bool) : subtree node leaf h (set k (n - 1 - h) b) =
        subtree node leaf' h (set k (n - 1 - h) b) := by
      apply ih (by omega)
      intro k' hk'
      exact hl k' ((hk'.mono (Nat.le_succ h)).trans (agree_set (by omega) (by omega)))
    rw [subtree, subtree, hset, hset]

/-- A subtree is the join of the half around the key with the other half. -/
theorem subtree_succ (hn : h < n) : subtree node leaf (h + 1) k =
    join node (bit k (n - 1 - h)) (subtree node leaf h k) (subtree node leaf h (flip k (n - 1 - h))) := by
  have hself : set k (n - 1 - h) (bit k (n - 1 - h)) = k := set_bit (by omega)
  unfold BitKey.flip
  rw [subtree, join]
  cases hb : bit k (n - 1 - h) with
  | false => rw [hb] at hself; rw [hself]; rfl
  | true => rw [hb] at hself; rw [hself]; rfl

theorem subtree_const (empty : D) :
    subtree node (fun _ : K => empty) h k = uniform node empty h := by
  induction h generalizing k with
  | zero => rfl
  | succ h ih => rw [subtree, ih, ih, uniform]

/-- A path along the true siblings climbs to the subtree. -/
theorem climb_eq_subtree (leaf : K → D) {sibling : ℕ → D} (hn : h ≤ n)
    (hs : ∀ j < h, sibling j = subtree node leaf j (flip k (n - 1 - j))) :
    climb node k sibling (leaf k) h = subtree node leaf h k := by
  induction h with
  | zero => rfl
  | succ h ih =>
    rw [climb, ih (by omega) (fun j hj => hs j (by omega)), hs h (Nat.lt_succ_self h),
      subtree_succ (by omega)]

/-! ## Injective hashes -/

theorem join_inj (hnode : ∀ {a b a' b' : D}, node a b = node a' b' → a = a' ∧ b = b') {b : Bool}
    {x y x' y' : D} (hj : join node b x y = join node b x' y') : x = x' ∧ y = y' := by
  cases b with
  | false => exact hnode hj
  | true => exact (hnode hj).symm

theorem climb_inj (hnode : ∀ {a b a' b' : D}, node a b = node a' b' → a = a' ∧ b = b')
    {sibling sibling' : ℕ → D} {a a' : D}
    (hc : climb node k sibling a h = climb node k sibling' a' h) :
    a = a' ∧ ∀ j < h, sibling j = sibling' j := by
  induction h with
  | zero => exact ⟨hc, fun j hj => absurd hj (Nat.not_lt_zero j)⟩
  | succ h ih =>
    obtain ⟨hc, hs⟩ := join_inj hnode hc
    obtain ⟨ha, hsib⟩ := ih hc
    refine ⟨ha, fun j hj => ?_⟩
    rcases Nat.lt_succ_iff_lt_or_eq.mp hj with hlt | rfl
    · exact hsib j hlt
    · exact hs

/-- Equal trees have equal leaves. -/
theorem subtree_inj (hnode : ∀ {a b a' b' : D}, node a b = node a' b' → a = a' ∧ b = b')
    (hn : h ≤ n) (hs : subtree node leaf h k = subtree node leaf' h k) :
    ∀ k', Agree n h k' k → leaf k' = leaf' k' := by
  induction h generalizing k with
  | zero =>
    intro k' hk'
    rw [agree_zero_iff.mp hk']
    exact hs
  | succ h ih =>
    intro k' hk'
    have hhalf (b : Bool) : subtree node leaf h (set k (n - 1 - h) b) =
        subtree node leaf' h (set k (n - 1 - h) b) := by
      cases b with
      | false => exact (hnode hs).1
      | true => exact (hnode hs).2
    apply ih (by omega) (hhalf (bit k' (n - 1 - h)))
    have hself : set k' (n - 1 - h) (bit k' (n - 1 - h)) = k' := set_bit (by omega)
    have hset := hk'.set (i := n - 1 - h) (b := bit k' (n - 1 - h)) (by omega)
    rwa [hself] at hset

end HashTree

end TexasPoker
