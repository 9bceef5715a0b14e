import TexasPoker.Lib.HashTree
import TexasPoker.ObjectModel.Smt

/-! # The tree behind the cache

The cache always represents the hash tree of some leaves. An operation writes its own leaf and,
since no leaf is ever cached, empties the sibling leaf.
-/

namespace TexasPoker.Smt

open BitKey HashTree

variable {D : Type} {H : Hashing D} {key k k' : Key} {h i j : ℕ}

/-! ## Bits of keys -/

theorem getLsbD_single : ∀ s < 8, ∀ t < 8, (1#8 <<< s).getLsbD t = decide (t = s) := by decide

theorem getLsbD_highMask : ∀ p < 8, ∀ t < 8,
    (~~~((1#8 <<< p) - 1)).getLsbD t = decide (p ≤ t) := by decide

theorem byteOf_val (hi : i < treeDepth) : (byteOf i).1 = i / 8 :=
  Nat.mod_eq_of_lt (Nat.div_lt_of_lt_mul hi)

theorem getBit_flipBit (hi : i < treeDepth) (hj : j < treeDepth) :
    getBit (flipBit k i) j = if j = i then !getBit k i else getBit k j := by
  have hbi := byteOf_val hi
  have hbj := byteOf_val hj
  unfold getBit flipBit
  by_cases hb : byteOf j = byteOf i
  · have hdiv : j / 8 = i / 8 := by rw [← hbi, ← hbj, hb]
    rw [hb, Function.update_self, BitVec.getLsbD_xor,
      getLsbD_single _ (by omega) _ (by omega)]
    by_cases hji : j = i
    · subst hji
      simp
    · rw [if_neg hji, decide_eq_false (by omega), Bool.xor_false]
  · have hji : j ≠ i := by
      rintro rfl
      exact hb rfl
    rw [Function.update_of_ne hb, if_neg hji]

theorem getBit_zeroLowerBits (hh : h ≤ treeDepth) (hj : j < treeDepth) :
    getBit (zeroLowerBits k h) j = (decide (j + h < treeDepth) && getBit k j) := by
  have hb := byteOf_val hj
  unfold treeDepth at *
  unfold getBit zeroLowerBits
  simp only [hb]
  split
  · rw [decide_eq_false (by omega)]
    simp
  · split
    · rename_i h₁ h₂
      rw [BitVec.getLsbD_and, getLsbD_highMask _ (by omega) _ (by omega), Bool.and_comm]
      congr 1
      rw [decide_eq_decide]
      omega
    · rw [decide_eq_true (by omega), Bool.true_and]

theorem eq_of_getBit (hk : ∀ i < treeDepth, getBit k i = getBit k' i) : k = k' := by
  funext b
  apply BitVec.eq_of_getLsbD_eq
  intro t ht
  have hb := b.2
  have hi : 8 * b.1 + (7 - t) < treeDepth := by
    unfold treeDepth
    omega
  have hbyte : byteOf (8 * b.1 + (7 - t)) = b := by
    apply Fin.ext
    rw [byteOf_val hi]
    omega
  have hbit : 7 - (8 * b.1 + (7 - t)) % 8 = t := by omega
  have := hk _ hi
  simpa only [getBit, hbyte, hbit] using this

instance : BitKey Key treeDepth where
  bit := getBit
  set k i b := if getBit k i = b then k else flipBit k i
  bit_set {k i j b} hi hj := by
    split
    · rename_i hb
      split
      · rename_i hji
        rw [hji, hb]
      · rfl
    · rename_i hb
      rw [getBit_flipBit hi hj]
      split
      · cases hk : getBit k i <;> cases b <;> simp_all
      · rfl
  ext := eq_of_getBit

theorem bit_eq : bit k i = getBit k i := rfl

theorem flip_eq : BitKey.flip k i = flipBit k i :=
  if_neg (by simp [bit_eq])

theorem zeroLowerBits_zero : zeroLowerBits k 0 = k := by
  apply eq_of_getBit
  intro i hi
  rw [getBit_zeroLowerBits (Nat.zero_le _) hi, decide_eq_true (by simpa using hi), Bool.true_and]

/-- The path of a node names its subtree. -/
theorem zeroLowerBits_eq_iff (hh : h ≤ treeDepth) :
    zeroLowerBits k h = zeroLowerBits k' h ↔ Agree treeDepth h k k' := by
  constructor
  · intro he i hi
    have := congrArg (getBit · i) he
    rw [bit_eq, bit_eq]
    simpa only [getBit_zeroLowerBits hh (show i < treeDepth by omega), decide_eq_true hi,
      Bool.true_and] using this
  · intro ha
    apply eq_of_getBit
    intro i hi
    rw [getBit_zeroLowerBits hh hi, getBit_zeroLowerBits hh hi]
    by_cases hih : i + h < treeDepth
    · rw [← bit_eq, ← bit_eq, ha i hih]
    · rw [decide_eq_false hih, Bool.false_and, Bool.false_and]

theorem flipBit_zeroLowerBits (hi : i + h < treeDepth) :
    flipBit (zeroLowerBits k h) i = zeroLowerBits (flipBit k i) h := by
  apply eq_of_getBit
  intro j hj
  rw [getBit_flipBit (by omega) hj, getBit_zeroLowerBits (by omega) hj,
    getBit_zeroLowerBits (by omega) (by omega), getBit_zeroLowerBits (by omega) hj,
    getBit_flipBit (by omega) hj]
  by_cases hji : j = i
  · subst hji
    simp [hi]
  · rw [if_neg hji, if_neg hji]

/-! ## Represented leaves -/

/-- The key that differs in the last bit. -/
def siblingKey (k : Key) : Key := flipBit k (treeDepth - 1)

theorem siblingKey_ne : siblingKey k ≠ k := by
  rw [siblingKey, ← flip_eq]
  exact flip_ne (by decide)

theorem siblingKey_siblingKey : siblingKey (siblingKey k) = k := by
  rw [siblingKey, siblingKey, ← flip_eq, ← flip_eq]
  exact flip_flip (by decide)

/-- Above the leaves a key and its sibling lie in the same subtrees. -/
theorem agree_siblingKey (hh : 1 ≤ h) : Agree treeDepth h (siblingKey k) k := by
  rw [siblingKey, ← flip_eq]
  exact agree_flip (by decide) (by omega)

/-- The reference tree of a leaf assignment. -/
abbrev refTree (H : Hashing D) (leaf : Key → D) : ℕ → Key → D := subtree H.internalHash leaf

theorem emptyAt_eq_uniform : H.emptyAt h = uniform H.internalHash H.emptyLeafHash h := by
  induction h with
  | zero => rfl
  | succ h ih => rw [Hashing.emptyAt, uniform, ih]

theorem refTree_empty : refTree H (fun _ => H.emptyLeafHash) h k = H.emptyAt h := by
  rw [refTree, subtree_const, emptyAt_eq_uniform]

/-- The cache represents the tree of `leaf`; no leaf is cached. -/
structure Represents (H : Hashing D) (nodes : ℕ × Key → Option D) (leaf : Key → D) : Prop where
  inner : ∀ h k, 1 ≤ h → h ≤ treeDepth →
    H.lookup nodes h (zeroLowerBits k h) = refTree H leaf h k
  noLeaf : ∀ k, H.lookup nodes 0 k = H.emptyLeafHash

/-- The leaves after an operation on `key`. -/
def writeLeaf (H : Hashing D) (leaf : Key → D) (key : Key) (d : D) : Key → D :=
  Function.update (Function.update leaf (siblingKey key) H.emptyLeafHash) key d

variable {leaf : Key → D} {d : D} {nodes : ℕ × Key → Option D}

theorem writeLeaf_self : writeLeaf H leaf key d key = d := Function.update_self ..

theorem writeLeaf_sibling : writeLeaf H leaf key d (siblingKey key) = H.emptyLeafHash := by
  rw [writeLeaf, Function.update_of_ne siblingKey_ne, Function.update_self]

theorem writeLeaf_of_ne (hk : k ≠ key) (hs : k ≠ siblingKey key) :
    writeLeaf H leaf key d k = leaf k := by
  rw [writeLeaf, Function.update_of_ne hk, Function.update_of_ne hs]

/-- Subtrees without the key are as before. -/
theorem refTree_writeLeaf (h₁ : 1 ≤ h) (hh : h ≤ treeDepth) (hk : ¬ Agree treeDepth h k key) :
    refTree H (writeLeaf H leaf key d) h k = refTree H leaf h k := by
  apply subtree_congr_leaf hh
  intro k' hk'
  apply writeLeaf_of_ne
  · rintro rfl
    exact hk hk'.symm
  · rintro rfl
    exact hk (hk'.symm.trans (agree_siblingKey h₁))

/-- The walk after the lowest `j` levels. -/
structure Climbed (H : Hashing D) (nodes : ℕ × Key → Option D) (leaf : Key → D) (key : Key)
    (w : Hashing.Walk D) (j : ℕ) : Prop where
  hash : w.currentHash = refTree H leaf j key
  path : w.currentPath = zeroLowerBits key j
  written : ∀ h p, 1 ≤ h → h ≤ j → p = zeroLowerBits key h →
    H.lookup w.nodes h p = refTree H leaf h key
  kept : ∀ h p, ¬ (1 ≤ h ∧ h ≤ j ∧ p = zeroLowerBits key h) →
    H.lookup w.nodes h p = H.lookup nodes h p

variable {w : Hashing.Walk D}

/-- The sibling that the walk reads is the sibling subtree. -/
theorem Climbed.sibling (hw : Climbed H nodes (writeLeaf H leaf key d) key w j)
    (hr : Represents H nodes leaf) (hj : j < treeDepth) :
    H.lookup w.nodes j (flipBit w.currentPath (treeDepth - (j + 1))) =
      refTree H (writeLeaf H leaf key d) j (flipBit key (treeDepth - 1 - j)) := by
  have hbit : treeDepth - (j + 1) = treeDepth - 1 - j := by omega
  have hsum : treeDepth - 1 - j + j < treeDepth := by omega
  have hne : ¬ Agree treeDepth j (flipBit key (treeDepth - 1 - j)) key := by
    rw [← flip_eq]
    exact not_agree_flip (by omega)
  rw [hbit, hw.path, flipBit_zeroLowerBits hsum, hw.kept]
  · rcases Nat.eq_zero_or_pos j with rfl | hpos
    · rw [hr.noLeaf]
      exact writeLeaf_sibling.symm
    · rw [hr.inner j _ hpos (by omega)]
      exact (refTree_writeLeaf hpos (by omega) hne).symm
  · rintro ⟨-, -, heq⟩
    exact hne ((zeroLowerBits_eq_iff (by omega)).mp heq)

/-- The parent of the walk's node is the next subtree. -/
theorem Climbed.parentHash (hw : Climbed H nodes (writeLeaf H leaf key d) key w j)
    (hr : Represents H nodes leaf) (hj : j < treeDepth) :
    H.parentHash key w (j + 1) = refTree H (writeLeaf H leaf key d) (j + 1) key := by
  have hbit : treeDepth - (j + 1) = treeDepth - 1 - j := by omega
  have hsib := hw.sibling hr hj
  rw [hbit] at hsib
  rw [refTree, subtree_succ hj, flip_eq]
  simp only [Hashing.parentHash, Nat.add_sub_cancel, hbit, hsib, hw.hash]
  rfl

theorem lookup_update_self {value : Option D} :
    H.lookup (Function.update nodes (h, k) value) h k = value.getD (H.emptyAt h) := by
  rw [Hashing.lookup, Function.update_self]

theorem lookup_update_of_ne {value : Option D} (hne : (h, k) ≠ (j, k')) :
    H.lookup (Function.update nodes (j, k') value) h k = H.lookup nodes h k := by
  rw [Hashing.lookup, Function.update_of_ne hne, Hashing.lookup]

/-- Writing the node of the next level. -/
theorem Climbed.write (hw : Climbed H nodes leaf key w j) {value : Option D} {hash : D}
    (hhash : hash = refTree H leaf (j + 1) key)
    (hvalue : value.getD (H.emptyAt (j + 1)) = refTree H leaf (j + 1) key) :
    Climbed H nodes leaf key ⟨hash, zeroLowerBits key (j + 1),
      Function.update w.nodes (j + 1, zeroLowerBits key (j + 1)) value⟩ (j + 1) where
  hash := hhash
  path := rfl
  written := by
    intro h p h₁ hh hp
    rcases Nat.lt_or_ge h (j + 1) with hlt | hge
    · rw [← hw.written h p h₁ (by omega) hp]
      apply lookup_update_of_ne
      intro heq
      have := (Prod.mk.inj heq).1
      omega
    · obtain rfl : h = j + 1 := by omega
      rw [hp, ← hvalue]
      exact lookup_update_self
  kept := by
    intro h p hn
    have hne : (h, p) ≠ (j + 1, zeroLowerBits key (j + 1)) := by
      intro heq
      obtain ⟨rfl, rfl⟩ := Prod.mk.inj heq
      exact hn ⟨by omega, le_rfl, rfl⟩
    rw [lookup_update_of_ne hne]
    apply hw.kept
    rintro ⟨h₁, hh, hp⟩
    exact hn ⟨h₁, by omega, hp⟩

theorem Climbed.recomputeStep (hw : Climbed H nodes (writeLeaf H leaf key d) key w j)
    (hr : Represents H nodes leaf) (hj : j < treeDepth) :
    Climbed H nodes (writeLeaf H leaf key d) key (H.recomputeStep key w (j + 1)) (j + 1) :=
  hw.write (hw.parentHash hr hj) (hw.parentHash hr hj)

theorem Climbed.removeStep [DecidableEq D] (hw : Climbed H nodes (writeLeaf H leaf key d) key w j)
    (hr : Represents H nodes leaf) (hj : j < treeDepth) :
    Climbed H nodes (writeLeaf H leaf key d) key (H.removeStep key w (j + 1)) (j + 1) := by
  simp only [Hashing.removeStep, Nat.add_sub_cancel]
  split
  · rename_i hempty
    -- the parent of two empty subtrees is the empty subtree
    have hhash : H.emptyAt (j + 1) = refTree H (writeLeaf H leaf key d) (j + 1) key := by
      rw [← hw.parentHash hr hj, Hashing.parentHash]
      simp only [Nat.add_sub_cancel, hempty.1, hempty.2, ite_self]
      rfl
    exact hw.write hhash hhash
  · exact hw.recomputeStep hr hj

/-- A loop over the levels climbs to the root. -/
theorem climbed_foldl (key : Key) (d : D) (step : Hashing.Walk D → ℕ → Hashing.Walk D)
    (hstep : ∀ j w, j < treeDepth → Climbed H nodes (writeLeaf H leaf key d) key w j →
      Climbed H nodes (writeLeaf H leaf key d) key (step w (j + 1)) (j + 1))
    (hj : j ≤ treeDepth) :
    Climbed H nodes (writeLeaf H leaf key d) key
      ((List.range' 1 j).foldl step ⟨d, key, nodes⟩) j := by
  induction j with
  | zero =>
    refine ⟨writeLeaf_self.symm, zeroLowerBits_zero.symm, ?_, fun _ _ _ => rfl⟩
    intro h p h₁ h₀
    omega
  | succ j ih =>
    rw [List.range'_1_concat, List.foldl_concat, Nat.add_comm 1 j]
    exact hstep j _ hj (ih (by omega))

/-- A finished walk represents the tree with the leaf written. -/
theorem Climbed.represents (hw : Climbed H nodes (writeLeaf H leaf key d) key w treeDepth)
    (hr : Represents H nodes leaf) : Represents H w.nodes (writeLeaf H leaf key d) where
  inner := by
    intro h k h₁ hh
    by_cases hk : Agree treeDepth h k key
    · rw [hw.written h _ h₁ hh ((zeroLowerBits_eq_iff hh).mpr hk)]
      exact subtree_congr_key hh hk.symm
    · rw [hw.kept h _ (fun hc => hk ((zeroLowerBits_eq_iff hh).mp hc.2.2)), hr.inner h k h₁ hh,
        refTree_writeLeaf h₁ hh hk]
  noLeaf := by
    intro k
    rw [hw.kept 0 k (by omega)]
    exact hr.noLeaf k

end TexasPoker.Smt
