import TexasPoker.ObjectModel.SmtTree

/-! # Runs of the tree

After any sequence of operations the root is that of the map in which every operation also
emptied the sibling of its key. It is the root of the real map exactly when no occupied leaf lost
its place in this way, and proofs verify where the sibling is empty.
-/

namespace TexasPoker.Smt

open BitKey HashTree

/-- An operation on the tree. -/
inductive Op where
  | upsert (key : Key) (value : Bytes)
  | remove (key : Key)

namespace Op

def key : Op → Key
  | .upsert key _ => key
  | .remove key => key

/-- The value at the key after the operation. -/
def value : Op → Option Bytes
  | .upsert _ value => some value
  | .remove _ => none

end Op

/-- The map after a sequence of operations. -/
def contents (ops : List Op) : Key → Option Bytes :=
  ops.foldl (fun m op => Function.update m op.key op.value) fun _ => none

/-- The map that the tree keeps: an operation also empties the sibling. -/
def effective (ops : List Op) : Key → Option Bytes :=
  ops.foldl (fun m op => Function.update (Function.update m (siblingKey op.key) none) op.key op.value)
    fun _ => none

/-- The last operation on a key or its sibling was on the key. -/
def lastOn (ops : List Op) (k : Key) : Bool :=
  ops.foldl (fun last op => if op.key = k then true else if op.key = siblingKey k then false else last)
    false

variable {D : Type} {H : Hashing D} {ops : List Op} {op : Op} {key k : Key} {m : Key → Option Bytes}

theorem contents_concat :
    contents (ops ++ [op]) = Function.update (contents ops) op.key op.value := by
  rw [contents, List.foldl_concat]
  rfl

theorem effective_concat : effective (ops ++ [op]) =
    Function.update (Function.update (effective ops) (siblingKey op.key) none) op.key op.value := by
  rw [effective, List.foldl_concat]
  rfl

theorem lastOn_concat : lastOn (ops ++ [op]) k =
    if op.key = k then true else if op.key = siblingKey k then false else lastOn ops k := by
  rw [lastOn, List.foldl_concat]
  rfl

theorem effective_eq : effective ops k = if lastOn ops k then contents ops k else none := by
  induction ops using List.reverseRecOn with
  | nil => rfl
  | append_singleton ops op ih =>
    rw [effective_concat, contents_concat, lastOn_concat]
    by_cases hk : k = op.key
    · subst hk
      rw [Function.update_self, Function.update_self, if_pos rfl, if_pos rfl]
    · rw [Function.update_of_ne hk, Function.update_of_ne hk, if_neg (Ne.symm hk)]
      by_cases hs : k = siblingKey op.key
      · subst hs
        rw [Function.update_self, siblingKey_siblingKey, if_pos rfl]
        rfl
      · have hne : op.key ≠ siblingKey k := by
          rintro h
          rw [h, siblingKey_siblingKey] at hs
          exact hs rfl
        rw [Function.update_of_ne hs, if_neg hne, ih]

theorem effective_eq_contents_iff :
    effective ops = contents ops ↔ ∀ k, (contents ops k).isSome → lastOn ops k = true := by
  constructor
  · intro h k hk
    by_contra hl
    rw [← h, effective_eq, if_neg hl] at hk
    cases hk
  · intro h
    funext k
    rw [effective_eq]
    split
    · rfl
    · rename_i hl
      rcases hc : contents ops k with _ | v
      · rfl
      · exact absurd (h k (by rw [hc]; rfl)) hl

/-! ## The represented map -/

/-- The leaf of a key in a map. -/
def leafOf (H : Hashing D) (m : Key → Option Bytes) (k : Key) : D :=
  match m k with
  | some v => H.leafHash k v
  | none => H.emptyLeafHash

theorem leafOf_update {v : Option Bytes} : leafOf H
    (Function.update (Function.update m (siblingKey key) none) key v) =
      writeLeaf H (leafOf H m) key (leafOf H (fun _ => v) key) := by
  funext k
  by_cases hk : k = key
  · subst hk
    rw [writeLeaf_self, leafOf, Function.update_self]
    rfl
  · by_cases hs : k = siblingKey key
    · subst hs
      rw [writeLeaf_sibling, leafOf, Function.update_of_ne hk, Function.update_self]
    · rw [writeLeaf_of_ne hk hs, leafOf, Function.update_of_ne hk, Function.update_of_ne hs]
      rfl

/-- The reference root of a map. -/
def refRoot (H : Hashing D) (m : Key → Option Bytes) : D := refTree H (leafOf H m) treeDepth fun _ => 0

theorem refTree_root {leaf : Key → D} (k k' : Key) :
    refTree H leaf treeDepth k = refTree H leaf treeDepth k' :=
  subtree_congr_key le_rfl fun _ hi => absurd hi (by omega)

/-- The tree keeps the leaf hashes of one map and represents another. -/
structure Holds (H : Hashing D) (t : SparseMerkleTree D) (stored shown : Key → Option Bytes) : Prop where
  leaves : ∀ k, t.leaves k = (stored k).map (H.leafHash k)
  nodes : Represents H t.nodes (leafOf H shown)
  root : t.root = refRoot H shown

theorem holds_new : Holds H H.new (fun _ => none) (fun _ => none) where
  leaves _ := rfl
  nodes :=
    { inner := fun _ _ _ _ => refTree_empty.symm
      noLeaf := fun _ => rfl }
  root := refTree_empty.symm

/-- The siblings that a proof lists: below the root they are those of the represented tree, but
the leaf's own sibling is always listed as empty. -/
theorem prove_siblings {t : SparseMerkleTree D} {leaf : Key → D} (h : Represents H t.nodes leaf)
    (key : Key) {j : ℕ} (hj : j < treeDepth) : (H.prove t key).siblings.getD j H.emptyLeafHash =
      if j = 0 then H.emptyLeafHash else refTree H leaf j (BitKey.flip key (treeDepth - 1 - j)) := by
  have hget : (H.prove t key).siblings.getD j H.emptyLeafHash =
      H.lookup t.nodes j (flipBit (zeroLowerBits key j) (treeDepth - 1 - j)) := by
    have hbit : treeDepth - (1 + j) = treeDepth - 1 - j := by omega
    simp [Hashing.prove, List.getD_eq_getElem?_getD, hj, hbit]
  rw [hget, flipBit_zeroLowerBits (by omega), flip_eq]
  split
  · rename_i h0
    rw [h0, h.noLeaf]
  · exact h.inner j _ (by omega) (by omega)

/-! ## Injective hashes -/

/-- Different inputs have different hashes. -/
structure CollisionFree (H : Hashing D) : Prop where
  leaf : ∀ {k v k' v'}, H.leafHash k v = H.leafHash k' v' → k = k' ∧ v = v'
  internal : ∀ {a b a' b'}, H.internalHash a b = H.internalHash a' b' → a = a' ∧ b = b'
  leaf_ne_empty : ∀ k v, H.leafHash k v ≠ H.emptyLeafHash

theorem leafOf_inj (hH : CollisionFree H) {v v' : Option Bytes}
    (h : leafOf H (fun _ => v) k = leafOf H (fun _ => v') k) : v = v' := by
  rcases v with _ | v <;> rcases v' with _ | v'
  · rfl
  · exact absurd h.symm (hH.leaf_ne_empty k v')
  · exact absurd h (hH.leaf_ne_empty k v)
  · rw [(hH.leaf h).2]

theorem refRoot_inj (hH : CollisionFree H) {m m' : Key → Option Bytes} (h : refRoot H m = refRoot H m') :
    m = m' := by
  funext k
  have hleaf := subtree_inj hH.internal le_rfl h k fun _ hi => absurd hi (by omega)
  exact leafOf_inj hH hleaf

/-! ## Runs -/

variable [DecidableEq D]

def Hashing.apply (H : Hashing D) (t : SparseMerkleTree D) : Op → SparseMerkleTree D
  | .upsert key value => H.upsert t key value
  | .remove key => H.remove t key

/-- The tree after a sequence of operations. -/
def Hashing.run (H : Hashing D) (ops : List Op) : SparseMerkleTree D := ops.foldl H.apply H.new

theorem Holds.apply {t : SparseMerkleTree D} {stored shown : Key → Option Bytes}
    (h : Holds H t stored shown) (op : Op) : Holds H (H.apply t op) (Function.update stored op.key op.value)
      (Function.update (Function.update shown (siblingKey op.key) none) op.key op.value) := by
  have hleaves : ∀ k, Function.update t.leaves op.key (op.value.map (H.leafHash op.key)) k =
      (Function.update stored op.key op.value k).map (H.leafHash k) := by
    intro k
    by_cases hk : k = op.key
    · subst hk
      rw [Function.update_self, Function.update_self]
    · rw [Function.update_of_ne hk, Function.update_of_ne hk]
      exact h.leaves k
  cases op with
  | upsert key value =>
    have hw := climbed_foldl key (H.leafHash key value) (H.recomputeStep key)
      (fun _ _ hj hw => Climbed.recomputeStep hw h.nodes hj) (le_refl treeDepth)
    have hr := hw.represents h.nodes
    refine ⟨hleaves, ?_, ?_⟩
    · rw [leafOf_update]
      exact hr
    · rw [refRoot, leafOf_update, refTree_root _ key]
      exact hw.hash
  | remove key =>
    have hw := climbed_foldl key H.emptyLeafHash (H.removeStep key)
      (fun _ _ hj hw => Climbed.removeStep hw h.nodes hj) (le_refl treeDepth)
    have hr := hw.represents h.nodes
    refine ⟨hleaves, ?_, ?_⟩
    · rw [leafOf_update]
      exact hr
    · rw [refRoot, leafOf_update, refTree_root _ key]
      exact hw.hash

/-- The stored root is always that of the effective map. -/
theorem holds_run (H : Hashing D) (ops : List Op) :
    Holds H (H.run ops) (contents ops) (effective ops) := by
  induction ops using List.reverseRecOn with
  | nil => exact holds_new
  | append_singleton ops op ih =>
    rw [contents_concat, effective_concat, Hashing.run, List.foldl_concat]
    exact ih.apply op

/-! ## Paths -/

/-- A verified path is a path climbed from the leaf. -/
theorem verify_eq_true {root : D} {value : Option Bytes} {path : MerklePath D} :
    H.verify root key value path = true ↔ path.siblings.length = treeDepth ∧
      path.isEmptyLeaf = value.isNone ∧
      climb H.internalHash key (path.siblings.getD · H.emptyLeafHash)
        (leafOf H (fun _ => value) key) treeDepth = root := by
  have hclimb (leaf : D) (j : ℕ) : (List.range' 1 j).foldl (H.verifyStep key path.siblings) leaf =
      climb H.internalHash key (path.siblings.getD · H.emptyLeafHash) leaf j := by
    induction j with
    | zero => rfl
    | succ j ih =>
      have hbit : treeDepth - (1 + j) = treeDepth - 1 - j := by omega
      rw [List.range'_1_concat, List.foldl_concat, ih, climb, Hashing.verifyStep, hbit,
        Nat.add_sub_cancel_left]
      rfl
  unfold Hashing.verify
  by_cases hlen : path.siblings.length = treeDepth
  · rw [if_neg (by simpa using hlen)]
    rcases value with _ | v <;> cases hflag : path.isEmptyLeaf <;>
      simp [Hashing.leafOfPath, hlen, hclimb, leafOf]
  · rw [if_pos hlen]
    simp [hlen]

/-! ## The specification -/

theorem root_eq_iff (hH : CollisionFree H) :
    (H.run ops).root = refRoot H (contents ops) ↔ effective ops = contents ops := by
  rw [(holds_run H ops).root]
  constructor
  · intro h
    exact refRoot_inj hH h
  · intro h
    rw [h]

/-- A path to the root of a map shows what the map holds. -/
theorem value_of_verify (hH : CollisionFree H) {v : Option Bytes} {path : MerklePath D}
    (h : H.verify (refRoot H m) key v path = true) : v = m key := by
  obtain ⟨-, -, hc⟩ := verify_eq_true.mp h
  rw [refRoot, refTree_root _ key, refTree, ← climb_eq_subtree _ le_rfl fun _ _ => rfl] at hc
  exact leafOf_inj hH (climb_inj hH.internal hc).1

/-- The proof of a key verifies exactly when its sibling is empty. -/
theorem verify_prove_iff (hH : CollisionFree H) (he : effective ops = contents ops) :
    H.verify (refRoot H (contents ops)) key (contents ops key) (H.prove (H.run ops) key) = true ↔
      contents ops (siblingKey key) = none := by
  have hrun := holds_run H ops
  have hsib {j : ℕ} (hj : j < treeDepth) := prove_siblings hrun.nodes key hj
  have htrue : climb H.internalHash key _ (leafOf H (contents ops) key) treeDepth = _ :=
    climb_eq_subtree _ le_rfl fun _ _ => rfl
  rw [he] at hsib
  have hflip : BitKey.flip key (treeDepth - 1 - 0) = siblingKey key := flip_eq
  rw [verify_eq_true, refRoot, refTree_root _ key, refTree, ← htrue]
  constructor
  · rintro ⟨-, -, hc⟩
    have h0 := (climb_inj hH.internal hc).2 0 (by decide)
    rw [hsib (by decide), if_pos rfl, hflip] at h0
    exact (leafOf_inj hH (v := none) (k := siblingKey key) h0).symm
  · intro hnone
    refine ⟨by simp [Hashing.prove], ?_, ?_⟩
    · simp [Hashing.prove, hrun.leaves]
    · rw [htrue]
      refine climb_eq_subtree (leafOf H (contents ops)) le_rfl fun j hj => ?_
      rw [hsib hj]
      split
      · rename_i h0
        rw [h0, hflip, subtree, leafOf, hnone]
      · rfl

/-- What the stored tree and its paths promise about a key. -/
structure MatchesReference (H : Hashing D) (ops : List Op) (key : Key) : Prop where
  root : (H.run ops).root = refRoot H (contents ops)
  verified : H.verify (H.run ops).root key (contents ops key) (H.prove (H.run ops) key) = true
  /-- No path shows another value, or presence for absence. -/
  bound : ∀ v path, H.verify (H.run ops).root key v path = true → v = contents ops key

/-- The tree matches its reference exactly when no occupied leaf was displaced by its sibling,
and the sibling of the key is empty. -/
theorem matchesReference_iff (hH : CollisionFree H) : MatchesReference H ops key ↔
    (∀ k, (contents ops k).isSome → lastOn ops k = true) ∧
      contents ops (siblingKey key) = none := by
  rw [← effective_eq_contents_iff]
  constructor
  · intro h
    have he := (root_eq_iff hH).mp h.root
    refine ⟨he, (verify_prove_iff hH he).mp ?_⟩
    rw [← h.root]
    exact h.verified
  · rintro ⟨he, hs⟩
    have hroot := (root_eq_iff hH).mpr he
    refine ⟨hroot, ?_, fun v path hv => ?_⟩
    · rw [hroot]
      exact (verify_prove_iff hH he).mpr hs
    · rw [hroot] at hv
      exact value_of_verify hH hv

/-! ## Two sibling keys -/

/-- Hashes that keep what they hash. -/
inductive Term where
  | empty
  | leaf (key : Key) (value : Bytes)
  | internal (left right : Term)
  deriving DecidableEq

def termHashing : Hashing Term where
  leafHash := .leaf
  internalHash := .internal
  emptyLeafHash := .empty

theorem collisionFree_termHashing : CollisionFree termHashing where
  leaf h := by
    cases h
    exact ⟨rfl, rfl⟩
  internal h := by
    cases h
    exact ⟨rfl, rfl⟩
  leaf_ne_empty _ _ := nofun

/-- The key of zeros. -/
def zeroKey : Key := fun _ => 0

/-- Two values at keys that differ in the last bit. -/
def siblingOps : List Op := [.upsert zeroKey [1], .upsert (siblingKey zeroKey) [2]]

/-- The second write displaces the first, whichever comes first. -/
theorem siblings_break_tree :
    (termHashing.run siblingOps).root ≠ refRoot termHashing (contents siblingOps) ∧
      (termHashing.run siblingOps).root ≠ (termHashing.run siblingOps.reverse).root ∧
      contents siblingOps = contents siblingOps.reverse ∧
      ¬ MatchesReference termHashing siblingOps zeroKey := by
  have hshown : effective siblingOps zeroKey = none := by
    rw [effective_eq, if_neg (by decide +kernel)]
  have hstored : contents siblingOps zeroKey = some [1] :=
    Function.update_of_ne (siblingKey_ne (k := zeroKey)).symm (some [2])
      (Function.update (fun _ => none) zeroKey (some [1]))
  have hcomm : contents siblingOps = contents siblingOps.reverse :=
    Function.update_comm (siblingKey_ne (k := zeroKey)).symm _ _ _
  have hrev : effective siblingOps.reverse zeroKey = some [1] := by
    rw [effective_eq, if_pos (by decide +kernel), ← hcomm]
    exact hstored
  have hroot : (termHashing.run siblingOps).root ≠ refRoot termHashing (contents siblingOps) := by
    intro h
    have := (root_eq_iff collisionFree_termHashing).mp h
    rw [this, hstored] at hshown
    cases hshown
  refine ⟨hroot, ?_, hcomm, fun h => hroot h.root⟩
  rw [(holds_run _ _).root, (holds_run _ _).root]
  intro h
  have := refRoot_inj collisionFree_termHashing h
  rw [this, hrev] at hshown
  cases hshown

/-- Only the keys of the operations have values. -/
theorem exists_op_of_contents (h : (contents ops k).isSome = true) : ∃ op ∈ ops, op.key = k := by
  induction ops using List.reverseRecOn with
  | nil => cases h
  | append_singleton ops op ih =>
    by_cases hk : k = op.key
    · exact ⟨op, List.mem_append_right _ (List.mem_singleton_self op), hk.symm⟩
    · rw [contents_concat, Function.update_of_ne hk] at h
      obtain ⟨op, hmem, hop⟩ := ih h
      exact ⟨op, List.mem_append_left _ hmem, hop⟩

/-- A key of one byte. -/
def repeated (byte : BitVec 8) : Key := fun _ => byte

/-- Three keys, one of them written twice and one removed. -/
def apartOps : List Op :=
  [.upsert (repeated 0) [1], .upsert (repeated 2) [2], .upsert (repeated 4) [3],
    .remove (repeated 2), .upsert (repeated 0) [4, 5]]

/-- The keys are no siblings, so the tree shows a value that is there and one that is gone. -/
theorem apart_match : MatchesReference termHashing apartOps (repeated 0) ∧
    MatchesReference termHashing apartOps (repeated 2) := by
  have hplaced : ∀ k, (contents apartOps k).isSome → lastOn apartOps k = true := by
    have hall : ∀ op ∈ apartOps, lastOn apartOps op.key = true := by decide +kernel
    intro k hk
    obtain ⟨op, hmem, rfl⟩ := exists_op_of_contents hk
    exact hall op hmem
  exact ⟨(matchesReference_iff collisionFree_termHashing).mpr ⟨hplaced, by decide +kernel⟩,
    (matchesReference_iff collisionFree_termHashing).mpr ⟨hplaced, by decide +kernel⟩⟩

end TexasPoker.Smt
