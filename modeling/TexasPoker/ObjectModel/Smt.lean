import Mathlib.Data.Fintype.Pi
import Mathlib.Logic.Function.Basic
import TexasPoker.Lib.Bytes

/-! # The sparse Merkle tree

A tree of depth 256 over all keys. Occupied leaves and cached inner nodes are kept in maps; an
absent node is the empty subtree of its height.
-/

namespace TexasPoker.Smt

/-- A key: 32 bytes. -/
abbrev Key := Fin 32 → BitVec 8

def treeDepth : ℕ := 256

/-- The domain-separated hashes of leaves and inner nodes. -/
structure Hashing (D : Type) where
  leafHash : Key → Bytes → D
  internalHash : D → D → D
  emptyLeafHash : D

/-- The byte that holds a bit. -/
def byteOf (bitIdx : ℕ) : Fin 32 := Fin.ofNat 32 (bitIdx / 8)

/-- Clear the lowest bits of a key, which are those of its last bytes. -/
def zeroLowerBits (key : Key) (numBits : ℕ) : Key :=
  let fullBytes := numBits / 8
  let partialBits := numBits % 8
  fun i =>
    if 32 - fullBytes ≤ i.1 then 0
    else if 0 < partialBits ∧ i.1 = 32 - fullBytes - 1 then key i &&& ~~~((1#8 <<< partialBits) - 1)
    else key i

/-- A bit of a key; bit zero is the highest of the first byte. -/
def getBit (key : Key) (bitIdx : ℕ) : Bool := (key (byteOf bitIdx)).getLsbD (7 - bitIdx % 8)

def flipBit (key : Key) (bitIdx : ℕ) : Key :=
  Function.update key (byteOf bitIdx) (key (byteOf bitIdx) ^^^ (1#8 <<< (7 - bitIdx % 8)))

/-- Siblings from the leaf to the root. -/
structure MerklePath (D : Type) where
  siblings : List D
  isEmptyLeaf : Bool

structure SparseMerkleTree (D : Type) where
  leaves : Key → Option D
  nodes : ℕ × Key → Option D
  root : D

namespace Hashing

variable {D : Type} (H : Hashing D)

/-- The empty subtree of a height. -/
def emptyAt : ℕ → D
  | 0 => H.emptyLeafHash
  | h + 1 => H.internalHash (emptyAt h) (emptyAt h)

def new : SparseMerkleTree D where
  leaves := fun _ => none
  nodes := fun _ => none
  root := H.emptyAt treeDepth

/-- A cached node, or the empty subtree. -/
def lookup (nodes : ℕ × Key → Option D) (h : ℕ) (path : Key) : D :=
  (nodes (h, path)).getD (H.emptyAt h)

/-- The state of the walk from a leaf to the root. -/
structure Walk (D : Type) where
  currentHash : D
  currentPath : Key
  nodes : ℕ × Key → Option D

/-- The parent of the walk's node, from the node's sibling. -/
def parentHash (key : Key) (w : Walk D) (h : ℕ) : D :=
  let bitIdx := treeDepth - h
  let siblingHash := H.lookup w.nodes (h - 1) (flipBit w.currentPath bitIdx)
  if getBit key bitIdx then H.internalHash siblingHash w.currentHash
  else H.internalHash w.currentHash siblingHash

/-- One level of a recomputed path. -/
def recomputeStep (key : Key) (w : Walk D) (h : ℕ) : Walk D :=
  let currentHash := H.parentHash key w h
  let currentPath := zeroLowerBits key h
  ⟨currentHash, currentPath, Function.update w.nodes (h, currentPath) (some currentHash)⟩

def recomputePath (t : SparseMerkleTree D) (key : Key) (leafValueHash : D) : SparseMerkleTree D :=
  let w := (List.range' 1 treeDepth).foldl (H.recomputeStep key) ⟨leafValueHash, key, t.nodes⟩
  { t with nodes := w.nodes, root := w.currentHash }

/-- One level of the path of a removed leaf; an empty subtree leaves the cache. -/
def removeStep [DecidableEq D] (key : Key) (w : Walk D) (h : ℕ) : Walk D :=
  let bitIdx := treeDepth - h
  let siblingHash := H.lookup w.nodes (h - 1) (flipBit w.currentPath bitIdx)
  if w.currentHash = H.emptyAt (h - 1) ∧ siblingHash = H.emptyAt (h - 1) then
    let nodePath := zeroLowerBits key h
    ⟨H.emptyAt h, nodePath, Function.update w.nodes (h, nodePath) none⟩
  else H.recomputeStep key w h

def recomputePathRemove [DecidableEq D] (t : SparseMerkleTree D) (key : Key) : SparseMerkleTree D :=
  let w := (List.range' 1 treeDepth).foldl (H.removeStep key) ⟨H.emptyLeafHash, key, t.nodes⟩
  { t with nodes := w.nodes, root := w.currentHash }

def upsert (t : SparseMerkleTree D) (key : Key) (value : Bytes) : SparseMerkleTree D :=
  let newLeaf := H.leafHash key value
  H.recomputePath { t with leaves := Function.update t.leaves key (some newLeaf) } key newLeaf

def remove [DecidableEq D] (t : SparseMerkleTree D) (key : Key) : SparseMerkleTree D :=
  H.recomputePathRemove { t with leaves := Function.update t.leaves key none } key

def prove (t : SparseMerkleTree D) (key : Key) : MerklePath D where
  siblings := (List.range' 1 treeDepth).map fun h =>
    H.lookup t.nodes (h - 1) (flipBit (zeroLowerBits key (h - 1)) (treeDepth - h))
  isEmptyLeaf := (t.leaves key).isNone

/-- The leaf that a path starts from; value and flag must agree. -/
def leafOfPath (key : Key) (value : Option Bytes) (isEmptyLeaf : Bool) : Option D :=
  match value, isEmptyLeaf with
  | some v, false => some (H.leafHash key v)
  | none, true => some H.emptyLeafHash
  | _, _ => none

/-- One level of a path that is verified. -/
def verifyStep (key : Key) (siblings : List D) (current : D) (h : ℕ) : D :=
  let sibling := siblings.getD (h - 1) H.emptyLeafHash
  if getBit key (treeDepth - h) then H.internalHash sibling current
  else H.internalHash current sibling

def verify [DecidableEq D] (root : D) (key : Key) (value : Option Bytes) (path : MerklePath D) : Bool :=
  if path.siblings.length ≠ treeDepth then false
  else match H.leafOfPath key value path.isEmptyLeaf with
    | none => false
    | some leaf => (List.range' 1 treeDepth).foldl (H.verifyStep key path.siblings) leaf = root

end Hashing

end TexasPoker.Smt
