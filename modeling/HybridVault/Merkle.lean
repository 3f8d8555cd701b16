import HybridVault.Deployment
import HybridVault.Foundations.PairTree

/-!
# The art commitment

Leaf format v2 and the positional Merkle tree over it.  The tree is the pair tree
of `Foundations.PairTree` with `nodeHash`: `verify` climbs, `build` computes the
levels and the paths.  A proof must have exactly the length that belongs to the
size of the collection, which binds the position.
-/

namespace HybridVault

open Foundations

/-- `b"mintmark-leaf-v2"`. -/
def leafDomain : Bytes :=
  [109, 105, 110, 116, 109, 97, 114, 107, 45, 108, 101, 97, 102, 45, 118, 50]

/-- The eight trait values, little-endian. -/
def traitBytes (traitValues : Fin 8 → UInt16) : Bytes :=
  (List.ofFn traitValues).flatMap fun v => leBytes 2 v.toNat

def traitsHash (D : Deployment) (schemaHash : Bytes32) (traitValues : Fin 8 → UInt16) : Bytes32 :=
  D.sha256 (schemaHash.bytes ++ traitBytes traitValues)

def artHash (D : Deployment) (salt imageSha256 jsonSha256 : Bytes32) (uri : Bytes) : Bytes32 :=
  D.sha256 (salt.bytes ++ imageSha256.bytes ++ jsonSha256.bytes ++ uri)

def leafHash (D : Deployment) (launchConfig : Bytes32) (index : ℕ) (traits art : Bytes32) :
    Bytes32 :=
  D.sha256 ([0] ++ leafDomain ++ launchConfig.bytes ++ leBytes 4 index ++ traits.bytes ++ art.bytes)

def nodeHash (D : Deployment) (left right : Bytes32) : Bytes32 :=
  D.sha256 ([1] ++ left.bytes ++ right.bytes)

/-- The loop of `depth_for`; a `u32` size needs at most 32 rounds. -/
def depthLoop (size : ℕ) : ℕ → ℕ → ℕ
  | 0, d => d
  | rounds + 1, d => if 2 ^ d < size then depthLoop size rounds (d + 1) else d

def depthFor (size : ℕ) : ℕ := depthLoop size 32 0

/-- Verify a positional proof. -/
def verify (D : Deployment) (leaf : Bytes32) (index size : ℕ) (proof : List Bytes32)
    (root : Bytes32) : Bool :=
  if size ≤ index ∨ proof.length ≠ depthFor size then false
  else PairTree.climb (nodeHash D) proof index leaf = root

/-- The levels of the tree over `leaves`. -/
def treeLevels (D : Deployment) (leaves : List Bytes32) : List (List Bytes32) :=
  PairTree.levels (nodeHash D) leaves.length leaves

/-- `build(leaves).0`: the root. -/
def buildRoot (D : Deployment) (leaves : List Bytes32) : Bytes32 :=
  ((treeLevels D leaves).getLast?.bind List.head?).getD Bytes32.zero

/-- `build(leaves).1[i]`: the proof of leaf `i`. -/
def buildProof (D : Deployment) (leaves : List Bytes32) (i : ℕ) : List Bytes32 :=
  PairTree.path (treeLevels D leaves).dropLast i

/-- `build(leaves)`: the root and all proofs. -/
def build (D : Deployment) (leaves : List Bytes32) : Bytes32 × List (List Bytes32) :=
  (buildRoot D leaves, (List.range leaves.length).map (buildProof D leaves))

/-! ## Honest proofs verify -/

theorem depthLoop_eq {size : ℕ} {rounds d : ℕ} (hd : d ≤ Nat.clog 2 size)
    (hrounds : Nat.clog 2 size ≤ d + rounds) : depthLoop size rounds d = Nat.clog 2 size := by
  induction rounds generalizing d with
  | zero => rw [depthLoop]; omega
  | succ rounds ih =>
      rw [depthLoop]
      split
      · next hlt => exact ih ((Nat.lt_clog_iff_pow_lt (by omega)).mpr hlt) (by omega)
      · next hge =>
          have := (Nat.clog_le_iff_le_pow (by omega)).mpr (not_lt.mp hge)
          omega

theorem depthFor_eq {size : ℕ} (h : size < u32Size) : depthFor size = Nat.clog 2 size := by
  refine depthLoop_eq (Nat.zero_le _) ?_
  have : Nat.clog 2 size ≤ 32 := (Nat.clog_le_iff_le_pow (by omega)).mpr h.le
  omega

theorem length_buildProof (D : Deployment) {leaves : List Bytes32} {i : ℕ}
    (hi : i < leaves.length) (hsize : leaves.length < u32Size) :
    (buildProof D leaves i).length = depthFor leaves.length := by
  rw [buildProof, treeLevels, depthFor_eq hsize,
    PairTree.length_path (nodeHash D) Nat.lt_two_pow_self.le hi]

/-- **Committed leaves verify.**  The proof `build` gives for a leaf verifies
against the root it gives, for any number of leaves. -/
theorem verify_build (D : Deployment) {leaves : List Bytes32} {i : ℕ} {leaf : Bytes32}
    (hleaf : leaves[i]? = some leaf) (hsize : leaves.length < u32Size) :
    verify D leaf i leaves.length (buildProof D leaves i) (buildRoot D leaves) = true := by
  have hi : i < leaves.length := (List.getElem?_eq_some_iff.mp hleaf).1
  obtain ⟨top, htop, hclimb⟩ :=
    PairTree.climb_path (nodeHash D) Nat.lt_two_pow_self.le hleaf
  have hroot : buildRoot D leaves = top := by
    rw [buildRoot, treeLevels, htop]
    rfl
  have hlen := length_buildProof D hi hsize
  rw [verify, if_neg (by simp [hlen, hi]), hroot, buildProof, treeLevels, hclimb]
  simp

end HybridVault
