import HybridVault.AssetSource
import HybridVault.Devnet
import HybridVault.Merkle
import Mathlib.Data.List.OfFn

/-!
# What the commitment binds

The launch commits to one root over the leaves of its collection.  Two facts make that
root the whole truth about the metadata of every index.

* **Completeness** (`checkLeaf_build`): the proof `build` gives for a leaf is accepted,
  for a collection of any size.
* **Binding** (`checkLeaf_binding`): for one root and one index, at most one preimage and
  one proof are accepted, short of two different strings with the same SHA-256 value.
  The strings are among those that the two checks hash, so whoever finds two acceptable
  inputs holds a collision.

Binding needs no honest root: an adversary who chose the root gains nothing.
-/

namespace HybridVault

open Foundations

variable {D : Deployment}

theorem verify_eq_true_iff {leaf root : Bytes32} {index size : ℕ} {proof : List Bytes32} :
    verify D leaf index size proof root = true ↔
      index < size ∧ proof.length = depthFor size ∧
        PairTree.climb (nodeHash D) proof index leaf = root := by
  rw [verify]
  split
  · next h => simp; omega
  · next h =>
      push Not at h
      simp [h]

theorem checkLeaf_eq_ok_iff {traitRoot schemaHash : Bytes32} {size index : ℕ}
    {leaf : LeafPreimage} {proof : List Bytes32} {u : Unit} :
    checkLeaf D traitRoot schemaHash size index leaf proof = .ok u ↔
      index < size ∧ leaf.uri.length ≤ maxUriLen ∧ isContentAddressed leaf.uri = true ∧
        proof.length ≤ maxMerkleDepth ∧
        verify D (leafOf D schemaHash index leaf) index size proof traitRoot = true := by
  simp [checkLeaf]

/-! ## Committed leaves are accepted -/

/-- A proof in a collection of a size that can be launched is within the limit. -/
theorem length_buildProof_le {leaves : List Bytes32} {i : ℕ} (hi : i < leaves.length)
    (hsize : leaves.length ≤ maxCollectionSize) :
    (buildProof D leaves i).length ≤ maxMerkleDepth := by
  have hlt : leaves.length < u32Size := by
    simp only [maxCollectionSize, u32Size] at *
    omega
  rw [length_buildProof D hi hlt, depthFor_eq hlt]
  refine Nat.clog_le_of_le_pow (hsize.trans ?_)
  decide

/-- **A committed preimage is accepted** with the proof of its leaf. -/
theorem checkLeaf_build {leaves : List Bytes32} {schemaHash : Bytes32} {i : ℕ}
    {leaf : LeafPreimage} (hleaf : leaves[i]? = some (leafOf D schemaHash i leaf))
    (hsize : leaves.length ≤ maxCollectionSize) (huri : leaf.uri.length ≤ maxUriLen)
    (haddressed : isContentAddressed leaf.uri = true) :
    checkLeaf D (buildRoot D leaves) schemaHash leaves.length i leaf (buildProof D leaves i)
      = .ok () := by
  have hi : i < leaves.length := (List.getElem?_eq_some_iff.mp hleaf).1
  refine checkLeaf_eq_ok_iff.mpr ⟨hi, huri, haddressed, length_buildProof_le hi hsize, ?_⟩
  refine verify_build D hleaf ?_
  simp only [maxCollectionSize, u32Size] at *
  omega

/-- **Committed proofs always verify**, for any number of leaves. -/
theorem build_verifies (D : Deployment) (leaves : List Bytes32) (hsize : leaves.length < u32Size)
    (i : ℕ) (leaf : Bytes32) (hleaf : leaves[i]? = some leaf) :
    ∃ proof, (build D leaves).2[i]? = some proof ∧
      proof.length = depthFor leaves.length ∧
      verify D leaf i leaves.length proof (build D leaves).1 = true ∧
      (leaves.length ≤ maxCollectionSize →
        proof.length ≤ maxMerkleDepth ∧
        ∀ (schemaHash : Bytes32) (preimage : LeafPreimage),
          leafOf D schemaHash i preimage = leaf → preimage.uri.length ≤ maxUriLen →
          isContentAddressed preimage.uri = true →
          checkLeaf D (build D leaves).1 schemaHash leaves.length i preimage proof = .ok ()) := by
  have hi : i < leaves.length := (List.getElem?_eq_some_iff.mp hleaf).1
  refine ⟨buildProof D leaves i, ?_, length_buildProof D hi hsize, verify_build D hleaf hsize, ?_⟩
  · simp [build, hi]
  · intro hcap
    refine ⟨length_buildProof_le hi hcap, ?_⟩
    rintro schemaHash preimage rfl huri haddressed
    exact checkLeaf_build hleaf hcap huri haddressed

/-- A preimage with the shortest URI that is content-addressed. -/
def smallLeaf : LeafPreimage where
  traitValues := fun _ => 0
  salt := Bytes32.zero
  imageSha256 := Bytes32.zero
  jsonSha256 := Bytes32.zero
  uri := [97, 114, 58, 47, 47, 120]

/-- Three leaves of the small vault; the last one is paired with itself. -/
def smallLeaves : List Bytes32 :=
  (List.range 3).map fun i => leafOf smallVault (Bytes32.fill 50) i smallLeaf

theorem build_verifies_last :
    ∃ proof, (build smallVault smallLeaves).2[2]? = some proof ∧ proof.length = 2 ∧
      checkLeaf smallVault (build smallVault smallLeaves).1 (Bytes32.fill 50) 3 2 smallLeaf proof
        = .ok () := by
  obtain ⟨proof, hproof, hlen, -, hcheck⟩ :=
    build_verifies smallVault smallLeaves (by decide) 2 _ (by simp [smallLeaves]; rfl)
  exact ⟨proof, hproof, hlen, (hcheck (by decide)).2 _ _ rfl (by decide) (by decide)⟩

/-! ## What the two checks hash -/

def traitsPreimage (schemaHash : Bytes32) (leaf : LeafPreimage) : Bytes :=
  schemaHash.bytes ++ traitBytes leaf.traitValues

def artPreimage (leaf : LeafPreimage) : Bytes :=
  leaf.salt.bytes ++ leaf.imageSha256.bytes ++ leaf.jsonSha256.bytes ++ leaf.uri

def leafPreimage (D : Deployment) (schemaHash : Bytes32) (index : ℕ) (leaf : LeafPreimage) :
    Bytes :=
  [0] ++ leafDomain ++ D.launchConfigKey.bytes ++ leBytes 4 index
    ++ (traitsHash D schemaHash leaf.traitValues).bytes
    ++ (artHash D leaf.salt leaf.imageSha256 leaf.jsonSha256 leaf.uri).bytes

def nodePreimage (pair : Bytes32 × Bytes32) : Bytes := [1] ++ pair.1.bytes ++ pair.2.bytes

/-- The strings hashed for the leaf of a preimage. -/
def leafStrings (D : Deployment) (schemaHash : Bytes32) (index : ℕ) (leaf : LeafPreimage) :
    List Bytes :=
  [traitsPreimage schemaHash leaf, artPreimage leaf, leafPreimage D schemaHash index leaf]

/-- The strings that `checkLeaf` hashes: those for the leaf, and one for each entry of
the proof. -/
def hashedStrings (D : Deployment) (schemaHash : Bytes32) (index : ℕ) (leaf : LeafPreimage)
    (proof : List Bytes32) : List Bytes :=
  leafStrings D schemaHash index leaf
    ++ (PairTree.combined (nodeHash D) proof index (leafOf D schemaHash index leaf)).map
      nodePreimage

/-- The two lists exhibit a collision of SHA-256. -/
def Collide (D : Deployment) (strings strings' : List Bytes) : Prop :=
  ∃ s ∈ strings, ∃ t ∈ strings', s ≠ t ∧ D.sha256 s = D.sha256 t

theorem Collide.mono {a b a' b' : List Bytes} (h : Collide D a b) (ha : a ⊆ a') (hb : b ⊆ b') :
    Collide D a' b' := by
  obtain ⟨s, hs, t, ht, hne, heq⟩ := h
  exact ⟨s, ha hs, t, hb ht, hne, heq⟩

/-! ## The encodings are injective -/

theorem append_bytes_inj {a a' : Bytes32} {b b' : Bytes} (h : a.bytes ++ b = a'.bytes ++ b') :
    a = a' ∧ b = b' := by
  obtain ⟨ha, hb⟩ := List.append_inj h (by rw [a.length_eq, a'.length_eq])
  exact ⟨Bytes32.ext_bytes ha, hb⟩

attribute [ext] LeafPreimage

theorem traitBytes_inj {t t' : Fin 8 → UInt16} (h : traitBytes t = traitBytes t') : t = t' := by
  have hvalue : Function.Injective fun v : UInt16 => leBytes 2 v.toNat := fun v w hvw =>
    UInt16.toNat_inj.mp (leBytes_inj v.toNat_lt w.toNat_lt hvw)
  refine List.ofFn_injective (flatMap_inj (n := 2) ?_ hvalue (by simp) h)
  intro v
  exact length_leBytes 2 v.toNat

theorem traitsPreimage_inj {schemaHash : Bytes32} {leaf leaf' : LeafPreimage}
    (h : traitsPreimage schemaHash leaf = traitsPreimage schemaHash leaf') :
    leaf.traitValues = leaf'.traitValues :=
  traitBytes_inj (append_bytes_inj h).2

/-- The URI is the only part of variable length, and it comes last. -/
theorem artPreimage_inj {leaf leaf' : LeafPreimage} (h : artPreimage leaf = artPreimage leaf') :
    leaf.salt = leaf'.salt ∧ leaf.imageSha256 = leaf'.imageSha256 ∧
      leaf.jsonSha256 = leaf'.jsonSha256 ∧ leaf.uri = leaf'.uri := by
  simp only [artPreimage, List.append_assoc] at h
  obtain ⟨hsalt, h⟩ := append_bytes_inj h
  obtain ⟨himage, h⟩ := append_bytes_inj h
  obtain ⟨hjson, huri⟩ := append_bytes_inj h
  exact ⟨hsalt, himage, hjson, huri⟩

theorem leafPreimage_inj {schemaHash : Bytes32} {index : ℕ} {leaf leaf' : LeafPreimage}
    (h : leafPreimage D schemaHash index leaf = leafPreimage D schemaHash index leaf') :
    traitsHash D schemaHash leaf.traitValues = traitsHash D schemaHash leaf'.traitValues ∧
      artHash D leaf.salt leaf.imageSha256 leaf.jsonSha256 leaf.uri
        = artHash D leaf'.salt leaf'.imageSha256 leaf'.jsonSha256 leaf'.uri := by
  simp only [leafPreimage, List.append_assoc, List.append_cancel_left_eq] at h
  obtain ⟨htraits, hart⟩ := append_bytes_inj h
  exact ⟨htraits, Bytes32.ext_bytes hart⟩

theorem nodePreimage_inj : Function.Injective nodePreimage := by
  rintro ⟨l, r⟩ ⟨l', r'⟩ h
  simp only [nodePreimage, List.append_assoc, List.append_cancel_left_eq] at h
  obtain ⟨rfl, hr⟩ := append_bytes_inj h
  rw [Bytes32.ext_bytes hr]

/-! ## Binding -/

/-- Two preimages with one leaf are equal, or a collision is hashed for them. -/
theorem leafOf_inj_or {schemaHash : Bytes32} {index : ℕ} {leaf leaf' : LeafPreimage}
    (h : leafOf D schemaHash index leaf = leafOf D schemaHash index leaf') :
    leaf = leaf' ∨ Collide D (leafStrings D schemaHash index leaf)
      (leafStrings D schemaHash index leaf') := by
  -- from the outside in: the leaf's string, then the strings of the two hashes in it
  by_cases hleaf : leafPreimage D schemaHash index leaf = leafPreimage D schemaHash index leaf'
  swap
  · exact Or.inr ⟨_, by simp [leafStrings], _, by simp [leafStrings], hleaf, h⟩
  obtain ⟨htraitsHash, hartHash⟩ := leafPreimage_inj hleaf
  by_cases htraits : traitsPreimage schemaHash leaf = traitsPreimage schemaHash leaf'
  swap
  · exact Or.inr ⟨_, by simp [leafStrings], _, by simp [leafStrings], htraits, htraitsHash⟩
  by_cases hart : artPreimage leaf = artPreimage leaf'
  swap
  · exact Or.inr ⟨_, by simp [leafStrings], _, by simp [leafStrings], hart, hartHash⟩
  obtain ⟨hsalt, himage, hjson, huri⟩ := artPreimage_inj hart
  exact Or.inl (LeafPreimage.ext (traitsPreimage_inj htraits) hsalt himage hjson huri)

/-- **The settler has no freedom over the metadata.**  Whatever the root: two inputs
accepted for one index are the same, or they exhibit a collision. -/
theorem checkLeaf_binding (D : Deployment) (traitRoot schemaHash : Bytes32) (size index : ℕ)
    (leaf leaf' : LeafPreimage) (proof proof' : List Bytes32)
    (h : checkLeaf D traitRoot schemaHash size index leaf proof = .ok ())
    (h' : checkLeaf D traitRoot schemaHash size index leaf' proof' = .ok ()) :
    (leaf = leaf' ∧ proof = proof') ∨
      Collide D (hashedStrings D schemaHash index leaf proof)
        (hashedStrings D schemaHash index leaf' proof') := by
  obtain ⟨-, -, -, -, hverify⟩ := checkLeaf_eq_ok_iff.mp h
  obtain ⟨-, -, -, -, hverify'⟩ := checkLeaf_eq_ok_iff.mp h'
  obtain ⟨-, hlen, hclimb⟩ := verify_eq_true_iff.mp hverify
  obtain ⟨-, hlen', hclimb'⟩ := verify_eq_true_iff.mp hverify'
  rcases PairTree.climb_inj_or (nodeHash D) (hlen.trans hlen'.symm) (hclimb.trans hclimb'.symm)
    with ⟨hleaf, rfl⟩ | ⟨a, ha, b, hb, hne, hnode⟩
  · refine (leafOf_inj_or hleaf).imp (fun hleaf => ⟨hleaf, rfl⟩) ?_
    intro hcollide
    exact hcollide.mono (List.subset_append_left _ _) (List.subset_append_left _ _)
  · refine Or.inr ⟨nodePreimage a, ?_, nodePreimage b, ?_, nodePreimage_inj.ne hne, hnode⟩
    · exact List.mem_append_right _ (List.mem_map_of_mem ha)
    · exact List.mem_append_right _ (List.mem_map_of_mem hb)

def smallProof : List Bytes32 := List.replicate 7 Bytes32.zero

/-- The root of a tree with the small leaf at 26. -/
def smallRoot : Bytes32 :=
  PairTree.climb (nodeHash smallVault) smallProof 26
    (leafOf smallVault (Bytes32.fill 50) 26 smallLeaf)

theorem checkLeaf_small :
    checkLeaf smallVault smallRoot (Bytes32.fill 50) 100 26 smallLeaf smallProof = .ok () :=
  checkLeaf_eq_ok_iff.mpr ⟨by decide, by decide, by decide, by decide,
    verify_eq_true_iff.mpr ⟨by decide, by decide, rfl⟩⟩

theorem checkLeaf_binding_small :
    checkLeaf smallVault smallRoot (Bytes32.fill 50) 100 26 smallLeaf smallProof = .ok () ∧
      ((smallLeaf = smallLeaf ∧ smallProof = smallProof) ∨
        Collide smallVault (hashedStrings smallVault (Bytes32.fill 50) 26 smallLeaf smallProof)
          (hashedStrings smallVault (Bytes32.fill 50) 26 smallLeaf smallProof)) :=
  ⟨checkLeaf_small, checkLeaf_binding smallVault smallRoot (Bytes32.fill 50) 100 26 smallLeaf
    smallLeaf smallProof smallProof checkLeaf_small checkLeaf_small⟩

end HybridVault
