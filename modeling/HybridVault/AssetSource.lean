import HybridVault.Programs

/-!
# Where assets come from

Nothing is minted in advance.  The first time a draw picks an index, settle mints
its asset straight to the user from the committed leaf, paid by the request's mint
escrow; later draws of the index transfer the asset.  Every flow ends by checking
the state it left behind.

A pre-funded address would make its creation fail, so whatever it holds is moved
away first (`drainPrefundedPda`); the same function refunds an escrow.
-/

namespace HybridVault

open Foundations

/-! ## Committed leaves -/

def maxNameLen : ℕ := 32

def maxUriLen : ℕ := 200

def maxMerkleDepth : ℕ := 17

/-- `ALLOWED_URI_PREFIXES`: `ipfs://` and `ar://`. -/
def allowedUriPrefixes : List Bytes :=
  [[105, 112, 102, 115, 58, 47, 47], [97, 114, 58, 47, 47]]

def isContentAddressed (uri : Bytes) : Bool :=
  allowedUriPrefixes.any fun p => p.length < uri.length && p.isPrefixOf uri

/-- Leaf preimage supplied by the settler for a lazy mint. -/
structure LeafPreimage where
  traitValues : Fin 8 → UInt16
  salt : Bytes32
  imageSha256 : Bytes32
  jsonSha256 : Bytes32
  /-- In UTF-8; becomes the asset's URI. -/
  uri : Bytes

/-- Settle's lazy-mint arguments. -/
structure MintArgs where
  leaf : LeafPreimage
  proof : List Bytes32

/-- Leaf v2 of a preimage. -/
def leafOf (D : Deployment) (schemaHash : Bytes32) (index : ℕ) (leaf : LeafPreimage) : Bytes32 :=
  leafHash D D.launchConfigKey index (traitsHash D schemaHash leaf.traitValues)
    (artHash D leaf.salt leaf.imageSha256 leaf.jsonSha256 leaf.uri)

/-- Recompute the leaf from the preimage and verify it against the committed
root. -/
def checkLeaf (D : Deployment) (traitRoot schemaHash : Bytes32) (collectionSize index : ℕ)
    (leaf : LeafPreimage) (proof : List Bytes32) : Res Unit := do
  check (index < collectionSize) .IndexOutOfRange
  check (leaf.uri.length ≤ maxUriLen) .MetadataTooLong
  check (isContentAddressed leaf.uri = true) .UriNotContentAddressed
  check (proof.length ≤ maxMerkleDepth) .InvalidMerkleProof
  check (verify D (leafOf D schemaHash index leaf) index collectionSize proof traitRoot = true)
    .InvalidMerkleProof

/-- `#` and the index in decimal. -/
def assetName (index : ℕ) : Bytes :=
  35 :: (Nat.toDigits 10 index).map fun ch => UInt8.ofNat ch.toNat

/-! ## Flows -/

/-- Move whatever a data-less address holds to `dest`. -/
def drainPrefundedPda (c : Chain) (pda dest : Pubkey) : Res Chain :=
  if c.lamports pda = 0 then
    return c
  else do
    check (c.Dataless pda) .AssetStateMismatch
    systemTransfer c pda dest (c.lamports pda)

/-- Move all lamports of a mint escrow to `dest`. -/
def refundEscrow (c : Chain) (escrow dest : Pubkey) : Res Chain := drainPrefundedPda c escrow dest

/-- What a lazy mint may cost at most, at live rent. -/
def mintNeed (D : Deployment) : ℕ :=
  saturatingAdd (D.minimumBalance coreAssetSpaceBytes) coreCreateFeeLamports

/-- Mint asset `index` straight to `user`, paid by the escrow. -/
def mintToUser (D : Deployment) (c : Chain) (asset escrow user : Pubkey) (index : ℕ)
    (name uri : Bytes) : Res Chain := do
  check (asset = D.assetAddress index) .WrongAsset
  check (mintNeed D ≤ c.lamports escrow) .MintEscrowShort
  let c ← drainPrefundedPda c asset escrow
  let c ← coreCreate D c asset D.collection D.vaultAuthority escrow user name uri
  assertAssetState c asset D.collection user
  return c

/-- Vault to user, signed by `vault_authority`. -/
def deliver (D : Deployment) (c : Chain) (asset user : Pubkey) : Res Chain := do
  let c ← coreTransfer c asset D.collection D.vaultAuthority user
  assertAssetState c asset D.collection user
  return c

/-- User to vault; the user signs as owner. -/
def takeBack (D : Deployment) (c : Chain) (asset user : Pubkey) : Res Chain := do
  let c ← coreTransfer c asset D.collection user D.vaultAuthority
  assertAssetState c asset D.collection D.vaultAuthority
  return c

/-! ## What the flows do -/

theorem drainPrefundedPda_eq_ok_iff {c c' : Chain} {pda dest : Pubkey} :
    drainPrefundedPda c pda dest = .ok c' ↔
      (c.lamports pda = 0 ∨ c.Dataless pda) ∧
        c.setLamports (moveAmount c.lamports pda dest (c.lamports pda)) = c' := by
  by_cases h : c.lamports pda = 0
  · simp [drainPrefundedPda, h, Chain.setLamports]
  · simp [drainPrefundedPda, h, systemTransfer_eq_ok_iff]

/-- An asset passed between two owners. -/
theorem coreTransfer_assert_eq_ok_iff {c c' : Chain} {asset collection authority owner : Pubkey} :
    (do
        let c ← coreTransfer c asset collection authority owner
        assertAssetState c asset collection owner
        return c) = (.ok c' : Res Chain) ↔
      ∃ a, c.assets asset = .live a ∧ a.owner = authority ∧
        a.updateAuthority = .collection collection ∧
        c.setAssets (Function.update c.assets asset (.live { a with owner := owner })) = c' := by
  simp only [bind_eq_ok_iff, coreTransfer_eq_ok_iff, pure_eq_ok_iff]
  constructor
  · rintro ⟨_, ⟨a, ha, howner, hua, rfl⟩, -, -, rfl⟩
    exact ⟨a, ha, howner, hua, rfl⟩
  · rintro ⟨a, ha, howner, hua, rfl⟩
    refine ⟨_, ⟨a, ha, howner, hua, rfl⟩, (), ?_, rfl⟩
    simp [assertAssetState, hua]

theorem deliver_eq_ok_iff {D : Deployment} {c c' : Chain} {asset user : Pubkey} :
    deliver D c asset user = .ok c' ↔
      ∃ a, c.assets asset = .live a ∧ a.owner = D.vaultAuthority ∧
        a.updateAuthority = .collection D.collection ∧
        c.setAssets (Function.update c.assets asset (.live { a with owner := user })) = c' :=
  coreTransfer_assert_eq_ok_iff

theorem takeBack_eq_ok_iff {D : Deployment} {c c' : Chain} {asset user : Pubkey} :
    takeBack D c asset user = .ok c' ↔
      ∃ a, c.assets asset = .live a ∧ a.owner = user ∧
        a.updateAuthority = .collection D.collection ∧
        c.setAssets (Function.update c.assets asset (.live { a with owner := D.vaultAuthority }))
          = c' :=
  coreTransfer_assert_eq_ok_iff

/-- The lamports after a lazy mint: what the asset's address held goes to the
escrow, and the cost comes out of it. -/
def mintLamports (l : Pubkey → ℕ) (asset escrow : Pubkey) (cost : ℕ) : Pubkey → ℕ :=
  moveAmount (moveAmount l asset escrow (l asset)) escrow asset cost

/-- The chain after a lazy mint of `asset` into a collection that was `col`. -/
def minted (D : Deployment) (c : Chain) (col : BaseCollection) (asset escrow user : Pubkey)
    (name uri : Bytes) : Chain :=
  ((c.setAssets (Function.update c.assets asset (.live {
      owner := user, updateAuthority := .collection D.collection, name := name, uri := uri })))
    |>.setCollection (some { col with
      numMinted := col.numMinted + 1
      currentSize := col.currentSize + 1 }))
    |>.setLamports (mintLamports c.lamports asset escrow (D.coreCreateCost name uri))

theorem mintToUser_eq_ok_iff {D : Deployment} {c c' : Chain} {asset escrow user : Pubkey}
    {index : ℕ} {name uri : Bytes} (hne : asset ≠ escrow) :
    mintToUser D c asset escrow user index name uri = .ok c' ↔
      asset = D.assetAddress index ∧ mintNeed D ≤ c.lamports escrow ∧ c.Dataless asset ∧
        c.Dataless escrow ∧ D.coreCreateCost name uri ≤ c.lamports escrow + c.lamports asset ∧
        ∃ col, c.collection = some col ∧ col.updateAuthority = D.vaultAuthority ∧
          minted D c col asset escrow user name uri = c' := by
  simp only [mintToUser, coreCreate, bind_eq_ok_iff, require_eq_ok_iff, pure_eq_ok_iff,
    expect_eq_ok_iff, drainPrefundedPda_eq_ok_iff]
  constructor
  · rintro ⟨-, hasset, -, hneed, _, ⟨-, rfl⟩, _, ⟨col, hcol, -,
      ⟨hauth, hdata, -, hpayer, hcost⟩, rfl⟩, -, -, rfl⟩
    refine ⟨hasset, hneed, hdata, hpayer, ?_, col, hcol, hauth, rfl⟩
    simpa [moveAmount_dest hne] using hcost
  · rintro ⟨hasset, hneed, hdata, hpayer, hcost, col, hcol, hauth, rfl⟩
    refine ⟨(), hasset, (), hneed, _, ⟨Or.inr hdata, rfl⟩, _, ⟨col, hcol, (),
      ⟨hauth, hdata, ?_, hpayer, ?_⟩, rfl⟩, (), ?_, rfl⟩
    · simp [moveAmount_source hne]
    · simpa [moveAmount_dest hne] using hcost
    · simp [assertAssetState]

end HybridVault
