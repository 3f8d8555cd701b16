import HybridVault.AssetSource
import HybridVault.Solvency

/-!
# Creating and opening a vault

`init_vault` binds a vault to its launch configuration, with its token account, its
collection and its pool, and commits the trait root; converting starts closed.
`open_vault` opens it, once and for all, when the launch has graduated.  There is no
instruction that closes it.
-/

namespace HybridVault

open Foundations

/-! ## init_vault -/

structure InitVaultParams where
  traitRoot : Bytes32
  traitSchemaHash : Bytes32
  /-- In UTF-8. -/
  collectionName : Bytes
  /-- In UTF-8. -/
  collectionUri : Bytes
  sbQueue : Pubkey

/-- `8 + Vault::INIT_SPACE`. -/
def vaultSpace : ℕ := 403

def tokenAccountSpace : ℕ := 165

/-- The vault record `init_vault` writes. -/
def initialVault (params : InitVaultParams) : Vault where
  isOpen := false
  sbQueue := params.sbQueue
  traitRoot := params.traitRoot
  traitSchemaHash := params.traitSchemaHash
  mintedCount := 0
  assetsOutside := 0
  pendingCaptures := 0
  pendingRerolls := 0
  nextSeq := 0
  nextSettleSeq := 0
  openedAtSlot := 0
  totalFeeLamports := 0
  totalCaptures := 0
  totalRerolls := 0
  totalUnwraps := 0
  totalRecommits := 0
  totalExpired := 0

/-- `core_cpi::create_collection`, with the vault authority as update authority. -/
def createCollection (D : Deployment) (c : Chain) : Res Chain := do
  require (c.collection = none ∧ c.Dataless D.collection ∧ c.lamports D.collection = 0)
    (.cpi .mplCore)
  return c.setCollection (some {
    updateAuthority := D.vaultAuthority, numMinted := 0, currentSize := 0 })

/-- `init_vault`. -/
def handleInitVault (D : Deployment) (c : Chain) (creator : Pubkey) (params : InitVaultParams) :
    Res World := do
  constraint creator.IsSigner .NotSigner
  check (.raw D.launchConfig.creator = creator) .NotCreator
  let c ← fundAccount D c creator D.vault vaultSpace
  constraint (c.tokens D.vaultTokens = none) .AccountAlreadyInUse
  let c ← fundAccount D c creator D.vaultTokens tokenAccountSpace
  let c := c.setTokens (Function.update c.tokens D.vaultTokens (some {
    mint := D.mint, owner := D.vaultAuthority, amount := 0 }))
  check (params.collectionName.length ≤ maxNameLen) .MetadataTooLong
  check (params.collectionUri.length ≤ maxUriLen) .MetadataTooLong
  check (isContentAddressed params.collectionUri = true) .UriNotContentAddressed
  check (params.sbQueue ≠ .default) .WrongQueue
  let e ← econ D.launchConfig
  let d ← poolInit c.pool D.vaultKey e.collectionSize
  let c := c.setPool d
  let c ← drainPrefundedPda c D.collection D.vaultAuthority
  let c ← createCollection D c
  return { toChain := c, vault := initialVault params }

/-! ## open_vault -/

/-- `DBC_POOL_DISCRIMINATOR`. -/
def dbcPoolDiscriminator : Bytes := [213, 224, 5, 209, 98, 69, 119, 92]

/-- `DBC_POOL_LEN`. -/
def dbcPoolLen : ℕ := 8 + 416

/-- `DBC_MIGRATION_CREATED_POOL`. -/
def dbcMigrationCreatedPool : ℕ := 3

/-- The fields of a DBC pool that graduation reads. -/
structure DbcPool where
  config : Bytes32
  baseMint : Bytes32
  isMigrated : Bool
  migrationProgress : ℕ

def DbcPool.graduated (p : DbcPool) : Bool :=
  p.isMigrated && p.migrationProgress = dbcMigrationCreatedPool

/-- `dbc::parse_pool`. -/
def parseDbcPool (d : Bytes) : Res (Option DbcPool) :=
  if d.length ≠ dbcPoolLen ∨ slice d 0 8 ≠ dbcPoolDiscriminator then
    return none
  else do
    let config ← rdKey d 72
    let baseMint ← rdKey d 136
    let isMigrated ← rdByte d 305
    let migrationProgress ← rdByte d 308
    return some {
      config := config
      baseMint := baseMint
      isMigrated := isMigrated = 1
      migrationProgress := migrationProgress }

/-- `dbc::load_pool`. -/
def loadDbcPool (acc : RawAccount) : Res (Option DbcPool) :=
  if acc.owner ≠ .dbc then return none else parseDbcPool acc.data

/-- `graduation::verify_dbc`. -/
def verifyDbc (cfg : LaunchConfig) (accounts : RawAccounts) (proof : Pubkey) : Res Unit := do
  check (cfg.dbcPool ≠ Bytes32.zero) .GraduationCheckUnavailable
  check (proof = .raw cfg.dbcPool) .GraduationNotVerified
  let pool ← expect (← loadDbcPool (accounts proof)) (.vault .GraduationNotVerified)
  check (pool.baseMint = cfg.mint) .GraduationNotVerified
  check (pool.config = cfg.dbcConfig) .GraduationNotVerified
  check (pool.graduated = true) .GraduationNotVerified

/-- `open_vault`. -/
def handleOpenVault (D : Deployment) (w : World) (caller graduationProof : Pubkey) :
    Res (World × List PoolEvent) := do
  constraint caller.IsSigner .NotSigner
  let tokens ← vaultTokensAmount D w.toChain
  let e ← econ D.launchConfig
  check (w.vault.isOpen = false) .VaultAlreadyOpen
  let col ← expect w.collection (.vault .AssetStateMismatch)
  check (col.updateAuthority = D.vaultAuthority) .AssetStateMismatch
  check (col.numMinted = w.vault.mintedCount ∧ col.currentSize = w.vault.mintedCount)
    .AssetAccountingBroken
  verifyDbc D.launchConfig w.accounts graduationProof
  let v := { w.vault with isOpen := true, openedAtSlot := w.slot }
  let p ← loadPool D w.toChain
  check (p.cap = e.collectionSize) .InvalidPoolAccount
  invariantsCheck v e.ratioBase e.collectionSize p tokens
  return ({ w with vault := v }, [])

/-! ## What they do -/

variable {D : Deployment}

/-- **What `init_vault` does**, on a zeroed pool account: a full pool, an empty token
account and an empty collection.  What `init_vault` does not write stays. -/
structure InitEffect (D : Deployment) (c : Chain) (params : InitVaultParams) (w : World) :
    Prop where
  ratio_pos : 0 < D.ratio
  size_pos : 0 < D.size
  size_le : D.size ≤ maxCapacity
  init : poolInit c.pool D.vaultKey D.size = .ok w.pool
  pool : WellFormed D.vaultKey D.size w.pool
  drawable : drawableOf w.pool = List.range D.size
  incoming : incomingOf D.size w.pool = []
  minted : ∀ i, mintedOf D.size w.pool i = false
  vault : w.vault = initialVault params
  tokens : w.tokens = Function.update c.tokens D.vaultTokens (some {
    mint := D.mint, owner := D.vaultAuthority, amount := 0 })
  collection : w.collection = some {
    updateAuthority := D.vaultAuthority, numMinted := 0, currentSize := 0 }
  slot_eq : w.slot = c.slot
  requests_eq : w.requests = c.requests
  randLocks_eq : w.randLocks = c.randLocks
  randomness_eq : w.randomness = c.randomness
  assets_eq : w.assets = c.assets
  accounts_eq : w.accounts = c.accounts

theorem handleInitVault_eq_ok {c : Chain} {creator : Pubkey} {params : InitVaultParams} {w : World}
    (hpool : c.pool = List.replicate (poolAccountSize D.size) 0)
    (h : handleInitVault D c creator params = .ok w) : InitEffect D c params w := by
  simp only [handleInitVault, fundAccount, createCollection, econ, bind_eq_ok_iff,
    require_eq_ok_iff, pure_eq_ok_iff, expect_eq_ok_iff, toU32_eq_some_iff,
    systemTransfer_eq_ok_iff, drainPrefundedPda_eq_ok_iff] at h
  obtain ⟨-, -, -, -, c₁, ⟨-, -, h₁⟩, -, -, c₂, ⟨-, -, h₂⟩, -, -, -, -, -, -, -, -, e,
    ⟨-, -, -, hcap, n, ⟨-, hn⟩, -, ⟨hsize, hratio⟩, he⟩, d, hinit, c₃, ⟨-, h₃⟩, c₄, ⟨-, -, h₄⟩,
    hw⟩ := h
  subst hn he
  obtain ⟨d', hinit', hwf, hdrawable, hincoming, hminted, -⟩ :=
    poolInit_spec D.vaultKey hsize hcap
  have hd : d = d' := by
    simp only [← h₂, ← h₁, Chain.setTokens_pool, Chain.setLamports_pool, hpool] at hinit
    exact Except.ok.inj (hinit.symm.trans hinit')
  rw [← hd] at hwf hdrawable hincoming hminted
  have hp : w.pool = d := by simp [← hw, ← h₄, ← h₃]
  exact {
    ratio_pos := hratio
    size_pos := hsize
    size_le := hcap
    init := by
      rw [hp, hpool, hd]
      exact hinit'
    pool := by rwa [hp]
    drawable := by rwa [hp]
    incoming := by rwa [hp]
    minted := by rwa [hp]
    vault := by simp [← hw]
    tokens := by simp [← hw, ← h₄, ← h₃, ← h₂, ← h₁]
    collection := by simp [← hw, ← h₄]
    slot_eq := by simp [← hw, ← h₄, ← h₃, ← h₂, ← h₁]
    requests_eq := by simp [← hw, ← h₄, ← h₃, ← h₂, ← h₁]
    randLocks_eq := by simp [← hw, ← h₄, ← h₃, ← h₂, ← h₁]
    randomness_eq := by simp [← hw, ← h₄, ← h₃, ← h₂, ← h₁]
    assets_eq := by simp [← hw, ← h₄, ← h₃, ← h₂, ← h₁]
    accounts_eq := by simp [← hw, ← h₄, ← h₃, ← h₂, ← h₁] }

/-- **Opening** changes the vault record only. -/
theorem handleOpenVault_eq_ok {w : World} {caller graduationProof : Pubkey}
    {res : World × List PoolEvent} (h : handleOpenVault D w caller graduationProof = .ok res) :
    w.vault.isOpen = false ∧
      res = (⟨w.toChain, { w.vault with isOpen := true, openedAtSlot := w.slot }⟩, []) := by
  simp only [handleOpenVault, bind_eq_ok_iff, require_eq_ok_iff, pure_eq_ok_iff] at h
  obtain ⟨-, -, -, -, -, -, -, hclosed, -, -, -, -, -, -, -, -, -, -, -, -, -, -, rfl⟩ := h
  exact ⟨hclosed, rfl⟩

end HybridVault
