import HybridVault.Launchpad.Dbc
import HybridVault.Launchpad.Launch

/-!
# Registering a bonding curve

`register_dbc_launch` binds a token that the DBC program has made to a launch record.  It
creates no mint: it verifies what is there.

* `handleRegisterDbcLaunch` — the accounts struct and the handler, in the order of the
  source.
* `Registrable` — what it verifies, and `handleRegisterDbcLaunch_eq_ok` what it does.
* `handleRegisterDbcLaunch_of_registrable` — nothing else stands in the way: whoever makes
  the buffer account first, or sends lamports to an address, cannot stop a registration.
-/

namespace HybridVault.Launchpad

open Foundations

/-- `RegisterDbcParams`. -/
structure RegisterDbcParams where
  ratioWholeTokens : UInt64
  collectionSize : UInt64
deriving DecidableEq

/-- The launch parameters of a registration: decimals come from the mint, the threshold from
DBC's config. -/
def RegisterDbcParams.launchParams (params : RegisterDbcParams) (m : Mint) (cfg : DbcConfig) :
    LaunchParams where
  decimals := m.decimals
  ratioWholeTokens := params.ratioWholeTokens
  collectionSize := params.collectionSize
  graduationThresholdLamports := cfg.migrationQuoteThreshold

/-- The account of the buffer. -/
abbrev Address.buffer (mint : Bytes32) : Address := .associatedToken .dbcBuffer mint

/-- The record `register_dbc_launch` writes. -/
def registeredConfig (P : Platform) (creator mint dbcConfig dbcPool : Bytes32) (pool : DbcPool)
    (lp : LaunchParams) (amounts : Machine.DerivedAmounts) (launchedAt : Int64) :
    LaunchConfig where
  version := .ofNat launchConfigVersion
  bump := P.bump (.launchConfig mint)
  mintAuthorityBump := 0
  creator := creator
  mint := mint
  launchDestination := pool.baseVault
  launchVault := dbcPoolAuthority
  launchVaultBump := 0
  decimals := lp.decimals
  totalSupplyBase := amounts.totalSupplyBase
  ratioWholeTokens := lp.ratioWholeTokens
  ratioBase := amounts.ratioBase
  collectionSize := lp.collectionSize
  maxTokensInNftForm := amounts.maxTokensInNftForm
  feeLamports := amounts.feeLamports
  feeRecipient := P.feeRecipient
  graduationThresholdLamports := lp.graduationThresholdLamports
  graduationSlicePct := amounts.graduationSlicePct
  launchedAt := launchedAt
  dbcConfig := dbcConfig
  dbcPool := dbcPool

/-- The checks of the curve's configuration. -/
def checkDbcConfig (P : Platform) (cfg : DbcConfig) (m : Mint)
    (amounts : Machine.DerivedAmounts) : Res Unit :=
  check (cfg.quoteMint = wrappedSolMint ∧ cfg.tokenType = dbcTokenTypeSpl ∧
    cfg.tokenDecimal = m.decimals ∧ cfg.fixedTokenSupply = true ∧
    cfg.preMigrationTokenSupply = amounts.totalSupplyBase ∧
    cfg.postMigrationTokenSupply = amounts.totalSupplyBase ∧
    cfg.tokenUpdateAuthority = dbcTokenAuthorityImmutable ∧
    cfg.leftoverReceiver = P.key .dbcBuffer) .DbcConfigRejected

/-- The checks of the mint. -/
def checkDbcMint (m : Mint) (amounts : Machine.DerivedAmounts) : Res Unit :=
  check (m.mintAuthority = none ∧ m.freezeAuthority = none ∧
    m.supply = amounts.totalSupplyBase.toNat) .DbcMintRejected

/-- `register_dbc_launch`.  `creator` signs.  The mint is deserialised and the account of the
record made before the handler runs. -/
def handleRegisterDbcLaunch (P : Platform) (l : Ledger) (creator mint dbcConfig dbcPool : Bytes32)
    (bufferTokens : Address) (feeRecipient : Bytes32) (params : RegisterDbcParams) :
    Res Ledger := do
  let m ← expect (l.accounts (.raw mint)).asMint .anchor
  let l ← initLaunchConfig P l creator mint
  check (feeRecipient = P.feeRecipient) .FeeRecipientInvalid
  checkFeeRecipient l feeRecipient
  checkMintCost P
  check (isApprovedDbcConfig P dbcConfig = true) .DbcConfigNotApproved
  let pool ← expect (← loadPool (l.accounts (.raw dbcPool))) (.launch .DbcAccountInvalid)
  let cfg ← expect (← loadConfig (l.accounts (.raw dbcConfig))) (.launch .DbcAccountInvalid)
  check (pool.baseMint = mint) .DbcAccountInvalid
  check (pool.config = dbcConfig) .DbcAccountInvalid
  check (pool.poolType = dbcTokenTypeSpl) .DbcAccountInvalid
  check (pool.creator = creator) .DbcCreatorMismatch
  check (pool.isMigrated = false ∧ pool.graduated = false) .DbcAlreadyGraduated
  let lp := params.launchParams m cfg
  let amounts ← (Machine.validate lp).mapError Fault.params
  checkDbcConfig P cfg m amounts
  checkDbcMint m amounts
  check (bufferTokens = .buffer mint) .DbcConfigRejected
  let l ← l.associatedTokenCreateIdempotent P (.raw creator) bufferTokens .dbcBuffer mint
  check (isExactTierFee amounts.feeLamports.toNat params.ratioWholeTokens.toNat = true)
    .FeeNotTier
  return l.write (.launchConfig mint) { l.accounts (.launchConfig mint) with
    data := .launchConfig
      (registeredConfig P creator mint dbcConfig dbcPool pool lp amounts l.unixTimestamp) }

variable {P : Platform} {l l' : Ledger} {creator mint dbcConfig dbcPool feeRecipient : Bytes32}
  {bufferTokens : Address} {params : RegisterDbcParams}

/-! ## What a registration verifies -/

/-- What `register_dbc_launch` asks of the curve and of its token. -/
structure Registrable (P : Platform) (l : Ledger) (creator mint dbcConfig dbcPool : Bytes32)
    (params : RegisterDbcParams) (m : Mint) (pool : DbcPool) (cfg : DbcConfig)
    (amounts : Machine.DerivedAmounts) : Prop where
  mint_eq : (l.accounts (.raw mint)).asMint = some m
  approved : isApprovedDbcConfig P dbcConfig = true
  pool_eq : loadPool (l.accounts (.raw dbcPool)) = .ok (some pool)
  config_eq : loadConfig (l.accounts (.raw dbcConfig)) = .ok (some cfg)
  baseMint : pool.baseMint = mint
  config : pool.config = dbcConfig
  poolType : pool.poolType = dbcTokenTypeSpl
  creator : pool.creator = creator
  notMigrated : pool.isMigrated = false
  validated : Machine.validate (params.launchParams m cfg) = .ok amounts
  quoteMint : cfg.quoteMint = wrappedSolMint
  tokenType : cfg.tokenType = dbcTokenTypeSpl
  tokenDecimal : cfg.tokenDecimal = m.decimals
  fixedTokenSupply : cfg.fixedTokenSupply = true
  preMigrationTokenSupply : cfg.preMigrationTokenSupply = amounts.totalSupplyBase
  postMigrationTokenSupply : cfg.postMigrationTokenSupply = amounts.totalSupplyBase
  tokenUpdateAuthority : cfg.tokenUpdateAuthority = dbcTokenAuthorityImmutable
  leftoverReceiver : cfg.leftoverReceiver = P.key .dbcBuffer
  mintAuthority : m.mintAuthority = none
  freezeAuthority : m.freezeAuthority = none
  supply : m.supply = amounts.totalSupplyBase.toNat

/-- The buffer account after a registration. -/
def bufferAccount (l : Ledger) (mint : Bytes32) : Account :=
  if (l.accounts (.buffer mint)).Dataless then
    { l.accounts (.buffer mint) with
      owner := .token
      data := .token ⟨mint, .dbcBuffer, 0, none, none⟩ }
  else l.accounts (.buffer mint)

/-- The two accounts a registration writes. -/
def registeredAccounts (P : Platform) (l : Ledger) (creator mint dbcConfig dbcPool : Bytes32)
    (pool : DbcPool) (lp : LaunchParams) (amounts : Machine.DerivedAmounts) : Address → Account :=
  Function.update (Function.update l.accounts
    (.launchConfig mint) { l.accounts (.launchConfig mint) with
      owner := .hybridLaunch
      data := .launchConfig
        (registeredConfig P creator mint dbcConfig dbcPool pool lp amounts l.unixTimestamp) })
    (.buffer mint) (bufferAccount l mint)

/-- **A registration verifies the curve and its token, and writes nothing but the record**
and, where it is missing, the buffer account. -/
theorem handleRegisterDbcLaunch_eq_ok
    (h : handleRegisterDbcLaunch P l creator mint dbcConfig dbcPool bufferTokens feeRecipient params
      = .ok l') :
    ∃ m pool cfg amounts, Registrable P l creator mint dbcConfig dbcPool params m pool cfg amounts ∧
      (l.accounts (.launchConfig mint)).Dataless ∧ l.AssociatedReady .dbcBuffer mint ∧
      l'.unixTimestamp = l.unixTimestamp ∧
      l'.accounts = registeredAccounts P l creator mint dbcConfig dbcPool pool
        (params.launchParams m cfg) amounts := by
  simp only [handleRegisterDbcLaunch, checkDbcConfig, checkDbcMint, bind_eq_ok_iff,
    require_eq_ok_iff, expect_eq_ok_iff, mapError_eq_ok_iff, pure_eq_ok_iff] at h
  obtain ⟨m, hm, l₁, hconfig, -, -, -, -, -, -, -, happroved, _, hpool, pool, rfl, _, hcfg, cfg,
    rfl, -, hbase, -, hpc, -, htype, -, hcreator, -, ⟨hmigrated, -⟩, amounts, hvalidate, -,
    ⟨hquote, htoken, hdec, hfixed, hpre, hpost, hupdate, hleft⟩, -, ⟨hauth, hfreeze, hsupply⟩, -,
    rfl, l₂, hbuffer, -, -, rfl⟩ := h
  obtain ⟨hfree, rfl⟩ := initLaunchConfig_eq_ok hconfig
  obtain ⟨-, hready, rfl⟩ := Ledger.associatedTokenCreateIdempotent_eq_ok hbuffer
  refine ⟨m, pool, cfg, amounts, ⟨hm, happroved, by simpa using hpool, by simpa using hcfg, hbase,
    hpc, htype, hcreator, hmigrated, hvalidate, hquote, htoken, hdec, hfixed, hpre, hpost, hupdate,
    hleft, hauth, hfreeze, hsupply⟩, hfree, ?_, ?_, ?_⟩
  · simpa [Ledger.AssociatedReady] using hready
  · split <;> simp [Ledger.associatedTokenCreated]
  · funext k
    by_cases hbufferKey : k = .buffer mint
    · subst hbufferKey
      by_cases hdataless : (l.accounts (.buffer mint)).Dataless
      · simp [registeredAccounts, bufferAccount, hdataless, Ledger.associatedTokenCreated]
      · simp [registeredAccounts, bufferAccount, hdataless]
    · by_cases hk : k = .launchConfig mint
      · subst hk
        by_cases hdataless : (l.accounts (.buffer mint)).Dataless
        · simp [registeredAccounts, hdataless, Ledger.associatedTokenCreated, Account.created]
        · simp [registeredAccounts, hdataless, Account.created]
      · by_cases hdataless : (l.accounts (.buffer mint)).Dataless
        · simp [registeredAccounts, hbufferKey, hk, hdataless, Ledger.associatedTokenCreated]
        · simp [registeredAccounts, hbufferKey, hk, hdataless]

/-! ## When a registration succeeds -/

/-- What a creator pays for the record and the buffer account, less what others have sent
there. -/
def registerCost (P : Platform) (l : Ledger) (mint : Bytes32) : ℕ :=
  (P.minimumBalance launchConfigSpace - l.lamports (.launchConfig mint))
    + (max (P.minimumBalance 165) 1 - l.lamports (.buffer mint))

/-- **Nothing else stands in the way of a registration.**  Where what it verifies holds, it
succeeds whatever lamports anyone has sent to the record's address, and whether or not
someone has made the buffer account before. -/
theorem handleRegisterDbcLaunch_of_registrable {m : Mint} {pool : DbcPool} {cfg : DbcConfig}
    {amounts : Machine.DerivedAmounts}
    (h : Registrable P l creator mint dbcConfig dbcPool params m pool cfg amounts)
    (hready : Ready P l) (hconfig : (l.accounts (.launchConfig mint)).Dataless)
    (hbuffer : l.AssociatedReady .dbcBuffer mint) (hcreator : (l.accounts (.raw creator)).Dataless)
    (hcost : registerCost P l mint ≤ l.lamports (.raw creator)) :
    ∃ l', handleRegisterDbcLaunch P l creator mint dbcConfig dbcPool (.buffer mint) P.feeRecipient
      params = .ok l' := by
  unfold registerCost at hcost
  obtain ⟨l₁, hinit, hl₁⟩ := initLaunchConfig_of_dataless (P := P) hconfig hcreator (by omega)
  have hpaid := hl₁.paid
  have hsame := hl₁.others (.buffer mint) (by simp) (by simp)
  obtain ⟨l₂, htokens⟩ : ∃ l₂, l₁.associatedTokenCreateIdempotent P (.raw creator) (.buffer mint)
      .dbcBuffer mint = .ok l₂ := by
    apply Ledger.associatedTokenCreateIdempotent_of_ready
    · unfold Ledger.AssociatedReady
      rwa [hl₁.accounts_of_ne (.buffer mint) (by simp)]
    · rw [hl₁.accounts_of_ne (.raw mint) (by simp), h.mint_eq]
      rfl
    · rwa [hl₁.accounts_of_ne (.raw creator) (by simp)]
    · simp
    · intro _
      show max (P.minimumBalance 165) 1 - l₁.lamports (.buffer mint) ≤ l₁.lamports (.raw creator)
      omega
  have hpool : loadPool (l₁.accounts (.raw dbcPool)) = .ok (some pool) := by
    rw [hl₁.accounts_of_ne (.raw dbcPool) (by simp)]
    exact h.pool_eq
  have hcfg : loadConfig (l₁.accounts (.raw dbcConfig)) = .ok (some cfg) := by
    rw [hl₁.accounts_of_ne (.raw dbcConfig) (by simp)]
    exact h.config_eq
  simp only [handleRegisterDbcLaunch, checkDbcConfig, checkDbcMint, exists_bind_eq_ok_iff,
    require_eq_ok_iff, expect_eq_ok_iff, mapError_eq_ok_iff, pure_eq_ok_iff]
  exact ⟨m, h.mint_eq, l₁, hinit, (), trivial, (),
    (hready.of_createdFor hl₁ (by simp)).checkFeeRecipient, (), require_of hready.rent, (),
    h.approved, _, hpool, pool, rfl, _, hcfg, cfg, rfl, (), h.baseMint, (), h.config, (),
    h.poolType, (), h.creator, (), ⟨h.notMigrated, by simp [DbcPool.graduated, h.notMigrated]⟩,
    amounts, h.validated, (), ⟨h.quoteMint, h.tokenType, h.tokenDecimal, h.fixedTokenSupply,
    h.preMigrationTokenSupply, h.postMigrationTokenSupply, h.tokenUpdateAuthority,
    h.leftoverReceiver⟩, (), ⟨h.mintAuthority, h.freezeAuthority, h.supply⟩, (), trivial, l₂,
    htokens, (), isExactTierFee_of_validate h.validated, _, rfl⟩

end HybridVault.Launchpad
