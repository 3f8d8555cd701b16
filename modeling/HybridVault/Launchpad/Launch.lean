import HybridVault.Launchpad.Accounts

/-!
# Launching

`launch` makes a mint and its launch record in one instruction, and gives the whole supply
to an account nobody can sign for.

* `handleLaunch` — the accounts struct and the handler, in the order of the source.
* `handleLaunch_eq_ok` — what a launch that succeeds has done: it has taken three free
  addresses, and nothing else is written.
* `handleLaunch_of_free` — three free addresses are all it needs, whatever lamports anyone
  has sent there.
-/

namespace HybridVault.Launchpad

open Foundations

/-- `8 + LaunchConfig::INIT_SPACE`. -/
def launchConfigSpace : ℕ := 302

/-- `spl_token::state::Mint::LEN`. -/
def mintLen : ℕ := 82

/-- The account of the launch destination: the associated token account of `launch_vault`. -/
abbrev Address.launchDestination (mint : Bytes32) : Address :=
  .associatedToken (.launchVault mint) mint

/-- The `init` of the record, in the accounts structs of both instructions. -/
def initLaunchConfig (P : Platform) (l : Ledger) (creator mint : Bytes32) : Res Ledger :=
  l.createOrTopUp (.raw creator) (.launchConfig mint) (P.minimumBalance launchConfigSpace)
    launchConfigSpace .hybridLaunch

/-- The checks both instructions make of the fee recipient, an account that fees can always
be credited to. -/
def checkFeeRecipient (l : Ledger) (feeRecipient : Bytes32) : Res Unit := do
  check ((l.accounts (.raw feeRecipient)).owner = .system) .FeeRecipientInvalid
  check ((l.accounts (.raw feeRecipient)).executable = false ∧
    (l.accounts (.raw feeRecipient)).data = .bytes []) .FeeRecipientInvalid

/-- The rent constant behind the economics is still enough. -/
def checkMintCost (P : Platform) : Res Unit :=
  check (P.minimumBalance coreAssetSpaceBytes ≤ coreAssetRentLamports) .MintCostConstantStale

/-- `create_mint_account`: an address that holds lamports already is topped up. -/
def createMintAccount (P : Platform) (l : Ledger) (creator mint : Bytes32) : Res Ledger := do
  if l.lamports (.raw mint) = 0 then
    l.systemCreateAccount (.raw creator) (.raw mint) (P.minimumBalance mintLen) mintLen .token
  else do
    check ((l.accounts (.raw mint)).owner = .system) .MintAccountInUse
    check ((l.accounts (.raw mint)).data = .bytes [] ∧
      (l.accounts (.raw mint)).executable = false) .MintAccountInUse
    let l ← l.topUp (.raw creator) (.raw mint) (P.minimumBalance mintLen)
    let l ← l.systemAllocate (.raw mint) mintLen
    l.systemAssign (.raw mint) .token

/-- The record `launch` writes. -/
def nativeConfig (P : Platform) (creator mint : Bytes32) (params : LaunchParams)
    (amounts : Machine.DerivedAmounts) (launchedAt : Int64) : LaunchConfig where
  version := .ofNat launchConfigVersion
  bump := P.bump (.launchConfig mint)
  mintAuthorityBump := P.bump (.mintAuthority mint)
  creator := creator
  mint := mint
  launchDestination := P.key (.launchDestination mint)
  launchVault := P.key (.launchVault mint)
  launchVaultBump := P.bump (.launchVault mint)
  decimals := params.decimals
  totalSupplyBase := amounts.totalSupplyBase
  ratioWholeTokens := params.ratioWholeTokens
  ratioBase := amounts.ratioBase
  collectionSize := params.collectionSize
  maxTokensInNftForm := amounts.maxTokensInNftForm
  feeLamports := amounts.feeLamports
  feeRecipient := P.feeRecipient
  graduationThresholdLamports := params.graduationThresholdLamports
  graduationSlicePct := amounts.graduationSlicePct
  launchedAt := launchedAt
  dbcConfig := .zero
  dbcPool := .zero

/-- Steps 3 to 6 of `launch`: the fixed supply goes to the launch destination, and nobody can
mint after it. -/
def mintFixedSupply (P : Platform) (l : Ledger) (creator mint : Bytes32)
    (launchDestination : Address) (decimals : UInt8) (totalSupplyBase : ℕ) : Res Ledger := do
  let l ← l.initializeMint2 P mint decimals (.mintAuthority mint) none
  let l ← l.associatedTokenCreate P (.raw creator) launchDestination (.launchVault mint) mint
  let l ← l.mintTo mint launchDestination (.mintAuthority mint) totalSupplyBase
  l.setMintAuthority mint (.mintAuthority mint) none

/-- The defensive post-conditions of `launch`. -/
def checkLaunched (l : Ledger) (mint : Bytes32) (launchDestination : Address)
    (params : LaunchParams) (amounts : Machine.DerivedAmounts) : Res Unit := do
  check ((l.accounts (.raw mint)).owner = .token) .PostLaunchCheckFailed
  let m ← expect (l.accounts (.raw mint)).asMint .anchor
  check (m.supply = amounts.totalSupplyBase.toNat ∧ m.decimals = params.decimals ∧
    m.mintAuthority = none ∧ m.freezeAuthority = none) .PostLaunchCheckFailed
  check ((l.accounts launchDestination).owner = .token) .PostLaunchCheckFailed
  let d ← expect (l.accounts launchDestination).asToken .anchor
  check (d.owner = .launchVault mint ∧ d.mint = mint ∧ d.amount = amounts.totalSupplyBase.toNat ∧
    d.delegate = none ∧ d.closeAuthority = none) .PostLaunchCheckFailed

/-- `launch`.  `creator` and `mint` sign.  The account of the record is made before the
handler runs, by the `init` of the accounts struct. -/
def handleLaunch (P : Platform) (l : Ledger) (creator mint : Bytes32)
    (launchDestination : Address) (feeRecipient : Bytes32) (params : LaunchParams) :
    Res Ledger := do
  let l ← initLaunchConfig P l creator mint
  check (feeRecipient = P.feeRecipient) .FeeRecipientInvalid
  let amounts ← (Machine.validate params).mapError Fault.params
  checkFeeRecipient l feeRecipient
  checkMintCost P
  check (launchDestination = .launchDestination mint) .InvalidLaunchDestination
  let l ← createMintAccount P l creator mint
  let l ← mintFixedSupply P l creator mint launchDestination params.decimals
    amounts.totalSupplyBase.toNat
  checkLaunched l mint launchDestination params amounts
  check (isExactTierFee amounts.feeLamports.toNat params.ratioWholeTokens.toNat = true)
    .FeeNotTier
  return l.write (.launchConfig mint) { l.accounts (.launchConfig mint) with
    data := .launchConfig (nativeConfig P creator mint params amounts l.unixTimestamp) }

variable {P : Platform} {l l' : Ledger} {creator mint feeRecipient : Bytes32}
  {launchDestination : Address} {params : LaunchParams}

/-! ## The record's account -/

theorem initLaunchConfig_eq_ok (h : initLaunchConfig P l creator mint = .ok l') :
    (l.accounts (.launchConfig mint)).Dataless ∧
      l' = l.created (.raw creator) (.launchConfig mint) (P.minimumBalance launchConfigSpace)
        launchConfigSpace .hybridLaunch :=
  Ledger.createOrTopUp_eq_ok h

theorem initLaunchConfig_of_dataless (hconfig : (l.accounts (.launchConfig mint)).Dataless)
    (hcreator : (l.accounts (.raw creator)).Dataless)
    (hlamports : P.minimumBalance launchConfigSpace - l.lamports (.launchConfig mint)
      ≤ l.lamports (.raw creator)) :
    ∃ l', initLaunchConfig P l creator mint = .ok l' ∧
      Ledger.CreatedFor l (.raw creator) (.launchConfig mint) (P.minimumBalance launchConfigSpace)
        launchConfigSpace .hybridLaunch l' :=
  ⟨_, Ledger.createOrTopUp_of_dataless hconfig hcreator (by simp) hlamports,
    Ledger.created_createdFor (by simp)⟩

/-! ## The mint account -/

/-- A mint account is made as any account is. -/
theorem createMintAccount_eq_ok (h : createMintAccount P l creator mint = .ok l') :
    (l.accounts (.raw mint)).Dataless ∧
      l' = l.created (.raw creator) (.raw mint) (P.minimumBalance mintLen) mintLen .token := by
  apply Ledger.createOrTopUp_eq_ok
  unfold createMintAccount at h
  unfold Ledger.createOrTopUp
  split at h
  · rename_i hzero
    rwa [if_pos hzero]
  · rename_i hzero
    simp only [bind_eq_ok_iff, require_eq_ok_iff] at h
    obtain ⟨-, -, -, -, hrest⟩ := h
    rw [if_neg hzero]
    simpa only [bind_eq_ok_iff] using hrest

theorem createMintAccount_of_dataless (hmint : (l.accounts (.raw mint)).Dataless)
    (hexec : (l.accounts (.raw mint)).executable = false)
    (hcreator : (l.accounts (.raw creator)).Dataless) (hne : creator ≠ mint)
    (hlamports : P.minimumBalance mintLen - l.lamports (.raw mint) ≤ l.lamports (.raw creator)) :
    ∃ l', createMintAccount P l creator mint = .ok l' ∧
      Ledger.CreatedFor l (.raw creator) (.raw mint) (P.minimumBalance mintLen) mintLen .token
        l' := by
  have hneRaw : Address.raw creator ≠ .raw mint := fun h => hne (Address.raw.inj h)
  refine ⟨_, ?_, Ledger.created_createdFor hneRaw⟩
  have hcreate : l.createOrTopUp (.raw creator) (.raw mint) (P.minimumBalance mintLen) mintLen
      .token
        = .ok (l.created (.raw creator) (.raw mint) (P.minimumBalance mintLen) mintLen .token) :=
    Ledger.createOrTopUp_of_dataless hmint hcreator hneRaw hlamports
  unfold Ledger.createOrTopUp at hcreate
  unfold createMintAccount
  split
  · rename_i hzero
    rwa [if_pos hzero] at hcreate
  · rename_i hzero
    rw [if_neg hzero] at hcreate
    simp only [bind_eq_ok_iff, require_eq_ok_iff] at hcreate ⊢
    exact ⟨(), hmint.1, (), ⟨hmint.2, hexec⟩, hcreate⟩

/-! ## The fee -/

theorem isExactTierFee_iff {stored ratio : ℕ} :
    isExactTierFee stored ratio = true ↔ tierFeeLamports ratio = some stored := by
  rw [isExactTierFee, Bool.and_eq_true, decide_eq_true_eq, decide_eq_true_eq]
  refine ⟨And.right, fun h => ⟨?_, h⟩⟩
  unfold tierFeeLamports at h
  split at h
  · rw [Option.ite_none_right_eq_some] at h
    obtain ⟨⟨hne, -⟩, hf⟩ := h
    rwa [← Option.some.inj hf]
  · cases h

/-- The last guard of both instructions never fails: the fee is looked up in the same
table. -/
theorem isExactTierFee_of_validate {amounts : Machine.DerivedAmounts}
    (h : Machine.validate params = .ok amounts) :
    isExactTierFee amounts.feeLamports.toNat params.ratioWholeTokens.toNat = true := by
  obtain ⟨-, -, -, -, -, -, -, -, htier⟩ := Machine.validate_amounts h
  rw [isExactTierFee_iff, ← Machine.map_toNat_tierFeeLamports, htier, Option.map_some]

/-! ## The supply -/

/-- The mint of a launch: the whole supply, and no authority. -/
def launchedMint (decimals : UInt8) (totalSupplyBase : ℕ) : Mint where
  supply := totalSupplyBase
  decimals := decimals
  mintAuthority := none
  freezeAuthority := none

/-- Its launch destination: the whole supply, in the hands of `launch_vault` alone. -/
def launchedTokens (mint : Bytes32) (totalSupplyBase : ℕ) : TokenAccount where
  mint := mint
  owner := .launchVault mint
  amount := totalSupplyBase
  delegate := none
  closeAuthority := none

section Supply

variable {decimals : UInt8} {totalSupplyBase : ℕ}

theorem mintFixedSupply_eq_ok
    (h : mintFixedSupply P l creator mint launchDestination decimals totalSupplyBase = .ok l') :
    (l.accounts (.raw mint)).owner = .token ∧ (l.accounts (.launchDestination mint)).Dataless ∧
      l'.unixTimestamp = l.unixTimestamp ∧
      l'.accounts = Function.update (Function.update l.accounts
        (.raw mint) { l.accounts (.raw mint) with
          data := .mint (launchedMint decimals totalSupplyBase) })
        (.launchDestination mint) { l.accounts (.launchDestination mint) with
          owner := .token
          data := .token (launchedTokens mint totalSupplyBase) } := by
  simp only [mintFixedSupply, bind_eq_ok_iff, Ledger.initializeMint2_eq_ok_iff,
    Ledger.mintTo_eq_ok_iff, Ledger.setMintAuthority_eq_ok_iff] at h
  obtain ⟨_, ⟨⟨howner, -⟩, rfl⟩, l₁, hcreate, _, ⟨m, t, hm, ht, -, rfl⟩, m', hm', -, rfl⟩ := h
  obtain ⟨rfl, hdest, rfl⟩ := Ledger.associatedTokenCreate_eq_ok hcreate
  obtain rfl : Mint.mk 0 decimals (some (.mintAuthority mint)) none = m := by
    simpa [Ledger.associatedTokenCreated, Account.asMint, howner] using hm
  obtain rfl : TokenAccount.mk mint (.launchVault mint) 0 none none = t := by
    simpa [Ledger.associatedTokenCreated, Account.asToken] using ht
  obtain rfl : Mint.mk totalSupplyBase decimals (some (.mintAuthority mint)) none = m' := by
    simpa [Ledger.associatedTokenCreated, Account.asMint, howner] using hm'
  refine ⟨howner, by simpa using hdest, by simp [Ledger.associatedTokenCreated], ?_⟩
  funext k
  by_cases hk : k = .launchDestination mint
  · subst hk
    simp [launchedTokens, Ledger.associatedTokenCreated]
  · by_cases hraw : k = .raw mint
    · subst hraw
      simp [launchedMint, Ledger.associatedTokenCreated]
    · simp [Ledger.associatedTokenCreated, hk, hraw]

theorem mintFixedSupply_of_free
    (hmint : (l.accounts (.raw mint)).owner = .token ∧
      (l.accounts (.raw mint)).data = .zeros mintLen)
    (hrent : P.minimumBalance mintLen ≤ l.lamports (.raw mint))
    (hdest : (l.accounts (.launchDestination mint)).Dataless)
    (hcreator : (l.accounts (.raw creator)).Dataless)
    (hlamports : max (P.minimumBalance 165) 1 - l.lamports (.launchDestination mint)
      ≤ l.lamports (.raw creator)) (hsupply : totalSupplyBase < u64Size) :
    ∃ l', mintFixedSupply P l creator mint (.launchDestination mint) decimals totalSupplyBase
      = .ok l' := by
  have hne : creator ≠ mint := by
    rintro rfl
    rw [hcreator.1] at hmint
    cases hmint.1
  simp only [mintFixedSupply, exists_bind_eq_ok_iff, Ledger.initializeMint2_eq_ok_iff,
    Ledger.mintTo_eq_ok_iff, Ledger.setMintAuthority_eq_ok_iff]
  refine ⟨_, ⟨⟨hmint.1, hmint.2, hrent⟩, rfl⟩, _, Ledger.associatedTokenCreate_of_dataless
    ?_ ?_ ?_ ?_ hlamports, ?_⟩
  · simpa using hdest
  · simp [Account.asMint, hmint.1]
  · simpa [hne] using hcreator
  · simp
  · simp [Ledger.associatedTokenCreated, Account.asMint, Account.asToken, hmint.1, hsupply]

end Supply

/-! ## What a launch does -/

/-- The three accounts a launch writes. -/
def launchedAccounts (P : Platform) (l : Ledger) (creator mint : Bytes32) (params : LaunchParams)
    (amounts : Machine.DerivedAmounts) : Address → Account :=
  Function.update (Function.update (Function.update l.accounts
    (.launchConfig mint) { l.accounts (.launchConfig mint) with
      owner := .hybridLaunch
      data := .launchConfig (nativeConfig P creator mint params amounts l.unixTimestamp) })
    (.raw mint) { l.accounts (.raw mint) with
      owner := .token
      data := .mint (launchedMint params.decimals amounts.totalSupplyBase.toNat) })
    (.launchDestination mint) { l.accounts (.launchDestination mint) with
      owner := .token
      data := .token (launchedTokens mint amounts.totalSupplyBase.toNat) }

/-- **A launch takes three free addresses and writes nothing else**: the record, the mint
and the destination, which are as `validate` says, whatever the ledger was before. -/
theorem handleLaunch_eq_ok
    (h : handleLaunch P l creator mint launchDestination feeRecipient params = .ok l') :
    ∃ amounts, Machine.validate params = .ok amounts ∧
      ((l.accounts (.launchConfig mint)).Dataless ∧ (l.accounts (.raw mint)).Dataless ∧
        (l.accounts (.launchDestination mint)).Dataless) ∧
      l'.unixTimestamp = l.unixTimestamp ∧
      l'.accounts = launchedAccounts P l creator mint params amounts := by
  simp only [handleLaunch, bind_eq_ok_iff, require_eq_ok_iff, mapError_eq_ok_iff,
    pure_eq_ok_iff] at h
  obtain ⟨l₁, hconfig, -, -, amounts, hvalidate, -, -, -, -, -, rfl, l₂, hmint, l₃, hsupply,
    -, -, -, -, rfl⟩ := h
  obtain ⟨hconfigFree, rfl⟩ := initLaunchConfig_eq_ok hconfig
  obtain ⟨hmintFree, rfl⟩ := createMintAccount_eq_ok hmint
  obtain ⟨-, hdestFree, htime, haccounts⟩ := mintFixedSupply_eq_ok hsupply
  refine ⟨amounts, hvalidate, ⟨hconfigFree, by simpa using hmintFree, by simpa using hdestFree⟩,
    by simp [htime], ?_⟩
  funext k
  by_cases hdest : k = .launchDestination mint
  · subst hdest
    simp [launchedAccounts, haccounts]
  · by_cases hraw : k = .raw mint
    · subst hraw
      simp [launchedAccounts, haccounts, Account.created]
    · by_cases hk : k = .launchConfig mint
      · subst hk
        simp [launchedAccounts, haccounts, htime, Account.created]
      · simp [launchedAccounts, haccounts, hdest, hraw, hk]

/-! ## When a launch succeeds -/

/-- What a creator pays for the three accounts, less what others have sent there. -/
def launchCost (P : Platform) (l : Ledger) (mint : Bytes32) : ℕ :=
  (P.minimumBalance launchConfigSpace - l.lamports (.launchConfig mint))
    + (P.minimumBalance mintLen - l.lamports (.raw mint))
    + (max (P.minimumBalance 165) 1 - l.lamports (.launchDestination mint))

/-- Fees can be credited to the fee recipient, and the rent constant is not stale. -/
structure Ready (P : Platform) (l : Ledger) : Prop where
  recipient : (l.accounts (.raw P.feeRecipient)).Dataless
  not_executable : (l.accounts (.raw P.feeRecipient)).executable = false
  rent : P.minimumBalance coreAssetSpaceBytes ≤ coreAssetRentLamports

theorem Ready.checkFeeRecipient (h : Ready P l) :
    checkFeeRecipient l P.feeRecipient = .ok () := by
  simp only [Launchpad.checkFeeRecipient, bind_eq_ok_iff, require_eq_ok_iff]
  exact ⟨(), h.recipient.1, h.not_executable, h.recipient.2⟩

theorem Ready.of_createdFor {payer k : Address} {lamports space : ℕ} {program : ProgramId}
    (h : Ready P l) (hcreated : Ledger.CreatedFor l payer k lamports space program l')
    (hk : k ≠ .raw P.feeRecipient) : Ready P l' := by
  refine ⟨?_, ?_, h.rent⟩
  · rw [hcreated.accounts_of_ne _ hk.symm]
    exact h.recipient
  · rw [hcreated.accounts_of_ne _ hk.symm]
    exact h.not_executable

/-- **Three free addresses are all a launch needs.**  Whatever lamports anyone has sent to
them, valid parameters are launched, at the cost of what the three accounts still lack. -/
theorem handleLaunch_of_free {amounts : Machine.DerivedAmounts}
    (hvalidate : Machine.validate params = .ok amounts) (hready : Ready P l)
    (hconfig : (l.accounts (.launchConfig mint)).Dataless)
    (hmint : (l.accounts (.raw mint)).Dataless)
    (hexec : (l.accounts (.raw mint)).executable = false)
    (hdest : (l.accounts (.launchDestination mint)).Dataless)
    (hcreator : (l.accounts (.raw creator)).Dataless) (hne : creator ≠ mint)
    (hcost : launchCost P l mint ≤ l.lamports (.raw creator)) :
    ∃ l', handleLaunch P l creator mint (.launchDestination mint) P.feeRecipient params
      = .ok l' := by
  have hneRaw : Address.raw creator ≠ .raw mint := fun h => hne (Address.raw.inj h)
  unfold launchCost at hcost
  obtain ⟨l₁, hinit, hl₁⟩ := initLaunchConfig_of_dataless (P := P) hconfig hcreator (by omega)
  have hpaid₁ := hl₁.paid
  have hmint₁ := hl₁.accounts_of_ne (.raw mint) (by simp)
  have hcreator₁ := hl₁.accounts_of_ne (.raw creator) (by simp)
  have hmintLamports := hl₁.others (.raw mint) hneRaw.symm (by simp)
  have hdestLamports := hl₁.others (.launchDestination mint) (by simp) (by simp)
  obtain ⟨l₂, hmake, hl₂⟩ := createMintAccount_of_dataless (P := P) (l := l₁)
    (by rwa [hmint₁]) (by rwa [hmint₁]) (by rwa [hcreator₁]) hne (by omega)
  have hpaid₂ := hl₂.paid
  have hdestLamports₂ := hl₂.others (.launchDestination mint) (by simp) (by simp)
  have hmint₂ : (l₂.accounts (.raw mint)).owner = .token ∧
      (l₂.accounts (.raw mint)).data = .zeros mintLen := by
    rw [hl₂.accounts, Function.update_self]
    exact ⟨rfl, rfl⟩
  have hdest₂ : l₂.accounts (.launchDestination mint) = l.accounts (.launchDestination mint) := by
    rw [hl₂.accounts_of_ne (.launchDestination mint) (by simp),
      hl₁.accounts_of_ne (.launchDestination mint) (by simp)]
  have hcreator₂ : l₂.accounts (.raw creator) = l.accounts (.raw creator) := by
    rw [hl₂.accounts_of_ne (.raw creator) hneRaw, hcreator₁]
  obtain ⟨l₃, hsupply⟩ : ∃ l₃, mintFixedSupply P l₂ creator mint (.launchDestination mint)
      params.decimals amounts.totalSupplyBase.toNat = .ok l₃ := by
    apply mintFixedSupply_of_free hmint₂ hl₂.funded
    · rwa [hdest₂]
    · rwa [hcreator₂]
    · omega
    · exact amounts.totalSupplyBase.toNat_lt
  obtain ⟨-, -, -, haccounts⟩ := mintFixedSupply_eq_ok hsupply
  have hlaunched : checkLaunched l₃ mint (.launchDestination mint) params amounts = .ok () := by
    simp only [checkLaunched, bind_eq_ok_iff, require_eq_ok_iff, expect_eq_ok_iff]
    simp [haccounts, hmint₂.1, Account.asMint, Account.asToken, launchedMint, launchedTokens]
  simp only [handleLaunch, exists_bind_eq_ok_iff, require_eq_ok_iff, mapError_eq_ok_iff,
    pure_eq_ok_iff]
  exact ⟨l₁, hinit, (), trivial, amounts, hvalidate, (),
    (hready.of_createdFor hl₁ (by simp)).checkFeeRecipient, (), require_of hready.rent, (), trivial,
    l₂, hmake, l₃, hsupply, (), hlaunched, (), isExactTierFee_of_validate hvalidate, _, rfl⟩

end HybridVault.Launchpad
