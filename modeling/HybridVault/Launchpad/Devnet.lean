import HybridVault.Devnet
import HybridVault.Instructions.Request
import HybridVault.Launchpad.Records

/-!
# A platform and two launches

The values the launch program is compiled with for devnet, and a ledger to launch on: one
key that is free, and one token that a curve of the platform has made.  Derived addresses
have the bytes and the bumps they have on the cluster.
-/

namespace HybridVault.Launchpad

open Foundations

/-- The platform's DBC config, DuQYHUCToW6uHkWngXFiU4uGVSjcVKKCTJwViEb87Em9. -/
def platformDbcConfig : Bytes32 where
  bytes := [191, 185, 15, 173, 245, 55, 69, 30, 114, 152, 69, 146, 255, 189, 134, 221, 166, 229,
    250, 16, 197, 19, 129, 236, 223, 246, 83, 160, 183, 91, 104, 52]
  length_eq := rfl

/-- `PLATFORM_FEE_RECIPIENT`, 7J3AajxfajAMgGmmwzfZeYGNieRtHRCuEgNTfd4gTjDN. -/
def platformFeeRecipientBytes : Bytes :=
  [93, 131, 113, 138, 42, 81, 194, 154, 89, 59, 244, 178, 33, 140, 222, 112, 68, 108, 83, 149, 111,
    244, 115, 68, 78, 147, 17, 199, 46, 245, 193, 21]

def platformFeeRecipient : Bytes32 := ⟨platformFeeRecipientBytes, rfl⟩

/-- The key to launch. -/
def smallMint : Bytes32 := .fill 21

/-- The token of the curve. -/
def curveMint : Bytes32 := .fill 22

/-- The derived addresses of the two launches: bytes and canonical bump. -/
def derivedAddresses : List (Address × Bytes32 × UInt8) :=
  [(.dbcBuffer, ⟨[33, 191, 132, 29, 208, 99, 209, 46, 182, 137, 79, 86, 178, 241, 134, 150, 150,
      209, 11, 125, 254, 146, 101, 195, 226, 100, 131, 19, 60, 207, 179, 211], rfl⟩, 255),
    (.launchConfig smallMint, ⟨[35, 150, 87, 41, 74, 224, 14, 2, 161, 11, 13, 112, 141, 39, 33, 252,
      159, 215, 249, 189, 19, 191, 135, 121, 215, 74, 216, 86, 182, 170, 236, 148], rfl⟩, 252),
    (.mintAuthority smallMint, ⟨[237, 28, 134, 176, 251, 107, 27, 197, 188, 57, 35, 236, 23, 114,
      20, 184, 244, 214, 111, 226, 159, 9, 40, 30, 226, 250, 138, 105, 203, 191, 42, 83], rfl⟩,
      255),
    (.launchVault smallMint, ⟨[204, 39, 192, 217, 28, 117, 30, 149, 225, 49, 141, 157, 82, 156, 235,
      97, 123, 208, 64, 111, 96, 62, 159, 73, 85, 111, 218, 168, 144, 149, 68, 208], rfl⟩, 255),
    (.launchDestination smallMint, ⟨[189, 24, 115, 18, 148, 210, 112, 46, 32, 181, 62, 65, 58, 17,
      175, 140, 205, 225, 169, 52, 207, 35, 97, 117, 149, 182, 175, 160, 114, 118, 72, 185], rfl⟩,
      255),
    (.launchConfig curveMint, ⟨[148, 196, 64, 215, 136, 187, 100, 164, 251, 207, 54, 66, 140, 140,
      198, 116, 102, 228, 87, 246, 162, 25, 89, 179, 66, 3, 236, 143, 63, 169, 195, 123], rfl⟩,
      254)]

/-- The bytes and the bump of a derived address. -/
def derivedAddress (k : Address) : Bytes32 × UInt8 :=
  ((derivedAddresses.find? fun entry => entry.1 = k).map Prod.snd).getD (.zero, 0)

/-- The launch program of devnet. -/
def devnet : Platform where
  feeRecipient := platformFeeRecipient
  approvedDbcConfigs := [platformDbcConfig]
  derivedKey := fun k => (derivedAddress k).1
  bump := fun k => (derivedAddress k).2
  minimumBalance := rentExemptMinimum

/-- The recipient of the records is the one that the vault pays. -/
example : Pubkey.raw devnet.feeRecipient = HybridVault.platformFeeRecipient := rfl

/-! ## The curve -/

/-- The pool of the curve, and who has made it. -/
def curvePool : Bytes32 := .fill 23

def smallCreator : Bytes32 := .fill 24

/-- The platform's config, with a threshold within the bounds. -/
def curveConfigAccount : DbcConfig where
  quoteMint := wrappedSolMint
  leftoverReceiver := devnet.key .dbcBuffer
  tokenDecimal := 6
  tokenType := dbcTokenTypeSpl
  fixedTokenSupply := true
  tokenUpdateAuthority := dbcTokenAuthorityImmutable
  migrationQuoteThreshold := 10_000_000_000
  preMigrationTokenSupply := 1_000_000_000_000_000
  postMigrationTokenSupply := 1_000_000_000_000_000

def curvePoolAccount : DbcPool where
  config := platformDbcConfig
  creator := smallCreator
  baseMint := curveMint
  baseVault := .fill 25
  poolType := dbcTokenTypeSpl
  isMigrated := false
  migrationProgress := 0

def curveMintAccount : Mint where
  supply := 1_000_000_000_000_000
  decimals := 6
  mintAuthority := none
  freezeAuthority := none

/-! ## The ledger -/

/-- A chain before its first launch. -/
def smallLedger : Ledger where
  unixTimestamp := 1_700_000_000
  accounts := fun k =>
    if k = .raw .zero then ⟨.other 0, true, .bytes []⟩
    else if k = .raw wrappedSolMint then ⟨.token, false, .mint ⟨0, 9, none, none⟩⟩
    else if k = .raw curveMint then ⟨.token, false, .mint curveMintAccount⟩
    else if k = .raw platformDbcConfig then
      ⟨.dbc, false, .bytes (curveConfigAccount.store (List.replicate dbcConfigLen 0))⟩
    else if k = .raw curvePool then
      ⟨.dbc, false, .bytes (curvePoolAccount.store (List.replicate dbcPoolLen 0))⟩
    else ⟨.system, false, .bytes []⟩
  lamports := fun k => if k = .raw smallCreator then 1_000_000_000 else 0

theorem smallLedger_asToken (k : Address) : (smallLedger.accounts k).asToken = none := by
  simp only [smallLedger]
  split_ifs <;> rfl

theorem smallLedger_dataless {k : Address} (hk : ∀ key, k ≠ .raw key) :
    (smallLedger.accounts k).Dataless := by
  simp [smallLedger, hk, Account.Dataless]

theorem smallLedger_genesis : Genesis smallLedger where
  owned := by
    intro k hk
    simp only [smallLedger] at hk
    split_ifs at hk
  derived := by
    intro k hk
    exact smallLedger_dataless fun key heq => by rw [heq] at hk; exact hk
  associated := fun wallet mint _ => Or.inl (smallLedger_dataless nofun)
  backed := by
    refine ⟨?_, rfl, ?_⟩
    · intro k t ht
      rw [smallLedger_asToken] at ht
      cases ht
    · intro mint _ s
      have hzero : ∀ k ∈ s, held smallLedger mint k = 0 := by
        intro k _
        unfold held
        rw [smallLedger_asToken]
      rw [Finset.sum_eq_zero hzero]
      exact Nat.zero_le _
  systemProgram := nofun

theorem smallLedger_curvePool : smallLedger.accounts (.raw curvePool)
    = ⟨.dbc, false, .bytes (curvePoolAccount.store (List.replicate dbcPoolLen 0))⟩ := by
  simp only [smallLedger]
  rw [if_neg (by decide), if_neg (by decide), if_neg (by decide), if_neg (by decide),
    if_pos trivial]

theorem smallLedger_platformDbcConfig : smallLedger.accounts (.raw platformDbcConfig)
    = ⟨.dbc, false, .bytes (curveConfigAccount.store (List.replicate dbcConfigLen 0))⟩ := by
  simp only [smallLedger]
  rw [if_neg (by decide), if_neg (by decide), if_neg (by decide), if_pos trivial]

theorem smallLedger_ready : Ready devnet smallLedger where
  recipient := by decide
  not_executable := by decide
  rent := rentExemptMinimum_coreAssetSpace.le

/-! ## The two launches -/

/-- The smallest collection at the smallest ratio, with six decimals. -/
def smallParams : LaunchParams := ⟨6, 50_000, 100, 10_000_000_000⟩

def smallAmounts : Machine.DerivedAmounts :=
  ⟨1_000_000_000_000_000, 50_000_000_000, 5_000_000_000_000, 2_000_000, 0⟩

theorem validate_smallParams : Machine.validate smallParams = .ok smallAmounts := by
  decide

/-- The launch of the free key. -/
def smallLaunchIx : Instruction :=
  .launch smallCreator smallMint (.launchDestination smallMint) platformFeeRecipient smallParams

theorem exists_smallLaunched :
    ∃ l', perform devnet smallLedger smallLaunchIx = .ok l' ∧
      (l'.accounts (.launchConfig smallMint)).asLaunchConfig
        = some (nativeConfig devnet smallCreator smallMint smallParams smallAmounts
          smallLedger.unixTimestamp) := by
  obtain ⟨l', h⟩ : ∃ l', perform devnet smallLedger smallLaunchIx = .ok l' := by
    apply handleLaunch_of_free validate_smallParams smallLedger_ready
    all_goals decide
  refine ⟨l', h, ?_⟩
  obtain ⟨amounts, hvalidate, -, -, haccounts⟩ := handleLaunch_eq_ok h
  obtain rfl := Except.ok.inj (validate_smallParams.symm.trans hvalidate)
  rw [haccounts]
  simp [launchedAccounts, Account.asLaunchConfig]

/-- What the curve is registered with. -/
def smallDbcParams : RegisterDbcParams := ⟨50_000, 100⟩

/-- The registration of the curve. -/
def smallRegisterIx : Instruction :=
  .registerDbcLaunch smallCreator curveMint platformDbcConfig curvePool (.buffer curveMint)
    platformFeeRecipient smallDbcParams

theorem curve_registrable : Registrable devnet smallLedger smallCreator curveMint platformDbcConfig
    curvePool smallDbcParams curveMintAccount curvePoolAccount curveConfigAccount smallAmounts where
  mint_eq := by decide
  approved := by decide
  pool_eq := by
    rw [smallLedger_curvePool, loadPool_of_bytes rfl rfl,
      curvePoolAccount.parsePool_store List.length_replicate]
    rfl
  config_eq := by
    rw [smallLedger_platformDbcConfig, loadConfig_of_bytes rfl rfl,
      curveConfigAccount.parseConfig_store List.length_replicate]
    rfl
  baseMint := rfl
  config := rfl
  poolType := rfl
  creator := rfl
  notMigrated := rfl
  validated := validate_smallParams
  quoteMint := rfl
  tokenType := rfl
  tokenDecimal := rfl
  fixedTokenSupply := rfl
  preMigrationTokenSupply := rfl
  postMigrationTokenSupply := rfl
  tokenUpdateAuthority := rfl
  leftoverReceiver := rfl
  mintAuthority := rfl
  freezeAuthority := rfl
  supply := rfl

theorem exists_smallRegistered :
    ∃ l', perform devnet smallLedger smallRegisterIx = .ok l' ∧
      (l'.accounts (.launchConfig curveMint)).asLaunchConfig
        = some (registeredConfig devnet smallCreator curveMint platformDbcConfig curvePool
          curvePoolAccount smallParams smallAmounts smallLedger.unixTimestamp) := by
  obtain ⟨l', h⟩ := handleRegisterDbcLaunch_of_registrable curve_registrable smallLedger_ready
    (by decide) (Or.inr (by decide)) (by decide) (by decide)
  refine ⟨l', h, ?_⟩
  obtain ⟨m, pool, cfg, amounts, hreg, -, -, -, haccounts⟩ := handleRegisterDbcLaunch_eq_ok h
  obtain rfl := Option.some.inj (curve_registrable.mint_eq.symm.trans hreg.mint_eq)
  obtain rfl := Option.some.inj (Except.ok.inj (curve_registrable.pool_eq.symm.trans hreg.pool_eq))
  obtain rfl :=
    Option.some.inj (Except.ok.inj (curve_registrable.config_eq.symm.trans hreg.config_eq))
  obtain rfl := Except.ok.inj (validate_smallParams.symm.trans hreg.validated)
  rw [haccounts]
  simp [registeredAccounts, Account.asLaunchConfig]
  rfl

set_option maxRecDepth 20000 in
theorem smallLaunches_return :
    returns (perform devnet smallLedger smallRegisterIx) (fun l =>
      returns (perform devnet l smallLaunchIx) fun _ => true) = true := by
  decide +kernel

/-- The free key can be launched after the registration, by the same creator. -/
theorem exists_launched_after {l : Ledger}
    (h : perform devnet smallLedger smallRegisterIx = .ok l) :
    ∃ l', perform devnet l smallLaunchIx = .ok l' := by
  obtain ⟨l₁, h₁, hlaunch⟩ := exists_of_returns smallLaunches_return
  obtain rfl := Except.ok.inj (h.symm.trans h₁)
  obtain ⟨l', h', -⟩ := exists_of_returns hlaunch
  exact ⟨l', h'⟩

end HybridVault.Launchpad
