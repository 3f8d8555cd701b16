import HybridVault.Deployment
import HybridVault.Sha256

/-!
# Concrete surroundings

The values that the code outside the program has on the clusters it is deployed
to: SHA-256, the rent schedule, the layouts of Switchboard's queue and oracle
accounts, and the price of a Metaplex Core asset.  With them a deployment
evaluates.
-/

namespace HybridVault

open Foundations

/-- Switchboard's `QueueAccountData`. -/
def switchboardQueueLayout : QueueLayout where
  discriminator := [217, 194, 55, 127, 184, 83, 138, 1]
  size := 6272
  oracleKeys := 1056
  oracleKeysLen := 5196
  currIdx := 5204
  discriminator_length := rfl
  oracleKeys_le := by decide
  oracleKeysLen_le := by decide
  currIdx_le := by decide

/-- Switchboard's `OracleAccountData`. -/
def switchboardOracleLayout : OracleLayout where
  size := 4808
  lastHeartbeat := 3504
  lastHeartbeat_le := by decide

/-- The rent-exempt minimum of an account with `space` bytes of data. -/
def rentExemptMinimum (space : ℕ) : ℕ := (128 + space) * 6_960

/-- The size of a Core asset: key, owner, update authority, name, URI and an
empty sequence number. -/
def coreAssetSize (name uri : Bytes) : ℕ := 1 + 32 + 33 + (4 + name.length) + (4 + uri.length) + 1

/-- Rent of the asset account plus the protocol fee. -/
def coreCreateCost (name uri : Bytes) : ℕ :=
  rentExemptMinimum (coreAssetSize name uri) + coreCreateFeeLamports

/-- The deployment of a launch configuration under a vault key. -/
def deploy (vaultKey launchConfigKey : Bytes32) (launchConfig : LaunchConfig) : Deployment where
  vaultKey := vaultKey
  launchConfigKey := launchConfigKey
  launchConfig := launchConfig
  sha256 := Sha256.hash
  queueLayout := switchboardQueueLayout
  oracleLayout := switchboardOracleLayout
  minimumBalance := rentExemptMinimum
  coreCreateCost := coreCreateCost
  selectionRounds := 64

/-- The rent constant of the launch program is the rent of the reserved space. -/
theorem rentExemptMinimum_coreAssetSpace :
    rentExemptMinimum coreAssetSpaceBytes = coreAssetRentLamports := rfl

/-- An asset with a name and a URI of the lengths the vault allows costs no more
than the reserved space. -/
theorem coreCreateCost_le {name uri : Bytes} (hname : name.length ≤ 32)
    (huri : uri.length ≤ 200) :
    coreCreateCost name uri ≤ coreAssetRentLamports + coreCreateFeeLamports := by
  simp only [coreCreateCost, rentExemptMinimum, coreAssetSize, coreAssetRentLamports]
  omega

/-! ## A launch -/

/-- The smallest collection at the smallest ratio, with six decimals. -/
def smallLaunch : LaunchConfig where
  version := 4
  bump := 255
  mintAuthorityBump := 255
  creator := Bytes32.fill 10
  mint := Bytes32.fill 11
  launchDestination := Bytes32.fill 12
  launchVault := Bytes32.fill 13
  launchVaultBump := 255
  decimals := 6
  totalSupplyBase := 1_000_000_000_000_000
  ratioWholeTokens := 50_000
  ratioBase := 50_000_000_000
  collectionSize := 100
  maxTokensInNftForm := 5_000_000_000_000
  feeLamports := 2_000_000
  feeRecipient := Bytes32.fill 14
  graduationThresholdLamports := 10_000_000_000
  graduationSlicePct := 0
  launchedAt := 1_700_000_000
  dbcConfig := Bytes32.fill 15
  dbcPool := Bytes32.fill 16

theorem smallLaunch_accepted : smallLaunch.Accepted := by
  refine ⟨⟨6, 50_000, 100, 10_000_000_000⟩,
    ⟨1_000_000_000_000_000, 50_000_000_000, 5_000_000_000_000, 2_000_000, 0⟩, ?_, ?_⟩
  · decide +kernel
  · constructor <;> decide +kernel

/-- The vault of the small launch. -/
def smallVault : Deployment := deploy (Bytes32.fill 1) (Bytes32.fill 2) smallLaunch

/-! ## Account contents -/

/-- A queue account that lists `keys` and points at the first. -/
def queueData (keys : List Bytes32) : Bytes :=
  switchboardQueueLayout.discriminator
    ++ List.replicate 1056 0 ++ keys.flatMap Bytes32.bytes
    ++ List.replicate (5196 - 1056 - 32 * keys.length) 0
    ++ leBytes 4 keys.length ++ List.replicate 4 0 ++ leBytes 4 0 ++ List.replicate 1064 0

/-- An oracle account with the given heartbeat. -/
def oracleData (discriminator : Bytes) (lastHeartbeat : ℕ) : Bytes :=
  discriminator ++ List.replicate 3504 0 ++ leBytes 8 lastHeartbeat ++ List.replicate 1296 0

end HybridVault
