import HybridVault.Launch

/-!
# A deployment

What a vault runs against and none of its instructions can change: its own key,
the launch configuration it is bound to, and the code outside the program —
SHA-256, the layouts of the Switchboard accounts, the rent schedule, and what
Metaplex Core charges for an asset.

The code outside the program is a parameter.  Where the program relies on a
property of it that is a matter of shape, the property is a field: a Switchboard
queue account has room for 78 oracle keys, an oracle account for its heartbeat.
-/

namespace HybridVault

open Foundations

/-- The most oracles a Switchboard queue lists. -/
def maxListedOracles : ℕ := 78

/-- `queue_layout()`: where a Switchboard queue account keeps its oracle keys,
relative to the byte after the discriminator. -/
structure QueueLayout where
  discriminator : Bytes
  size : ℕ
  oracleKeys : ℕ
  oracleKeysLen : ℕ
  currIdx : ℕ
  discriminator_length : discriminator.length = 8
  oracleKeys_le : oracleKeys + 32 * maxListedOracles ≤ size
  oracleKeysLen_le : oracleKeysLen + 4 ≤ size
  currIdx_le : currIdx + 4 ≤ size

/-- `oracle_layout()`: where a Switchboard oracle account keeps its heartbeat. -/
structure OracleLayout where
  size : ℕ
  lastHeartbeat : ℕ
  lastHeartbeat_le : lastHeartbeat + 8 ≤ size

/-- One vault and its surroundings. -/
structure Deployment where
  /-- The vault account's address. -/
  vaultKey : Bytes32
  launchConfigKey : Bytes32
  launchConfig : LaunchConfig
  sha256 : Bytes → Bytes32
  queueLayout : QueueLayout
  oracleLayout : OracleLayout
  /-- `Rent::minimum_balance`. -/
  minimumBalance : ℕ → ℕ
  /-- What Core charges the payer of a new asset with this name and URI, both in
  UTF-8. -/
  coreCreateCost : Bytes → Bytes → ℕ
  /-- How many blocks of words a transaction's compute budget lets a selection
  hash. -/
  selectionRounds : ℕ

namespace Deployment

variable (D : Deployment)

/-- The vault account. -/
def vault : Pubkey := .raw D.vaultKey

/-- The launched mint. -/
def mint : Pubkey := .raw D.launchConfig.mint

def vaultAuthority : Pubkey := .vaultAuthority D.vaultKey

def randomnessAuthority : Pubkey := .randomnessAuthority D.vaultKey

def vaultTokens : Pubkey := .vaultTokens D.vaultKey

def collection : Pubkey := .collection D.vaultKey

/-- `asset_address`. -/
def assetAddress (index : ℕ) : Pubkey := .asset D.vaultKey index

def requestAddress (seq : ℕ) : Pubkey := .request D.vaultKey seq

/-- `mint_escrow_address`. -/
def mintEscrowAddress (seq : ℕ) : Pubkey := .mintEscrow D.vaultKey seq

/-- The number of indices of the collection. -/
def size : ℕ := D.launchConfig.collectionSize.toNat

/-- The tokens behind one asset. -/
def ratio : ℕ := D.launchConfig.ratioBase.toNat

end Deployment

end HybridVault
