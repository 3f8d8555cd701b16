import HybridVault.Foundations.SequencedPool
import HybridVault.Oracles
import Mathlib.Logic.Function.Basic
import Mathlib.Tactic.Simps.Basic

/-!
# The accounts

What the chain holds around one vault, and the vault itself.

`Chain` has the accounts other programs own or can credit — tokens, assets,
randomness accounts, lamports, the clock — together with the request and lock
accounts of the vault program.  `World` adds the vault account.  A call into
another program is a function of the chain alone, so it cannot touch the vault.

Accounts are grouped by what they hold.  An address is looked up in the map of the
kind of account an instruction expects there, and `none` (or `absent`) means that
no such account is there.
-/

namespace HybridVault

open Foundations

/-! ## The vault program's own accounts -/

/-- `Vault`, without the addresses and bumps it is created with, which belong to
the deployment. -/
structure Vault where
  /-- Converting is closed until `open_vault`. -/
  isOpen : Bool
  sbQueue : Pubkey
  traitRoot : Bytes32
  traitSchemaHash : Bytes32
  mintedCount : ℕ
  assetsOutside : ℕ
  pendingCaptures : ℕ
  pendingRerolls : ℕ
  nextSeq : ℕ
  nextSettleSeq : ℕ
  openedAtSlot : ℕ
  totalFeeLamports : ℕ
  totalCaptures : ℕ
  totalRerolls : ℕ
  totalUnwraps : ℕ
  totalRecommits : ℕ
  totalExpired : ℕ
deriving DecidableEq

def Vault.pendingDraws (v : Vault) : Res ℕ :=
  expect (checkedAdd v.pendingCaptures v.pendingRerolls) (.vault .MathOverflow)

/-- `REQUEST_KIND_CAPTURE` and `REQUEST_KIND_REROLL`. -/
inductive RequestKind
  | capture
  | reroll
deriving DecidableEq, Repr

/-- `NO_HANDED_IN`. -/
def noHandedIn : ℕ := 2 ^ 32 - 1

/-- One pending capture or re-roll. -/
structure Request where
  kind : RequestKind
  vault : Pubkey
  seq : ℕ
  user : Pubkey
  randomness : Pubkey
  seedSlot : ℕ
  deadlineSlot : ℕ
  commits : ℕ
  /-- The oracle of each commit, four slots. -/
  oracles : List Pubkey
  revealed : Bool
  value : Bytes32
  handedInIndex : ℕ
  mintEscrowLamports : ℕ
deriving DecidableEq

/-- The item a request carries: the hand-in of a re-roll. -/
def Request.handIn (r : Request) : Option ℕ :=
  match r.kind with
  | .capture => none
  | .reroll => some r.handedInIndex

/-- The oracles of the commits so far: `oracles[..commits]`. -/
def Request.usedOracles (r : Request) : List Pubkey := r.oracles.take r.commits

/-- Binds a randomness account to one pending request. -/
structure RandLock where
  vault : Pubkey
  seq : ℕ
deriving DecidableEq

/-- `8 + Request::INIT_SPACE`. -/
def requestSpace : ℕ := 304

/-- `8 + RandLock::INIT_SPACE`. -/
def randLockSpace : ℕ := 49

/-! ## Accounts of other programs -/

/-- A Switchboard randomness account. -/
structure RandomnessSnapshot where
  authority : Pubkey
  queue : Pubkey
  seedSlot : ℕ
  revealSlot : ℕ
  value : Bytes32
deriving DecidableEq

inductive UpdateAuthority
  | none
  | address (key : Pubkey)
  | collection (key : Pubkey)
deriving DecidableEq

/-- `BaseAssetV1`; name and URI in UTF-8. -/
structure BaseAsset where
  owner : Pubkey
  updateAuthority : UpdateAuthority
  name : Bytes
  uri : Bytes
deriving DecidableEq

/-- What is at an address where an asset may be: nothing yet, an asset, or what is
left of a burned one. -/
inductive AssetAccount
  | absent
  | live (asset : BaseAsset)
  | burned
deriving DecidableEq

/-- `BaseCollectionV1`. -/
structure BaseCollection where
  updateAuthority : Pubkey
  numMinted : ℕ
  currentSize : ℕ
deriving DecidableEq

/-- A classic SPL token account. -/
structure TokenAccount where
  mint : Pubkey
  owner : Pubkey
  amount : ℕ
deriving DecidableEq

/-! ## Chain and world -/

/-- Everything around the vault account. -/
@[ext]
structure Chain where
  slot : ℕ
  unixTimestamp : ℤ
  /-- The data of the vault's pool account. -/
  pool : Bytes
  requests : Pubkey → Option Request
  randLocks : Pubkey → Option RandLock
  randomness : Pubkey → Option RandomnessSnapshot
  assets : Pubkey → AssetAccount
  /-- The vault's collection. -/
  collection : Option BaseCollection
  tokens : Pubkey → Option TokenAccount
  /-- Accounts read as raw bytes, and the owner and data of accounts that must
  have none. -/
  accounts : RawAccounts
  lamports : Pubkey → ℕ

/-- The chain and the vault account. -/
structure World extends Chain where
  vault : Vault

namespace Chain

variable (c : Chain)

@[simps -fullyApplied]
def setPool (pool : Bytes) : Chain := { c with pool := pool }

@[simps -fullyApplied]
def setRequests (requests : Pubkey → Option Request) : Chain :=
  { c with requests := requests }

@[simps -fullyApplied]
def setRandLocks (randLocks : Pubkey → Option RandLock) : Chain :=
  { c with randLocks := randLocks }

@[simps -fullyApplied]
def setRandomness (randomness : Pubkey → Option RandomnessSnapshot) : Chain :=
  { c with randomness := randomness }

@[simps -fullyApplied]
def setAssets (assets : Pubkey → AssetAccount) : Chain := { c with assets := assets }

@[simps -fullyApplied]
def setCollection (collection : Option BaseCollection) : Chain :=
  { c with collection := collection }

@[simps -fullyApplied]
def setTokens (tokens : Pubkey → Option TokenAccount) : Chain := { c with tokens := tokens }

@[simps -fullyApplied]
def setLamports (lamports : Pubkey → ℕ) : Chain := { c with lamports := lamports }

end Chain

/-- What an instruction does to the pool of indices, as an observer sees it: the
events of the sequenced pool, with revealed values. -/
abbrev PoolEvent := SequencedPool.Event ℕ Bytes32

/-- A system-owned account without data. -/
def Chain.Dataless (c : Chain) (k : Pubkey) : Prop :=
  c.accounts k = RawAccount.empty ∧ c.assets k = .absent

instance (c : Chain) (k : Pubkey) : Decidable (c.Dataless k) :=
  inferInstanceAs (Decidable (_ ∧ _))

end HybridVault
