import HybridVault.Ledger

/-!
# The launch configuration

The immutable `LaunchConfig` of `hybrid_launch`: the parameters a creator may
choose (`validate`), the record derived from them, and its serialised form,
which the vault reads in two ways:

* `econ` — typed, fail-closed, for instructions that open new positions;
* `exitViewIn` — two fields as raw bytes at frozen offsets, for instructions
  that let users out.

Both readers of one account see the same numbers (`exitViewIn_accountData`).
-/

namespace HybridVault

open Foundations

/-! ## Protocol constants -/

def totalSupplyWholeTokens : ℕ := 1_000_000_000

def maxDecimals : ℕ := 9

def allowedRatios : List ℕ := [50_000, 100_000, 200_000, 500_000, 1_000_000, 2_500_000, 5_000_000]

def minCollectionSize : ℕ := 100

def maxCollectionSize : ℕ := 10_000

def launchConfigVersion : ℕ := 4

/-- (ratio in whole tokens, flat SOL fee in lamports). -/
def feeTiers : List (ℕ × ℕ) :=
  [(50_000, 2_000_000), (100_000, 5_000_000), (200_000, 5_000_000), (500_000, 10_000_000),
    (1_000_000, 10_000_000), (2_500_000, 10_000_000), (5_000_000, 10_000_000)]

def maxFeeLamports : ℕ := 10_000_000

def minFeeLamports : ℕ := 2_000_000

def minGraduationThresholdLamports : ℕ := 10_000_000_000

def maxGraduationThresholdLamports : ℕ := 100_000_000_000_000

def coreAssetRentLamports : ℕ := 3_570_480

def coreAssetSpaceBytes : ℕ := 385

def coreCreateFeeLamports : ℕ := 1_500_000

/-! ## Validation -/

/-- The errors of `hybrid_launch` that `validate` raises. -/
inductive LaunchError
  | InvalidDecimals
  | RatioNotAllowed
  | ZeroCollectionSize
  | CollectionBelowMinimum
  | CollectionAboveCap
  | SolFeeOutOfRange
  | GraduationThresholdOutOfRange
  | MathOverflow
  | CollectionTooLargeForSupply
deriving DecidableEq, Repr

/-- Creator-chosen launch parameters. -/
structure LaunchParams where
  decimals : UInt8
  ratioWholeTokens : UInt64
  collectionSize : UInt64
  graduationThresholdLamports : UInt64
deriving DecidableEq

/-- Values derived from validated parameters. -/
structure DerivedAmounts where
  totalSupplyBase : ℕ
  ratioBase : ℕ
  maxTokensInNftForm : ℕ
  feeLamports : ℕ
  graduationSlicePct : ℕ
deriving DecidableEq, Repr

/-- Flat SOL fee for a ratio; `none` for a ratio outside the table. -/
def feeForRatio (ratioWholeTokens : ℕ) : Option ℕ :=
  (feeTiers.find? fun tier => tier.1 = ratioWholeTokens).map Prod.snd

def tierFeeLamports (ratioWholeTokens : ℕ) : Option ℕ :=
  match feeForRatio ratioWholeTokens with
  | some f => if f ≠ 0 ∧ minFeeLamports ≤ f ∧ f ≤ maxFeeLamports then some f else none
  | none => none

/-- A stored fee is valid only if it is exactly the tier for the ratio. -/
def isExactTierFee (storedFeeLamports ratioWholeTokens : ℕ) : Bool :=
  storedFeeLamports ≠ 0 && tierFeeLamports ratioWholeTokens = some storedFeeLamports

def checkedFeeForRatio (ratioWholeTokens : ℕ) : Except LaunchError ℕ := do
  let _ ← expect (feeForRatio ratioWholeTokens) .RatioNotAllowed
  expect (tierFeeLamports ratioWholeTokens) .SolFeeOutOfRange

def checkGraduationThreshold (thresholdLamports : ℕ) : Except LaunchError Unit :=
  require (minGraduationThresholdLamports ≤ thresholdLamports ∧
    thresholdLamports ≤ maxGraduationThresholdLamports) .GraduationThresholdOutOfRange

/-- `u64::checked_pow` with base 10: fails where some partial product overflows,
which for a growing product is where the result does. -/
def checkedPow10 (e : ℕ) : Option ℕ := if 10 ^ e < u64Size then some (10 ^ e) else none

def validate (p : LaunchParams) : Except LaunchError DerivedAmounts := do
  let decimals := p.decimals.toNat
  let ratio := p.ratioWholeTokens.toNat
  let size := p.collectionSize.toNat
  require (decimals ≤ maxDecimals) .InvalidDecimals
  require (ratio ∈ allowedRatios) .RatioNotAllowed
  require (1 ≤ size) .ZeroCollectionSize
  require (minCollectionSize ≤ size) .CollectionBelowMinimum
  require (size ≤ maxCollectionSize) .CollectionAboveCap
  let feeLamports ← checkedFeeForRatio ratio
  checkGraduationThreshold p.graduationThresholdLamports.toNat
  let scale ← expect (checkedPow10 decimals) .MathOverflow
  let totalSupplyBase ← expect (checkedMul totalSupplyWholeTokens scale) .MathOverflow
  let ratioBase ← expect (checkedMul ratio scale) .MathOverflow
  require (totalSupplyBase % ratioBase = 0) .RatioNotAllowed
  let maxTokensInNftForm ← expect (checkedMul size ratioBase) .CollectionTooLargeForSupply
  require (maxTokensInNftForm ≤ totalSupplyBase) .CollectionTooLargeForSupply
  return {
    totalSupplyBase := totalSupplyBase
    ratioBase := ratioBase
    maxTokensInNftForm := maxTokensInNftForm
    feeLamports := feeLamports
    graduationSlicePct := 0 }

/-! ## The record -/

/-- Immutable launch record. -/
structure LaunchConfig where
  version : UInt8
  bump : UInt8
  mintAuthorityBump : UInt8
  creator : Bytes32
  mint : Bytes32
  launchDestination : Bytes32
  launchVault : Bytes32
  launchVaultBump : UInt8
  decimals : UInt8
  totalSupplyBase : UInt64
  ratioWholeTokens : UInt64
  ratioBase : UInt64
  collectionSize : UInt64
  maxTokensInNftForm : UInt64
  feeLamports : UInt64
  feeRecipient : Bytes32
  graduationThresholdLamports : UInt64
  graduationSlicePct : UInt8
  launchedAt : Int64
  dbcConfig : Bytes32
  dbcPool : Bytes32
deriving DecidableEq

/-- The record `launch` and `register_dbc_launch` write for accepted
parameters. -/
structure LaunchedFrom (p : LaunchParams) (a : DerivedAmounts) (c : LaunchConfig) : Prop where
  version : c.version.toNat = launchConfigVersion
  decimals : c.decimals = p.decimals
  totalSupplyBase : c.totalSupplyBase.toNat = a.totalSupplyBase
  ratioWholeTokens : c.ratioWholeTokens = p.ratioWholeTokens
  ratioBase : c.ratioBase.toNat = a.ratioBase
  collectionSize : c.collectionSize = p.collectionSize
  maxTokensInNftForm : c.maxTokensInNftForm.toNat = a.maxTokensInNftForm
  feeLamports : c.feeLamports.toNat = a.feeLamports
  graduationThresholdLamports : c.graduationThresholdLamports = p.graduationThresholdLamports
  graduationSlicePct : c.graduationSlicePct.toNat = a.graduationSlicePct

/-- A launch configuration `validate` accepted. -/
def LaunchConfig.Accepted (c : LaunchConfig) : Prop :=
  ∃ p a, validate p = .ok a ∧ LaunchedFrom p a c

/-- All assets at once take no more tokens than there are. -/
theorem LaunchConfig.Accepted.ratio_mul_size_le {c : LaunchConfig} (h : c.Accepted) :
    c.ratioBase.toNat * c.collectionSize.toNat ≤ c.totalSupplyBase.toNat := by
  obtain ⟨p, a, hvalidate, hfrom⟩ := h
  simp only [validate, bind_eq_ok_iff, require_eq_ok_iff, expect_eq_ok_iff, pure_eq_ok_iff,
    checkedMul_eq_some_iff] at hvalidate
  obtain ⟨-, -, -, -, -, -, -, -, -, -, fee, -, -, -, scale, -, supply, -, ratio, -, -, -, tokens,
    ⟨-, htokens⟩, -, hle, rfl⟩ := hvalidate
  rw [hfrom.ratioBase, hfrom.collectionSize, hfrom.totalSupplyBase, Nat.mul_comm, htokens]
  exact hle

/-! ## The account bytes -/

/-- `LaunchConfig::DISCRIMINATOR`. -/
def lcDiscriminator : Bytes := [18, 161, 9, 224, 102, 145, 29, 94]

def lcDiscriminatorLen : ℕ := 8

def lcOffRatioBase : ℕ := 157

def lcOffCollectionSize : ℕ := 165

def lcStablePrefixLen : ℕ := 221

def u64Bytes (v : UInt64) : Bytes := leBytes 8 v.toNat

/-- Borsh: fixed-width little-endian fields in declaration order. -/
def LaunchConfig.serialize (c : LaunchConfig) : Bytes :=
  [c.version, c.bump, c.mintAuthorityBump] ++ c.creator.bytes ++ c.mint.bytes
    ++ c.launchDestination.bytes ++ c.launchVault.bytes ++ [c.launchVaultBump, c.decimals]
    ++ u64Bytes c.totalSupplyBase ++ u64Bytes c.ratioWholeTokens ++ u64Bytes c.ratioBase
    ++ u64Bytes c.collectionSize ++ u64Bytes c.maxTokensInNftForm ++ u64Bytes c.feeLamports
    ++ c.feeRecipient.bytes ++ u64Bytes c.graduationThresholdLamports ++ [c.graduationSlicePct]
    ++ u64Bytes c.launchedAt.toUInt64 ++ c.dbcConfig.bytes ++ c.dbcPool.bytes

/-- The account data of a launch configuration. -/
def LaunchConfig.accountData (c : LaunchConfig) : Bytes := lcDiscriminator ++ c.serialize

/-! ## The two readers -/

/-- Economics, for instructions that open new positions. -/
structure Econ where
  ratioBase : ℕ
  collectionSize : ℕ
  storedFeeLamports : ℕ
  ratioWholeTokens : ℕ
deriving DecidableEq, Repr

/-- The fee charged on capture and on re-roll: exactly the tier. -/
def requestFee (stored ratioWholeTokens : ℕ) : Res ℕ := do
  check (isExactTierFee stored ratioWholeTokens = true) .FeeNotTier
  return stored

def Econ.requestFee (e : Econ) : Res ℕ :=
  HybridVault.requestFee e.storedFeeLamports e.ratioWholeTokens

def supportedLaunchConfigVersion : ℕ := 4

/-- `u32::try_from`. -/
def toU32 (v : ℕ) : Option ℕ := if v < u32Size then some v else none

@[simp] theorem toU32_eq_some_iff {v w : ℕ} : toU32 v = some w ↔ v < u32Size ∧ v = w := by
  simp [toU32]

def econ (cfg : LaunchConfig) : Res Econ := do
  check (cfg.version.toNat = supportedLaunchConfigVersion) .UnsupportedLaunchConfig
  check (cfg.collectionSize.toNat ≤ maxCollectionSize) .CollectionAboveCap
  let collectionSize ←
    expect (toU32 cfg.collectionSize.toNat) (.vault .UnsupportedLaunchConfig)
  check (0 < collectionSize ∧ 0 < cfg.ratioBase.toNat) .UnsupportedLaunchConfig
  return {
    ratioBase := cfg.ratioBase.toNat
    collectionSize := collectionSize
    storedFeeLamports := cfg.feeLamports.toNat
    ratioWholeTokens := cfg.ratioWholeTokens.toNat }

/-- What the exit paths read. -/
structure ExitView where
  ratioBase : ℕ
  collectionSize : ℕ
deriving DecidableEq, Repr

def exitViewIn (data : Bytes) : Res ExitView := do
  check (lcStablePrefixLen ≤ data.length ∧ slice data 0 lcDiscriminatorLen = lcDiscriminator)
    .UnsupportedLaunchConfig
  let ratioBase ← rdU64 data lcOffRatioBase
  let size ← rdU64 data lcOffCollectionSize
  let collectionSize ← expect (toU32 size) (.vault .UnsupportedLaunchConfig)
  check (0 < ratioBase ∧ 0 < collectionSize) .UnsupportedLaunchConfig
  return { ratioBase := ratioBase, collectionSize := collectionSize }

/-! ## The readers agree -/

theorem leValue_u64Bytes (v : UInt64) : leValue (u64Bytes v) = v.toNat :=
  leValue_leBytes (by simpa using v.toNat_lt)

/-- A `u64` field of a record is read back at the offset of what precedes it. -/
theorem readLE_field {pre : Bytes} {o : ℕ} (v : UInt64) (post : Bytes) (ho : pre.length = o) :
    readLE (pre ++ u64Bytes v ++ post) o 8 = v.toNat := by
  subst ho
  have h := slice_append_middle pre (u64Bytes v) post
  rw [u64Bytes, length_leBytes] at h
  rw [readLE, u64Bytes, h, ← u64Bytes, leValue_u64Bytes]

theorem LaunchConfig.length_accountData (c : LaunchConfig) : c.accountData.length = 302 := by
  simp [accountData, serialize, u64Bytes, lcDiscriminator, Bytes32.length_eq]

/-- The frozen offsets are those of the two fields the exit paths read. -/
theorem LaunchConfig.readLE_accountData (c : LaunchConfig) :
    readLE c.accountData lcOffRatioBase 8 = c.ratioBase.toNat ∧
      readLE c.accountData lcOffCollectionSize 8 = c.collectionSize.toNat := by
  constructor
  · have hpre : (lcDiscriminator ++ ([c.version, c.bump, c.mintAuthorityBump] ++ c.creator.bytes
        ++ c.mint.bytes ++ c.launchDestination.bytes ++ c.launchVault.bytes
        ++ [c.launchVaultBump, c.decimals] ++ u64Bytes c.totalSupplyBase
        ++ u64Bytes c.ratioWholeTokens)).length = lcOffRatioBase := by
      simp [u64Bytes, lcDiscriminator, Bytes32.length_eq, lcOffRatioBase]
    rw [← readLE_field c.ratioBase (u64Bytes c.collectionSize ++ (u64Bytes c.maxTokensInNftForm
      ++ (u64Bytes c.feeLamports ++ (c.feeRecipient.bytes ++ (u64Bytes c.graduationThresholdLamports
      ++ ([c.graduationSlicePct] ++ (u64Bytes c.launchedAt.toUInt64
      ++ (c.dbcConfig.bytes ++ c.dbcPool.bytes)))))))) hpre]
    simp only [accountData, serialize, List.append_assoc]
  · have hpre : (lcDiscriminator ++ ([c.version, c.bump, c.mintAuthorityBump] ++ c.creator.bytes
        ++ c.mint.bytes ++ c.launchDestination.bytes ++ c.launchVault.bytes
        ++ [c.launchVaultBump, c.decimals] ++ u64Bytes c.totalSupplyBase
        ++ u64Bytes c.ratioWholeTokens ++ u64Bytes c.ratioBase)).length = lcOffCollectionSize := by
      simp [u64Bytes, lcDiscriminator, Bytes32.length_eq, lcOffCollectionSize]
    rw [← readLE_field c.collectionSize (u64Bytes c.maxTokensInNftForm ++ (u64Bytes c.feeLamports
      ++ (c.feeRecipient.bytes ++ (u64Bytes c.graduationThresholdLamports
      ++ ([c.graduationSlicePct] ++ (u64Bytes c.launchedAt.toUInt64
      ++ (c.dbcConfig.bytes ++ c.dbcPool.bytes))))))) hpre]
    simp only [accountData, serialize, List.append_assoc]

/-- **The exit paths read the economics of the record**, whatever else it
says. -/
theorem LaunchConfig.exitViewIn_accountData {c : LaunchConfig} (hratio : 0 < c.ratioBase.toNat)
    (hsize : 0 < c.collectionSize.toNat) (hu32 : c.collectionSize.toNat < u32Size) :
    exitViewIn c.accountData
      = .ok { ratioBase := c.ratioBase.toNat, collectionSize := c.collectionSize.toNat } := by
  have hlen := c.length_accountData
  obtain ⟨hr, hs⟩ := c.readLE_accountData
  simp only [exitViewIn, bind_eq_ok_iff, require_eq_ok_iff, pure_eq_ok_iff]
  refine ⟨(), ⟨by rw [hlen]; decide, rfl⟩, _, rdU64_eq (by rw [hlen]; decide), _,
    rdU64_eq (by rw [hlen]; decide), c.collectionSize.toNat, ?_, (), ⟨by rwa [hr], hsize⟩, ?_⟩
  · simp [hs, hu32]
  · rw [hr]

/-- The exit paths read nothing else. -/
theorem LaunchConfig.exitViewIn_eq_ok {c : LaunchConfig} {e : ExitView}
    (h : exitViewIn c.accountData = .ok e) :
    e = { ratioBase := c.ratioBase.toNat, collectionSize := c.collectionSize.toNat } := by
  obtain ⟨hr, hs⟩ := c.readLE_accountData
  simp only [exitViewIn, rdU64, bind_eq_ok_iff, require_eq_ok_iff, pure_eq_ok_iff,
    expect_eq_ok_iff, toU32_eq_some_iff] at h
  obtain ⟨-, -, _, ⟨-, -, rfl⟩, _, ⟨-, -, rfl⟩, _, ⟨-, rfl⟩, -, -, rfl⟩ := h
  rw [hr, hs]

/-- The sanity checks of the exit paths. -/
theorem LaunchConfig.exitViewIn_economics {c : LaunchConfig} {e : ExitView}
    (h : exitViewIn c.accountData = .ok e) :
    0 < c.ratioBase.toNat ∧ 0 < c.collectionSize.toNat ∧ c.collectionSize.toNat < u32Size := by
  obtain ⟨hr, hs⟩ := c.readLE_accountData
  simp only [exitViewIn, rdU64, bind_eq_ok_iff, require_eq_ok_iff, pure_eq_ok_iff,
    expect_eq_ok_iff, toU32_eq_some_iff] at h
  obtain ⟨-, -, _, ⟨-, -, rfl⟩, _, ⟨-, -, rfl⟩, _, ⟨hu32, rfl⟩, -, hpos, -⟩ := h
  rw [hs] at hu32
  rw [hr, hs] at hpos
  exact ⟨hpos.1, hpos.2, hu32⟩

/-- What `econ` returns, the exit paths read too. -/
theorem exitViewIn_of_econ {c : LaunchConfig} {e : Econ} (h : econ c = .ok e) :
    exitViewIn c.accountData
      = .ok { ratioBase := e.ratioBase, collectionSize := e.collectionSize } := by
  simp only [econ, bind_eq_ok_iff, require_eq_ok_iff, pure_eq_ok_iff, expect_eq_ok_iff,
    toU32_eq_some_iff] at h
  obtain ⟨-, -, -, -, n, ⟨hu32, rfl⟩, -, ⟨hsize, hratio⟩, rfl⟩ := h
  exact LaunchConfig.exitViewIn_accountData hratio hsize hu32

end HybridVault
