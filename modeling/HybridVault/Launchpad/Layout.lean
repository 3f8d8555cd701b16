import HybridVault.Foundations.Format
import HybridVault.Launchpad.Dbc
import HybridVault.Upgrade

/-!
# The layout of a launch record

A record is read in two ways.  Instructions that open positions load it through its type:
the discriminator, then Borsh field by field, with whatever follows left alone
(`tryDeserialize`).  The exit paths read raw bytes at offsets that are frozen
(`stable_layout.rs`), so that they outlive any change of the type.

The two agree on every byte string, not only on those the program has written
(`launch_config_layout`): what loads as a record starts with the bytes of that record, and
every frozen offset is where its field is.
-/

namespace HybridVault.Launchpad

open Foundations

def lcOffVersion : ℕ := 8

def lcOffMint : ℕ := 43

def lcOffDecimals : ℕ := 140

def lcOffRatioWholeTokens : ℕ := 149

def lcOffFeeLamports : ℕ := 181

def lcOffFeeRecipient : ℕ := 189

/-! ## The typed reader -/

def keyFormat : Format UInt8 Bytes32 :=
  (Format.block 32).map
    ⟨fun b => ⟨b.val, b.property⟩, fun k => ⟨k.bytes, k.length_eq⟩, fun _ => rfl, fun _ => rfl⟩

open Format in
/-- The fields of a record, in declaration order. -/
def fieldsFormat :=
  (symbol (σ := UInt8)).seq <| symbol.seq <| symbol.seq <| keyFormat.seq <| keyFormat.seq <|
    keyFormat.seq <| keyFormat.seq <| symbol.seq <| symbol.seq <| u64.seq <| u64.seq <| u64.seq <|
    u64.seq <| u64.seq <| u64.seq <| keyFormat.seq <| u64.seq <| symbol.seq <| i64.seq <|
    keyFormat.seq keyFormat

/-- `AccountSerialize` and `AccountDeserialize` of a record, as `#[account]` derives them. -/
def launchConfigFormat : Format UInt8 LaunchConfig :=
  (fieldsFormat.tagged lcDiscriminator).map {
    toFun := fun (version, bump, mintAuthorityBump, creator, mint, launchDestination, launchVault,
        launchVaultBump, decimals, totalSupplyBase, ratioWholeTokens, ratioBase, collectionSize,
        maxTokensInNftForm, feeLamports, feeRecipient, graduationThresholdLamports,
        graduationSlicePct, launchedAt, dbcConfig, dbcPool) =>
      { version, bump, mintAuthorityBump, creator, mint, launchDestination, launchVault,
        launchVaultBump, decimals, totalSupplyBase, ratioWholeTokens, ratioBase, collectionSize,
        maxTokensInNftForm, feeLamports, feeRecipient, graduationThresholdLamports,
        graduationSlicePct, launchedAt, dbcConfig, dbcPool }
    invFun := fun c => (c.version, c.bump, c.mintAuthorityBump, c.creator, c.mint,
      c.launchDestination, c.launchVault, c.launchVaultBump, c.decimals, c.totalSupplyBase,
      c.ratioWholeTokens, c.ratioBase, c.collectionSize, c.maxTokensInNftForm, c.feeLamports,
      c.feeRecipient, c.graduationThresholdLamports, c.graduationSlicePct, c.launchedAt,
      c.dbcConfig, c.dbcPool)
    left_inv := fun _ => rfl
    right_inv := fun _ => rfl }

/-- `LaunchConfig::try_deserialize`. -/
def tryDeserialize (data : Bytes) : Option LaunchConfig :=
  (launchConfigFormat.read data).map Prod.fst

theorem write_launchConfigFormat (c : LaunchConfig) :
    launchConfigFormat.write c = c.accountData := by
  simp only [LaunchConfig.accountData, LaunchConfig.serialize, List.append_assoc]
  rfl

/-- **The typed reader reads back what is written**, whatever follows, and nothing else. -/
theorem tryDeserialize_eq_some_iff {data : Bytes} {c : LaunchConfig} :
    tryDeserialize data = some c ↔ ∃ rest, data = c.accountData ++ rest := by
  rw [tryDeserialize, launchConfigFormat.map_fst_read_eq_some_iff, write_launchConfigFormat]

/-! ## The frozen offsets -/

/-- Every frozen offset holds the field of the record it is named after. -/
structure FrozenAt (data : Bytes) (c : LaunchConfig) : Prop where
  stable : lcStablePrefixLen ≤ data.length
  discriminator : slice data 0 lcDiscriminatorLen = lcDiscriminator
  version : rdByte data lcOffVersion = .ok c.version.toNat
  mint : rdKey data lcOffMint = .ok c.mint
  decimals : rdByte data lcOffDecimals = .ok c.decimals.toNat
  ratioWholeTokens : rdU64 data lcOffRatioWholeTokens = .ok c.ratioWholeTokens.toNat
  ratioBase : rdU64 data lcOffRatioBase = .ok c.ratioBase.toNat
  collectionSize : rdU64 data lcOffCollectionSize = .ok c.collectionSize.toNat
  feeLamports : rdU64 data lcOffFeeLamports = .ok c.feeLamports.toNat
  feeRecipient : rdKey data lcOffFeeRecipient = .ok c.feeRecipient

/-- The parts of the account of a record. -/
def accountParts (c : LaunchConfig) : List Bytes :=
  [lcDiscriminator, [c.version], [c.bump], [c.mintAuthorityBump], c.creator.bytes, c.mint.bytes,
    c.launchDestination.bytes, c.launchVault.bytes, [c.launchVaultBump], [c.decimals],
    u64Bytes c.totalSupplyBase, u64Bytes c.ratioWholeTokens, u64Bytes c.ratioBase,
    u64Bytes c.collectionSize, u64Bytes c.maxTokensInNftForm, u64Bytes c.feeLamports,
    c.feeRecipient.bytes, u64Bytes c.graduationThresholdLamports, [c.graduationSlicePct],
    u64Bytes c.launchedAt.toUInt64, c.dbcConfig.bytes, c.dbcPool.bytes]

theorem flatten_accountParts (c : LaunchConfig) : (accountParts c).flatten = c.accountData := by
  simp [accountParts, LaunchConfig.accountData, LaunchConfig.serialize]

/-- The width of each part, which is the same for all records. -/
def partWidths : List ℕ :=
  [8, 1, 1, 1, 32, 32, 32, 32, 1, 1, 8, 8, 8, 8, 8, 8, 32, 8, 1, 8, 32, 32]

theorem map_length_accountParts (c : LaunchConfig) :
    (accountParts c).map List.length = partWidths := by
  simp [accountParts, partWidths, u64Bytes, lcDiscriminator, Bytes32.length_eq]

/-- **A field is behind the widths of those before it**, whatever follows the record. -/
theorem slice_accountData {c : LaunchConfig} {i o : ℕ} {part : Bytes}
    (hi : (accountParts c)[i]? = some part) (ho : (partWidths.take i).sum = o) (rest : Bytes) :
    slice (c.accountData ++ rest) o part.length = part := by
  rw [← flatten_accountParts, ← ho, ← map_length_accountParts c]
  exact slice_flatten_append hi rest

theorem rdByte_accountData {c : LaunchConfig} {i o : ℕ} {b : UInt8}
    (hi : (accountParts c)[i]? = some [b]) (ho : (partWidths.take i).sum = o) (rest : Bytes) :
    rdByte (c.accountData ++ rest) o = .ok b.toNat :=
  rdByte_of_slice (slice_accountData hi ho rest)

theorem rdU64_accountData {c : LaunchConfig} {i o : ℕ} {v : UInt64}
    (hi : (accountParts c)[i]? = some (u64Bytes v)) (ho : (partWidths.take i).sum = o)
    (rest : Bytes) : rdU64 (c.accountData ++ rest) o = .ok v.toNat := by
  have hslice := slice_accountData hi ho rest
  rw [u64Bytes, length_leBytes] at hslice
  exact rdU64_of_slice hslice

theorem rdKey_accountData {c : LaunchConfig} {i o : ℕ} {key : Bytes32}
    (hi : (accountParts c)[i]? = some key.bytes) (ho : (partWidths.take i).sum = o)
    (rest : Bytes) : rdKey (c.accountData ++ rest) o = .ok key := by
  have hslice := slice_accountData hi ho rest
  rw [key.length_eq] at hslice
  exact rdKey_of_slice hslice

theorem frozenAt_accountData (c : LaunchConfig) (rest : Bytes) :
    FrozenAt (c.accountData ++ rest) c where
  stable := (SameEconomics.append c.stablePrefixLen_le rest).prefix_le
  discriminator := slice_accountData (i := 0) rfl rfl rest
  version := rdByte_accountData (i := 1) rfl rfl rest
  mint := rdKey_accountData (i := 5) rfl rfl rest
  decimals := rdByte_accountData (i := 9) rfl rfl rest
  ratioWholeTokens := rdU64_accountData (i := 11) rfl rfl rest
  ratioBase := rdU64_accountData (i := 12) rfl rfl rest
  collectionSize := rdU64_accountData (i := 13) rfl rfl rest
  feeLamports := rdU64_accountData (i := 15) rfl rfl rest
  feeRecipient := rdKey_accountData (i := 16) rfl rfl rest

/-- **The two readers of a record agree on every account.**  What loads through the type is
the record's own bytes and whatever follows; then every frozen offset holds the field it is
named after, the exit paths read what `econ` accepts, and they never read anything else. -/
theorem launch_config_layout (data : Bytes) (c : LaunchConfig) :
    (tryDeserialize data = some c ↔ ∃ rest, data = c.accountData ++ rest) ∧
      (tryDeserialize data = some c → FrozenAt data c ∧
        (∀ e, econ c = .ok e →
          exitViewIn data = .ok { ratioBase := e.ratioBase, collectionSize := e.collectionSize }) ∧
        ∀ v, exitViewIn data = .ok v →
          v = { ratioBase := c.ratioBase.toNat, collectionSize := c.collectionSize.toNat }) := by
  refine ⟨tryDeserialize_eq_some_iff, fun h => ?_⟩
  obtain ⟨rest, rfl⟩ := tryDeserialize_eq_some_iff.mp h
  refine ⟨frozenAt_accountData c rest, ?_, ?_⟩
  · intro e he
    exact exitViewIn_append_of_econ he rest
  · intro v hv
    rw [(SameEconomics.append c.stablePrefixLen_le rest).exitViewIn_eq] at hv
    exact LaunchConfig.exitViewIn_eq_ok hv

/-- A record that a later version of the program has appended to. -/
theorem launch_config_layout_small :
    FrozenAt (smallLaunch.accountData ++ List.replicate 64 255) smallLaunch := by
  obtain ⟨hiff, hread⟩ :=
    launch_config_layout (smallLaunch.accountData ++ List.replicate 64 255) smallLaunch
  exact (hread (hiff.mpr ⟨_, rfl⟩)).1

end HybridVault.Launchpad
