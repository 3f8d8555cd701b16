import HybridVault.Instructions.Lifecycle
import HybridVault.Launchpad.Accounts

/-!
# The accounts of a bonding curve

`dbc.rs` reads two accounts of Meteora's DBC program at fixed offsets: the configuration of
a curve, and the pool of a token.  Both readers check the length and the discriminator
first, and after that nothing can fail (`exists_parseConfig_of_accepted`,
`exists_parsePool_of_accepted`).  What DBC stores is what is read back (`parseConfig_store`,
`parsePool_store`).

The vault reads a pool through the same function.  Its model keeps the fields graduation
asks for, and those are the ones read here (`DbcPool.view`).
-/

namespace HybridVault.Launchpad

open Foundations

/-! ## Constants -/

/-- `DBC_POOL_AUTHORITY`, FhVo3mqL8PW5pH5U2CN4XE33DokiyZnUwuGpH2hmHLuM. -/
def dbcPoolAuthority : Bytes32 where
  bytes := [218, 99, 104, 31, 114, 134, 188, 200, 6, 113, 158, 44, 43, 80, 162, 1, 87, 36, 59, 252,
    150, 104, 177, 21, 32, 188, 83, 132, 62, 220, 219, 8]
  length_eq := rfl

/-- `WRAPPED_SOL_MINT`, So11111111111111111111111111111111111111112. -/
def wrappedSolMint : Bytes32 where
  bytes := [6, 155, 136, 87, 254, 171, 129, 132, 251, 104, 127, 99, 70, 24, 192, 53, 218, 196, 57,
    220, 26, 235, 59, 85, 152, 160, 240, 0, 0, 0, 0, 1]
  length_eq := rfl

/-- `DBC_CONFIG_DISCRIMINATOR`. -/
def dbcConfigDiscriminator : Bytes := [26, 108, 14, 123, 116, 230, 129, 43]

/-- `DBC_CONFIG_LEN`. -/
def dbcConfigLen : ℕ := 8 + 1040

def cfgOffQuoteMint : ℕ := 8

def cfgOffLeftoverReceiver : ℕ := 72

def cfgOffTokenDecimal : ℕ := 235

def cfgOffTokenType : ℕ := 237

def cfgOffFixedSupplyFlag : ℕ := 244

def cfgOffTokenUpdateAuthority : ℕ := 246

def cfgOffMigrationQuoteThreshold : ℕ := 264

def cfgOffPreMigrationSupply : ℕ := 344

def cfgOffPostMigrationSupply : ℕ := 352

def poolOffConfig : ℕ := 72

def poolOffCreator : ℕ := 104

def poolOffBaseMint : ℕ := 136

def poolOffBaseVault : ℕ := 168

def poolOffPoolType : ℕ := 304

def poolOffIsMigrated : ℕ := 305

def poolOffMigrationProgress : ℕ := 308

/-- `DBC_TOKEN_TYPE_SPL`. -/
def dbcTokenTypeSpl : UInt8 := 0

/-- `DBC_TOKEN_AUTHORITY_IMMUTABLE`. -/
def dbcTokenAuthorityImmutable : UInt8 := 1

/-! ## The readers -/

/-- `DbcConfig`. -/
structure DbcConfig where
  quoteMint : Bytes32
  leftoverReceiver : Bytes32
  tokenDecimal : UInt8
  tokenType : UInt8
  fixedTokenSupply : Bool
  tokenUpdateAuthority : UInt8
  migrationQuoteThreshold : UInt64
  preMigrationTokenSupply : UInt64
  postMigrationTokenSupply : UInt64
deriving DecidableEq

/-- `DbcPool`. -/
structure DbcPool where
  config : Bytes32
  creator : Bytes32
  baseMint : Bytes32
  baseVault : Bytes32
  poolType : UInt8
  isMigrated : Bool
  migrationProgress : UInt8
deriving DecidableEq

/-- Migrated to the DAMM pool. -/
def DbcPool.graduated (p : DbcPool) : Bool :=
  p.isMigrated && p.migrationProgress.toNat = dbcMigrationCreatedPool

/-- `parse_config`. -/
def parseConfig (d : Bytes) : HybridVault.Res (Option DbcConfig) :=
  if d.length ≠ dbcConfigLen ∨ slice d 0 8 ≠ dbcConfigDiscriminator then
    return none
  else do
    let quoteMint ← rdKey d cfgOffQuoteMint
    let leftoverReceiver ← rdKey d cfgOffLeftoverReceiver
    let tokenDecimal ← rdByte d cfgOffTokenDecimal
    let tokenType ← rdByte d cfgOffTokenType
    let fixedTokenSupply ← rdByte d cfgOffFixedSupplyFlag
    let tokenUpdateAuthority ← rdByte d cfgOffTokenUpdateAuthority
    let migrationQuoteThreshold ← rdU64 d cfgOffMigrationQuoteThreshold
    let preMigrationTokenSupply ← rdU64 d cfgOffPreMigrationSupply
    let postMigrationTokenSupply ← rdU64 d cfgOffPostMigrationSupply
    return some {
      quoteMint := quoteMint
      leftoverReceiver := leftoverReceiver
      tokenDecimal := .ofNat tokenDecimal
      tokenType := .ofNat tokenType
      fixedTokenSupply := fixedTokenSupply = 1
      tokenUpdateAuthority := .ofNat tokenUpdateAuthority
      migrationQuoteThreshold := .ofNat migrationQuoteThreshold
      preMigrationTokenSupply := .ofNat preMigrationTokenSupply
      postMigrationTokenSupply := .ofNat postMigrationTokenSupply }

/-- `parse_pool`. -/
def parsePool (d : Bytes) : HybridVault.Res (Option DbcPool) :=
  if d.length ≠ dbcPoolLen ∨ slice d 0 8 ≠ dbcPoolDiscriminator then
    return none
  else do
    let config ← rdKey d poolOffConfig
    let creator ← rdKey d poolOffCreator
    let baseMint ← rdKey d poolOffBaseMint
    let baseVault ← rdKey d poolOffBaseVault
    let poolType ← rdByte d poolOffPoolType
    let isMigrated ← rdByte d poolOffIsMigrated
    let migrationProgress ← rdByte d poolOffMigrationProgress
    return some {
      config := config
      creator := creator
      baseMint := baseMint
      baseVault := baseVault
      poolType := .ofNat poolType
      isMigrated := isMigrated = 1
      migrationProgress := .ofNat migrationProgress }

/-- `load_config`. -/
def loadConfig (a : Account) : Res (Option DbcConfig) :=
  match a.data with
  | .bytes d =>
      if a.owner ≠ .dbc then return none else (parseConfig d).mapError fun _ => Fault.panic
  | _ => return none

/-- `load_pool`. -/
def loadPool (a : Account) : Res (Option DbcPool) :=
  match a.data with
  | .bytes d => if a.owner ≠ .dbc then return none else (parsePool d).mapError fun _ => Fault.panic
  | _ => return none

/-- `is_approved_dbc_config`. -/
def isApprovedDbcConfig (P : Platform) (key : Bytes32) : Bool := P.approvedDbcConfigs.contains key

theorem loadConfig_of_bytes {a : Account} {d : Bytes} (howner : a.owner = .dbc)
    (hdata : a.data = .bytes d) :
    loadConfig a = (parseConfig d).mapError fun _ => Fault.panic := by
  unfold loadConfig
  rw [hdata, howner]
  rfl

theorem loadPool_of_bytes {a : Account} {d : Bytes} (howner : a.owner = .dbc)
    (hdata : a.data = .bytes d) : loadPool a = (parsePool d).mapError fun _ => Fault.panic := by
  unfold loadPool
  rw [hdata, howner]
  rfl

/-- A pool is loaded from an account of the DBC program. -/
theorem loadPool_eq_some {a : Account} {pool : DbcPool} (h : loadPool a = .ok (some pool)) :
    a.owner = .dbc ∧ ∃ d, a.data = .bytes d ∧ parsePool d = .ok (some pool) := by
  unfold loadPool at h
  split at h
  · rename_i d hdata
    split at h
    · cases h
    · rename_i howner
      exact ⟨not_not.mp howner, d, hdata, mapError_eq_ok_iff.mp h⟩
  · cases h

/-! ## The layout -/

theorem rdKey_of_slice {d : Bytes} {o : ℕ} {key : Bytes32} (h : slice d o 32 = key.bytes) :
    rdKey d o = .ok key := by
  have hlen : (slice d o 32).length = 32 := by rw [h, key.length_eq]
  rw [rdKey, dif_pos hlen]
  exact congrArg Except.ok (Bytes32.ext_bytes h)

theorem rdByte_of_slice {d : Bytes} {o : ℕ} {b : UInt8} (h : slice d o 1 = [b]) :
    rdByte d o = .ok b.toNat := by
  have hlen : o < d.length := by
    by_contra hle
    rw [slice, List.drop_of_length_le (by omega)] at h
    cases h
  rw [rdByte_eq hlen, readLE, h]
  rfl

theorem rdU64_of_slice {d : Bytes} {o : ℕ} {v : UInt64} (h : slice d o 8 = u64Bytes v) :
    rdU64 d o = .ok v.toNat := by
  have hlen : o + 8 ≤ d.length := by
    have hslice := congrArg List.length h
    simp only [slice, List.length_take, List.length_drop, u64Bytes, length_leBytes] at hslice
    omega
  rw [rdU64_eq hlen, readLE, h, leValue_u64Bytes]

section Windows

variable {d : Bytes} {ws : List (ℕ × Bytes)} {o : ℕ}

/-- A key is read back from the window it was stored in. -/
theorem rdKey_writeAll (h : Fits d.length ws) {k : Bytes32} (hw : (o, k.bytes) ∈ ws) :
    rdKey (writeAll d ws) o = .ok k := by
  apply rdKey_of_slice
  rw [← k.length_eq]
  exact slice_writeAll h hw

theorem rdByte_writeAll (h : Fits d.length ws) {b : UInt8} (hw : (o, [b]) ∈ ws) :
    rdByte (writeAll d ws) o = .ok b.toNat :=
  rdByte_of_slice (slice_writeAll h hw)

theorem rdU64_writeAll (h : Fits d.length ws) {v : UInt64} (hw : (o, u64Bytes v) ∈ ws) :
    rdU64 (writeAll d ws) o = .ok v.toNat := by
  have hslice := slice_writeAll h hw
  rw [u64Bytes, length_leBytes, ← u64Bytes] at hslice
  exact rdU64_of_slice hslice

end Windows

/-- A flag, as DBC stores it. -/
def flagByte (b : Bool) : UInt8 := if b then 1 else 0

theorem flagByte_toNat_eq_one (b : Bool) : decide ((flagByte b).toNat = 1) = b := by
  cases b <;> rfl

namespace DbcConfig

/-- Where a configuration account keeps what is read of it. -/
def windows (c : DbcConfig) : List (ℕ × Bytes) :=
  [(0, dbcConfigDiscriminator), (cfgOffQuoteMint, c.quoteMint.bytes),
    (cfgOffLeftoverReceiver, c.leftoverReceiver.bytes), (cfgOffTokenDecimal, [c.tokenDecimal]),
    (cfgOffTokenType, [c.tokenType]), (cfgOffFixedSupplyFlag, [flagByte c.fixedTokenSupply]),
    (cfgOffTokenUpdateAuthority, [c.tokenUpdateAuthority]),
    (cfgOffMigrationQuoteThreshold, u64Bytes c.migrationQuoteThreshold),
    (cfgOffPreMigrationSupply, u64Bytes c.preMigrationTokenSupply),
    (cfgOffPostMigrationSupply, u64Bytes c.postMigrationTokenSupply)]

/-- A configuration account that holds `c`, and elsewhere what `d` does. -/
def store (d : Bytes) (c : DbcConfig) : Bytes := writeAll d c.windows

theorem fits (c : DbcConfig) : Fits dbcConfigLen c.windows := by
  constructor
  · simp [windows, dbcConfigLen, dbcConfigDiscriminator, cfgOffQuoteMint, cfgOffLeftoverReceiver,
      cfgOffTokenDecimal, cfgOffTokenType, cfgOffFixedSupplyFlag, cfgOffTokenUpdateAuthority,
      cfgOffMigrationQuoteThreshold, cfgOffPreMigrationSupply, cfgOffPostMigrationSupply, u64Bytes,
      Bytes32.length_eq]
  · simp [windows, Apart, dbcConfigDiscriminator, cfgOffQuoteMint, cfgOffLeftoverReceiver,
      cfgOffTokenDecimal, cfgOffTokenType, cfgOffFixedSupplyFlag, cfgOffTokenUpdateAuthority,
      cfgOffMigrationQuoteThreshold, cfgOffPreMigrationSupply, cfgOffPostMigrationSupply, u64Bytes,
      Bytes32.length_eq]

theorem length_store (c : DbcConfig) {d : Bytes} (hd : d.length = dbcConfigLen) :
    (c.store d).length = dbcConfigLen := by
  rw [store, length_writeAll (by rw [hd]; exact c.fits), hd]

theorem parseConfig_store (c : DbcConfig) {d : Bytes} (hd : d.length = dbcConfigLen) :
    parseConfig (c.store d) = .ok (some c) := by
  have h : Fits d.length c.windows := by
    rw [hd]
    exact c.fits
  have hdisc : slice (c.store d) 0 8 = dbcConfigDiscriminator :=
    slice_writeAll h (w := (0, dbcConfigDiscriminator)) (by simp [windows])
  rw [parseConfig, if_neg (by simp [c.length_store hd, hdisc]), store,
    rdKey_writeAll h (k := c.quoteMint) (by simp [windows]), ok_bind,
    rdKey_writeAll h (k := c.leftoverReceiver) (by simp [windows]), ok_bind,
    rdByte_writeAll h (b := c.tokenDecimal) (by simp [windows]), ok_bind,
    rdByte_writeAll h (b := c.tokenType) (by simp [windows]), ok_bind,
    rdByte_writeAll h (b := flagByte c.fixedTokenSupply) (by simp [windows]), ok_bind,
    rdByte_writeAll h (b := c.tokenUpdateAuthority) (by simp [windows]), ok_bind,
    rdU64_writeAll h (v := c.migrationQuoteThreshold) (by simp [windows]), ok_bind,
    rdU64_writeAll h (v := c.preMigrationTokenSupply) (by simp [windows]), ok_bind,
    rdU64_writeAll h (v := c.postMigrationTokenSupply) (by simp [windows]), ok_bind]
  simp [flagByte_toNat_eq_one]

end DbcConfig

namespace DbcPool

/-- Where a pool account keeps what is read of it. -/
def windows (p : DbcPool) : List (ℕ × Bytes) :=
  [(0, dbcPoolDiscriminator), (poolOffConfig, p.config.bytes), (poolOffCreator, p.creator.bytes),
    (poolOffBaseMint, p.baseMint.bytes), (poolOffBaseVault, p.baseVault.bytes),
    (poolOffPoolType, [p.poolType]), (poolOffIsMigrated, [flagByte p.isMigrated]),
    (poolOffMigrationProgress, [p.migrationProgress])]

/-- A pool account that holds `p`, and elsewhere what `d` does. -/
def store (d : Bytes) (p : DbcPool) : Bytes := writeAll d p.windows

theorem fits (p : DbcPool) : Fits dbcPoolLen p.windows := by
  constructor
  · simp [windows, dbcPoolLen, dbcPoolDiscriminator, poolOffConfig, poolOffCreator, poolOffBaseMint,
      poolOffBaseVault, poolOffPoolType, poolOffIsMigrated, poolOffMigrationProgress,
      Bytes32.length_eq]
  · simp [windows, Apart, dbcPoolDiscriminator, poolOffConfig, poolOffCreator, poolOffBaseMint,
      poolOffBaseVault, poolOffPoolType, poolOffIsMigrated, poolOffMigrationProgress,
      Bytes32.length_eq]

theorem length_store (p : DbcPool) {d : Bytes} (hd : d.length = dbcPoolLen) :
    (p.store d).length = dbcPoolLen := by
  rw [store, length_writeAll (by rw [hd]; exact p.fits), hd]

theorem parsePool_store (p : DbcPool) {d : Bytes} (hd : d.length = dbcPoolLen) :
    parsePool (p.store d) = .ok (some p) := by
  have h : Fits d.length p.windows := by
    rw [hd]
    exact p.fits
  have hdisc : slice (p.store d) 0 8 = dbcPoolDiscriminator :=
    slice_writeAll h (w := (0, dbcPoolDiscriminator)) (by simp [windows])
  rw [parsePool, if_neg (by simp [p.length_store hd, hdisc]), store,
    rdKey_writeAll h (k := p.config) (by simp [windows]), ok_bind,
    rdKey_writeAll h (k := p.creator) (by simp [windows]), ok_bind,
    rdKey_writeAll h (k := p.baseMint) (by simp [windows]), ok_bind,
    rdKey_writeAll h (k := p.baseVault) (by simp [windows]), ok_bind,
    rdByte_writeAll h (b := p.poolType) (by simp [windows]), ok_bind,
    rdByte_writeAll h (b := flagByte p.isMigrated) (by simp [windows]), ok_bind,
    rdByte_writeAll h (b := p.migrationProgress) (by simp [windows]), ok_bind]
  simp [flagByte_toNat_eq_one]

/-- The fields the vault asks a pool for. -/
def view (p : DbcPool) : HybridVault.DbcPool where
  config := p.config
  baseMint := p.baseMint
  isMigrated := p.isMigrated
  migrationProgress := p.migrationProgress.toNat

end DbcPool

/-! ## The readers are total -/

theorem exists_parseConfig_of_accepted {d : Bytes} (hlen : d.length = dbcConfigLen)
    (hdisc : slice d 0 8 = dbcConfigDiscriminator) : ∃ c, parseConfig d = .ok (some c) := by
  have hoff : ∀ {o n : ℕ}, o + n ≤ dbcConfigLen → o + n ≤ d.length := fun h => by rwa [hlen]
  rw [parseConfig, if_neg (by simp [hlen, hdisc]), rdKey_eq (hoff (by decide)), ok_bind,
    rdKey_eq (hoff (by decide)), ok_bind, rdByte_eq (hoff (n := 1) (by decide)), ok_bind,
    rdByte_eq (hoff (n := 1) (by decide)), ok_bind, rdByte_eq (hoff (n := 1) (by decide)), ok_bind,
    rdByte_eq (hoff (n := 1) (by decide)), ok_bind, rdU64_eq (hoff (by decide)), ok_bind,
    rdU64_eq (hoff (by decide)), ok_bind, rdU64_eq (hoff (by decide)), ok_bind]
  exact ⟨_, rfl⟩

/-- What is read of a pool account, and what the vault reads of it. -/
theorem exists_parsePool_of_accepted {d : Bytes} (hlen : d.length = dbcPoolLen)
    (hdisc : slice d 0 8 = dbcPoolDiscriminator) :
    ∃ p : DbcPool, parsePool d = .ok (some p) ∧ parseDbcPool d = .ok (some p.view) := by
  have hoff : ∀ {o n : ℕ}, o + n ≤ dbcPoolLen → o + n ≤ d.length := fun h => by rwa [hlen]
  rw [parsePool, parseDbcPool, if_neg (by simp [hlen, hdisc]), if_neg (by simp [hlen, hdisc]),
    rdKey_eq (hoff (by decide)), ok_bind, rdKey_eq (hoff (by decide)), ok_bind,
    rdKey_eq (hoff (by decide)), ok_bind, rdKey_eq (hoff (by decide)), ok_bind,
    rdByte_eq (hoff (n := 1) (by decide)), ok_bind, rdByte_eq (hoff (n := 1) (by decide)), ok_bind,
    rdByte_eq (hoff (n := 1) (by decide)), ok_bind]
  refine ⟨_, rfl, ?_⟩
  have hprogress : (UInt8.ofNat (readLE d poolOffMigrationProgress 1)).toNat
      = readLE d poolOffMigrationProgress 1 :=
    UInt8.toNat_ofNat_of_lt' (readLE_lt d poolOffMigrationProgress 1)
  rw [rdKey_eq (hoff (by decide)), ok_bind, rdKey_eq (hoff (by decide)), ok_bind,
    rdByte_eq (hoff (n := 1) (by decide)), ok_bind, rdByte_eq (hoff (n := 1) (by decide)), ok_bind]
  unfold DbcPool.view
  rw [hprogress]
  rfl

/-- **The readers of DBC's accounts.**  A buffer is read exactly if it has the length and the
discriminator of its kind, and no buffer makes a reader panic; whatever a pool or a
configuration holds is read back, whatever else is in the account; and both programs read a
pool alike. -/
theorem dbc_accounts_read_back :
    (∀ (c : DbcConfig) (d : Bytes), d.length = dbcConfigLen →
      parseConfig (c.store d) = .ok (some c)) ∧
    (∀ (p : DbcPool) (d : Bytes), d.length = dbcPoolLen → parsePool (p.store d) = .ok (some p)) ∧
    (∀ d : Bytes, if d.length = dbcConfigLen ∧ slice d 0 8 = dbcConfigDiscriminator
      then ∃ c, parseConfig d = .ok (some c) else parseConfig d = .ok none) ∧
    ∀ d : Bytes, if d.length = dbcPoolLen ∧ slice d 0 8 = dbcPoolDiscriminator
      then ∃ p : DbcPool, parsePool d = .ok (some p) ∧ parseDbcPool d = .ok (some p.view)
      else parsePool d = .ok none ∧ parseDbcPool d = .ok none := by
  refine ⟨fun c d hd => c.parseConfig_store hd, fun p d hd => p.parsePool_store hd, ?_, ?_⟩
  · intro d
    split
    · rename_i h
      exact exists_parseConfig_of_accepted h.1 h.2
    · rename_i h
      rw [parseConfig, if_pos (not_and_or.mp h)]
      rfl
  · intro d
    split
    · rename_i h
      exact exists_parsePool_of_accepted h.1 h.2
    · rename_i h
      rw [parsePool, parseDbcPool, if_pos (not_and_or.mp h), if_pos (not_and_or.mp h)]
      exact ⟨rfl, rfl⟩

end HybridVault.Launchpad
