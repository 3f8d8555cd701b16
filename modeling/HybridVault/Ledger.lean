import HybridVault.Foundations.Codec
import HybridVault.Foundations.Fallible

/-!
# Keys, faults and machine arithmetic

What every instruction of the vault program is written in.

* `Pubkey` — an account address.  An address is either 32 raw bytes or one of
  the addresses the vault program derives from seeds.  Derived addresses are
  kept symbolic: two of them are equal exactly if their seeds are, and none is
  the key of a signer.  This is the usual idealisation of
  `find_program_address`, and the reason bumps do not occur.
* `Fault` — why an instruction fails: an error of the program's own list, a
  failed account constraint, a failed call into another program, a panic, or an
  exhausted compute budget.
* `Res` — fallible results.  Integers are natural numbers; the arithmetic of
  `u64` and `u32` is explicit in the checked operations, which fail where the
  program's `checked_*` calls do, and in the panicking ones, which model the
  overflow checks of the release profile.
-/

namespace HybridVault

open Foundations

/-! ## Keys -/

/-- 32 bytes: a hash, a randomness value, or a raw account key. -/
structure Bytes32 where
  bytes : Bytes
  length_eq : bytes.length = 32
deriving DecidableEq

namespace Bytes32

/-- `[0; 32]`, which is also `Pubkey::default()`. -/
def zero : Bytes32 := ⟨List.replicate 32 0, by simp⟩

/-- 32 copies of one byte. -/
def fill (b : UInt8) : Bytes32 := ⟨List.replicate 32 b, by simp⟩

instance : Inhabited Bytes32 := ⟨zero⟩

theorem ext_bytes {a b : Bytes32} (h : a.bytes = b.bytes) : a = b := by
  cases a; cases b; simpa using h

end Bytes32

/-- Account addresses: raw keys, and the vault program's derived addresses, one
constructor for each seed list. -/
inductive Pubkey
  | raw (key : Bytes32)
  /-- `["vault_authority", vault]` -/
  | vaultAuthority (vault : Bytes32)
  /-- `["randomness_authority", vault]` -/
  | randomnessAuthority (vault : Bytes32)
  /-- `["vault_tokens", vault]` -/
  | vaultTokens (vault : Bytes32)
  /-- `["collection", vault]` -/
  | collection (vault : Bytes32)
  /-- `["asset", vault, index_le]` -/
  | asset (vault : Bytes32) (index : ℕ)
  /-- `["request", vault, seq_le]` -/
  | request (vault : Bytes32) (seq : ℕ)
  /-- `["mint_escrow", vault, seq_le]` -/
  | mintEscrow (vault : Bytes32) (seq : ℕ)
  /-- `["rand_lock", randomness]` -/
  | randLock (randomness : Pubkey)
deriving DecidableEq

/-- `Pubkey::default()`. -/
def Pubkey.default : Pubkey := .raw Bytes32.zero

/-- A key that can sign a transaction: derived addresses cannot. -/
def Pubkey.IsSigner : Pubkey → Prop
  | .raw _ => True
  | _ => False

instance (k : Pubkey) : Decidable k.IsSigner := by
  cases k <;> simp only [Pubkey.IsSigner] <;> infer_instance

/-- The programs that can own an account. -/
inductive ProgramId
  | system
  | token
  | hybridVault
  | hybridLaunch
  | mplCore
  | switchboard
  | dbc
  | other (id : ℕ)
deriving DecidableEq, Repr

/-! ## Faults -/

/-- The errors of `hybrid_vault`'s error list that a modelled path raises. -/
inductive VaultError
  | InvalidPoolAccount
  | PoolMismatch
  | MetadataTooLong
  | IndexOutOfRange
  | InvalidMerkleProof
  | NoAssetAvailable
  | AliasedTokenAccount
  | InvalidRandomnessAccount
  | RandomnessNotFresh
  | RandomnessMismatch
  | RandomnessNotRevealed
  | RandomnessAlreadyRevealed
  | OutOfOrder
  | WrongRequestKind
  | MergeBacklog
  | WrongAsset
  | DeadlineNotReached
  | AssetStateMismatch
  | InsolventVault
  | AssetAccountingBroken
  | MathOverflow
  | UriNotContentAddressed
  | VaultNotOpen
  | VaultAlreadyOpen
  | GraduationNotVerified
  | GraduationCheckUnavailable
  | RandomnessAuthorityMismatch
  | WrongQueue
  | OracleReused
  | RecommitsExhausted
  | RecommitsRemaining
  | ExpiryNotReached
  | UnsupportedLaunchConfig
  | WrongOracle
  | NoFreshOracle
  | OracleStale
  | CollectionAboveCap
  | MintArgsMissing
  | MintEscrowShort
  | AlreadyMinted
  | MintCostConstantStale
  | ExpireBatchInvalid
  | ExpireBatchAccountMismatch
  | FeeNotTier
  | NotCreator
deriving DecidableEq, Repr

/-- The account checks Anchor makes before a handler runs. -/
inductive AnchorError
  | AccountNotInitialized
  | AccountAlreadyInUse
  | ConstraintSeeds
  | ConstraintHasOne
  | ConstraintTokenMint
  | ConstraintTokenOwner
  | NotSigner
deriving DecidableEq, Repr

/-- Why an instruction fails. -/
inductive Fault
  | vault (e : VaultError)
  | anchor (e : AnchorError)
  /-- A call into another program failed. -/
  | cpi (program : ProgramId)
  /-- A slice index, an `unwrap` or an unchecked operation failed. -/
  | panic
  /-- The transaction ran out of compute. -/
  | outOfCompute
deriving DecidableEq, Repr

/-- Fallible results. -/
abbrev Res (α : Type) := Except Fault α

/-- `require!`: fail with a vault error. -/
abbrev check (p : Prop) [Decidable p] (e : VaultError) : Res Unit := require p (.vault e)

/-- An Anchor account constraint. -/
abbrev constraint (p : Prop) [Decidable p] (e : AnchorError) : Res Unit := require p (.anchor e)

/-! ## Machine arithmetic -/

/-- `u64::MAX + 1`. -/
def u64Size : ℕ := 2 ^ 64

/-- `u32::MAX + 1`. -/
def u32Size : ℕ := 2 ^ 32

/-- `u64::checked_add`. -/
def checkedAdd (a b : ℕ) : Option ℕ := if a + b < u64Size then some (a + b) else none

/-- `u64::checked_sub`. -/
def checkedSub (a b : ℕ) : Option ℕ := if b ≤ a then some (a - b) else none

/-- `u64::checked_mul`. -/
def checkedMul (a b : ℕ) : Option ℕ := if a * b < u64Size then some (a * b) else none

/-- `u32::checked_add`. -/
def checkedAdd32 (a b : ℕ) : Option ℕ := if a + b < u32Size then some (a + b) else none

/-- `u8::checked_add`. -/
def checkedAdd8 (a b : ℕ) : Option ℕ := if a + b < 256 then some (a + b) else none

/-- `u64::saturating_add`. -/
def saturatingAdd (a b : ℕ) : ℕ := min (a + b) (u64Size - 1)

@[simp] theorem checkedAdd_eq_some_iff {a b c : ℕ} :
    checkedAdd a b = some c ↔ a + b < u64Size ∧ a + b = c := by
  simp [checkedAdd]

@[simp] theorem checkedSub_eq_some_iff {a b c : ℕ} :
    checkedSub a b = some c ↔ b ≤ a ∧ a - b = c := by
  simp [checkedSub]

@[simp] theorem checkedMul_eq_some_iff {a b c : ℕ} :
    checkedMul a b = some c ↔ a * b < u64Size ∧ a * b = c := by
  simp [checkedMul]

@[simp] theorem checkedAdd32_eq_some_iff {a b c : ℕ} :
    checkedAdd32 a b = some c ↔ a + b < u32Size ∧ a + b = c := by
  simp [checkedAdd32]

@[simp] theorem checkedAdd8_eq_some_iff {a b c : ℕ} :
    checkedAdd8 a b = some c ↔ a + b < 256 ∧ a + b = c := by
  simp [checkedAdd8]

/-- `a + b` in `u32`, with overflow checks on. -/
def addU32 (a b : ℕ) : Res ℕ := expect (checkedAdd32 a b) .panic

/-- `a - b` in `u32`, with overflow checks on. -/
def subU32 (a b : ℕ) : Res ℕ := expect (checkedSub a b) .panic

/-! ## Reads and writes of a raw buffer

Slice indexing panics out of range; the widths are those of the source. -/

/-- `u32::from_le_bytes(d[o..o + 4])`. -/
def rdU32 (d : Bytes) (o : ℕ) : Res ℕ := do
  require (o + 4 ≤ d.length) .panic
  return readLE d o 4

/-- `d[o..o + 4].copy_from_slice(v.to_le_bytes())`. -/
def wrU32 (d : Bytes) (o v : ℕ) : Res Bytes := do
  require (o + 4 ≤ d.length) .panic
  return writeLE d o 4 v

/-- `u64::from_le_bytes(d[o..o + 8])`. -/
def rdU64 (d : Bytes) (o : ℕ) : Res ℕ := do
  require (o + 8 ≤ d.length) .panic
  return readLE d o 8

/-- `d[o..o + 8].copy_from_slice(v.to_le_bytes())`. -/
def wrU64 (d : Bytes) (o v : ℕ) : Res Bytes := do
  require (o + 8 ≤ d.length) .panic
  return writeLE d o 8 v

/-- `d[o]`. -/
def rdByte (d : Bytes) (o : ℕ) : Res ℕ := do
  require (o < d.length) .panic
  return readLE d o 1

/-- `d[o] = v`. -/
def wrByte (d : Bytes) (o v : ℕ) : Res Bytes := do
  require (o < d.length) .panic
  return writeLE d o 1 v

/-- `Pubkey::new_from_array(d[o..o + 32])`. -/
def rdKey (d : Bytes) (o : ℕ) : Res Bytes32 :=
  if h : (slice d o 32).length = 32 then .ok ⟨slice d o 32, h⟩ else .error .panic

theorem rdU32_eq {d : Bytes} {o : ℕ} (h : o + 4 ≤ d.length) : rdU32 d o = .ok (readLE d o 4) := by
  simp [rdU32, h]

theorem wrU32_eq {d : Bytes} {o v : ℕ} (h : o + 4 ≤ d.length) :
    wrU32 d o v = .ok (writeLE d o 4 v) := by
  simp [wrU32, h]

theorem rdU64_eq {d : Bytes} {o : ℕ} (h : o + 8 ≤ d.length) : rdU64 d o = .ok (readLE d o 8) := by
  simp [rdU64, h]

theorem wrU64_eq {d : Bytes} {o v : ℕ} (h : o + 8 ≤ d.length) :
    wrU64 d o v = .ok (writeLE d o 8 v) := by
  simp [wrU64, h]

theorem rdByte_eq {d : Bytes} {o : ℕ} (h : o < d.length) : rdByte d o = .ok (readLE d o 1) := by
  simp [rdByte, h]

theorem wrByte_eq {d : Bytes} {o v : ℕ} (h : o < d.length) :
    wrByte d o v = .ok (writeLE d o 1 v) := by
  simp [wrByte, h]

theorem wrU32_eq_ok_iff {d d' : Bytes} {o v : ℕ} :
    wrU32 d o v = .ok d' ↔ o + 4 ≤ d.length ∧ writeLE d o 4 v = d' := by
  simp [wrU32]

theorem wrU64_eq_ok_iff {d d' : Bytes} {o v : ℕ} :
    wrU64 d o v = .ok d' ↔ o + 8 ≤ d.length ∧ writeLE d o 8 v = d' := by
  simp [wrU64]

theorem wrByte_eq_ok_iff {d d' : Bytes} {o v : ℕ} :
    wrByte d o v = .ok d' ↔ o < d.length ∧ writeLE d o 1 v = d' := by
  simp [wrByte]

theorem addU32_eq {a b : ℕ} (h : a + b < u32Size) : addU32 a b = .ok (a + b) := by
  simp [addU32, h]

theorem subU32_eq {a b : ℕ} (h : b ≤ a) : subU32 a b = .ok (a - b) := by
  simp [subU32, h]

theorem rdKey_eq {d : Bytes} {o : ℕ} (h : o + 32 ≤ d.length) :
    rdKey d o = .ok ⟨slice d o 32, length_slice h⟩ := by
  simp [rdKey, length_slice h]

end HybridVault
