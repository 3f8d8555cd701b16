import HybridVault.Deployment

/-!
# Which oracle a commit uses

The program, not the caller, chooses the oracle of a randomness commit: it walks
the pinned queue's oracle list cyclically from a position that depends on the
queue's own pointer, on a hash of vault and sequence number, and on how many
oracles the request has used.  It takes the first key that is not zero, not used
before, and not proven stale.  A key is proven stale only by its own account,
passed by the caller, with an old heartbeat; the oracle chosen must itself have a
fresh one.

The functions below are those of the source, panics included.  `walkKeys` and
`heartbeatOf` are what they amount to, and the lemmas between them show in
passing that no read leaves its buffer.
-/

namespace HybridVault

open Foundations

/-- An account the program reads as raw bytes. -/
structure RawAccount where
  owner : ProgramId
  data : Bytes
deriving DecidableEq

/-- One account content for each key. -/
abbrev RawAccounts := Pubkey → RawAccount

/-- An account that does not exist: owned by the system program, without data. -/
def RawAccount.empty : RawAccount := { owner := .system, data := [] }

/-! ## The launch configuration's account -/

/-- What the account of the launch configuration holds. -/
def Deployment.launchConfigAccount (D : Deployment) : RawAccount where
  owner := .hybridLaunch
  data := D.launchConfig.accountData

/-- `exit_view`: what the exit paths read of that account. -/
def exitView (acc : RawAccount) : Res ExitView := do
  check (acc.owner = .hybridLaunch) .UnsupportedLaunchConfig
  exitViewIn acc.data

@[simp] theorem exitView_launchConfigAccount (D : Deployment) :
    exitView D.launchConfigAccount = exitViewIn D.launchConfig.accountData := by
  rw [exitView, Deployment.launchConfigAccount, check, require_of rfl, ok_bind]

/-! ## Heartbeats -/

/-- `ORACLE_ACCOUNT_DISCRIMINATOR`. -/
def oracleAccountDiscriminator : Bytes := [128, 30, 16, 241, 170, 73, 55, 54]

def maxOracleHeartbeatAgeSecs : ℤ := 3_600

/-- `i64::from_le_bytes`, from the unsigned reading. -/
def toI64 (v : ℕ) : ℤ := if v < 2 ^ 63 then v else (v : ℤ) - 2 ^ 64

/-- `i64::saturating_sub`. -/
def saturatingSubI64 (a b : ℤ) : ℤ := max (-2 ^ 63) (min (2 ^ 63 - 1) (a - b))

/-- `last_heartbeat` of a Switchboard oracle account, or `none` if the account is
not one. -/
def oracleLastHeartbeat (D : Deployment) (acc : RawAccount) : Res (Option ℤ) :=
  if acc.owner ≠ .switchboard then
    return none
  else if acc.data.length < 8 + D.oracleLayout.size ∨
      slice acc.data 0 8 ≠ oracleAccountDiscriminator then
    return none
  else do
    let v ← rdU64 acc.data (8 + D.oracleLayout.lastHeartbeat)
    return some (toI64 v)

def heartbeatIsFresh (lastHeartbeat now : ℤ) : Bool :=
  saturatingSubI64 now lastHeartbeat ≤ maxOracleHeartbeatAgeSecs

/-! ## Selection -/

/-- `u64` addition with overflow checks on. -/
def addU64 (a b : ℕ) : Res ℕ := expect (checkedAdd a b) .panic

/-- `b"hybrid_vault/oracle"`. -/
def oracleDomain : Bytes :=
  [104, 121, 98, 114, 105, 100, 95, 118, 97, 117, 108, 116, 47, 111, 114, 97, 99, 108, 101]

/-- The first eight bytes of `H(vault, seq)`. -/
def oracleSpread (D : Deployment) (seq : ℕ) : ℕ :=
  readLE (D.sha256 (oracleDomain ++ D.vaultKey.bytes ++ leBytes 8 seq)).bytes 0 8

/-- The walk of `select_oracle_in` over the steps still to go. -/
def walkOracles (body : Bytes) (keysOff len start : ℕ) (used stale : List Pubkey) :
    List ℕ → Res Pubkey
  | [] => .error (.vault .NoFreshOracle)
  | step :: rest => do
      let i := (← addU64 start step) % len
      let k : Pubkey := .raw (← rdKey body (keysOff + 32 * i))
      if k ≠ Pubkey.default ∧ k ∉ used ∧ k ∉ stale then
        return k
      else
        walkOracles body keysOff len start used stale rest

/-- Selection over queue account data. -/
def selectOracleIn (D : Deployment) (data : Bytes) (seq : ℕ) (used stale : List Pubkey) :
    Res Pubkey := do
  let L := D.queueLayout
  check (8 + L.size ≤ data.length ∧ slice data 0 8 = L.discriminator) .WrongQueue
  let body := slice data 8 L.size
  let len ← rdU32 body L.oracleKeysLen
  let curr ← rdU32 body L.currIdx
  check (0 < len ∧ len ≤ maxListedOracles) .NoFreshOracle
  let spread := oracleSpread D seq
  let start := (← addU64 (← addU64 (curr % len) (spread % len)) used.length) % len
  walkOracles body L.oracleKeys len start used stale (List.range len)

/-- The keys of the accounts passed that prove their oracle stale. -/
def staleKeys (D : Deployment) (accounts : RawAccounts) (now : ℤ) :
    List Pubkey → Res (List Pubkey)
  | [] => return []
  | a :: rest => do
      let hb ← oracleLastHeartbeat D (accounts a)
      let keys ← staleKeys D accounts now rest
      return if hb.any (fun hb => !heartbeatIsFresh hb now) then a :: keys else keys

/-- `select_oracle`: the program's choice, given the accounts passed as proofs. -/
def selectOracle (D : Deployment) (accounts : RawAccounts) (queue : Pubkey) (seq : ℕ)
    (used staleProofs : List Pubkey) (now : ℤ) : Res Pubkey := do
  check ((accounts queue).owner = .switchboard) .WrongQueue
  let stale ← staleKeys D accounts now staleProofs
  selectOracleIn D (accounts queue).data seq used stale

/-- The oracle checks of `commit_for_request`: the queue is the pinned one, the
oracle passed is the one chosen, and it is live. -/
def oracleChecks (D : Deployment) (accounts : RawAccounts) (pinnedQueue queue oracle : Pubkey)
    (seq : ℕ) (used staleProofs : List Pubkey) (now : ℤ) : Res Unit := do
  check (queue = pinnedQueue) .WrongQueue
  let chosen ← selectOracle D accounts queue seq used staleProofs now
  check (oracle = chosen) .WrongOracle
  let hb ← expect (← oracleLastHeartbeat D (accounts oracle)) (.vault .WrongOracle)
  check (heartbeatIsFresh hb now = true) .OracleStale

/-! ## What an account says about its oracle -/

/-- The heartbeat of an oracle account, if it is one. -/
def heartbeatOf (D : Deployment) (acc : RawAccount) : Option ℤ :=
  if acc.owner = .switchboard ∧ 8 + D.oracleLayout.size ≤ acc.data.length ∧
      slice acc.data 0 8 = oracleAccountDiscriminator then
    some (toI64 (readLE acc.data (8 + D.oracleLayout.lastHeartbeat) 8))
  else none

/-- A Switchboard oracle account with a fresh heartbeat. -/
def isLive (D : Deployment) (now : ℤ) (acc : RawAccount) : Bool :=
  (heartbeatOf D acc).any fun hb => heartbeatIsFresh hb now

/-- A Switchboard oracle account with an old heartbeat. -/
def isStale (D : Deployment) (now : ℤ) (acc : RawAccount) : Bool :=
  (heartbeatOf D acc).any fun hb => !heartbeatIsFresh hb now

theorem oracleLastHeartbeat_eq (D : Deployment) (acc : RawAccount) :
    oracleLastHeartbeat D acc = .ok (heartbeatOf D acc) := by
  have hin := D.oracleLayout.lastHeartbeat_le
  by_cases howner : acc.owner = .switchboard
  · by_cases hshape : acc.data.length < 8 + D.oracleLayout.size ∨
        slice acc.data 0 8 ≠ oracleAccountDiscriminator
    · have hno : ¬ (8 + D.oracleLayout.size ≤ acc.data.length ∧
          slice acc.data 0 8 = oracleAccountDiscriminator) := by
        rintro ⟨hlen, hdisc⟩
        rcases hshape with hshort | hdisc'
        · omega
        · exact hdisc' hdisc
      simp [oracleLastHeartbeat, heartbeatOf, howner, hshape, hno, pure, Except.pure]
    · have hyes := hshape
      simp only [not_or, not_lt, not_not] at hyes
      rw [oracleLastHeartbeat, if_neg (by simp [howner]), if_neg hshape, rdU64_eq (by omega),
        heartbeatOf, if_pos ⟨howner, hyes.1, hyes.2⟩]
      rfl
  · simp [oracleLastHeartbeat, heartbeatOf, howner, pure, Except.pure]

theorem not_isStale_of_isLive {D : Deployment} {now : ℤ} {acc : RawAccount}
    (h : isLive D now acc) : ¬ isStale D now acc := by
  cases hb : heartbeatOf D acc with
  | none => simp [isLive, hb] at h
  | some v =>
      simp only [isLive, isStale, hb, Option.any_some] at h ⊢
      simp [h]

/-- An oracle account that is not stale is live, and conversely. -/
theorem isLive_iff_of_isSome {D : Deployment} {now : ℤ} {acc : RawAccount}
    (h : (heartbeatOf D acc).isSome) : isLive D now acc ↔ ¬ isStale D now acc := by
  obtain ⟨v, hv⟩ := Option.isSome_iff_exists.mp h
  simp [isLive, isStale, hv]

theorem staleKeys_eq (D : Deployment) (accounts : RawAccounts) (now : ℤ) (proofs : List Pubkey) :
    staleKeys D accounts now proofs
      = .ok (proofs.filter fun a => isStale D now (accounts a)) := by
  induction proofs with
  | nil => rfl
  | cons a rest ih =>
      simp only [staleKeys, oracleLastHeartbeat_eq, ok_bind, ih, isStale]
      rw [List.filter_cons]
      rfl

/-! ## What a queue account says -/

/-- The keys a queue lists, in the order the walk of a request sees them. -/
def walkKeys (D : Deployment) (data : Bytes) (seq usedLen : ℕ) : List Pubkey :=
  let body := slice data 8 D.queueLayout.size
  let len := readLE body D.queueLayout.oracleKeysLen 4
  let curr := readLE body D.queueLayout.currIdx 4
  (List.range len).map fun step =>
    .raw (listedKey body ((curr + oracleSpread D seq + usedLen + step) % len))
where
  /-- The `i`-th listed key. -/
  listedKey (body : Bytes) (i : ℕ) : Bytes32 :=
    if h : (slice body (D.queueLayout.oracleKeys + 32 * i) 32).length = 32 then ⟨_, h⟩
    else Bytes32.zero

/-- The structural checks on queue account data: discriminator, size, and 1 to 78
listed keys. -/
structure QueueAccepted (D : Deployment) (data : Bytes) : Prop where
  size_le : 8 + D.queueLayout.size ≤ data.length
  discriminator : slice data 0 8 = D.queueLayout.discriminator
  len_pos : 0 < readLE (slice data 8 D.queueLayout.size) D.queueLayout.oracleKeysLen 4
  len_le : readLE (slice data 8 D.queueLayout.size) D.queueLayout.oracleKeysLen 4
    ≤ maxListedOracles

/-- A key the walk may take if nothing proves it stale. -/
def isCandidate (used : List Pubkey) (k : Pubkey) : Bool :=
  k ≠ Pubkey.default ∧ k ∉ used

/-- The length a slice of 32-byte keys can have at all. -/
def maxKeySliceLen : ℕ := (2 ^ 63 - 1) / 32

end HybridVault
