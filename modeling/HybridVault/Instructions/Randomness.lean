import HybridVault.Programs

/-!
# The randomness lifecycle

`init_randomness` creates a Switchboard randomness account whose authority is the
vault's; a request commits it; `reveal_randomness` records the revealed value in
the request; `recommit_randomness` commits afresh, to an oracle not used before,
when a reveal is overdue.  All are permissionless.

Each handler takes the accounts its caller is free to choose.  Accounts whose
address the program pins — the vault, its authorities, derived addresses, programs,
sysvars — are looked up where the source has them pinned, and accounts only
Switchboard looks at are left to Switchboard.
-/

namespace HybridVault

open Foundations

def revealTimeoutSlots : ℕ := 9_000

def maxRecommits : ℕ := 3

/-- Check the oracle, commit, and confirm that the commit happened in this slot and
is unrevealed.  Returns the seed slot to store. -/
def commitForRequest (D : Deployment) (c : Chain) (pinnedQueue randomness queue oracle : Pubkey)
    (seq : ℕ) (usedOracles staleProofs : List Pubkey) : Res (ℕ × Chain) := do
  oracleChecks D c.accounts pinnedQueue queue oracle seq usedOracles staleProofs c.unixTimestamp
  let before ← readRandomness c randomness
  check (before.authority = D.randomnessAuthority) .RandomnessAuthorityMismatch
  check (before.queue = pinnedQueue) .WrongQueue
  let c ← switchboardCommit c randomness D.randomnessAuthority
  let after ← readRandomness c randomness
  check (checkedAdd after.seedSlot 1 = some c.slot) .RandomnessNotFresh
  check (after.revealSlot ≤ after.seedSlot) .RandomnessNotFresh
  return (after.seedSlot, c)

/-- `init_randomness`. -/
def handleInitRandomness (D : Deployment) (w : World) (randomness : Pubkey) :
    Res (World × List PoolEvent) := do
  constraint randomness.IsSigner .NotSigner
  let c ← switchboardInit w.toChain randomness D.randomnessAuthority w.vault.sbQueue
  let snap ← readRandomness c randomness
  check (snap.authority = D.randomnessAuthority) .RandomnessAuthorityMismatch
  return ({ w with toChain := c }, [])

/-- The constraints `seeds`, `has_one = vault` and `has_one = randomness` on a
request account. -/
def loadRequest (D : Deployment) (c : Chain) (request randomness : Pubkey) : Res Request := do
  let req ← expect (c.requests request) (.anchor .AccountNotInitialized)
  constraint (request = D.requestAddress req.seq) .ConstraintSeeds
  constraint (req.vault = D.vault) .ConstraintHasOne
  constraint (req.randomness = randomness) .ConstraintHasOne
  return req

/-- The lock account of a randomness account. -/
def loadRandLock (c : Chain) (randomness : Pubkey) : Res RandLock :=
  expect (c.randLocks (.randLock randomness)) (.anchor .AccountNotInitialized)

/-- `reveal_randomness`. -/
def handleRevealRandomness (D : Deployment) (w : World) (request randomness : Pubkey)
    (value : Bytes32) : Res (World × List PoolEvent) := do
  let req ← loadRequest D w.toChain request randomness
  let lock ← loadRandLock w.toChain randomness
  check (lock.vault = D.vault) .RandomnessMismatch
  check (req.revealed = false) .RandomnessAlreadyRevealed
  let snap ← readRandomness w.toChain randomness
  check (snap.seedSlot = req.seedSlot) .RandomnessMismatch
  check (snap.isRevealed req.seedSlot = false) .RandomnessAlreadyRevealed
  let c ← switchboardReveal w.toChain randomness D.randomnessAuthority value
  let snap ← readRandomness c randomness
  check (snap.isRevealed req.seedSlot = true) .RandomnessNotRevealed
  let c := c.setRequests (Function.update c.requests request
    (some { req with revealed := true, value := snap.value }))
  return ({ w with toChain := c }, [])

/-- `recommit_randomness`. -/
def handleRecommitRandomness (D : Deployment) (w : World)
    (request randomness queue oracle : Pubkey) (staleProofs : List Pubkey) :
    Res (World × List PoolEvent) := do
  let slot := w.slot
  let v := w.vault
  let req ← loadRequest D w.toChain request randomness
  check (req.revealed = false) .RandomnessAlreadyRevealed
  check (req.deadlineSlot < slot) .DeadlineNotReached
  check (req.commits ≤ maxRecommits) .RecommitsExhausted
  require (req.commits ≤ req.oracles.length) .panic
  check (oracle ∉ req.usedOracles) .OracleReused
  let snap ← readRandomness w.toChain randomness
  check (snap.seedSlot = req.seedSlot) .RandomnessMismatch
  check (snap.isRevealed req.seedSlot = false) .RandomnessAlreadyRevealed
  let (seedSlot, c) ← commitForRequest D w.toChain v.sbQueue randomness queue oracle req.seq
    req.usedOracles staleProofs
  let deadlineSlot ← expect (checkedAdd slot revealTimeoutSlots) (.vault .MathOverflow)
  require (req.commits < req.oracles.length) .panic
  let commits ← expect (checkedAdd8 req.commits 1) (.vault .MathOverflow)
  let totalRecommits ← expect (checkedAdd v.totalRecommits 1) (.vault .MathOverflow)
  let req := { req with
    seedSlot := seedSlot
    deadlineSlot := deadlineSlot
    oracles := req.oracles.set req.commits oracle
    commits := commits }
  let c := c.setRequests (Function.update c.requests request (some req))
  return ({ toChain := c, vault := { v with totalRecommits := totalRecommits } }, [])

/-! ## What the handlers do -/

variable {D : Deployment}

/-- A randomness account after a commit. -/
def committed (c : Chain) (snap : RandomnessSnapshot) : RandomnessSnapshot :=
  { snap with seedSlot := c.slot - 1 }

/-- The slot a commit is made in: not the first, and not so late that its number
overflows. -/
structure CommitSlot (slot revealSlot : ℕ) : Prop where
  pos : 0 < slot
  lt : slot < u64Size
  revealSlot_le : revealSlot ≤ slot - 1

/-- **A commit** passes exactly if the oracle checks do and the randomness account is
the vault's and not revealed for this slot; it sets the account's seed slot. -/
theorem commitForRequest_eq_ok_iff {c : Chain} {pinnedQueue randomness queue oracle : Pubkey}
    {seq : ℕ} {used proofs : List Pubkey} {r : ℕ × Chain} :
    commitForRequest D c pinnedQueue randomness queue oracle seq used proofs = .ok r ↔
      oracleChecks D c.accounts pinnedQueue queue oracle seq used proofs c.unixTimestamp = .ok () ∧
        ∃ snap, c.randomness randomness = some snap ∧ snap.authority = D.randomnessAuthority ∧
          snap.queue = pinnedQueue ∧ CommitSlot c.slot snap.revealSlot ∧
          (c.slot - 1, c.setRandomness
            (Function.update c.randomness randomness (some (committed c snap)))) = r := by
  simp only [commitForRequest, readRandomness, switchboardCommit, bind_eq_ok_iff, expect_eq_ok_iff,
    require_eq_ok_iff, pure_eq_ok_iff, checkedAdd_eq_some_iff]
  constructor
  · rintro ⟨_, horacle, snap, hsnap, -, hauth, -, hqueue, _, ⟨_, hsnap', -, -, rfl⟩, _, hafter, -,
      ⟨hlt, hslot⟩, -, hreveal, rfl⟩
    obtain rfl : snap = _ := Option.some.inj (hsnap.symm.trans hsnap')
    simp only [Chain.setRandomness_randomness, Function.update_self, Option.some.injEq] at hafter
    subst hafter
    refine ⟨horacle, snap, hsnap, hauth, hqueue, ⟨?_, ?_, hreveal⟩, rfl⟩ <;>
      simp only [Chain.setRandomness_slot] at hlt hslot <;> omega
  · rintro ⟨horacle, snap, hsnap, hauth, hqueue, ⟨hpos, hlt, hreveal⟩, rfl⟩
    refine ⟨(), horacle, snap, hsnap, (), hauth, (), hqueue, _, ⟨snap, hsnap, (), hauth, rfl⟩,
      committed c snap, Function.update_self .., (), ⟨?_, ?_⟩, (), hreveal, rfl⟩ <;>
      simp only [committed, Chain.setRandomness_slot] <;> omega

theorem loadRequest_eq_ok_iff {c : Chain} {request randomness : Pubkey} {req : Request} :
    loadRequest D c request randomness = .ok req ↔
      c.requests request = some req ∧ request = D.requestAddress req.seq ∧ req.vault = D.vault ∧
        req.randomness = randomness := by
  simp only [loadRequest, bind_eq_ok_iff, expect_eq_ok_iff, require_eq_ok_iff, pure_eq_ok_iff]
  constructor
  · rintro ⟨_, hreq, -, hseeds, -, hvault, -, hrand, rfl⟩
    exact ⟨hreq, hseeds, hvault, hrand⟩
  · rintro ⟨hreq, hseeds, hvault, hrand⟩
    exact ⟨req, hreq, (), hseeds, (), hvault, (), hrand, rfl⟩

theorem loadRandLock_eq_ok_iff {c : Chain} {randomness : Pubkey} {lock : RandLock} :
    loadRandLock c randomness = .ok lock ↔ c.randLocks (.randLock randomness) = some lock :=
  expect_eq_ok_iff

theorem handleInitRandomness_eq_ok_iff {w : World} {randomness : Pubkey}
    {r : World × List PoolEvent} :
    handleInitRandomness D w randomness = .ok r ↔
      randomness.IsSigner ∧ w.randomness randomness = none ∧
        (⟨w.toChain.setRandomness (Function.update w.randomness randomness (some {
            authority := D.randomnessAuthority, queue := w.vault.sbQueue, seedSlot := 0
            revealSlot := 0, value := Bytes32.zero })), w.vault⟩, []) = r := by
  simp only [handleInitRandomness, switchboardInit, readRandomness, bind_eq_ok_iff,
    expect_eq_ok_iff, require_eq_ok_iff, pure_eq_ok_iff]
  constructor
  · rintro ⟨-, hsigner, _, ⟨-, hnew, rfl⟩, _, -, -, -, rfl⟩
    exact ⟨hsigner, hnew, rfl⟩
  · rintro ⟨hsigner, hnew, rfl⟩
    exact ⟨(), hsigner, _, ⟨(), hnew, rfl⟩, _, Function.update_self .., (), rfl, rfl⟩

/-- **What a reveal requires and does**: it records the value Switchboard reveals for
the request's commit. -/
structure RevealEffect (D : Deployment) (w w' : World) (r : Request) (snap : RandomnessSnapshot)
    (value : Bytes32) : Prop where
  request : w.requests (D.requestAddress r.seq) = some r
  request_vault : r.vault = D.vault
  lock : ∃ lock, w.randLocks (.randLock r.randomness) = some lock ∧ lock.vault = D.vault
  unrevealed : r.revealed = false
  randomness : w.randomness r.randomness = some snap
  authority : snap.authority = D.randomnessAuthority
  seed : snap.seedSlot = r.seedSlot
  fresh : snap.revealSlot ≤ snap.seedSlot
  slot : r.seedSlot < w.slot
  vault : w'.vault = w.vault
  toChain : w'.toChain = (w.toChain.setRandomness (Function.update w.randomness r.randomness
      (some { snap with revealSlot := w.slot, value := value }))).setRequests
    (Function.update w.requests (D.requestAddress r.seq)
      (some { r with revealed := true, value := value }))

theorem handleRevealRandomness_eq_ok_iff {w : World} {request randomness : Pubkey} {value : Bytes32}
    {res : World × List PoolEvent} :
    handleRevealRandomness D w request randomness value = .ok res ↔
      res.2 = [] ∧ ∃ r snap, request = D.requestAddress r.seq ∧ randomness = r.randomness ∧
        RevealEffect D w res.1 r snap value := by
  simp only [handleRevealRandomness, readRandomness, switchboardReveal, bind_eq_ok_iff,
    loadRequest_eq_ok_iff, loadRandLock_eq_ok_iff, expect_eq_ok_iff, require_eq_ok_iff,
    pure_eq_ok_iff]
  constructor
  · rintro ⟨r, ⟨hreq, rfl, hvault, rfl⟩, lock, hlock, -, hlockvault, -, hrevealed, snap, hsnap, -,
      hseed, -, hnot, _, ⟨_, hsnap', -, hauth, rfl⟩, _, hafter, -, hyes, rfl⟩
    obtain rfl : snap = _ := Option.some.inj (hsnap.symm.trans hsnap')
    simp only [Chain.setRandomness_randomness, Function.update_self, Option.some.injEq] at hafter
    subst hafter
    simp only [RandomnessSnapshot.isRevealed, hseed, decide_true, Bool.true_and,
      decide_eq_false_iff_not, decide_eq_true_eq, not_lt] at hnot hyes
    exact ⟨rfl, r, snap, rfl, rfl, hreq, hvault, ⟨lock, hlock, hlockvault⟩, hrevealed, hsnap, hauth,
      hseed, by rwa [hseed], hyes, rfl, rfl⟩
  · obtain ⟨⟨c', v'⟩, es⟩ := res
    rintro ⟨rfl, r, snap, rfl, rfl, h⟩
    obtain ⟨lock, hlock, hlockvault⟩ := h.lock
    have hchain : c' = _ := h.toChain
    have hvault : v' = _ := h.vault
    refine ⟨r, ⟨h.request, rfl, h.request_vault, rfl⟩, lock, hlock, (), hlockvault, (),
      h.unrevealed, snap, h.randomness, (), h.seed, (), ?_, _, ⟨snap, h.randomness, (), h.authority,
        rfl⟩, _, Function.update_self .., (), ?_, ?_⟩
    · simp [RandomnessSnapshot.isRevealed, h.fresh]
    · simp [RandomnessSnapshot.isRevealed, h.seed, h.slot]
    · rw [hchain, hvault]
      rfl

/-- A request after a re-commit to `oracle` in slot `slot`. -/
@[simps]
def Request.recommitted (req : Request) (slot : ℕ) (oracle : Pubkey) : Request where
  kind := req.kind
  vault := req.vault
  seq := req.seq
  user := req.user
  randomness := req.randomness
  seedSlot := slot - 1
  deadlineSlot := slot + revealTimeoutSlots
  commits := req.commits + 1
  oracles := req.oracles.set req.commits oracle
  revealed := req.revealed
  value := req.value
  handedInIndex := req.handedInIndex
  mintEscrowLamports := req.mintEscrowLamports

/-- **What a re-commit requires and does**: an overdue, unrevealed request with
commits left is committed afresh, to an oracle it has not used. -/
structure RecommitEffect (D : Deployment) (w w' : World) (r : Request) (snap : RandomnessSnapshot)
    (queue oracle : Pubkey) (proofs : List Pubkey) : Prop where
  request : w.requests (D.requestAddress r.seq) = some r
  request_vault : r.vault = D.vault
  unrevealed : r.revealed = false
  overdue : r.deadlineSlot < w.slot
  commits_le : r.commits ≤ maxRecommits
  commits_lt : r.commits < r.oracles.length
  oracle_unused : oracle ∉ r.usedOracles
  randomness : w.randomness r.randomness = some snap
  authority : snap.authority = D.randomnessAuthority
  snap_queue : snap.queue = w.vault.sbQueue
  seed : snap.seedSlot = r.seedSlot
  fresh : snap.revealSlot ≤ snap.seedSlot
  oracleChecks : HybridVault.oracleChecks D w.accounts w.vault.sbQueue queue oracle r.seq
    r.usedOracles proofs w.unixTimestamp = .ok ()
  commitSlot : CommitSlot w.slot snap.revealSlot
  deadline_lt : w.slot + revealTimeoutSlots < u64Size
  totalRecommits_lt : w.vault.totalRecommits + 1 < u64Size
  vault : w'.vault = { w.vault with totalRecommits := w.vault.totalRecommits + 1 }
  toChain : w'.toChain = (w.toChain.setRandomness (Function.update w.randomness r.randomness
      (some (committed w.toChain snap)))).setRequests
    (Function.update w.requests (D.requestAddress r.seq) (some (r.recommitted w.slot oracle)))

theorem handleRecommitRandomness_eq_ok_iff {w : World} {request randomness queue oracle : Pubkey}
    {proofs : List Pubkey} {res : World × List PoolEvent} :
    handleRecommitRandomness D w request randomness queue oracle proofs = .ok res ↔
      res.2 = [] ∧ ∃ r snap, request = D.requestAddress r.seq ∧ randomness = r.randomness ∧
        RecommitEffect D w res.1 r snap queue oracle proofs := by
  simp only [handleRecommitRandomness, readRandomness, bind_eq_ok_iff, loadRequest_eq_ok_iff,
    commitForRequest_eq_ok_iff, expect_eq_ok_iff, require_eq_ok_iff, pure_eq_ok_iff,
    checkedAdd_eq_some_iff, checkedAdd8_eq_some_iff]
  constructor
  · rintro ⟨r, ⟨hreq, rfl, hvault, rfl⟩, -, hrevealed, -, hdeadline, -, hcommits, -, -, -, hfresh,
      snap, hsnap, -, hseed, -, hnot, _, ⟨horacle, _, hsnap', hauth, hqueue, hslot, rfl⟩, _,
      ⟨hlate, rfl⟩, -, hroom, _, ⟨-, rfl⟩, _, ⟨htotal, rfl⟩, rfl⟩
    obtain rfl : snap = _ := Option.some.inj (hsnap.symm.trans hsnap')
    simp only [RandomnessSnapshot.isRevealed, hseed, decide_true, Bool.true_and,
      decide_eq_false_iff_not, not_lt] at hnot
    exact ⟨rfl, r, snap, rfl, rfl, hreq, hvault, hrevealed, hdeadline, hcommits, hroom, hfresh,
      hsnap, hauth, hqueue, hseed, by rwa [hseed], horacle, hslot, hlate, htotal, rfl, rfl⟩
  · obtain ⟨⟨c', v'⟩, es⟩ := res
    rintro ⟨rfl, r, snap, rfl, rfl, h⟩
    have hchain : c' = _ := h.toChain
    have hvault : v' = _ := h.vault
    have hsmall : r.commits + 1 < 256 := by
      have := h.commits_le
      simp only [maxRecommits] at this
      omega
    refine ⟨r, ⟨h.request, rfl, h.request_vault, rfl⟩, (), h.unrevealed, (), h.overdue, (),
      h.commits_le, (), h.commits_lt.le, (), h.oracle_unused, snap, h.randomness, (), h.seed, (),
      ?_, _, ⟨h.oracleChecks, snap, h.randomness, h.authority, h.snap_queue, h.commitSlot, rfl⟩, _,
      ⟨h.deadline_lt, rfl⟩, (), h.commits_lt, _, ⟨hsmall, rfl⟩, _, ⟨h.totalRecommits_lt, rfl⟩, ?_⟩
    · simp [RandomnessSnapshot.isRevealed, h.fresh]
    · rw [hchain, hvault]
      rfl

end HybridVault
