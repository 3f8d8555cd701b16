import HybridVault.Instructions.Settle

/-!
# Expiring

`expire_request`, the last resort for a head whose randomness was never revealed:
after every allowed commit and a grace period, anyone may return the principal and
the mint escrow to the user.  A revealed request cannot be expired.

`expire_requests` does the same for several consecutive heads in one instruction,
with every account checked by hand; all of them expire, or none.

A batch closes each request before it expires the next, and closing moves lamports
without a call.  The runtime refuses a later call that passes an account whose
lamports were moved so (`UnbalancedInstruction`): of the accounts the move was
between it sees the ones passed, and their lamports no longer add up.  A single
expiry closes after its last call.
-/

namespace HybridVault

open Foundations

/-- `EXPIRE_GRACE_SLOTS`: about a day. -/
def expireGraceSlots : ℕ := 216_000

/-- `MAX_EXPIRE_PER_CALL`. -/
def maxExpirePerCall : ℕ := 7

/-- `EXPIRE_BATCH_STRIDE`. -/
def expireBatchStride : ℕ := 7

/-- The principal: the tokens of a capture, the hand-in of a re-roll. -/
def returnPrincipal (D : Deployment) (c : Chain) (req : Request) (userToken asset user : Pubkey)
    (ratioBase : ℕ) : Res Chain :=
  match req.kind with
  | .capture => payOut D c userToken ratioBase
  | .reroll => do
      check (asset = D.assetAddress req.handedInIndex) .WrongAsset
      deliver D c asset user

/-- The counters after an expiry. -/
def expireCounters (v : Vault) (kind : RequestKind) (seq : ℕ) : Res Vault := do
  let nextSettleSeq ← expect (checkedAdd seq 1) (.vault .MathOverflow)
  let totalExpired ← expect (checkedAdd v.totalExpired 1) (.vault .MathOverflow)
  let v := { v with nextSettleSeq := nextSettleSeq, totalExpired := totalExpired }
  match kind with
  | .capture => do
      let pendingCaptures ← expect (checkedSub v.pendingCaptures 1) (.vault .MathOverflow)
      return { v with pendingCaptures := pendingCaptures }
  | .reroll => do
      let pendingRerolls ← expect (checkedSub v.pendingRerolls 1) (.vault .MathOverflow)
      let assetsOutside ← expect (checkedAdd v.assetsOutside 1) (.vault .MathOverflow)
      return { v with pendingRerolls := pendingRerolls, assetsOutside := assetsOutside }

/-- `expire_one`: check that `req` can expire as the head, return the principal and
the escrow, and move the counters. -/
def expireOne (D : Deployment) (c : Chain) (v : Vault) (req : Request)
    (randomness user userToken asset : Pubkey) (ratioBase : ℕ) : Res (Chain × Vault) := do
  check (req.seq = v.nextSettleSeq) .OutOfOrder
  check (req.revealed = false) .RandomnessAlreadyRevealed
  let snap ← readRandomness c randomness
  check (snap.isRevealed req.seedSlot = false) .RandomnessAlreadyRevealed
  check (maxRecommits < req.commits) .RecommitsRemaining
  let earliest ← expect (checkedAdd req.deadlineSlot expireGraceSlots) (.vault .MathOverflow)
  check (earliest < c.slot) .ExpiryNotReached
  let c ← returnPrincipal D c req userToken asset user ratioBase
  let c ← refundEscrow c (D.mintEscrowAddress req.seq) user
  let v ← expireCounters v req.kind req.seq
  return (c, v)

/-- `expire_request`, whatever the account of the launch configuration holds. -/
def handleExpireWith (D : Deployment) (launchConfig : RawAccount) (w : World)
    (caller request randomness user userToken asset : Pubkey) : Res (World × List PoolEvent) := do
  constraint caller.IsSigner .NotSigner
  let req ← loadRequest D w.toChain request randomness
  constraint (req.user = user) .ConstraintHasOne
  let _ ← loadRandLock w.toChain randomness
  let _ ← loadUserToken D w.toChain userToken user
  let _ ← vaultTokensAmount D w.toChain
  let e ← exitView launchConfig
  let (c, v) ← expireOne D w.toChain w.vault req randomness user userToken asset e.ratioBase
  closingCheck D c v e.ratioBase e.collectionSize
  return ({ toChain := closeRequest c request (.randLock randomness) user, vault := v },
    [.expired req.seq req.handIn])

/-- `expire_request`. -/
def handleExpire (D : Deployment) (w : World)
    (caller request randomness user userToken asset : Pubkey) : Res (World × List PoolEvent) :=
  handleExpireWith D D.launchConfigAccount w caller request randomness user userToken asset

/-! ## The batch -/

/-- The seven accounts of one request of a batch. -/
structure ExpireAccounts where
  request : Pubkey
  lock : Pubkey
  randomness : Pubkey
  user : Pubkey
  userToken : Pubkey
  mintEscrow : Pubkey
  asset : Pubkey

/-- `remaining_accounts.chunks(EXPIRE_BATCH_STRIDE)`, of a list of whole chunks. -/
def expireGroups : List Pubkey → List ExpireAccounts
  | request :: lock :: randomness :: user :: userToken :: mintEscrow :: asset :: rest =>
      ⟨request, lock, randomness, user, userToken, mintEscrow, asset⟩ :: expireGroups rest
  | _ => []

/-- The checks on one request's accounts. -/
def checkExpireAccounts (D : Deployment) (w : World) (g : ExpireAccounts) : Res Request := do
  let req ← expect (w.requests g.request) (.vault .ExpireBatchAccountMismatch)
  check (g.request = D.requestAddress w.vault.nextSettleSeq) .ExpireBatchAccountMismatch
  check (req.vault = D.vault) .ExpireBatchAccountMismatch
  check (req.user = g.user) .ExpireBatchAccountMismatch
  check (req.randomness = g.randomness) .ExpireBatchAccountMismatch
  let _ ← expect (w.randLocks g.lock) (.vault .ExpireBatchAccountMismatch)
  check (g.lock = .randLock g.randomness) .ExpireBatchAccountMismatch
  let t ← expect (w.tokens g.userToken) (.vault .ExpireBatchAccountMismatch)
  check (t.mint = D.mint) .ExpireBatchAccountMismatch
  check (t.owner = g.user) .ExpireBatchAccountMismatch
  check (g.mintEscrow = D.mintEscrowAddress req.seq) .ExpireBatchAccountMismatch
  return req

/-- The accounts passed to the call that returns the principal. -/
def principalPasses (D : Deployment) (caller : Pubkey) (kind : RequestKind) (g : ExpireAccounts) :
    List Pubkey :=
  match kind with
  | .capture => [D.vaultTokens, D.mint, g.userToken, D.vaultAuthority]
  | .reroll => [g.asset, D.collection, caller, D.vaultAuthority, g.user]

/-- The accounts passed to the call that refunds the escrow. -/
def refundPasses (g : ExpireAccounts) : List Pubkey := [g.mintEscrow, g.user]

/-- The program that returns the principal. -/
def principalProgram : RequestKind → ProgramId
  | .capture => .token
  | .reroll => .mplCore

/-- The runtime's view of the calls of an expiry, in an instruction that has itself
moved lamports of the accounts `moved`.  An escrow that holds nothing is not called
for. -/
def callsBalanced (D : Deployment) (w : World) (caller : Pubkey) (moved : List Pubkey)
    (kind : RequestKind) (g : ExpireAccounts) : Res Unit := do
  require (∀ k ∈ principalPasses D caller kind g, k ∉ moved) (.cpi (principalProgram kind))
  require (w.lamports g.mintEscrow = 0 ∨ ∀ k ∈ refundPasses g, k ∉ moved) (.cpi .system)

/-- The accounts whose lamports move when a request and its lock are closed. -/
def ExpireAccounts.closed (g : ExpireAccounts) : List Pubkey := [g.request, g.lock, g.user]

/-- One pass of the batch loop. -/
def expireGroup (D : Deployment) (w : World) (caller : Pubkey) (ratioBase : ℕ)
    (moved : List Pubkey) (g : ExpireAccounts) : Res (World × PoolEvent) := do
  let req ← checkExpireAccounts D w g
  let (c, v) ← expireOne D w.toChain w.vault req g.randomness g.user g.userToken g.asset ratioBase
  -- what a refused call would have done does not matter: the instruction fails as a whole
  callsBalanced D w caller moved req.kind g
  return ({ toChain := closeRequest c g.request g.lock g.user, vault := v },
    .expired req.seq req.handIn)

/-- The batch loop. -/
def expireAll (D : Deployment) (caller : Pubkey) (ratioBase : ℕ) :
    World → List Pubkey → List ExpireAccounts → Res (World × List PoolEvent)
  | w, _, [] => return (w, [])
  | w, moved, g :: gs => do
      let (w, e) ← expireGroup D w caller ratioBase moved g
      let (w, es) ← expireAll D caller ratioBase w (g.closed ++ moved) gs
      return (w, e :: es)

/-- `expire_requests`, whatever the account of the launch configuration holds. -/
def handleExpireBatchWith (D : Deployment) (launchConfig : RawAccount) (w : World)
    (caller : Pubkey) (remaining : List Pubkey) (count : ℕ) : Res (World × List PoolEvent) := do
  constraint caller.IsSigner .NotSigner
  let _ ← vaultTokensAmount D w.toChain
  check (1 ≤ count ∧ count ≤ maxExpirePerCall) .ExpireBatchInvalid
  check (remaining.length = count * expireBatchStride) .ExpireBatchInvalid
  let e ← exitView launchConfig
  let (w, es) ← expireAll D caller e.ratioBase w [] (expireGroups remaining)
  closingCheck D w.toChain w.vault e.ratioBase e.collectionSize
  return (w, es)

/-- `expire_requests`. -/
def handleExpireBatch (D : Deployment) (w : World) (caller : Pubkey) (remaining : List Pubkey)
    (count : ℕ) : Res (World × List PoolEvent) :=
  handleExpireBatchWith D D.launchConfigAccount w caller remaining count

/-! ## The effect of an expiry -/

variable {D : Deployment}

/-- The vault record after an expiry of `kind`. -/
def Vault.expired (v : Vault) (kind : RequestKind) : Vault :=
  match kind with
  | .capture => { v with
      nextSettleSeq := v.nextSettleSeq + 1
      totalExpired := v.totalExpired + 1
      pendingCaptures := v.pendingCaptures - 1 }
  | .reroll => { v with
      nextSettleSeq := v.nextSettleSeq + 1
      totalExpired := v.totalExpired + 1
      pendingRerolls := v.pendingRerolls - 1
      assetsOutside := v.assetsOutside + 1 }

@[simp] theorem Vault.expired_nextSeq (v : Vault) (kind : RequestKind) :
    (v.expired kind).nextSeq = v.nextSeq := by
  cases kind <;> rfl

@[simp] theorem Vault.expired_nextSettleSeq (v : Vault) (kind : RequestKind) :
    (v.expired kind).nextSettleSeq = v.nextSettleSeq + 1 := by
  cases kind <;> rfl

/-- The counters an expiry moves have room. -/
structure ExpireCounters (v : Vault) (kind : RequestKind) : Prop where
  nextSettleSeq_lt : v.nextSettleSeq + 1 < u64Size
  totalExpired_lt : v.totalExpired + 1 < u64Size
  pending_pos : 1 ≤ v.pending kind
  assetsOutside_lt : kind = .reroll → v.assetsOutside + 1 < u64Size

theorem expireCounters_eq_ok_iff {v v' : Vault} {kind : RequestKind} {seq : ℕ}
    (hseq : seq = v.nextSettleSeq) :
    expireCounters v kind seq = .ok v' ↔ ExpireCounters v kind ∧ v.expired kind = v' := by
  subst hseq
  cases kind with
  | capture =>
      simp only [expireCounters, bind_eq_ok_iff, expect_eq_ok_iff, checkedAdd_eq_some_iff,
        checkedSub_eq_some_iff, pure_eq_ok_iff]
      constructor
      · rintro ⟨_, ⟨hnext, rfl⟩, _, ⟨htotal, rfl⟩, _, ⟨hpend, rfl⟩, rfl⟩
        exact ⟨⟨hnext, htotal, hpend, by simp⟩, rfl⟩
      · rintro ⟨⟨hnext, htotal, hpend, -⟩, rfl⟩
        exact ⟨_, ⟨hnext, rfl⟩, _, ⟨htotal, rfl⟩, _, ⟨hpend, rfl⟩, rfl⟩
  | reroll =>
      simp only [expireCounters, bind_eq_ok_iff, expect_eq_ok_iff, checkedAdd_eq_some_iff,
        checkedSub_eq_some_iff, pure_eq_ok_iff]
      constructor
      · rintro ⟨_, ⟨hnext, rfl⟩, _, ⟨htotal, rfl⟩, _, ⟨hpend, rfl⟩, _, ⟨hout, rfl⟩, rfl⟩
        exact ⟨⟨hnext, htotal, hpend, fun _ => hout⟩, rfl⟩
      · rintro ⟨⟨hnext, htotal, hpend, hout⟩, rfl⟩
        exact ⟨_, ⟨hnext, rfl⟩, _, ⟨htotal, rfl⟩, _, ⟨hpend, rfl⟩, _, ⟨hout rfl, rfl⟩, rfl⟩

/-- **What an expiry requires and does.**  `r` is the request, `c` the chain after
the principal went back. -/
structure ExpireEffect (D : Deployment) (w w' : World) (r : Request) (userToken : Pubkey)
    (c : Chain) : Prop where
  request : w.requests (D.requestAddress r.seq) = some r
  request_vault : r.vault = D.vault
  lock : (w.randLocks (.randLock r.randomness)).isSome
  account : ∃ t, w.tokens userToken = some t ∧ t.mint = D.mint ∧ t.owner = r.user
  seq : r.seq = w.vault.nextSettleSeq
  unrevealed : r.revealed = false
  randomness : ∃ snap, w.randomness r.randomness = some snap ∧ snap.isRevealed r.seedSlot = false
  exhausted : maxRecommits < r.commits
  deadline_lt : r.deadlineSlot + expireGraceSlots < u64Size
  overdue : r.deadlineSlot + expireGraceSlots < w.slot
  principal : returnPrincipal D w.toChain r userToken (D.assetAddress r.handedInIndex) r.user
    D.ratio = .ok c
  refund : c.lamports (D.mintEscrowAddress r.seq) = 0 ∨ c.Dataless (D.mintEscrowAddress r.seq)
  counters : ExpireCounters w.vault r.kind
  vault : w'.vault = w.vault.expired r.kind
  toChain : w'.toChain = closeRequest (c.setLamports (moveAmount c.lamports
    (D.mintEscrowAddress r.seq) r.user (c.lamports (D.mintEscrowAddress r.seq))))
      (D.requestAddress r.seq) (.randLock r.randomness) r.user

/-- An expiry with its event. -/
def ExpireStep (D : Deployment) (w : World) (e : PoolEvent) (w' : World) : Prop :=
  ∃ r userToken c, ExpireEffect D w w' r userToken c ∧ e = .expired r.seq r.handIn

/-- Returning the principal changes tokens or assets only. -/
theorem returnPrincipal_eq_ok {c c' : Chain} {req : Request} {userToken asset user : Pubkey}
    {ratioBase : ℕ} (h : returnPrincipal D c req userToken asset user ratioBase = .ok c') :
    (req.kind = .reroll → asset = D.assetAddress req.handedInIndex) ∧
      ∃ tokens assets, c' = (c.setTokens tokens).setAssets assets := by
  cases hk : req.kind with
  | capture =>
      simp only [returnPrincipal, hk, payOut, tokenTransfer, bind_eq_ok_iff, ite_eq_ok_iff,
        pure_eq_ok_iff] at h
      obtain ⟨s, -, d, -, -, -, ⟨-, rfl⟩ | ⟨-, rfl⟩⟩ := h
      · exact ⟨by simp, c.tokens, c.assets, rfl⟩
      · exact ⟨by simp, moveTokens c.tokens D.vaultTokens userToken s d ratioBase, c.assets, rfl⟩
  | reroll =>
      simp only [returnPrincipal, hk, bind_eq_ok_iff, require_eq_ok_iff, deliver_eq_ok_iff] at h
      obtain ⟨-, hasset, a, -, -, -, rfl⟩ := h
      exact ⟨fun _ => hasset, c.tokens, _, rfl⟩

/-- The asset account matters for a re-roll only, where it is pinned. -/
theorem returnPrincipal_congr {c : Chain} {req : Request} {userToken asset user : Pubkey}
    {ratioBase : ℕ} (hasset : req.kind = .reroll → asset = D.assetAddress req.handedInIndex) :
    returnPrincipal D c req userToken asset user ratioBase
      = returnPrincipal D c req userToken (D.assetAddress req.handedInIndex) user ratioBase := by
  cases hk : req.kind with
  | capture => simp only [returnPrincipal, hk]
  | reroll => rw [hasset hk]

theorem expireOne_eq_ok_iff {c c' : Chain} {v v' : Vault} {req : Request}
    {randomness user userToken asset : Pubkey} {ratioBase : ℕ} :
    expireOne D c v req randomness user userToken asset ratioBase = .ok (c', v') ↔
      req.seq = v.nextSettleSeq ∧ req.revealed = false ∧
        (∃ snap, c.randomness randomness = some snap ∧ snap.isRevealed req.seedSlot = false) ∧
        maxRecommits < req.commits ∧ req.deadlineSlot + expireGraceSlots < u64Size ∧
        req.deadlineSlot + expireGraceSlots < c.slot ∧ ExpireCounters v req.kind ∧
        v.expired req.kind = v' ∧
        ∃ c₁, returnPrincipal D c req userToken asset user ratioBase = .ok c₁ ∧
          (c₁.lamports (D.mintEscrowAddress req.seq) = 0 ∨
            c₁.Dataless (D.mintEscrowAddress req.seq)) ∧
          c₁.setLamports (moveAmount c₁.lamports (D.mintEscrowAddress req.seq) user
            (c₁.lamports (D.mintEscrowAddress req.seq))) = c' := by
  simp only [expireOne, bind_eq_ok_iff, require_eq_ok_iff, readRandomness, expect_eq_ok_iff,
    checkedAdd_eq_some_iff, pure_eq_ok_iff, refundEscrow, drainPrefundedPda_eq_ok_iff,
    Prod.mk.injEq]
  constructor
  · rintro ⟨-, hseq, -, hunrevealed, snap, hsnap, -, hnot, -, hcommits, _, ⟨hlt, rfl⟩, -, hslot,
      c₁, hprincipal, _, ⟨hback, rfl⟩, _, hcounters, rfl, rfl⟩
    obtain ⟨hcount, rfl⟩ := (expireCounters_eq_ok_iff hseq).mp hcounters
    exact ⟨hseq, hunrevealed, ⟨snap, hsnap, hnot⟩, hcommits, hlt, hslot, hcount, rfl, c₁,
      hprincipal, hback, rfl⟩
  · rintro ⟨hseq, hunrevealed, ⟨snap, hsnap, hnot⟩, hcommits, hlt, hslot, hcount, rfl, c₁,
      hprincipal, hback, rfl⟩
    exact ⟨(), hseq, (), hunrevealed, snap, hsnap, (), hnot, (), hcommits, _, ⟨hlt, rfl⟩, (),
      hslot, c₁, hprincipal, _, ⟨hback, rfl⟩, _, (expireCounters_eq_ok_iff hseq).mpr ⟨hcount, rfl⟩,
      rfl, rfl⟩

/-- An expiry of the request found at the head, from the parts of its handler. -/
theorem expireEffect_of_expireOne {w : World} {c : Chain} {v : Vault} {r : Request}
    {userToken asset : Pubkey} (hreq : w.requests (D.requestAddress r.seq) = some r)
    (hvault : r.vault = D.vault) (hlock : (w.randLocks (.randLock r.randomness)).isSome)
    (htoken : ∃ t, w.tokens userToken = some t ∧ t.mint = D.mint ∧ t.owner = r.user)
    (h : expireOne D w.toChain w.vault r r.randomness r.user userToken asset D.ratio
      = .ok (c, v)) :
    (r.kind = .reroll → asset = D.assetAddress r.handedInIndex) ∧
      ∃ c₁, ExpireEffect D w ⟨closeRequest c (D.requestAddress r.seq) (.randLock r.randomness)
        r.user, v⟩ r userToken c₁ := by
  obtain ⟨hseq, hunrevealed, hsnap, hcommits, hlt, hslot, hcount, rfl, c₁, hprincipal, hback,
    rfl⟩ := expireOne_eq_ok_iff.mp h
  have hasset := (returnPrincipal_eq_ok hprincipal).1
  exact ⟨hasset, c₁, {
    request := hreq
    request_vault := hvault
    lock := hlock
    account := htoken
    seq := hseq
    unrevealed := hunrevealed
    randomness := hsnap
    exhausted := hcommits
    deadline_lt := hlt
    overdue := hslot
    principal := by rwa [← returnPrincipal_congr hasset]
    refund := hback
    counters := hcount
    vault := rfl
    toChain := rfl }⟩

/-- An expiry that has what it requires is one of the shared code. -/
theorem ExpireEffect.expireOne_eq {w w' : World} {r : Request} {userToken asset : Pubkey}
    {c : Chain} (h : ExpireEffect D w w' r userToken c)
    (hasset : r.kind = .reroll → asset = D.assetAddress r.handedInIndex) :
    ∃ c', expireOne D w.toChain w.vault r r.randomness r.user userToken asset D.ratio
        = .ok (c', w'.vault) ∧
      closeRequest c' (D.requestAddress r.seq) (.randLock r.randomness) r.user = w'.toChain :=
  ⟨_, expireOne_eq_ok_iff.mpr ⟨h.seq, h.unrevealed, h.randomness, h.exhausted, h.deadline_lt,
    h.overdue, h.counters, h.vault.symm, c, by rw [returnPrincipal_congr hasset]; exact h.principal,
    h.refund, rfl⟩, h.toChain.symm⟩

@[simp] theorem closeRequest_pool {c : Chain} {request lock user : Pubkey} :
    (closeRequest c request lock user).pool = c.pool := rfl

@[simp] theorem closeRequest_tokens {c : Chain} {request lock user : Pubkey} :
    (closeRequest c request lock user).tokens = c.tokens := rfl

@[simp] theorem closeRequest_assets {c : Chain} {request lock user : Pubkey} :
    (closeRequest c request lock user).assets = c.assets := rfl

theorem ExpireEffect.pool_eq {w w' : World} {r : Request} {userToken : Pubkey} {c : Chain}
    (h : ExpireEffect D w w' r userToken c) : w'.pool = w.pool := by
  obtain ⟨-, tokens, assets, rfl⟩ := returnPrincipal_eq_ok h.principal
  rw [h.toChain, closeRequest_pool]
  rfl

/-- The accounts of `g` are those of request `r`. -/
structure ExpireAccounts.Names (D : Deployment) (g : ExpireAccounts) (r : Request) : Prop where
  request : g.request = D.requestAddress r.seq
  lock : g.lock = .randLock r.randomness
  randomness : g.randomness = r.randomness
  user : g.user = r.user
  mintEscrow : g.mintEscrow = D.mintEscrowAddress r.seq
  asset : r.kind = .reroll → g.asset = D.assetAddress r.handedInIndex

/-- **An expiry by a handler**: of the request its accounts name, and the closing check
passes. -/
theorem handleExpire_eq_ok {w : World} (hwf : WellFormed D.vaultKey D.size w.pool)
    {caller request randomness user userToken asset : Pubkey} {res : World × List PoolEvent}
    (h : handleExpire D w caller request randomness user userToken asset = .ok res) :
    ∃ r c, ExpireEffect D w res.1 r userToken c ∧ res.2 = [.expired r.seq r.handIn] ∧
      (ExpireAccounts.mk request (.randLock randomness) randomness user userToken
        (D.mintEscrowAddress r.seq) asset).Names D r ∧
      ∃ t, res.1.tokens D.vaultTokens = some t ∧
        ClosingCheck res.1.vault D.ratio D.size res.1.pool t.amount := by
  simp only [handleExpire, handleExpireWith, exitView_launchConfigAccount, bind_eq_ok_iff,
    require_eq_ok_iff, pure_eq_ok_iff, loadUserToken, loadRequest_eq_ok_iff, loadRandLock_eq_ok_iff,
    expect_eq_ok_iff] at h
  obtain ⟨-, -, r, ⟨hreq, rfl, hvault, rfl⟩, -, rfl, lock, hlock, _, ⟨t, ht, -, hmint, -, howner,
    rfl⟩, -, -, e, hview, ⟨c, v⟩, hone, _, hclosing, rfl⟩ := h
  obtain rfl := LaunchConfig.exitViewIn_eq_ok hview
  obtain ⟨hasset, c₁, heff⟩ := expireEffect_of_expireOne hreq hvault (by rw [hlock]; rfl)
    ⟨t, ht, hmint, howner⟩ hone
  have hpool : c.pool = w.pool := heff.pool_eq
  obtain ⟨t', ht', hcheck⟩ := hwf.closingCheck_eq_ok hclosing hpool
  refine ⟨r, c₁, heff, rfl, ⟨rfl, rfl, rfl, rfl, rfl, hasset⟩, t', ht', ?_⟩
  rw [closeRequest_pool, hpool]
  exact hcheck

/-- **An expiry that has what it requires returns**, if the closing check passes. -/
theorem ExpireEffect.handleExpire_eq {w w' : World} {r : Request} {userToken asset : Pubkey}
    {c : Chain} (h : ExpireEffect D w w' r userToken c) (hwf : WellFormed D.vaultKey D.size w.pool)
    (hecon : 0 < D.ratio ∧ 0 < D.size ∧ D.size < u32Size)
    (hclosing : ∃ t, w'.tokens D.vaultTokens = some t ∧
      ClosingCheck w'.vault D.ratio D.size w'.pool t.amount)
    (htokens : (w.tokens D.vaultTokens).isSome) {caller : Pubkey} (hcaller : caller.IsSigner)
    (hasset : r.kind = .reroll → asset = D.assetAddress r.handedInIndex) :
    handleExpire D w caller (D.requestAddress r.seq) r.randomness r.user userToken asset
      = .ok (w', [.expired r.seq r.handIn]) := by
  obtain ⟨lock, hlock⟩ := Option.isSome_iff_exists.mp h.lock
  obtain ⟨t₀, ht₀⟩ := Option.isSome_iff_exists.mp htokens
  obtain ⟨t, ht, hmint, howner⟩ := h.account
  obtain ⟨t', ht', hcheck⟩ := hclosing
  obtain ⟨c', hone, hclose⟩ := h.expireOne_eq hasset
  have hpool : c'.pool = w.pool := by
    rw [← h.pool_eq, ← hclose, closeRequest_pool]
  rw [h.pool_eq] at hcheck
  rw [← hclose] at ht'
  simp only [handleExpire, handleExpireWith, exitView_launchConfigAccount, bind_eq_ok_iff,
    require_eq_ok_iff, pure_eq_ok_iff, loadUserToken, loadRequest_eq_ok_iff, loadRandLock_eq_ok_iff,
    expect_eq_ok_iff, vaultTokensAmount]
  refine ⟨(), hcaller, r, ⟨h.request, rfl, h.request_vault, rfl⟩, (), rfl, lock, hlock, t,
    ⟨t, ht, (), hmint, (), howner, rfl⟩, t₀.amount, ⟨t₀, ht₀, rfl⟩, ⟨D.ratio, D.size⟩,
    LaunchConfig.exitViewIn_accountData hecon.1 hecon.2.1 hecon.2.2, _, hone, (),
    hwf.closingCheck_ok hpool ht' hcheck, ?_⟩
  rw [hclose]

section ExpireEffect

variable {w w' : World} {r : Request} {userToken : Pubkey} {c : Chain}

/-- What an expiry does to the accounts that are not the principal. -/
theorem ExpireEffect.frame (h : ExpireEffect D w w' r userToken c) :
    w'.slot = w.slot ∧ w'.randomness = w.randomness ∧ w'.accounts = w.accounts ∧
      w'.collection = w.collection ∧
      w'.requests = Function.update w.requests (D.requestAddress r.seq) none ∧
      w'.randLocks = Function.update w.randLocks (.randLock r.randomness) none := by
  obtain ⟨-, tokens, assets, hc⟩ := returnPrincipal_eq_ok h.principal
  rw [h.toChain]
  simp [hc, closeRequest_frame]

theorem ExpireEffect.nextSettleSeq (h : ExpireEffect D w w' r userToken c) :
    w'.vault.nextSettleSeq = w.vault.nextSettleSeq + 1 := by
  rw [h.vault, Vault.expired_nextSettleSeq]

/-- An expiry touches no escrow but its own. -/
theorem ExpireEffect.escrow (h : ExpireEffect D w w' r userToken c) (huser : r.user.IsSigner)
    {seq : ℕ} (hseq : seq ≠ r.seq) :
    w'.lamports (D.mintEscrowAddress seq) = w.lamports (D.mintEscrowAddress seq) := by
  obtain ⟨-, tokens, assets, hc⟩ := returnPrincipal_eq_ok h.principal
  have hne : D.mintEscrowAddress seq ≠ D.mintEscrowAddress r.seq := by
    simpa [Deployment.mintEscrowAddress] using hseq
  rw [h.toChain, closeRequest_escrow huser, Chain.setLamports_lamports,
    moveAmount_of_ne hne (mintEscrowAddress_ne huser), hc]
  rfl

/-- An expired capture moves no asset. -/
theorem ExpireEffect.capture_assets (h : ExpireEffect D w w' r userToken c)
    (hk : r.kind = .capture) : w'.assets = w.assets := by
  have hprincipal := h.principal
  simp only [returnPrincipal, hk, payOut, tokenTransfer, bind_eq_ok_iff, ite_eq_ok_iff,
    pure_eq_ok_iff] at hprincipal
  rw [h.toChain, closeRequest_assets]
  obtain ⟨s, -, d, -, -, -, ⟨-, rfl⟩ | ⟨-, rfl⟩⟩ := hprincipal <;> rfl

/-- An expired capture returns the tokens. -/
theorem ExpireEffect.capture_tokens (h : ExpireEffect D w w' r userToken c)
    (hk : r.kind = .capture) (hne : userToken ≠ D.vaultTokens) :
    ∃ s t, w.tokens D.vaultTokens = some s ∧ w.tokens userToken = some t ∧ D.ratio ≤ s.amount ∧
      w'.tokens = moveTokens w.tokens D.vaultTokens userToken s t D.ratio := by
  have hprincipal := h.principal
  simp only [returnPrincipal, hk, payOut, tokenTransfer_eq_ok_iff (Ne.symm hne)] at hprincipal
  obtain ⟨s, t, hs, ht, -, -, -, hamount, rfl⟩ := hprincipal
  rw [h.toChain, closeRequest_tokens]
  exact ⟨s, t, hs, ht, hamount, rfl⟩

/-- An expired re-roll returns the hand-in. -/
theorem ExpireEffect.reroll (h : ExpireEffect D w w' r userToken c) (hk : r.kind = .reroll) :
    w'.tokens = w.tokens ∧ ∃ a, w.assets (D.assetAddress r.handedInIndex) = .live a ∧
      a.owner = D.vaultAuthority ∧ a.updateAuthority = .collection D.collection ∧
      w'.assets = Function.update w.assets (D.assetAddress r.handedInIndex)
        (.live { a with owner := r.user }) := by
  have hprincipal := h.principal
  simp only [returnPrincipal, hk, bind_eq_ok_iff, require_eq_ok_iff, deliver_eq_ok_iff]
    at hprincipal
  obtain ⟨-, -, a, ha, howner, hcol, rfl⟩ := hprincipal
  rw [h.toChain, closeRequest_tokens, closeRequest_assets]
  exact ⟨rfl, a, ha, howner, hcol, rfl⟩

end ExpireEffect

/-! ## The effect of a batch -/

/-- **A pass of the batch loop** is an expiry of the request its accounts name, of which the
runtime lets the calls through. -/
theorem expireGroup_eq_ok_iff {w : World} {caller : Pubkey} {moved : List Pubkey}
    {g : ExpireAccounts} {res : World × PoolEvent} :
    expireGroup D w caller D.ratio moved g = .ok res ↔
      ∃ r c, ExpireEffect D w res.1 r g.userToken c ∧ res.2 = .expired r.seq r.handIn ∧
        g.Names D r ∧ callsBalanced D w caller moved r.kind g = .ok () := by
  simp only [expireGroup, checkExpireAccounts, bind_eq_ok_iff, require_eq_ok_iff, pure_eq_ok_iff,
    expect_eq_ok_iff]
  constructor
  · rintro ⟨_, ⟨r, hreq, -, hrequest, -, hvault, -, huser, -, hrand, lock, hlock, -, hlockkey, t,
      ht, -, hmint, -, howner, -, hescrow, rfl⟩, ⟨c, v⟩, hone, _, hcalls, rfl⟩
    have hseq : r.seq = w.vault.nextSettleSeq := (expireOne_eq_ok_iff.mp hone).1
    rw [← hseq] at hrequest
    rw [hrequest] at hreq
    rw [hlockkey, ← hrand] at hlock
    rw [← huser] at howner
    rw [← huser, ← hrand] at hone
    obtain ⟨hasset, c₁, heff⟩ := expireEffect_of_expireOne hreq hvault (by rw [hlock]; rfl)
      ⟨t, ht, hmint, howner⟩ hone
    refine ⟨r, c₁, ?_, rfl, ⟨hrequest, hlockkey.trans (congrArg _ hrand.symm), hrand.symm,
      huser.symm, hescrow, hasset⟩, hcalls⟩
    rwa [hrequest, hlockkey, ← huser, ← hrand]
  · obtain ⟨⟨c', v'⟩, e⟩ := res
    rintro ⟨r, c, heff, rfl, hnames, hcalls⟩
    obtain ⟨lock, hlock⟩ := Option.isSome_iff_exists.mp heff.lock
    obtain ⟨t, ht, hmint, howner⟩ := heff.account
    obtain ⟨c₁, hone, hclose⟩ := heff.expireOne_eq hnames.asset
    refine ⟨r, ⟨r, ?_, (), ?_, (), heff.request_vault, (), hnames.user.symm, (),
      hnames.randomness.symm, lock, ?_, (), ?_, t, ht, (), hmint, (), ?_, (), hnames.mintEscrow,
      rfl⟩, (c₁, v'), ?_, (), hcalls, ?_⟩
    · rw [hnames.request]
      exact heff.request
    · rw [hnames.request, heff.seq]
    · rw [hnames.lock]
      exact hlock
    · rw [hnames.lock, hnames.randomness]
    · rw [hnames.user]
      exact howner
    · rw [hnames.randomness, hnames.user]
      exact hone
    · rw [hnames.request, hnames.lock, hnames.user, hclose]

/-- A batch is a run of expiries, one for each group of accounts. -/
theorem expireAll_eq_ok {gs : List ExpireAccounts} {caller : Pubkey} {moved : List Pubkey}
    {w w' : World} {es : List PoolEvent}
    (h : expireAll D caller D.ratio w moved gs = .ok (w', es)) :
    Run (ExpireStep D) w es w' ∧ es.length = gs.length := by
  induction gs generalizing w moved es with
  | nil =>
      simp only [expireAll, pure_eq_ok_iff, Prod.mk.injEq] at h
      obtain ⟨rfl, rfl⟩ := h
      exact ⟨.nil w, rfl⟩
  | cons g gs ih =>
      simp only [expireAll, bind_eq_ok_iff, pure_eq_ok_iff, Prod.mk.injEq] at h
      obtain ⟨⟨w₁, e⟩, hgroup, ⟨w₂, es'⟩, hall, rfl, rfl⟩ := h
      obtain ⟨hrun, hlen⟩ := ih hall
      obtain ⟨r, c, heff, he, -⟩ := expireGroup_eq_ok_iff.mp hgroup
      exact ⟨.cons ⟨r, g.userToken, c, heff, he⟩ hrun, by simp [hlen]⟩

theorem length_expireGroups (l : List Pubkey) :
    (expireGroups l).length = l.length / expireBatchStride := by
  fun_induction expireGroups l with
  | case1 _ _ _ _ _ _ _ rest ih =>
      simp only [List.length_cons, ih, expireBatchStride]
      omega
  | case2 l hshort =>
      have hlt : l.length < expireBatchStride := by
        by_contra hnot
        have hle : 7 ≤ l.length := not_lt.mp hnot
        match l, hle with
        | request :: lock :: randomness :: user :: userToken :: mintEscrow :: asset :: rest, _ =>
            exact hshort request lock randomness user userToken mintEscrow asset rest rfl
      rw [Nat.div_eq_of_lt hlt, List.length_nil]

theorem expireGroups_ne_nil {remaining : List Pubkey} (h : expireBatchStride ≤ remaining.length) :
    expireGroups remaining ≠ [] := by
  rw [← List.length_pos_iff, length_expireGroups]
  exact Nat.div_pos h (by decide)

/-- **A batch** is a run of as many expiries as it counts, and the closing check passes. -/
theorem handleExpireBatch_eq_ok {w : World} (hwf : WellFormed D.vaultKey D.size w.pool)
    {caller : Pubkey} {remaining : List Pubkey} {count : ℕ} {res : World × List PoolEvent}
    (h : handleExpireBatch D w caller remaining count = .ok res) :
    Run (ExpireStep D) w res.2 res.1 ∧ res.2 ≠ [] ∧ res.2.length = count ∧
      ∃ t, res.1.tokens D.vaultTokens = some t ∧
        ClosingCheck res.1.vault D.ratio D.size res.1.pool t.amount := by
  simp only [handleExpireBatch, handleExpireBatchWith, exitView_launchConfigAccount, bind_eq_ok_iff,
    require_eq_ok_iff, pure_eq_ok_iff] at h
  obtain ⟨-, -, -, -, -, hcount, -, hlen, e, hview, ⟨w', es⟩, hall, _, hclosing, rfl⟩ := h
  obtain rfl := LaunchConfig.exitViewIn_eq_ok hview
  obtain ⟨hrun, heslen⟩ := expireAll_eq_ok hall
  have hpool : w'.pool = w.pool := by
    refine hrun.invariant (P := fun x => x.pool = w.pool) ?_ rfl
    rintro s e t hs ⟨r, userToken, c, heff, -⟩
    exact heff.pool_eq.trans hs
  obtain ⟨t, ht, hcheck⟩ := hwf.closingCheck_eq_ok hclosing hpool
  have hes : es.length = count := by
    rw [heslen, length_expireGroups, hlen]
    exact Nat.mul_div_cancel _ (by decide)
  refine ⟨hrun, ?_, hes, t, ht, ?_⟩
  · rw [← List.length_pos_iff]
    exact hes ▸ hcount.1
  · rw [hpool]
    exact hcheck

end HybridVault
