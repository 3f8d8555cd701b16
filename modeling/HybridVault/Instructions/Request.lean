import HybridVault.AssetSource
import HybridVault.Instructions.Randomness
import HybridVault.Solvency

/-!
# Requests

`request_capture` and `request_reroll` take the payment, create a sequenced request
and commit its randomness, all in one instruction.  A capture pays `ratio` tokens, a
re-roll hands an asset in; both pay the flat fee and the mint escrow.

The two handlers differ in the payment only, and one description of their effect
covers both (`RequestEffect`).
-/

namespace HybridVault

open Foundations

/-- `hybrid_launch::PLATFORM_FEE_RECIPIENT`. -/
def platformFeeRecipient : Pubkey :=
  .raw ⟨[93, 131, 113, 138, 42, 81, 194, 154, 89, 59, 244, 178, 33, 140, 222, 112, 68, 108, 83,
    149, 111, 244, 115, 68, 78, 147, 17, 199, 46, 245, 193, 21], rfl⟩

/-- `MINT_ESCROW_LAMPORTS`: the worst-case mint cost with a margin of a quarter. -/
def mintEscrowLamports : ℕ := (coreAssetRentLamports + coreCreateFeeLamports) * 125 / 100

def minPoolFloor : ℕ := 5

def poolFloorBps : ℕ := 200

/-- The drawable assets that must be left when every pending draw has been
served. -/
def poolFloor (collectionSize : ℕ) : ℕ :=
  max ((collectionSize * poolFloorBps + 9_999) / 10_000) minPoolFloor

def checkCanRequest (v : Vault) (e : Econ) (p : PoolView) : Res Unit := do
  check (v.isOpen = true) .VaultNotOpen
  let poolLen ← p.poolLen
  let incomingLen ← p.incomingLen
  let available ← expect (checkedAdd poolLen incomingLen) (.vault .MathOverflow)
  let pending ← v.pendingDraws
  let free := available - pending
  check (poolFloor e.collectionSize < free) .NoAssetAvailable

/-- Deposit the worst-case mint cost in the request's escrow. -/
def escrowMintCost (D : Deployment) (c : Chain) (user escrow : Pubkey) : Res Chain := do
  check (c.Dataless escrow) .AssetStateMismatch
  check (mintNeed D ≤ mintEscrowLamports) .MintCostConstantStale
  systemTransfer c user escrow mintEscrowLamports

/-- Anchor's `init` of the request account and of the lock account. -/
def initRequestAccounts (D : Deployment) (c : Chain) (seq : ℕ) (user randomness : Pubkey) :
    Res Chain := do
  constraint (c.requests (D.requestAddress seq) = none) .AccountAlreadyInUse
  let c ← fundAccount D c user (D.requestAddress seq) requestSpace
  constraint (c.randLocks (.randLock randomness) = none) .AccountAlreadyInUse
  fundAccount D c user (.randLock randomness) randLockSpace

def finishRequest (D : Deployment) (c : Chain) (v : Vault) (kind : RequestKind)
    (user randomness : Pubkey) (seedSlot handedInIndex : ℕ) (oracle : Pubkey)
    (solFeeLamports : ℕ) : Res (Chain × Vault) := do
  let seq := v.nextSeq
  let deadlineSlot ← expect (checkedAdd c.slot revealTimeoutSlots) (.vault .MathOverflow)
  let request : Request := {
    kind := kind
    vault := D.vault
    seq := seq
    user := user
    randomness := randomness
    seedSlot := seedSlot
    deadlineSlot := deadlineSlot
    commits := 1
    oracles := [oracle, .default, .default, .default]
    revealed := false
    value := Bytes32.zero
    handedInIndex := handedInIndex
    mintEscrowLamports := mintEscrowLamports }
  let lock : RandLock := { vault := D.vault, seq := seq }
  let nextSeq ← expect (checkedAdd seq 1) (.vault .MathOverflow)
  let totalFeeLamports ←
    expect (checkedAdd v.totalFeeLamports solFeeLamports) (.vault .MathOverflow)
  let v := { v with nextSeq := nextSeq, totalFeeLamports := totalFeeLamports }
  let c := c.setRequests (Function.update c.requests (D.requestAddress seq) (some request))
  let c := c.setRandLocks (Function.update c.randLocks (.randLock randomness) (some lock))
  match kind with
  | .capture => do
      let pendingCaptures ← expect (checkedAdd v.pendingCaptures 1) (.vault .MathOverflow)
      return (c, { v with pendingCaptures := pendingCaptures })
  | .reroll => do
      let pendingRerolls ← expect (checkedAdd v.pendingRerolls 1) (.vault .MathOverflow)
      let assetsOutside ← expect (checkedSub v.assetsOutside 1) (.vault .AssetAccountingBroken)
      return (c, { v with pendingRerolls := pendingRerolls, assetsOutside := assetsOutside })

/-- The constraints `token::mint = mint` and `token::authority = user`. -/
def loadUserToken (D : Deployment) (c : Chain) (userToken user : Pubkey) : Res TokenAccount := do
  let t ← expect (c.tokens userToken) (.anchor .AccountNotInitialized)
  constraint (t.mint = D.mint) .ConstraintTokenMint
  constraint (t.owner = user) .ConstraintTokenOwner
  return t

/-- `request_capture`. -/
def handleRequestCapture (D : Deployment) (w : World)
    (user userToken randomness queue oracle : Pubkey) (staleProofs : List Pubkey) :
    Res (World × List PoolEvent) := do
  let v := w.vault
  constraint user.IsSigner .NotSigner
  let _ ← loadUserToken D w.toChain userToken user
  check (userToken ≠ D.vaultTokens) .AliasedTokenAccount
  let _ ← vaultTokensAmount D w.toChain
  let c ← initRequestAccounts D w.toChain v.nextSeq user randomness
  let e ← econ D.launchConfig
  let p ← loadPool D c
  checkCanRequest v e p
  let sol ← e.requestFee
  let c ← userPays D c userToken D.vaultTokens user e.ratioBase
  let c ← solFee c user platformFeeRecipient sol
  let c ← escrowMintCost D c user (D.mintEscrowAddress v.nextSeq)
  let (seedSlot, c) ←
    commitForRequest D c v.sbQueue randomness queue oracle v.nextSeq [] staleProofs
  let (c, v) ← finishRequest D c v .capture user randomness seedSlot noHandedIn oracle sol
  closingCheck D c v e.ratioBase e.collectionSize
  return ({ toChain := c, vault := v }, [.requested w.vault.nextSeq none])

/-- `request_reroll`. -/
def handleRequestReroll (D : Deployment) (w : World) (user randomness queue oracle : Pubkey)
    (index : ℕ) (staleProofs : List Pubkey) : Res (World × List PoolEvent) := do
  let v := w.vault
  constraint user.IsSigner .NotSigner
  let _ ← vaultTokensAmount D w.toChain
  let c ← initRequestAccounts D w.toChain v.nextSeq user randomness
  let e ← econ D.launchConfig
  let p ← loadPool D c
  checkCanRequest v e p
  check (index < e.collectionSize) .IndexOutOfRange
  let sol ← e.requestFee
  let c ← takeBack D c (D.assetAddress index) user
  let c ← solFee c user platformFeeRecipient sol
  let c ← escrowMintCost D c user (D.mintEscrowAddress v.nextSeq)
  let (seedSlot, c) ←
    commitForRequest D c v.sbQueue randomness queue oracle v.nextSeq [] staleProofs
  let (c, v) ← finishRequest D c v .reroll user randomness seedSlot index oracle sol
  closingCheck D c v e.ratioBase e.collectionSize
  return ({ toChain := c, vault := v }, [.requested w.vault.nextSeq (some index)])

/-! ## What the parts do -/

variable {D : Deployment}

/-- The request a handler writes. -/
@[simps]
def newRequest (D : Deployment) (w : World) (kind : RequestKind) (user randomness oracle : Pubkey)
    (handedInIndex : ℕ) : Request where
  kind := kind
  vault := D.vault
  seq := w.vault.nextSeq
  user := user
  randomness := randomness
  seedSlot := w.slot - 1
  deadlineSlot := w.slot + revealTimeoutSlots
  commits := 1
  oracles := [oracle, .default, .default, .default]
  revealed := false
  value := Bytes32.zero
  handedInIndex := handedInIndex
  mintEscrowLamports := mintEscrowLamports

/-- The vault record after a request of `kind` that paid `sol`. -/
def Vault.requested (v : Vault) (kind : RequestKind) (sol : ℕ) : Vault :=
  match kind with
  | .capture => { v with
      nextSeq := v.nextSeq + 1
      totalFeeLamports := v.totalFeeLamports + sol
      pendingCaptures := v.pendingCaptures + 1 }
  | .reroll => { v with
      nextSeq := v.nextSeq + 1
      totalFeeLamports := v.totalFeeLamports + sol
      pendingRerolls := v.pendingRerolls + 1
      assetsOutside := v.assetsOutside - 1 }

@[simp] theorem Vault.requested_nextSeq (v : Vault) (kind : RequestKind) (sol : ℕ) :
    (v.requested kind sol).nextSeq = v.nextSeq + 1 := by
  cases kind <;> rfl

@[simp] theorem Vault.requested_nextSettleSeq (v : Vault) (kind : RequestKind) (sol : ℕ) :
    (v.requested kind sol).nextSettleSeq = v.nextSettleSeq := by
  cases kind <;> rfl

/-- The lamports after a request: rent for the two accounts, the fee, and the
escrow. -/
def requestLamports (D : Deployment) (l : Pubkey → ℕ) (seq : ℕ) (user randomness : Pubkey)
    (sol : ℕ) : Pubkey → ℕ :=
  let l := moveAmount l user (D.requestAddress seq)
    (D.minimumBalance requestSpace - l (D.requestAddress seq))
  let l := moveAmount l user (.randLock randomness)
    (D.minimumBalance randLockSpace - l (.randLock randomness))
  let l := moveAmount l user platformFeeRecipient sol
  moveAmount l user (D.mintEscrowAddress seq) mintEscrowLamports

theorem solFee_eq_ok {c c' : Chain} {user dest : Pubkey} {sol : ℕ}
    (h : solFee c user dest sol = .ok c') :
    c' = c.setLamports (moveAmount c.lamports user dest sol) := by
  by_cases hsol : sol = 0
  · simp only [solFee, hsol, if_true, pure_eq_ok_iff] at h
    rw [hsol, moveAmount_zero, ← h]
    rfl
  · simp only [solFee, hsol, if_false, systemTransfer_eq_ok_iff] at h
    exact h.2.2.symm

theorem initRequestAccounts_eq_ok {c c' : Chain} {seq : ℕ} {user randomness : Pubkey}
    (h : initRequestAccounts D c seq user randomness = .ok c') :
    c.requests (D.requestAddress seq) = none ∧ c.randLocks (.randLock randomness) = none ∧
      ∃ l, c' = c.setLamports l ∧
        moveAmount (moveAmount c.lamports user (D.requestAddress seq)
          (D.minimumBalance requestSpace - c.lamports (D.requestAddress seq))) user
          (.randLock randomness) (D.minimumBalance randLockSpace
            - moveAmount c.lamports user (D.requestAddress seq)
              (D.minimumBalance requestSpace - c.lamports (D.requestAddress seq))
              (.randLock randomness)) = l := by
  simp only [initRequestAccounts, fundAccount, bind_eq_ok_iff, require_eq_ok_iff,
    systemTransfer_eq_ok_iff] at h
  obtain ⟨-, hreq, _, ⟨-, -, rfl⟩, -, hlock, -, -, rfl⟩ := h
  exact ⟨hreq, hlock, _, rfl, rfl⟩

theorem escrowMintCost_eq_ok {c c' : Chain} {user escrow : Pubkey}
    (h : escrowMintCost D c user escrow = .ok c') :
    c.Dataless escrow ∧ mintNeed D ≤ mintEscrowLamports ∧
      c' = c.setLamports (moveAmount c.lamports user escrow mintEscrowLamports) := by
  simp only [escrowMintCost, bind_eq_ok_iff, require_eq_ok_iff, systemTransfer_eq_ok_iff] at h
  obtain ⟨-, hdata, -, hneed, -, -, rfl⟩ := h
  exact ⟨hdata, hneed, rfl⟩

theorem econ_eq_ok {e : Econ} (h : econ D.launchConfig = .ok e) :
    e.ratioBase = D.ratio ∧ e.collectionSize = D.size ∧
      e.storedFeeLamports = D.launchConfig.feeLamports.toNat ∧
      e.ratioWholeTokens = D.launchConfig.ratioWholeTokens.toNat ∧ 0 < D.ratio := by
  simp only [econ, bind_eq_ok_iff, require_eq_ok_iff, pure_eq_ok_iff, expect_eq_ok_iff,
    toU32_eq_some_iff] at h
  obtain ⟨-, -, -, -, n, ⟨-, rfl⟩, -, ⟨-, hratio⟩, rfl⟩ := h
  exact ⟨rfl, rfl, rfl, rfl, hratio⟩

/-- Room for one more draw above the floor. -/
theorem checkCanRequest_eq_ok {v : Vault} {e : Econ} {cap : ℕ} {d : Bytes} {u : Unit}
    (hwf : WellFormed D.vaultKey cap d) (h : checkCanRequest v e ⟨d, cap⟩ = .ok u) :
    v.isOpen = true ∧ poolFloor e.collectionSize + (v.pendingCaptures + v.pendingRerolls)
      < (drawableOf d).length + (incomingOf cap d).length := by
  simp only [checkCanRequest, Vault.pendingDraws, bind_eq_ok_iff, require_eq_ok_iff,
    hwf.poolLen_eq, hwf.incomingLen_eq, expect_eq_ok_iff, checkedAdd_eq_some_iff,
    Except.ok.injEq] at h
  obtain ⟨-, hopen, _, rfl, _, rfl, _, ⟨-, rfl⟩, _, ⟨-, rfl⟩, hroom⟩ := h
  refine ⟨hopen, ?_⟩
  rw [length_drawableOf, length_incomingOf]
  omega

theorem finishRequest_eq_ok {w : World} {c : Chain} {r : Chain × Vault} {kind : RequestKind}
    {user randomness oracle : Pubkey} {seed handedInIndex sol : ℕ}
    (h : finishRequest D c w.vault kind user randomness seed handedInIndex oracle sol = .ok r)
    (hslot : c.slot = w.slot) (hseed : seed = w.slot - 1) :
    w.vault.nextSeq + 1 < u64Size ∧ (kind = .reroll → 1 ≤ w.vault.assetsOutside) ∧
      r = ((c.setRequests (Function.update c.requests (D.requestAddress w.vault.nextSeq)
          (some (newRequest D w kind user randomness oracle handedInIndex)))).setRandLocks
            (Function.update c.randLocks (.randLock randomness)
              (some { vault := D.vault, seq := w.vault.nextSeq })),
        w.vault.requested kind sol) := by
  cases kind with
  | capture =>
      simp only [finishRequest, bind_eq_ok_iff, expect_eq_ok_iff, checkedAdd_eq_some_iff,
        pure_eq_ok_iff] at h
      obtain ⟨_, ⟨-, rfl⟩, _, ⟨hnext, rfl⟩, _, ⟨-, rfl⟩, _, ⟨-, rfl⟩, rfl⟩ := h
      exact ⟨hnext, by simp, by rw [hslot, hseed]; rfl⟩
  | reroll =>
      simp only [finishRequest, bind_eq_ok_iff, expect_eq_ok_iff, checkedAdd_eq_some_iff,
        checkedSub_eq_some_iff, pure_eq_ok_iff] at h
      obtain ⟨_, ⟨-, rfl⟩, _, ⟨hnext, rfl⟩, _, ⟨-, rfl⟩, _, ⟨-, rfl⟩, _, ⟨hout, rfl⟩, rfl⟩ := h
      exact ⟨hnext, fun _ => hout, by rw [hslot, hseed]; rfl⟩

/-! ## The effect of a request -/

/-- How a request is paid for: the tokens and assets after the payment. -/
def Payment (D : Deployment) (w : World) (r : Request) (tokens : Pubkey → Option TokenAccount)
    (assets : Pubkey → AssetAccount) : Prop :=
  match r.kind with
  | .capture => assets = w.assets ∧ ∃ userToken s t, userToken ≠ D.vaultTokens ∧
      w.tokens userToken = some s ∧ w.tokens D.vaultTokens = some t ∧
      tokens = moveTokens w.tokens userToken D.vaultTokens s t D.ratio
  | .reroll => tokens = w.tokens ∧ r.handedInIndex < D.size ∧ 1 ≤ w.vault.assetsOutside ∧
      ∃ a, w.assets (D.assetAddress r.handedInIndex) = .live a ∧ a.owner = r.user ∧
        a.updateAuthority = .collection D.collection ∧
        assets = Function.update w.assets (D.assetAddress r.handedInIndex)
          (.live { a with owner := D.vaultAuthority })

/-- **What a request does.**  `r` is the request created, `oracle` the oracle its
commit uses, `snap` its randomness account before the commit, and `sol` the fee
charged. -/
structure RequestEffect (D : Deployment) (w w' : World) (r : Request) (oracle : Pubkey)
    (snap : RandomnessSnapshot) (sol : ℕ) : Prop where
  isOpen : w.vault.isOpen = true
  user : r.user.IsSigner
  room : poolFloor D.size + (w.vault.pendingCaptures + w.vault.pendingRerolls)
    < (drawableOf w.pool).length + (incomingOf D.size w.pool).length
  request : r = newRequest D w r.kind r.user r.randomness oracle r.handedInIndex
  request_none : w.requests (D.requestAddress w.vault.nextSeq) = none
  lock_none : w.randLocks (.randLock r.randomness) = none
  oracleChecks : ∃ queue proofs, HybridVault.oracleChecks D w.accounts w.vault.sbQueue queue oracle
    w.vault.nextSeq [] proofs w.unixTimestamp = .ok ()
  randomness : w.randomness r.randomness = some snap
  authority : snap.authority = D.randomnessAuthority
  queue : snap.queue = w.vault.sbQueue
  commitSlot : CommitSlot w.slot snap.revealSlot
  nextSeq_lt : w.vault.nextSeq + 1 < u64Size
  escrow_dataless : w.Dataless (D.mintEscrowAddress w.vault.nextSeq)
  mintNeed_le : mintNeed D ≤ mintEscrowLamports
  fee : requestFee D.launchConfig.feeLamports.toNat D.launchConfig.ratioWholeTokens.toNat = .ok sol
  payment : Payment D w r w'.tokens w'.assets
  closing : ∃ t, w'.tokens D.vaultTokens = some t ∧
    ClosingCheck (w.vault.requested r.kind sol) D.ratio D.size w.pool t.amount
  vault : w'.vault = w.vault.requested r.kind sol
  slot_eq : w'.slot = w.slot
  pool_eq : w'.pool = w.pool
  collection_eq : w'.collection = w.collection
  accounts_eq : w'.accounts = w.accounts
  lamports_eq :
    w'.lamports = requestLamports D w.lamports w.vault.nextSeq r.user r.randomness sol
  randomness_eq :
    w'.randomness = Function.update w.randomness r.randomness (some (committed w.toChain snap))
  requests_eq :
    w'.requests = Function.update w.requests (D.requestAddress w.vault.nextSeq) (some r)
  randLocks_eq : w'.randLocks = Function.update w.randLocks (.randLock r.randomness)
    (some { vault := D.vault, seq := w.vault.nextSeq })

/-- A signer is not an escrow. -/
theorem mintEscrowAddress_ne {seq : ℕ} {user : Pubkey} (h : user.IsSigner) :
    D.mintEscrowAddress seq ≠ user := by
  rintro rfl
  exact h

/-- A request pays into its own escrow, and touches no other. -/
theorem RequestEffect.escrow {w w' : World} {r : Request} {oracle : Pubkey}
    {snap : RandomnessSnapshot} {sol : ℕ} (h : RequestEffect D w w' r oracle snap sol) :
    mintEscrowLamports ≤ w'.lamports (D.mintEscrowAddress w.vault.nextSeq) ∧
      ∀ seq, seq ≠ w.vault.nextSeq →
        w'.lamports (D.mintEscrowAddress seq) = w.lamports (D.mintEscrowAddress seq) := by
  rw [h.lamports_eq, requestLamports]
  refine ⟨?_, ?_⟩
  · rw [moveAmount_dest (mintEscrowAddress_ne h.user).symm]
    exact Nat.le_add_left _ _
  · intro seq hseq
    have hne : D.mintEscrowAddress seq ≠ D.mintEscrowAddress w.vault.nextSeq := by
      simpa [Deployment.mintEscrowAddress] using hseq
    have hrequest : D.mintEscrowAddress seq ≠ D.requestAddress w.vault.nextSeq := by
      simp [Deployment.mintEscrowAddress, Deployment.requestAddress]
    have hlock : D.mintEscrowAddress seq ≠ .randLock r.randomness := by
      simp [Deployment.mintEscrowAddress]
    have hfee : D.mintEscrowAddress seq ≠ platformFeeRecipient := by
      simp [Deployment.mintEscrowAddress, platformFeeRecipient]
    have huser : D.mintEscrowAddress seq ≠ r.user := mintEscrowAddress_ne h.user
    rw [moveAmount_of_ne huser hne, moveAmount_of_ne huser hfee, moveAmount_of_ne huser hlock,
      moveAmount_of_ne huser hrequest]

/-- **The steps the two handlers share.**  Between `c₁` and the fee is the payment, which
leaves `tokens` and `assets`; the rest makes the effect of a request. -/
theorem requestEffect_of_steps {w : World} (hwf : WellFormed D.vaultKey D.size w.pool)
    {kind : RequestKind} {user randomness queue oracle : Pubkey} {handedInIndex : ℕ}
    {proofs : List Pubkey} {e : Econ} {p : PoolView} {sol seed : ℕ} {c₁ c₃ c₄ c₅ c₆ : Chain}
    {v : Vault} {u u' : Unit} (tokens : Pubkey → Option TokenAccount)
    (assets : Pubkey → AssetAccount) (hsigner : user.IsSigner)
    (hinit : initRequestAccounts D w.toChain w.vault.nextSeq user randomness = .ok c₁)
    (hecon : econ D.launchConfig = .ok e) (hpool : loadPool D c₁ = .ok p)
    (hroom : checkCanRequest w.vault e p = .ok u) (hfee : e.requestFee = .ok sol)
    (hsol : solFee ((c₁.setTokens tokens).setAssets assets) user platformFeeRecipient sol = .ok c₃)
    (hescrow : escrowMintCost D c₃ user (D.mintEscrowAddress w.vault.nextSeq) = .ok c₄)
    (hcommit : commitForRequest D c₄ w.vault.sbQueue randomness queue oracle w.vault.nextSeq []
      proofs = .ok (seed, c₅))
    (hfinish : finishRequest D c₅ w.vault kind user randomness seed handedInIndex oracle sol
      = .ok (c₆, v))
    (hclosing : closingCheck D c₆ v e.ratioBase e.collectionSize = .ok u')
    (hsame : assets (D.mintEscrowAddress w.vault.nextSeq)
      = w.assets (D.mintEscrowAddress w.vault.nextSeq))
    (hpayment : (kind = .reroll → 1 ≤ w.vault.assetsOutside) →
      Payment D w (newRequest D w kind user randomness oracle handedInIndex) tokens assets) :
    ∃ snap, RequestEffect D w ⟨c₆, v⟩ (newRequest D w kind user randomness oracle handedInIndex)
      oracle snap sol := by
  obtain ⟨hratio, hsize, hstored, hwhole, hpos⟩ := econ_eq_ok hecon
  -- each step's chain, from the one before
  obtain ⟨hreq, hlock, l, h₁, hl⟩ := initRequestAccounts_eq_ok hinit
  have h₃ := solFee_eq_ok hsol
  obtain ⟨hdata, hneed, h₄⟩ := escrowMintCost_eq_ok hescrow
  obtain ⟨horacle, snap, hsnap, hauth, hqueue, hslot, hc⟩ := commitForRequest_eq_ok_iff.mp hcommit
  obtain ⟨hseed, h₅⟩ := Prod.mk.inj hc
  obtain ⟨hnext, hout, hf⟩ := finishRequest_eq_ok hfinish (by simp [← h₅, h₄, h₃, h₁])
    (by simp [← hseed, h₄, h₃, h₁])
  obtain ⟨h₆, rfl⟩ := Prod.mk.inj hf
  have hload : loadPool D c₁ = .ok ⟨w.pool, D.size⟩ := by
    rw [h₁]
    exact hwf.load_eq
  obtain rfl : (⟨w.pool, D.size⟩ : PoolView) = p := by simpa [hload] using hpool
  obtain ⟨hopen, hroom⟩ := checkCanRequest_eq_ok hwf hroom
  rw [hratio, hsize] at hclosing
  obtain ⟨t', ht', hcheck⟩ := hwf.closingCheck_eq_ok hclosing (by simp [h₆, ← h₅, h₄, h₃, h₁])
  exact ⟨snap, {
    isOpen := hopen
    user := hsigner
    room := by rwa [hsize] at hroom
    request := rfl
    request_none := hreq
    lock_none := hlock
    oracleChecks := ⟨queue, proofs, by simpa [h₄, h₃, h₁] using horacle⟩
    randomness := by simpa [h₄, h₃, h₁] using hsnap
    authority := hauth
    queue := hqueue
    commitSlot := by simpa [h₄, h₃, h₁] using hslot
    nextSeq_lt := hnext
    escrow_dataless := by simpa [Chain.Dataless, h₃, h₁, hsame] using hdata
    mintNeed_le := hneed
    fee := by rw [← hstored, ← hwhole]; exact hfee
    payment := by simpa [h₆, ← h₅, h₄, h₃, h₁] using hpayment hout
    closing := ⟨t', ht', hcheck⟩
    vault := rfl
    slot_eq := by simp [h₆, ← h₅, h₄, h₃, h₁]
    pool_eq := by simp [h₆, ← h₅, h₄, h₃, h₁]
    collection_eq := by simp [h₆, ← h₅, h₄, h₃, h₁]
    accounts_eq := by simp [h₆, ← h₅, h₄, h₃, h₁]
    lamports_eq := by simp [h₆, ← h₅, h₄, h₃, h₁, requestLamports, hl]
    randomness_eq := by simp [h₆, ← h₅, h₄, h₃, h₁, committed]
    requests_eq := by simp [h₆, ← h₅, h₄, h₃, h₁]
    randLocks_eq := by simp [h₆, ← h₅, h₄, h₃, h₁] }⟩

theorem handleRequestCapture_eq_ok {w : World} (hwf : WellFormed D.vaultKey D.size w.pool)
    {user userToken randomness queue oracle : Pubkey} {proofs : List Pubkey}
    {res : World × List PoolEvent}
    (h : handleRequestCapture D w user userToken randomness queue oracle proofs = .ok res) :
    res.2 = [.requested w.vault.nextSeq none] ∧
      ∃ r snap sol, r.kind = .capture ∧ RequestEffect D w res.1 r oracle snap sol := by
  simp only [handleRequestCapture, bind_eq_ok_iff, require_eq_ok_iff, pure_eq_ok_iff] at h
  obtain ⟨-, hsigner, -, -, -, halias, -, -, c₁, hinit, e, hecon, p, hpool, _, hroom, sol, hfee,
    c₂, hpays, c₃, hsol, c₄, hescrow, ⟨seed, c₅⟩, hcommit, ⟨c₆, v⟩, hfinish, _, hclosing, rfl⟩ := h
  obtain ⟨hratio, -, -, -, hpos⟩ := econ_eq_ok hecon
  obtain ⟨-, -, l, h₁, -⟩ := initRequestAccounts_eq_ok hinit
  -- the payment moves tokens
  rw [userPays, if_neg (by omega), tokenTransfer_eq_ok_iff halias] at hpays
  obtain ⟨s, t, hs, ht, -, -, -, -, rfl⟩ := hpays
  have hassets : c₁.assets = w.assets := by simp [h₁]
  obtain ⟨snap, heff⟩ := requestEffect_of_steps hwf
    (moveTokens c₁.tokens userToken D.vaultTokens s t e.ratioBase) c₁.assets hsigner hinit hecon
    hpool hroom hfee hsol hescrow hcommit hfinish hclosing (by rw [hassets]) fun _ =>
      ⟨hassets, userToken, s, t, halias, by simpa [h₁] using hs, by simpa [h₁] using ht,
        by simp [h₁, hratio]⟩
  exact ⟨rfl, _, snap, sol, rfl, heff⟩

theorem handleRequestReroll_eq_ok {w : World} (hwf : WellFormed D.vaultKey D.size w.pool)
    {user randomness queue oracle : Pubkey} {index : ℕ} {proofs : List Pubkey}
    {res : World × List PoolEvent}
    (h : handleRequestReroll D w user randomness queue oracle index proofs = .ok res) :
    res.2 = [.requested w.vault.nextSeq (some index)] ∧
      ∃ r snap sol, r.kind = .reroll ∧ r.handedInIndex = index ∧
        RequestEffect D w res.1 r oracle snap sol := by
  simp only [handleRequestReroll, bind_eq_ok_iff, require_eq_ok_iff, pure_eq_ok_iff] at h
  obtain ⟨-, hsigner, -, -, c₁, hinit, e, hecon, p, hpool, _, hroom, -, hindex, sol, hfee,
    c₂, htake, c₃, hsol, c₄, hescrow, ⟨seed, c₅⟩, hcommit, ⟨c₆, v⟩, hfinish, _, hclosing, rfl⟩ := h
  obtain ⟨-, hsize, -, -, -⟩ := econ_eq_ok hecon
  obtain ⟨-, -, l, h₁, -⟩ := initRequestAccounts_eq_ok hinit
  -- the payment moves an asset, which is not the escrow
  obtain ⟨a, ha, howner, hcol, rfl⟩ := takeBack_eq_ok_iff.mp htake
  have hne : D.mintEscrowAddress w.vault.nextSeq ≠ D.assetAddress index := by
    simp [Deployment.mintEscrowAddress, Deployment.assetAddress]
  obtain ⟨snap, heff⟩ := requestEffect_of_steps hwf c₁.tokens
    (Function.update c₁.assets (D.assetAddress index) (.live { a with owner := D.vaultAuthority }))
    hsigner hinit hecon hpool hroom hfee hsol hescrow hcommit hfinish hclosing
    (by rw [Function.update_of_ne hne, h₁]; rfl) fun hout =>
      ⟨by simp [h₁], hsize ▸ hindex, hout rfl, a, by simpa [h₁] using ha, howner, hcol,
        by simp [h₁]⟩
  exact ⟨rfl, _, snap, sol, rfl, rfl, heff⟩

end HybridVault
