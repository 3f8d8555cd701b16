import HybridVault.Bookkeeping

/-!
# What a vault can touch

A vault runs beside other vaults of the same program, on the same chain.  Whatever an
instruction of one vault does, it does to accounts of that vault and to wallets:

* `Confined` — the accounts an instruction of a vault leaves alone;
* `Effect.confined`, `InitEffect.confined` — every effect of a reachable vault is
  confined, and so is its creation;
* `Confined.envStep` — what is confined to one vault is a move of the environment for
  every other.

An expiry closes the lock of its request without a look at what the lock says, and
pays out to whatever token account the caller names.  That neither reaches into another
vault is a matter of the invariants: the lock of a pending request is the vault's
(`Coherent`), and a request's user is a signer, who owns no account of a vault
(`Tickets`).
-/

namespace HybridVault

open Foundations

variable {D D' : Deployment} {c c' : Chain} {w w' : World} {x : SequencedPool.State ℕ}

/-! ## Confinement -/

/-- The addresses that instructions of this vault take lamports from. -/
inductive Deployment.Spends (D : Deployment) : Pubkey → Prop
  | signer {k : Pubkey} (h : k.IsSigner) : D.Spends k
  | request (seq : ℕ) : D.Spends (D.requestAddress seq)
  | lock (randomness : Pubkey) : D.Spends (.randLock randomness)
  | escrow (seq : ℕ) : D.Spends (D.mintEscrowAddress seq)
  | asset (index : ℕ) : D.Spends (D.assetAddress index)
  | collection : D.Spends D.collection

/-- **Only accounts of this vault and of wallets change** from `c` to `c'`, beside the
vault's own pool and collection. -/
structure Confined (D : Deployment) (c c' : Chain) : Prop where
  slot : c'.slot = c.slot
  accounts : c'.accounts = c.accounts
  requests : DifferAt (fun r => r.vault = D.vault) c.requests c'.requests
  requests_eq : ∀ k, (∀ seq, k ≠ D.requestAddress seq) → c'.requests k = c.requests k
  randLocks : DifferAt (fun l => l.vault = D.vault) c.randLocks c'.randLocks
  randomness : DifferAt (fun s => s.authority = D.randomnessAuthority) c.randomness c'.randomness
  assets : ∀ k, (∀ i, k ≠ D.assetAddress i) → c'.assets k = c.assets k
  tokens : ∀ k, k ≠ D.vaultTokens → (∀ t, c.tokens k = some t → ¬ t.owner.IsSigner) →
    c'.tokens k = c.tokens k
  lamports : ∀ k, ¬ D.Spends k → c.lamports k ≤ c'.lamports k

theorem ne_of_not_spends {k source : Pubkey} (hk : ¬ D.Spends k) (hs : D.Spends source) :
    k ≠ source := by
  rintro rfl
  exact hk hs

/-- A transfer between two accounts reaches no third. -/
theorem moveTokens_of_ne {tokens : Pubkey → Option TokenAccount} {source dest k : Pubkey}
    {s d : TokenAccount} {amount : ℕ} (hs : k ≠ source) (hd : k ≠ dest) :
    moveTokens tokens source dest s d amount k = tokens k := by
  rw [moveTokens, Function.update_of_ne hd, Function.update_of_ne hs]

/-- Who owns a token account is not a vault's token account. -/
theorem ne_of_owner_isSigner {tokens : Pubkey → Option TokenAccount} {k userToken : Pubkey}
    {t : TokenAccount} (hk : ∀ t, tokens k = some t → ¬ t.owner.IsSigner)
    (ht : tokens userToken = some t) (howner : t.owner.IsSigner) : k ≠ userToken := by
  rintro rfl
  exact hk t ht howner

namespace Confined

/-- Nothing but the pool, the collection and the vault record changes. -/
theorem of_eq (hslot : c'.slot = c.slot) (haccounts : c'.accounts = c.accounts)
    (hrequests : c'.requests = c.requests) (hlocks : c'.randLocks = c.randLocks)
    (hrandomness : c'.randomness = c.randomness) (hassets : c'.assets = c.assets)
    (htokens : c'.tokens = c.tokens) (hlamports : c'.lamports = c.lamports) : Confined D c c' where
  slot := hslot
  accounts := haccounts
  requests := by rw [hrequests]; exact .refl _ _
  requests_eq := fun k _ => by rw [hrequests]
  randLocks := by rw [hlocks]; exact .refl _ _
  randomness := by rw [hrandomness]; exact .refl _ _
  assets := fun k _ => by rw [hassets]
  tokens := fun k _ _ => by rw [htokens]
  lamports := fun k _ => by rw [hlamports]

theorem trans {c'' : Chain} (h : Confined D c c') (h' : Confined D c' c'') : Confined D c c'' where
  slot := h'.slot.trans h.slot
  accounts := h'.accounts.trans h.accounts
  requests := h.requests.trans h'.requests
  requests_eq := fun k hk => (h'.requests_eq k hk).trans (h.requests_eq k hk)
  randLocks := h.randLocks.trans h'.randLocks
  randomness := h.randomness.trans h'.randomness
  assets := fun k hk => (h'.assets k hk).trans (h.assets k hk)
  tokens := fun k hk howner => by
    have hsame := h.tokens k hk howner
    exact (h'.tokens k hk (by rwa [hsame])).trans hsame
  lamports := fun k hk => (h.lamports k hk).trans (h'.lamports k hk)

end Confined

/-! ## What the handlers touch -/

/-- A capture is paid from a token account of the user's. -/
theorem handleRequestCapture_tokens {user userToken randomness queue oracle : Pubkey}
    {proofs : List Pubkey} {res : World × List PoolEvent}
    (h : handleRequestCapture D w user userToken randomness queue oracle proofs = .ok res)
    {k : Pubkey} (hk : k ≠ D.vaultTokens) (howner : ∀ t, w.tokens k = some t → ¬ t.owner.IsSigner) :
    res.1.tokens k = w.tokens k := by
  simp only [handleRequestCapture, loadUserToken, bind_eq_ok_iff, require_eq_ok_iff,
    pure_eq_ok_iff, expect_eq_ok_iff] at h
  obtain ⟨-, hsigner, _, ⟨t, ht, -, -, -, huser, -⟩, -, halias, -, -, c₁, hinit, e, hecon, _, -, -,
    -, _, -, c₂, hpays, c₃, hsol, c₄, hescrow, ⟨seed, c₅⟩, hcommit, ⟨c₆, v⟩, hfinish, -, -,
    rfl⟩ := h
  obtain ⟨-, -, -, -, hpos⟩ := econ_eq_ok hecon
  obtain ⟨hratio, -⟩ := econ_eq_ok hecon
  obtain ⟨-, -, l, h₁, -⟩ := initRequestAccounts_eq_ok hinit
  rw [userPays, if_neg (by omega), tokenTransfer_eq_ok_iff halias] at hpays
  obtain ⟨s, d, -, -, -, -, -, -, h₂⟩ := hpays
  have h₃ := solFee_eq_ok hsol
  obtain ⟨-, -, h₄⟩ := escrowMintCost_eq_ok hescrow
  obtain ⟨-, snap, -, -, -, -, hc⟩ := commitForRequest_eq_ok_iff.mp hcommit
  obtain ⟨hseed, h₅⟩ := Prod.mk.inj hc
  obtain ⟨-, -, hf⟩ := finishRequest_eq_ok hfinish (by simp [← h₅, h₄, h₃, ← h₂, h₁])
    (by simp [← hseed, h₄, h₃, ← h₂, h₁])
  obtain ⟨h₆, -⟩ := Prod.mk.inj hf
  have hne : k ≠ userToken := ne_of_owner_isSigner howner ht (by rwa [huser])
  have htokens : c₆.tokens = moveTokens w.tokens userToken D.vaultTokens s d e.ratioBase := by
    simp [h₆, ← h₅, h₄, h₃, ← h₂, h₁]
  rw [htokens, moveTokens_of_ne hne hk]

/-- A request pays from the user's wallet only. -/
theorem RequestEffect.confined {r : Request} {oracle : Pubkey} {snap : RandomnessSnapshot} {sol : ℕ}
    (h : RequestEffect D w w' r oracle snap sol)
    (htokens : ∀ k, k ≠ D.vaultTokens → (∀ t, w.tokens k = some t → ¬ t.owner.IsSigner) →
      w'.tokens k = w.tokens k) : Confined D w.toChain w'.toChain where
  slot := h.slot_eq
  accounts := h.accounts_eq
  requests := by
    rw [h.requests_eq]
    refine .update (by simp [h.request_none]) ?_
    rintro a ⟨⟩
    rw [h.request]
    rfl
  requests_eq := fun k hk => by rw [h.requests_eq, Function.update_of_ne (hk _)]
  randLocks := by
    rw [h.randLocks_eq]
    exact .update (by simp [h.lock_none]) (by rintro _ ⟨⟩; rfl)
  randomness := by
    rw [h.randomness_eq]
    refine .update ?_ ?_
    · intro s hs
      obtain rfl := Option.some.inj (h.randomness.symm.trans hs)
      exact h.authority
    · rintro _ ⟨⟩
      exact h.authority
  assets := by
    intro k hk
    have hpay := h.payment
    cases hkind : r.kind with
    | capture =>
        simp only [Payment, hkind] at hpay
        rw [hpay.1]
    | reroll =>
        simp only [Payment, hkind] at hpay
        obtain ⟨-, -, -, a, -, -, -, hassets⟩ := hpay
        rw [hassets, Function.update_of_ne (hk _)]
  tokens := htokens
  lamports := by
    intro k hk
    have huser : k ≠ r.user := ne_of_not_spends hk (.signer h.user)
    rw [h.lamports_eq, requestLamports]
    exact (le_moveAmount huser).trans <| (le_moveAmount huser).trans <|
      (le_moveAmount huser).trans (le_moveAmount huser)

/-- Closing a request takes lamports from the request and its lock only. -/
theorem le_closeRequest_lamports {seq : ℕ} {randomness user k : Pubkey} (hk : ¬ D.Spends k) :
    c.lamports k ≤ (closeRequest c (D.requestAddress seq) (.randLock randomness) user).lamports k :=
  (le_moveAmount (ne_of_not_spends hk (.request seq))).trans
    (le_moveAmount (ne_of_not_spends hk (.lock randomness)))

/-- A request of this vault is closed, and its lock. -/
theorem Coherent.closed (h : Coherent D w) {r : Request}
    (hr : w.requests (D.requestAddress r.seq) = some r) (hv : r.vault = D.vault) :
    DifferAt (fun r => r.vault = D.vault) w.requests
        (Function.update w.requests (D.requestAddress r.seq) none) ∧
      DifferAt (fun l => l.vault = D.vault) w.randLocks
        (Function.update w.randLocks (.randLock r.randomness) none) := by
  constructor
  · refine .update ?_ (by simp)
    intro r' hr'
    obtain rfl := Option.some.inj (hr.symm.trans hr')
    exact hv
  · refine .update ?_ (by simp)
    intro l hl
    rw [h.lock _ r hr hv] at hl
    obtain rfl := Option.some.inj hl
    rfl

/-- A settle gives to the request's user. -/
theorem SettleEffect.confined {r : Request} {mint : Option MintArgs} {candidates : List ℕ}
    {picked : ℕ} {d : Bytes} {v : Vault} (h : SettleEffect D w w' r mint candidates picked d c v)
    (hx : Coherent D w) : Confined D w.toChain w'.toChain where
  slot := h.frame.1
  accounts := h.frame.2.2.2.1
  requests := by
    rw [h.frame.2.2.2.2.1]
    exact (hx.closed h.request h.request_vault).1
  requests_eq := fun k hk => by rw [h.frame.2.2.2.2.1, Function.update_of_ne (hk _)]
  randLocks := by
    rw [h.frame.2.2.2.2.2]
    exact (hx.closed h.request h.request_vault).2
  randomness := by rw [h.frame.2.2.1]; exact .refl _ _
  assets := by
    intro k hk
    obtain ⟨a, -, -, hassets⟩ := h.assets_eq
    rw [hassets, Function.update_of_ne (hk _)]
  tokens := fun k _ _ => by rw [h.frame.2.1]
  lamports := by
    intro k hk
    have hescrow : k ≠ D.mintEscrowAddress r.seq := ne_of_not_spends hk (.escrow _)
    have hasset : k ≠ D.assetAddress picked := ne_of_not_spends hk (.asset _)
    rw [h.toChain]
    refine le_trans ?_ (le_closeRequest_lamports hk)
    refine le_trans ?_ (le_moveAmount hescrow)
    cases h.handover with
    | delivered => exact le_rfl
    | minted => exact (le_moveAmount hasset).trans (le_moveAmount hescrow)

/-- A capture refunded to the vault's own account moves nothing. -/
theorem ExpireEffect.capture_tokens_self {r : Request} {userToken : Pubkey}
    (h : ExpireEffect D w w' r userToken c) (hk : r.kind = .capture)
    (halias : userToken = D.vaultTokens) : w'.tokens = w.tokens := by
  have hprincipal := h.principal
  simp only [returnPrincipal, hk, payOut, tokenTransfer, halias, if_true, bind_eq_ok_iff,
    pure_eq_ok_iff] at hprincipal
  obtain ⟨-, -, -, -, -, -, rfl⟩ := hprincipal
  rw [h.toChain, closeRequest_tokens, Chain.setLamports_tokens]

/-- An expiry gives to the request's user. -/
theorem ExpireEffect.confined {r : Request} {userToken : Pubkey}
    (h : ExpireEffect D w w' r userToken c) (hx : Tracks D w x) (hcoherent : Coherent D w) :
    Confined D w.toChain w'.toChain where
  slot := h.frame.1
  accounts := h.frame.2.2.1
  requests := by
    rw [h.frame.2.2.2.2.1]
    exact (hcoherent.closed h.request h.request_vault).1
  requests_eq := fun k hk => by rw [h.frame.2.2.2.2.1, Function.update_of_ne (hk _)]
  randLocks := by
    rw [h.frame.2.2.2.2.2]
    exact (hcoherent.closed h.request h.request_vault).2
  randomness := by rw [h.frame.2.1]; exact .refl _ _
  assets := by
    intro k hk
    cases hkind : r.kind with
    | capture => rw [h.capture_assets hkind]
    | reroll =>
        obtain ⟨-, a, -, -, -, hassets⟩ := h.reroll hkind
        rw [hassets, Function.update_of_ne (hk _)]
  tokens := by
    intro k hk howner
    cases hkind : r.kind with
    | capture =>
        -- whoever is refunded is a signer, so the account is not a vault's
        obtain ⟨t, ht, -, htowner⟩ := h.account
        obtain ⟨-, huser, -⟩ := hx.tickets.own _ r h.request (Or.inr ⟨_, rfl⟩)
        have hne : k ≠ userToken := ne_of_owner_isSigner howner ht (by rwa [htowner])
        by_cases halias : userToken = D.vaultTokens
        · rw [h.capture_tokens_self hkind halias]
        · obtain ⟨s, t', -, -, -, htokens⟩ := h.capture_tokens hkind halias
          rw [htokens, moveTokens_of_ne hk hne]
    | reroll => rw [(h.reroll hkind).1]
  lamports := by
    intro k hk
    have hescrow : k ≠ D.mintEscrowAddress r.seq := ne_of_not_spends hk (.escrow _)
    obtain ⟨-, tokens, assets, hc⟩ := returnPrincipal_eq_ok h.principal
    rw [h.toChain]
    refine le_trans ?_ (le_closeRequest_lamports hk)
    refine le_trans (le_of_eq ?_) (le_moveAmount hescrow)
    rw [hc]
    rfl

/-- A release pays the account of the asset's owner. -/
theorem UnwrapEffect.confined {user userToken : Pubkey} {index : ℕ} {s t : TokenAccount}
    {a : BaseAsset} {d : Bytes} (h : UnwrapEffect D w w' user userToken index s t a d) :
    Confined D w.toChain w'.toChain := by
  rw [h.toChain]
  exact {
    slot := rfl
    accounts := rfl
    requests := .refl _ _
    requests_eq := fun _ _ => rfl
    randLocks := .refl _ _
    randomness := .refl _ _
    assets := fun k hk => Function.update_of_ne (hk _) _ _
    tokens := by
      intro k hk howner
      have hsigner : t.owner.IsSigner := by
        rw [h.account_owner]
        exact h.signer
      exact moveTokens_of_ne hk (ne_of_owner_isSigner howner h.account hsigner)
    lamports := fun _ _ => le_rfl }

/-- A request and its randomness account are rewritten. -/
theorem Confined.of_rewrite {r r' : Request} {snap snap' : RandomnessSnapshot}
    (hr : w.requests (D.requestAddress r.seq) = some r) (hv : r.vault = D.vault)
    (hv' : r'.vault = D.vault) (hsnap : w.randomness r.randomness = some snap)
    (hauth : snap.authority = D.randomnessAuthority)
    (hauth' : snap'.authority = D.randomnessAuthority) :
    Confined D w.toChain ((w.toChain.setRandomness
        (Function.update w.randomness r.randomness (some snap'))).setRequests
      (Function.update w.requests (D.requestAddress r.seq) (some r'))) where
  slot := rfl
  accounts := rfl
  requests := by
    refine .update ?_ (by rintro _ ⟨⟩; exact hv')
    intro a ha
    obtain rfl := Option.some.inj (hr.symm.trans ha)
    exact hv
  requests_eq := fun k hk => Function.update_of_ne (hk _) _ _
  randLocks := .refl _ _
  randomness := by
    refine .update ?_ (by rintro _ ⟨⟩; exact hauth')
    intro s hs
    obtain rfl := Option.some.inj (hsnap.symm.trans hs)
    exact hauth
  assets := fun _ _ => rfl
  tokens := fun _ _ _ => rfl
  lamports := fun _ _ => le_rfl

/-- A batch of expiries is confined as each of them is. -/
theorem Consistent.expiries_confined {es : List PoolEvent} (hx : Consistent D w x)
    (hrun : Run (ExpireStep D) w es w') : Confined D w.toChain w'.toChain := by
  induction hrun generalizing x with
  | nil w => exact .of_eq rfl rfl rfl rfl rfl rfl rfl rfl
  | cons hstep _ ih =>
      obtain ⟨r, userToken, c, heff, -⟩ := hstep
      obtain ⟨y, -, hy⟩ := hx.effect (.expired heff)
      exact (heff.confined hx.toTracks hx.coherent).trans (ih hy)

/-- **Every instruction of a reachable vault is confined to it.** -/
theorem Consistent.perform_confined (hx : Consistent D w x) {ix : Instruction}
    {es : List PoolEvent} (h : perform D w ix = .ok (w', es)) :
    Confined D w.toChain w'.toChain := by
  cases ix with
  | initRandomness randomness =>
      obtain ⟨-, hnew, hres⟩ := handleInitRandomness_eq_ok_iff.mp h
      obtain ⟨rfl, -⟩ := Prod.mk.inj hres
      exact {
        slot := rfl
        accounts := rfl
        requests := .refl _ _
        requests_eq := fun _ _ => rfl
        randLocks := .refl _ _
        randomness := .update (by simp [hnew]) (by rintro _ ⟨⟩; rfl)
        assets := fun _ _ => rfl
        tokens := fun _ _ _ => rfl
        lamports := fun _ _ => le_rfl }
  | openVault caller graduationProof =>
      obtain ⟨-, hres⟩ := handleOpenVault_eq_ok h
      obtain ⟨rfl, -⟩ := Prod.mk.inj hres
      exact .of_eq rfl rfl rfl rfl rfl rfl rfl rfl
  | requestCapture user userToken randomness queue oracle staleProofs =>
      obtain ⟨-, r, snap, sol, -, heff⟩ := handleRequestCapture_eq_ok hx.pool h
      exact heff.confined fun k hk howner => handleRequestCapture_tokens h hk howner
  | requestReroll user randomness queue oracle index staleProofs =>
      obtain ⟨-, r, snap, sol, hk, -, heff⟩ := handleRequestReroll_eq_ok hx.pool h
      have hpay := heff.payment
      simp only [Payment, hk] at hpay
      exact heff.confined fun k _ _ => by rw [hpay.1]
  | revealRandomness request randomness value =>
      obtain ⟨-, r, snap, -, -, heff⟩ := handleRevealRandomness_eq_ok_iff.mp h
      rw [heff.toChain]
      let r' : Request := { r with revealed := true, value := value }
      have hvault : r'.vault = D.vault := heff.request_vault
      exact .of_rewrite heff.request heff.request_vault hvault heff.randomness
        heff.authority heff.authority
  | recommitRandomness request randomness queue oracle staleProofs =>
      obtain ⟨-, r, snap, -, -, heff⟩ := handleRecommitRandomness_eq_ok_iff.mp h
      rw [heff.toChain]
      exact .of_rewrite heff.request heff.request_vault heff.request_vault heff.randomness
        heff.authority heff.authority
  | settleCapture settler request randomness asset user mint =>
      obtain ⟨r, candidates, picked, d, c, v, -, -, -, heff⟩ := handleSettle_eq_ok hx.pool h
      exact heff.confined hx.coherent
  | settleReroll settler request randomness asset user mint =>
      obtain ⟨r, candidates, picked, d, c, v, -, -, -, heff⟩ := handleSettle_eq_ok hx.pool h
      exact heff.confined hx.coherent
  | unwrap user userToken index =>
      obtain ⟨-, s, t, a, d, heff⟩ := (handleUnwrap_eq_ok_iff hx.pool hx.nextSeq_lt).mp h
      exact heff.confined
  | expireRequest caller request randomness user userToken asset =>
      obtain ⟨r, c, heff, -⟩ := handleExpire_eq_ok hx.pool h
      exact heff.confined hx.toTracks hx.coherent
  | expireRequests caller remaining count =>
      obtain ⟨hrun, -⟩ := handleExpireBatch_eq_ok hx.pool h
      exact hx.expiries_confined hrun
  | mergeIncoming max =>
      obtain ⟨k, d, hmerge, -⟩ := hx.pool.handleMergeIncoming_eq (w := w) max
      obtain ⟨rfl, -⟩ := Prod.mk.inj (Except.ok.inj (h.symm.trans hmerge))
      exact .of_eq rfl rfl rfl rfl rfl rfl rfl rfl

/-- A creation is paid by the creator. -/
theorem handleInitVault_lamports {creator k : Pubkey} {params : InitVaultParams}
    (h : handleInitVault D c creator params = .ok w) (hcreator : k ≠ creator)
    (hcollection : k ≠ D.collection) : c.lamports k ≤ w.lamports k := by
  simp only [handleInitVault, fundAccount, createCollection, bind_eq_ok_iff, require_eq_ok_iff,
    pure_eq_ok_iff, systemTransfer_eq_ok_iff, drainPrefundedPda_eq_ok_iff] at h
  obtain ⟨-, -, -, -, c₁, ⟨-, -, h₁⟩, -, -, c₂, ⟨-, -, h₂⟩, -, -, -, -, -, -, -, -, e, -, d,
    -, c₃, ⟨-, h₃⟩, c₄, ⟨-, -, h₄⟩, hw⟩ := h
  simp only [← hw, ← h₄, ← h₃, ← h₂, ← h₁, Chain.setCollection_lamports,
    Chain.setLamports_lamports, Chain.setPool_lamports, Chain.setTokens_lamports]
  exact (le_moveAmount hcreator).trans <| (le_moveAmount hcreator).trans
    (le_moveAmount hcollection)

theorem handleInitVault_creator {creator : Pubkey} {params : InitVaultParams}
    (h : handleInitVault D c creator params = .ok w) :
    creator.IsSigner ∧ creator = .raw D.launchConfig.creator := by
  simp only [handleInitVault, bind_eq_ok_iff, require_eq_ok_iff] at h
  obtain ⟨-, hsigner, -, hcreator, -⟩ := h
  exact ⟨hsigner, hcreator.symm⟩

/-- **The creation of a vault is confined to it.** -/
theorem handleInitVault_confined {creator : Pubkey} {params : InitVaultParams}
    (hpool : c.pool = List.replicate (poolAccountSize D.size) 0)
    (h : handleInitVault D c creator params = .ok w) : Confined D c w.toChain := by
  have heff := handleInitVault_eq_ok hpool h
  have hsigner := (handleInitVault_creator h).1
  exact {
    slot := heff.slot_eq
    accounts := heff.accounts_eq
    requests := by rw [heff.requests_eq]; exact .refl _ _
    requests_eq := fun k _ => by rw [heff.requests_eq]
    randLocks := by rw [heff.randLocks_eq]; exact .refl _ _
    randomness := by rw [heff.randomness_eq]; exact .refl _ _
    assets := fun k _ => by rw [heff.assets_eq]
    tokens := fun k hk _ => by rw [heff.tokens, Function.update_of_ne hk]
    lamports := fun k hk => handleInitVault_lamports h (ne_of_not_spends hk (.signer hsigner))
      (ne_of_not_spends hk .collection) }

/-! ## Seen from another vault -/

/-- Addresses of different vaults are different. -/
theorem not_spends_of_ne (hkeys : D.vaultKey ≠ D'.vaultKey) (seq : ℕ) :
    ¬ D.Spends (D'.mintEscrowAddress seq) := by
  intro h
  generalize hk : D'.mintEscrowAddress seq = k at h
  cases h with
  | signer h =>
      rw [← hk] at h
      exact h
  | escrow seq' => exact hkeys (Pubkey.mintEscrow.inj hk).1.symm
  | request | lock | asset | collection => exact Pubkey.noConfusion hk

/-- **What is confined to one vault is a move of the environment for any other**, which
keeps its own pool, collection and record. -/
theorem Confined.envStep (h : Confined D c c') (hkeys : D.vaultKey ≠ D'.vaultKey)
    (hslot : c.slot < u64Size)
    (howner : ∀ t, c.tokens D'.vaultTokens = some t → ¬ t.owner.IsSigner) (pool : Bytes)
    (collection : Option BaseCollection) (v : Vault) :
    EnvStep D' 0 ⟨(c.setPool pool).setCollection collection, v⟩
      ⟨(c'.setPool pool).setCollection collection, v⟩ where
  slot := h.slot.ge
  slot_lt := h.slot.trans_lt hslot
  vault := rfl
  pool := rfl
  requests := fun k r hr => h.requests.eq_some_iff fun hv => hkeys (by
    rw [hr] at hv
    exact (Pubkey.raw.inj hv).symm)
  request_addresses := fun seq => h.requests_eq _ fun seq' heq =>
    hkeys (Pubkey.request.inj heq).1.symm
  randLocks := fun k l hl => h.randLocks.eq_some_iff fun hv => hkeys (by
    rw [hl] at hv
    exact (Pubkey.raw.inj hv).symm)
  randomness := fun k s hs => h.randomness.eq_some_iff fun hauth => hkeys (by
    rw [hs] at hauth
    exact (Pubkey.randomnessAuthority.inj hauth).symm)
  assets := by
    intro k hk
    have hsame : c'.assets k = c.assets k := by
      apply h.assets
      rintro i rfl
      rcases hk with ⟨j, hj⟩ | ⟨seq, hseq⟩
      · exact hkeys (Pubkey.asset.inj hj).1
      · exact Pubkey.noConfusion hseq
    show AssetMove D' (c.assets k) (c'.assets k)
    rw [hsame]
    exact .keep _
  accounts := fun k _ => congrFun h.accounts k
  collection := fun col hcol => ⟨col.currentSize, le_rfl, hcol⟩
  vaultTokens := by
    show c'.tokens D'.vaultTokens = (c.tokens D'.vaultTokens).map _
    have hne : D'.vaultTokens ≠ D.vaultTokens := fun heq =>
      hkeys (Pubkey.vaultTokens.inj heq).symm
    rw [h.tokens _ hne howner]
    simp
  escrows := fun seq => h.lamports _ (not_spends_of_ne hkeys seq)

end HybridVault
