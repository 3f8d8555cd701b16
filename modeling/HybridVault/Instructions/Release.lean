import HybridVault.Instructions.Request

/-!
# Releasing

`unwrap` takes an asset back and pays its tokens out.  It is free, never gated, and
reads nothing of the launch configuration but the two numbers it needs.  The asset
enters the incoming ring, stamped with the next request's number.

`merge_incoming` moves waiting entries into the pool ahead of a settle.
-/

namespace HybridVault

open Foundations

/-- `unwrap`, whatever the account of the launch configuration holds. -/
def handleUnwrapWith (D : Deployment) (launchConfig : RawAccount) (w : World)
    (user userToken : Pubkey) (index : ℕ) : Res (World × List PoolEvent) := do
  let v := w.vault
  constraint user.IsSigner .NotSigner
  let _ ← loadUserToken D w.toChain userToken user
  check (userToken ≠ D.vaultTokens) .AliasedTokenAccount
  let _ ← vaultTokensAmount D w.toChain
  let e ← exitView launchConfig
  check (index < e.collectionSize) .IndexOutOfRange
  let c ← takeBack D w.toChain (D.assetAddress index) user
  let c ← payOut D c userToken e.ratioBase
  let p ← loadPool D c
  let p ← p.incomingPush index v.nextSeq
  let c := c.setPool p.d
  let assetsOutside ← expect (checkedSub v.assetsOutside 1) (.vault .AssetAccountingBroken)
  let totalUnwraps ← expect (checkedAdd v.totalUnwraps 1) (.vault .MathOverflow)
  let v := { v with assetsOutside := assetsOutside, totalUnwraps := totalUnwraps }
  closingCheck D c v e.ratioBase e.collectionSize
  return ({ toChain := c, vault := v }, [.returned index])

/-- `unwrap`. -/
def handleUnwrap (D : Deployment) (w : World) (user userToken : Pubkey) (index : ℕ) :
    Res (World × List PoolEvent) :=
  handleUnwrapWith D D.launchConfigAccount w user userToken index

/-- `merge_incoming`. -/
def handleMergeIncoming (D : Deployment) (w : World) (max : ℕ) : Res (World × List PoolEvent) := do
  let p ← loadPool D w.toChain
  let (moved, p) ← p.merge w.vault.nextSettleSeq (min max 1024)
  return ({ w with toChain := w.toChain.setPool p.d }, [.merged moved])

/-! ## What they do -/

variable {D : Deployment}

/-- The vault record after a release. -/
def Vault.released (v : Vault) : Vault :=
  { v with assetsOutside := v.assetsOutside - 1, totalUnwraps := v.totalUnwraps + 1 }

/-- **What a release requires and does.** -/
structure UnwrapEffect (D : Deployment) (w w' : World) (user userToken : Pubkey) (index : ℕ)
    (s t : TokenAccount) (a : BaseAsset) (d : Bytes) : Prop where
  signer : user.IsSigner
  account : w.tokens userToken = some t
  account_mint : t.mint = D.mint
  account_owner : t.owner = user
  account_ne : userToken ≠ D.vaultTokens
  economics : 0 < D.ratio ∧ 0 < D.size ∧ D.size < u32Size
  index_lt : index < D.size
  asset : w.assets (D.assetAddress index) = .live a
  asset_owner : a.owner = user
  asset_collection : a.updateAuthority = .collection D.collection
  vaultTokens : w.tokens D.vaultTokens = some s
  vaultTokens_mint : s.mint = D.mint
  vaultTokens_owner : s.owner = D.vaultAuthority
  amount_le : D.ratio ≤ s.amount
  push : PoolView.incomingPush ⟨w.pool, D.size⟩ index w.vault.nextSeq = .ok ⟨d, D.size⟩
  assetsOutside_pos : 1 ≤ w.vault.assetsOutside
  totalUnwraps_lt : w.vault.totalUnwraps + 1 < u64Size
  closing : ClosingCheck w.vault.released D.ratio D.size d (s.amount - D.ratio)
  vault : w'.vault = w.vault.released
  toChain : w'.toChain = ((w.toChain.setAssets (Function.update w.assets (D.assetAddress index)
      (.live { a with owner := D.vaultAuthority }))).setTokens
    (moveTokens w.tokens D.vaultTokens userToken s t D.ratio)).setPool d

theorem moveTokens_source {tokens : Pubkey → Option TokenAccount} {source dest : Pubkey}
    {s d : TokenAccount} {amount : ℕ} (h : source ≠ dest) :
    moveTokens tokens source dest s d amount source
      = some { s with amount := s.amount - amount } := by
  simp [moveTokens, h]

theorem moveTokens_dest {tokens : Pubkey → Option TokenAccount} {source dest : Pubkey}
    {s d : TokenAccount} {amount : ℕ} :
    moveTokens tokens source dest s d amount dest
      = some { d with amount := d.amount + amount } := by
  simp [moveTokens]

/-- A push that returned keeps the buffer a pool of this vault. -/
theorem WellFormed.incomingPush_eq_ok {vault : Bytes32} {cap i tag : ℕ} {d : Bytes} {p : PoolView}
    (h : WellFormed vault cap d) (hi : i < cap) (htag : tag < u64Size)
    (hpush : PoolView.incomingPush ⟨d, cap⟩ i tag = .ok p) :
    ∃ d', p = ⟨d', cap⟩ ∧ WellFormed vault cap d' ∧
      poolAbs cap d' = { poolAbs cap d with incoming := incomingOf cap d ++ [(i, tag)] } := by
  have hparts := hpush
  simp only [PoolView.incomingPush, bind_eq_ok_iff, require_eq_ok_iff, h.total_eq,
    h.incomingLen_eq, Except.ok.injEq] at hparts
  obtain ⟨_, rfl, -, hroom, _, rfl, _, hback, -⟩ := hparts
  obtain ⟨d', hpush', hwf, habs⟩ := h.incomingPush_spec hi htag (by simpa using hroom)
    (h.le_of_checkBackTag hback)
  exact ⟨d', Except.ok.inj (hpush.symm.trans hpush'), hwf, habs⟩

theorem handleUnwrap_eq_ok_iff {w : World} (hwf : WellFormed D.vaultKey D.size w.pool)
    (hnext : w.vault.nextSeq < u64Size) {user userToken : Pubkey} {index : ℕ}
    {res : World × List PoolEvent} :
    handleUnwrap D w user userToken index = .ok res ↔
      res.2 = [.returned index] ∧
        ∃ s t a d, UnwrapEffect D w res.1 user userToken index s t a d := by
  simp only [handleUnwrap, handleUnwrapWith, exitView_launchConfigAccount, loadUserToken,
    bind_eq_ok_iff, require_eq_ok_iff, pure_eq_ok_iff, expect_eq_ok_iff, checkedAdd_eq_some_iff,
    checkedSub_eq_some_iff, takeBack_eq_ok_iff]
  constructor
  · rintro ⟨-, hsigner, _, ⟨t, ht, -, hmint, -, howner, rfl⟩, -, hne, -, -, e, hview, -, hindex, c₁,
      ⟨a, ha, haowner, hacol, h₁⟩, c₂, hpay, p, hload, q, hpush, _, ⟨hout, rfl⟩, _, ⟨htotal, rfl⟩,
      _, hclosing, rfl⟩
    obtain rfl := LaunchConfig.exitViewIn_eq_ok hview
    obtain ⟨s, t', hs, ht', hsmint, -, hsowner, hamount, h₂⟩ :=
      (tokenTransfer_eq_ok_iff (Ne.symm hne)).mp hpay
    -- the asset moved, and tokens and pool did not
    obtain rfl : t = t' := by
      rw [← h₁, Chain.setAssets_tokens, ht] at ht'
      exact Option.some.inj ht'
    have hload' : loadPool D c₂ = .ok ⟨w.pool, D.size⟩ := by
      rw [← h₂, ← h₁]
      exact hwf.load_eq
    obtain rfl : (⟨w.pool, D.size⟩ : PoolView) = p := by simpa [hload'] using hload
    obtain ⟨d, rfl, hwf', -⟩ := hwf.incomingPush_eq_ok hindex hnext hpush
    obtain ⟨s', hs', hcheck⟩ := hwf'.closingCheck_eq_ok hclosing rfl
    have hamt : s'.amount = s.amount - D.ratio := by
      rw [← h₂, Chain.setPool_tokens, Chain.setTokens_tokens,
        moveTokens_source (Ne.symm hne)] at hs'
      obtain rfl := Option.some.inj hs'
      rfl
    refine ⟨rfl, s, t, a, d, ?_⟩
    exact {
      signer := hsigner
      account := ht
      account_mint := hmint
      account_owner := howner
      account_ne := hne
      economics := LaunchConfig.exitViewIn_economics hview
      index_lt := hindex
      asset := ha
      asset_owner := haowner
      asset_collection := hacol
      vaultTokens := by simpa [← h₁] using hs
      vaultTokens_mint := hsmint
      vaultTokens_owner := hsowner
      amount_le := hamount
      push := hpush
      assetsOutside_pos := hout
      totalUnwraps_lt := htotal
      closing := hamt ▸ hcheck
      vault := rfl
      toChain := by rw [← h₂, ← h₁]; rfl }
  · obtain ⟨⟨c', v'⟩, es⟩ := res
    rintro ⟨rfl, s, t, a, d, h⟩
    obtain ⟨d', hd, hwf', -⟩ := hwf.incomingPush_eq_ok h.index_lt hnext h.push
    obtain ⟨rfl, -⟩ := PoolView.mk.inj hd
    refine ⟨(), h.signer, _, ⟨t, h.account, (), h.account_mint, (), h.account_owner, rfl⟩, (),
      h.account_ne, s.amount, ?_, ⟨D.ratio, D.size⟩, LaunchConfig.exitViewIn_accountData
        h.economics.1 h.economics.2.1 h.economics.2.2, (), h.index_lt, _,
      ⟨a, h.asset, h.asset_owner, h.asset_collection, rfl⟩, _,
      (tokenTransfer_eq_ok_iff (Ne.symm h.account_ne)).mpr ⟨s, t, h.vaultTokens, h.account,
        h.vaultTokens_mint, h.account_mint, h.vaultTokens_owner, h.amount_le, rfl⟩,
      _, hwf.load_eq, _, h.push, _, ⟨h.assetsOutside_pos, rfl⟩, _, ⟨h.totalUnwraps_lt, rfl⟩, (),
      hwf'.closingCheck_ok rfl (moveTokens_source (Ne.symm h.account_ne)) h.closing, ?_⟩
    · simp [vaultTokensAmount, h.vaultTokens]
    · have hchain := h.toChain
      have hvault := h.vault
      simp only at hchain hvault
      rw [hchain, hvault]
      rfl

theorem WellFormed.handleMergeIncoming_eq {w : World} (hwf : WellFormed D.vaultKey D.size w.pool)
    (max : ℕ) :
    ∃ k d, handleMergeIncoming D w max
        = .ok (⟨w.toChain.setPool d, w.vault⟩, [.merged k]) ∧
      k = min (min max 1024)
        ((incomingOf D.size w.pool).takeWhile fun e => e.2 ≤ w.vault.nextSettleSeq).length ∧
      PoolView.merge ⟨w.pool, D.size⟩ w.vault.nextSettleSeq (min max 1024)
        = .ok (k, ⟨d, D.size⟩) ∧
      WellFormed D.vaultKey D.size d ∧
      poolAbs D.size d = { poolAbs D.size w.pool with
        drawable := drawableOf w.pool ++ ((incomingOf D.size w.pool).take k).map Prod.fst
        incoming := (incomingOf D.size w.pool).drop k } := by
  obtain ⟨k, d, hmerge, hwf', hk, habs⟩ := hwf.merge_spec w.vault.nextSettleSeq (min max 1024)
  refine ⟨k, d, ?_, hk, hmerge, hwf', habs⟩
  simp only [handleMergeIncoming, loadPool, bind_eq_ok_iff, pure_eq_ok_iff]
  exact ⟨_, hwf.load_eq, _, hmerge, rfl⟩

end HybridVault
