import HybridVault.Escrow
import HybridVault.System

/-!
# What a user can be charged

Three instructions take something from the wallet that signs them: a capture takes tokens
from one account and lamports, a re-roll one asset and lamports, a release one asset
(`Instruction.charge`).  Nothing else takes anything from anyone: not an instruction of
another user's, not a crank, not the settling or expiring of the user's own requests.

* `Charged u b c c'` — from `c` to `c'`, the wallet `u` has lost `b` at most;
* `Consistent.charged` — what one instruction costs one wallet;
* `no_hidden_charges` — what a run of a system of vaults costs one wallet.

Lamports are those that the program moves.  What Switchboard and Core ask of the payer of a
new account, and the fees of transactions, are outside the model.
-/

namespace HybridVault

open Foundations

variable {D : Deployment} {c c' : Chain} {w w' : World} {x : SequencedPool.State ℕ} {u : Pubkey}

/-! ## Charges -/

/-- What somebody signs away: lamports, tokens of each account, and how often each asset. -/
structure Charge where
  lamports : ℕ
  tokens : Pubkey → ℕ
  assets : Pubkey → ℕ

instance : Zero Charge := ⟨⟨0, 0, 0⟩⟩

instance : Add Charge :=
  ⟨fun a b => ⟨a.lamports + b.lamports, a.tokens + b.tokens, a.assets + b.assets⟩⟩

/-- The lamports of a request: the rent of its two accounts, the fee, and the deposit for
a mint. -/
def Deployment.requestCost (D : Deployment) : ℕ :=
  D.minimumBalance requestSpace + D.minimumBalance randLockSpace
    + D.launchConfig.feeLamports.toNat + mintEscrowLamports

/-- What an instruction charges `u`, who pays only for what `u` has signed as its user. -/
def Instruction.charge (D : Deployment) (u : Pubkey) : Instruction → Charge
  | .requestCapture user userToken _ _ _ _ =>
      if user = u then ⟨D.requestCost, Pi.single userToken D.ratio, 0⟩ else 0
  | .requestReroll user _ _ _ index _ =>
      if user = u then ⟨D.requestCost, 0, Pi.single (D.assetAddress index) 1⟩ else 0
  | .unwrap user _ index => if user = u then ⟨0, 0, Pi.single (D.assetAddress index) 1⟩ else 0
  | _ => 0

/-- **From `c` to `c'`, the wallet `u` has lost `b` at most.**  Its token accounts stay its
own, and so do the assets that `b` does not name. -/
structure Charged (u : Pubkey) (b : Charge) (c c' : Chain) : Prop where
  lamports : c.lamports u ≤ c'.lamports u + b.lamports
  tokens : ∀ k t, c.tokens k = some t → t.owner = u → ∃ t', c'.tokens k = some t' ∧
    t'.mint = t.mint ∧ t'.owner = u ∧ t.amount ≤ t'.amount + b.tokens k
  assets : ∀ k a, c.assets k = .live a → a.owner = u → b.assets k = 0 → c'.assets k = .live a

namespace Charged

theorem of_eq (hlamports : c.lamports u ≤ c'.lamports u) (htokens : c'.tokens = c.tokens)
    (hassets : c'.assets = c.assets) : Charged u 0 c c' where
  lamports := hlamports
  tokens := fun k t ht howner => ⟨t, by rwa [htokens], rfl, howner, Nat.le_add_right _ _⟩
  assets := fun k a ha _ _ => by rwa [hassets]

theorem trans {c'' : Chain} {a b : Charge} (h : Charged u a c c') (h' : Charged u b c' c'') :
    Charged u (a + b) c c'' where
  lamports := by
    have hfirst := h.lamports
    have hsecond := h'.lamports
    show c.lamports u ≤ c''.lamports u + (a.lamports + b.lamports)
    omega
  tokens := by
    intro k t ht howner
    obtain ⟨t', ht', hmint', howner', hamount'⟩ := h.tokens k t ht howner
    obtain ⟨t'', ht'', hmint'', howner'', hamount''⟩ := h'.tokens k t' ht' howner'
    refine ⟨t'', ht'', hmint''.trans hmint', howner'', ?_⟩
    show t.amount ≤ t''.amount + (a.tokens k + b.tokens k)
    omega
  assets := by
    intro k s hs howner hzero
    obtain ⟨ha, hb⟩ : a.assets k = 0 ∧ b.assets k = 0 := Nat.add_eq_zero_iff.mp hzero
    exact h'.assets k s (h.assets k s hs howner ha) howner hb

end Charged

/-! ## Moving lamports, tokens and assets -/

/-- A transfer takes from its source only. -/
theorem moveTokens_spec {tokens : Pubkey → Option TokenAccount} {source dest k : Pubkey}
    {s d t : TokenAccount} (amount : ℕ) (hne : source ≠ dest) (hs : tokens source = some s)
    (hd : tokens dest = some d) (ht : tokens k = some t) :
    ∃ t', moveTokens tokens source dest s d amount k = some t' ∧ t'.mint = t.mint ∧
      t'.owner = t.owner ∧ (k ≠ source → t.amount ≤ t'.amount) ∧ t.amount ≤ t'.amount + amount := by
  by_cases hks : k = source
  · subst hks
    obtain rfl := Option.some.inj (hs.symm.trans ht)
    refine ⟨_, moveTokens_source hne, rfl, rfl, fun h => absurd rfl h, ?_⟩
    show s.amount ≤ s.amount - amount + amount
    omega
  · by_cases hkd : k = dest
    · subst hkd
      obtain rfl := Option.some.inj (hd.symm.trans ht)
      exact ⟨_, moveTokens_dest, rfl, rfl, fun _ => Nat.le_add_right _ _,
        Nat.le_add_right_of_le (Nat.le_add_right _ _)⟩
    · exact ⟨t, by rw [moveTokens_of_ne hks hkd, ht], rfl, rfl, fun _ => le_rfl,
        Nat.le_add_right _ _⟩

/-- What changes hands without being `u`'s. -/
theorem update_live_of_owner_ne {assets : Pubkey → AssetAccount} {k k' : Pubkey} {a b : BaseAsset}
    (ha : assets k = .live a) (howner : a.owner = u)
    (hk' : ∀ a', assets k' = .live a' → a'.owner ≠ u) :
    Function.update assets k' (.live b) k = .live a := by
  rw [Function.update_of_ne, ha]
  rintro rfl
  exact hk' a ha howner

/-- What a request takes from its user's wallet, and from no other. -/
theorem requestLamports_spec (l : Pubkey → ℕ) (seq : ℕ) (user randomness k : Pubkey) :
    l k ≤ requestLamports D l seq user randomness D.launchConfig.feeLamports.toNat k
        + D.requestCost ∧
      (k ≠ user → l k ≤ requestLamports D l seq user randomness
        D.launchConfig.feeLamports.toNat k) := by
  unfold requestLamports Deployment.requestCost
  generalize h₁ : moveAmount l user (D.requestAddress seq) _ = l₁
  generalize h₂ : moveAmount l₁ user (.randLock randomness) _ = l₂
  generalize h₃ : moveAmount l₂ user platformFeeRecipient _ = l₃
  constructor
  · have hrequest := le_moveAmount_add l user (D.requestAddress seq) k
      (D.minimumBalance requestSpace - l (D.requestAddress seq))
    have hlock := le_moveAmount_add l₁ user (.randLock randomness) k
      (D.minimumBalance randLockSpace - l₁ (.randLock randomness))
    have hfee := le_moveAmount_add l₂ user platformFeeRecipient k
      D.launchConfig.feeLamports.toNat
    have hescrow := le_moveAmount_add l₃ user (D.mintEscrowAddress seq) k mintEscrowLamports
    rw [h₁] at hrequest
    rw [h₂] at hlock
    rw [h₃] at hfee
    omega
  · intro hk
    have hrequest : l k ≤ l₁ k := h₁ ▸ le_moveAmount hk
    have hlock : l₁ k ≤ l₂ k := h₂ ▸ le_moveAmount hk
    have hfee : l₂ k ≤ l₃ k := h₃ ▸ le_moveAmount hk
    exact hrequest.trans <| hlock.trans <| hfee.trans (le_moveAmount hk)

/-! ## What the handlers charge -/

theorem Econ.requestFee_eq {e : Econ} {sol : ℕ} (h : e.requestFee = .ok sol) :
    sol = e.storedFeeLamports := by
  simp only [Econ.requestFee, HybridVault.requestFee, bind_eq_ok_iff, require_eq_ok_iff,
    pure_eq_ok_iff] at h
  obtain ⟨-, -, rfl⟩ := h
  rfl

/-- The steps that both requests share take lamports from the user's wallet, and leave
the payment in tokens or assets as it is. -/
theorem requestPayment_of_steps {c₁ c₃ c₄ c₅ c₆ : Chain} {v : Vault} {e : Econ} {sol seed : ℕ}
    {kind : RequestKind} {user randomness queue oracle : Pubkey} {index : ℕ}
    {proofs : List Pubkey} (tokens : Pubkey → Option TokenAccount) (assets : Pubkey → AssetAccount)
    (hinit : initRequestAccounts D w.toChain w.vault.nextSeq user randomness = .ok c₁)
    (hecon : econ D.launchConfig = .ok e) (hfee : e.requestFee = .ok sol)
    (hsol : solFee ((c₁.setTokens tokens).setAssets assets) user platformFeeRecipient sol = .ok c₃)
    (hescrow : escrowMintCost D c₃ user (D.mintEscrowAddress w.vault.nextSeq) = .ok c₄)
    (hcommit : commitForRequest D c₄ w.vault.sbQueue randomness queue oracle w.vault.nextSeq []
      proofs = .ok (seed, c₅))
    (hfinish : finishRequest D c₅ w.vault kind user randomness seed index oracle sol
      = .ok (c₆, v)) :
    c₆.tokens = tokens ∧ c₆.assets = assets ∧ c₆.lamports = requestLamports D w.lamports
      w.vault.nextSeq user randomness D.launchConfig.feeLamports.toNat := by
  obtain ⟨-, -, hstored, -, -⟩ := econ_eq_ok hecon
  obtain rfl := (Econ.requestFee_eq hfee).trans hstored
  obtain ⟨-, -, l, h₁, hl⟩ := initRequestAccounts_eq_ok hinit
  have h₃ := solFee_eq_ok hsol
  obtain ⟨-, -, h₄⟩ := escrowMintCost_eq_ok hescrow
  obtain ⟨-, snap, -, -, -, -, hc⟩ := commitForRequest_eq_ok_iff.mp hcommit
  obtain ⟨hseed, h₅⟩ := Prod.mk.inj hc
  obtain ⟨-, -, hf⟩ := finishRequest_eq_ok hfinish (by simp [← h₅, h₄, h₃, h₁])
    (by simp [← hseed, h₄, h₃, h₁])
  obtain ⟨h₆, -⟩ := Prod.mk.inj hf
  refine ⟨?_, ?_, ?_⟩
  · simp [h₆, ← h₅, h₄, h₃, h₁]
  · simp [h₆, ← h₅, h₄, h₃, h₁]
  · simp [h₆, ← h₅, h₄, h₃, h₁, requestLamports, hl]

theorem handleRequestCapture_charged {user userToken randomness queue oracle : Pubkey}
    {proofs : List Pubkey} {res : World × List PoolEvent}
    (h : handleRequestCapture D w user userToken randomness queue oracle proofs = .ok res) :
    Charged u ((Instruction.requestCapture user userToken randomness queue oracle proofs).charge
      D u) w.toChain res.1.toChain := by
  simp only [handleRequestCapture, bind_eq_ok_iff, require_eq_ok_iff, pure_eq_ok_iff] at h
  obtain ⟨-, -, -, -, -, halias, -, -, c₁, hinit, e, hecon, -, -, -, -, sol, hfee, c₂, hpays, c₃,
    hsol, c₄, hescrow, ⟨seed, c₅⟩, hcommit, ⟨c₆, v⟩, hfinish, -, -, rfl⟩ := h
  obtain ⟨hratio, -, -, -, hpos⟩ := econ_eq_ok hecon
  obtain ⟨-, -, l, h₁, -⟩ := initRequestAccounts_eq_ok hinit
  -- the user's signature is good for the user's token accounts only
  rw [userPays, if_neg (by omega), tokenTransfer_eq_ok_iff halias] at hpays
  obtain ⟨s, d, hs, hd, -, -, howner, -, rfl⟩ := hpays
  obtain ⟨htokens, hassets, hlamports⟩ := requestPayment_of_steps
    (moveTokens c₁.tokens userToken D.vaultTokens s d e.ratioBase) c₁.assets hinit hecon hfee hsol
    hescrow hcommit hfinish
  simp only [h₁, Chain.setLamports_tokens, Chain.setLamports_assets] at hs hd htokens hassets
  obtain ⟨hcost, hfree⟩ :=
    requestLamports_spec (D := D) w.lamports w.vault.nextSeq user randomness u
  rw [← hlamports] at hcost hfree
  by_cases huser : user = u
  · rw [Instruction.charge, if_pos huser]
    refine ⟨hcost, ?_, fun k a ha _ _ => by rwa [hassets]⟩
    intro k t ht htu
    obtain ⟨t', ht', hmint, howner', hkeep, hless⟩ := moveTokens_spec e.ratioBase halias hs hd ht
    refine ⟨t', by rw [htokens, ht'], hmint, howner'.trans htu, ?_⟩
    by_cases hk : k = userToken
    · subst hk
      show t.amount ≤ t'.amount + (Pi.single k D.ratio : Pubkey → ℕ) k
      rw [Pi.single_eq_same, ← hratio]
      exact hless
    · exact (hkeep hk).trans (Nat.le_add_right _ _)
  · rw [Instruction.charge, if_neg huser]
    refine ⟨hfree (Ne.symm huser), ?_, fun k a ha _ _ => by rwa [hassets]⟩
    intro k t ht htu
    obtain ⟨t', ht', hmint, howner', hkeep, -⟩ := moveTokens_spec e.ratioBase halias hs hd ht
    refine ⟨t', by rw [htokens, ht'], hmint, howner'.trans htu, hkeep ?_⟩
    rintro rfl
    obtain rfl := Option.some.inj (hs.symm.trans ht)
    exact huser (howner.symm.trans htu)

theorem handleRequestReroll_charged {user randomness queue oracle : Pubkey} {index : ℕ}
    {proofs : List Pubkey} {res : World × List PoolEvent}
    (h : handleRequestReroll D w user randomness queue oracle index proofs = .ok res) :
    Charged u ((Instruction.requestReroll user randomness queue oracle index proofs).charge D u)
      w.toChain res.1.toChain := by
  simp only [handleRequestReroll, bind_eq_ok_iff, require_eq_ok_iff, pure_eq_ok_iff] at h
  obtain ⟨-, -, -, -, c₁, hinit, e, hecon, -, -, -, -, -, -, sol, hfee, c₂, htake, c₃, hsol, c₄,
    hescrow, ⟨seed, c₅⟩, hcommit, ⟨c₆, v⟩, hfinish, -, -, rfl⟩ := h
  obtain ⟨-, -, l, h₁, -⟩ := initRequestAccounts_eq_ok hinit
  obtain ⟨a, ha, howner, -, rfl⟩ := takeBack_eq_ok_iff.mp htake
  obtain ⟨htokens, hassets, hlamports⟩ := requestPayment_of_steps c₁.tokens
    (Function.update c₁.assets (D.assetAddress index) (.live { a with owner := D.vaultAuthority }))
    hinit hecon hfee hsol hescrow hcommit hfinish
  simp only [h₁, Chain.setLamports_tokens, Chain.setLamports_assets] at ha htokens hassets
  obtain ⟨hcost, hfree⟩ :=
    requestLamports_spec (D := D) w.lamports w.vault.nextSeq user randomness u
  rw [← hlamports] at hcost hfree
  have hkeep : ∀ k t, w.tokens k = some t → t.owner = u → ∃ t', c₆.tokens k = some t' ∧
      t'.mint = t.mint ∧ t'.owner = u ∧ t.amount ≤ t'.amount + 0 :=
    fun k t ht htu => ⟨t, by rwa [htokens], rfl, htu, le_rfl⟩
  by_cases huser : user = u
  · rw [Instruction.charge, if_pos huser]
    refine ⟨hcost, hkeep, ?_⟩
    intro k b hb hbu hzero
    rw [hassets, Function.update_of_ne, hb]
    rintro rfl
    simp at hzero
  · rw [Instruction.charge, if_neg huser]
    refine ⟨hfree (Ne.symm huser), hkeep, ?_⟩
    intro k b hb hbu _
    rw [hassets]
    refine update_live_of_owner_ne hb hbu ?_
    rintro a' ha' hau
    rw [ha] at ha'
    cases ha'
    exact huser (howner.symm.trans hau)

/-- A release gives its user tokens for an asset. -/
theorem UnwrapEffect.charged {user userToken : Pubkey} {index : ℕ} {s t : TokenAccount}
    {a : BaseAsset} {d : Bytes} (h : UnwrapEffect D w w' user userToken index s t a d)
    (hu : u.IsSigner) :
    Charged u ((Instruction.unwrap user userToken index).charge D u) w.toChain w'.toChain := by
  have hassets : w'.assets = Function.update w.assets (D.assetAddress index)
      (.live { a with owner := D.vaultAuthority }) := by
    rw [h.toChain]
    rfl
  have hlamports : w.lamports u ≤ w'.lamports u := by
    rw [h.toChain]
    exact le_rfl
  have htokens : ∀ k t, w.tokens k = some t → t.owner = u → ∃ t', w'.tokens k = some t' ∧
      t'.mint = t.mint ∧ t'.owner = u ∧ t.amount ≤ t'.amount + 0 := by
    intro k t' ht' htu
    obtain ⟨t'', ht'', hmint, howner, hkeep, -⟩ :=
      moveTokens_spec D.ratio h.account_ne.symm h.vaultTokens h.account ht'
    refine ⟨t'', by rw [h.toChain]; exact ht'', hmint, howner.trans htu, hkeep ?_⟩
    rintro rfl
    obtain rfl := Option.some.inj (h.vaultTokens.symm.trans ht')
    rw [← htu, h.vaultTokens_owner] at hu
    exact hu
  by_cases huser : user = u
  · rw [Instruction.charge, if_pos huser]
    refine ⟨hlamports, htokens, ?_⟩
    intro k b hb hbu hzero
    rw [hassets, Function.update_of_ne, hb]
    rintro rfl
    simp at hzero
  · rw [Instruction.charge, if_neg huser]
    refine ⟨hlamports, htokens, ?_⟩
    intro k b hb hbu _
    rw [hassets]
    refine update_live_of_owner_ne hb hbu ?_
    intro a' ha' hau
    rw [h.asset] at ha'
    cases ha'
    exact huser (h.asset_owner.symm.trans hau)

theorem Refunded.le {refunds : List Refund} (h : Refunded D w refunds w') (hu : u.IsSigner) :
    w.lamports u ≤ w'.lamports u :=
  h.wallet u hu ▸ Nat.le_add_right _ _

/-- **A settle takes nothing from anyone.** -/
theorem SettleEffect.charged {r : Request} {mint : Option MintArgs} {candidates : List ℕ}
    {picked : ℕ} {d : Bytes} {v : Vault} (h : SettleEffect D w w' r mint candidates picked d c v)
    (hx : Consistent D w x) (hu : u.IsSigner) : Charged u 0 w.toChain w'.toChain where
  lamports := by
    obtain ⟨-, hsigner, -⟩ := hx.tickets.own _ r h.request (Or.inr ⟨_, rfl⟩)
    rcases h.refunded hsigner with ⟨-, hrefunded⟩ | ⟨-, a, -, hrefunded⟩
    · exact hrefunded.le hu
    · exact hrefunded.le hu
  tokens := fun k t ht htu => ⟨t, by rwa [h.frame.2.1], rfl, htu, le_rfl⟩
  assets := by
    intro k b hb hbu _
    obtain ⟨a, -, -, hassets⟩ := h.assets_eq
    rw [hassets]
    refine update_live_of_owner_ne hb hbu ?_
    -- what is picked is the vault's, or not there yet
    intro a' ha' hau
    cases h.handover with
    | delivered _ ha howner =>
        obtain rfl := AssetAccount.live.inj (ha.symm.trans ha')
        rw [← hau, howner] at hu
        exact hu
    | minted _ _ _ _ hasset => exact absurd (hasset.2.symm.trans ha') (by simp)

/-- **An expiry takes nothing from anyone.** -/
theorem ExpireEffect.charged {r : Request} {userToken : Pubkey}
    (h : ExpireEffect D w w' r userToken c) (hx : Consistent D w x) (hu : u.IsSigner) :
    Charged u 0 w.toChain w'.toChain := by
  obtain ⟨-, hsigner, -⟩ := hx.tickets.own _ r h.request (Or.inr ⟨_, rfl⟩)
  obtain ⟨donated, htreasury⟩ := hx.treasury
  have hlamports := (h.refunded hsigner).le hu
  cases hk : r.kind with
  | capture =>
      have hassets := h.capture_assets hk
      refine ⟨hlamports, ?_, fun k a ha _ _ => by rwa [hassets]⟩
      intro k t ht htu
      by_cases halias : userToken = D.vaultTokens
      · exact ⟨t, by rwa [h.capture_tokens_self hk halias], rfl, htu, le_rfl⟩
      · obtain ⟨s, d, hs, hd, -, htokens⟩ := h.capture_tokens hk halias
        obtain ⟨t', ht', hmint, howner, hkeep, -⟩ :=
          moveTokens_spec D.ratio (Ne.symm halias) hs hd ht
        exact ⟨t', by rw [htokens, ht'], hmint, howner.trans htu,
          hkeep (htreasury.ne_vaultTokens ht htu hu)⟩
  | reroll =>
      obtain ⟨htokens, a, ha, howner, -, hassets⟩ := h.reroll hk
      refine ⟨hlamports, fun k t ht htu => ⟨t, by rwa [htokens], rfl, htu, le_rfl⟩, ?_⟩
      intro k b hb hbu _
      rw [hassets]
      refine update_live_of_owner_ne hb hbu ?_
      intro a' ha' hau
      obtain rfl := AssetAccount.live.inj (ha.symm.trans ha')
      rw [← hau, howner] at hu
      exact hu

/-- A batch takes nothing, as each of its expiries does not. -/
theorem Consistent.expiries_charged {es : List PoolEvent} (hx : Consistent D w x)
    (hu : u.IsSigner) (hrun : Run (ExpireStep D) w es w') :
    Charged u 0 w.toChain w'.toChain := by
  induction hrun generalizing x with
  | nil w => exact .of_eq le_rfl rfl rfl
  | cons hstep _ ih =>
      obtain ⟨r, userToken, c, heff, -⟩ := hstep
      obtain ⟨y, -, hy⟩ := hx.effect (.expired heff)
      exact (heff.charged hx hu).trans (ih hy)

/-! ## One step -/

/-- **What an instruction of a reachable vault costs a wallet.** -/
theorem Consistent.charged (hx : Consistent D w x) (hu : u.IsSigner) {ix : Instruction}
    {es : List PoolEvent} (h : perform D w ix = .ok (w', es)) :
    Charged u (ix.charge D u) w.toChain w'.toChain := by
  cases ix with
  | initRandomness randomness =>
      obtain ⟨-, -, hres⟩ := handleInitRandomness_eq_ok_iff.mp h
      obtain ⟨rfl, -⟩ := Prod.mk.inj hres
      exact .of_eq le_rfl rfl rfl
  | openVault caller graduationProof =>
      obtain ⟨-, hres⟩ := handleOpenVault_eq_ok h
      obtain ⟨rfl, -⟩ := Prod.mk.inj hres
      exact .of_eq le_rfl rfl rfl
  | requestCapture user userToken randomness queue oracle staleProofs =>
      exact handleRequestCapture_charged h
  | requestReroll user randomness queue oracle index staleProofs =>
      exact handleRequestReroll_charged h
  | revealRandomness request randomness value =>
      obtain ⟨-, r, snap, -, -, heff⟩ := handleRevealRandomness_eq_ok_iff.mp h
      rw [heff.toChain]
      exact .of_eq le_rfl rfl rfl
  | recommitRandomness request randomness queue oracle staleProofs =>
      obtain ⟨-, r, snap, -, -, heff⟩ := handleRecommitRandomness_eq_ok_iff.mp h
      rw [heff.toChain]
      exact .of_eq le_rfl rfl rfl
  | settleCapture settler request randomness asset user mint =>
      obtain ⟨r, candidates, picked, d, c, v, -, -, -, heff⟩ := handleSettle_eq_ok hx.pool h
      exact heff.charged hx hu
  | settleReroll settler request randomness asset user mint =>
      obtain ⟨r, candidates, picked, d, c, v, -, -, -, heff⟩ := handleSettle_eq_ok hx.pool h
      exact heff.charged hx hu
  | unwrap user userToken index =>
      obtain ⟨-, s, t, a, d, heff⟩ := (handleUnwrap_eq_ok_iff hx.pool hx.nextSeq_lt).mp h
      exact heff.charged hu
  | expireRequest caller request randomness user userToken asset =>
      obtain ⟨r, c, heff, -⟩ := handleExpire_eq_ok hx.pool h
      exact heff.charged hx hu
  | expireRequests caller remaining count =>
      obtain ⟨hrun, -⟩ := handleExpireBatch_eq_ok hx.pool h
      exact hx.expiries_charged hu hrun
  | mergeIncoming max =>
      obtain ⟨k, d, hmerge, -⟩ := hx.pool.handleMergeIncoming_eq (w := w) max
      obtain ⟨rfl, -⟩ := Prod.mk.inj (Except.ok.inj (h.symm.trans hmerge))
      exact .of_eq le_rfl rfl rfl

/-- The creation of a vault costs nobody but its creator. -/
theorem handleInitVault_charged {creator : Pubkey} {params : InitVaultParams}
    (hfresh : Untouched D c) (h : handleInitVault D c creator params = .ok w) (hu : u.IsSigner)
    (hcreator : u ≠ .raw D.launchConfig.creator) : Charged u 0 c w.toChain where
  lamports := by
    rw [← (handleInitVault_creator h).2] at hcreator
    refine handleInitVault_lamports h hcreator ?_
    rintro rfl
    exact hu
  tokens := by
    intro k t ht htu
    have heff := handleInitVault_eq_ok hfresh.fresh.pool h
    have hne : k ≠ D.vaultTokens := by
      rintro rfl
      rw [hfresh.tokens] at ht
      cases ht
    exact ⟨t, by rw [heff.tokens, Function.update_of_ne hne, ht], rfl, htu, le_rfl⟩
  assets := fun k a ha _ _ => by rwa [(handleInitVault_eq_ok hfresh.fresh.pool h).assets_eq]

/-! ## Runs of a system -/

section Runs

variable {ι : Type} [DecidableEq ι] {D : ι → Deployment} {s₀ s s' : System ι}
  {ls ls' : List (SystemLabel ι)} {l : SystemLabel ι}

/-- What a step of a system charges `u`, a creation apart. -/
def SystemLabel.charge (D : ι → Deployment) (u : Pubkey) : SystemLabel ι → Charge
  | .instruction i ix _ => ix.charge (D i) u
  | _ => 0

/-- A step in which nothing outside the program takes anything from `u`. -/
def Dealings (D : ι → Deployment) (u : Pubkey) (s : System ι) (l : SystemLabel ι)
    (s' : System ι) : Prop :=
  SystemStep D s l s' ∧ ∀ donated, l = .environment donated → Charged u 0 s.shared s'.shared

theorem Dealings.charged (hlives : ∀ i, Lives (D i) i ls s) (h : Dealings D u s l s')
    (hu : u.IsSigner) (hcreator : ∀ i, l = .create i → u ≠ .raw (D i).launchConfig.creator) :
    Charged u (l.charge D u) s.shared s'.shared := by
  obtain ⟨hstep, henv⟩ := h
  cases hstep with
  | @create _ i creator params hcreate =>
      simp only [System.create, bind_eq_ok_iff, require_eq_ok_iff, pure_eq_ok_iff] at hcreate
      obtain ⟨-, hnew, w, hinit, rfl⟩ := hcreate
      obtain ⟨-, huntouched⟩ := (hlives i).untouched hnew
      have hcharged := handleInitVault_charged huntouched hinit hu (hcreator i rfl)
      exact ⟨hcharged.lamports, hcharged.tokens, hcharged.assets⟩
  | @instruction _ i ix events hperform =>
      simp only [System.perform, bind_eq_ok_iff, expect_eq_ok_iff, pure_eq_ok_iff,
        Prod.mk.injEq] at hperform
      obtain ⟨v, hv, ⟨w, es⟩, hperform, rfl, rfl⟩ := hperform
      obtain ⟨_, _, -, -, hhistory⟩ := (hlives i).history v hv
      obtain ⟨x, -, hx⟩ := hhistory.consistent
      have hcharged := hx.charged hu hperform
      exact ⟨hcharged.lamports, hcharged.tokens, hcharged.assets⟩
  | environment => exact henv _ rfl

/-- **There are no hidden charges.**  In every run of a system of vaults, from every
reachable state, a wallet that creates none of them loses at most what its own captures,
re-rolls and releases say: for each request its lamports, for each capture the tokens of one
asset from the account it names, and the assets that it hands in or releases itself. -/
theorem no_hidden_charges (hkeys : Function.Injective fun i => (D i).vaultKey)
    (hblank : Blank D s₀) (hrun : Run (SystemStep D) s₀ ls s) (hu : u.IsSigner)
    (hdealings : Run (Dealings D u) s ls' s')
    (hcreator : ∀ i, .create i ∈ ls' → u ≠ .raw (D i).launchConfig.creator) :
    Charged u (ls'.map (SystemLabel.charge D u)).sum s.shared s'.shared := by
  induction hdealings generalizing ls with
  | nil s => exact .of_eq le_rfl rfl rfl
  | cons hstep _ ih =>
      rw [List.map_cons, List.sum_cons]
      have hfirst := hstep.charged (hblank.lives hkeys hrun) hu fun i hi =>
        hcreator i (hi ▸ List.mem_cons_self ..)
      exact hfirst.trans (ih (hrun.snoc hstep.1) fun i hi =>
        hcreator i (List.mem_cons_of_mem _ hi))

/-- The two captures of one user. -/
theorem no_hidden_charges_two :
    ∃ (ls : List (SystemLabel Bool)) (s : System Bool),
      Run (SystemStep twoVaults) twoVaultsStart ls s ∧
      twoVaultsPending s true smallRandomness = true ∧
      Charged smallUser (ls.map (SystemLabel.charge twoVaults smallUser)).sum
        twoVaultsStart.shared s.shared := by
  obtain ⟨ls, s, hrun, hlabels, hpending, -⟩ := exists_twoVaultsStory
  refine ⟨ls, s, hrun, hpending, no_hidden_charges twoVaults_injective twoVaultsStart_blank (.nil _)
    trivial (hrun.restrict hlabels |>.weaken ?_) ?_⟩
  · intro s l s' hstep
    exact ⟨hstep.1, fun donated heq => absurd heq (hstep.2 donated)⟩
  · intro i _
    cases i <;> decide

end Runs

end HybridVault
