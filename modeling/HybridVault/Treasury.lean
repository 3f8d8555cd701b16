import HybridVault.Reachability

/-!
# Exact solvency

The balance of `vault_tokens` is `ratio` for every asset that is out and every pending
request, and the donations on top, to the unit (`Treasury`).  Tokens come in on a
capture, go out on a release and on an expired capture, and do not move otherwise,
while the counters shift between each other.

That the product never overflows is not a matter of the counters alone: the units owed
are at most the size of the collection because every pending request has an index
reserved for it, and the launch configuration bounds the collection by the supply.
-/

namespace HybridVault

open Foundations

variable {D : Deployment} {w w' : World} {x : SequencedPool.State ℕ} {ls : List Label}

/-- The token account of the vault, with `donated` tokens above what is owed. -/
def Treasury (D : Deployment) (donated : ℕ) (w : World) : Prop :=
  w.tokens D.vaultTokens = some {
    mint := D.mint
    owner := D.vaultAuthority
    amount := D.ratio * w.vault.owedUnits + donated }

theorem Created.treasury (h : Created D w) : Treasury D 0 w := by
  obtain ⟨c, params, -, hinit⟩ := h.spec
  simp [Treasury, hinit.tokens, hinit.vault, initialVault, Vault.owedUnits]

/-- A user's token account is not the vault's. -/
theorem Treasury.ne_vaultTokens {donated : ℕ} (h : Treasury D donated w) {k user : Pubkey}
    {t : TokenAccount} (ht : w.tokens k = some t) (howner : t.owner = user)
    (huser : user.IsSigner) : k ≠ D.vaultTokens := by
  rintro rfl
  obtain rfl := Option.some.inj (h.symm.trans ht)
  exact ne_vaultAuthority_of_isSigner huser howner.symm

section Moves

variable {donated : ℕ} {k : Pubkey} {s t : TokenAccount}

/-- No token moves, and what is owed is as it was. -/
theorem Treasury.keep (h : Treasury D donated w) (htokens : w'.tokens = w.tokens)
    (hunits : w'.vault.owedUnits = w.vault.owedUnits) : Treasury D donated w' := by
  rw [Treasury, htokens, hunits]
  exact h

/-- One asset's tokens come in, and one unit more is owed. -/
theorem Treasury.receive (h : Treasury D donated w) (ht : w.tokens D.vaultTokens = some t)
    (htokens : w'.tokens = moveTokens w.tokens k D.vaultTokens s t D.ratio)
    (hunits : w'.vault.owedUnits = w.vault.owedUnits + 1) : Treasury D donated w' := by
  obtain rfl := Option.some.inj (h.symm.trans ht)
  have hsplit : D.ratio * w'.vault.owedUnits = D.ratio * w.vault.owedUnits + D.ratio := by
    rw [hunits]
    ring
  simp only [Treasury, htokens, moveTokens_dest, Option.some.injEq, TokenAccount.mk.injEq, true_and]
  omega

/-- One asset's tokens go out, and one unit less is owed. -/
theorem Treasury.pay (h : Treasury D donated w) (hne : k ≠ D.vaultTokens)
    (hs : w.tokens D.vaultTokens = some s)
    (htokens : w'.tokens = moveTokens w.tokens D.vaultTokens k s t D.ratio)
    (hunits : w.vault.owedUnits = w'.vault.owedUnits + 1) : Treasury D donated w' := by
  obtain rfl := Option.some.inj (h.symm.trans hs)
  have hsplit : D.ratio * w.vault.owedUnits = D.ratio * w'.vault.owedUnits + D.ratio := by
    rw [hunits]
    ring
  simp only [Treasury, htokens, moveTokens_source hne.symm, Option.some.injEq,
    TokenAccount.mk.injEq, true_and]
  omega

end Moves

/-- **Every effect keeps the vault exactly solvent.** -/
theorem Treasury.effect {donated : ℕ} (h : Treasury D donated w) (htracks : Tracks D w x)
    {act : Act} (heff : Effect D w act w') : Treasury D (donated + act.donated) w' := by
  cases heff with
  | @requested _ r oracle snap sol heff =>
      have hpay := heff.payment
      have hv := heff.vault
      cases hk : r.kind with
      | capture =>
          simp only [Payment, hk] at hpay
          obtain ⟨-, userToken, s, t, -, hs, ht, htokens⟩ := hpay
          refine h.receive ht htokens ?_
          rw [hv, hk]
          simp only [Vault.requested, Vault.owedUnits]
          omega
      | reroll =>
          -- the asset that was out is a pending request now
          simp only [Payment, hk] at hpay
          obtain ⟨htokens, -, hpos, -⟩ := hpay
          refine h.keep htokens ?_
          rw [hv, hk]
          simp only [Vault.requested, Vault.owedUnits]
          omega
  | @settled _ r mint candidates picked d c v heff =>
      -- the request that was pending is an asset that is out
      obtain ⟨-, htokens, -⟩ := heff.frame
      have hpos := heff.counters.pending_pos
      have hsame : v.owedUnits = w.vault.owedUnits := by
        rw [heff.record]
        rfl
      refine h.keep htokens ?_
      rw [← hsame, heff.vault]
      cases hk : r.kind <;>
        simp only [hk, Vault.pending, Vault.settled, Vault.owedUnits] at hpos ⊢ <;> omega
  | @expired _ r userToken c heff =>
      have hv := heff.vault
      have hpos := heff.counters.pending_pos
      cases hk : r.kind with
      | capture =>
          rw [hk] at hv hpos
          obtain ⟨t, ht, -, howner⟩ := heff.account
          obtain ⟨-, huser, -⟩ := htracks.tickets.own _ r heff.request (Or.inr ⟨_, rfl⟩)
          have hne := h.ne_vaultTokens ht howner huser
          obtain ⟨s, t', hs, -, -, htokens⟩ := heff.capture_tokens hk hne
          refine h.pay hne hs htokens ?_
          rw [hv]
          simp only [Vault.expired, Vault.owedUnits, Vault.pending] at hpos ⊢
          omega
      | reroll =>
          rw [hk] at hv hpos
          obtain ⟨htokens, -⟩ := heff.reroll hk
          refine h.keep htokens ?_
          rw [hv]
          simp only [Vault.expired, Vault.owedUnits, Vault.pending] at hpos ⊢
          omega
  | @released _ user userToken index s t a d heff =>
      have hpos := heff.assetsOutside_pos
      refine h.pay heff.account_ne heff.vaultTokens (by rw [heff.toChain]; rfl) ?_
      rw [heff.vault]
      simp only [Vault.released, Vault.owedUnits]
      omega
  | merged heff => exact h.keep (by rw [heff.toChain]; rfl) (by rw [heff.vault])
  | opened => exact h
  | randomnessCreated => exact h
  | revealed heff => exact h.keep (by rw [heff.toChain]; rfl) (by rw [heff.vault])
  | recommitted heff => exact h.keep (by rw [heff.toChain]; rfl) (by rw [heff.vault]; rfl)
  | environment henv =>
      rw [Treasury, henv.vaultTokens, h, henv.vault]
      simp [Act.donated, Nat.add_assoc]

/-- **The vault is exactly solvent in every reachable state.** -/
theorem History.treasury (h : History D ls w) : Treasury D (donations ls) w := by
  have key := h.invariant (P := fun acts w => Treasury D (acts.map Act.donated).sum w)
    (fun w hcreated => hcreated.treasury) (fun acts w x act w' htracks hp heff => by
      simpa using hp.effect htracks heff)
  rwa [sum_donated_acts] at key

/-- Assets out and pending requests never outnumber the collection. -/
theorem Tracks.owedUnits_le (h : Tracks D w x) : w.vault.owedUnits ≤ D.size := by
  have hle := h.invariant.outside_add_queue_le
  have hout := h.outside
  have hpending := h.pending
  rw [List.length_range] at hle
  rw [Vault.owedUnits]
  omega

/-- **Exact solvency.**  In every reachable state of a vault on an accepted launch
configuration, the balance of `vault_tokens` is `ratio` for every asset that is out
and every pending request, plus all donations; the units owed are at most the size of
the collection, so what is owed is at most the supply and `required_vault_tokens` does
not overflow. -/
theorem exact_solvency (hlaunch : D.launchConfig.Accepted) (h : History D ls w) :
    (∃ t, w.tokens D.vaultTokens = some t ∧ t.amount
        = D.ratio * (w.vault.assetsOutside + w.vault.pendingCaptures + w.vault.pendingRerolls)
          + donations ls) ∧
      w.vault.assetsOutside + w.vault.pendingCaptures + w.vault.pendingRerolls ≤ D.size ∧
      D.ratio * (w.vault.assetsOutside + w.vault.pendingCaptures + w.vault.pendingRerolls)
        ≤ D.launchConfig.totalSupplyBase.toNat ∧
      requiredVaultTokens w.vault D.ratio = .ok
        (D.ratio * (w.vault.assetsOutside + w.vault.pendingCaptures + w.vault.pendingRerolls)) := by
  obtain ⟨x, -, htracks⟩ := h.tracks
  have hunits : w.vault.owedUnits ≤ D.size := htracks.owedUnits_le
  have hsupply : D.ratio * w.vault.owedUnits ≤ D.launchConfig.totalSupplyBase.toNat :=
    (Nat.mul_le_mul_left _ hunits).trans hlaunch.ratio_mul_size_le
  have hsize : D.size < u64Size := D.launchConfig.collectionSize.toNat_lt
  have hlt : D.launchConfig.totalSupplyBase.toNat < u64Size :=
    D.launchConfig.totalSupplyBase.toNat_lt
  refine ⟨⟨_, h.treasury, rfl⟩, hunits, hsupply, ?_⟩
  exact requiredVaultTokens_eq_ok_iff.mpr ⟨by omega, by omega, rfl⟩

/-- After one capture request, the vault holds one asset's tokens. -/
theorem exact_solvency_small :
    ∃ ls w, History smallVault ls w ∧ w.vault.pendingCaptures = 1 ∧
      requiredVaultTokens w.vault smallVault.ratio = .ok (smallVault.ratio
        * (w.vault.assetsOutside + w.vault.pendingCaptures + w.vault.pendingRerolls)) := by
  obtain ⟨ls, w, h, hpending, -⟩ := exists_smallPending
  exact ⟨ls, w, h, smallPending_pendingCaptures hpending,
    (exact_solvency smallLaunch_accepted h).2.2.2⟩

end HybridVault
