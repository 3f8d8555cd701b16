import HybridVault.Bookkeeping
import HybridVault.Partition

/-!
# The exit

Release is never blocked: whoever owns an index that is out can hand its asset back and
is paid, in every reachable state.  The handler can fail in four places, and each is
excluded by another invariant:

* the ring has room, since an index that is out is in none of the other places, and the
  stamp of a push never falls behind (`Consistent.incomingPush`);
* the balance covers the payment (`Treasury`);
* the counters move within range (`Tallies`);
* the closing check passes again (`Consistent.releasedCheck`).
-/

namespace HybridVault

open Foundations

variable {D : Deployment} {w w' : World} {x : SequencedPool.State ℕ} {ls : List Label} {i : ℕ}

namespace Consistent

/-- An index that is out fits the ring. -/
theorem incomingPush (h : Consistent D w x) (hi : i ∈ x.outside) :
    ∃ d, PoolView.incomingPush ⟨w.pool, D.size⟩ i w.vault.nextSeq = .ok ⟨d, D.size⟩ ∧
      WellFormed D.vaultKey D.size d ∧ poolAbs D.size d = { poolAbs D.size w.pool with
        incoming := incomingOf D.size w.pool ++ [(i, w.vault.nextSeq)] } := by
  have hlen := h.length_eq
  have hpos := List.length_pos_of_mem hi
  refine h.pool.incomingPush_spec (h.outside_lt hi) h.nextSeq_lt ?_ ?_
  · rw [h.drawable, h.incoming]
    omega
  · rw [h.incoming, h.next]
    exact h.invariant.stamped.le_next

/-- The closing check passes after a release. -/
theorem releasedCheck (h : Consistent D w x) (hi : i ∈ x.outside) {s : TokenAccount} {d : Bytes}
    (hs : w.tokens D.vaultTokens = some s)
    (habs : poolAbs D.size d = { poolAbs D.size w.pool with
      incoming := incomingOf D.size w.pool ++ [(i, w.vault.nextSeq)] }) :
    D.ratio ≤ s.amount ∧ ClosingCheck w.vault.released D.ratio D.size d (s.amount - D.ratio) := by
  obtain ⟨s', hs', -, -, hcheck⟩ := h.closingCheck
  obtain rfl := Option.some.inj (hs.symm.trans hs')
  have hpos := List.length_pos_of_mem hi
  have hout := h.outside
  have hunits : w.vault.owedUnits = w.vault.released.owedUnits + 1 := by
    simp only [Vault.released, Vault.owedUnits]
    omega
  have hsplit : D.ratio * w.vault.owedUnits = D.ratio * w.vault.released.owedUnits + D.ratio := by
    rw [hunits]
    ring
  have hdrawable := congrArg (fun P => P.drawable.length) habs
  have hincoming := congrArg (fun P => P.incoming.length) habs
  simp only [poolAbs, length_drawableOf, length_incomingOf, List.length_append,
    List.length_singleton] at hdrawable hincoming
  obtain ⟨hunits_lt, htokens_lt, hsolvent, haccounted, hminted, hheld⟩ := hcheck
  refine ⟨by omega, ?_⟩
  exact {
    units_lt := by omega
    tokens_lt := by omega
    solvent := by omega
    accounted := by
      simp only [Vault.released]
      omega
    minted_le := hminted
    held_le := by
      simp only [Vault.released]
      omega }

/-- **A release of an index that is out has what it requires.** -/
theorem unwrapEffect (h : Consistent D w x) (hi : i ∈ x.outside) {a : BaseAsset}
    (ha : w.assets (D.assetAddress i) = .live a) (huser : a.owner.IsSigner) {userToken : Pubkey}
    {t : TokenAccount} (ht : w.tokens userToken = some t) (hmint : t.mint = D.mint)
    (howner : t.owner = a.owner) :
    ∃ w' s d, UnwrapEffect D w w' a.owner userToken i s t a d ∧
      poolAbs D.size d = { poolAbs D.size w.pool with
        incoming := incomingOf D.size w.pool ++ [(i, w.vault.nextSeq)] } := by
  obtain ⟨d, hpush, hwf, habs⟩ := h.incomingPush hi
  obtain ⟨s, hs, hsmint, hsowner, -⟩ := h.closingCheck
  obtain ⟨hamount, hclosing⟩ := h.releasedCheck hi hs habs
  obtain ⟨donated, htreasury⟩ := h.treasury
  have hpos := List.length_pos_of_mem hi
  have hout := h.outside
  have hlt := h.outside_lt hi
  refine ⟨⟨_, _⟩, s, d, {
    signer := huser
    account := ht
    account_mint := hmint
    account_owner := howner
    account_ne := htreasury.ne_vaultTokens ht howner huser
    economics := h.economics
    index_lt := hlt
    asset := ha
    asset_owner := rfl
    asset_collection := h.custody.collection i hlt a ha
    vaultTokens := hs
    vaultTokens_mint := hsmint
    vaultTokens_owner := hsowner
    amount_le := hamount
    push := hpush
    assetsOutside_pos := by omega
    totalUnwraps_lt := by
      -- what is out was drawn by a capture, and every capture has a number of its own
      have hresolved := h.tallies.resolved
      have hcirculating := h.tallies.circulating
      have hhead := h.head
      have hnext := h.next
      have hle := x.head_le_next
      have hseq := h.nextSeq_lt
      omega
    closing := hclosing
    vault := rfl
    toChain := rfl }, habs⟩

end Consistent

/-- **Release is never blocked.**  In every reachable state, if index `i` is released to
users and its asset is owned by `u`, an unwrap by `u` with a token account of `u`
succeeds: it pays exactly `ratio` tokens out of `vault_tokens`, appends `i` to the ring
with the next request's number, and changes no other pool entry, no request and no
minted bit. -/
theorem release_never_blocked (h : History D ls w) (hi : i ∈ releasedIndices (poolEvents ls))
    {a : BaseAsset} (ha : w.assets (D.assetAddress i) = .live a) (huser : a.owner.IsSigner)
    {userToken : Pubkey} {t : TokenAccount} (ht : w.tokens userToken = some t)
    (hmint : t.mint = D.mint) (howner : t.owner = a.owner) :
    ∃ w' s, perform D w (.unwrap a.owner userToken i) = .ok (w', [.returned i]) ∧
      w.tokens D.vaultTokens = some s ∧ D.ratio ≤ s.amount ∧
      w'.tokens D.vaultTokens = some { s with amount := s.amount - D.ratio } ∧
      w'.tokens userToken = some { t with amount := t.amount + D.ratio } ∧
      drawableOf w'.pool = drawableOf w.pool ∧
      incomingOf D.size w'.pool = incomingOf D.size w.pool ++ [(i, w.vault.nextSeq)] ∧
      mintedOf D.size w'.pool = mintedOf D.size w.pool ∧ w'.requests = w.requests := by
  obtain ⟨x, hrun, hx⟩ := h.consistent
  rw [← outside_eq_releasedIndices hrun] at hi
  obtain ⟨w', s, d, heff, habs⟩ := hx.unwrapEffect hi ha huser ht hmint howner
  have hpool : w'.pool = d := by rw [heff.toChain]; rfl
  have htokens : w'.tokens = moveTokens w.tokens D.vaultTokens userToken s t D.ratio := by
    rw [heff.toChain]
    rfl
  have hdrawable := congrArg PoolAbs.drawable habs
  have hincoming := congrArg PoolAbs.incoming habs
  have hminted := congrArg PoolAbs.minted habs
  rw [← hpool] at hdrawable hincoming hminted
  exact ⟨w', s, (handleUnwrap_eq_ok_iff hx.pool hx.nextSeq_lt).mpr ⟨rfl, s, t, a, d, heff⟩,
    heff.vaultTokens, heff.amount_le, by rw [htokens, moveTokens_source (Ne.symm heff.account_ne)],
    by rw [htokens, moveTokens_dest], hdrawable, hincoming, hminted, by rw [heff.toChain]; rfl⟩

theorem release_never_blocked_small :
    ∃ ls w w', History smallVault ls w ∧
      perform smallVault w (.unwrap smallUser smallUserToken 26) = .ok (w', [.returned 26]) ∧
      mintedOf smallVault.size w'.pool = mintedOf smallVault.size w.pool := by
  obtain ⟨ls, w, h, hsettled, hholder, es, hes⟩ := exists_smallSettled
  simp only [smallSettled, smallHolder, Bool.and_eq_true, Option.any_eq_true, decide_eq_true_eq]
    at hsettled hholder
  obtain ⟨-, ha⟩ := hsettled
  obtain ⟨t, ht, hmint, howner⟩ := hholder
  have hi : 26 ∈ releasedIndices (poolEvents ls) := by
    rw [hes, releasedIndices, List.foldl_append]
    exact List.mem_cons_self
  cases hasset : w.assets (smallVault.assetAddress 26) with
  | absent => simp [hasset] at ha
  | burned => simp [hasset] at ha
  | live a =>
      have howned : a.owner = smallUser := by simpa [hasset] using ha
      have hrelease := release_never_blocked h hi hasset (by rw [howned]; trivial) ht hmint
        (howner.trans howned.symm)
      rw [howned] at hrelease
      obtain ⟨w', s, hunwrap, -, -, -, -, -, -, hminted, -⟩ := hrelease
      exact ⟨ls, w, w', h, hunwrap, hminted⟩

end HybridVault
