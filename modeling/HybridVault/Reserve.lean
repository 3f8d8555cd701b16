import HybridVault.Reachability

/-!
# The reserve

A request is let in only if, with every draw before it served, more than the floor would be
left.  That is checked once, on a sum over the pool and the ring, and the guarantee is
about what a later settle may draw from: the entries stamped early enough, after everything
that happened in between.

The counting argument is `SequencedPool.Reserved`, which holds of every ticket in the
queue.  Here it is read off for the vault, for its state (`Tracks.reserve`), for every draw
of a run (`History.floor_lt_candidates`), and for the error that a settle would raise if it
failed (`Tracks.settle_avoids_noAssetAvailable`).
-/

namespace HybridVault

open Foundations

variable {D : Deployment} {w w' : World} {x : SequencedPool.State ℕ} {ls : List Label}

/-- While requests are pending, the pool and the ring hold an index for each, and the floor
besides. -/
theorem Tracks.reserve (h : Tracks D w x)
    (hpending : 0 < w.vault.pendingCaptures + w.vault.pendingRerolls) :
    w.vault.pendingCaptures + w.vault.pendingRerolls + poolFloor D.size
      ≤ (drawableOf w.pool).length + (incomingOf D.size w.pool).length := by
  have hqueue : x.queue ≠ [] := by
    rw [← List.length_pos_iff, ← h.pending]
    exact hpending
  have hle := h.invariant.reserved.floor_add_le hqueue
  rw [h.pending, h.drawable, h.incoming]
  omega

/-- Every draw of a run is from more than the floor. -/
theorem History.floor_lt_candidates (h : History D ls w) {seq : ℕ} {value : Bytes32}
    {candidates : List ℕ} {picked : ℕ}
    (hmem : .settled seq value candidates picked ∈ poolEvents ls) :
    poolFloor D.size < candidates.length := by
  obtain ⟨x, hrun, -⟩ := h.tracks
  obtain ⟨es₁, es₂, y, z, -, hbefore, hstep, -⟩ := hrun.split_of_mem hmem
  have hinv : SequencedPool.Invariant (poolFloor D.size) (List.range D.size) y :=
    SequencedPool.invariant_of_run hbefore (SequencedPool.invariant_initial _)
  cases hstep with
  | settle hqueue => exact hinv.reserved.floor_lt_candidates hinv.stamped (by simp [hqueue])

/-! ## The error of an empty pool -/

section NoAssetAvailable

/-- `NoAssetAvailable`, which the selection raises where there is nothing to draw. -/
abbrev noAssetAvailable : Fault := .vault .NoAssetAvailable

@[simp] theorem vaultTokensAmount_avoids {c : Chain} :
    Avoids noAssetAvailable (vaultTokensAmount D c) := by
  simp [vaultTokensAmount]

@[simp] theorem rdU32_avoids {d : Bytes} {o : ℕ} : Avoids noAssetAvailable (rdU32 d o) := by
  simp [rdU32]

@[simp] theorem loadPool_avoids {c : Chain} : Avoids noAssetAvailable (loadPool D c) := by
  simp [loadPool, PoolView.load, avoids_bind_iff]

@[simp] theorem loadRequest_avoids {c : Chain} {request randomness : Pubkey} :
    Avoids noAssetAvailable (loadRequest D c request randomness) := by
  simp [loadRequest, avoids_bind_iff]

@[simp] theorem exitView_avoids {acc : RawAccount} : Avoids noAssetAvailable (exitView acc) := by
  simp [exitView, exitViewIn, rdU64, avoids_bind_iff]

@[simp] theorem drainPrefundedPda_avoids {c : Chain} {pda dest : Pubkey} :
    Avoids noAssetAvailable (drainPrefundedPda c pda dest) := by
  simp [drainPrefundedPda, systemTransfer, avoids_bind_iff, avoids_ite_iff]

@[simp] theorem assertAssetState_avoids {c : Chain} {asset collection owner : Pubkey} :
    Avoids noAssetAvailable (assertAssetState c asset collection owner) := by
  rw [assertAssetState]
  split <;> simp [avoids_bind_iff]

@[simp] theorem coreTransfer_avoids {c : Chain} {asset collection authority newOwner : Pubkey} :
    Avoids noAssetAvailable (coreTransfer c asset collection authority newOwner) := by
  rw [coreTransfer]
  split <;> simp

@[simp] theorem giveAsset_avoids {c : Chain} {v : Vault} {size seq picked : ℕ}
    {asset user : Pubkey} {mint : Option MintArgs} :
    Avoids noAssetAvailable (giveAsset D c v size seq picked asset user mint) := by
  simp [giveAsset, deliver, checkLeaf, mintToUser, coreCreate, PoolView.isMinted,
    PoolView.markMinted, rdByte, wrByte, avoids_bind_iff, avoids_ite_iff]

@[simp] theorem settleCounters_avoids {v : Vault} {kind : RequestKind} {seq : ℕ} :
    Avoids noAssetAvailable (settleCounters v kind seq) := by
  cases kind <;> simp [settleCounters, avoids_bind_iff]

@[simp] theorem closingCheck_avoids {c : Chain} {v : Vault} {ratioBase size : ℕ} :
    Avoids noAssetAvailable (closingCheck D c v ratioBase size) := by
  simp [closingCheck, invariantsCheck, requiredVaultTokens, PoolView.poolLen, PoolView.incomingLen,
    avoids_bind_iff]

theorem uniformLoop_avoids {n rounds : ℕ} {block : Bytes32} :
    Avoids noAssetAvailable (uniformLoop D n rounds block) := by
  induction rounds generalizing block with
  | zero => simp [uniformLoop]
  | succ rounds ih =>
      rw [uniformLoop]
      split
      · simp
      · exact ih

@[simp] theorem uniformBelow_avoids {r : Bytes32} {n : ℕ} :
    Avoids noAssetAvailable (uniformBelow D r n) := by
  simp [uniformBelow, uniformLoop_avoids, avoids_bind_iff]

@[simp] theorem checkBacklog_avoids {p : PoolView} {seq : ℕ} :
    Avoids noAssetAvailable (checkBacklog p seq) := by
  simp only [checkBacklog, PoolView.incomingFrontTag, PoolView.incomingLen, PoolView.incomingHead,
    rdU64, avoids_bind_iff, avoids_ite_iff, rdU32_avoids, true_and]
  refine ⟨by simp, ?_⟩
  intro a _
  cases a <;> simp

@[simp] theorem returnHandIn_avoids {p : PoolView} {handIn : Option ℕ} :
    Avoids noAssetAvailable (returnHandIn p handIn) := by
  cases handIn <;> simp [returnHandIn, PoolView.poolPush, PoolView.total, PoolView.poolLen,
    PoolView.incomingLen, PoolView.poolSet, addU32, wrU32, avoids_bind_iff]

/-- A selection with something to draw from does not raise it. -/
theorem WellFormed.selectAsset_avoids {cap : ℕ} {d : Bytes} {req : Request}
    (h : WellFormed D.vaultKey cap d) (hne : 0 < (candidatesOf cap d req.seq).length) :
    Avoids noAssetAvailable (selectAsset D ⟨d, cap⟩ req) := by
  obtain ⟨k, d₁, hmerge, hwf₁, hk, habs₁⟩ := h.merge_spec req.seq maxMergePerIx
  simp only [selectAsset, hmerge, ok_bind, avoids_bind_iff, checkBacklog_avoids, true_and,
    hwf₁.poolLen_eq]
  intro _ hbacklog
  obtain ⟨-, hdrawable₁⟩ := hwf₁.of_checkBacklog hk habs₁ hbacklog
  have hlen : 0 < readLE d₁ 44 4 := by rwa [← length_drawableOf, hdrawable₁]
  simp only [avoids_require_iff, hlen, implies_true, uniformBelow_avoids, true_and, avoids_pure,
    returnHandIn_avoids]
  intro _ _ pos hpos
  obtain ⟨d₂, hremove, -⟩ := hwf₁.poolSwapRemove_spec (i := pos) (by
    rw [length_drawableOf]
    exact uniformBelow_lt hpos)
  simp [hremove]

end NoAssetAvailable

/-- **No settle finds the pool empty.** -/
theorem Tracks.settle_avoids_noAssetAvailable (h : Tracks D w x)
    {settler request randomness asset user : Pubkey} {kind : RequestKind} {mint : Option MintArgs} :
    Avoids noAssetAvailable
      (handleSettle D w settler request randomness asset user kind mint) := by
  simp only [handleSettle, handleSettleWith, loadRandLock, avoids_bind_iff, avoids_require_iff,
    avoids_expect_iff, avoids_pure, loadRequest_avoids, vaultTokensAmount_avoids, exitView_avoids,
    loadPool_avoids, giveAsset_avoids, refundEscrow, drainPrefundedPda_avoids,
    settleCounters_avoids, closingCheck_avoids, reduceCtorEq, Fault.vault.injEq, false_implies,
    implies_true, true_and, and_true, require_eq_ok_iff, loadRequest_eq_ok_iff]
  rintro - - r ⟨hr, rfl, -, -⟩ - - - - - - - - - hseq - - - - - - p hload
  obtain rfl : (⟨w.pool, D.size⟩ : PoolView) = p := by
    simpa [loadPool, h.pool.load_eq] using hload
  have hhead : r.seq = x.head := hseq.trans h.head
  obtain ⟨q, hqueue⟩ := h.tickets.head_queue hhead hr
  have hlt := h.invariant.reserved.floor_lt_candidates h.invariant.stamped (by simp [hqueue])
  apply h.pool.selectAsset_avoids
  rw [candidatesOf, h.drawable, h.incoming, hhead]
  exact Nat.zero_lt_of_lt hlt

/-- **Reservation and the floor.**  While requests are pending, the pool and the ring hold
an index for each and the floor besides; every draw of the run so far was from more than
the floor; and no settle can fail because there is nothing to draw. -/
theorem reservation (D : Deployment) (ls : List Label) (w : World) (h : History D ls w) :
    (0 < w.vault.pendingCaptures + w.vault.pendingRerolls →
      w.vault.pendingCaptures + w.vault.pendingRerolls + poolFloor D.size
        ≤ (drawableOf w.pool).length + (incomingOf D.size w.pool).length) ∧
    (∀ seq value candidates picked, .settled seq value candidates picked ∈ poolEvents ls →
      poolFloor D.size < candidates.length) ∧
    ∀ settler request randomness asset user kind mint,
      handleSettle D w settler request randomness asset user kind mint
        ≠ .error (.vault .NoAssetAvailable) := by
  obtain ⟨x, -, htracks⟩ := h.tracks
  exact ⟨htracks.reserve, fun _ _ _ _ hmem => h.floor_lt_candidates hmem,
    fun _ _ _ _ _ _ _ => htracks.settle_avoids_noAssetAvailable⟩

theorem reservation_small :
    ∃ ls w, History smallVault ls w ∧ w.vault.pendingCaptures = 1 ∧
      6 ≤ (drawableOf w.pool).length + (incomingOf smallVault.size w.pool).length := by
  obtain ⟨ls, w, h, hpending, -⟩ := exists_smallPending
  have hone := smallPending_pendingCaptures hpending
  have hreserve := (reservation smallVault ls w h).1 (by omega)
  have hfloor : poolFloor smallVault.size = 5 := by decide
  exact ⟨ls, w, h, hone, by omega⟩

end HybridVault
