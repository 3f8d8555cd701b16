import HybridVault.Bookkeeping
import HybridVault.Commitment
import Mathlib.Data.List.Nodup

/-!
# A revealed head settles

A revealed request has no other way out: it cannot expire, and it cannot be committed
again.  So everything that could make its settle fail would block the queue for good.
Here each is excluded.

* The backlog: merges bring it below what one settle merges (`Consistent.merges`).
* The draw: a pending request has an index reserved (`Consistent.selection`).
* The handover: what exists is the vault's, and what does not is minted from a committed
  leaf, paid from the escrow (`Consistent.handover`).
* The counters (`Consistent.settleCounters`) and the closing check
  (`Consistent.settledCheck`).

Outside the program, a settle depends on Core charging what the escrow was sized for, on
the collection having been committed with valid leaves, and on the selection ending
within the compute budget.
-/

namespace HybridVault

open Foundations

variable {D : Deployment} {w w' : World} {x : SequencedPool.State ℕ} {ls : List Label}
  {r : Request}

/-! ## The backlog -/

/-- The number of waiting entries that the head may draw. -/
def backlog (D : Deployment) (w : World) : ℕ :=
  ((incomingOf D.size w.pool).takeWhile fun e => e.2 ≤ w.vault.nextSettleSeq).length

/-- A merge moves what it can of the backlog, and changes nothing but the pool. -/
theorem WellFormed.merge_backlog (hwf : WellFormed D.vaultKey D.size w.pool) (max : ℕ) :
    ∃ d es, perform D w (.mergeIncoming max) = .ok (⟨w.toChain.setPool d, w.vault⟩, es) ∧
      backlog D ⟨w.toChain.setPool d, w.vault⟩ = backlog D w - min max 1024 := by
  obtain ⟨k, d, hmerge, hk, -, -, habs⟩ := hwf.handleMergeIncoming_eq (w := w) max
  refine ⟨d, _, hmerge, ?_⟩
  have hincoming : incomingOf D.size d = (incomingOf D.size w.pool).drop k :=
    congrArg PoolAbs.incoming habs
  have hle : k ≤ backlog D w := by
    rw [backlog]
    omega
  simp only [backlog, Chain.setPool_pool, hincoming, takeWhile_drop hle, List.length_drop]
  omega

/-- **Merges work the backlog off**, and change nothing but the pool. -/
theorem Consistent.merges (h : Consistent D w x) {max : ℕ} (hmax : 0 < max) (m : ℕ) :
    ∃ w₁ ls₁, performAll D w (List.replicate m (.mergeIncoming max)) = .ok (w₁, ls₁) ∧
      (∃ y, Consistent D w₁ y) ∧ w₁.vault = w.vault ∧ w₁.requests = w.requests ∧
      backlog D w₁ ≤ backlog D w - m := by
  induction m generalizing w x with
  | zero => exact ⟨w, [], rfl, ⟨x, h⟩, rfl, rfl, le_rfl⟩
  | succ m ih =>
      obtain ⟨d, es, hmerge, hbacklog⟩ := h.pool.merge_backlog max
      obtain ⟨y, -, hy⟩ := h.run (.single (.instruction hmerge))
      obtain ⟨w₁, ls₁, hrest, hcons, hvault, hrequests, hle⟩ := ih hy
      refine ⟨w₁, .instruction (.mergeIncoming max) es :: ls₁, ?_, hcons, hvault, hrequests,
        by omega⟩
      simp only [List.replicate_succ, performAll, hmerge, ok_bind, hrest]
      rfl

/-! ## The draw -/

namespace Consistent

/-- What the head draws from. -/
theorem candidates_eq (h : Consistent D w x) (hseq : r.seq = x.head) :
    candidatesOf D.size w.pool r.seq = x.candidates := by
  rw [candidatesOf, h.drawable, h.incoming, hseq]
  rfl

/-- **The head always finds something to draw.** -/
theorem selection (h : Consistent D w x) (hr : w.requests (D.requestAddress r.seq) = some r)
    (hseq : r.seq = x.head) (hbacklog : backlog D w ≤ maxMergePerIx)
    (hends : SelectionEnds D (requestRandomness D r.value r.seq) D.size) :
    ∃ candidates picked d, selectAsset D ⟨w.pool, D.size⟩ r
        = .ok (candidates, picked, ⟨d, D.size⟩) ∧
      picked ∈ x.candidates ∧ WellFormed D.vaultKey D.size d ∧
      mintedOf D.size d = mintedOf D.size w.pool ∧
      (drawableOf d).length + (incomingOf D.size d).length + 1
        = x.drawable.length + x.incoming.length + r.handIn.toList.length := by
  obtain ⟨q, hqueue⟩ := h.tickets.head_queue hseq hr
  have hcandidates := h.candidates_eq hseq
  have hlen := h.length_eq
  -- the reservation leaves the head more than the floor
  have hpos : poolFloor D.size < x.candidates.length :=
    h.invariant.reserved.floor_lt_candidates h.invariant.stamped (by simp [hqueue])
  have hsplit : x.ready.length + x.waiting.length = x.incoming.length := by
    rw [← List.length_append, x.ready_append_waiting]
  have hcount : x.candidates.length = x.drawable.length + x.ready.length := by
    simp [SequencedPool.State.candidates]
  obtain ⟨pos, hdraw, hlt⟩ := uniformBelow_ok hends (by omega : 0 < x.candidates.length) (by omega)
  have hready : ((incomingOf D.size w.pool).takeWhile fun e => e.2 ≤ r.seq).length
      ≤ maxMergePerIx := by
    rw [hseq, ← h.head]
    exact hbacklog
  have hhand : ∀ i ∈ r.handIn, i < D.size := by
    intro i hi
    apply h.handIn_lt
    rw [hqueue, Option.mem_def.mp hi]
    simp
  rw [← hcandidates] at hdraw
  obtain ⟨picked, d, hselect, hpick, hwf, habs⟩ := h.pool.selectAsset_spec hready hdraw hhand
  have hdrawable := congrArg (fun P => P.drawable.length) habs
  have hincoming := congrArg (fun P => P.incoming.length) habs
  have hminted := congrArg PoolAbs.minted habs
  rw [hcandidates] at hpick
  simp only [poolAbs, hcandidates, List.length_append, length_swapRemove] at hdrawable hincoming
  have hwaiting : ((incomingOf D.size w.pool).dropWhile fun e => e.2 ≤ r.seq).length
      = x.waiting.length := by
    rw [h.incoming, hseq]
    rfl
  exact ⟨_, picked, d, hselect, List.mem_of_getElem? hpick, hwf, hminted, by omega⟩

end Consistent

/-! ## The handover -/

/-- The leaves of a collection with these preimages. -/
def committedLeaves (D : Deployment) (schemaHash : Bytes32) (preimages : ℕ → LeafPreimage) :
    List Bytes32 :=
  (List.range D.size).map fun i => leafOf D schemaHash i (preimages i)

/-- **The vault commits to valid leaves**, of these preimages. -/
structure Committed (D : Deployment) (v : Vault) (preimages : ℕ → LeafPreimage) : Prop where
  root : v.traitRoot = buildRoot D (committedLeaves D v.traitSchemaHash preimages)
  uri_le : ∀ i < D.size, (preimages i).uri.length ≤ maxUriLen
  contentAddressed : ∀ i < D.size, isContentAddressed (preimages i).uri = true

/-- The arguments that mint index `i`: its preimage, and its proof in the tree. -/
def committedArgs (D : Deployment) (v : Vault) (preimages : ℕ → LeafPreimage) (i : ℕ) :
    MintArgs where
  leaf := preimages i
  proof := buildProof D (committedLeaves D v.traitSchemaHash preimages) i

/-- What the escrow was sized for covers what Core charges. -/
def CostCovered (D : Deployment) (preimages : ℕ → LeafPreimage) : Prop :=
  ∀ i < D.size, D.coreCreateCost (assetName i) (preimages i).uri ≤ mintNeed D

/-- At the rents and charges of the devnet, the escrow covers every committed leaf. -/
theorem Committed.costCovered {vaultKey launchConfigKey : Bytes32} {config : LaunchConfig}
    {v : Vault} {preimages : ℕ → LeafPreimage}
    (h : Committed (deploy vaultKey launchConfigKey config) v preimages)
    (hsize : (deploy vaultKey launchConfigKey config).size ≤ maxCapacity) :
    CostCovered (deploy vaultKey launchConfigKey config) preimages := by
  intro i hi
  have hname : (assetName i).length ≤ 32 := by
    have hdigits : (Nat.toDigits 10 i).length ≤ 5 := by
      rw [Nat.length_toDigits_le_iff (by decide) (by decide)]
      simp only [maxCapacity] at hsize
      omega
    rw [assetName, List.length_cons, List.length_map]
    omega
  have hneed : mintNeed (deploy vaultKey launchConfigKey config)
      = coreAssetRentLamports + coreCreateFeeLamports := by
    show saturatingAdd (rentExemptMinimum coreAssetSpaceBytes) coreCreateFeeLamports = _
    rw [rentExemptMinimum_coreAssetSpace]
    decide
  rw [hneed]
  exact coreCreateCost_le hname (h.uri_le i hi)

/-- **A committed leaf passes.** -/
theorem Committed.checkLeaf {v : Vault} {preimages : ℕ → LeafPreimage}
    (h : Committed D v preimages) (hsize : D.size ≤ maxCapacity) {i : ℕ} (hi : i < D.size) :
    HybridVault.checkLeaf D v.traitRoot v.traitSchemaHash D.size i
      (committedArgs D v preimages i).leaf (committedArgs D v preimages i).proof = .ok () := by
  have hlen : (committedLeaves D v.traitSchemaHash preimages).length = D.size := by
    simp [committedLeaves]
  have hleaf : (committedLeaves D v.traitSchemaHash preimages)[i]?
      = some (leafOf D v.traitSchemaHash i (preimages i)) := by
    simp [committedLeaves, hi]
  have hcheck := checkLeaf_build hleaf (hlen.trans_le hsize) (h.uri_le i hi)
    (h.contentAddressed i hi)
  rw [hlen, ← h.root] at hcheck
  exact hcheck

namespace Consistent

/-- An index in the pool is not out. -/
theorem not_mem_outside (h : Consistent D w x) {i : ℕ} (hi : i ∈ x.candidates) :
    i ∉ x.queue.reduceOption ++ x.outside := by
  have hnodup := h.invariant.places_nodup List.nodup_range
  rw [SequencedPool.State.places, List.append_assoc] at hnodup
  refine List.disjoint_of_nodup_append hnodup ?_
  refine List.mem_append.mpr ((List.mem_append.mp hi).imp_right ?_)
  intro hi
  exact (List.map_subset Prod.fst (List.takeWhile_sublist _).subset) hi

theorem candidates_lt (h : Consistent D w x) {i : ℕ} (hi : i ∈ x.candidates) : i < D.size := by
  refine h.lt_of_mem_places (List.mem_append_left _ (List.mem_append_left _ ?_))
  refine List.mem_append.mpr ((List.mem_append.mp hi).imp_right ?_)
  intro hi
  exact (List.map_subset Prod.fst (List.takeWhile_sublist _).subset) hi

/-- Minting an index that is not minted keeps the count in range. -/
theorem mintedCount_lt (h : Consistent D w x) {i : ℕ} (hi : i < D.size)
    (hbit : mintedOf D.size w.pool i = false) : w.vault.mintedCount + 1 ≤ D.size := by
  rw [h.custody.count, ← countP_range_or hi hbit]
  exact List.countP_le_length.trans List.length_range.le

/-- **What was drawn can be handed over**: the vault owns it, or it can be minted. -/
theorem handover (h : Consistent D w x) {d : Bytes} {seq i : ℕ} {user : Pubkey}
    {preimages : ℕ → LeafPreimage} {mint : Option MintArgs} (hge : x.head ≤ seq)
    (hlt : seq < x.next) (hi : i ∈ x.candidates) (hwf : WellFormed D.vaultKey D.size d)
    (hminted : mintedOf D.size d = mintedOf D.size w.pool)
    (hcommitted : Committed D w.vault preimages) (hcost : CostCovered D preimages)
    (hmint : mintedOf D.size w.pool i = false → mint = some (committedArgs D w.vault preimages i)) :
    ∃ c v, Handover D (w.toChain.setPool d) w.vault seq i user mint c v ∧
      c.Dataless (D.mintEscrowAddress seq) ∧ c.tokens = w.tokens := by
  have hsize := h.candidates_lt hi
  have hout := h.not_mem_outside hi
  obtain ⟨hescrow, hneed⟩ := h.escrow_spec hge hlt
  have hne : D.mintEscrowAddress seq ≠ D.assetAddress i := by
    simp [Deployment.mintEscrowAddress, Deployment.assetAddress]
  cases hbit : mintedOf D.size w.pool i with
  | true =>
      obtain ⟨a, ha, howner⟩ := h.custody.held i hsize
        (fun hmem => hout (List.mem_append_right _ hmem)) hbit
      refine ⟨_, _, .delivered (by simpa [hminted] using hbit) ha howner
        (h.custody.collection i hsize a ha), ⟨hescrow.1, ?_⟩, rfl⟩
      simp only [Chain.setAssets_assets, Function.update_of_ne hne]
      exact hescrow.2
  | false =>
      obtain ⟨d', hmark, -, -⟩ := hwf.markMinted_spec hsize (by simpa [hminted] using hbit)
      obtain ⟨col, hcol, hauth, -⟩ := h.custody.numMinted
      have habsent : w.assets (D.assetAddress i) = .absent := by
        by_contra hpresent
        simp [(h.custody.minted_iff i hsize).mpr hpresent] at hbit
      have hcount := h.mintedCount_lt hsize hbit
      have hcap := h.pool.cap_le
      refine ⟨_, _, .minted (by simpa [hminted] using hbit) (hmint hbit)
        (hcommitted.checkLeaf hcap hsize) hneed
        ⟨h.custody.accounts _ (Or.inl ⟨i, rfl⟩), habsent⟩ hescrow
        ((hcost i hsize).trans (hneed.trans (Nat.le_add_right _ _))) hcol hauth hmark ?_,
        ⟨hescrow.1, ?_⟩, rfl⟩
      · simp only [maxCapacity, u32Size] at hcap ⊢
        omega
      · simp only [minted, Chain.setPool_assets, Chain.setLamports_assets,
          Chain.setCollection_assets, Chain.setAssets_assets, Function.update_of_ne hne]
        exact hescrow.2

/-! ## The closing check -/

/-- What is held for others after a handover exists. -/
theorem held_after_handover (h : Consistent D w x) {i n : ℕ} (hi : i ∈ x.candidates)
    (hcount : (mintedOf D.size w.pool i = true ∧ n = w.vault.mintedCount) ∨
      (mintedOf D.size w.pool i = false ∧ n = w.vault.mintedCount + 1)) :
    w.vault.assetsOutside + w.vault.pendingRerolls + 1 ≤ n ∧ n ≤ D.size := by
  obtain ⟨t, -, -, -, hcheck⟩ := h.closingCheck
  obtain ⟨hnodup, hheld⟩ := h.held_spec
  have hsize := h.candidates_lt hi
  have hrerolls := h.rerolls
  have hout := h.outside
  rcases hcount with ⟨hbit, rfl⟩ | ⟨hbit, rfl⟩
  · refine ⟨?_, hcheck.minted_le⟩
    have hle := h.custody.length_le_mintedCount (List.nodup_cons.mpr ⟨h.not_mem_outside hi, hnodup⟩)
      (List.forall_mem_cons.mpr ⟨hsize, fun j hj => (hheld j hj).1⟩)
      (List.forall_mem_cons.mpr ⟨hbit, fun j hj => (hheld j hj).2⟩)
    simp only [List.length_cons, List.length_append] at hle
    omega
  · have hle := hcheck.held_le
    exact ⟨by omega, h.mintedCount_lt hsize hbit⟩

/-- The closing check passes after a settle. -/
theorem settledCheck (h : Consistent D w x) (hr : w.requests (D.requestAddress r.seq) = some r)
    (hseq : r.seq = x.head) {i : ℕ} (hi : i ∈ x.candidates) {d : Bytes} {mint : Option MintArgs}
    {c : Chain} {v : Vault} (hwf : WellFormed D.vaultKey D.size d)
    (hminted : mintedOf D.size d = mintedOf D.size w.pool)
    (hlen : (drawableOf d).length + (incomingOf D.size d).length + 1
      = x.drawable.length + x.incoming.length + r.handIn.toList.length)
    (hhand : Handover D (w.toChain.setPool d) w.vault r.seq i r.user mint c v) :
    ∃ t, w.tokens D.vaultTokens = some t ∧
      ClosingCheck (v.settled r.kind) D.ratio D.size c.pool t.amount := by
  obtain ⟨t, ht, -, -, hcheck⟩ := h.closingCheck
  refine ⟨t, ht, ?_⟩
  obtain ⟨hunits_lt, htokens_lt, hsolvent, -, -, -⟩ := hcheck
  obtain ⟨-, -, hv, habs⟩ := hhand.spec hwf (h.candidates_lt hi)
  have hcounts := hhand.counts
  simp only [Chain.setPool_pool, hminted] at hcounts
  obtain ⟨hheld, hle⟩ := h.held_after_handover hi (n := v.mintedCount)
    (hcounts.imp (fun hc => ⟨hc.1, by rw [hc.2]⟩) fun hc => ⟨hc.1, by rw [hc.2]⟩)
  have hsizes := h.length_eq
  have hrerolls := h.rerolls
  have hout := h.outside
  have hpos := (h.settleCounters hr hseq v.mintedCount).pending_pos
  have hdrawable := congrArg (fun P => P.drawable.length) habs
  have hincoming := congrArg (fun P => P.incoming.length) habs
  simp only [poolAbs, Chain.setPool_pool, length_drawableOf, length_incomingOf]
    at hdrawable hincoming hlen
  have hunits : (v.settled r.kind).owedUnits = w.vault.owedUnits := by
    rw [hv]
    cases hk : r.kind <;>
      simp only [hk, Vault.pending, Vault.settled, Vault.owedUnits] at hpos ⊢ <;> omega
  exact {
    units_lt := by rw [hunits]; exact hunits_lt
    tokens_lt := by rw [hunits]; exact htokens_lt
    solvent := by rw [hunits]; exact hsolvent
    accounted := by
      rw [hv, hdrawable, hincoming]
      cases hk : r.kind <;> simp only [hk, Request.handIn, Vault.pending, Vault.settled,
        Option.toList_none, Option.toList_some, List.length_nil, List.length_singleton]
        at hpos hlen ⊢ <;> omega
    minted_le := by
      cases hk : r.kind <;> exact hle
    held_le := by
      rw [hv]
      cases hk : r.kind <;> simp only [hk, Vault.pending, Vault.settled] at hpos ⊢ <;> omega }

/-- **A revealed head whose backlog fits one merge has what a settle requires.** -/
theorem settleEffect (h : Consistent D w x) {preimages : ℕ → LeafPreimage}
    (hcommitted : Committed D w.vault preimages) (hcost : CostCovered D preimages)
    (hr : w.requests (D.requestAddress r.seq) = some r) (hseq : r.seq = x.head)
    (hrevealed : r.revealed = true) (hbacklog : backlog D w ≤ maxMergePerIx)
    (hends : SelectionEnds D (requestRandomness D r.value r.seq) D.size) :
    ∃ candidates picked, ∀ mint, (mintedOf D.size w.pool picked = false →
        mint = some (committedArgs D w.vault preimages picked)) →
      ∃ w' d c v, SettleEffect D w w' r mint candidates picked d c v := by
  obtain ⟨candidates, picked, d, hselect, hpick, hwf, hminted, hlen⟩ :=
    h.selection hr hseq hbacklog hends
  obtain ⟨hvault, huser, -, hge, hlt⟩ := h.tickets.own _ r hr (Or.inr ⟨_, rfl⟩)
  refine ⟨candidates, picked, ?_⟩
  intro mint hmint
  obtain ⟨c, v, hhand, hescrow, htokens⟩ :=
    h.handover hge hlt hpick hwf hminted hcommitted hcost hmint
  obtain ⟨-, -, hv, -⟩ := hhand.spec hwf (h.candidates_lt hpick)
  exact ⟨⟨_, _⟩, d, c, v, {
    request := hr
    request_vault := hvault
    lock := h.coherent.lock _ r hr hvault
    seq := hseq.trans h.head.symm
    revealed := hrevealed
    economics := h.economics
    selected := hselect
    handover := hhand
    refund := Or.inr hescrow
    counters := by
      rw [hv]
      exact h.settleCounters hr hseq v.mintedCount
    closing := h.settledCheck hr hseq hpick hwf hminted hlen hhand
    vault := rfl
    toChain := rfl }⟩

end Consistent

/-- **A revealed head can always be settled.**  In every reachable state of a vault that
commits to valid leaves, if the head request is revealed, then after enough merges, of
any size and by anyone, a settle of its kind succeeds, with the picked asset's account
and, if the picked index is not minted, its leaf and proof.  The assumptions beside the
commitment are about the code outside the program: Core charges no more than the escrow
was sized for, and the selection from the revealed value ends in the compute budget. -/
theorem revealed_head_settles (h : History D ls w) {preimages : ℕ → LeafPreimage}
    (hcommitted : Committed D w.vault preimages) (hcost : CostCovered D preimages)
    (hr : w.requests (D.requestAddress w.vault.nextSettleSeq) = some r)
    (hrevealed : r.revealed = true)
    (hends : SelectionEnds D (requestRandomness D r.value r.seq) D.size) (max : ℕ) (hmax : 0 < max)
    (settler : Pubkey) (hsettler : settler.IsSigner) :
    ∃ n, ∀ m ≥ n, ∃ w₁ ls₁ candidates picked,
      performAll D w (List.replicate m (.mergeIncoming max)) = .ok (w₁, ls₁) ∧
        ∀ mint, (mintedOf D.size w₁.pool picked = false →
            mint = some (committedArgs D w.vault preimages picked)) →
          ∃ w', handleSettle D w₁ settler (D.requestAddress w.vault.nextSettleSeq) r.randomness
            (D.assetAddress picked) r.user r.kind mint
              = .ok (w', [.settled r.seq r.value candidates picked]) := by
  obtain ⟨x, -, hx⟩ := h.consistent
  obtain ⟨-, -, hkey, -⟩ := hx.tickets.own _ r hr (Or.inr ⟨_, rfl⟩)
  have hseq : r.seq = w.vault.nextSettleSeq := (requestAddress_inj.mp hkey).symm
  refine ⟨backlog D w, ?_⟩
  intro m hm
  obtain ⟨w₁, ls₁, hmerges, ⟨y, hy⟩, hvault, hrequests, hle⟩ := hx.merges hmax m
  rw [← hseq] at hr ⊢
  rw [← hvault] at hcommitted ⊢
  have hhead : r.seq = y.head := by rw [hseq, ← hy.head, hvault]
  rw [← hrequests] at hr
  obtain ⟨candidates, picked, hsettle⟩ := hy.settleEffect hcommitted hcost hr hhead hrevealed
    (by omega) hends
  refine ⟨w₁, ls₁, candidates, picked, hmerges, ?_⟩
  intro mint hmint
  obtain ⟨w', d, c, v, heff⟩ := hsettle mint hmint
  exact ⟨w', heff.handleSettle_eq hy.pool hsettler⟩

/-- A collection of one leaf, a hundred times. -/
def smallPreimages : ℕ → LeafPreimage := fun _ => smallLeaf

def smallCommitment : Bytes32 :=
  buildRoot smallVault (committedLeaves smallVault (Bytes32.fill 50) smallPreimages)

set_option maxRecDepth 20000 in
/-- A capture that is revealed, of a vault with that commitment. -/
theorem smallRevealed_returns :
    returns (smallRun smallCommitment (smallOpening ++ [smallCapture, smallReveal])) (fun r =>
      r.1.vault.nextSettleSeq = 0 && (r.1.requests (smallVault.requestAddress 0)).any fun req =>
        req.seq = 0 && req.revealed && req.value = smallValue) = true := by
  decide +kernel

theorem revealed_head_settles_small :
    ∃ ls w r, History smallVault ls w ∧
      w.requests (smallVault.requestAddress w.vault.nextSettleSeq) = some r ∧ r.revealed = true ∧
      ∃ n w₁ ls₁, performAll smallVault w (List.replicate n (.mergeIncoming 5)) = .ok (w₁, ls₁) ∧
      ∃ (candidates : List ℕ) (picked : ℕ) (mint : Option MintArgs) (w' : World),
        handleSettle smallVault w₁ smallUser (smallVault.requestAddress 0) r.randomness
          (smallVault.assetAddress picked) r.user r.kind mint
        = .ok (w', [.settled r.seq r.value candidates picked]) := by
  obtain ⟨⟨w, ls⟩, hrun, h⟩ := exists_of_returns smallRevealed_returns
  simp only [Bool.and_eq_true, Option.any_eq_true, decide_eq_true_eq] at h
  obtain ⟨hhead, r, hr, ⟨hseq, hrevealed⟩, hvalue⟩ := h
  obtain ⟨hroot, hschema⟩ := Prod.mk.inj (Prod.mk.inj (smallRun_parameters hrun)).2
  have hcommitted : Committed smallVault w.vault smallPreimages :=
    ⟨by rw [hroot, hschema, smallCommitment], by decide, by decide⟩
  have hends : SelectionEnds smallVault (requestRandomness smallVault r.value r.seq)
      smallVault.size := by
    rw [hvalue, hseq]
    exact selectionEnds_of_first_word (by decide) (by decide +kernel)
  rw [← hhead] at hr
  obtain ⟨n, hn⟩ := revealed_head_settles (smallRun_history hrun) hcommitted
    (hcommitted.costCovered (by decide)) hr hrevealed hends 5 (by decide) smallUser trivial
  obtain ⟨w₁, ls₁, candidates, picked, hmerges, hsettle⟩ := hn n le_rfl
  obtain ⟨w', hw'⟩ := hsettle _ fun _ => rfl
  rw [hhead] at hw'
  exact ⟨_, w, r, smallRun_history hrun, hr, hrevealed, n, w₁, ls₁, hmerges, candidates, picked, _,
    w', hw'⟩

end HybridVault
