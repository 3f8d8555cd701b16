import HybridVault.Bookkeeping
import Mathlib.Data.List.Nodup

/-!
# Recovering a stuck head

A head whose randomness was never revealed has two ways out: it is committed afresh, or
it expires.  An expiry needs four commits behind it, and each further commit needs a live
oracle the request has not used.  So a head that is long overdue can be recovered exactly
if it has used up its commits and its user has a token account to expire to, or if it can
reach one more oracle (`stuck_head_recovers_iff`).

The threat model promises more: a stuck head expires and the queue advances.  A queue
whose unused oracles are all stale, or that lists fewer than four, keeps a head with
commits left where it is, and everyone behind it (`dead_oracles_block_the_queue`).
-/

namespace HybridVault

open Foundations

variable {D : Deployment} {w w' : World} {x : SequencedPool.State ℕ} {ls : List Label}
  {r : Request}

/-- An unrevealed head that is overdue by the grace period. -/
structure Stuck (D : Deployment) (w : World) (r : Request) : Prop where
  request : w.requests (D.requestAddress w.vault.nextSettleSeq) = some r
  unrevealed : r.revealed = false
  overdue : r.deadlineSlot + expireGraceSlots < w.slot

/-- The token account `userToken` is one that an expiry of `r` accepts: of the vault's mint,
and its user's. -/
def Accepted (D : Deployment) (w : World) (r : Request) (userToken : Pubkey) : Prop :=
  ∃ t, w.tokens userToken = some t ∧ t.mint = D.mint ∧ t.owner = r.user

/-- A re-commit of the head, or its expiry, succeeds for some caller. -/
def Recovers (D : Deployment) (w : World) : Prop :=
  (∃ randomness queue oracle proofs res, handleRecommitRandomness D w
      (D.requestAddress w.vault.nextSettleSeq) randomness queue oracle proofs = .ok res) ∨
    ∃ caller randomness user userToken asset res, handleExpire D w caller
      (D.requestAddress w.vault.nextSettleSeq) randomness user userToken asset = .ok res

/-- **What a stuck head needs.**  If its commits are used up, its user has a token account
to expire it to; if not, it can be committed to one more oracle, and the clock and the
counter of re-commits have room. -/
def CanRecover (D : Deployment) (w : World) (r : Request) : Prop :=
  (maxRecommits < r.commits ∧ ∃ userToken, Accepted D w r userToken) ∨
    (r.commits ≤ maxRecommits ∧
      OracleReachable D w.accounts w.vault.sbQueue r.seq r.usedOracles w.unixTimestamp ∧
      w.slot + revealTimeoutSlots < u64Size ∧ w.vault.totalRecommits + 1 < u64Size)

namespace Consistent

variable {userToken : Pubkey}

theorem usedOracles_length_le (h : Consistent D w x) {k : Pubkey} (hr : w.requests k = some r)
    (hv : r.vault = D.vault) : r.usedOracles.length ≤ maxKeySliceLen := by
  have hlen := (h.records k r hr hv).oracles_length
  have hle : r.usedOracles.length ≤ r.oracles.length := List.length_take_le' ..
  exact hle.trans (hlen.le.trans (by decide))

/-- A stuck head is the request its address and the counters name. -/
theorem stuck_spec (h : Consistent D w x) (hs : Stuck D w r) :
    w.requests (D.requestAddress r.seq) = some r ∧ r.seq = w.vault.nextSettleSeq ∧
      r.vault = D.vault := by
  obtain ⟨hv, -, hkey, -⟩ := h.tickets.own _ r hs.request (Or.inr ⟨_, rfl⟩)
  have hseq := requestAddress_inj.mp hkey
  exact ⟨by rw [← hseq]; exact hs.request, hseq.symm, hv⟩

/-- Neither way out is open to a head that cannot recover. -/
theorem canRecover (h : Consistent D w x) (hs : Stuck D w r) (hrec : Recovers D w) :
    CanRecover D w r := by
  obtain ⟨hr, hseq, hv⟩ := h.stuck_spec hs
  rcases hrec with ⟨randomness, queue, oracle, proofs, res, hrecommit⟩ |
    ⟨caller, randomness, user, userToken', asset, res, hexpire⟩
  · obtain ⟨-, r', snap, hkey, -, heff⟩ := handleRecommitRandomness_eq_ok_iff.mp hrecommit
    rw [← hseq, requestAddress_inj] at hkey
    have hreq := heff.request
    rw [← hkey, hr] at hreq
    obtain rfl := Option.some.inj hreq
    have hused := h.usedOracles_length_le hr hv
    have hchecks := heff.oracleChecks
    obtain rfl := ((oracleChecks_eq_ok_iff hused).mp hchecks).1
    exact Or.inr ⟨heff.commits_le,
      (exists_oracleChecks_iff_reachable hused).mp ⟨proofs, oracle, hchecks⟩,
      heff.deadline_lt, heff.totalRecommits_lt⟩
  · obtain ⟨r', c, heff, -⟩ := handleExpire_eq_ok h.pool hexpire
    have hreq := heff.request
    rw [heff.seq, ← hseq, hr] at hreq
    obtain rfl := Option.some.inj hreq
    exact Or.inl ⟨heff.exhausted, userToken', heff.account⟩

/-- **A re-commit to a reachable oracle has what it requires.** -/
theorem recommitEffect (h : Consistent D w x) (hs : Stuck D w r)
    (hcommits : r.commits ≤ maxRecommits)
    (hreach : OracleReachable D w.accounts w.vault.sbQueue r.seq r.usedOracles w.unixTimestamp)
    (hslot : w.slot + revealTimeoutSlots < u64Size)
    (htotal : w.vault.totalRecommits + 1 < u64Size) :
    ∃ w' snap oracle proofs, RecommitEffect D w w' r snap w.vault.sbQueue oracle proofs := by
  obtain ⟨hr, -, hv⟩ := h.stuck_spec hs
  have hused := h.usedOracles_length_le hr hv
  obtain ⟨proofs, oracle, hchecks⟩ := (exists_oracleChecks_iff_reachable hused).mpr hreach
  obtain ⟨hfirst, -⟩ := firstUnskippable_of_oracleChecks hused hchecks
  have hcand := List.find?_some hfirst
  simp only [isCandidate, Bool.and_eq_true, decide_eq_true_eq] at hcand
  obtain ⟨snap, hsnap, hagrees⟩ := h.coherent.snapshot _ r hr hv
  obtain ⟨hlen, hseed⟩ := h.records _ r hr hv
  have hsame := hagrees.seed
  -- nothing was revealed since the last commit
  have hfresh : snap.revealSlot ≤ snap.seedSlot := by
    have hnot := hagrees.revealed.not.mp (by simp [hs.unrevealed])
    rw [RandomnessSnapshot.isRevealed_iff] at hnot
    by_contra hlt
    exact hnot ⟨hsame, by omega⟩
  have hoverdue := hs.overdue
  have hroom : r.commits < r.oracles.length := by
    simp only [maxRecommits] at hcommits
    omega
  exact ⟨⟨_, _⟩, snap, oracle, proofs, {
    request := hr
    request_vault := hv
    unrevealed := hs.unrevealed
    overdue := by omega
    commits_le := hcommits
    commits_lt := hroom
    oracle_unused := hcand.1.2
    randomness := hsnap
    authority := hagrees.authority
    snap_queue := hagrees.queue
    seed := hsame
    fresh := hfresh
    oracleChecks := hchecks
    commitSlot := ⟨by omega, h.bounded.slot_lt, by omega⟩
    deadline_lt := hslot
    totalRecommits_lt := htotal
    vault := rfl
    toChain := rfl }⟩

/-- The principal of the head can be returned. -/
theorem returnPrincipal (h : Consistent D w x) (hr : w.requests (D.requestAddress r.seq) = some r)
    (hseq : r.seq = x.head) {t : TokenAccount} (ht : w.tokens userToken = some t)
    (hmint : t.mint = D.mint) (howner : t.owner = r.user) :
    ∃ c, HybridVault.returnPrincipal D w.toChain r userToken (D.assetAddress r.handedInIndex) r.user
        D.ratio = .ok c ∧ c.Dataless (D.mintEscrowAddress r.seq) := by
  obtain ⟨-, huser, -, hge, hlt⟩ := h.tickets.own _ r hr (Or.inr ⟨_, rfl⟩)
  obtain ⟨q, hqueue⟩ := h.tickets.head_queue hseq hr
  obtain ⟨hescrow, -⟩ := h.escrow_spec hge hlt
  cases hk : r.kind with
  | capture =>
      obtain ⟨s, hs, hsmint, hsowner, hcheck⟩ := h.closingCheck
      obtain ⟨donated, htreasury⟩ := h.treasury
      have hne := htreasury.ne_vaultTokens ht howner huser
      have hpos : 1 ≤ w.vault.owedUnits := by
        have hpending := h.pending
        rw [hqueue, List.length_cons] at hpending
        simp only [Vault.owedUnits]
        omega
      have hamount : D.ratio ≤ s.amount :=
        (Nat.le_mul_of_pos_right _ hpos).trans hcheck.solvent
      refine ⟨w.toChain.setTokens (moveTokens w.tokens D.vaultTokens userToken s t D.ratio), ?_,
        hescrow⟩
      simp only [HybridVault.returnPrincipal, hk, payOut]
      exact (tokenTransfer_eq_ok_iff (Ne.symm hne)).mpr
        ⟨s, t, hs, ht, hsmint, hmint, hsowner, hamount, rfl⟩
  | reroll =>
      have hitem : r.handIn = some r.handedInIndex := by simp [Request.handIn, hk]
      have hmem : r.handedInIndex ∈ x.queue.reduceOption := by simp [hqueue, hitem]
      have hsize := h.handIn_lt hmem
      have hout : r.handedInIndex ∉ x.outside := fun hout =>
        List.disjoint_of_nodup_append h.held_spec.1 hmem hout
      obtain ⟨a, ha, haowner⟩ :=
        h.custody.held _ hsize hout (h.custody.handIn_minted _ hmem)
      have hne : D.mintEscrowAddress r.seq ≠ D.assetAddress r.handedInIndex := by
        simp [Deployment.mintEscrowAddress, Deployment.assetAddress]
      refine ⟨w.toChain.setAssets (Function.update w.assets (D.assetAddress r.handedInIndex)
        (.live { a with owner := r.user })), ?_, hescrow.1, ?_⟩
      · simp only [HybridVault.returnPrincipal, hk, bind_eq_ok_iff, require_eq_ok_iff,
          deliver_eq_ok_iff]
        exact ⟨(), trivial, a, ha, haowner, h.custody.collection _ hsize a ha, rfl⟩
      · simp only [Chain.setAssets_assets, Function.update_of_ne hne]
        exact hescrow.2

/-- The counters of an expiry have room. -/
theorem expireCounters (h : Consistent D w x) (hr : w.requests (D.requestAddress r.seq) = some r)
    (hseq : r.seq = x.head) : ExpireCounters w.vault r.kind := by
  obtain ⟨hnext_lt, hout_lt, hpos, -⟩ := h.settleCounters hr hseq w.vault.mintedCount
  have hresolved := h.tallies.resolved
  simp only [u64Size] at *
  exact ⟨hnext_lt, by simp only [u64Size]; omega, hpos, fun _ => hout_lt⟩

/-- **An expiry of a stuck head that has used up its commits has what it requires.** -/
theorem expireEffect (h : Consistent D w x) (hs : Stuck D w r)
    (hexhausted : maxRecommits < r.commits) (haccount : Accepted D w r userToken) :
    ∃ w' c, ExpireEffect D w w' r userToken c := by
  obtain ⟨hr, hseq, hv⟩ := h.stuck_spec hs
  have hhead : r.seq = x.head := hseq.trans h.head
  obtain ⟨t, ht, hmint, howner⟩ := haccount
  obtain ⟨snap, hsnap, hagrees⟩ := h.coherent.snapshot _ r hr hv
  obtain ⟨c, hprincipal, hescrow⟩ := h.returnPrincipal hr hhead ht hmint howner
  have hunrevealed : snap.isRevealed r.seedSlot = false := by
    have hnot := hagrees.revealed.not.mp (by simp [hs.unrevealed])
    simpa using hnot
  exact ⟨⟨_, _⟩, c, {
    request := hr
    request_vault := hv
    lock := by rw [h.coherent.lock _ r hr hv]; rfl
    account := ⟨t, ht, hmint, howner⟩
    seq := hseq
    unrevealed := hs.unrevealed
    randomness := ⟨snap, hsnap, hunrevealed⟩
    exhausted := hexhausted
    deadline_lt := hs.overdue.trans h.bounded.slot_lt
    overdue := hs.overdue
    principal := hprincipal
    refund := Or.inr hescrow
    counters := h.expireCounters hr hhead
    vault := rfl
    toChain := rfl }⟩

/-- **A stuck head recovers exactly if it can.** -/
theorem recovers_iff (h : Consistent D w x) (hs : Stuck D w r) :
    Recovers D w ↔ CanRecover D w r := by
  obtain ⟨hr, hseq, -⟩ := h.stuck_spec hs
  obtain ⟨-, huser, -⟩ := h.tickets.own _ r hr (Or.inr ⟨_, rfl⟩)
  refine ⟨h.canRecover hs, ?_⟩
  rintro (⟨hexhausted, userToken, haccount⟩ | ⟨hcommits, hreach, hslot, htotal⟩)
  · right
    obtain ⟨w', c, heff⟩ := h.expireEffect hs hexhausted haccount
    obtain ⟨y, -, hy⟩ := h.effect (.expired heff)
    obtain ⟨t, ht, -, -, hcheck⟩ := hy.closingCheck
    obtain ⟨s, hstokens, -⟩ := h.closingCheck
    refine ⟨r.user, r.randomness, r.user, userToken, D.assetAddress r.handedInIndex,
      (w', [.expired r.seq r.handIn]), ?_⟩
    rw [← hseq]
    exact heff.handleExpire_eq h.pool h.economics ⟨t, ht, hcheck⟩ (by rw [hstokens]; rfl) huser
      fun _ => rfl
  · left
    obtain ⟨w', snap, oracle, proofs, heff⟩ := h.recommitEffect hs hcommits hreach hslot htotal
    refine ⟨r.randomness, w.vault.sbQueue, oracle, proofs, (w', []), ?_⟩
    rw [← hseq]
    exact handleRecommitRandomness_eq_ok_iff.mpr ⟨rfl, r, snap, rfl, rfl, heff⟩

end Consistent

/-- **When a stuck head can be recovered.**  In every reachable state whose head is
unrevealed and overdue by more than the grace period, a re-commit or an expiry of it
succeeds for some caller exactly if its commits are used up and its user has a token
account of the mint, or it has commits left and a live oracle it has not used can be
reached, with room for the new deadline and the counter. -/
theorem stuck_head_recovers_iff (h : History D ls w) (hs : Stuck D w r) :
    Recovers D w ↔ CanRecover D w r := by
  obtain ⟨x, -, hx⟩ := h.consistent
  exact hx.recovers_iff hs

/-- The small vault long after a capture; `oracle` is the account of the oracle that
the capture did not use. -/
def later (w : World) (oracle : RawAccount) : World :=
  ⟨{ w.toChain with
    slot := 1_000_000
    accounts := Function.update w.accounts (.raw (Bytes32.fill 21)) oracle }, w.vault⟩

theorem later_envStep {oracle : RawAccount} (hslot : w.slot ≤ 1_000_000) :
    EnvStep smallVault 0 w (later w oracle) := by
  refine .of_accounts hslot (by decide) ?_
  rintro k (⟨i, rfl⟩ | ⟨seq, rfl⟩) <;>
    simp [Deployment.assetAddress, Deployment.mintEscrowAddress]

/-- The pending capture, which has used the live oracle of the queue, long after. -/
theorem exists_smallStuck (oracle : RawAccount) :
    ∃ ls w r, History smallVault ls w ∧ w.vault.isOpen = true ∧
      Stuck smallVault w r ∧ Accepted smallVault w r smallUserToken ∧ r.seq = 0 ∧
      r.commits = 1 ∧ r.usedOracles = [.raw (Bytes32.fill 22)] ∧ w.vault.sbQueue = smallQueue ∧
      w.accounts smallQueue = ⟨.switchboard, twoOraclesQueue⟩ ∧
      w.accounts (.raw (Bytes32.fill 21)) = oracle ∧ w.unixTimestamp = 1_000_000 ∧
      w.slot = 1_000_000 ∧ w.vault.totalRecommits = 0 := by
  obtain ⟨ls, w, h, hpending, hholder⟩ := exists_smallPending
  simp only [smallPending, smallHolder, Bool.and_eq_true, Option.any_eq_true, decide_eq_true_eq,
    Bool.not_eq_true'] at hpending hholder
  obtain ⟨⟨⟨⟨⟨⟨⟨hopen, hhead⟩, -⟩, -⟩, htotal⟩, hpinned⟩, ⟨hslot, htime⟩, hqueue⟩,
    ⟨r, hr, ⟨⟨⟨⟨⟨hseq, hunrevealed⟩, hcommits⟩, huser⟩, hused⟩, hoverdue⟩⟩⟩ := hpending
  obtain ⟨t, ht, hmint, howner⟩ := hholder
  have hsame : (later w oracle).accounts smallQueue = w.accounts smallQueue := by
    have hne : smallQueue ≠ .raw (Bytes32.fill 21) := by decide
    simp [later, hne]
  refine ⟨_, later w oracle, r, h.snoc (.environment (later_envStep hslot)),
    hopen, ⟨?_, hunrevealed, hoverdue⟩, ⟨t, ht, hmint, howner.trans huser.symm⟩, hseq, hcommits,
    hused, hpinned, hsame.trans hqueue, by simp [later], htime, rfl, htotal⟩
  show w.requests (smallVault.requestAddress w.vault.nextSettleSeq) = some r
  rw [hhead]
  exact hr

set_option maxRecDepth 20000 in
/-- With a second live oracle, the head recovers. -/
theorem stuck_head_recovers_small :
    ∃ ls w r, History smallVault ls w ∧ Stuck smallVault w r ∧ Recovers smallVault w := by
  obtain ⟨ls, w, r, h, -, hs, -, hseq, hcommits, hused, hpinned, hqueue, horacle, htime, hslot,
    htotal⟩ := exists_smallStuck freshOracle
  refine ⟨ls, w, r, h, hs, (stuck_head_recovers_iff h hs).mpr
    (Or.inr ⟨by rw [hcommits]; decide, ?_, ?_, ?_⟩)⟩
  · rw [hseq, hused, hpinned, htime]
    have hlive : isLive smallVault 1_000_000 freshOracle = true := by decide +kernel
    refine ⟨by rw [hqueue], by rw [hqueue]; exact twoOraclesQueue_accepted,
      ⟨.raw (Bytes32.fill 21), ?_, by decide +kernel, by rw [horacle, hlive]⟩, ?_⟩
    · rw [hqueue, listedKeys_twoOraclesQueue]
      simp
    · intro k hk hcand
      have hmem := mem_walkKeys_iff.mp ((List.takeWhile_sublist _).subset hk)
      have hdead := List.mem_takeWhile_imp hk
      rw [hqueue, listedKeys_twoOraclesQueue] at hmem
      rcases List.mem_pair.mp hmem with rfl | rfl
      · exact absurd hcand (by decide +kernel)
      · simp [hcand, horacle, hlive] at hdead
  · rw [hslot]
    decide
  · rw [htotal]
    decide

set_option maxRecDepth 20000 in
/-- **Dead oracles block the queue.**  The queue lists two oracles; the head has used one,
the other has stopped, and the user has a token account.  A day after the deadline, neither
a re-commit nor an expiry of the head succeeds, whoever calls it and with whatever
accounts. -/
theorem dead_oracles_block_the_queue :
    ∃ ls w r, History smallVault ls w ∧ w.vault.isOpen = true ∧
      Stuck smallVault w r ∧ (∃ userToken, Accepted smallVault w r userToken) ∧
      ¬ Recovers smallVault w := by
  obtain ⟨ls, w, r, h, hopen, hs, haccount, hseq, hcommits, hused, hpinned, hqueue, horacle, htime,
    -, -⟩ := exists_smallStuck stoppedOracle
  refine ⟨ls, w, r, h, hopen, hs, ⟨_, haccount⟩, ?_⟩
  intro hrec
  obtain ⟨x, -, hx⟩ := h.consistent
  rcases hx.canRecover hs hrec with ⟨hexhausted, -⟩ | ⟨-, hreach, -⟩
  · simp [hcommits, maxRecommits] at hexhausted
  · obtain ⟨k, hk, hcand, hlive⟩ := hreach.live
    rw [hpinned, hqueue, listedKeys_twoOraclesQueue] at hk
    rw [hused] at hcand
    rw [htime] at hlive
    rcases List.mem_pair.mp hk with rfl | rfl
    · exact absurd hcand (by decide +kernel)
    · rw [horacle] at hlive
      exact absurd hlive (by decide +kernel)

end HybridVault
