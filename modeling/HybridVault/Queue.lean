import HybridVault.Bookkeeping
import HybridVault.Foundations.SequencedPoolDraws
import HybridVault.Partition

/-!
# The queue

Requests are served first in, first out, and each exactly once.  Six instructions move
the two ends of the queue; a batch of expiries moves its head several times.  What ties
the accounts to the counters is the refinement: the pending requests are the tickets of
the sequenced pool, whose head moves by one with every ticket it resolves.

* `Queued` — in every reachable state the requests of the vault are exactly those between
  the two ends, and the counters count them.
* `Resolves` — what an act does to the queue: it pays the head what it is owed, and takes
  it out, or it leaves every request waiting.
-/

namespace HybridVault

open Foundations

variable {D : Deployment} {w w' : World} {x : SequencedPool.State ℕ} {ls : List Label}
  {r : Request}

/-! ## What is pending -/

/-- Every request paid the flat fee. -/
def FeesPaid (D : Deployment) (w : World) : Prop :=
  w.vault.totalFeeLamports = D.launchConfig.feeLamports.toNat * w.vault.nextSeq

/-- **The queue of a vault**: its request accounts are one for each number between the
two ends, and the counters agree with them. -/
structure Queued (D : Deployment) (w : World) : Prop where
  request : ∀ seq, w.vault.nextSettleSeq ≤ seq → seq < w.vault.nextSeq →
    ∃ r, w.requests (D.requestAddress seq) = some r ∧ r.seq = seq ∧ r.vault = D.vault
  only : ∀ k r, w.requests k = some r → (r.vault = D.vault ∨ ∃ seq, k = D.requestAddress seq) →
    r.vault = D.vault ∧ k = D.requestAddress r.seq ∧ w.vault.nextSettleSeq ≤ r.seq ∧
      r.seq < w.vault.nextSeq
  captures : w.vault.pendingCaptures
    = (pendingRequests D w).countP fun r => decide (r.kind = .capture)
  rerolls : w.vault.pendingRerolls
    = (pendingRequests D w).countP fun r => decide (r.kind = .reroll)
  resolved : w.vault.totalCaptures + w.vault.totalRerolls + w.vault.totalExpired
    = w.vault.nextSettleSeq
  fees : FeesPaid D w

theorem FeesPaid.effect (h : FeesPaid D w) {act : Act} (heff : Effect D w act w') :
    FeesPaid D w' := by
  cases heff with
  | @requested _ r _ _ sol heff =>
      have hfee := heff.fee
      simp only [requestFee, bind_eq_ok_iff, require_eq_ok_iff, pure_eq_ok_iff] at hfee
      obtain ⟨-, -, rfl⟩ := hfee
      have hnext : w'.vault.nextSeq = w.vault.nextSeq + 1 := by
        rw [heff.vault, Vault.requested_nextSeq]
      have htotal : w'.vault.totalFeeLamports
          = w.vault.totalFeeLamports + D.launchConfig.feeLamports.toNat := by
        rw [heff.vault]; cases r.kind <;> rfl
      rw [FeesPaid, hnext, htotal, h, Nat.mul_succ]
  | @settled _ r _ _ _ _ _ _ heff =>
      rw [FeesPaid, heff.vault_eq]
      cases r.kind <;> exact h
  | @expired _ r _ _ heff =>
      rw [FeesPaid, heff.vault]
      cases r.kind <;> exact h
  | released heff => rw [FeesPaid, heff.vault]; exact h
  | merged heff => rw [FeesPaid, heff.vault]; exact h
  | opened => exact h
  | randomnessCreated => exact h
  | revealed heff => rw [FeesPaid, heff.vault]; exact h
  | recommitted heff => rw [FeesPaid, heff.vault]; exact h
  | environment henv => rw [FeesPaid, henv.vault]; exact h

theorem History.feesPaid (h : History D ls w) : FeesPaid D w := by
  refine h.invariant (P := fun _ w => FeesPaid D w) ?_ fun _ _ _ _ _ _ hp heff => hp.effect heff
  intro w hcreated
  obtain ⟨c, params, -, hinit⟩ := hcreated.spec
  simp [FeesPaid, hinit.vault, initialVault]

theorem Request.isSome_handIn : r.handIn.isSome = decide (r.kind = .reroll) := by
  cases hk : r.kind <;> simp [Request.handIn, hk]

/-- The pending re-rolls are the tickets that carry an index. -/
theorem Tracks.countP_rerolls (h : Tracks D w x) :
    (pendingRequests D w).countP (fun r => decide (r.kind = .reroll))
      = x.queue.reduceOption.length := by
  rw [List.reduceOption_length_eq, ← h.map_handIn_pendingRequests, List.filter_map, List.length_map,
    List.countP_eq_length_filter]
  congr 1
  exact List.filter_congr fun r _ => Request.isSome_handIn.symm

/-- Every pending request is a capture or a re-roll. -/
theorem countP_captures_add_rerolls (rs : List Request) :
    rs.countP (fun r => decide (r.kind = .capture)) + rs.countP (fun r => decide (r.kind = .reroll))
      = rs.length := by
  induction rs with
  | nil => rfl
  | cons r rs ih =>
      simp only [List.countP_cons, List.length_cons]
      cases hk : r.kind <;> simp <;> omega

theorem Consistent.queued (h : Consistent D w x) (hfees : FeesPaid D w) : Queued D w where
  request := by
    intro seq hge hlt
    obtain ⟨r, hr, hseq, -⟩ := h.tickets.record seq (h.head ▸ hge) (h.next ▸ hlt)
    exact ⟨r, hr, hseq, (h.tickets.own _ r hr (Or.inr ⟨seq, rfl⟩)).1⟩
  only := by
    intro k r hr hours
    obtain ⟨hv, -, hk, hge, hlt⟩ := h.tickets.own k r hr hours
    exact ⟨hv, hk, h.head ▸ hge, h.next ▸ hlt⟩
  captures := by
    have hsplit := countP_captures_add_rerolls (pendingRequests D w)
    have hlen : (pendingRequests D w).length = x.queue.length := by
      rw [← h.map_handIn_pendingRequests, List.length_map]
    have hcount := h.countP_rerolls
    have hpending := h.pending
    have hrerolls := h.rerolls
    omega
  rerolls := h.rerolls.trans h.countP_rerolls.symm
  resolved := h.tallies.resolved
  fees := hfees

/-! ## What an act does to the queue -/

/-- What of a request no reveal and no re-commit changes. -/
def Request.terms (r : Request) : RequestKind × Pubkey × ℕ × Pubkey × ℕ :=
  (r.kind, r.vault, r.seq, r.user, r.handedInIndex)

/-- Every request of the vault waits as before. -/
structure Waits (D : Deployment) (w w' : World) : Prop where
  head : w'.vault.nextSettleSeq = w.vault.nextSettleSeq
  request : ∀ k r, w.requests k = some r → r.vault = D.vault →
    ∃ r', w'.requests k = some r' ∧ r'.terms = r.terms

/-- Request `r` is the head of the queue, and leaves it. -/
structure Leaves (D : Deployment) (w : World) (r : Request) (w' : World) : Prop where
  request : w.requests (D.requestAddress r.seq) = some r
  vault : r.vault = D.vault
  seq : r.seq = w.vault.nextSettleSeq
  head : w'.vault.nextSettleSeq = w.vault.nextSettleSeq + 1
  requests : w'.requests = Function.update w.requests (D.requestAddress r.seq) none

/-- Exactly one asset changes, and it goes to `user`: the asset of `index`, which the vault
held or which did not exist.  No tokens move. -/
structure GivesAsset (D : Deployment) (w : World) (index : ℕ) (user : Pubkey) (w' : World) :
    Prop where
  before : w.assets (D.assetAddress index) = .absent ∨
    ∃ a, w.assets (D.assetAddress index) = .live a ∧ a.owner = D.vaultAuthority
  after : ∃ a, a.owner = user ∧
    w'.assets = Function.update w.assets (D.assetAddress index) (.live a)
  tokens : w'.tokens = w.tokens

/-- Exactly `ratio` tokens go from the vault's account to an account of `user`.  No asset
changes. -/
structure GivesTokens (D : Deployment) (w : World) (user : Pubkey) (w' : World) : Prop where
  tokens : ∃ userToken s t, userToken ≠ D.vaultTokens ∧ w.tokens D.vaultTokens = some s ∧
    w.tokens userToken = some t ∧ t.mint = D.mint ∧ t.owner = user ∧ D.ratio ≤ s.amount ∧
    w'.tokens = moveTokens w.tokens D.vaultTokens userToken s t D.ratio
  assets : w'.assets = w.assets

/-- What a request is owed back when it expires. -/
def GivesBack (D : Deployment) (w : World) (r : Request) (w' : World) : Prop :=
  match r.kind with
  | .capture => GivesTokens D w r.user w'
  | .reroll => GivesAsset D w r.handedInIndex r.user w'

/-- **What an act does to the queue.**  A settle pays the head one asset, an expiry gives
it back what it put in, and either takes it out; any other act leaves every request
waiting. -/
def Resolves (D : Deployment) (w : World) (act : Act) (w' : World) : Prop :=
  match act with
  | .pool (.settled seq _ _ picked) =>
      ∃ r, r.seq = seq ∧ Leaves D w r w' ∧ GivesAsset D w picked r.user w'
  | .pool (.expired seq _) => ∃ r, r.seq = seq ∧ Leaves D w r w' ∧ GivesBack D w r w'
  | _ => Waits D w w'

theorem Waits.of_requests (hhead : w'.vault.nextSettleSeq = w.vault.nextSettleSeq)
    (hrequests : w'.requests = w.requests) : Waits D w w' :=
  ⟨hhead, fun _ r hr _ => ⟨r, by rw [hrequests]; exact hr, rfl⟩⟩

/-- One request is written, as the one that was there, if any. -/
theorem Waits.of_update (r' : Request) (hhead : w'.vault.nextSettleSeq = w.vault.nextSettleSeq)
    {key : Pubkey} (hrequests : w'.requests = Function.update w.requests key (some r'))
    (hold : ∀ r, w.requests key = some r → r'.terms = r.terms) : Waits D w w' := by
  refine ⟨hhead, ?_⟩
  intro k r hr _
  rw [hrequests]
  by_cases hk : k = key
  · subst hk
    exact ⟨r', Function.update_self .., hold r hr⟩
  · exact ⟨r, by rwa [Function.update_of_ne hk], rfl⟩

/-- A settle pays the head. -/
theorem SettleEffect.resolves {mint : Option MintArgs} {candidates : List ℕ} {picked : ℕ}
    {d : Bytes} {c : Chain} {v : Vault} (h : SettleEffect D w w' r mint candidates picked d c v) :
    Leaves D w r w' ∧ GivesAsset D w picked r.user w' := by
  obtain ⟨-, htokens, -, -, hrequests, -⟩ := h.frame
  obtain ⟨a, howner, -, hassets⟩ := h.assets_eq
  have hhead : w'.vault.nextSettleSeq = w.vault.nextSettleSeq + 1 := by
    rw [h.vault_eq, Vault.settled_nextSettleSeq]
  refine ⟨⟨h.request, h.request_vault, h.seq, hhead, hrequests⟩, ?_, ⟨a, howner, hassets⟩, htokens⟩
  cases h.handover with
  | delivered _ ha howner' => exact Or.inr ⟨_, ha, howner'⟩
  | minted _ _ _ _ hasset => exact Or.inl hasset.2

/-- An expiry gives the head back what it put in. -/
theorem ExpireEffect.resolves {userToken : Pubkey} {c : Chain}
    (h : ExpireEffect D w w' r userToken c) (hne : userToken ≠ D.vaultTokens) :
    Leaves D w r w' ∧ GivesBack D w r w' := by
  obtain ⟨-, -, -, -, hrequests, -⟩ := h.frame
  have hhead : w'.vault.nextSettleSeq = w.vault.nextSettleSeq + 1 := by
    rw [h.vault, Vault.expired_nextSettleSeq]
  refine ⟨⟨h.request, h.request_vault, h.seq, hhead, hrequests⟩, ?_⟩
  rw [GivesBack]
  cases hk : r.kind with
  | capture =>
      obtain ⟨s, t, hs, ht, hamount, htokens⟩ := h.capture_tokens hk hne
      obtain ⟨t', ht', hmint, howner⟩ := h.account
      obtain rfl := Option.some.inj (ht.symm.trans ht')
      exact ⟨⟨userToken, s, t, hne, hs, ht, hmint, howner, hamount, htokens⟩, h.capture_assets hk⟩
  | reroll =>
      obtain ⟨htokens, a, ha, howner, -, hassets⟩ := h.reroll hk
      exact ⟨Or.inr ⟨a, ha, howner⟩, ⟨_, rfl, hassets⟩, htokens⟩

/-- **Every effect resolves the head or leaves the queue alone.** -/
theorem Consistent.resolves (h : Consistent D w x) {act : Act} (heff : Effect D w act w') :
    Resolves D w act w' := by
  cases heff with
  | @requested _ r _ _ _ heff =>
      refine Waits.of_update r (by rw [heff.vault, Vault.requested_nextSettleSeq])
        heff.requests_eq ?_
      intro s hs
      simp [heff.request_none] at hs
  | settled heff => exact ⟨_, rfl, heff.resolves⟩
  | @expired _ r userToken _ heff =>
      obtain ⟨t, ht, -, howner⟩ := heff.account
      obtain ⟨-, huser, -⟩ := h.tickets.own _ r heff.request (Or.inr ⟨_, rfl⟩)
      obtain ⟨donated, htreasury⟩ := h.treasury
      exact ⟨r, rfl, heff.resolves (htreasury.ne_vaultTokens ht howner huser)⟩
  | released heff => exact Waits.of_requests (by rw [heff.vault]; rfl) (by rw [heff.toChain]; rfl)
  | merged heff => exact Waits.of_requests (by rw [heff.vault]) (by rw [heff.toChain]; rfl)
  | opened => exact Waits.of_requests rfl rfl
  | randomnessCreated => exact Waits.of_requests rfl rfl
  | @revealed _ r _ value heff =>
      refine Waits.of_update { r with revealed := true, value := value } (by rw [heff.vault])
        (by rw [heff.toChain]; rfl) ?_
      intro s hs
      obtain rfl := Option.some.inj (heff.request.symm.trans hs)
      rfl
  | @recommitted _ r _ _ oracle _ heff =>
      refine Waits.of_update (r.recommitted w.slot oracle) (by rw [heff.vault])
        (by rw [heff.toChain]; rfl) ?_
      intro s hs
      obtain rfl := Option.some.inj (heff.request.symm.trans hs)
      rfl
  | environment henv =>
      refine ⟨by rw [henv.vault], fun k r hr hv => ⟨r, (henv.requests k r hv).mpr hr, rfl⟩⟩

theorem Consistent.run_resolves (h : Consistent D w x) {acts : List Act}
    (hrun : Run (Effect D) w acts w') : Run (Resolves D) w acts w' := by
  refine hrun.under (I := fun w => ∃ x, Consistent D w x) ?_
    (fun _ _ _ ⟨_, hx⟩ heff => hx.resolves heff) ⟨x, h⟩
  rintro s act t ⟨y, hy⟩ heff
  obtain ⟨z, -, hz⟩ := hy.effect heff
  exact ⟨z, hz⟩

/-! ## The queue -/

/-- **First in, first out, and each once.**  In every reachable state the requests of the
vault are one for each number between the two ends of the queue, and the counters agree
with them.  The numbers resolved so far are all below the head, each once and in order; and
whatever instruction comes next, each of its acts resolves the head — a settle with one
asset for its user, an expiry with what it put in — or leaves every request waiting. -/
theorem fifo_queue (h : History D ls w) :
    Queued D w ∧
      SequencedPool.resolvedTickets (poolEvents ls) = List.range w.vault.nextSettleSeq ∧
      ∀ l w', Step D w l w' → Run (Resolves D) w l.acts w' := by
  obtain ⟨x, hrun, hx⟩ := h.consistent
  refine ⟨hx.queued h.feesPaid, ?_, fun l w' hstep => hx.run_resolves (hx.effects_of_step hstep)⟩
  rw [SequencedPool.resolvedTickets_of_run hrun, hx.head]
  exact List.range_eq_range'.symm

/-- The first request of the small vault is resolved. -/
theorem fifo_queue_small :
    ∃ ls w, History smallVault ls w ∧ 0 < w.vault.nextSettleSeq ∧ Queued smallVault w ∧
      SequencedPool.resolvedTickets (poolEvents ls) = List.range w.vault.nextSettleSeq := by
  obtain ⟨ls, w, h, -, -, es, hes⟩ := exists_smallSettled
  obtain ⟨hqueued, hresolved, -⟩ := fifo_queue h
  refine ⟨ls, w, h, List.mem_range.mp (hresolved ▸ ?_), hqueued, hresolved⟩
  simp [SequencedPool.resolvedTickets, hes, SequencedPool.Event.resolution]

end HybridVault
