import HybridVault.LastResort

/-!
# The mint escrow

A request deposits the worst-case cost of a mint in an escrow of its own.  Lamports then
move through five accounts on three paths — a mint, a transfer, an expiry — and anyone may
have sent more to the escrow or to the address of the asset before.

* `Refund` — what one resolved request is paid out: what the escrow and the address of a
  new asset held, less what the new asset cost, and the rents of the two closed accounts.
* `Refunded` — the law of all three paths, and of a batch: every address of the chain is
  accounted for, so that no lamport is left behind and none is taken from anyone.
-/

namespace HybridVault

open Foundations

variable {D : Deployment} {w w' w₁ : World} {x : SequencedPool.State ℕ} {ls : List Label}
  {r : Request}

/-! ## Emptying accounts -/

/-- The lamports after an escrow is refunded and the accounts of its request are
closed. -/
def refundedLamports (l : Pubkey → ℕ) (escrow request lock user : Pubkey) : Pubkey → ℕ :=
  let l := moveAmount l escrow user (l escrow)
  let l := moveAmount l request user (l request)
  moveAmount l lock user (l lock)

theorem closeRequest_lamports {c : Chain} {escrow request lock user : Pubkey} :
    (closeRequest (c.setLamports (moveAmount c.lamports escrow user (c.lamports escrow))) request
      lock user).lamports = refundedLamports c.lamports escrow request lock user := rfl

/-- Three accounts are emptied into a fourth. -/
theorem refundedLamports_spec (l : Pubkey → ℕ) {escrow request lock user : Pubkey}
    (hescrow : escrow ≠ user) (hrequest : request ≠ user) (hlock : lock ≠ user)
    (her : escrow ≠ request) (hel : escrow ≠ lock) (hrl : request ≠ lock) :
    (∀ k ∈ [escrow, request, lock], refundedLamports l escrow request lock user k = 0) ∧
      refundedLamports l escrow request lock user user
        = l user + l escrow + l request + l lock ∧
      ∀ k, k ∉ [escrow, request, lock] → k ≠ user →
        refundedLamports l escrow request lock user k = l k := by
  refine ⟨?_, ?_, ?_⟩
  · intro k hk
    simp only [List.mem_cons, List.not_mem_nil, or_false] at hk
    rcases hk with rfl | rfl | rfl
    · rw [refundedLamports, moveAmount_of_ne hel hescrow, moveAmount_of_ne her hescrow,
        moveAmount_source hescrow, Nat.sub_self]
    · rw [refundedLamports, moveAmount_of_ne hrl hrequest, moveAmount_source hrequest,
        Nat.sub_self]
    · rw [refundedLamports, moveAmount_source hlock, Nat.sub_self]
  · rw [refundedLamports, moveAmount_dest hlock, moveAmount_dest hrequest, moveAmount_dest hescrow,
      moveAmount_of_ne (Ne.symm hrl) hlock, moveAmount_of_ne (Ne.symm hel) hlock,
      moveAmount_of_ne (Ne.symm her) hrequest]
  · intro k hk hu
    simp only [List.mem_cons, List.not_mem_nil, or_false, not_or] at hk
    obtain ⟨he, hr, hl⟩ := hk
    rw [refundedLamports, moveAmount_of_ne hl hu, moveAmount_of_ne hr hu, moveAmount_of_ne he hu]

/-! ## Refunds -/

/-- A request that is resolved, the address of the asset that this creates, if any, and what
Core charges for that. -/
structure Refund where
  request : Request
  created : Option Pubkey
  cost : ℕ

namespace Refund

/-- The accounts that are emptied: the escrow, and the two that are closed. -/
def closes (D : Deployment) (p : Refund) : List Pubkey :=
  [D.mintEscrowAddress p.request.seq, D.requestAddress p.request.seq,
    .randLock p.request.randomness]

/-- What there is to pay the new asset with: the escrow, and what anyone sent ahead to the
asset's address. -/
def funds (D : Deployment) (w : World) (p : Refund) : ℕ :=
  w.lamports (D.mintEscrowAddress p.request.seq) + p.created.elim 0 w.lamports

/-- **What the user gets**: the rest of the funds, and the two rents. -/
def amount (D : Deployment) (w : World) (p : Refund) : ℕ :=
  p.funds D w - p.cost
    + (w.lamports (D.requestAddress p.request.seq) + w.lamports (.randLock p.request.randomness))

/-- Nothing is created when a request expires, or is settled with an asset that exists. -/
def plain (r : Request) : Refund := ⟨r, none, 0⟩

end Refund

/-- What `refunds` pay out to `user` together. -/
def payout (D : Deployment) (w : World) (refunds : List Refund) (user : Pubkey) : ℕ :=
  (refunds.map fun p => if p.request.user = user then p.amount D w else 0).sum

/-- **From `w` to `w'` exactly `refunds` were made.**  The accounts they close are empty and
the requests gone; an asset created holds what it cost; every wallet has got its payout and
nothing else; and all other addresses, the vault authority's among them, hold what they
held. -/
structure Refunded (D : Deployment) (w : World) (refunds : List Refund) (w' : World) : Prop where
  request : ∀ p ∈ refunds, w.requests (D.requestAddress p.request.seq) = some p.request
  cost_le : ∀ p ∈ refunds, p.cost ≤ p.funds D w
  closed : ∀ p ∈ refunds, ∀ k ∈ p.closes D, w'.lamports k = 0
  created : ∀ p ∈ refunds, ∀ k ∈ p.created, w'.lamports k = p.cost
  wallet : ∀ k, k.IsSigner → w'.lamports k = w.lamports k + payout D w refunds k
  authority : w'.lamports D.vaultAuthority = w.lamports D.vaultAuthority
  others : ∀ k, ¬ k.IsSigner → (∀ p ∈ refunds, k ∉ p.closes D ∧ k ∉ p.created) →
    w'.lamports k = w.lamports k
  gone : ∀ p ∈ refunds, w'.requests (D.requestAddress p.request.seq) = none
  kept : ∀ k, (∀ p ∈ refunds, k ≠ D.requestAddress p.request.seq) → w'.requests k = w.requests k

theorem Refund.not_isSigner_of_mem_closes {p : Refund} {k : Pubkey} (hk : k ∈ p.closes D) :
    ¬ k.IsSigner := by
  simp only [Refund.closes, List.mem_cons, List.not_mem_nil, or_false] at hk
  rcases hk with rfl | rfl | rfl <;> exact id

theorem Refund.assetAddress_not_mem_closes {p : Refund} (i : ℕ) :
    D.assetAddress i ∉ p.closes D := by
  simp [Refund.closes, Deployment.assetAddress, Deployment.mintEscrowAddress,
    Deployment.requestAddress]

theorem Refund.vaultAuthority_not_mem_closes {p : Refund} : D.vaultAuthority ∉ p.closes D := by
  simp [Refund.closes, Deployment.vaultAuthority, Deployment.mintEscrowAddress,
    Deployment.requestAddress]

/-- Accounts of different requests with different randomness are different. -/
theorem Refund.disjoint_closes {p q : Refund} (hseq : q.request.seq ≠ p.request.seq)
    (hrandomness : q.request.randomness ≠ p.request.randomness) {k : Pubkey}
    (hk : k ∈ q.closes D) : k ∉ p.closes D := by
  simp only [Refund.closes, List.mem_cons, List.not_mem_nil, or_false, not_or] at hk ⊢
  rcases hk with rfl | rfl | rfl <;>
    simp [Deployment.mintEscrowAddress, Deployment.requestAddress, hseq, hrandomness]

/-! ## One refund -/

section Single

variable {l : Pubkey → ℕ} {created : Option Pubkey} {cost : ℕ}

/-- Emptying the accounts of `r` from lamports `l`, which differ from those of `w` in the
escrow and at the address of the asset created. -/
theorem Refunded.of_refundedLamports (hr : w.requests (D.requestAddress r.seq) = some r)
    (huser : r.user.IsSigner)
    (hlamports : w'.lamports = refundedLamports l (D.mintEscrowAddress r.seq)
      (D.requestAddress r.seq) (.randLock r.randomness) r.user)
    (hrequests : w'.requests = Function.update w.requests (D.requestAddress r.seq) none)
    (hasset : ∀ k ∈ created, ∃ i, k = D.assetAddress i) (hcreated : ∀ k ∈ created, l k = cost)
    (hcost : cost ≤ (Refund.mk r created cost).funds D w)
    (hescrow : l (D.mintEscrowAddress r.seq) + cost = (Refund.mk r created cost).funds D w)
    (hl : ∀ k, k ≠ D.mintEscrowAddress r.seq → k ∉ created → l k = w.lamports k) :
    Refunded D w [⟨r, created, cost⟩] w' := by
  have hne : ∀ k ∈ (Refund.mk r created cost).closes D, k ≠ r.user := by
    rintro k hk rfl
    exact Refund.not_isSigner_of_mem_closes hk huser
  have hue := hne (D.mintEscrowAddress r.seq) (by simp [Refund.closes])
  have hur := hne (D.requestAddress r.seq) (by simp [Refund.closes])
  have hul := hne (.randLock r.randomness) (by simp [Refund.closes])
  obtain ⟨hzero, hpaid, hrest⟩ := refundedLamports_spec l hue hur hul
    (by simp [Deployment.mintEscrowAddress, Deployment.requestAddress])
    (by simp [Deployment.mintEscrowAddress]) (by simp [Deployment.requestAddress])
  rw [← hlamports] at hzero hpaid hrest
  -- what is created is neither closed nor a wallet
  have hnew : ∀ k ∈ created, k ∉ (Refund.mk r created cost).closes D ∧ ¬ k.IsSigner := by
    intro k hk
    obtain ⟨i, rfl⟩ := hasset k hk
    exact ⟨Refund.assetAddress_not_mem_closes i, id⟩
  have hkeep : ∀ k, k ∉ (Refund.mk r created cost).closes D → k ∉ created → k ≠ r.user →
      w'.lamports k = w.lamports k := by
    intro k hk hnot hu
    rw [hrest k hk hu, hl k (fun h => hk (by simp [Refund.closes, h])) hnot]
  exact {
    request := by simpa using hr
    cost_le := by simpa using hcost
    closed := by
      intro p hp
      obtain rfl := List.mem_singleton.mp hp
      exact hzero
    created := by
      intro p hp k hk
      obtain rfl := List.mem_singleton.mp hp
      obtain ⟨hopen, hsigner⟩ := hnew k hk
      rw [hrest k hopen (fun h => hsigner (h ▸ huser)), hcreated k hk]
    wallet := by
      intro k hk
      have hfresh : k ∉ created := fun h => (hnew k h).2 hk
      by_cases hu : r.user = k
      · subst hu
        -- the two rents are as they were
        have hrequest := hl (D.requestAddress r.seq)
          (by simp [Deployment.mintEscrowAddress, Deployment.requestAddress])
          fun h => (hnew _ h).1 (by simp [Refund.closes])
        have hlock := hl (.randLock r.randomness) (by simp [Deployment.mintEscrowAddress])
          fun h => (hnew _ h).1 (by simp [Refund.closes])
        rw [hpaid, hl _ hue.symm hfresh, hrequest, hlock]
        simp only [payout, Refund.amount, List.map_cons, List.map_nil, List.sum_singleton, if_true]
        omega
      · rw [hkeep k (fun h => Refund.not_isSigner_of_mem_closes h hk) hfresh (Ne.symm hu)]
        simp [payout, hu]
    authority := by
      refine hkeep _ Refund.vaultAuthority_not_mem_closes ?_ ?_
      · intro h
        obtain ⟨i, hi⟩ := hasset _ h
        simp [Deployment.vaultAuthority, Deployment.assetAddress] at hi
      · intro h
        rw [← h] at huser
        exact huser
    others := by
      intro k hk hnot
      obtain ⟨hclosed, hfresh⟩ := hnot _ (List.mem_singleton_self _)
      exact hkeep k hclosed hfresh (fun h => hk (h ▸ huser))
    gone := by
      intro p hp
      obtain rfl := List.mem_singleton.mp hp
      rw [hrequests, Function.update_self]
    kept := by
      intro k hk
      rw [hrequests, Function.update_of_ne (hk _ (List.mem_singleton_self _))] }

end Single

/-! ## The three paths -/

/-- An expiry returns all of the escrow. -/
theorem ExpireEffect.refunded {userToken : Pubkey} {c : Chain}
    (h : ExpireEffect D w w' r userToken c) (huser : r.user.IsSigner) :
    Refunded D w [.plain r] w' := by
  obtain ⟨-, tokens, assets, hc⟩ := returnPrincipal_eq_ok h.principal
  have hl : c.lamports = w.lamports := by rw [hc]; rfl
  have hlamports : w'.lamports = refundedLamports w.lamports (D.mintEscrowAddress r.seq)
      (D.requestAddress r.seq) (.randLock r.randomness) r.user := by
    rw [h.toChain, closeRequest_lamports, hl]
  exact .of_refundedLamports h.request huser hlamports h.frame.2.2.2.2.1 (by simp) (by simp)
    (Nat.zero_le _) rfl fun _ _ _ => rfl

/-- A settle that transfers returns all of the escrow; one that mints takes the cost of the
new asset out of it, and puts in what was at the asset's address. -/
theorem SettleEffect.refunded {mint : Option MintArgs} {candidates : List ℕ} {picked : ℕ}
    {d : Bytes} {c : Chain} {v : Vault} (h : SettleEffect D w w' r mint candidates picked d c v)
    (huser : r.user.IsSigner) :
    (w.assets (D.assetAddress picked) ≠ .absent ∧ Refunded D w [.plain r] w') ∨
      (w.assets (D.assetAddress picked) = .absent ∧ ∃ a,
        w'.assets (D.assetAddress picked) = .live a ∧
        Refunded D w [⟨r, some (D.assetAddress picked), D.coreCreateCost a.name a.uri⟩] w') := by
  have hlamports : w'.lamports = refundedLamports c.lamports (D.mintEscrowAddress r.seq)
      (D.requestAddress r.seq) (.randLock r.randomness) r.user := by
    rw [h.toChain, closeRequest_lamports]
  have hrequests := h.frame.2.2.2.2.1
  have hassets : w'.assets = c.assets := by rw [h.toChain]; rfl
  cases h.handover with
  | delivered _ ha =>
      have ha : w.assets (D.assetAddress picked) = .live _ := ha
      exact Or.inl ⟨by simp [ha], .of_refundedLamports h.request huser hlamports hrequests (by simp)
        (by simp) (Nat.zero_le _) rfl fun _ _ _ => rfl⟩
  | @minted m col d' _ _ _ _ hasset _ hcost =>
      have hne : D.assetAddress picked ≠ D.mintEscrowAddress r.seq := by
        simp [Deployment.assetAddress, Deployment.mintEscrowAddress]
      refine Or.inr ⟨hasset.2, _, by rw [hassets]; exact Function.update_self .., ?_⟩
      refine .of_refundedLamports h.request huser hlamports hrequests ?_ ?_ hcost ?_ ?_
      · intro k hk
        exact ⟨picked, (Option.some.inj hk).symm⟩
      · intro k hk
        obtain rfl := Option.some.inj hk
        simp only [Chain.setPool_lamports, minted, Chain.setLamports_lamports, mintLamports]
        rw [moveAmount_dest hne.symm, moveAmount_source hne, Nat.sub_self, Nat.zero_add]
      · simp only [Chain.setPool_lamports, minted, Chain.setLamports_lamports, mintLamports]
        rw [moveAmount_source hne.symm, moveAmount_dest hne]
        exact Nat.sub_add_cancel hcost
      · intro k hke hka
        have hka : k ≠ D.assetAddress picked := fun h => hka (h ▸ rfl)
        simp only [Chain.setPool_lamports, minted, Chain.setLamports_lamports, mintLamports]
        rw [moveAmount_of_ne hke hka, moveAmount_of_ne hka hke]

/-! ## Batches -/

/-- What a request is refunded depends on the lamports of its own accounts only. -/
theorem Refund.amount_plain_congr
    (h : ∀ k ∈ (Refund.plain r).closes D, w'.lamports k = w.lamports k) :
    (Refund.plain r).amount D w' = (Refund.plain r).amount D w := by
  have hescrow := h (D.mintEscrowAddress r.seq) (by simp [Refund.closes, Refund.plain])
  have hrequest := h (D.requestAddress r.seq) (by simp [Refund.closes, Refund.plain])
  have hlock := h (.randLock r.randomness) (by simp [Refund.closes, Refund.plain])
  simp only [Refund.amount, Refund.funds, Refund.plain, Option.elim_none, hescrow, hrequest, hlock]

theorem payout_plain_congr {rs : List Request}
    (h : ∀ s ∈ rs, ∀ k ∈ (Refund.plain s).closes D, w'.lamports k = w.lamports k)
    (user : Pubkey) : payout D w' (rs.map .plain) user = payout D w (rs.map .plain) user := by
  simp only [payout, List.map_map]
  congr 1
  apply List.map_congr_left
  intro s hs
  simp only [Function.comp_apply, Refund.amount_plain_congr (h s hs)]

namespace Refunded

variable {rs : List Request}

/-- Refunds leave the accounts of every other request as they are. -/
theorem lamports_of_mem_closes (h : Refunded D w (rs.map .plain) w')
    (hne : ∀ s ∈ rs, r.seq ≠ s.seq ∧ r.randomness ≠ s.randomness) {k : Pubkey}
    (hk : k ∈ (Refund.plain r).closes D) : w'.lamports k = w.lamports k := by
  refine h.others k (Refund.not_isSigner_of_mem_closes hk) ?_
  intro p hp
  obtain ⟨s, hs, rfl⟩ := List.mem_map.mp hp
  obtain ⟨hseq, hrandomness⟩ := hne s hs
  exact ⟨Refund.disjoint_closes hseq hrandomness hk, by simp [Refund.plain]⟩

theorem requests_of_seq_ne (h : Refunded D w (rs.map .plain) w') {seq : ℕ}
    (hne : ∀ s ∈ rs, seq ≠ s.seq) :
    w'.requests (D.requestAddress seq) = w.requests (D.requestAddress seq) := by
  refine h.kept _ ?_
  intro p hp
  obtain ⟨s, hs, rfl⟩ := List.mem_map.mp hp
  rw [Ne, requestAddress_inj]
  exact hne s hs

/-- **Refunds add up**, where the requests and their randomness are different. -/
theorem cons (h : Refunded D w [.plain r] w₁) (h' : Refunded D w₁ (rs.map .plain) w')
    (hne : ∀ s ∈ rs, s.seq ≠ r.seq ∧ s.randomness ≠ r.randomness) :
    Refunded D w ((r :: rs).map .plain) w' := by
  have hfirst : Refunded D w ([r].map .plain) w₁ := h
  have hmem := List.mem_singleton_self (Refund.plain r)
  -- the first refund leaves the accounts of the rest, and the rest those of the first
  have hbefore : ∀ s ∈ rs, ∀ k ∈ (Refund.plain s).closes D, w₁.lamports k = w.lamports k :=
    fun s hs k hk => hfirst.lamports_of_mem_closes (by simpa using hne s hs) hk
  have hafter : ∀ k ∈ (Refund.plain r).closes D, w'.lamports k = w₁.lamports k := by
    intro k hk
    refine h'.lamports_of_mem_closes ?_ hk
    intro s hs
    exact ⟨(hne s hs).1.symm, (hne s hs).2.symm⟩
  simp only [List.map_cons]
  exact {
    request := by
      rw [List.forall_mem_cons]
      refine ⟨h.request _ hmem, ?_⟩
      intro p hp
      rw [← h'.request p hp]
      obtain ⟨s, hs, rfl⟩ := List.mem_map.mp hp
      exact (hfirst.requests_of_seq_ne (by simpa [Refund.plain] using (hne s hs).1)).symm
    cost_le := by
      rw [← List.map_cons]
      intro p hp
      obtain ⟨s, -, rfl⟩ := List.mem_map.mp hp
      exact Nat.zero_le _
    closed := by
      rw [List.forall_mem_cons]
      refine ⟨?_, h'.closed⟩
      intro k hk
      rw [hafter k hk]
      exact h.closed _ hmem k hk
    created := by
      rw [← List.map_cons]
      intro p hp k hk
      obtain ⟨s, -, rfl⟩ := List.mem_map.mp hp
      simp [Refund.plain] at hk
    wallet := by
      intro k hk
      rw [h'.wallet k hk, h.wallet k hk, payout_plain_congr hbefore]
      simp only [payout, List.map_cons, List.map_nil, List.sum_cons, List.sum_nil]
      omega
    authority := h'.authority.trans h.authority
    others := by
      intro k hk hnot
      rw [List.forall_mem_cons] at hnot
      rw [h'.others k hk hnot.2, h.others k hk (by simpa using hnot.1)]
    gone := by
      rw [List.forall_mem_cons]
      refine ⟨?_, h'.gone⟩
      rw [← h.gone _ hmem]
      exact h'.requests_of_seq_ne fun s hs => (hne s hs).1.symm
    kept := by
      intro k hnot
      rw [List.forall_mem_cons] at hnot
      rw [h'.kept k hnot.2, h.kept k (by simpa using hnot.1)] }

end Refunded

theorem Refunded.nil (D : Deployment) (w : World) : Refunded D w [] w := by
  constructor <;> simp [payout]

/-- **A batch of expiries** refunds the heads it resolves. -/
theorem Consistent.expiries_refunded {es : List PoolEvent} (h : Consistent D w x)
    (hrun : Run (ExpireStep D) w es w') :
    ∃ rs : List Request, rs.map Request.seq = List.range' w.vault.nextSettleSeq es.length ∧
      es = rs.map (fun r => .expired r.seq r.handIn) ∧ Refunded D w (rs.map .plain) w' := by
  induction hrun generalizing x with
  | nil w => exact ⟨[], rfl, rfl, .nil D w⟩
  | @cons v w w' e es hstep _ ih =>
      obtain ⟨r, userToken, c, heff, rfl⟩ := hstep
      obtain ⟨hv, huser, -⟩ := h.tickets.own _ r heff.request (Or.inr ⟨_, rfl⟩)
      obtain ⟨y, -, hy⟩ := h.effect (.expired heff)
      obtain ⟨rs, hseqs, hes, hrest⟩ := ih hy
      have hfirst := heff.refunded huser
      have hhead := heff.nextSettleSeq
      refine ⟨r :: rs, ?_, by rw [List.map_cons, ← hes], hfirst.cons hrest ?_⟩
      · rw [List.map_cons, hseqs, List.length_cons, List.range'_succ, hhead, heff.seq]
      · intro s hs
        have hmem : s.seq ∈ List.range' w.vault.nextSettleSeq es.length :=
          hseqs ▸ List.mem_map_of_mem hs
        have hle := (List.mem_range'_1.mp hmem).1
        have hseq := heff.seq
        have hne : s.seq ≠ r.seq := by omega
        refine ⟨hne, ?_⟩
        intro hsame
        -- both were pending at once
        have hkept : Refunded D v ([r].map .plain) w := hfirst
        have hs' : v.requests (D.requestAddress s.seq) = some s := by
          rw [← hkept.requests_of_seq_ne (by simpa using hne)]
          exact hrest.request _ (List.mem_map_of_mem hs)
        obtain ⟨hsv, -⟩ := h.tickets.own _ s hs' (Or.inr ⟨_, rfl⟩)
        have hkey := h.coherent.randomness_inj h.tickets hs' hsv heff.request hv hsame
        exact hne (requestAddress_inj.mp hkey)

/-! ## Conservation -/

/-- **Mint-escrow conservation.**  In every reachable state the escrow of every pending
request is a system account without data that holds the deposit at least.  A settle that
succeeds refunds the request it names: less what Core charged for the asset and with what
was at its address, if the asset did not exist; all of it, if it did.  An expiry refunds the
request it names, and a batch of expiries as many heads of the queue as it counts. -/
theorem escrow_conservation (h : History D ls w) :
    (∀ k r, w.requests k = some r → r.vault = D.vault → w.Dataless (D.mintEscrowAddress r.seq) ∧
      mintEscrowLamports ≤ w.lamports (D.mintEscrowAddress r.seq)) ∧
    (∀ settler request randomness asset user kind mint w' es,
      handleSettle D w settler request randomness asset user kind mint = .ok (w', es) →
      ∃ r, request = D.requestAddress r.seq ∧ user = r.user ∧
        ((w.assets asset ≠ .absent ∧ Refunded D w [.plain r] w') ∨
          (w.assets asset = .absent ∧ ∃ a, w'.assets asset = .live a ∧
            Refunded D w [⟨r, some asset, D.coreCreateCost a.name a.uri⟩] w'))) ∧
    (∀ caller request randomness user userToken asset w' es,
      handleExpire D w caller request randomness user userToken asset = .ok (w', es) →
      ∃ r, request = D.requestAddress r.seq ∧ user = r.user ∧ Refunded D w [.plain r] w') ∧
    ∀ caller remaining count w' es,
      handleExpireBatch D w caller remaining count = .ok (w', es) →
      ∃ rs : List Request, rs.map Request.seq = List.range' w.vault.nextSettleSeq count ∧
        es = rs.map (fun r => .expired r.seq r.handIn) ∧ Refunded D w (rs.map .plain) w' := by
  obtain ⟨x, -, hx⟩ := h.consistent
  refine ⟨?_, ?_, ?_, ?_⟩
  · intro k r hr hv
    obtain ⟨-, -, -, hge, hlt⟩ := hx.tickets.own k r hr (Or.inl hv)
    exact ⟨(hx.escrow_spec hge hlt).1, (hx.funded r.seq (hx.head ▸ hge) (hx.next ▸ hlt)).2⟩
  · intro settler request randomness asset user kind mint w' es hsettle
    obtain ⟨r, candidates, picked, d, c, v, -, -, ⟨rfl, -, rfl, rfl⟩, heff⟩ :=
      handleSettle_eq_ok hx.pool hsettle
    obtain ⟨-, huser, -⟩ := hx.tickets.own _ r heff.request (Or.inr ⟨_, rfl⟩)
    exact ⟨r, rfl, rfl, heff.refunded huser⟩
  · intro caller request randomness user userToken asset w' es hexpire
    obtain ⟨r, c, heff, -, hnames, -⟩ := handleExpire_eq_ok hx.pool hexpire
    obtain ⟨-, huser, -⟩ := hx.tickets.own _ r heff.request (Or.inr ⟨_, rfl⟩)
    exact ⟨r, hnames.request, hnames.user, heff.refunded huser⟩
  · intro caller remaining count w' es hbatch
    obtain ⟨hrun, -, hlen, -⟩ := handleExpireBatch_eq_ok hx.pool hbatch
    rw [← hlen]
    exact hx.expiries_refunded hrun

/-- The settle of the revealed capture, which mints; then, in the run where no oracle
reveals, the expiry of the first capture, and of the two behind it together. -/
theorem escrow_conservation_small :
    (∃ ls w w' r cost, History smallVault ls w ∧ r.user = smallUser ∧
      perform smallVault w smallSettle
        = .ok (w', [.settled 0 smallValue (List.range 100) 26]) ∧
      Refunded smallVault w [⟨r, some (smallVault.assetAddress 26), cost⟩] w') ∧
    ∃ ls w w₁ w₂ r₀ r₁ r₂, History smallVault ls w ∧
      perform smallVault w smallExpire = .ok (w₁, [.expired 0 none]) ∧
      Refunded smallVault w [.plain r₀] w₁ ∧
      perform smallVault w₁ (.expireRequests smallUser smallPair 2)
        = .ok (w₂, [.expired 1 none, .expired 2 none]) ∧
      r₁.user = smallUser ∧ r₂.user = otherUser ∧
      Refunded smallVault w₁ [.plain r₁, .plain r₂] w₂ := by
  constructor
  · obtain ⟨ls₀, w₀, w₁, w₂, w₃, h, hcapture, -, -, ⟨es, hreveal⟩, hrevealed, hsettle, -⟩ :=
      exists_smallStory
    simp only [smallRevealed, Bool.and_eq_true, decide_eq_true_eq] at hrevealed
    have hreached := (h.snoc (.instruction hcapture)).snoc (.instruction hreveal)
    obtain ⟨r, -, huser, hrefunded⟩ :=
      (escrow_conservation hreached).2.1 _ _ _ _ _ _ _ _ _ hsettle
    rcases hrefunded with ⟨hpresent, -⟩ | ⟨-, a, -, hrefunded⟩
    · exact absurd hrevealed.1 hpresent
    · exact ⟨_, w₂, w₃, r, _, hreached, huser.symm, hsettle, hrefunded⟩
  · obtain ⟨ls, w, w₁, h, -, -, -, hexpire, -, hripe₁, hripe₂, w₂, hboth⟩ := exists_smallRipe
    have h₁ := h.snoc (.instruction hexpire)
    obtain ⟨r₀, -, -, hfirst⟩ := (escrow_conservation h).2.2.1 _ _ _ _ _ _ _ _ hexpire
    obtain ⟨rs, hseqs, hes, hrest⟩ := (escrow_conservation h₁).2.2.2 _ _ _ _ _ hboth
    obtain ⟨r₁, r₂, rfl⟩ : ∃ r₁ r₂, rs = [r₁, r₂] :=
      List.length_eq_two.mp (by simpa using (congrArg List.length hes).symm)
    simp only [List.map_cons, List.map_nil, List.cons.injEq, SequencedPool.Event.expired.injEq,
      and_true] at hes
    obtain ⟨⟨hseq₁, -⟩, hseq₂, -⟩ := hes
    -- the requests refunded are the two that were seen to be ripe
    have hr₁ := hrest.request (.plain r₁) (by simp)
    have hr₂ := hrest.request (.plain r₂) (by simp)
    simp only [Refund.plain, ← hseq₁, ← hseq₂] at hr₁ hr₂
    simp only [smallRipe, hr₁, hr₂, Option.any_some, Bool.and_eq_true, decide_eq_true_eq]
      at hripe₁ hripe₂
    obtain ⟨⟨⟨⟨⟨⟨-, huser₁⟩, -⟩, -⟩, -⟩, -⟩, -⟩ := hripe₁
    obtain ⟨⟨⟨⟨⟨⟨-, huser₂⟩, -⟩, -⟩, -⟩, -⟩, -⟩ := hripe₂
    exact ⟨ls, w, w₁, w₂, r₀, r₁, r₂, h, hexpire, hfirst, hboth, huser₁, huser₂, hrest⟩

end HybridVault
