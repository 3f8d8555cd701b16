import HybridVault.Effects

/-!
# The vault refines the sequenced pool

A world tracks a state of the sequenced pool (`Foundations.SequencedPool`) whose
items are the indices of the collection: the pool slots are what is drawable, the
ring is what waits, the pending requests are the tickets, and the indices released to
users are out.

`Tracks` is the relation, and `Tracks.simulate` its step lemma: every effect of the
world is a step of the sequenced pool, or none, with the same event.  The step of the
pool that needs an item to be out — a release, a hand-in — is taken by the world when
a user owns the asset; that an asset a user owns is out is what `Custody` says, and
it is part of the relation.
-/

namespace HybridVault

open Foundations

/-- The pending requests of a vault are the tickets of `x`, in order. -/
structure Tickets (D : Deployment) (w : World) (x : SequencedPool.State ℕ) : Prop where
  record : ∀ k, x.head ≤ k → k < x.next → ∃ r, w.requests (D.requestAddress k) = some r ∧
    r.seq = k ∧ x.queue[k - x.head]? = some r.handIn
  own : ∀ k r, w.requests k = some r → (r.vault = D.vault ∨ ∃ seq, k = D.requestAddress seq) →
    r.vault = D.vault ∧ r.user.IsSigner ∧ k = D.requestAddress r.seq ∧ x.head ≤ r.seq ∧
      r.seq < x.next

/-- Who has what: an index is minted if its asset ever existed, the vault owns every
minted asset that is not out, and what is out or handed in is minted. -/
structure Custody (D : Deployment) (w : World) (x : SequencedPool.State ℕ) : Prop where
  minted_iff : ∀ i < D.size,
    (mintedOf D.size w.pool i = true ↔ w.assets (D.assetAddress i) ≠ .absent)
  held : ∀ i < D.size, i ∉ x.outside → mintedOf D.size w.pool i = true →
    ∃ a, w.assets (D.assetAddress i) = .live a ∧ a.owner = D.vaultAuthority
  collection : ∀ i < D.size, ∀ a, w.assets (D.assetAddress i) = .live a →
    a.updateAuthority = .collection D.collection
  outside_minted : ∀ i ∈ x.outside, mintedOf D.size w.pool i = true
  handIn_minted : ∀ i ∈ x.queue.reduceOption, mintedOf D.size w.pool i = true
  count : w.vault.mintedCount = (List.range D.size).countP (mintedOf D.size w.pool)
  numMinted : ∃ col, w.collection = some col ∧ col.updateAuthority = D.vaultAuthority ∧
    col.numMinted = w.vault.mintedCount
  accounts : ∀ k, D.Owns k → w.accounts k = RawAccount.empty
  escrows : ∀ seq, w.assets (D.mintEscrowAddress seq) = .absent

/-- **A world tracks a state of the sequenced pool.** -/
structure Tracks (D : Deployment) (w : World) (x : SequencedPool.State ℕ) : Prop
    extends Sound D w where
  drawable : drawableOf w.pool = x.drawable
  incoming : incomingOf D.size w.pool = x.incoming
  head : w.vault.nextSettleSeq = x.head
  next : w.vault.nextSeq = x.next
  rerolls : w.vault.pendingRerolls = x.queue.reduceOption.length
  pending : w.vault.pendingCaptures + w.vault.pendingRerolls = x.queue.length
  outside : w.vault.assetsOutside = x.outside.length
  tickets : Tickets D w x
  custody : Custody D w x
  invariant : SequencedPool.Invariant (poolFloor D.size) (List.range D.size) x

/-- The steps of the sequenced pool of a vault. -/
abbrev PoolStep (D : Deployment) :
    SequencedPool.State ℕ → PoolEvent → SequencedPool.State ℕ → Prop :=
  SequencedPool.Step (poolFloor D.size) (pickPosition D)

variable {D : Deployment} {w w' : World} {x : SequencedPool.State ℕ}

@[simp] theorem requestAddress_inj {j k : ℕ} :
    D.requestAddress j = D.requestAddress k ↔ j = k := by
  simp [Deployment.requestAddress]

@[simp] theorem assetAddress_inj {i j : ℕ} : D.assetAddress i = D.assetAddress j ↔ i = j := by
  simp [Deployment.assetAddress]

theorem ne_vaultAuthority_of_isSigner {k : Pubkey} (h : k.IsSigner) : k ≠ D.vaultAuthority := by
  rintro rfl
  exact h

/-! ## Custody, one change at a time -/

namespace Custody

/-- **An asset a user owns is out.** -/
theorem mem_outside (h : Custody D w x) {i : ℕ} (hi : i < D.size) {a : BaseAsset}
    (ha : w.assets (D.assetAddress i) = .live a) (howner : a.owner ≠ D.vaultAuthority) :
    i ∈ x.outside := by
  by_contra hout
  have hminted := (h.minted_iff i hi).mpr (by simp [ha])
  obtain ⟨a', ha', howner'⟩ := h.held i hi hout hminted
  obtain rfl := AssetAccount.live.inj (ha.symm.trans ha')
  exact howner howner'

theorem congr {y : SequencedPool.State ℕ} (h : Custody D w x)
    (hminted : mintedOf D.size w'.pool = mintedOf D.size w.pool)
    (hassets : w'.assets = w.assets) (hcount : w'.vault.mintedCount = w.vault.mintedCount)
    (hcollection : w'.collection = w.collection) (haccounts : w'.accounts = w.accounts)
    (hout : y.outside = x.outside)
    (hqueue : ∀ i ∈ y.queue.reduceOption, i ∈ x.queue.reduceOption) : Custody D w' y where
  minted_iff := by rw [hminted, hassets]; exact h.minted_iff
  held := by rw [hminted, hassets, hout]; exact h.held
  collection := by rw [hassets]; exact h.collection
  outside_minted := by rw [hminted, hout]; exact h.outside_minted
  handIn_minted := fun i hi => by rw [hminted]; exact h.handIn_minted i (hqueue i hi)
  count := by rw [hminted, hcount]; exact h.count
  numMinted := by rw [hcollection, hcount]; exact h.numMinted
  accounts := by rw [haccounts]; exact h.accounts
  escrows := by rw [hassets]; exact h.escrows

section Write

variable {i : ℕ} {a : BaseAsset}

/-- The other assets are as before, where asset `i` is written. -/
theorem other_assets (hassets : w'.assets = Function.update w.assets (D.assetAddress i) (.live a))
    {j : ℕ} (hj : j ≠ i) : w'.assets (D.assetAddress j) = w.assets (D.assetAddress j) := by
  rw [hassets, Function.update_of_ne (by simpa using hj)]

/-- An asset written under the collection leaves every asset under it. -/
theorem collection_of_write (h : Custody D w x)
    (hassets : w'.assets = Function.update w.assets (D.assetAddress i) (.live a))
    (hcol : a.updateAuthority = .collection D.collection) :
    ∀ j < D.size, ∀ b, w'.assets (D.assetAddress j) = .live b →
      b.updateAuthority = .collection D.collection := by
  intro j hj b hb
  by_cases hji : j = i
  · subst hji
    rw [hassets, Function.update_self] at hb
    obtain rfl := AssetAccount.live.inj hb
    exact hcol
  · rw [other_assets hassets hji] at hb
    exact h.collection j hj b hb

/-- No escrow is at the address of an asset. -/
theorem escrows_of_write (h : Custody D w x)
    (hassets : w'.assets = Function.update w.assets (D.assetAddress i) (.live a)) :
    ∀ seq, w'.assets (D.mintEscrowAddress seq) = .absent := by
  intro seq
  have hne : D.mintEscrowAddress seq ≠ D.assetAddress i := by
    simp [Deployment.mintEscrowAddress, Deployment.assetAddress]
  rw [hassets, Function.update_of_ne hne]
  exact h.escrows seq

end Write

/-- The vault takes asset `i` back from a user. -/
theorem takeBack {y : SequencedPool.State ℕ} (h : Custody D w x) {i : ℕ} (hi : i < D.size)
    {a : BaseAsset} (ha : w.assets (D.assetAddress i) = .live a)
    (hminted : mintedOf D.size w'.pool = mintedOf D.size w.pool)
    (hassets : w'.assets = Function.update w.assets (D.assetAddress i)
      (.live { a with owner := D.vaultAuthority }))
    (hcount : w'.vault.mintedCount = w.vault.mintedCount)
    (hcollection : w'.collection = w.collection) (haccounts : w'.accounts = w.accounts)
    (hout : y.outside = x.outside.erase i)
    (hqueue : ∀ j ∈ y.queue.reduceOption, j ∈ x.queue.reduceOption ∨ j = i) : Custody D w' y := by
  have hself : w'.assets (D.assetAddress i) = .live { a with owner := D.vaultAuthority } := by
    rw [hassets, Function.update_self]
  have himinted := (h.minted_iff i hi).mpr (by simp [ha])
  exact {
    minted_iff := by
      intro j hj
      by_cases hji : j = i
      · subst hji
        simp [hminted, hself, himinted]
      · rw [hminted, other_assets hassets hji]
        exact h.minted_iff j hj
    held := by
      intro j hj hout' hmint
      by_cases hji : j = i
      · subst hji
        exact ⟨_, hself, rfl⟩
      · rw [other_assets hassets hji]
        rw [hminted] at hmint
        refine h.held j hj (fun hmem => hout' ?_) hmint
        rw [hout]
        exact (List.mem_erase_of_ne hji).mpr hmem
    collection := h.collection_of_write hassets (h.collection i hi a ha)
    outside_minted := by
      intro j hj
      rw [hminted]
      rw [hout] at hj
      exact h.outside_minted j (List.mem_of_mem_erase hj)
    handIn_minted := by
      intro j hj
      rw [hminted]
      rcases hqueue j hj with hj | rfl
      · exact h.handIn_minted j hj
      · exact himinted
    count := by rw [hminted, hcount]; exact h.count
    numMinted := by rw [hcollection, hcount]; exact h.numMinted
    accounts := by rw [haccounts]; exact h.accounts
    escrows := h.escrows_of_write hassets }

/-- Asset `i` goes out to a user, minted if it was not. -/
theorem give {y : SequencedPool.State ℕ} (h : Custody D w x) {i : ℕ} {a : BaseAsset}
    (hcol : a.updateAuthority = .collection D.collection)
    (hminted : mintedOf D.size w'.pool = fun j => mintedOf D.size w.pool j || decide (j = i))
    (hassets : w'.assets = Function.update w.assets (D.assetAddress i) (.live a))
    (hcount : w'.vault.mintedCount = (List.range D.size).countP (mintedOf D.size w'.pool))
    (hnum : ∃ col, w'.collection = some col ∧ col.updateAuthority = D.vaultAuthority ∧
      col.numMinted = w'.vault.mintedCount)
    (haccounts : w'.accounts = w.accounts) (hout : y.outside = i :: x.outside)
    (hqueue : ∀ j ∈ y.queue.reduceOption, j ∈ x.queue.reduceOption) : Custody D w' y := by
  have hself : w'.assets (D.assetAddress i) = .live a := by rw [hassets, Function.update_self]
  have hmself : mintedOf D.size w'.pool i = true := by simp [hminted]
  have hmother : ∀ j, j ≠ i → mintedOf D.size w'.pool j = mintedOf D.size w.pool j := by
    intro j hj
    simp [hminted, hj]
  have hmono : ∀ j, mintedOf D.size w.pool j = true → mintedOf D.size w'.pool j = true := by
    intro j hj
    simp [hminted, hj]
  exact {
    minted_iff := by
      intro j hj
      by_cases hji : j = i
      · subst hji
        simp [hmself, hself]
      · rw [hmother j hji, other_assets hassets hji]
        exact h.minted_iff j hj
    held := by
      intro j hj hout' hmint
      rw [hout, List.mem_cons, not_or] at hout'
      rw [other_assets hassets hout'.1]
      rw [hmother j hout'.1] at hmint
      exact h.held j hj hout'.2 hmint
    collection := h.collection_of_write hassets hcol
    outside_minted := by
      intro j hj
      rw [hout] at hj
      rcases List.mem_cons.mp hj with rfl | hj
      · exact hmself
      · exact hmono j (h.outside_minted j hj)
    handIn_minted := fun j hj => hmono j (h.handIn_minted j (hqueue j hj))
    count := hcount
    numMinted := hnum
    accounts := by rw [haccounts]; exact h.accounts
    escrows := h.escrows_of_write hassets }

/-- The environment may move assets that are out. -/
theorem environment (h : Custody D w x) {donated : ℕ} (henv : EnvStep D donated w w') :
    Custody D w' x := by
  have howns : ∀ i, D.Owns (D.assetAddress i) := fun i => Or.inl ⟨i, rfl⟩
  exact {
    minted_iff := by
      intro i hi
      rw [henv.pool, h.minted_iff i hi]
      have hmove := henv.assets _ (howns i)
      generalize w.assets (D.assetAddress i) = s at hmove
      generalize w'.assets (D.assetAddress i) = t at hmove
      cases hmove <;> simp
    held := by
      intro i hi hout hmint
      rw [henv.pool] at hmint
      obtain ⟨a, ha, howner⟩ := h.held i hi hout hmint
      refine ⟨a, ?_, howner⟩
      have hmove := henv.assets _ (howns i)
      rw [ha] at hmove
      generalize hs : w'.assets (D.assetAddress i) = s at hmove
      cases hmove with
      | keep => rfl
      | transfer _ hne => exact absurd howner hne
      | burn hne => exact absurd howner hne
    collection := by
      intro i hi b hb
      have hmove := henv.assets _ (howns i)
      rw [hb] at hmove
      generalize hs : w.assets (D.assetAddress i) = s at hmove
      cases hmove with
      | keep => exact h.collection i hi b hs
      | transfer =>
          have hcol := h.collection i hi _ hs
          exact hcol
    outside_minted := by rw [henv.pool]; exact h.outside_minted
    handIn_minted := by rw [henv.pool]; exact h.handIn_minted
    count := by rw [henv.pool, henv.vault]; exact h.count
    numMinted := by
      obtain ⟨col, hcol, hauth, hnum⟩ := h.numMinted
      obtain ⟨n, -, hcol'⟩ := henv.collection col hcol
      exact ⟨_, hcol', hauth, by rw [henv.vault]; exact hnum⟩
    accounts := fun k hk => by rw [henv.accounts k hk]; exact h.accounts k hk
    escrows := by
      intro seq
      have hmove := henv.assets (D.mintEscrowAddress seq) (Or.inr ⟨seq, rfl⟩)
      rw [h.escrows seq] at hmove
      generalize hs : w'.assets (D.mintEscrowAddress seq) = s at hmove
      cases hmove with
      | keep => rfl }

end Custody

/-! ## Tickets, one change at a time -/

namespace Tickets

/-- The head request's ticket. -/
theorem head_queue (h : Tickets D w x) {r : Request} (hseq : r.seq = x.head)
    (hreq : w.requests (D.requestAddress r.seq) = some r) :
    ∃ q, x.queue = r.handIn :: q := by
  obtain ⟨-, -, -, -, hlt⟩ := h.own _ r hreq (Or.inr ⟨r.seq, rfl⟩)
  obtain ⟨r', hreq', -, hticket⟩ := h.record r.seq hseq.ge hlt
  obtain rfl := Option.some.inj (hreq.symm.trans hreq')
  rw [hseq, Nat.sub_self] at hticket
  cases hq : x.queue with
  | nil => simp [hq] at hticket
  | cons o q =>
      rw [hq] at hticket
      exact ⟨q, by simpa using hticket⟩

/-- The accounts of the vault's requests are as before. -/
theorem congr {y : SequencedPool.State ℕ} (h : Tickets D w x)
    (hrequests : w'.requests = w.requests) (hhead : y.head = x.head) (hqueue : y.queue = x.queue) :
    Tickets D w' y := by
  have hnext : y.next = x.next := by simp [SequencedPool.State.next, hhead, hqueue]
  exact ⟨by rw [hhead, hnext, hrequests, hqueue]; exact h.record,
    by rw [hhead, hnext, hrequests]; exact h.own⟩

/-- A request is appended. -/
theorem append {y : SequencedPool.State ℕ} (h : Tickets D w x) {r : Request}
    (hseq : r.seq = x.next) (hvault : r.vault = D.vault) (huser : r.user.IsSigner)
    (hrequests : w'.requests = Function.update w.requests (D.requestAddress r.seq) (some r))
    (hhead : y.head = x.head) (hqueue : y.queue = x.queue ++ [r.handIn]) : Tickets D w' y := by
  have hnext : y.next = x.next + 1 := by
    simp only [SequencedPool.State.next, hhead, hqueue, List.length_append, List.length_singleton]
    omega
  refine ⟨?_, ?_⟩
  · intro k hk hlt
    rw [hhead] at hk ⊢
    rw [hrequests, hqueue]
    by_cases hlast : k = x.next
    · subst hlast
      refine ⟨r, by rw [hseq, Function.update_self], hseq, ?_⟩
      simp [SequencedPool.State.next]
    · have hlt' : k < x.next := by omega
      obtain ⟨r', hr', hseq', hticket⟩ := h.record k hk hlt'
      refine ⟨r', ?_, hseq', ?_⟩
      · rw [Function.update_of_ne (by simpa [hseq] using hlast)]
        exact hr'
      · rw [List.getElem?_append_left]
        · exact hticket
        · simp only [SequencedPool.State.next] at hlt'
          omega
  · intro k r' hr' hours
    rw [hrequests] at hr'
    rcases update_eq_some_iff.mp hr' with ⟨rfl, hnew⟩ | ⟨-, hold⟩
    · obtain rfl := Option.some.inj hnew
      have hle : x.head ≤ x.next := Nat.le_add_right _ _
      exact ⟨hvault, huser, rfl, by omega, by omega⟩
    · obtain ⟨hv, hu, hk', hge, hlt⟩ := h.own k r' hold hours
      exact ⟨hv, hu, hk', by omega, by omega⟩

/-- The head request is removed. -/
theorem pop {y : SequencedPool.State ℕ} (h : Tickets D w x) {r : Request}
    (hseq : r.seq = x.head) {o : Option ℕ} {q : List (Option ℕ)} (hqueue : x.queue = o :: q)
    (hrequests : w'.requests = Function.update w.requests (D.requestAddress r.seq) none)
    (hhead : y.head = x.head + 1) (hqueue' : y.queue = q) : Tickets D w' y := by
  have hnext : y.next = x.next := by
    simp only [SequencedPool.State.next, hhead, hqueue, hqueue', List.length_cons]
    omega
  refine ⟨?_, ?_⟩
  · intro k hk hlt
    rw [hhead] at hk ⊢
    rw [hnext] at hlt
    obtain ⟨r', hr', hseq', hticket⟩ := h.record k (by omega) hlt
    refine ⟨r', ?_, hseq', ?_⟩
    · rw [hrequests, Function.update_of_ne (by simp; omega)]
      exact hr'
    · have hsucc : k - x.head = (k - (x.head + 1)) + 1 := by omega
      rw [hqueue, hsucc, List.getElem?_cons_succ] at hticket
      rw [hqueue']
      exact hticket
  · intro k r' hr' hours
    rw [hrequests] at hr'
    obtain ⟨hk, hold⟩ := update_none_eq_some_iff.mp hr'
    obtain ⟨hv, hu, hk', hge, hlt⟩ := h.own k r' hold hours
    refine ⟨hv, hu, hk', ?_, by omega⟩
    have hne : r'.seq ≠ r.seq := fun heq => hk (by rw [hk', heq])
    omega

/-- A request is rewritten, as the same ticket. -/
theorem rewrite {y : SequencedPool.State ℕ} (h : Tickets D w x) {r : Request} (r' : Request)
    (hreq : w.requests (D.requestAddress r.seq) = some r) (hseq : r'.seq = r.seq)
    (hvault : r'.vault = r.vault) (huser : r'.user = r.user) (hhand : r'.handIn = r.handIn)
    (hrequests : w'.requests = Function.update w.requests (D.requestAddress r.seq) (some r'))
    (hhead : y.head = x.head) (hqueue : y.queue = x.queue) : Tickets D w' y := by
  have hnext : y.next = x.next := by simp [SequencedPool.State.next, hhead, hqueue]
  obtain ⟨hrv, hru, -, hge, hlt⟩ := h.own _ r hreq (Or.inr ⟨r.seq, rfl⟩)
  refine ⟨?_, ?_⟩
  · intro k hk hlt'
    rw [hhead] at hk ⊢
    rw [hnext] at hlt'
    rw [hrequests, hqueue]
    obtain ⟨s, hs, hsseq, hticket⟩ := h.record k hk hlt'
    by_cases hkr : k = r.seq
    · subst hkr
      obtain rfl := Option.some.inj (hreq.symm.trans hs)
      exact ⟨r', Function.update_self .., hseq, by rw [hhand]; exact hticket⟩
    · exact ⟨s, by rw [Function.update_of_ne (by simpa using hkr)]; exact hs, hsseq, hticket⟩
  · intro k s hs hours
    rw [hrequests] at hs
    rw [hhead, hnext]
    rcases update_eq_some_iff.mp hs with ⟨rfl, hnew⟩ | ⟨-, hold⟩
    · obtain rfl := Option.some.inj hnew
      exact ⟨hvault.trans hrv, huser ▸ hru, by rw [hseq], by omega, by omega⟩
    · exact h.own k s hold hours

/-- The environment leaves the vault's requests alone. -/
theorem environment (h : Tickets D w x) {donated : ℕ} (henv : EnvStep D donated w w') :
    Tickets D w' x := by
  refine ⟨?_, ?_⟩
  · intro k hk hlt
    rw [henv.request_addresses]
    exact h.record k hk hlt
  · intro k r hr hours
    refine h.own k r ?_ hours
    rcases hours with hv | ⟨seq, rfl⟩
    · exact (henv.requests k r hv).mp hr
    · rwa [henv.request_addresses] at hr

end Tickets

/-! ## The simulation, one effect at a time -/

namespace Tracks

theorem requested (h : Tracks D w x) {r : Request} {oracle : Pubkey} {snap : RandomnessSnapshot}
    {sol : ℕ} (heff : RequestEffect D w w' r oracle snap sol) :
    ∃ y, PoolStep D x (.requested w.vault.nextSeq r.handIn) y ∧ Tracks D w' y := by
  have hseq : r.seq = w.vault.nextSeq := congrArg Request.seq heff.request
  have hvault : r.vault = D.vault := congrArg Request.vault heff.request
  have hpending := h.pending
  -- whoever hands an asset in owns it, so it is out
  have hheld : ∀ i ∈ r.handIn, i ∈ x.outside := by
    intro i hi
    have hpay := heff.payment
    cases hk : r.kind with
    | capture => simp [Request.handIn, hk] at hi
    | reroll =>
        obtain rfl : r.handedInIndex = i := by simpa [Request.handIn, hk] using hi
        simp only [Payment, hk] at hpay
        obtain ⟨-, hlt, -, a, ha, howner, -⟩ := hpay
        exact h.custody.mem_outside hlt ha (howner ▸ ne_vaultAuthority_of_isSigner heff.user)
  have hroom : poolFloor D.size + x.queue.length < x.drawable.length + x.incoming.length := by
    rw [← hpending, ← h.drawable, ← h.incoming]
    exact heff.room
  have hstep : PoolStep D x (.requested x.next r.handIn) _ := .request hheld hroom
  rw [← h.next] at hstep
  refine ⟨_, hstep, ?_⟩
  have hinv := hstep.invariant h.invariant
  have hsound := (Effect.requested heff).sound h.toSound
  have hrequests : w'.requests = Function.update w.requests (D.requestAddress r.seq) (some r) := by
    rw [hseq]
    exact heff.requests_eq
  have hdrawable : drawableOf w'.pool = x.drawable := by rw [heff.pool_eq]; exact h.drawable
  have hincoming : incomingOf D.size w'.pool = x.incoming := by
    rw [heff.pool_eq]
    exact h.incoming
  have hhead : w'.vault.nextSettleSeq = x.head := by
    rw [heff.vault, Vault.requested_nextSettleSeq, h.head]
  have hpay := heff.payment
  cases hk : r.kind with
  | capture =>
      have hitem : r.handIn = none := by simp [Request.handIn, hk]
      have hv : w'.vault = w.vault.requested .capture sol := by rw [heff.vault, hk]
      simp only [Payment, hk] at hpay
      exact {
        toSound := hsound
        drawable := hdrawable
        incoming := hincoming
        head := hhead
        next := by
          rw [heff.vault, Vault.requested_nextSeq, h.next]
          simp [SequencedPool.State.next, Nat.add_assoc]
        rerolls := by
          rw [hv]
          simpa [Vault.requested, hitem, List.reduceOption] using h.rerolls
        pending := by
          rw [hv]
          simp only [Vault.requested, List.length_append, List.length_singleton]
          omega
        outside := by
          rw [hv, hitem]
          exact h.outside
        tickets := h.tickets.append (hseq.trans h.next) hvault heff.user hrequests rfl rfl
        custody := h.custody.congr (by rw [heff.pool_eq]) hpay.1 (by rw [hv]; rfl)
          heff.collection_eq heff.accounts_eq (by rw [hitem]; rfl)
          (by simp [hitem, List.reduceOption])
        invariant := hinv }
  | reroll =>
      have hitem : r.handIn = some r.handedInIndex := by simp [Request.handIn, hk]
      have hv : w'.vault = w.vault.requested .reroll sol := by rw [heff.vault, hk]
      simp only [Payment, hk] at hpay
      obtain ⟨-, hlt, hpos, a, ha, -, -, hassets⟩ := hpay
      exact {
        toSound := hsound
        drawable := hdrawable
        incoming := hincoming
        head := hhead
        next := by
          rw [heff.vault, Vault.requested_nextSeq, h.next]
          simp [SequencedPool.State.next, Nat.add_assoc]
        rerolls := by
          rw [hv]
          simpa [Vault.requested, hitem, List.reduceOption] using h.rerolls
        pending := by
          rw [hv]
          simp only [Vault.requested, List.length_append, List.length_singleton]
          omega
        outside := by
          rw [hv, hitem]
          simp only [Vault.requested, SequencedPool.outsideAfter]
          rw [List.length_erase_of_mem (hheld _ hitem), h.outside]
        tickets := h.tickets.append (hseq.trans h.next) hvault heff.user hrequests rfl rfl
        custody := h.custody.takeBack hlt ha (by rw [heff.pool_eq]) hassets (by rw [hv]; rfl)
          heff.collection_eq heff.accounts_eq (by rw [hitem]; rfl) (by
            intro j hj
            rw [hitem] at hj
            simpa [List.reduceOption] using hj)
        invariant := hinv }

theorem settled (h : Tracks D w x) {r : Request} {mint : Option MintArgs} {candidates : List ℕ}
    {picked : ℕ} {d : Bytes} {c : Chain} {v : Vault}
    (heff : SettleEffect D w w' r mint candidates picked d c v) :
    ∃ y, PoolStep D x (.settled r.seq r.value candidates picked) y ∧ Tracks D w' y := by
  obtain ⟨pos, hdraw⟩ := heff.drawn h.pool
  have hseq : r.seq = x.head := heff.seq.trans h.head
  obtain ⟨q, hqueue⟩ := h.tickets.head_queue hseq heff.request
  have hcandidates : candidates = x.candidates := by
    rw [hdraw.candidates_eq, candidatesOf, h.drawable, h.incoming, hseq]
    rfl
  have hposition : pickPosition D x.head r.value x.candidates.length = pos := by
    rw [← hseq, ← hcandidates]
    exact pickPosition_of_ok hdraw.position
  have hpick := hdraw.pick
  have hdrawable := hdraw.drawable
  rw [hcandidates] at hpick hdrawable ⊢
  rw [← hposition] at hpick hdrawable
  have hstep : PoolStep D x (.settled x.head r.value x.candidates picked) _ :=
    .settle hqueue hpick
  rw [hseq]
  refine ⟨_, hstep, ?_⟩
  obtain ⟨hslot, htokens, hrandomness, haccounts, hrequests, hlocks⟩ := heff.frame
  obtain ⟨a, howner, hcol, hassets⟩ := heff.assets_eq
  -- the counters grow by one exactly where the bit was not set
  have hcount : v.mintedCount = (List.range D.size).countP (mintedOf D.size w'.pool) ∧
      ∃ col, w'.collection = some col ∧ col.updateAuthority = D.vaultAuthority ∧
        col.numMinted = v.mintedCount := by
    obtain ⟨col, hcoll, hauth, hnum⟩ := h.custody.numMinted
    rw [hdraw.minted]
    rcases heff.mint_counts h.pool with ⟨hbit, rfl, hcoll'⟩ | ⟨hbit, rfl, col', hcol', hcoll'⟩
    · refine ⟨?_, col, hcoll'.trans hcoll, hauth, hnum⟩
      rw [h.custody.count]
      apply List.countP_congr
      intro j _
      by_cases hj : j = picked <;> simp [hj, hbit]
    · obtain rfl := Option.some.inj (hcoll.symm.trans hcol')
      refine ⟨?_, _, hcoll', hauth, by simp [hnum]⟩
      rw [countP_range_or hdraw.picked_lt hbit, h.custody.count]
  have hreduce : x.queue.reduceOption = r.handIn.toList ++ q.reduceOption := by
    rw [hqueue]
    cases r.handIn <;> simp
  have hrerolls := h.rerolls
  have hpending := h.pending
  rw [hreduce] at hrerolls
  rw [hqueue] at hpending
  simp only [List.length_append, List.length_cons] at hrerolls hpending
  have hle := List.reduceOption_length_le q
  have hv := heff.vault_eq
  have hkind : (r.kind = .capture ∧ r.handIn.toList.length = 0) ∨
      (r.kind = .reroll ∧ r.handIn.toList.length = 1) := by
    cases hk : r.kind <;> simp [Request.handIn, hk]
  exact {
    toSound := (Effect.settled heff).sound h.toSound
    drawable := hdrawable
    incoming := by rw [hdraw.incoming, h.incoming, hseq]; rfl
    head := by rw [hv, Vault.settled_nextSettleSeq, h.head]
    next := by
      have hnext := h.next
      simp only [SequencedPool.State.next, hqueue, List.length_cons] at hnext ⊢
      simp only [hv, Vault.settled_nextSeq]
      omega
    rerolls := by
      rw [hv]
      rcases hkind with ⟨hk, hlen⟩ | ⟨hk, hlen⟩ <;> simp only [hk, Vault.settled] <;> omega
    pending := by
      rw [hv]
      rcases hkind with ⟨hk, hlen⟩ | ⟨hk, hlen⟩ <;> simp only [hk, Vault.settled] <;> omega
    outside := by
      rw [hv]
      rcases hkind with ⟨hk, -⟩ | ⟨hk, -⟩ <;> simp [hk, Vault.settled, h.outside]
    tickets := h.tickets.pop hseq hqueue hrequests rfl rfl
    custody := by
      have hvc : w'.vault.mintedCount = v.mintedCount := by
        rw [hv]
        rcases hkind with ⟨hk, -⟩ | ⟨hk, -⟩ <;> simp [hk, Vault.settled]
      refine h.custody.give hcol hdraw.minted hassets (hvc.trans hcount.1) ?_ haccounts rfl ?_
      · rw [hvc]
        exact hcount.2
      · intro j hj
        rw [hreduce]
        exact List.mem_append_right _ hj
    invariant := hstep.invariant h.invariant }

theorem expired (h : Tracks D w x) {r : Request} {userToken : Pubkey} {c : Chain}
    (heff : ExpireEffect D w w' r userToken c) :
    ∃ y, PoolStep D x (.expired r.seq r.handIn) y ∧ Tracks D w' y := by
  have hseq : r.seq = x.head := heff.seq.trans h.head
  obtain ⟨q, hqueue⟩ := h.tickets.head_queue hseq heff.request
  have hstep : PoolStep D x (.expired x.head r.handIn) _ := .expire hqueue
  rw [hseq]
  refine ⟨_, hstep, ?_⟩
  obtain ⟨hslot, hrandomness, haccounts, hcollection, hrequests, hlocks⟩ := heff.frame
  have hsound := (Effect.expired heff).sound h.toSound
  have hinv := hstep.invariant h.invariant
  have hpending := h.pending
  have hnext := h.next
  rw [hqueue] at hpending
  simp only [SequencedPool.State.next, hqueue, List.length_cons] at hpending hnext
  have hle := List.reduceOption_length_le q
  have hdrawable : drawableOf w'.pool = x.drawable := by rw [heff.pool_eq]; exact h.drawable
  have hincoming : incomingOf D.size w'.pool = x.incoming := by
    rw [heff.pool_eq]
    exact h.incoming
  cases hk : r.kind with
  | capture =>
      have hitem : r.handIn = none := by simp [Request.handIn, hk]
      have hv : w'.vault = w.vault.expired .capture := by rw [heff.vault, hk]
      have hreduce : x.queue.reduceOption = q.reduceOption := by simp [hqueue, hitem]
      have hrerolls := h.rerolls
      rw [hreduce] at hrerolls
      exact {
        toSound := hsound
        drawable := hdrawable
        incoming := hincoming
        head := by rw [heff.vault, Vault.expired_nextSettleSeq, h.head]
        next := by
          simp only [heff.vault, Vault.expired_nextSeq, SequencedPool.State.next]
          omega
        rerolls := by rw [hv]; exact hrerolls
        pending := by
          rw [hv]
          simp only [Vault.expired]
          omega
        outside := by
          rw [hv, hitem]
          exact h.outside
        tickets := h.tickets.pop hseq hqueue hrequests rfl rfl
        custody := h.custody.congr (by rw [heff.pool_eq]) (heff.capture_assets hk)
          (by rw [hv]; rfl) hcollection haccounts (by rw [hitem]; rfl)
          (fun i hi => by rw [hreduce]; exact hi)
        invariant := hinv }
  | reroll =>
      have hitem : r.handIn = some r.handedInIndex := by simp [Request.handIn, hk]
      have hv : w'.vault = w.vault.expired .reroll := by rw [heff.vault, hk]
      have hreduce : x.queue.reduceOption = r.handedInIndex :: q.reduceOption := by
        simp [hqueue, hitem]
      have hrerolls := h.rerolls
      rw [hreduce, List.length_cons] at hrerolls
      obtain ⟨htokens, a, ha, howner, hcol, hassets⟩ := heff.reroll hk
      have hbit : mintedOf D.size w.pool r.handedInIndex = true :=
        h.custody.handIn_minted _ (by rw [hreduce]; exact List.mem_cons_self)
      -- it is minted already, so to give it marks nothing
      have hminted : mintedOf D.size w'.pool
          = fun j => mintedOf D.size w.pool j || decide (j = r.handedInIndex) := by
        rw [heff.pool_eq]
        funext j
        by_cases hj : j = r.handedInIndex <;> simp [hj, hbit]
      have hcount : w'.vault.mintedCount = w.vault.mintedCount := by rw [hv]; rfl
      exact {
        toSound := hsound
        drawable := hdrawable
        incoming := hincoming
        head := by rw [heff.vault, Vault.expired_nextSettleSeq, h.head]
        next := by
          simp only [heff.vault, Vault.expired_nextSeq, SequencedPool.State.next]
          omega
        rerolls := by
          rw [hv]
          simp only [Vault.expired]
          omega
        pending := by
          rw [hv]
          simp only [Vault.expired]
          omega
        outside := by
          rw [hv, hitem]
          simp [Vault.expired, SequencedPool.outsideAfter, h.outside]
        tickets := h.tickets.pop hseq hqueue hrequests rfl rfl
        custody := by
          refine h.custody.give (a := { a with owner := r.user }) hcol hminted hassets ?_ ?_
            haccounts (by rw [hitem]; rfl) ?_
          · rw [hcount, heff.pool_eq]
            exact h.custody.count
          · rw [hcollection, hcount]
            exact h.custody.numMinted
          · intro j hj
            rw [hreduce]
            exact List.mem_cons_of_mem _ hj
        invariant := hinv }

theorem released (h : Tracks D w x) {user userToken : Pubkey} {index : ℕ} {s t : TokenAccount}
    {a : BaseAsset} {d : Bytes} (heff : UnwrapEffect D w w' user userToken index s t a d) :
    ∃ y, PoolStep D x (.returned index) y ∧ Tracks D w' y := by
  have hout : index ∈ x.outside := h.custody.mem_outside heff.index_lt heff.asset
    (heff.asset_owner ▸ ne_vaultAuthority_of_isSigner heff.signer)
  obtain ⟨d', hd, hwf', habs⟩ := h.pool.incomingPush_eq_ok heff.index_lt h.nextSeq_lt heff.push
  obtain ⟨rfl, -⟩ := PoolView.mk.inj hd
  have hpool : w'.pool = d := by rw [heff.toChain]; rfl
  have hassets : w'.assets = Function.update w.assets (D.assetAddress index)
      (.live { a with owner := D.vaultAuthority }) := by rw [heff.toChain]; rfl
  have hrequests : w'.requests = w.requests := by rw [heff.toChain]; rfl
  have hdrawable := congrArg PoolAbs.drawable habs
  have hincoming := congrArg PoolAbs.incoming habs
  have hminted := congrArg PoolAbs.minted habs
  simp only [poolAbs] at hdrawable hincoming hminted
  have hstep : PoolStep D x (.returned index) _ := .giveBack hout
  refine ⟨_, hstep, ?_⟩
  have hv := heff.vault
  exact {
    toSound := (Effect.released heff).sound h.toSound
    drawable := by rw [hpool, hdrawable, h.drawable]
    incoming := by rw [hpool, hincoming, h.incoming, h.next]
    head := by rw [hv]; exact h.head
    next := by rw [hv]; exact h.next
    rerolls := by rw [hv]; exact h.rerolls
    pending := by rw [hv]; exact h.pending
    outside := by
      rw [hv, List.length_erase_of_mem hout]
      simp [Vault.released, h.outside]
    tickets := h.tickets.congr hrequests rfl rfl
    custody := h.custody.takeBack heff.index_lt heff.asset (by rw [hpool, hminted]) hassets
      (by rw [hv]; rfl) (by rw [heff.toChain]; rfl) (by rw [heff.toChain]; rfl) rfl
      (fun j hj => Or.inl hj)
    invariant := hstep.invariant h.invariant }

theorem merged (h : Tracks D w x) {k : ℕ} {d : Bytes} (heff : MergeEffect D w w' k d) :
    ∃ y, PoolStep D x (.merged k) y ∧ Tracks D w' y := by
  have hready : k ≤ x.ready.length := by
    have hle := heff.count_le
    rw [h.incoming, h.head] at hle
    exact hle
  have hpool : w'.pool = d := by rw [heff.toChain]; rfl
  have hdrawable := congrArg PoolAbs.drawable heff.poolAbs
  have hincoming := congrArg PoolAbs.incoming heff.poolAbs
  have hminted := congrArg PoolAbs.minted heff.poolAbs
  simp only [poolAbs] at hdrawable hincoming hminted
  have hstep : PoolStep D x (.merged k) _ := .merge hready
  refine ⟨_, hstep, ?_⟩
  have hv := heff.vault
  exact {
    toSound := (Effect.merged heff).sound h.toSound
    drawable := by rw [hpool, hdrawable, h.drawable, h.incoming]
    incoming := by rw [hpool, hincoming, h.incoming]
    head := by rw [hv]; exact h.head
    next := by rw [hv]; exact h.next
    rerolls := by rw [hv]; exact h.rerolls
    pending := by rw [hv]; exact h.pending
    outside := by rw [hv]; exact h.outside
    tickets := h.tickets.congr (by rw [heff.toChain]; rfl) rfl rfl
    custody := h.custody.congr (by rw [hpool, hminted]) (by rw [heff.toChain]; rfl) (by rw [hv])
      (by rw [heff.toChain]; rfl) (by rw [heff.toChain]; rfl) rfl (fun i hi => hi)
    invariant := hstep.invariant h.invariant }

/-- The counters the relation speaks of. -/
structure SameCounters (v v' : Vault) : Prop where
  head : v'.nextSettleSeq = v.nextSettleSeq
  next : v'.nextSeq = v.nextSeq
  rerolls : v'.pendingRerolls = v.pendingRerolls
  captures : v'.pendingCaptures = v.pendingCaptures
  outside : v'.assetsOutside = v.assetsOutside
  minted : v'.mintedCount = v.mintedCount

/-- A change that is none to the sequenced pool. -/
theorem quiet (h : Tracks D w x) (hpool : w'.pool = w.pool) (hv : SameCounters w.vault w'.vault)
    (htickets : Tickets D w' x) (hcustody : Custody D w' x) : Tracks D w' x where
  pool := by rw [hpool]; exact h.pool
  nextSeq_lt := by rw [hv.next]; exact h.nextSeq_lt
  drawable := by rw [hpool]; exact h.drawable
  incoming := by rw [hpool]; exact h.incoming
  head := hv.head.trans h.head
  next := hv.next.trans h.next
  rerolls := hv.rerolls.trans h.rerolls
  pending := by rw [hv.captures, hv.rerolls]; exact h.pending
  outside := hv.outside.trans h.outside
  tickets := htickets
  custody := hcustody
  invariant := h.invariant

/-- **The simulation.**  Every effect of the world is a step of the sequenced pool, or
none, with the same event. -/
theorem simulate (h : Tracks D w x) {act : Act} (heff : Effect D w act w') :
    ∃ y, Run (PoolStep D) x act.events y ∧ Tracks D w' y := by
  have same : SameCounters w.vault w.vault := ⟨rfl, rfl, rfl, rfl, rfl, rfl⟩
  cases heff with
  | requested heff =>
      obtain ⟨y, hstep, hy⟩ := h.requested heff
      exact ⟨y, .single hstep, hy⟩
  | settled heff =>
      obtain ⟨y, hstep, hy⟩ := h.settled heff
      exact ⟨y, .single hstep, hy⟩
  | expired heff =>
      obtain ⟨y, hstep, hy⟩ := h.expired heff
      exact ⟨y, .single hstep, hy⟩
  | released heff =>
      obtain ⟨y, hstep, hy⟩ := h.released heff
      exact ⟨y, .single hstep, hy⟩
  | merged heff =>
      obtain ⟨y, hstep, hy⟩ := h.merged heff
      exact ⟨y, .single hstep, hy⟩
  | opened =>
      exact ⟨x, .nil x, h.quiet rfl ⟨rfl, rfl, rfl, rfl, rfl, rfl⟩ (h.tickets.congr rfl rfl rfl)
        (h.custody.congr rfl rfl rfl rfl rfl rfl fun i hi => hi)⟩
  | randomnessCreated =>
      exact ⟨x, .nil x, h.quiet rfl same (h.tickets.congr rfl rfl rfl)
        (h.custody.congr rfl rfl rfl rfl rfl rfl fun i hi => hi)⟩
  | @revealed _ r snap value heff =>
      refine ⟨x, .nil x, h.quiet (by rw [heff.toChain]; rfl) (by rw [heff.vault]; exact same) ?_ ?_⟩
      · exact h.tickets.rewrite { r with revealed := true, value := value } heff.request rfl rfl rfl
          rfl (by rw [heff.toChain]; rfl) rfl rfl
      · exact h.custody.congr (by rw [heff.toChain]; rfl) (by rw [heff.toChain]; rfl)
          (by rw [heff.vault]) (by rw [heff.toChain]; rfl) (by rw [heff.toChain]; rfl) rfl
          fun i hi => hi
  | @recommitted _ r snap queue oracle proofs heff =>
      refine ⟨x, .nil x, h.quiet (by rw [heff.toChain]; rfl)
        (by rw [heff.vault]; exact ⟨rfl, rfl, rfl, rfl, rfl, rfl⟩) ?_ ?_⟩
      · exact h.tickets.rewrite (r.recommitted w.slot oracle) heff.request rfl rfl rfl rfl
          (by rw [heff.toChain]; rfl) rfl rfl
      · exact h.custody.congr (by rw [heff.toChain]; rfl) (by rw [heff.toChain]; rfl)
          (by rw [heff.vault]) (by rw [heff.toChain]; rfl) (by rw [heff.toChain]; rfl) rfl
          fun i hi => hi
  | environment henv =>
      exact ⟨x, .nil x, h.quiet henv.pool (by rw [henv.vault]; exact same)
        (h.tickets.environment henv) (h.custody.environment henv)⟩

end Tracks

end HybridVault
