import HybridVault.Coherence
import HybridVault.Treasury

/-!
# The books of a reachable vault

What else every reachable vault keeps in order, and the one consequence the handlers
depend on: the closing check passes.

* `Tallies` — the totals account for every request resolved and for every asset in
  circulation, so that no counter overflows before the sequence numbers do.
* `Recorded` — what a pending request's record looks like.
* `Funded` — every pending request's escrow holds what a mint may cost.

`Consistent` puts all invariants together.  The results on what can always be done start
from it.
-/

namespace HybridVault

open Foundations

variable {D : Deployment} {w w' : World} {x : SequencedPool.State ℕ} {ls : List Label}
  {r : Request}

/-! ## Totals -/

/-- Every request resolved is in a total, and every asset drawn by a capture is out,
handed in, or released again. -/
structure Tallies (v : Vault) : Prop where
  resolved : v.totalCaptures + v.totalRerolls + v.totalExpired = v.nextSettleSeq
  circulating : v.assetsOutside + v.pendingRerolls + v.totalUnwraps = v.totalCaptures

theorem Tallies.effect (h : Tallies w.vault) {act : Act} (heff : Effect D w act w') :
    Tallies w'.vault := by
  obtain ⟨hresolved, hcirculating⟩ := h
  cases heff with
  | @requested _ r _ _ _ heff =>
      have hv := heff.vault
      have hpay := heff.payment
      cases hk : r.kind with
      | capture =>
          rw [hv, hk]
          exact ⟨hresolved, hcirculating⟩
      | reroll =>
          simp only [Payment, hk] at hpay
          obtain ⟨-, -, hpos, -⟩ := hpay
          rw [hv, hk]
          refine ⟨hresolved, ?_⟩
          simp only [Vault.requested]
          omega
  | @settled _ r _ _ _ _ _ v heff =>
      have hpos := heff.counters.pending_pos
      rw [heff.record] at hpos
      rw [heff.vault_eq]
      cases hk : r.kind <;> rw [hk] at hpos <;> constructor <;>
        simp only [Vault.settled, Vault.pending] at hpos ⊢ <;> omega
  | @expired _ r _ _ heff =>
      have hpos := heff.counters.pending_pos
      rw [heff.vault]
      cases hk : r.kind <;> rw [hk] at hpos <;> constructor <;>
        simp only [Vault.expired, Vault.pending] at hpos ⊢ <;> omega
  | released heff =>
      have hpos := heff.assetsOutside_pos
      rw [heff.vault]
      refine ⟨hresolved, ?_⟩
      simp only [Vault.released]
      omega
  | merged heff => rw [heff.vault]; exact ⟨hresolved, hcirculating⟩
  | opened => exact ⟨hresolved, hcirculating⟩
  | randomnessCreated => exact ⟨hresolved, hcirculating⟩
  | revealed heff => rw [heff.vault]; exact ⟨hresolved, hcirculating⟩
  | recommitted heff => rw [heff.vault]; exact ⟨hresolved, hcirculating⟩
  | environment henv => rw [henv.vault]; exact ⟨hresolved, hcirculating⟩

/-! ## Records -/

/-- A pending request has room for its oracles, and was committed in the past. -/
structure Recorded (slot : ℕ) (r : Request) : Prop where
  oracles_length : r.oracles.length = 4
  seedSlot_lt : r.seedSlot < slot

/-- The records of all pending requests. -/
def Records (D : Deployment) (w : World) : Prop :=
  ∀ k r, w.requests k = some r → r.vault = D.vault → Recorded w.slot r

namespace Records

theorem mono (h : Records D w) (hslot : w.slot ≤ w'.slot)
    (hrequests : ∀ k r, w'.requests k = some r → r.vault = D.vault → w.requests k = some r) :
    Records D w' := by
  intro k r hr hv
  obtain ⟨hlen, hseed⟩ := h k r (hrequests k r hr hv) hv
  exact ⟨hlen, hseed.trans_le hslot⟩

/-- A request is written. -/
theorem write (h : Records D w) (r : Request) (hslot : w'.slot = w.slot) {key : Pubkey}
    (hrequests : w'.requests = Function.update w.requests key (some r))
    (hr : Recorded w.slot r) : Records D w' := by
  intro k s hs hv
  rw [hslot]
  rw [hrequests] at hs
  rcases update_eq_some_iff.mp hs with ⟨-, hnew⟩ | ⟨-, hold⟩
  · obtain rfl := Option.some.inj hnew
    exact hr
  · exact h k s hold hv

/-- A request is removed. -/
theorem erase (h : Records D w) (hslot : w'.slot = w.slot) {key : Pubkey}
    (hrequests : w'.requests = Function.update w.requests key none) : Records D w' := by
  refine h.mono hslot.ge ?_
  intro k s hs _
  rw [hrequests] at hs
  exact (update_none_eq_some_iff.mp hs).2

theorem effect (h : Records D w) {act : Act} (heff : Effect D w act w') :
    Records D w' := by
  cases heff with
  | @requested _ r oracle _ _ heff =>
      refine h.write r heff.slot_eq heff.requests_eq ⟨?_, ?_⟩
      · rw [heff.request]
        rfl
      · have hpos := heff.commitSlot.pos
        rw [heff.request, newRequest_seedSlot]
        omega
  | settled heff => exact h.erase heff.frame.1 heff.frame.2.2.2.2.1
  | expired heff => exact h.erase heff.frame.1 heff.frame.2.2.2.2.1
  | released heff =>
      exact h.mono (by rw [heff.toChain]; rfl) fun k r hr _ => by rwa [heff.toChain] at hr
  | merged heff =>
      exact h.mono (by rw [heff.toChain]; rfl) fun k r hr _ => by rwa [heff.toChain] at hr
  | opened => exact h
  | randomnessCreated => exact h
  | @revealed _ r _ value heff =>
      have hr := h _ r heff.request heff.request_vault
      exact h.write { r with revealed := true, value := value } (by rw [heff.toChain]; rfl)
        (by rw [heff.toChain]; rfl) ⟨hr.oracles_length, hr.seedSlot_lt⟩
  | @recommitted _ r _ _ oracle _ heff =>
      have hr := h _ r heff.request heff.request_vault
      have hpos := heff.commitSlot.pos
      refine h.write (r.recommitted w.slot oracle) (by rw [heff.toChain]; rfl)
        (by rw [heff.toChain]; rfl) ⟨?_, ?_⟩
      · simp [hr.oracles_length]
      · rw [Request.recommitted_seedSlot]
        omega
  | environment henv => exact h.mono henv.slot fun k r hr hv => (henv.requests k r hv).mp hr

end Records

/-! ## Escrows -/

/-- Every pending request's escrow holds what a mint may cost. -/
def Funded (D : Deployment) (w : World) : Prop :=
  ∀ seq, w.vault.nextSettleSeq ≤ seq → seq < w.vault.nextSeq →
    mintNeed D ≤ mintEscrowLamports ∧ mintEscrowLamports ≤ w.lamports (D.mintEscrowAddress seq)

namespace Funded

theorem mono (h : Funded D w) (hhead : w.vault.nextSettleSeq ≤ w'.vault.nextSettleSeq)
    (hnext : w'.vault.nextSeq = w.vault.nextSeq)
    (hlamports : ∀ seq, w'.vault.nextSettleSeq ≤ seq →
      w.lamports (D.mintEscrowAddress seq) ≤ w'.lamports (D.mintEscrowAddress seq)) :
    Funded D w' := by
  intro seq hge hlt
  obtain ⟨hneed, hle⟩ := h seq (hhead.trans hge) (hnext ▸ hlt)
  exact ⟨hneed, hle.trans (hlamports seq hge)⟩

theorem effect (h : Funded D w) (ht : Tracks D w x) {act : Act} (heff : Effect D w act w') :
    Funded D w' := by
  cases heff with
  | @requested _ r oracle _ _ heff =>
      obtain ⟨hself, hother⟩ := heff.escrow
      have hhead : w'.vault.nextSettleSeq = w.vault.nextSettleSeq := by
        rw [heff.vault, Vault.requested_nextSettleSeq]
      have hnext : w'.vault.nextSeq = w.vault.nextSeq + 1 := by
        rw [heff.vault, Vault.requested_nextSeq]
      intro seq hge hlt
      by_cases hseq : seq = w.vault.nextSeq
      · -- the request just made brings its own escrow
        rw [hseq]
        exact ⟨heff.mintNeed_le, hself⟩
      · rw [hother seq hseq]
        exact h seq (hhead ▸ hge) (by omega)
  | @settled _ r _ _ _ _ _ _ heff =>
      have huser := (ht.tickets.own _ r heff.request (Or.inr ⟨_, rfl⟩)).2.1
      have hhead : w'.vault.nextSettleSeq = w.vault.nextSettleSeq + 1 := by
        rw [heff.vault_eq, Vault.settled_nextSettleSeq]
      have hnext : w'.vault.nextSeq = w.vault.nextSeq := by
        rw [heff.vault_eq, Vault.settled_nextSeq]
      have hseq := heff.seq
      exact h.mono (by omega) hnext fun seq hge => (heff.escrow huser (by omega)).ge
  | @expired _ r _ _ heff =>
      have huser := (ht.tickets.own _ r heff.request (Or.inr ⟨_, rfl⟩)).2.1
      have hhead : w'.vault.nextSettleSeq = w.vault.nextSettleSeq + 1 := by
        rw [heff.vault, Vault.expired_nextSettleSeq]
      have hnext : w'.vault.nextSeq = w.vault.nextSeq := by
        rw [heff.vault, Vault.expired_nextSeq]
      have hseq := heff.seq
      exact h.mono (by omega) hnext fun seq hge => (heff.escrow huser (by omega)).ge
  | released heff =>
      exact h.mono (by rw [heff.vault]; rfl) (by rw [heff.vault]; rfl)
        fun seq _ => by rw [heff.toChain]; rfl
  | merged heff =>
      exact h.mono (by rw [heff.vault]) (by rw [heff.vault]) fun seq _ => by rw [heff.toChain]; rfl
  | opened => exact h
  | randomnessCreated => exact h
  | revealed heff =>
      exact h.mono (by rw [heff.vault]) (by rw [heff.vault]) fun seq _ => by rw [heff.toChain]; rfl
  | recommitted heff =>
      exact h.mono (by rw [heff.vault]) (by rw [heff.vault]) fun seq _ => by rw [heff.toChain]; rfl
  | environment henv =>
      exact h.mono (by rw [henv.vault]) (by rw [henv.vault]) fun seq _ => henv.escrows seq

end Funded

/-! ## Bounds -/

/-- The clock is in range, and so is what the vault owes. -/
structure Bounded (D : Deployment) (w : World) : Prop where
  slot_lt : w.slot < u64Size
  tokens_lt : D.ratio * w.vault.owedUnits < u64Size

/-- What is owed grows only where a closing check follows. -/
theorem Bounded.effect (h : Bounded D w) {act : Act} (heff : Effect D w act w') :
    Bounded D w' := by
  cases heff with
  | requested heff =>
      obtain ⟨t, -, hclosing⟩ := heff.closing
      exact ⟨by rw [heff.slot_eq]; exact h.slot_lt, by rw [heff.vault]; exact hclosing.tokens_lt⟩
  | settled heff =>
      obtain ⟨t, -, hclosing⟩ := heff.closing
      exact ⟨by rw [heff.frame.1]; exact h.slot_lt, by rw [heff.vault]; exact hclosing.tokens_lt⟩
  | @expired _ r _ _ heff =>
      have hpos := heff.counters.pending_pos
      have hle : w'.vault.owedUnits ≤ w.vault.owedUnits := by
        rw [heff.vault]
        cases hk : r.kind <;> rw [hk] at hpos <;>
          simp only [Vault.expired, Vault.owedUnits, Vault.pending] at hpos ⊢ <;> omega
      exact ⟨by rw [heff.frame.1]; exact h.slot_lt,
        (Nat.mul_le_mul_left _ hle).trans_lt h.tokens_lt⟩
  | released heff =>
      exact ⟨by rw [heff.toChain]; exact h.slot_lt,
        by rw [heff.vault]; exact heff.closing.tokens_lt⟩
  | merged heff =>
      exact ⟨by rw [heff.toChain]; exact h.slot_lt, by rw [heff.vault]; exact h.tokens_lt⟩
  | opened => exact ⟨h.slot_lt, h.tokens_lt⟩
  | randomnessCreated => exact ⟨h.slot_lt, h.tokens_lt⟩
  | revealed heff =>
      exact ⟨by rw [heff.toChain]; exact h.slot_lt, by rw [heff.vault]; exact h.tokens_lt⟩
  | recommitted heff =>
      exact ⟨by rw [heff.toChain]; exact h.slot_lt, by rw [heff.vault]; exact h.tokens_lt⟩
  | environment henv => exact ⟨henv.slot_lt, by rw [henv.vault]; exact h.tokens_lt⟩

/-! ## All invariants -/

/-- **Everything that holds of a reachable vault**, and of the state of the pool it
tracks. -/
structure Consistent (D : Deployment) (w : World) (x : SequencedPool.State ℕ) : Prop
    extends Tracks D w x where
  economics : 0 < D.ratio ∧ 0 < D.size ∧ D.size < u32Size
  treasury : ∃ donated, Treasury D donated w
  coherent : Coherent D w
  tallies : Tallies w.vault
  records : Records D w
  funded : Funded D w
  bounded : Bounded D w

theorem Created.consistent (h : Created D w) :
    Consistent D w (SequencedPool.State.initial (List.range D.size)) := by
  obtain ⟨c, params, hfresh, hinit⟩ := h.spec
  have hsize := hinit.size_le
  simp only [maxCapacity] at hsize
  exact {
    toTracks := h.tracks
    economics := ⟨hinit.ratio_pos, hinit.size_pos, by simp only [u32Size]; omega⟩
    treasury := ⟨0, h.treasury⟩
    coherent := h.coherent
    tallies := by
      rw [hinit.vault]
      exact ⟨rfl, rfl⟩
    records := fun k r hr hv => by
      rw [hinit.requests_eq] at hr
      exact absurd hv (hfresh.requests k r hr)
    funded := fun seq _ hlt => by simp [hinit.vault, initialVault] at hlt
    bounded := ⟨by rw [hinit.slot_eq]; exact hfresh.slot_lt,
      by simp [hinit.vault, initialVault, Vault.owedUnits, u64Size]⟩ }

namespace Consistent

theorem effect (h : Consistent D w x) {act : Act} (heff : Effect D w act w') :
    ∃ y, Run (PoolStep D) x act.events y ∧ Consistent D w' y := by
  obtain ⟨y, hrun, hy⟩ := h.toTracks.simulate heff
  obtain ⟨donated, htreasury⟩ := h.treasury
  exact ⟨y, hrun, {
    toTracks := hy
    economics := h.economics
    treasury := ⟨_, htreasury.effect h.toTracks heff⟩
    coherent := h.coherent.effect h.toTracks heff
    tallies := h.tallies.effect heff
    records := h.records.effect heff
    funded := h.funded.effect h.toTracks heff
    bounded := h.bounded.effect heff }⟩

theorem run (h : Consistent D w x) (hrun : Run (Step D) w ls w') :
    ∃ y, Run (PoolStep D) x (poolEvents ls) y ∧ Consistent D w' y := by
  rw [← flatMap_events_acts]
  exact (h.toTracks.effects hrun).simulate (fun _ _ _ _ hx heff => hx.effect heff) h

end Consistent

/-- **Every reachable vault is consistent.** -/
theorem History.consistent (h : History D ls w) :
    ∃ x, Run (PoolStep D) (SequencedPool.State.initial (List.range D.size)) (poolEvents ls) x ∧
      Consistent D w x := by
  obtain ⟨w₀, hcreated, hrun⟩ := h
  exact hcreated.consistent.run hrun

/-! ## The closing check -/

/-- Distinct indices that all exist are at most as many as were minted. -/
theorem Custody.length_le_mintedCount (h : Custody D w x) {l : List ℕ} (hnodup : l.Nodup)
    (hlt : ∀ i ∈ l, i < D.size) (hminted : ∀ i ∈ l, mintedOf D.size w.pool i = true) :
    l.length ≤ w.vault.mintedCount := by
  rw [h.count, List.countP_eq_length_filter]
  refine (List.subperm_of_subset hnodup ?_).length_le
  intro i hi
  exact List.mem_filter.mpr ⟨List.mem_range.mpr (hlt i hi), hminted i hi⟩

namespace Consistent

/-- The indices in the pool, in the ring, handed in and out are all there are. -/
theorem length_eq (h : Consistent D w x) :
    x.drawable.length + x.incoming.length + x.queue.reduceOption.length + x.outside.length
      = D.size := by
  have hlen := h.invariant.balanced.length_eq
  simpa [SequencedPool.State.places, Nat.add_assoc] using hlen

theorem lt_of_mem_places (h : Consistent D w x) {i : ℕ} (hi : i ∈ x.places) : i < D.size :=
  List.mem_range.mp (h.invariant.balanced.mem_iff.mp hi)

theorem outside_lt (h : Consistent D w x) {i : ℕ} (hi : i ∈ x.outside) : i < D.size :=
  h.lt_of_mem_places (List.mem_append_right _ hi)

theorem handIn_lt (h : Consistent D w x) {i : ℕ} (hi : i ∈ x.queue.reduceOption) : i < D.size :=
  h.lt_of_mem_places (List.mem_append_left _ (List.mem_append_right _ hi))

/-- What is out or handed in is distinct, and exists. -/
theorem held_spec (h : Consistent D w x) :
    (x.queue.reduceOption ++ x.outside).Nodup ∧
      ∀ i ∈ x.queue.reduceOption ++ x.outside, i < D.size ∧ mintedOf D.size w.pool i = true := by
  have hnodup := h.invariant.places_nodup List.nodup_range
  rw [SequencedPool.State.places, List.append_assoc] at hnodup
  refine ⟨(List.nodup_append.mp hnodup).2.1, ?_⟩
  intro i hi
  rcases List.mem_append.mp hi with hi | hi
  · exact ⟨h.handIn_lt hi, h.custody.handIn_minted i hi⟩
  · exact ⟨h.outside_lt hi, h.custody.outside_minted i hi⟩

/-- **The closing check passes in every reachable state.** -/
theorem closingCheck (h : Consistent D w x) :
    ∃ t, w.tokens D.vaultTokens = some t ∧ t.mint = D.mint ∧ t.owner = D.vaultAuthority ∧
      ClosingCheck w.vault D.ratio D.size w.pool t.amount := by
  obtain ⟨donated, htreasury⟩ := h.treasury
  refine ⟨_, htreasury, rfl, rfl, ?_⟩
  have hunits := h.owedUnits_le
  have hsize := h.economics.2.2
  have hlen := h.length_eq
  have hrerolls := h.rerolls
  have hout := h.outside
  obtain ⟨hnodup, hheld⟩ := h.held_spec
  exact {
    units_lt := by
      simp only [u32Size, u64Size] at hsize ⊢
      omega
    tokens_lt := h.bounded.tokens_lt
    solvent := Nat.le_add_right _ _
    accounted := by
      rw [← length_drawableOf, ← length_incomingOf D.size, h.drawable, h.incoming]
      omega
    minted_le := by
      rw [h.custody.count]
      exact List.countP_le_length.trans List.length_range.le
    held_le := by
      have hle := h.custody.length_le_mintedCount hnodup (fun i hi => (hheld i hi).1)
        fun i hi => (hheld i hi).2
      rw [List.length_append] at hle
      omega }

/-! ## The head -/

/-- The escrow of a pending request is an empty account that holds what a mint costs. -/
theorem escrow_spec (h : Consistent D w x) {seq : ℕ} (hge : x.head ≤ seq) (hlt : seq < x.next) :
    w.Dataless (D.mintEscrowAddress seq) ∧ mintNeed D ≤ w.lamports (D.mintEscrowAddress seq) := by
  obtain ⟨hneed, hle⟩ := h.funded seq (h.head ▸ hge) (h.next ▸ hlt)
  exact ⟨⟨h.custody.accounts _ (Or.inr ⟨seq, rfl⟩), h.custody.escrows seq⟩, hneed.trans hle⟩

/-- The counters of a settle have room. -/
theorem settleCounters (h : Consistent D w x) (hr : w.requests (D.requestAddress r.seq) = some r)
    (hseq : r.seq = x.head) (n : ℕ) :
    SettleCounters { w.vault with mintedCount := n } r.kind := by
  obtain ⟨q, hqueue⟩ := h.tickets.head_queue hseq hr
  have hresolved := h.tallies.resolved
  have hpending := h.pending
  have hrerolls := h.rerolls
  have hunits := h.owedUnits_le
  have hsize := h.economics.2.2
  have hhead := h.head
  have hnext := h.next
  have hlt := h.nextSeq_lt
  rw [hqueue] at hpending hrerolls
  simp only [SequencedPool.State.next, hqueue, List.length_cons] at hnext hpending
  have hle := List.reduceOption_length_le q
  simp only [Vault.owedUnits] at hunits
  simp only [u32Size, u64Size] at hsize hlt
  cases hk : r.kind with
  | capture =>
      have hitem : r.handIn = none := by simp [Request.handIn, hk]
      simp only [hitem, List.reduceOption_cons_of_none] at hrerolls
      constructor <;> simp only [Vault.pending, Vault.total, u64Size] <;> omega
  | reroll =>
      have hitem : r.handIn = some r.handedInIndex := by simp [Request.handIn, hk]
      simp only [hitem, List.reduceOption_cons_of_some, List.length_cons] at hrerolls
      constructor <;> simp only [Vault.pending, Vault.total, u64Size] <;> omega

end Consistent

end HybridVault
