import HybridVault.Reachability

/-!
# Requests and their randomness

A request, its lock and its randomness account live and die separately: the lock is
made and closed with the request, the account outlives both and is used again, a
re-commit does not look at the lock, and an expiry does not look at what the lock
says.  `Coherent` is what keeps them together.

* Every pending request holds the one lock of its randomness account, so no two
  pending requests share an account.
* The account is committed to the request's seed slot, and revealed exactly if the
  request is, with the same value (`Agrees`).

Were an account revealed and its request not, none of reveal, re-commit, expire and
settle would accept the request again.  Were a revealed value replaceable, its owner
could draw twice.
-/

namespace HybridVault

open Foundations

variable {D : Deployment} {w w' : World} {x : SequencedPool.State ℕ} {ls : List Label}
  {r : Request}

/-- A request and its randomness account agree. -/
structure Agrees (D : Deployment) (sbQueue : Pubkey) (r : Request) (snap : RandomnessSnapshot) :
    Prop where
  authority : snap.authority = D.randomnessAuthority
  queue : snap.queue = sbQueue
  seed : snap.seedSlot = r.seedSlot
  revealed : r.revealed = true ↔ snap.isRevealed r.seedSlot = true
  value : r.revealed = true → r.value = snap.value

/-- **Requests, locks and randomness accounts belong together.** -/
structure Coherent (D : Deployment) (w : World) : Prop where
  lock : ∀ k r, w.requests k = some r → r.vault = D.vault →
    w.randLocks (.randLock r.randomness) = some { vault := D.vault, seq := r.seq }
  locked : ∀ k l, w.randLocks k = some l → l.vault = D.vault →
    ∃ r, w.requests (D.requestAddress l.seq) = some r ∧ r.vault = D.vault ∧
      k = .randLock r.randomness
  snapshot : ∀ k r, w.requests k = some r → r.vault = D.vault →
    ∃ snap, w.randomness r.randomness = some snap ∧ Agrees D w.vault.sbQueue r snap

namespace Coherent

/-- **No two pending requests share a randomness account.** -/
theorem randomness_inj (h : Coherent D w) (ht : Tickets D w x) {k k' : Pubkey} {r' : Request}
    (hr : w.requests k = some r) (hv : r.vault = D.vault) (hr' : w.requests k' = some r')
    (hv' : r'.vault = D.vault) (hsame : r.randomness = r'.randomness) : k = k' := by
  have hlock := h.lock k r hr hv
  rw [hsame, h.lock k' r' hr' hv'] at hlock
  obtain ⟨-, hseq⟩ := RandLock.mk.inj (Option.some.inj hlock)
  obtain ⟨-, -, hk, -⟩ := ht.own k r hr (Or.inl hv)
  obtain ⟨-, -, hk', -⟩ := ht.own k' r' hr' (Or.inl hv')
  rw [hk, hk', hseq]

/-- The accounts of this vault are as before. -/
theorem congr (h : Coherent D w)
    (hrequests : ∀ k r, r.vault = D.vault → (w'.requests k = some r ↔ w.requests k = some r))
    (hlocks : ∀ k l, l.vault = D.vault → (w'.randLocks k = some l ↔ w.randLocks k = some l))
    (hrandomness : ∀ k s, s.authority = D.randomnessAuthority → w.randomness k = some s →
      w'.randomness k = some s)
    (hqueue : w'.vault.sbQueue = w.vault.sbQueue) : Coherent D w' where
  lock := fun k r hr hv => (hlocks _ _ rfl).mpr (h.lock k r ((hrequests k r hv).mp hr) hv)
  locked := by
    intro k l hl hlv
    obtain ⟨r, hr, hv, hk⟩ := h.locked k l ((hlocks k l hlv).mp hl) hlv
    exact ⟨r, (hrequests _ r hv).mpr hr, hv, hk⟩
  snapshot := by
    intro k r hr hv
    obtain ⟨snap, hsnap, hagrees⟩ := h.snapshot k r ((hrequests k r hv).mp hr) hv
    exact ⟨snap, hrandomness _ snap hagrees.authority hsnap, by rwa [hqueue]⟩

/-- An act that writes none of the three accounts. -/
theorem of_eq (h : Coherent D w) (hrequests : w'.requests = w.requests)
    (hlocks : w'.randLocks = w.randLocks) (hrandomness : w'.randomness = w.randomness)
    (hqueue : w'.vault.sbQueue = w.vault.sbQueue) : Coherent D w' := by
  refine h.congr ?_ ?_ ?_ hqueue
  · intro k r _
    rw [hrequests]
  · intro k l _
    rw [hlocks]
  · intro k s _ hs
    rwa [hrandomness]

/-- A request and its lock are closed. -/
theorem close (h : Coherent D w) (ht : Tickets D w x)
    (hr : w.requests (D.requestAddress r.seq) = some r) (hv : r.vault = D.vault)
    (hrequests : w'.requests = Function.update w.requests (D.requestAddress r.seq) none)
    (hlocks : w'.randLocks = Function.update w.randLocks (.randLock r.randomness) none)
    (hrandomness : w'.randomness = w.randomness)
    (hqueue : w'.vault.sbQueue = w.vault.sbQueue) : Coherent D w' := by
  have hother : ∀ k r', w'.requests k = some r' →
      k ≠ D.requestAddress r.seq ∧ w.requests k = some r' := by
    intro k r' hr'
    rw [hrequests] at hr'
    exact update_none_eq_some_iff.mp hr'
  exact {
    lock := by
      intro k r' hr' hv'
      obtain ⟨hk, hr'⟩ := hother k r' hr'
      have hne : r'.randomness ≠ r.randomness := fun hsame =>
        hk (h.randomness_inj ht hr' hv' hr hv hsame)
      rw [hlocks, Function.update_of_ne (by simpa using hne)]
      exact h.lock k r' hr' hv'
    locked := by
      intro k l hl hlv
      rw [hlocks] at hl
      obtain ⟨hk, hl⟩ := update_none_eq_some_iff.mp hl
      obtain ⟨r', hr', hv', hk'⟩ := h.locked k l hl hlv
      refine ⟨r', ?_, hv', hk'⟩
      rw [hrequests]
      -- the one request of that number has the lock that is closed
      refine update_none_eq_some_iff.mpr ⟨?_, hr'⟩
      rw [Ne, requestAddress_inj]
      intro hseq
      rw [hseq, hr] at hr'
      obtain rfl := Option.some.inj hr'
      exact hk hk'
    snapshot := by
      intro k r' hr' hv'
      rw [hrandomness, hqueue]
      exact h.snapshot k r' (hother k r' hr').2 hv' }

/-- A request is rewritten together with its randomness account. -/
theorem rewrite (h : Coherent D w) (ht : Tickets D w x) (r' : Request) (snap : RandomnessSnapshot)
    (hr : w.requests (D.requestAddress r.seq) = some r) (hv : r.vault = D.vault)
    (hseq : r'.seq = r.seq) (hrand : r'.randomness = r.randomness)
    (hagrees : Agrees D w.vault.sbQueue r' snap)
    (hrequests : w'.requests = Function.update w.requests (D.requestAddress r.seq) (some r'))
    (hlocks : w'.randLocks = w.randLocks)
    (hrandomness : w'.randomness = Function.update w.randomness r.randomness (some snap))
    (hvault : r'.vault = r.vault) (hqueue : w'.vault.sbQueue = w.vault.sbQueue) :
    Coherent D w' := by
  have hself : w'.requests (D.requestAddress r.seq) = some r' := by
    rw [hrequests, Function.update_self]
  have hother : ∀ k, k ≠ D.requestAddress r.seq → w'.requests k = w.requests k := by
    intro k hk
    rw [hrequests, Function.update_of_ne hk]
  exact {
    lock := by
      intro k s hs hsv
      rw [hlocks]
      by_cases hk : k = D.requestAddress r.seq
      · subst hk
        obtain rfl := Option.some.inj (hself.symm.trans hs)
        rw [hrand, hseq]
        exact h.lock _ r hr hv
      · rw [hother k hk] at hs
        exact h.lock k s hs hsv
    locked := by
      intro k l hl hlv
      rw [hlocks] at hl
      obtain ⟨s, hs, hsv, hk⟩ := h.locked k l hl hlv
      by_cases hl' : D.requestAddress l.seq = D.requestAddress r.seq
      · rw [hl', hr] at hs
        obtain rfl := Option.some.inj hs
        exact ⟨r', by rw [hl']; exact hself, hvault.trans hv, by rw [hrand]; exact hk⟩
      · exact ⟨s, by rw [hother _ hl']; exact hs, hsv, hk⟩
    snapshot := by
      intro k s hs hsv
      rw [hrandomness, hqueue]
      by_cases hk : k = D.requestAddress r.seq
      · subst hk
        obtain rfl := Option.some.inj (hself.symm.trans hs)
        exact ⟨snap, by rw [hrand, Function.update_self], hagrees⟩
      · rw [hother k hk] at hs
        have hne : s.randomness ≠ r.randomness := fun hsame =>
          hk (h.randomness_inj ht hs hsv hr hv hsame)
        rw [Function.update_of_ne hne]
        exact h.snapshot k s hs hsv }

/-- A request is created, on an account that no lock binds. -/
theorem requested (h : Coherent D w) {oracle : Pubkey}
    {snap : RandomnessSnapshot} {sol : ℕ} (heff : RequestEffect D w w' r oracle snap sol) :
    Coherent D w' := by
  have hseq : r.seq = w.vault.nextSeq := congrArg Request.seq heff.request
  have hv : r.vault = D.vault := congrArg Request.vault heff.request
  have hunrevealed : r.revealed = false := congrArg Request.revealed heff.request
  have hseed : r.seedSlot = w.slot - 1 := congrArg Request.seedSlot heff.request
  have hqueue := (Effect.requested heff).sbQueue_eq
  have hself : w'.requests (D.requestAddress w.vault.nextSeq) = some r := by
    rw [heff.requests_eq, Function.update_self]
  have hother : ∀ k, k ≠ D.requestAddress w.vault.nextSeq → w'.requests k = w.requests k := by
    intro k hk
    rw [heff.requests_eq, Function.update_of_ne hk]
  -- an account that is bound already is another one
  have hne : ∀ k s, w.requests k = some s → s.vault = D.vault → s.randomness ≠ r.randomness := by
    intro k s hs hsv hsame
    have hlock := h.lock k s hs hsv
    rw [hsame, heff.lock_none] at hlock
    simp at hlock
  exact {
    lock := by
      intro k s hs hsv
      rw [heff.randLocks_eq]
      by_cases hk : k = D.requestAddress w.vault.nextSeq
      · subst hk
        obtain rfl := Option.some.inj (hself.symm.trans hs)
        rw [Function.update_self, hseq]
      · rw [hother k hk] at hs
        rw [Function.update_of_ne (by simpa using hne k s hs hsv)]
        exact h.lock k s hs hsv
    locked := by
      intro k l hl hlv
      rw [heff.randLocks_eq] at hl
      rcases update_eq_some_iff.mp hl with ⟨rfl, hnew⟩ | ⟨-, hold⟩
      · obtain rfl := Option.some.inj hnew
        exact ⟨r, hself, hv, rfl⟩
      · obtain ⟨s, hs, hsv, hk'⟩ := h.locked k l hold hlv
        refine ⟨s, ?_, hsv, hk'⟩
        rw [hother]
        · exact hs
        · intro hsame
          rw [hsame, heff.request_none] at hs
          simp at hs
    snapshot := by
      intro k s hs hsv
      rw [heff.randomness_eq, hqueue]
      by_cases hk : k = D.requestAddress w.vault.nextSeq
      · subst hk
        obtain rfl := Option.some.inj (hself.symm.trans hs)
        refine ⟨_, Function.update_self .., heff.authority, heff.queue, hseed.symm, ?_, by
          simp [hunrevealed]⟩
        have hle := heff.commitSlot.revealSlot_le
        simpa [hunrevealed, RandomnessSnapshot.isRevealed_iff, committed, hseed] using hle
      · rw [hother k hk] at hs
        rw [Function.update_of_ne (hne k s hs hsv)]
        exact h.snapshot k s hs hsv }

/-- **Every effect keeps requests, locks and accounts together.** -/
theorem effect (h : Coherent D w) (ht : Tracks D w x) {act : Act} (heff : Effect D w act w') :
    Coherent D w' := by
  have hqueue := heff.sbQueue_eq
  cases heff with
  | requested heff => exact h.requested heff
  | settled heff =>
      obtain ⟨-, -, hrandomness, -, hrequests, hlocks⟩ := heff.frame
      exact h.close ht.tickets heff.request heff.request_vault hrequests hlocks hrandomness hqueue
  | expired heff =>
      obtain ⟨-, hrandomness, -, -, hrequests, hlocks⟩ := heff.frame
      exact h.close ht.tickets heff.request heff.request_vault hrequests hlocks hrandomness hqueue
  | released heff =>
      have hchain := heff.toChain
      exact h.of_eq (by rw [hchain]; rfl) (by rw [hchain]; rfl) (by rw [hchain]; rfl) hqueue
  | merged heff =>
      have hchain := heff.toChain
      exact h.of_eq (by rw [hchain]; rfl) (by rw [hchain]; rfl) (by rw [hchain]; rfl) hqueue
  | opened => exact h.of_eq rfl rfl rfl hqueue
  | @randomnessCreated randomness hnew =>
      refine h.congr (fun _ _ _ => Iff.rfl) (fun _ _ _ => Iff.rfl) ?_ hqueue
      intro k s _ hs
      have hne : k ≠ randomness := by
        rintro rfl
        simp [hnew] at hs
      simpa [Function.update_of_ne hne] using hs
  | @revealed _ r snap value heff =>
      have hchain := heff.toChain
      obtain ⟨snap', hsnap', hagrees⟩ := h.snapshot _ r heff.request heff.request_vault
      obtain rfl := Option.some.inj (heff.randomness.symm.trans hsnap')
      refine h.rewrite ht.tickets { r with revealed := true, value := value }
        { snap with revealSlot := w.slot, value := value } heff.request heff.request_vault rfl rfl
        ⟨hagrees.authority, hagrees.queue, hagrees.seed, ?_, fun _ => rfl⟩
        (by rw [hchain]; rfl) (by rw [hchain]; rfl) (by rw [hchain]; rfl) rfl hqueue
      simp [RandomnessSnapshot.isRevealed_iff, heff.seed, heff.slot]
  | @recommitted _ r snap queue oracle proofs heff =>
      have hchain := heff.toChain
      refine h.rewrite ht.tickets (r.recommitted w.slot oracle) (committed w.toChain snap)
        heff.request heff.request_vault rfl rfl ⟨heff.authority, heff.snap_queue, rfl, ?_, ?_⟩
        (by rw [hchain]; rfl) (by rw [hchain]; rfl) (by rw [hchain]; rfl) rfl hqueue
      · have hle := heff.commitSlot.revealSlot_le
        simpa [RandomnessSnapshot.isRevealed_iff, committed, heff.unrevealed] using hle
      · simp [heff.unrevealed]
  | environment henv =>
      exact h.congr henv.requests henv.randLocks
        (fun k s hs => (henv.randomness k s hs).mpr) hqueue

end Coherent

/-- A created vault has no request and no lock. -/
theorem Created.coherent (h : Created D w) : Coherent D w := by
  obtain ⟨c, params, hfresh, hinit⟩ := h.spec
  have hno : ∀ k r, w.requests k = some r → r.vault ≠ D.vault := by
    rw [hinit.requests_eq]
    exact hfresh.requests
  exact {
    lock := fun k r hr hv => absurd hv (hno k r hr)
    locked := fun k l hl hlv => by
      rw [hinit.randLocks_eq] at hl
      exact absurd hlv (hfresh.randLocks k l hl)
    snapshot := fun k r hr hv => absurd hv (hno k r hr) }

theorem History.coherent (h : History D ls w) : Coherent D w :=
  h.invariant (P := fun _ w => Coherent D w) (fun _ hcreated => hcreated.coherent)
    fun _ _ _ _ _ htracks hp heff => hp.effect htracks heff

/-! ## Finality -/

/-- Request `seq` was settled by a draw with `value`. -/
def DrawnWith (D : Deployment) (seq : ℕ) (value : Bytes32) (es : List PoolEvent) : Prop :=
  ∃ candidates picked pos, SequencedPool.Event.settled seq value candidates picked ∈ es ∧
    uniformBelow D (requestRandomness D value seq) candidates.length = .ok pos ∧
    candidates[pos]? = some picked

/-- The only effect that touches a revealed request is the settle that draws with its
value. -/
theorem Effect.revealed_final {act : Act} (heff : Effect D w act w') (ht : Tracks D w x)
    {k : Pubkey} (hr : w.requests k = some r) (hv : r.vault = D.vault) (hrev : r.revealed = true) :
    w'.requests k = some r ∨ DrawnWith D r.seq r.value act.events := by
  -- an update of another request
  have hother : ∀ {seq : ℕ} {o : Option Request} {s : Request},
      w'.requests = Function.update w.requests (D.requestAddress seq) o →
      w.requests (D.requestAddress seq) = some s → s.revealed = false → w'.requests k = some r := by
    intro seq o s hrequests hs hunrevealed
    rw [hrequests, Function.update_of_ne]
    · exact hr
    · rintro rfl
      obtain rfl := Option.some.inj (hr.symm.trans hs)
      simp [hrev] at hunrevealed
  cases heff with
  | requested heff =>
      left
      rw [heff.requests_eq, Function.update_of_ne]
      · exact hr
      · rintro rfl
        simp [heff.request_none] at hr
  | @settled _ s mint candidates picked d c v heff =>
      obtain ⟨-, -, -, -, hrequests, -⟩ := heff.frame
      by_cases hk : k = D.requestAddress s.seq
      · subst hk
        obtain rfl := Option.some.inj (hr.symm.trans heff.request)
        obtain ⟨pos, hdraw⟩ := heff.drawn ht.pool
        exact Or.inr
          ⟨candidates, picked, pos, List.mem_singleton_self _, hdraw.position, hdraw.pick⟩
      · left
        rw [hrequests, Function.update_of_ne hk]
        exact hr
  | expired heff =>
      obtain ⟨-, -, -, -, hrequests, -⟩ := heff.frame
      exact Or.inl (hother hrequests heff.request heff.unrevealed)
  | released heff => exact Or.inl (by rw [heff.toChain]; exact hr)
  | merged heff => exact Or.inl (by rw [heff.toChain]; exact hr)
  | opened => exact Or.inl hr
  | randomnessCreated => exact Or.inl hr
  | revealed heff =>
      exact Or.inl (hother (by rw [heff.toChain]; rfl) heff.request heff.unrevealed)
  | recommitted heff =>
      exact Or.inl (hother (by rw [heff.toChain]; rfl) heff.request heff.unrevealed)
  | environment henv => exact Or.inl ((henv.requests k r hv).mpr hr)

/-- **A revealed request waits for its own draw.** -/
theorem Tracks.revealed_final (h : Tracks D w x) {k : Pubkey} (hr : w.requests k = some r)
    (hv : r.vault = D.vault) (hrev : r.revealed = true) (hrun : Run (Step D) w ls w') :
    w'.requests k = some r ∨ DrawnWith D r.seq r.value (poolEvents ls) := by
  have key := h.run_invariant
    (P := fun acts w => w.requests k = some r ∨ DrawnWith D r.seq r.value (acts.flatMap Act.events))
    ?_ (Or.inl hr) hrun
  · rwa [flatMap_events_acts] at key
  · rintro acts v y act u htracks (hr | ⟨c, p, pos, hmem, hdraw⟩) heff
    · refine (heff.revealed_final htracks hr hv hrev).imp_right ?_
      rintro ⟨c, p, pos, hmem, hdraw⟩
      exact ⟨c, p, pos, by simp [hmem], hdraw⟩
    · exact Or.inr ⟨c, p, pos, by simp [hmem], hdraw⟩

/-- **Coherence and finality.**  In every reachable state, pending requests have
different randomness accounts; each has exactly one lock that names it, that of its
account; its account is committed to its seed slot, and revealed for it exactly if the
request is, with the request's value; and once the request is revealed, every
continuation leaves it as it is or has settled it by the draw with exactly that
value. -/
theorem revealed_draw_is_final (h : History D ls w) :
    (∀ k r k' r', w.requests k = some r → r.vault = D.vault →
        w.requests k' = some r' → r'.vault = D.vault → r.randomness = r'.randomness → k = k') ∧
      ∀ k r, w.requests k = some r → r.vault = D.vault →
        (∀ j, w.randLocks j = some { vault := D.vault, seq := r.seq }
          ↔ j = .randLock r.randomness) ∧
        (∃ snap, w.randomness r.randomness = some snap ∧ snap.seedSlot = r.seedSlot ∧
          (r.revealed = true ↔ snap.isRevealed r.seedSlot = true) ∧
          (r.revealed = true → r.value = snap.value)) ∧
        (r.revealed = true → ∀ ls' w', Run (Step D) w ls' w' →
          w'.requests k = some r ∨ DrawnWith D r.seq r.value (poolEvents ls')) := by
  obtain ⟨x, -, htracks⟩ := h.tracks
  have hcoherent := h.coherent
  refine ⟨fun k r k' r' hr hv hr' hv' hsame =>
    hcoherent.randomness_inj htracks.tickets hr hv hr' hv' hsame, fun k r hr hv => ⟨?_, ?_,
      fun hrev ls' w' hrun => htracks.revealed_final hr hv hrev hrun⟩⟩
  · intro j
    constructor
    · intro hj
      obtain ⟨r', hr', -, rfl⟩ := hcoherent.locked j _ hj rfl
      obtain ⟨-, -, rfl, -⟩ := htracks.tickets.own k r hr (Or.inl hv)
      obtain rfl := Option.some.inj (hr.symm.trans hr')
      rfl
    · rintro rfl
      exact hcoherent.lock k r hr hv
  · obtain ⟨snap, hsnap, hagrees⟩ := hcoherent.snapshot k r hr hv
    exact ⟨snap, hsnap, hagrees.seed, hagrees.revealed, hagrees.value⟩

/-- The capture of the small vault, once revealed, is settled by the draw with its value. -/
theorem revealed_draw_is_final_small :
    ∃ ls w r ls' w', History smallVault ls w ∧ w.requests (smallVault.requestAddress 0) = some r ∧
      r.revealed = true ∧ r.value = smallValue ∧ Run (Step smallVault) w ls' w' ∧
      w'.requests (smallVault.requestAddress 0) = none ∧
      DrawnWith smallVault 0 smallValue (poolEvents ls') := by
  obtain ⟨ls₀, w₀, w₁, w₂, w₃, h, hcapture, -, -, ⟨es, hreveal⟩, hrevealed, hsettle, hsettled, -⟩ :=
    exists_smallStory
  simp only [smallRevealed, Bool.and_eq_true, Option.any_eq_true, decide_eq_true_eq] at hrevealed
  simp only [smallSettled, Bool.and_eq_true, decide_eq_true_eq] at hsettled
  obtain ⟨-, r, hr, ⟨⟨hv, hseq⟩, hrev⟩, hvalue⟩ := hrevealed
  have hreached := (h.snoc (.instruction hcapture)).snoc (.instruction hreveal)
  have hrun : Run (Step smallVault) w₂ _ w₃ := .single (.instruction hsettle)
  have hfinal := ((revealed_draw_is_final hreached).2 _ r hr hv).2.2 hrev _ w₃ hrun
  rw [hseq, hvalue] at hfinal
  exact ⟨_, w₂, r, _, w₃, hreached, hr, hrev, hvalue, hrun, hsettled.1.1,
    hfinal.resolve_left (by simp [hsettled.1.1])⟩

end HybridVault
