import HybridVault.Queue

/-!
# The last resort

An expiry pays back a request that no oracle would reveal.  How long that took and how
many oracles were tried is checked nowhere: a re-commit looks at the deadline of the commit
before it and at their number, an expiry at the same two.  The bounds follow from the
chain, since every deadline is set in a slot after the one before it has passed.

* `Written` — what a step can have made of a request: it created it, committed it afresh,
  revealed it, or left it.
* `Attempts` — the commits behind a pending request, each to another oracle of the pinned
  queue, and how far they put its deadline off.
* `LastResort` — what is behind a request that expires.
-/

namespace HybridVault

open Foundations

variable {D : Deployment} {w₀ w w' : World} {x : SequencedPool.State ℕ} {ls : List Label}
  {r : Request} {k : Pubkey}

/-! ## What a step makes of a request -/

/-- What a step from `w` that shows `es` can have made of request `r` at `k`. -/
inductive Written (D : Deployment) (w : World) (k : Pubkey) : List PoolEvent → Request → Prop
  | kept {es : List PoolEvent} {r : Request} (h : w.requests k = some r) : Written D w k es r
  | requested {r : Request} {queue oracle : Pubkey} {proofs : List Pubkey}
      (hk : k = D.requestAddress r.seq) (hcommits : r.commits = 1)
      (horacles : r.oracles = oracle :: List.replicate maxRecommits .default)
      (hdeadline : r.deadlineSlot = w.slot + revealTimeoutSlots)
      (hchecks : oracleChecks D w.accounts w.vault.sbQueue queue oracle r.seq [] proofs
        w.unixTimestamp = .ok ()) : Written D w k [.requested r.seq r.handIn] r
  | recommitted {es : List PoolEvent} {r : Request} {queue oracle : Pubkey} {proofs : List Pubkey}
      (h : w.requests k = some r) (hk : k = D.requestAddress r.seq) (hv : r.vault = D.vault)
      (hoverdue : r.deadlineSlot < w.slot) (hcommits : r.commits ≤ maxRecommits)
      (hchecks : oracleChecks D w.accounts w.vault.sbQueue queue oracle r.seq r.usedOracles proofs
        w.unixTimestamp = .ok ()) : Written D w k es (r.recommitted w.slot oracle)
  | revealed {es : List PoolEvent} {r : Request} {value : Bytes32} (h : w.requests k = some r)
      (hv : r.vault = D.vault) : Written D w k es { r with revealed := true, value := value }

/-- Where one request is written, a request found is that one or an old one. -/
theorem request_of_update {o : Option Request} {key : Pubkey}
    (hrequests : w'.requests = Function.update w.requests key o) (hr : w'.requests k = some r) :
    w.requests k = some r ∨ k = key ∧ o = some r := by
  rw [hrequests] at hr
  rcases update_eq_some_iff.mp hr with hnew | ⟨-, hold⟩
  · exact Or.inr hnew
  · exact Or.inl hold

/-- Where one request is closed, a request found is an old one. -/
theorem request_of_erase {key : Pubkey}
    (hrequests : w'.requests = Function.update w.requests key none) (hr : w'.requests k = some r) :
    w.requests k = some r := by
  rcases request_of_update hrequests hr with hr | ⟨-, hnew⟩
  · exact hr
  · cases hnew

theorem RequestEffect.written {r₁ : Request} {oracle : Pubkey} {snap : RandomnessSnapshot}
    {sol : ℕ} (heff : RequestEffect D w w' r₁ oracle snap sol) (hr : w'.requests k = some r) :
    Written D w k [.requested w.vault.nextSeq r₁.handIn] r := by
  rcases request_of_update heff.requests_eq hr with hr | ⟨rfl, hnew⟩
  · exact .kept hr
  · obtain rfl := Option.some.inj hnew
    obtain ⟨queue, proofs, hchecks⟩ := heff.oracleChecks
    have hseq : r₁.seq = w.vault.nextSeq := congrArg Request.seq heff.request
    rw [← hseq]
    exact .requested (by rw [hseq]) (congrArg Request.commits heff.request)
      (congrArg Request.oracles heff.request) (congrArg Request.deadlineSlot heff.request)
      (by rwa [hseq])

theorem Effect.written {act : Act} (heff : Effect D w act w') (hr : w'.requests k = some r)
    (hv : r.vault = D.vault) : Written D w k act.events r := by
  cases heff with
  | requested heff => exact heff.written hr
  | settled heff =>
      obtain ⟨-, -, -, -, hrequests, -⟩ := heff.frame
      exact .kept (request_of_erase hrequests hr)
  | expired heff =>
      obtain ⟨-, -, -, -, hrequests, -⟩ := heff.frame
      exact .kept (request_of_erase hrequests hr)
  | released heff => exact .kept (by rwa [heff.toChain] at hr)
  | merged heff => exact .kept (by rwa [heff.toChain] at hr)
  | opened => exact .kept hr
  | randomnessCreated => exact .kept hr
  | revealed heff =>
      rcases request_of_update (congrArg Chain.requests heff.toChain) hr with hr | ⟨rfl, hnew⟩
      · exact .kept hr
      · obtain rfl := Option.some.inj hnew
        exact .revealed heff.request heff.request_vault
  | recommitted heff =>
      rcases request_of_update (congrArg Chain.requests heff.toChain) hr with hr | ⟨rfl, hnew⟩
      · exact .kept hr
      · obtain rfl := Option.some.inj hnew
        exact .recommitted heff.request rfl heff.request_vault heff.overdue heff.commits_le
          heff.oracleChecks
  | environment henv => exact .kept ((henv.requests k r hv).mp hr)

/-- Expiries write no request, and take no time. -/
theorem requests_of_expiries {acts : List Act} (hrun : Run (Effect D) w acts w')
    (hexpired : ∀ act ∈ acts, ∃ seq handIn, act = .pool (.expired seq handIn)) :
    w'.slot = w.slot ∧ ∀ k r, w'.requests k = some r → w.requests k = some r := by
  induction hrun with
  | nil => exact ⟨rfl, fun _ _ hr => hr⟩
  | cons heff _ ih =>
      obtain ⟨hslot, hrequests⟩ := ih fun act hact => hexpired act (List.mem_cons_of_mem _ hact)
      obtain ⟨seq, handIn, rfl⟩ := hexpired _ (List.mem_cons_self ..)
      cases heff with
      | expired heff =>
          obtain ⟨hsame, -, -, -, hupdate, -⟩ := heff.frame
          refine ⟨hslot.trans hsame, ?_⟩
          intro k r hr
          exact request_of_erase hupdate (hrequests k r hr)

theorem Consistent.written (h : Consistent D w x) {l : Label} (hstep : Step D w l w')
    (hr : w'.requests k = some r) (hv : r.vault = D.vault) : Written D w k l.events r := by
  have hrun := h.effects_of_step hstep
  rcases h.acts_of_step hstep with ⟨act, hact⟩ | hexpired
  · rw [hact] at hrun
    have hwritten := hrun.step_of_single.written hr hv
    rwa [← l.acts_events, hact, List.flatMap_singleton]
  · exact .kept ((requests_of_expiries hrun hexpired).2 k r hr)

/-! ## The commits behind a request -/

/-- From `u` to `v`, request `seq` is committed to `oracle`: of the oracles that the queue
`pinned` lists, the program chooses it where `used` have been used. -/
structure Commits (D : Deployment) (pinned : Pubkey) (seq : ℕ) (used : List Pubkey)
    (oracle : Pubkey) (u v : World) : Prop where
  pinned_eq : u.vault.sbQueue = pinned
  listed : oracle ∈ listedKeys D (u.accounts pinned).data
  chosen : firstUnskippable D u.accounts (u.accounts pinned).data seq used u.unixTimestamp
    = some oracle
  live : isLive D u.unixTimestamp (u.accounts oracle)
  request : ∃ r, v.requests (D.requestAddress seq) = some r ∧ r.usedOracles = used ++ [oracle]

/-- **The commits behind request `r`**, on the run `ls` from `w₀` to `w`.  They are to
oracles that differ and exist, one a commit, each chosen from the pinned queue in a step of
the run; and each took at least the time an oracle has to reveal. -/
structure Attempts (D : Deployment) (w₀ : World) (ls : List Label) (w : World) (r : Request) :
    Prop where
  commits_pos : 1 ≤ r.commits
  commits_le : r.commits ≤ 1 + maxRecommits
  length_eq : r.oracles.length = 1 + maxRecommits
  nodup : r.usedOracles.Nodup
  nonzero : .default ∉ r.usedOracles
  unused : ∀ oracle ∈ r.oracles.drop r.commits, oracle = .default
  chosen : ∀ j oracle, r.usedOracles[j]? = some oracle → ∃ u l v, Takes (Step D) w₀ ls w u l v ∧
    Commits D w.vault.sbQueue r.seq (r.usedOracles.take j) oracle u v
  created : ∃ u l v, Takes (Step D) w₀ ls w u l v ∧ l.events = [.requested r.seq r.handIn] ∧
    u.slot + r.commits * revealTimeoutSlots ≤ r.deadlineSlot

/-- What passing the oracle checks says of the oracle. -/
theorem oracle_of_oracleChecks {queue oracle : Pubkey} {seq : ℕ} {used proofs : List Pubkey}
    (hused : used.length ≤ maxKeySliceLen)
    (h : oracleChecks D w.accounts w.vault.sbQueue queue oracle seq used proofs w.unixTimestamp
      = .ok ()) :
    oracle ≠ .default ∧ oracle ∉ used ∧ ∀ v : World,
      (∃ r, v.requests (D.requestAddress seq) = some r ∧ r.usedOracles = used ++ [oracle]) →
        Commits D w.vault.sbQueue seq used oracle w v := by
  obtain ⟨hfirst, hlive⟩ := firstUnskippable_of_oracleChecks hused h
  have hcand := List.find?_some hfirst
  simp only [isCandidate, Bool.and_eq_true, decide_eq_true_eq] at hcand
  have hlisted := mem_walkKeys_iff.mp (List.mem_of_find?_eq_some hfirst)
  exact ⟨hcand.1.1, hcand.1.2, fun v hr => ⟨rfl, hlisted, hfirst, hlive, hr⟩⟩

/-- The oracles of a request that has just been committed again. -/
theorem Request.usedOracles_recommitted (hlt : r.commits < r.oracles.length) (slot : ℕ)
    (oracle : Pubkey) :
    (r.recommitted slot oracle).usedOracles = r.usedOracles ++ [oracle] := by
  have hlen : r.commits < (r.oracles.set r.commits oracle).length := by simpa using hlt
  simp only [Request.usedOracles, Request.recommitted_commits, Request.recommitted_oracles]
  rw [List.take_succ_eq_append_getElem hlen, List.take_set_of_le le_rfl, List.getElem_set_self]

namespace Attempts

theorem length_usedOracles (h : Attempts D w₀ ls w r) : r.usedOracles.length = r.commits := by
  have hle := h.commits_le
  rw [Request.usedOracles, List.length_take, h.length_eq]
  omega

/-- Oracles used fit a key slice. -/
theorem usedOracles_le (h : Attempts D w₀ ls w r) : r.usedOracles.length ≤ maxKeySliceLen := by
  rw [h.length_usedOracles]
  exact h.commits_le.trans (by decide)

/-- A step that leaves the commits of a request leaves what is behind them. -/
theorem kept {l : Label} (h : Attempts D w₀ ls w r) (hstep : Step D w l w')
    (hqueue : w'.vault.sbQueue = w.vault.sbQueue) : Attempts D w₀ (ls ++ [l]) w' r where
  commits_pos := h.commits_pos
  commits_le := h.commits_le
  length_eq := h.length_eq
  nodup := h.nodup
  nonzero := h.nonzero
  unused := h.unused
  chosen := by
    intro j oracle hj
    obtain ⟨u, l', v, htakes, hcommits⟩ := h.chosen j oracle hj
    exact ⟨u, l', v, htakes.snoc hstep, by rwa [hqueue]⟩
  created := by
    obtain ⟨u, l', v, htakes, hevents, hle⟩ := h.created
    exact ⟨u, l', v, htakes.snoc hstep, hevents, hle⟩

/-- A reveal is no commit. -/
theorem revealed (h : Attempts D w₀ ls w r) (value : Bytes32) :
    Attempts D w₀ ls w { r with revealed := true, value := value } :=
  ⟨h.commits_pos, h.commits_le, h.length_eq, h.nodup, h.nonzero, h.unused, h.chosen, h.created⟩

/-- A request is created with its first commit. -/
theorem requested {l : Label} {queue oracle : Pubkey} {proofs : List Pubkey}
    (hrun : Run (Step D) w₀ ls w) (hstep : Step D w l w')
    (hqueue : w'.vault.sbQueue = w.vault.sbQueue)
    (hr : w'.requests (D.requestAddress r.seq) = some r)
    (hevents : l.events = [.requested r.seq r.handIn]) (hcommits : r.commits = 1)
    (horacles : r.oracles = oracle :: List.replicate maxRecommits .default)
    (hdeadline : r.deadlineSlot = w.slot + revealTimeoutSlots)
    (hchecks : oracleChecks D w.accounts w.vault.sbQueue queue oracle r.seq [] proofs
      w.unixTimestamp = .ok ()) : Attempts D w₀ (ls ++ [l]) w' r := by
  have hused : r.usedOracles = [oracle] := by simp [Request.usedOracles, hcommits, horacles]
  obtain ⟨hne, -, hchosen⟩ := oracle_of_oracleChecks (Nat.zero_le _) hchecks
  exact {
    commits_pos := hcommits.ge
    commits_le := by omega
    length_eq := by simp [horacles, Nat.add_comm]
    nodup := by simp [hused]
    nonzero := by simpa [hused] using hne.symm
    unused := fun o ho => by
      rw [hcommits, horacles, List.drop_one, List.tail_cons] at ho
      exact List.eq_of_mem_replicate ho
    chosen := by
      intro j o hj
      obtain ⟨rfl, rfl⟩ : j = 0 ∧ oracle = o := by
        rw [hused, List.getElem?_singleton] at hj
        split at hj
        · exact ⟨‹_›, Option.some.inj hj⟩
        · simp at hj
      rw [hqueue]
      exact ⟨w, l, w', .last hrun hstep, hchosen w' ⟨r, hr, by simpa using hused⟩⟩
    created := ⟨w, l, w', .last hrun hstep, hevents, by rw [hcommits, hdeadline, Nat.one_mul]⟩ }

/-- A request is committed afresh, when its deadline has passed. -/
theorem recommitted {l : Label} {queue oracle : Pubkey} {proofs : List Pubkey}
    (h : Attempts D w₀ ls w r) (hrun : Run (Step D) w₀ ls w) (hstep : Step D w l w')
    (hqueue : w'.vault.sbQueue = w.vault.sbQueue)
    (hr : w'.requests (D.requestAddress r.seq) = some (r.recommitted w.slot oracle))
    (hoverdue : r.deadlineSlot < w.slot) (hcommits : r.commits ≤ maxRecommits)
    (hchecks : oracleChecks D w.accounts w.vault.sbQueue queue oracle r.seq r.usedOracles proofs
      w.unixTimestamp = .ok ()) :
    Attempts D w₀ (ls ++ [l]) w' (r.recommitted w.slot oracle) := by
  have hlen := h.length_eq
  have hused := Request.usedOracles_recommitted (r := r) (by omega) w.slot oracle
  obtain ⟨hne, hnew, hchosen⟩ := oracle_of_oracleChecks h.usedOracles_le hchecks
  have hkept := h.kept hstep hqueue
  exact {
    commits_pos := by simp
    commits_le := by rw [Request.recommitted_commits]; omega
    length_eq := by simpa using hlen
    nodup := by
      rw [hused]
      exact h.nodup.append (List.nodup_singleton _) (by simpa using hnew)
    nonzero := by
      rw [hused, List.mem_append, List.mem_singleton, not_or]
      exact ⟨h.nonzero, hne.symm⟩
    unused := fun o ho => by
      rw [Request.recommitted_commits, Request.recommitted_oracles,
        List.drop_set_of_lt (Nat.lt_succ_self _)] at ho
      exact h.unused o ((List.drop_sublist_drop_left _ (Nat.le_succ _)).subset ho)
    chosen := by
      intro j o hj
      rw [hused] at hj ⊢
      by_cases hlast : j < r.usedOracles.length
      · rw [List.getElem?_append_left hlast] at hj
        rw [List.take_append_of_le_length hlast.le]
        exact hkept.chosen j o hj
      · -- the commit just made
        obtain ⟨hj', -⟩ := List.getElem?_eq_some_iff.mp hj
        obtain rfl : j = r.usedOracles.length := by simp at hj'; omega
        rw [List.getElem?_concat_length, Option.some.injEq] at hj
        subst hj
        rw [List.take_left]
        exact ⟨w, l, w', .last hrun hstep, by rw [hqueue]; exact hchosen w' ⟨_, hr, hused⟩⟩
    created := by
      obtain ⟨u, l', v, htakes, hevents, hle⟩ := hkept.created
      refine ⟨u, l', v, htakes, hevents, ?_⟩
      rw [Request.recommitted_commits, Request.recommitted_deadlineSlot, Nat.succ_mul]
      omega }

end Attempts

/-- **Every pending request has its commits behind it.** -/
theorem Created.attempts (hcreated : Created D w₀) (hrun : Run (Step D) w₀ ls w)
    (hr : w.requests k = some r) (hv : r.vault = D.vault) : Attempts D w₀ ls w r := by
  refine hrun.history
    (P := fun ls w => ∀ k r, w.requests k = some r → r.vault = D.vault → Attempts D w₀ ls w r)
    ?_ ?_ k r hr hv
  · intro ls t l u hrun hall hstep k r hr hv
    obtain ⟨x, -, hx⟩ := hcreated.consistent.run hrun
    have hqueue : u.vault.sbQueue = t.vault.sbQueue :=
      congrArg Prod.fst (hx.parameters_eq (.single hstep))
    generalize hes : l.events = es
    have hwritten := hx.written hstep hr hv
    rw [hes] at hwritten
    cases hwritten with
    | kept hr' => exact (hall k r hr' hv).kept hstep hqueue
    | requested hk hcommits horacles hdeadline hchecks =>
        subst hk
        exact .requested hrun hstep hqueue hr hes hcommits horacles hdeadline hchecks
    | @recommitted _ s _ _ _ hr' hk hv' hoverdue hcommits hchecks =>
        subst hk
        exact (hall _ s hr' hv').recommitted hrun hstep hqueue hr hoverdue hcommits hchecks
    | @revealed _ s value hr' hv' => exact ((hall _ s hr' hv').kept hstep hqueue).revealed value
  · intro k r hr hv
    obtain ⟨-, -, -, hge, hlt⟩ := hcreated.tracks.tickets.own k r hr (Or.inl hv)
    simp [SequencedPool.State.next, SequencedPool.State.initial] at hlt

/-! ## Re-commits stay in the record -/

/-- The parts of a re-commit that index nothing do not fail as an index would. -/
theorem loadRequest_avoids_panic {c : Chain} {request randomness : Pubkey} :
    Avoids .panic (loadRequest D c request randomness) := by
  simp [loadRequest, avoids_bind_iff]

theorem commitForRequest_avoids_panic {c : Chain} {pinnedQueue randomness queue oracle : Pubkey}
    {seq : ℕ} {used proofs : List Pubkey} (hused : used.length ≤ maxKeySliceLen) :
    Avoids .panic (commitForRequest D c pinnedQueue randomness queue oracle seq used proofs) := by
  have hchecks : Avoids .panic
      (oracleChecks D c.accounts pinnedQueue queue oracle seq used proofs c.unixTimestamp) :=
    oracleChecks_ne_panic hused
  simp [commitForRequest, readRandomness, switchboardCommit, avoids_bind_iff, hchecks]

/-- **A re-commit reads and writes within the oracles of its request**, if what is behind
every request is as it should be. -/
theorem recommit_avoids_panic
    (h : ∀ k r, w.requests k = some r → r.vault = D.vault → Attempts D w₀ ls w r)
    {request randomness queue oracle : Pubkey} {proofs : List Pubkey} :
    Avoids .panic (handleRecommitRandomness D w request randomness queue oracle proofs) := by
  simp only [handleRecommitRandomness, avoids_bind_iff, loadRequest_avoids_panic, true_and,
    loadRequest_eq_ok_iff, require_eq_ok_iff]
  rintro r ⟨hr, rfl, hv, rfl⟩
  have hattempts := h _ r hr hv
  have hlen := hattempts.length_eq
  have hle := hattempts.commits_le
  refine ⟨by simp, fun _ _ => ⟨by simp, fun _ _ => ⟨by simp, fun _ hcommits => ⟨?_, fun _ _ =>
    ⟨by simp, fun _ _ => ⟨by simp [readRandomness], fun _ _ => ⟨by simp, fun _ _ => ⟨by simp,
      fun _ _ => ⟨commitForRequest_avoids_panic hattempts.usedOracles_le, ?_⟩⟩⟩⟩⟩⟩⟩⟩⟩
  · simp only [avoids_require_iff]
    omega
  · rintro ⟨seedSlot, c⟩ -
    have hroom : r.commits < r.oracles.length := by omega
    simp [hroom]

/-! ## Expiries -/

/-- **What is behind request `r`**, which expires next: it was never revealed, its commits
are used up, each was to another oracle, and it is as old as they and the grace period
make it. -/
structure LastResort (D : Deployment) (w₀ : World) (ls : List Label) (w : World) (r : Request) :
    Prop where
  unrevealed : ∀ ls₁ u ls₂ s, ls = ls₁ ++ ls₂ → Run (Step D) w₀ ls₁ u → Run (Step D) u ls₂ w →
    u.requests (D.requestAddress r.seq) = some s → s.revealed = false
  exhausted : r.commits = 1 + maxRecommits
  distinct : r.usedOracles.Nodup ∧ r.usedOracles.length = 1 + maxRecommits
  late : ∃ u l v, Takes (Step D) w₀ ls w u l v ∧ l.events = [.requested r.seq r.handIn] ∧
    u.slot + ((1 + maxRecommits) * revealTimeoutSlots + expireGraceSlots) < w.slot

/-- What an expiry of a step found in the world before the step. -/
theorem Consistent.expired (h : Consistent D w x) {l : Label} (hstep : Step D w l w') {seq : ℕ}
    {handIn : Option ℕ} (hmem : .expired seq handIn ∈ l.events) :
    ∃ r, w.requests (D.requestAddress seq) = some r ∧ r.vault = D.vault ∧ r.seq = seq ∧
      r.handIn = handIn ∧ r.revealed = false ∧ maxRecommits < r.commits ∧
      r.deadlineSlot + expireGraceSlots < w.slot := by
  have hact : .pool (.expired seq handIn) ∈ l.acts := by
    rw [← l.acts_events, List.mem_flatMap] at hmem
    obtain ⟨act, hact, hevent⟩ := hmem
    cases act <;> simp only [Act.events, List.mem_singleton, List.not_mem_nil] at hevent
    rwa [hevent]
  -- the acts before it are expiries too
  have hexpired : ∀ act ∈ l.acts, ∃ seq handIn, act = .pool (.expired seq handIn) := by
    rcases h.acts_of_step hstep with ⟨act, hacts⟩ | hexpired
    · rw [hacts, List.mem_singleton] at hact
      intro act' hact'
      rw [hacts, List.mem_singleton] at hact'
      exact ⟨seq, handIn, hact'.trans hact.symm⟩
    · exact hexpired
  obtain ⟨acts₁, acts₂, u, v, hsplit, hbefore, heff, -⟩ :=
    (h.effects_of_step hstep).split_of_mem hact
  obtain ⟨hslot, hrequests⟩ := requests_of_expiries hbefore fun act hact =>
    hexpired act (by rw [hsplit]; exact List.mem_append_left _ hact)
  generalize hact' : Act.pool (.expired seq handIn) = act at heff
  cases heff with
  | @expired _ r _ _ heff =>
      simp only [Act.pool.injEq, SequencedPool.Event.expired.injEq] at hact'
      obtain ⟨rfl, rfl⟩ := hact'
      exact ⟨r, hrequests _ r heff.request, heff.request_vault, rfl, rfl, heff.unrevealed,
        heff.exhausted, hslot ▸ heff.overdue⟩
  | _ => simp at hact'

/-- A pending request that is not revealed never was. -/
theorem Created.unrevealed (hcreated : Created D w₀) {ls₁ ls₂ : List Label} {u : World}
    {s : Request} (hbefore : Run (Step D) w₀ ls₁ u) (hafter : Run (Step D) u ls₂ w)
    (hr : w.requests (D.requestAddress r.seq) = some r) (hrev : r.revealed = false)
    (hs : u.requests (D.requestAddress r.seq) = some s) : s.revealed = false := by
  obtain ⟨x, -, hx⟩ := hcreated.tracks.run hbefore
  obtain ⟨y, hpool, hy⟩ := hcreated.tracks.run (hbefore.append hafter)
  obtain ⟨hv, -, hkey, -⟩ := hx.tickets.own _ s hs (Or.inr ⟨_, rfl⟩)
  have hseq := requestAddress_inj.mp hkey
  by_contra hrevealed
  rcases hx.revealed_final hs hv (by simpa using hrevealed) hafter with hsame | hdrawn
  · obtain rfl := Option.some.inj (hr.symm.trans hsame)
    simp [hrev] at hrevealed
  · -- a number that was drawn for is behind the head
    obtain ⟨candidates, picked, -, hmem, -⟩ := hdrawn
    have hresolved : s.seq ∈ SequencedPool.resolvedTickets (poolEvents (ls₁ ++ ls₂)) := by
      rw [poolEvents_append]
      refine List.mem_map.mpr ⟨(s.seq, .drawn s.value), List.mem_filterMap.mpr
        ⟨_, List.mem_append_right _ hmem, rfl⟩, rfl⟩
    rw [SequencedPool.resolvedTickets_of_run hpool, List.mem_range'_1] at hresolved
    obtain ⟨-, -, -, hge, -⟩ := hy.tickets.own _ r hr (Or.inr ⟨_, rfl⟩)
    simp only [SequencedPool.State.initial] at hresolved
    omega

/-! ## Two stuck captures

A run of the small vault in which one user has two captures pending and another one behind
them, and no oracle ever reveals. -/

/-- Four oracles, all live. -/
def fourOracles : List Pubkey :=
  [.raw (Bytes32.fill 21), .raw (Bytes32.fill 22), .raw (Bytes32.fill 23), .raw (Bytes32.fill 24)]

/-- A queue of the four. -/
def fourOraclesQueue : Bytes :=
  queueData [Bytes32.fill 21, Bytes32.fill 22, Bytes32.fill 23, Bytes32.fill 24]

/-- It is slot `slot`, and the queue of the small vault lists the four oracles. -/
def waited (w : World) (slot : ℕ) : World :=
  ⟨{ w.toChain with
    slot := slot
    accounts := fun k =>
      if k = smallQueue then ⟨.switchboard, fourOraclesQueue⟩
      else if k ∈ fourOracles then freshOracle
      else w.accounts k }, w.vault⟩

theorem waited_envStep {slot : ℕ} (hslot : w.slot ≤ slot) (hlt : slot < u64Size) :
    EnvStep smallVault 0 w (waited w slot) := by
  refine .of_accounts hslot hlt ?_
  rintro k (⟨i, rfl⟩ | ⟨seq, rfl⟩) <;>
    simp [smallQueue, fourOracles, Deployment.assetAddress, Deployment.mintEscrowAddress]

/-- Perform groups of instructions, each in a slot of its own. -/
def performLater : World → List (ℕ × List Instruction) → Res (World × List Label)
  | w, [] => return (w, [])
  | w, (slot, ixs) :: rest => do
      require (w.slot ≤ slot ∧ slot < u64Size) .panic
      let (w, ls) ← performAll smallVault (waited w slot) ixs
      let (w, ls') ← performLater w rest
      return (w, .environment 0 :: ls ++ ls')

theorem performLater_eq_ok {rounds : List (ℕ × List Instruction)}
    (h : performLater w rounds = .ok (w', ls)) : Run (Step smallVault) w ls w' := by
  induction rounds generalizing w ls with
  | nil =>
      simp only [performLater, pure_eq_ok_iff, Prod.mk.injEq] at h
      obtain ⟨rfl, rfl⟩ := h
      exact .nil w
  | cons round rounds ih =>
      obtain ⟨slot, ixs⟩ := round
      simp only [performLater, bind_eq_ok_iff, require_eq_ok_iff, pure_eq_ok_iff,
        Prod.mk.injEq] at h
      obtain ⟨-, ⟨hslot, hlt⟩, ⟨w₁, ls₁⟩, hround, ⟨w₂, ls₂⟩, hrest, rfl, rfl⟩ := h
      exact .cons (.environment (waited_envStep hslot hlt))
        ((performAll_eq_ok hround).append (ih hrest))

def otherRandomness : Pubkey := .raw (Bytes32.fill 43)

def thirdRandomness : Pubkey := .raw (Bytes32.fill 47)

/-- Commit the three requests afresh. -/
def smallRecommits (oracle₀ oracle₁ oracle₂ : UInt8) : List Instruction := [
  .recommitRandomness (smallVault.requestAddress 0) smallRandomness smallQueue
    (.raw (Bytes32.fill oracle₀)) [],
  .recommitRandomness (smallVault.requestAddress 1) otherRandomness smallQueue
    (.raw (Bytes32.fill oracle₁)) [],
  .recommitRandomness (smallVault.requestAddress 2) thirdRandomness smallQueue
    (.raw (Bytes32.fill oracle₂)) []]

/-- Three captures, four commits of each, and a day. -/
def smallRounds : List (ℕ × List Instruction) := [
  (1_000, [
    .requestCapture smallUser smallUserToken smallRandomness smallQueue (.raw (Bytes32.fill 24)) [],
    .requestCapture smallUser smallUserToken otherRandomness smallQueue (.raw (Bytes32.fill 21))
      [],
    .requestCapture otherUser otherUserToken thirdRandomness smallQueue (.raw (Bytes32.fill 22))
      []]),
  (20_000, smallRecommits 21 22 23),
  (30_000, smallRecommits 22 23 24),
  (40_000, smallRecommits 23 24 21),
  (300_000, [])]

/-- What there is to see of a capture of `user` that is ready to expire to `userToken`. -/
def smallRipe (w : World) (seq : ℕ) (randomness user userToken : Pubkey) : Bool :=
  ((w.requests (smallVault.requestAddress seq)).any fun r =>
    decide (r.kind = .capture) && decide (r.seq = seq) && decide (r.user = user) &&
      decide (r.randomness = randomness) && !r.revealed && decide (r.commits = 4) &&
      decide (r.deadlineSlot + 216_000 < w.slot)) &&
    (w.tokens userToken).any fun t =>
      decide (t.mint = smallVault.mint) && decide (t.owner = user)

/-- The expiry of the first. -/
def smallExpire : Instruction :=
  .expireRequest smallUser (smallVault.requestAddress 0) smallRandomness smallUser smallUserToken
    smallUser

/-- The accounts of a stuck capture; the asset account does not matter. -/
def smallGroup (seq : ℕ) (randomness user userToken : Pubkey) : List Pubkey := [
  smallVault.requestAddress seq, .randLock randomness, randomness, user, userToken,
  smallVault.mintEscrowAddress seq, smallVault.assetAddress seq]

/-- The second capture of the one user and the capture of the other. -/
def smallPair : List Pubkey :=
  smallGroup 1 otherRandomness smallUser smallUserToken
    ++ smallGroup 2 thirdRandomness otherUser otherUserToken

set_option maxRecDepth 20000 in
theorem smallRounds_return :
    returns (smallRun smallRoot (smallOpening
        ++ [.initRandomness otherRandomness, .initRandomness thirdRandomness])) (fun r₀ =>
      returns (performLater r₀.1 smallRounds) fun r₁ =>
        decide (r₁.1.vault.nextSettleSeq = 0) &&
          smallRipe r₁.1 0 smallRandomness smallUser smallUserToken &&
          smallRipe r₁.1 1 otherRandomness smallUser smallUserToken &&
          returns (perform smallVault r₁.1 smallExpire) fun r₂ =>
            decide (r₂.2 = [.expired 0 none]) && decide (r₂.1.vault.nextSettleSeq = 1) &&
              smallRipe r₂.1 1 otherRandomness smallUser smallUserToken &&
              smallRipe r₂.1 2 thirdRandomness otherUser otherUserToken &&
              returns (perform smallVault r₂.1 (.expireRequests smallUser smallPair 2)) fun r₃ =>
                decide (r₃.2 = [.expired 1 none, .expired 2 none]))
      = true := by
  decide +kernel

/-- The worlds of `smallRounds_return`. -/
theorem exists_smallRipe :
    ∃ ls w w', History smallVault ls w ∧ w.vault.nextSettleSeq = 0 ∧
      smallRipe w 0 smallRandomness smallUser smallUserToken = true ∧
      smallRipe w 1 otherRandomness smallUser smallUserToken = true ∧
      perform smallVault w smallExpire = .ok (w', [.expired 0 none]) ∧
      w'.vault.nextSettleSeq = 1 ∧
      smallRipe w' 1 otherRandomness smallUser smallUserToken = true ∧
      smallRipe w' 2 thirdRandomness otherUser otherUserToken = true ∧
      ∃ w'', perform smallVault w' (.expireRequests smallUser smallPair 2)
        = .ok (w'', [.expired 1 none, .expired 2 none]) := by
  obtain ⟨⟨w₀, ls₀⟩, hopening, h⟩ := exists_of_returns smallRounds_return
  obtain ⟨⟨w, ls⟩, hrounds, h⟩ := exists_of_returns h
  simp only [Bool.and_eq_true, decide_eq_true_eq] at h
  obtain ⟨⟨⟨hhead, hripe₀⟩, hripe₁⟩, hexpire⟩ := h
  obtain ⟨⟨w', es⟩, hexpire, hes⟩ := exists_of_returns hexpire
  simp only [Bool.and_eq_true, decide_eq_true_eq] at hes
  obtain ⟨⟨⟨⟨rfl, hhead'⟩, hripe₁'⟩, hripe₂'⟩, hboth⟩ := hes
  obtain ⟨⟨w'', es⟩, hboth, hes⟩ := exists_of_returns hboth
  simp only [decide_eq_true_eq] at hes
  subst hes
  exact ⟨_, w, w', (smallRun_history hopening).run (performLater_eq_ok hrounds), hhead, hripe₀,
    hripe₁, hexpire, hhead', hripe₁', hripe₂', w'', hboth⟩

/-- **Expiry is a last resort.**  On every run from the creation of a vault, every pending
request has one to four commits behind it, to oracles that differ and exist and were each
chosen from the pinned queue, and its other oracle slots are unused, so that no re-commit
indexes out of them.  Every request that expires next was never revealed, had all four
commits, and was created more slots ago than four timeouts and the grace period. -/
theorem expire_is_last_resort (hcreated : Created D w₀) (hrun : Run (Step D) w₀ ls w) :
    (∀ k r, w.requests k = some r → r.vault = D.vault → Attempts D w₀ ls w r) ∧
    (∀ request randomness queue oracle proofs,
      handleRecommitRandomness D w request randomness queue oracle proofs ≠ .error .panic) ∧
    ∀ l w', Step D w l w' → ∀ seq handIn, .expired seq handIn ∈ l.events →
      ∃ r, w.requests (D.requestAddress seq) = some r ∧ r.seq = seq ∧ r.handIn = handIn ∧
        LastResort D w₀ ls w r := by
  have hall := fun k r hr hv => hcreated.attempts hrun (k := k) (r := r) hr hv
  refine ⟨hall, fun _ _ _ _ _ => recommit_avoids_panic hall, ?_⟩
  intro l w' hstep seq handIn hmem
  obtain ⟨x, -, hx⟩ := hcreated.consistent.run hrun
  obtain ⟨r, hr, hv, rfl, hitem, hrev, hexhausted, hoverdue⟩ := hx.expired hstep hmem
  have hattempts := hall _ r hr hv
  have hcommits : r.commits = 1 + maxRecommits := by
    have hle := hattempts.commits_le
    omega
  refine ⟨r, hr, rfl, hitem, ?_, hcommits, ⟨hattempts.nodup, ?_⟩, ?_⟩
  · rintro ls₁ u ls₂ s rfl hbefore hafter hs
    exact hcreated.unrevealed hbefore hafter hr hrev hs
  · rw [hattempts.length_usedOracles, hcommits]
  · obtain ⟨u, l', v, htakes, hevents, hle⟩ := hattempts.created
    rw [hcommits] at hle
    exact ⟨u, l', v, htakes, hevents, by omega⟩

/-- The first of the two stuck captures expires. -/
theorem expire_is_last_resort_small :
    ∃ w₀ ls w r, Created smallVault w₀ ∧ Run (Step smallVault) w₀ ls w ∧ r.seq = 0 ∧
      Attempts smallVault w₀ ls w r ∧ LastResort smallVault w₀ ls w r := by
  obtain ⟨ls, w, w', ⟨w₀, hcreated, hrun⟩, -, -, -, hexpire, -⟩ := exists_smallRipe
  obtain ⟨hall, -, hexpired⟩ := expire_is_last_resort hcreated hrun
  obtain ⟨r, hr, hseq, -, hlast⟩ := hexpired _ w' (.instruction hexpire) 0 none
    (List.mem_singleton_self _)
  obtain ⟨x, -, hx⟩ := hcreated.tracks.run hrun
  have hv := (hx.tickets.own _ r hr (Or.inr ⟨0, rfl⟩)).1
  exact ⟨w₀, ls, w, r, hcreated, hrun, hseq, hall _ r hr hv, hlast⟩

end HybridVault
