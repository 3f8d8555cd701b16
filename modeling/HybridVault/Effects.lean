import HybridVault.Run

/-!
# What a step does

Every step of a run is one or more of a few effects on the world (`Effect`): a
request, a draw, an expiry, a release, a merge, one of the quiet changes — opening,
and the randomness lifecycle — or a move of the environment.  A batch of expiries is
several effects; every other instruction is one.

An effect says all that its handler checked and did.  Invariants of runs are proved
effect by effect, and no later proof unfolds a handler.
-/

namespace HybridVault

open Foundations

/-- What an effect lets an observer see. -/
inductive Act
  | pool (e : PoolEvent)
  | quiet
  | donation (amount : ℕ)

def Act.events : Act → List PoolEvent
  | .pool e => [e]
  | _ => []

def Act.donated : Act → ℕ
  | .donation amount => amount
  | _ => 0

/-- What the effects of a step let an observer see. -/
def Label.acts : Label → List Act
  | .instruction _ [] => [.quiet]
  | .instruction _ (e :: es) => (e :: es).map .pool
  | .environment donated => [.donation donated]

/-- A merge of `k` waiting entries, which the head may draw. -/
structure MergeEffect (D : Deployment) (w w' : World) (k : ℕ) (d : Bytes) : Prop where
  count_le : k
    ≤ ((incomingOf D.size w.pool).takeWhile fun e => e.2 ≤ w.vault.nextSettleSeq).length
  merge : ∃ max, PoolView.merge ⟨w.pool, D.size⟩ w.vault.nextSettleSeq max = .ok (k, ⟨d, D.size⟩)
  pool : WellFormed D.vaultKey D.size d
  poolAbs : poolAbs D.size d = { HybridVault.poolAbs D.size w.pool with
    drawable := drawableOf w.pool ++ ((incomingOf D.size w.pool).take k).map Prod.fst
    incoming := (incomingOf D.size w.pool).drop k }
  vault : w'.vault = w.vault
  toChain : w'.toChain = w.toChain.setPool d

/-- The effects a world can undergo. -/
inductive Effect (D : Deployment) (w : World) : Act → World → Prop
  | requested {w' : World} {r : Request} {oracle : Pubkey} {snap : RandomnessSnapshot} {sol : ℕ}
      (h : RequestEffect D w w' r oracle snap sol) :
      Effect D w (.pool (.requested w.vault.nextSeq r.handIn)) w'
  | settled {w' : World} {r : Request} {mint : Option MintArgs} {candidates : List ℕ} {picked : ℕ}
      {d : Bytes} {c : Chain} {v : Vault} (h : SettleEffect D w w' r mint candidates picked d c v) :
      Effect D w (.pool (.settled r.seq r.value candidates picked)) w'
  | expired {w' : World} {r : Request} {userToken : Pubkey} {c : Chain}
      (h : ExpireEffect D w w' r userToken c) : Effect D w (.pool (.expired r.seq r.handIn)) w'
  | released {w' : World} {user userToken : Pubkey} {index : ℕ} {s t : TokenAccount} {a : BaseAsset}
      {d : Bytes} (h : UnwrapEffect D w w' user userToken index s t a d) :
      Effect D w (.pool (.returned index)) w'
  | merged {w' : World} {k : ℕ} {d : Bytes} (h : MergeEffect D w w' k d) :
      Effect D w (.pool (.merged k)) w'
  | opened (h : w.vault.isOpen = false) :
      Effect D w .quiet ⟨w.toChain, { w.vault with isOpen := true, openedAtSlot := w.slot }⟩
  | randomnessCreated {randomness : Pubkey} (h : w.randomness randomness = none) :
      Effect D w .quiet ⟨w.toChain.setRandomness (Function.update w.randomness randomness (some {
        authority := D.randomnessAuthority, queue := w.vault.sbQueue, seedSlot := 0
        revealSlot := 0, value := Bytes32.zero })), w.vault⟩
  | revealed {w' : World} {r : Request} {snap : RandomnessSnapshot} {value : Bytes32}
      (h : RevealEffect D w w' r snap value) : Effect D w .quiet w'
  | recommitted {w' : World} {r : Request} {snap : RandomnessSnapshot} {queue oracle : Pubkey}
      {proofs : List Pubkey} (h : RecommitEffect D w w' r snap queue oracle proofs) :
      Effect D w .quiet w'
  | environment {w' : World} {donated : ℕ} (h : EnvStep D donated w w') :
      Effect D w (.donation donated) w'

/-- What the handlers rely on to do what their effects say. -/
structure Sound (D : Deployment) (w : World) : Prop where
  pool : WellFormed D.vaultKey D.size w.pool
  nextSeq_lt : w.vault.nextSeq < u64Size

variable {D : Deployment} {w w' : World}

/-! ## Every step is effects -/

/-- The effects of one instruction. -/
theorem Sound.effects_of_perform (hs : Sound D w) {ix : Instruction} {es : List PoolEvent}
    (h : perform D w ix = .ok (w', es)) :
    Run (Effect D) w (Label.instruction ix es).acts w' := by
  cases ix with
  | initRandomness randomness =>
      obtain ⟨-, hnew, hres⟩ := handleInitRandomness_eq_ok_iff.mp h
      obtain ⟨rfl, rfl⟩ := Prod.mk.inj hres
      exact .single (.randomnessCreated hnew)
  | openVault caller graduationProof =>
      obtain ⟨hclosed, hres⟩ := handleOpenVault_eq_ok h
      obtain ⟨rfl, rfl⟩ := Prod.mk.inj hres
      exact .single (.opened hclosed)
  | requestCapture user userToken randomness queue oracle staleProofs =>
      obtain ⟨rfl, r, snap, sol, hk, heff⟩ := handleRequestCapture_eq_ok hs.pool h
      have hitem : r.handIn = none := by simp [Request.handIn, hk]
      exact .single (by simpa [hitem] using Effect.requested heff)
  | requestReroll user randomness queue oracle index staleProofs =>
      obtain ⟨rfl, r, snap, sol, hk, hi, heff⟩ := handleRequestReroll_eq_ok hs.pool h
      have hitem : r.handIn = some index := by simp [Request.handIn, hk, hi]
      exact .single (by simpa [hitem] using Effect.requested heff)
  | revealRandomness request randomness value =>
      obtain ⟨rfl, r, snap, -, -, heff⟩ := handleRevealRandomness_eq_ok_iff.mp h
      exact .single (.revealed heff)
  | recommitRandomness request randomness queue oracle staleProofs =>
      obtain ⟨rfl, r, snap, -, -, heff⟩ := handleRecommitRandomness_eq_ok_iff.mp h
      exact .single (.recommitted heff)
  | settleCapture settler request randomness asset user mint =>
      obtain ⟨r, candidates, picked, d, c, v, rfl, -, -, heff⟩ := handleSettle_eq_ok hs.pool h
      exact .single (.settled heff)
  | settleReroll settler request randomness asset user mint =>
      obtain ⟨r, candidates, picked, d, c, v, rfl, -, -, heff⟩ := handleSettle_eq_ok hs.pool h
      exact .single (.settled heff)
  | unwrap user userToken index =>
      obtain ⟨rfl, s, t, a, d, heff⟩ := (handleUnwrap_eq_ok_iff hs.pool hs.nextSeq_lt).mp h
      exact .single (.released heff)
  | expireRequest caller request randomness user userToken asset =>
      obtain ⟨r, c, heff, rfl, -⟩ := handleExpire_eq_ok hs.pool h
      exact .single (.expired heff)
  | expireRequests caller remaining count =>
      obtain ⟨hrun, hne, -⟩ := handleExpireBatch_eq_ok hs.pool h
      obtain ⟨e, es, rfl⟩ := List.exists_cons_of_ne_nil hne
      have hexpire : ∀ s e t x, s = x → ExpireStep D s e t →
          ∃ y, Run (Effect D) x [Act.pool e] y ∧ t = y := by
        rintro s e t x rfl ⟨r, userToken, c, heff, rfl⟩
        exact ⟨t, .single (.expired heff), rfl⟩
      obtain ⟨_, hrun', rfl⟩ := hrun.simulate hexpire rfl
      rwa [← List.map_eq_flatMap] at hrun'
  | mergeIncoming max =>
      obtain ⟨k, d, hmerge, hk, hview, hwf', habs⟩ := hs.pool.handleMergeIncoming_eq (w := w) max
      obtain ⟨rfl, rfl⟩ := Prod.mk.inj (Except.ok.inj (h.symm.trans hmerge))
      exact .single (.merged ⟨by omega, ⟨_, hview⟩, hwf', habs, rfl, rfl⟩)

/-- An instruction shows at most one event, unless it is a batch of expiries. -/
theorem Sound.events_of_perform (hs : Sound D w) {ix : Instruction} {es : List PoolEvent}
    (h : perform D w ix = .ok (w', es)) :
    es.length ≤ 1 ∨ ∀ e ∈ es, ∃ seq handIn, e = .expired seq handIn := by
  cases ix with
  | initRandomness randomness =>
      obtain ⟨-, -, hres⟩ := handleInitRandomness_eq_ok_iff.mp h
      exact Or.inl (by simp [← (Prod.mk.inj hres).2])
  | openVault caller graduationProof =>
      obtain ⟨-, hres⟩ := handleOpenVault_eq_ok h
      exact Or.inl (by simp [(Prod.mk.inj hres).2])
  | requestCapture user userToken randomness queue oracle staleProofs =>
      obtain ⟨rfl, -⟩ := handleRequestCapture_eq_ok hs.pool h
      exact Or.inl le_rfl
  | requestReroll user randomness queue oracle index staleProofs =>
      obtain ⟨rfl, -⟩ := handleRequestReroll_eq_ok hs.pool h
      exact Or.inl le_rfl
  | revealRandomness request randomness value =>
      obtain ⟨rfl, -⟩ := handleRevealRandomness_eq_ok_iff.mp h
      exact Or.inl (Nat.zero_le 1)
  | recommitRandomness request randomness queue oracle staleProofs =>
      obtain ⟨rfl, -⟩ := handleRecommitRandomness_eq_ok_iff.mp h
      exact Or.inl (Nat.zero_le 1)
  | settleCapture settler request randomness asset user mint =>
      obtain ⟨r, candidates, picked, d, c, v, rfl, -⟩ := handleSettle_eq_ok hs.pool h
      exact Or.inl le_rfl
  | settleReroll settler request randomness asset user mint =>
      obtain ⟨r, candidates, picked, d, c, v, rfl, -⟩ := handleSettle_eq_ok hs.pool h
      exact Or.inl le_rfl
  | unwrap user userToken index =>
      obtain ⟨rfl, -⟩ := (handleUnwrap_eq_ok_iff hs.pool hs.nextSeq_lt).mp h
      exact Or.inl le_rfl
  | expireRequest caller request randomness user userToken asset =>
      obtain ⟨r, c, -, rfl, -⟩ := handleExpire_eq_ok hs.pool h
      exact Or.inl le_rfl
  | expireRequests caller remaining count =>
      obtain ⟨hrun, -⟩ := handleExpireBatch_eq_ok hs.pool h
      refine Or.inr ?_
      intro e he
      obtain ⟨_, _, _, _, -, -, ⟨r, _, _, -, rfl⟩, -⟩ := hrun.split_of_mem he
      exact ⟨_, _, rfl⟩
  | mergeIncoming max =>
      obtain ⟨k, d, hmerge, -⟩ := hs.pool.handleMergeIncoming_eq (w := w) max
      obtain ⟨-, rfl⟩ := Prod.mk.inj (Except.ok.inj (h.symm.trans hmerge))
      exact Or.inl le_rfl

/-- **A step is one effect, or a batch of expiries.** -/
theorem Sound.acts_of_step (hs : Sound D w) {l : Label} (h : Step D w l w') :
    (∃ act, l.acts = [act]) ∨
      ∀ act ∈ l.acts, ∃ seq handIn, act = .pool (.expired seq handIn) := by
  cases h with
  | @instruction _ ix es h =>
      match es, hs.events_of_perform h with
      | [], _ => exact Or.inl ⟨.quiet, rfl⟩
      | [e], _ => exact Or.inl ⟨.pool e, rfl⟩
      | e :: e' :: es, Or.inl hlen => simp at hlen
      | e :: e' :: es, Or.inr hexpired =>
          refine Or.inr ?_
          intro act hact
          obtain ⟨f, hf, rfl⟩ := List.mem_map.mp hact
          obtain ⟨seq, handIn, rfl⟩ := hexpired f hf
          exact ⟨seq, handIn, rfl⟩
  | environment h => exact Or.inl ⟨_, rfl⟩

/-- **A step is a run of effects.** -/
theorem Sound.effects_of_step (hs : Sound D w) {l : Label} (h : Step D w l w') :
    Run (Effect D) w l.acts w' := by
  cases h with
  | instruction h => exact hs.effects_of_perform h
  | environment h => exact .single (.environment h)

/-! ## The vault record only grows -/

/-- The pool of a vault stays one, and its sequence numbers stay in range. -/
theorem Effect.sound {act : Act} (h : Effect D w act w') (hs : Sound D w) : Sound D w' := by
  cases h with
  | @requested _ r _ _ _ h =>
      refine ⟨by rw [h.pool_eq]; exact hs.pool, ?_⟩
      rw [h.vault]
      have := h.nextSeq_lt
      cases r.kind <;> simpa [Vault.requested] using this
  | @settled _ r _ _ _ _ _ _ h =>
      obtain ⟨pos, hdraw⟩ := h.drawn hs.pool
      refine ⟨hdraw.pool, ?_⟩
      rw [h.vault_eq]
      cases r.kind <;> exact hs.nextSeq_lt
  | @expired _ r _ _ h =>
      refine ⟨by rw [h.pool_eq]; exact hs.pool, ?_⟩
      rw [h.vault]
      cases r.kind <;> exact hs.nextSeq_lt
  | released h =>
      obtain ⟨d, hd, hwf', -⟩ := hs.pool.incomingPush_eq_ok h.index_lt hs.nextSeq_lt h.push
      obtain ⟨rfl, -⟩ := PoolView.mk.inj hd
      refine ⟨by rw [h.toChain]; exact hwf', ?_⟩
      rw [h.vault]
      exact hs.nextSeq_lt
  | merged h => exact ⟨by rw [h.toChain]; exact h.pool, by rw [h.vault]; exact hs.nextSeq_lt⟩
  | opened => exact ⟨hs.pool, hs.nextSeq_lt⟩
  | randomnessCreated => exact ⟨hs.pool, hs.nextSeq_lt⟩
  | revealed h => exact ⟨by rw [h.toChain]; exact hs.pool, by rw [h.vault]; exact hs.nextSeq_lt⟩
  | recommitted h => exact ⟨by rw [h.toChain]; exact hs.pool, by rw [h.vault]; exact hs.nextSeq_lt⟩
  | environment h => exact ⟨by rw [h.pool]; exact hs.pool, by rw [h.vault]; exact hs.nextSeq_lt⟩

/-- What `init_vault` writes for good: the queue, the trait root and the schema hash. -/
def Vault.parameters (v : Vault) : Pubkey × Bytes32 × Bytes32 :=
  (v.sbQueue, v.traitRoot, v.traitSchemaHash)

theorem Effect.parameters_eq {act : Act} (h : Effect D w act w') :
    w'.vault.parameters = w.vault.parameters := by
  cases h with
  | @requested _ r _ _ _ h => rw [h.vault]; cases r.kind <;> rfl
  | @settled _ r _ _ _ _ _ _ h => rw [h.vault_eq]; cases r.kind <;> rfl
  | @expired _ r _ _ h => rw [h.vault]; cases r.kind <;> rfl
  | released h => rw [h.vault]; rfl
  | merged h => rw [h.vault]
  | opened => rfl
  | randomnessCreated => rfl
  | revealed h => rw [h.vault]
  | recommitted h => rw [h.vault]; rfl
  | environment h => rw [h.vault]

theorem Effect.sbQueue_eq {act : Act} (h : Effect D w act w') :
    w'.vault.sbQueue = w.vault.sbQueue :=
  congrArg Prod.fst h.parameters_eq

end HybridVault
