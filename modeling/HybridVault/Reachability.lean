import HybridVault.Commitment
import HybridVault.OracleChoice
import HybridVault.Refinement

/-!
# Invariants of runs

A created vault tracks the full pool, so every run of a vault is a run of the
sequenced pool with the same events (`History.tracks`, `Tracks.run`), and a run of
effects.

`History.invariant` and `Tracks.run_invariant` are the rules for everything else that
holds along runs: a predicate of the acts so far and of the world, which every effect
preserves, where the world may be assumed to track some state of the pool.
-/

namespace HybridVault

open Foundations

variable {D : Deployment} {w w' : World} {x : SequencedPool.State ℕ} {ls : List Label}

/-- Nothing of a vault exists before it is created. -/
theorem Created.spec (h : Created D w) :
    ∃ c params, Fresh D c ∧ InitEffect D c params w := by
  obtain ⟨c, creator, params, hfresh, hinit⟩ := h
  exact ⟨c, params, hfresh, handleInitVault_eq_ok hfresh.pool hinit⟩

/-- **A created vault is a full pool.** -/
theorem Created.tracks (h : Created D w) :
    Tracks D w (SequencedPool.State.initial (List.range D.size)) := by
  obtain ⟨c, params, hfresh, hinit⟩ := h.spec
  have hv := hinit.vault
  have howns : ∀ i, D.Owns (D.assetAddress i) := fun i => Or.inl ⟨i, rfl⟩
  have habsent : ∀ i, w.assets (D.assetAddress i) = .absent := by
    intro i
    rw [hinit.assets_eq]
    exact (hfresh.dataless _ (howns i)).2
  exact {
    pool := hinit.pool
    nextSeq_lt := by rw [hv]; simp [initialVault, u64Size]
    drawable := hinit.drawable
    incoming := hinit.incoming
    head := by rw [hv]; rfl
    next := by rw [hv]; rfl
    rerolls := by rw [hv]; rfl
    pending := by rw [hv]; rfl
    outside := by rw [hv]; rfl
    tickets := by
      refine ⟨fun k _ hk => absurd hk (by simp [SequencedPool.State.next,
        SequencedPool.State.initial]), ?_⟩
      intro k r hr hours
      rw [hinit.requests_eq] at hr
      rcases hours with hvault | ⟨seq, rfl⟩
      · exact absurd hvault (hfresh.requests k r hr)
      · simp [hfresh.request_addresses seq] at hr
    custody := {
      minted_iff := fun i _ => by simp [hinit.minted, habsent]
      held := fun i _ _ hbit => by simp [hinit.minted] at hbit
      collection := fun i _ a ha => by simp [habsent] at ha
      outside_minted := fun i hi => by simp [SequencedPool.State.initial] at hi
      handIn_minted := fun i hi => by simp [SequencedPool.State.initial, List.reduceOption] at hi
      count := by
        rw [hv]
        refine (List.countP_eq_zero.mpr ?_).symm
        intro i _
        simp [hinit.minted]
      numMinted := ⟨_, hinit.collection, rfl, by rw [hv]; rfl⟩
      accounts := fun k hk => by rw [hinit.accounts_eq]; exact (hfresh.dataless k hk).1
      escrows := fun seq => by
        rw [hinit.assets_eq]
        exact (hfresh.dataless _ (Or.inr ⟨seq, rfl⟩)).2 }
    invariant := SequencedPool.invariant_initial _ }

theorem Label.acts_events (l : Label) : l.acts.flatMap Act.events = l.events := by
  match l with
  | .instruction _ [] => rfl
  | .instruction _ (e :: es) => simp [Label.acts, Label.events, Act.events, List.flatMap_map]
  | .environment _ => rfl

theorem flatMap_events_acts (ls : List Label) :
    (ls.flatMap Label.acts).flatMap Act.events = poolEvents ls := by
  simp [List.flatMap_assoc, Label.acts_events, poolEvents]

theorem Label.acts_donated (l : Label) : (l.acts.map Act.donated).sum = l.donated := by
  match l with
  | .instruction _ [] => rfl
  | .instruction _ (e :: es) =>
      have hzero : Act.donated ∘ Act.pool = fun _ => 0 := rfl
      simp [Label.acts, Label.donated, Act.donated, hzero]
  | .environment _ => simp [Label.acts, Label.donated, Act.donated]

theorem sum_donated_acts (ls : List Label) :
    ((ls.flatMap Label.acts).map Act.donated).sum = donations ls := by
  induction ls with
  | nil => rfl
  | cons l ls ih =>
      simp only [List.flatMap_cons, List.map_append, List.sum_append, ih, l.acts_donated]
      simp [donations]

namespace Tracks

theorem step (h : Tracks D w x) {l : Label} (hstep : Step D w l w') :
    ∃ y, Run (PoolStep D) x l.events y ∧ Tracks D w' y := by
  have hrun := h.toSound.effects_of_step hstep
  rw [← l.acts_events]
  exact hrun.simulate (fun _ _ _ _ htracks heff => htracks.simulate heff) h

/-- **A run of the vault is a run of the sequenced pool.** -/
theorem run (h : Tracks D w x) (hrun : Run (Step D) w ls w') :
    ∃ y, Run (PoolStep D) x (poolEvents ls) y ∧ Tracks D w' y :=
  hrun.simulate (fun _ _ _ _ htracks hstep => htracks.step hstep) h

/-- A run of the vault is a run of effects. -/
theorem effects (h : Tracks D w x) (hrun : Run (Step D) w ls w') :
    Run (Effect D) w (ls.flatMap Label.acts) w' := by
  induction hrun generalizing x with
  | nil w => exact .nil w
  | cons hstep _ ih =>
      obtain ⟨y, -, hy⟩ := h.step hstep
      exact (h.toSound.effects_of_step hstep).append (ih hy)

theorem parameters_eq (h : Tracks D w x) (hrun : Run (Step D) w ls w') :
    w'.vault.parameters = w.vault.parameters :=
  (h.effects hrun).invariant (P := fun v => v.vault.parameters = w.vault.parameters)
    (fun _ _ _ hs heff => heff.parameters_eq.trans hs) rfl

/-- **The invariant rule**, from a world that tracks some state. -/
theorem run_invariant {P : List Act → World → Prop}
    (hP : ∀ acts w x act w', Tracks D w x → P acts w → Effect D w act w' → P (acts ++ [act]) w')
    (h : Tracks D w x) (h0 : P [] w) (hrun : Run (Step D) w ls w') :
    P (ls.flatMap Label.acts) w' := by
  have hrun' := h.effects hrun
  have key := hrun'.history (P := fun acts w => (∃ x, Tracks D w x) ∧ P acts w) ?_ ⟨⟨x, h⟩, h0⟩
  · exact key.2
  · rintro acts t act u - ⟨⟨y, hy⟩, hp⟩ heff
    obtain ⟨z, -, hz⟩ := hy.simulate heff
    exact ⟨⟨z, hz⟩, hP acts t y act u hy hp heff⟩

end Tracks

namespace History

/-- **A reachable vault tracks a reachable state of the sequenced pool.** -/
theorem tracks (h : History D ls w) :
    ∃ x, Run (PoolStep D) (SequencedPool.State.initial (List.range D.size)) (poolEvents ls) x ∧
      Tracks D w x := by
  obtain ⟨w₀, hcreated, hrun⟩ := h
  exact hcreated.tracks.run hrun

/-- **The invariant rule** of reachable vaults. -/
theorem invariant {P : List Act → World → Prop} (h0 : ∀ w, Created D w → P [] w)
    (hP : ∀ acts w x act w', Tracks D w x → P acts w → Effect D w act w' → P (acts ++ [act]) w')
    (h : History D ls w) : P (ls.flatMap Label.acts) w := by
  obtain ⟨w₀, hcreated, hrun⟩ := h
  exact hcreated.tracks.run_invariant hP (h0 w₀ hcreated) hrun

end History

/-! ## A concrete vault

The vault of the small launch, with two users, on a chain where everything is set for
it to open and to commit.  Runs of it evaluate. -/

/-- Perform instructions one after another. -/
def performAll (D : Deployment) : World → List Instruction → Res (World × List Label)
  | w, [] => return (w, [])
  | w, ix :: ixs => do
      let (w, es) ← perform D w ix
      let (w, ls) ← performAll D w ixs
      return (w, .instruction ix es :: ls)

theorem performAll_eq_ok {ixs : List Instruction} (h : performAll D w ixs = .ok (w', ls)) :
    Run (Step D) w ls w' := by
  induction ixs generalizing w ls with
  | nil =>
      simp only [performAll, pure_eq_ok_iff, Prod.mk.injEq] at h
      obtain ⟨rfl, rfl⟩ := h
      exact .nil w
  | cons ix ixs ih =>
      simp only [performAll, bind_eq_ok_iff, pure_eq_ok_iff, Prod.mk.injEq] at h
      obtain ⟨⟨w₁, es⟩, hstep, ⟨w₂, ls'⟩, hrest, rfl, rfl⟩ := h
      exact .cons (.instruction hstep) (ih hrest)

def smallUser : Pubkey := .raw (Bytes32.fill 40)

def smallUserToken : Pubkey := .raw (Bytes32.fill 41)

def smallRandomness : Pubkey := .raw (Bytes32.fill 42)

def otherUser : Pubkey := .raw (Bytes32.fill 45)

def otherUserToken : Pubkey := .raw (Bytes32.fill 46)

def smallQueue : Pubkey := .raw (Bytes32.fill 20)

/-- The account of a DBC pool that has migrated. -/
def graduatedPool : Bytes :=
  dbcPoolDiscriminator ++ List.replicate 64 0 ++ smallLaunch.dbcConfig.bytes ++ List.replicate 32 0
    ++ smallLaunch.mint.bytes ++ List.replicate 137 0 ++ [1, 0, 0, 3] ++ List.replicate 115 0

/-- The chain before the vault is created; its queue lists two oracles, one of which
has stopped. -/
def smallChain : Chain where
  slot := 1_000
  unixTimestamp := 1_000_000
  pool := List.replicate (poolAccountSize smallVault.size) 0
  requests := fun _ => none
  randLocks := fun _ => none
  randomness := fun _ => none
  assets := fun _ => .absent
  collection := none
  tokens := fun k =>
    if k = smallUserToken then
      some { mint := smallVault.mint, owner := smallUser, amount := 1_000_000_000_000 }
    else if k = otherUserToken then
      some { mint := smallVault.mint, owner := otherUser, amount := 1_000_000_000_000 }
    else none
  accounts := fun k => if k = .raw smallLaunch.dbcPool then
    { owner := .dbc, data := graduatedPool } else twoOracles stoppedOracle k
  lamports := fun k =>
    if k = smallUser ∨ k = otherUser ∨ k = .raw smallLaunch.creator then 10_000_000_000 else 0

def smallParams (traitRoot : Bytes32) : InitVaultParams where
  traitRoot := traitRoot
  traitSchemaHash := Bytes32.fill 50
  collectionName := [97]
  collectionUri := [97, 114, 58, 47, 47, 99]
  sbQueue := smallQueue

/-- Create the vault, and perform instructions. -/
def smallRun (traitRoot : Bytes32) (ixs : List Instruction) : Res (World × List Label) := do
  let w ← handleInitVault smallVault smallChain (.raw smallLaunch.creator) (smallParams traitRoot)
  performAll smallVault w ixs

theorem smallChain_fresh : Fresh smallVault smallChain where
  slot_lt := by decide
  pool := rfl
  requests := fun k r h => by simp [smallChain] at h
  request_addresses := fun _ => rfl
  randLocks := fun k l h => by simp [smallChain] at h
  randomness := fun k s h => by simp [smallChain] at h
  dataless := by
    rintro k (⟨i, rfl⟩ | ⟨seq, rfl⟩) <;>
      simp [Chain.Dataless, smallChain, twoOracles, Deployment.assetAddress,
        Deployment.mintEscrowAddress]

theorem smallRun_history {traitRoot : Bytes32} {ixs : List Instruction}
    (h : smallRun traitRoot ixs = .ok (w, ls)) : History smallVault ls w := by
  simp only [smallRun, bind_eq_ok_iff] at h
  obtain ⟨w₀, hinit, hrun⟩ := h
  exact ⟨w₀, ⟨smallChain, _, _, smallChain_fresh, hinit⟩, performAll_eq_ok hrun⟩

/-- The small vault commits to the root it is created with. -/
theorem smallRun_parameters {traitRoot : Bytes32} {ixs : List Instruction}
    (h : smallRun traitRoot ixs = .ok (w, ls)) :
    w.vault.parameters = (smallQueue, traitRoot, Bytes32.fill 50) := by
  simp only [smallRun, bind_eq_ok_iff] at h
  obtain ⟨w₀, hinit, hrun⟩ := h
  have hcreated : Created smallVault w₀ := ⟨smallChain, _, _, smallChain_fresh, hinit⟩
  have hvault := (handleInitVault_eq_ok smallChain_fresh.pool hinit).vault
  rw [hcreated.tracks.parameters_eq (performAll_eq_ok hrun), hvault]
  rfl

/-- Open the vault, and create a randomness account. -/
def smallOpening : List Instruction := [
  .openVault smallUser (.raw smallLaunch.dbcPool),
  .initRandomness smallRandomness]

/-- A capture, committed to the live oracle. -/
def smallCapture : Instruction :=
  .requestCapture smallUser smallUserToken smallRandomness smallQueue (.raw (Bytes32.fill 22))
    [.raw (Bytes32.fill 21)]

def smallValue : Bytes32 := Bytes32.fill 9

def smallReveal : Instruction :=
  .revealRandomness (smallVault.requestAddress 0) smallRandomness smallValue

/-- The revealed value picks index 26. -/
def smallSettle : Instruction :=
  .settleCapture smallUser (smallVault.requestAddress 0) smallRandomness
    (smallVault.assetAddress 26) smallUser (some { leaf := smallLeaf, proof := smallProof })

/-- What there is to see while the capture is pending. -/
def smallPending (w : World) : Bool :=
  (w.vault.isOpen && decide (w.vault.nextSettleSeq = 0) && decide (w.vault.nextSeq = 1) &&
    decide (w.vault.pendingCaptures = 1) && decide (w.vault.totalRecommits = 0) &&
    decide (w.vault.sbQueue = smallQueue)) &&
  (decide (w.slot ≤ 1_000_000) && decide (w.unixTimestamp = 1_000_000) &&
    decide (w.accounts smallQueue = ⟨.switchboard, twoOraclesQueue⟩)) &&
  (w.requests (smallVault.requestAddress 0)).any fun r =>
    decide (r.seq = 0) && !r.revealed && decide (r.commits = 1) && decide (r.user = smallUser) &&
      decide (r.usedOracles = [.raw (Bytes32.fill 22)]) &&
      decide (r.deadlineSlot + 216_000 < 1_000_000)

/-- What there is to see once it is revealed. -/
def smallRevealed (w : World) : Bool :=
  decide (w.assets (smallVault.assetAddress 26) = .absent) &&
  (w.requests (smallVault.requestAddress 0)).any fun r =>
    decide (r.vault = smallVault.vault) && decide (r.seq = 0) && r.revealed &&
      decide (r.value = smallValue)

/-- The user's token account. -/
def smallHolder (w : World) : Bool :=
  (w.tokens smallUserToken).any fun t =>
    decide (t.mint = smallVault.mint) && decide (t.owner = smallUser)

/-- What there is to see once it is settled. -/
def smallSettled (w : World) : Bool :=
  decide (w.requests (smallVault.requestAddress 0) = none) &&
  decide (w.vault.mintedCount = 1) &&
  match w.assets (smallVault.assetAddress 26) with
  | .live a => decide (a.owner = smallUser)
  | _ => false

set_option maxRecDepth 20000 in
/-- A capture is requested, revealed, and settled. -/
theorem smallStory_returns :
    returns (smallRun smallRoot smallOpening) (fun r₀ =>
      returns (perform smallVault r₀.1 smallCapture) fun r₁ =>
        decide (r₁.2 = [.requested 0 none]) && smallPending r₁.1 && smallHolder r₁.1 &&
        returns (perform smallVault r₁.1 smallReveal) fun r₂ =>
          smallRevealed r₂.1 &&
          returns (perform smallVault r₂.1 smallSettle) fun r₃ =>
            decide (r₃.2 = [.settled 0 smallValue (List.range 100) 26]) && smallSettled r₃.1 &&
              smallHolder r₃.1)
      = true := by
  decide +kernel

/-- The worlds of `smallStory_returns`. -/
theorem exists_smallStory :
    ∃ ls₀ w₀ w₁ w₂ w₃, History smallVault ls₀ w₀ ∧
      perform smallVault w₀ smallCapture = .ok (w₁, [.requested 0 none]) ∧
      smallPending w₁ = true ∧ smallHolder w₁ = true ∧
      (∃ es, perform smallVault w₁ smallReveal = .ok (w₂, es)) ∧ smallRevealed w₂ = true ∧
      perform smallVault w₂ smallSettle = .ok (w₃, [.settled 0 smallValue (List.range 100) 26]) ∧
      smallSettled w₃ = true ∧ smallHolder w₃ = true := by
  obtain ⟨⟨w₀, ls₀⟩, hopening, h⟩ := exists_of_returns smallStory_returns
  obtain ⟨⟨w₁, es₁⟩, hcapture, h⟩ := exists_of_returns h
  simp only [Bool.and_eq_true, decide_eq_true_eq] at h
  obtain ⟨⟨⟨rfl, hpending⟩, hholder⟩, h⟩ := h
  obtain ⟨⟨w₂, es₂⟩, hreveal, h⟩ := exists_of_returns h
  simp only [Bool.and_eq_true] at h
  obtain ⟨hrevealed, hsettle⟩ := h
  obtain ⟨⟨w₃, es₃⟩, hsettle, h⟩ := exists_of_returns hsettle
  simp only [Bool.and_eq_true, decide_eq_true_eq] at h
  obtain ⟨⟨rfl, hsettled⟩, hholder'⟩ := h
  exact ⟨ls₀, w₀, w₁, w₂, w₃, smallRun_history hopening, hcapture, hpending, hholder,
    ⟨es₂, hreveal⟩, hrevealed, hsettle, hsettled, hholder'⟩

/-- The capture while it is pending. -/
theorem exists_smallPending :
    ∃ ls w, History smallVault ls w ∧ smallPending w = true ∧ smallHolder w = true := by
  obtain ⟨ls₀, w₀, w₁, -, -, h, hcapture, hpending, hholder, -⟩ := exists_smallStory
  exact ⟨_, w₁, h.snoc (.instruction hcapture), hpending, hholder⟩

theorem smallPending_pendingCaptures (h : smallPending w = true) : w.vault.pendingCaptures = 1 := by
  simp only [smallPending, Bool.and_eq_true, decide_eq_true_eq] at h
  exact h.1.1.1.1.2

/-- The capture once it is settled. -/
theorem exists_smallSettled :
    ∃ ls w, History smallVault ls w ∧ smallSettled w = true ∧ smallHolder w = true ∧
      ∃ es, poolEvents ls = es ++ [.settled 0 smallValue (List.range 100) 26] := by
  obtain ⟨ls₀, w₀, w₁, w₂, w₃, h, hcapture, -, -, ⟨es, hreveal⟩, -, hsettle, hsettled, hholder⟩ :=
    exists_smallStory
  refine ⟨_, w₃, ((h.snoc (.instruction hcapture)).snoc (.instruction hreveal)).snoc
    (.instruction hsettle), hsettled, hholder, ?_⟩
  exact ⟨_, poolEvents_append _ _⟩

end HybridVault
