import HybridVault.Isolation

/-!
# Many vaults on one chain

The program serves any number of vaults, one for each launch configuration.  They share
the chain: requests, locks, randomness accounts, assets, token accounts and wallets lie
in the same maps, and instructions of different vaults interleave.

`System` is that chain with the accounts each vault has to itself, and `SystemStep` what
can happen in it: the creation of a vault, an instruction of a vault, a move of
everything outside the program.

* `vaults_run_apart` — the run of a system, seen from one of its vaults, is a history of
  that vault alone, in which all that the others do is a move of the environment.
  Whatever holds of every history of one vault holds of every vault of a system.
* `randomness_exclusive` — no two pending requests, of whatever vaults, wait for the same
  randomness account.
-/

namespace HybridVault

open Foundations

variable {ι : Type}

/-! ## The system -/

/-- What one vault has to itself: its pool account, its collection, and its record from
its creation on. -/
structure Cell where
  pool : Bytes
  collection : Option BaseCollection
  vault : Option Vault

/-- A chain with several vaults.  The pool and the collection of `shared` are nobody's. -/
structure System (ι : Type) where
  shared : Chain
  cells : ι → Cell

namespace System

/-- The chain as vault `i` has it. -/
def chain (s : System ι) (i : ι) : Chain :=
  (s.shared.setPool (s.cells i).pool).setCollection (s.cells i).collection

/-- The world of vault `i`, with its record. -/
def world (s : System ι) (i : ι) (v : Vault) : World := ⟨s.chain i, v⟩

variable [DecidableEq ι]

/-- The system after vault `i` has left its world as `w`. -/
def write (s : System ι) (i : ι) (w : World) : System ι where
  shared := w.toChain
  cells := Function.update s.cells i
    { pool := w.pool, collection := w.collection, vault := some w.vault }

/-- `init_vault` of vault `i`, whose account must be new. -/
def create (D : ι → Deployment) (s : System ι) (i : ι) (creator : Pubkey)
    (params : InitVaultParams) : Res (System ι) := do
  constraint ((s.cells i).vault = none) .AccountAlreadyInUse
  let w ← handleInitVault (D i) (s.chain i) creator params
  return s.write i w

/-- An instruction of vault `i`, whose account must exist. -/
def perform (D : ι → Deployment) (s : System ι) (i : ι) (ix : Instruction) :
    Res (System ι × List PoolEvent) := do
  let v ← expect (s.cells i).vault (.anchor .AccountNotInitialized)
  let (w, es) ← HybridVault.perform (D i) (s.world i v) ix
  return (s.write i w, es)

end System

/-- A step of a system. -/
inductive SystemLabel (ι : Type)
  | create (i : ι)
  | instruction (i : ι) (ix : Instruction) (events : List PoolEvent)
  | environment (donated : ι → ℕ)

/-- The step as vault `i` sees it. -/
def SystemLabel.seenBy [DecidableEq ι] (i : ι) : SystemLabel ι → Label
  | .create _ => .environment 0
  | .instruction j ix events =>
      if j = i then .instruction ix events else .environment 0
  | .environment donated => .environment (donated i)

/-- What can happen in a system.  What is outside the program keeps to `EnvStep` towards
every vault, whatever that vault's record says. -/
inductive SystemStep [DecidableEq ι] (D : ι → Deployment) :
    System ι → SystemLabel ι → System ι → Prop
  | create {s s' : System ι} {i : ι} {creator : Pubkey} {params : InitVaultParams}
      (h : s.create D i creator params = .ok s') : SystemStep D s (.create i) s'
  | instruction {s s' : System ι} {i : ι} {ix : Instruction} {events : List PoolEvent}
      (h : s.perform D i ix = .ok (s', events)) :
      SystemStep D s (.instruction i ix events) s'
  | environment {s s' : System ι} {donated : ι → ℕ}
      (hvault : ∀ i, (s'.cells i).vault = (s.cells i).vault)
      (h : ∀ i v, EnvStep (D i) (donated i) (s.world i v) (s'.world i v)) :
      SystemStep D s (.environment donated) s'

/-- Before anything of vault `D` is created. -/
structure Untouched (D : Deployment) (c : Chain) : Prop where
  fresh : Fresh D c
  tokens : c.tokens D.vaultTokens = none

/-- A system without vaults. -/
def Blank (D : ι → Deployment) (s : System ι) : Prop :=
  ∀ i, (s.cells i).vault = none ∧ Untouched (D i) (s.chain i)

/-! ## One step, seen from one vault -/

theorem Fresh.environment {D : Deployment} {c c' : Chain} {donated : ℕ} {v v' : Vault}
    (h : Fresh D c) (henv : EnvStep D donated ⟨c, v⟩ ⟨c', v'⟩) : Fresh D c' where
  slot_lt := henv.slot_lt
  pool := henv.pool.trans h.pool
  requests := fun k r hr hv => h.requests k r ((henv.requests k r hv).mp hr) hv
  request_addresses := fun seq => (henv.request_addresses seq).trans (h.request_addresses seq)
  randLocks := fun k l hl hv => h.randLocks k l ((henv.randLocks k l hv).mp hl) hv
  randomness := fun k s hs hauth => h.randomness k s ((henv.randomness k s hauth).mp hs) hauth
  dataless := by
    intro k hk
    obtain ⟨haccount, habsent⟩ := h.dataless k hk
    have hmove := henv.assets k hk
    simp only [habsent] at hmove
    refine ⟨(henv.accounts k hk).trans haccount, ?_⟩
    generalize hc : c'.assets k = state at hmove
    cases hmove
    rfl

theorem Untouched.environment {D : Deployment} {c c' : Chain} {donated : ℕ} {v v' : Vault}
    (h : Untouched D c) (henv : EnvStep D donated ⟨c, v⟩ ⟨c', v'⟩) : Untouched D c' where
  fresh := h.fresh.environment henv
  tokens := by
    have htokens := henv.vaultTokens
    simpa [h.tokens] using htokens

namespace System

variable [DecidableEq ι] (s : System ι) {i j : ι} (w : World)

@[simp] theorem write_chain_self : (s.write i w).chain i = w.toChain := by
  simp [write, chain, Chain.setPool, Chain.setCollection]

@[simp] theorem write_vault_self : ((s.write i w).cells i).vault = some w.vault := by
  simp [write]

theorem write_cells_of_ne (h : j ≠ i) : (s.write i w).cells j = s.cells j :=
  Function.update_of_ne h _ _

theorem write_chain_of_ne (h : j ≠ i) : (s.write i w).chain j
    = (w.toChain.setPool (s.cells j).pool).setCollection (s.cells j).collection := by
  rw [chain, write_cells_of_ne s w h]
  rfl

end System

/-- **What a run of a system says of vault `i`**: it was not created and none of its
accounts exists, or it was created once, and has had a history of its own since. -/
structure Lives [DecidableEq ι] (D : Deployment) (i : ι) (ls : List (SystemLabel ι))
    (s : System ι) : Prop where
  untouched : (s.cells i).vault = none → SystemLabel.create i ∉ ls ∧ Untouched D (s.chain i)
  history : ∀ v, (s.cells i).vault = some v → ∃ pre post, ls = pre ++ .create i :: post ∧
    SystemLabel.create i ∉ pre ++ post ∧ History D (post.map (SystemLabel.seenBy i)) (s.world i v)

namespace Lives

variable [DecidableEq ι] {D : Deployment} {i : ι} {ls : List (SystemLabel ι)} {s s' : System ι}
  {l : SystemLabel ι}

theorem slot_lt (h : Lives D i ls s) : s.shared.slot < u64Size := by
  cases hv : (s.cells i).vault with
  | none => exact (h.untouched hv).2.fresh.slot_lt
  | some v =>
      obtain ⟨_, _, -, -, hhistory⟩ := h.history v hv
      obtain ⟨x, -, hx⟩ := hhistory.consistent
      exact hx.bounded.slot_lt

/-- No signer owns the token account of a vault. -/
theorem vaultTokens_owner (h : Lives D i ls s) {t : TokenAccount}
    (ht : s.shared.tokens D.vaultTokens = some t) : ¬ t.owner.IsSigner := by
  cases hv : (s.cells i).vault with
  | none => exact absurd ht (by
      rw [show s.shared.tokens D.vaultTokens = none from (h.untouched hv).2.tokens]
      simp)
  | some v =>
      obtain ⟨_, _, -, -, hhistory⟩ := h.history v hv
      obtain rfl := Option.some.inj (ht.symm.trans hhistory.treasury)
      exact id

/-- A move of the environment, as vault `i` sees it. -/
theorem environment {donated : ℕ} (h : Lives D i ls s) (hl : l.seenBy i = .environment donated)
    (hne : l ≠ .create i) (hvault : (s'.cells i).vault = (s.cells i).vault)
    (henv : ∀ v, EnvStep D donated (s.world i v) (s'.world i v)) :
    Lives D i (ls ++ [l]) s' where
  untouched := by
    intro hv
    rw [hvault] at hv
    obtain ⟨hls, huntouched⟩ := h.untouched hv
    refine ⟨by simp [hls, Ne.symm hne], ?_⟩
    exact huntouched.environment (henv (initialVault ⟨.zero, .zero, [], [], .default⟩))
  history := by
    intro v hv
    rw [hvault] at hv
    obtain ⟨pre, post, rfl, honce, hhistory⟩ := h.history v hv
    refine ⟨pre, post ++ [l], by simp, ?_, ?_⟩
    · rw [← List.append_assoc]
      simpa [Ne.symm hne] using honce
    · rw [List.map_append]
      exact hhistory.snoc (by simpa [hl] using Step.environment (henv v))

/-- Another vault's doing, as vault `i` sees it. -/
theorem confined {D' : Deployment} {j : ι} {w : World} (h : Lives D i ls s)
    (hl : l.seenBy i = .environment 0) (hne : l ≠ .create i) (hj : i ≠ j)
    (hkeys : D'.vaultKey ≠ D.vaultKey) (hconfined : Confined D' (s.chain j) w.toChain) :
    Lives D i (ls ++ [l]) (s.write j w) := by
  refine h.environment hl hne (by rw [System.write_cells_of_ne s w hj]) ?_
  intro v
  have henv := hconfined.envStep hkeys h.slot_lt (fun t ht => h.vaultTokens_owner ht)
    (s.cells i).pool (s.cells i).collection v
  rw [System.world, System.world, System.write_chain_of_ne s w hj]
  exact henv

/-- **Every step of a system is one of a vault's life.** -/
theorem step {D : ι → Deployment} (hkeys : Function.Injective fun i => (D i).vaultKey)
    (h : ∀ i, Lives (D i) i ls s) (hstep : SystemStep D s l s') (j : ι) :
    Lives (D j) j (ls ++ [l]) s' := by
  cases hstep with
  | @create _ i creator params hcreate =>
      simp only [System.create, bind_eq_ok_iff, require_eq_ok_iff, pure_eq_ok_iff] at hcreate
      obtain ⟨-, hnew, w, hinit, rfl⟩ := hcreate
      obtain ⟨honce, huntouched⟩ := (h i).untouched hnew
      by_cases hj : j = i
      · subst hj
        refine ⟨by simp, ?_⟩
        rintro v hv
        obtain rfl : w.vault = v := by simpa using hv
        refine ⟨ls, [], rfl, by simpa using honce, ?_⟩
        rw [System.world, System.write_chain_self]
        exact ⟨w, ⟨_, creator, params, huntouched.fresh, hinit⟩, .nil w⟩
      · refine (h j).confined rfl (by simpa using Ne.symm hj) hj (hkeys.ne (Ne.symm hj)) ?_
        exact handleInitVault_confined huntouched.fresh.pool hinit
  | @instruction _ i ix events hperform =>
      simp only [System.perform, bind_eq_ok_iff, expect_eq_ok_iff, pure_eq_ok_iff,
        Prod.mk.injEq] at hperform
      obtain ⟨v, hv, ⟨w, es⟩, hperform, rfl, rfl⟩ := hperform
      obtain ⟨pre, post, rfl, honce, hhistory⟩ := (h i).history v hv
      by_cases hj : j = i
      · subst hj
        refine ⟨by simp, ?_⟩
        rintro v' hv'
        obtain rfl : w.vault = v' := by simpa using hv'
        refine ⟨pre, post ++ [.instruction j ix es], by simp, ?_, ?_⟩
        · rw [← List.append_assoc]
          simpa using honce
        · rw [System.world, System.write_chain_self, List.map_append]
          exact hhistory.snoc (by simpa [SystemLabel.seenBy] using Step.instruction hperform)
      · obtain ⟨x, -, hx⟩ := hhistory.consistent
        exact (h j).confined (by simp [SystemLabel.seenBy, Ne.symm hj]) (by simp) hj
          (hkeys.ne (Ne.symm hj)) (hx.perform_confined hperform)
  | environment hvault henv => exact (h j).environment rfl (by simp) (hvault j) (henv j)

end Lives

/-! ## Two concrete vaults -/

/-- Perform instructions of several vaults one after another. -/
def System.performAll [DecidableEq ι] (D : ι → Deployment) :
    System ι → List (ι × Instruction) → Res (System ι × List (SystemLabel ι))
  | s, [] => return (s, [])
  | s, (i, ix) :: ixs => do
      let (s, es) ← s.perform D i ix
      let (s, ls) ← s.performAll D ixs
      return (s, .instruction i ix es :: ls)

theorem System.performAll_eq_ok [DecidableEq ι] {D : ι → Deployment} {s s' : System ι}
    {ixs : List (ι × Instruction)} {ls : List (SystemLabel ι)}
    (h : s.performAll D ixs = .ok (s', ls)) : Run (SystemStep D) s ls s' := by
  induction ixs generalizing s ls with
  | nil =>
      simp only [System.performAll, pure_eq_ok_iff, Prod.mk.injEq] at h
      obtain ⟨rfl, rfl⟩ := h
      exact .nil s
  | cons ix ixs ih =>
      simp only [System.performAll, bind_eq_ok_iff, pure_eq_ok_iff, Prod.mk.injEq] at h
      obtain ⟨⟨s₁, es⟩, hstep, ⟨s₂, ls'⟩, hrest, rfl, rfl⟩ := h
      exact .cons (.instruction hstep) (ih hrest)

/-- Only instructions are performed. -/
theorem System.performAll_labels [DecidableEq ι] {D : ι → Deployment} {s s' : System ι}
    {ixs : List (ι × Instruction)} {ls : List (SystemLabel ι)}
    (h : s.performAll D ixs = .ok (s', ls)) : ∀ l ∈ ls, ∃ i ix es, l = .instruction i ix es := by
  induction ixs generalizing s ls with
  | nil =>
      simp only [System.performAll, pure_eq_ok_iff, Prod.mk.injEq] at h
      obtain ⟨-, rfl⟩ := h
      simp
  | cons ix ixs ih =>
      simp only [System.performAll, bind_eq_ok_iff, pure_eq_ok_iff, Prod.mk.injEq] at h
      obtain ⟨⟨s₁, es⟩, -, ⟨s₂, ls'⟩, hrest, rfl, rfl⟩ := h
      intro l hl
      rcases List.mem_cons.mp hl with rfl | hl
      · exact ⟨_, _, _, rfl⟩
      · exact ih hrest l hl

/-- The small vault, and another one beside it. -/
def twoVaults (b : Bool) : Deployment :=
  { smallVault with vaultKey := if b then smallVault.vaultKey else Bytes32.fill 60 }

theorem twoVaults_injective : Function.Injective fun b => (twoVaults b).vaultKey := by
  rintro (_ | _) (_ | _) h
  · rfl
  · exact absurd h (by decide)
  · exact absurd h (by decide)
  · rfl

def twoVaultsStart : System Bool where
  shared := smallChain
  cells := fun _ => { pool := smallChain.pool, collection := none, vault := none }

theorem twoVaultsStart_blank : Blank twoVaults twoVaultsStart := by
  intro b
  refine ⟨rfl, ?_, ?_⟩
  · exact {
      slot_lt := by
        show (1_000 : ℕ) < u64Size
        decide
      pool := rfl
      requests := fun k r h => by simp [twoVaultsStart, System.chain, smallChain] at h
      request_addresses := fun _ => rfl
      randLocks := fun k l h => by simp [twoVaultsStart, System.chain, smallChain] at h
      randomness := fun k s h => by simp [twoVaultsStart, System.chain, smallChain] at h
      dataless := by
        rintro k (⟨i, rfl⟩ | ⟨seq, rfl⟩) <;>
          simp [Chain.Dataless, twoVaultsStart, System.chain, smallChain, twoOracles,
            Deployment.assetAddress, Deployment.mintEscrowAddress] }
  · simp [twoVaultsStart, System.chain, smallChain, Deployment.vaultTokens, smallUserToken,
      otherUserToken]

/-- A capture of the same user in vault `b`. -/
def twoVaultsCapture (b : Bool) (randomness : Pubkey) : List (Bool × Instruction) := [
  (b, .openVault smallUser (.raw smallLaunch.dbcPool)),
  (b, .initRandomness randomness),
  (b, .requestCapture smallUser smallUserToken randomness smallQueue (.raw (Bytes32.fill 22))
    [.raw (Bytes32.fill 21)])]

/-- The request 0 of vault `b`, waiting for its randomness. -/
def twoVaultsPending (s : System Bool) (b : Bool) (randomness : Pubkey) : Bool :=
  (s.cells b).vault.isSome &&
  (s.shared.requests ((twoVaults b).requestAddress 0)).any fun r =>
    decide (r.vault = (twoVaults b).vault) && decide (r.randomness = randomness)

set_option maxRecDepth 20000 in
theorem twoVaultsStory_returns :
    returns (twoVaultsStart.create twoVaults true (.raw smallLaunch.creator)
        (smallParams smallRoot)) (fun s₁ =>
      returns (s₁.create twoVaults false (.raw smallLaunch.creator) (smallParams smallRoot))
        fun s₂ => returns (s₂.performAll twoVaults
          (twoVaultsCapture true smallRandomness ++
            twoVaultsCapture false (.raw (Bytes32.fill 43))))
          fun r => twoVaultsPending r.1 true smallRandomness &&
            twoVaultsPending r.1 false (.raw (Bytes32.fill 43))) = true := by
  decide +kernel

/-- Both vaults are created, opened, and have a capture pending. -/
theorem exists_twoVaultsStory :
    ∃ ls s, Run (SystemStep twoVaults) twoVaultsStart ls s ∧
      (∀ l ∈ ls, ∀ donated, l ≠ .environment donated) ∧
      twoVaultsPending s true smallRandomness = true ∧
      twoVaultsPending s false (.raw (Bytes32.fill 43)) = true := by
  obtain ⟨s₁, h₁, h⟩ := exists_of_returns twoVaultsStory_returns
  obtain ⟨s₂, h₂, h⟩ := exists_of_returns h
  obtain ⟨⟨s, ls⟩, hrun, h⟩ := exists_of_returns h
  rw [Bool.and_eq_true] at h
  refine ⟨_, s, .cons (.create h₁) (.cons (.create h₂) (System.performAll_eq_ok hrun)), ?_, h⟩
  intro l hl donated
  rcases List.mem_cons.mp hl with rfl | hl
  · simp
  rcases List.mem_cons.mp hl with rfl | hl
  · simp
  obtain ⟨i, ix, es, rfl⟩ := System.performAll_labels hrun l hl
  simp

/-! ## Runs of a system -/

section Runs

variable [DecidableEq ι] {D : ι → Deployment} {s₀ s : System ι} {ls : List (SystemLabel ι)}

theorem Blank.lives (h : Blank D s₀) (hkeys : Function.Injective fun i => (D i).vaultKey)
    (hrun : Run (SystemStep D) s₀ ls s) (i : ι) : Lives (D i) i ls s := by
  refine Run.history (P := fun ls s => ∀ i, Lives (D i) i ls s) ?_ hrun ?_ i
  · intro es t e u _ ht hstep j
    exact Lives.step hkeys ht hstep j
  · intro j
    obtain ⟨hnew, huntouched⟩ := h j
    exact ⟨fun _ => ⟨by simp, huntouched⟩, fun v hv => by simp [hnew] at hv⟩

/-- **Vaults run apart.**  In every run of a system of vaults with different keys, each
vault that exists was created once; and what the run was since, as that vault sees it, is
a history of this vault alone.  The instructions of the others, the creation of others,
and whatever is outside the program appear in it as moves of the environment. -/
theorem vaults_run_apart (hkeys : Function.Injective fun i => (D i).vaultKey)
    (hblank : Blank D s₀) (hrun : Run (SystemStep D) s₀ ls s) {i : ι} {v : Vault}
    (hv : (s.cells i).vault = some v) :
    ∃ pre post, ls = pre ++ .create i :: post ∧ SystemLabel.create i ∉ pre ++ post ∧
      History (D i) (post.map (SystemLabel.seenBy i)) (s.world i v) :=
  (hblank.lives hkeys hrun i).history v hv

/-- The second vault has a history of its own, beside the captures of the first. -/
theorem vaults_run_apart_two :
    ∃ (ls : List (SystemLabel Bool)) (s : System Bool) (v : Vault),
      Run (SystemStep twoVaults) twoVaultsStart ls s ∧
      twoVaultsPending s true smallRandomness = true ∧
      (s.cells false).vault = some v ∧ ∃ pre post, ls = pre ++ .create false :: post ∧
      SystemLabel.create false ∉ pre ++ post ∧
      History (twoVaults false) (post.map (SystemLabel.seenBy false)) (s.world false v) := by
  obtain ⟨ls, s, hrun, -, hfirst, hpending⟩ := exists_twoVaultsStory
  rw [twoVaultsPending, Bool.and_eq_true] at hpending
  obtain ⟨v, hv⟩ := Option.isSome_iff_exists.mp hpending.1
  exact ⟨ls, s, v, hrun, hfirst, hv,
    vaults_run_apart twoVaults_injective twoVaultsStart_blank hrun hv⟩

/-- **A randomness account serves one pending request of the whole program.**  Two
pending requests of a system, of the same vault or of different ones, have different
randomness accounts, and each holds the lock of its own. -/
theorem randomness_exclusive (hkeys : Function.Injective fun i => (D i).vaultKey)
    (hblank : Blank D s₀) (hrun : Run (SystemStep D) s₀ ls s) {i j : ι} {k k' : Pubkey}
    {r r' : Request} (hr : s.shared.requests k = some r) (hi : r.vault = (D i).vault)
    (hr' : s.shared.requests k' = some r') (hj : r'.vault = (D j).vault) (hne : k ≠ k') :
    r.randomness ≠ r'.randomness ∧
      s.shared.randLocks (.randLock r.randomness) = some { vault := r.vault, seq := r.seq } ∧
      s.shared.randLocks (.randLock r'.randomness) = some { vault := r'.vault, seq := r'.seq } := by
  -- a pending request's vault exists, and knows its lock and its address
  have key : ∀ {i : ι} {k : Pubkey} {r : Request}, s.shared.requests k = some r →
      r.vault = (D i).vault → k = (D i).requestAddress r.seq ∧
        s.shared.randLocks (.randLock r.randomness) = some { vault := r.vault, seq := r.seq } := by
    intro i k r hr hi
    have hlives := hblank.lives hkeys hrun i
    cases hv : (s.cells i).vault with
    | none => exact absurd hi ((hlives.untouched hv).2.fresh.requests k r hr)
    | some v =>
        obtain ⟨_, _, -, -, hhistory⟩ := hlives.history v hv
        obtain ⟨x, -, hx⟩ := hhistory.consistent
        obtain ⟨-, -, hk, -⟩ := hx.tickets.own k r hr (Or.inl hi)
        exact ⟨hk, by rw [hi]; exact hx.coherent.lock k r hr hi⟩
  obtain ⟨hk, hlock⟩ := key hr hi
  obtain ⟨hk', hlock'⟩ := key hr' hj
  refine ⟨?_, hlock, hlock'⟩
  intro hsame
  rw [hsame, hlock'] at hlock
  obtain ⟨hvault, hseq⟩ := RandLock.mk.inj (Option.some.inj hlock)
  obtain rfl : j = i := hkeys (Pubkey.raw.inj (hj.symm.trans (hvault.trans hi)))
  exact hne (by rw [hk, hk', hseq])

/-- The two captures hold a lock each. -/
theorem randomness_exclusive_two :
    ∃ (ls : List (SystemLabel Bool)) (s : System Bool) (r r' : Request),
      Run (SystemStep twoVaults) twoVaultsStart ls s ∧
      s.shared.requests ((twoVaults true).requestAddress 0) = some r ∧
      r.vault = (twoVaults true).vault ∧
      s.shared.requests ((twoVaults false).requestAddress 0) = some r' ∧
      r'.vault = (twoVaults false).vault ∧ r.randomness ≠ r'.randomness ∧
      s.shared.randLocks (.randLock r.randomness) = some { vault := r.vault, seq := r.seq } ∧
      s.shared.randLocks (.randLock r'.randomness) = some { vault := r'.vault, seq := r'.seq } := by
  obtain ⟨ls, s, hrun, -, htrue, hfalse⟩ := exists_twoVaultsStory
  simp only [twoVaultsPending, Bool.and_eq_true, Option.any_eq_true, decide_eq_true_eq]
    at htrue hfalse
  obtain ⟨-, r, hr, hv, -⟩ := htrue
  obtain ⟨-, r', hr', hv', -⟩ := hfalse
  exact ⟨ls, s, r, r', hrun, hr, hv, hr', hv',
    randomness_exclusive twoVaults_injective twoVaultsStart_blank hrun hr hv hr' hv' (by decide)⟩

end Runs

end HybridVault
