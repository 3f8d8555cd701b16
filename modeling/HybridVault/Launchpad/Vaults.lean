import HybridVault.Launchpad.Issuance
import HybridVault.Opening

/-!
# From a launch to its vault

A vault is created on a record of the launch program, and opens when the curve of that
record has graduated.  Three programs take part: `hybrid_launch` writes the record, DBC
moves the pool, `hybrid_vault` reads both.

* The vault of a native launch never opens (`native_vault_stays_closed`).
* The vault of a registered curve is opened by anyone once DBC has migrated the pool that
  the registration has seen (`registered_vault_opens`): what the registration checks is all
  that graduation asks for, apart from the migration.
-/

namespace HybridVault.Launchpad

open Foundations

variable {P : Platform} {ls : List Label} {vs : List HybridVault.Label} {l l' : Ledger}
  {D : Deployment} {w : World} {mint : Bytes32}

/-- A vault that has been opened is the vault of a launch that recorded a pool. -/
theorem recorded_of_isOpen (h : HybridVault.History D vs w) (hopen : w.vault.isOpen = true) :
    D.launchConfig.dbcPool ≠ .zero := by
  have hcount := h.countP_isOpenVault
  rw [hopen, Bool.toNat_true] at hcount
  obtain ⟨label, hlabel, hopens⟩ := List.countP_pos_iff.mp (hcount ▸ Nat.one_pos)
  obtain ⟨w₀, -, hrun⟩ := h
  obtain ⟨-, -, w₁, w₂, -, -, hstep, -⟩ := hrun.split_of_mem hlabel
  cases hstep with
  | environment => exact absurd hopens Bool.false_ne_true
  | @instruction _ ix es hperform =>
      cases ix with
      | openVault caller proof => exact (verified_of_handleOpenVault hperform).2.2.recorded
      | _ => exact absurd hopens Bool.false_ne_true

/-- **The vault of a native launch never opens**, whatever is done to it: nothing is asked
of it, and no asset of its collection ever exists. -/
theorem native_vault_stays_closed {creator feeRecipient : Bytes32} {launchDestination : Address}
    {params : LaunchParams}
    (hlaunch : perform P l (.launch creator mint launchDestination feeRecipient params) = .ok l')
    (hD : (l'.accounts (.launchConfig mint)).asLaunchConfig = some D.launchConfig)
    (hvault : HybridVault.History D vs w) :
    w.vault.isOpen = false ∧ (∀ i < D.size, w.assets (D.assetAddress i) = .absent) ∧
      ∀ k r, w.requests k = some r → r.vault ≠ D.vault := by
  obtain ⟨amounts, -, -, -, haccounts⟩ := handleLaunch_eq_ok hlaunch
  have hdata : (l'.accounts (.launchConfig mint)).data
      = .launchConfig (nativeConfig P creator mint params amounts l.unixTimestamp) := by
    simp [haccounts, launchedAccounts]
  have hnative : D.launchConfig.dbcPool = .zero := by rw [eq_of_asLaunchConfig hD hdata]; rfl
  cases hopen : w.vault.isOpen with
  | true => exact absurd hnative (recorded_of_isOpen hvault hopen)
  | false =>
      obtain ⟨x, hx, hpristine⟩ := hvault.pristine hopen
      exact ⟨rfl, fun i hi => hpristine.absent hx hi, fun k r hr => hpristine.no_request hx hr⟩

/-- The vault of a record, and the chain it is created on, where the pool of the curve has
migrated. -/
def vaultOf (c : LaunchConfig) : Deployment := deploy (.fill 1) (.fill 2) c

def migratedPool : DbcPool := { curvePoolAccount with isMigrated := true, migrationProgress := 3 }

def vaultChain : Chain :=
  { smallChain with
    accounts := Function.update smallChain.accounts (.raw curvePool)
      ⟨.dbc, migratedPool.store (List.replicate dbcPoolLen 0)⟩
    lamports := fun k => if k = .raw smallCreator then 10_000_000_000 else 0 }

theorem vaultChain_fresh {c : LaunchConfig} (hsize : c.collectionSize = 100) :
    Fresh (vaultOf c) vaultChain where
  slot_lt := by decide
  pool := by
    show List.replicate _ 0 = List.replicate (poolAccountSize c.collectionSize.toNat) 0
    rw [hsize]
    rfl
  requests := fun k r h => by simp [vaultChain, smallChain] at h
  request_addresses := fun _ => rfl
  randLocks := fun k l h => by simp [vaultChain, smallChain] at h
  randomness := fun k s h => by simp [vaultChain, smallChain] at h
  dataless := by
    rintro k (⟨i, rfl⟩ | ⟨seq, rfl⟩) <;>
      simp [Chain.Dataless, vaultChain, smallChain, twoOracles, Deployment.assetAddress,
        Deployment.mintEscrowAddress]

/-- A vault can be created on the record. -/
def creates (c : LaunchConfig) : Bool :=
  returns (handleInitVault (vaultOf c) vaultChain (.raw smallCreator)
    ⟨.fill 50, .fill 51, [97], [97, 114, 58, 47, 47, 99], smallQueue⟩) fun _ => true

theorem exists_created {c : LaunchConfig} (hsize : c.collectionSize = 100)
    (hcreates : creates c = true) :
    ∃ w, HybridVault.History (vaultOf c) [] w ∧ w.accounts = vaultChain.accounts ∧
      w.vault.isOpen = false := by
  obtain ⟨w, hinit, -⟩ := exists_of_returns hcreates
  have hfresh := vaultChain_fresh hsize
  have heffect := handleInitVault_eq_ok hfresh.pool hinit
  refine ⟨w, ⟨w, ⟨vaultChain, _, _, hfresh, hinit⟩, .nil w⟩, heffect.accounts_eq, ?_⟩
  rw [heffect.vault]
  rfl

set_option maxRecDepth 20000 in
theorem native_vault_stays_closed_small :
    ∃ l c w, perform devnet smallLedger smallLaunchIx = .ok l ∧
      (l.accounts (.launchConfig smallMint)).asLaunchConfig = some c ∧
      HybridVault.History (vaultOf c) [] w ∧ w.vault.isOpen = false := by
  obtain ⟨l, hstep, hc⟩ := exists_smallLaunched
  obtain ⟨w, h, -, -⟩ := exists_created (c := nativeConfig devnet smallCreator smallMint smallParams
    smallAmounts smallLedger.unixTimestamp) rfl (by decide)
  exact ⟨l, _, w, hstep, hc, h, (native_vault_stays_closed hstep hc h).1⟩

/-- The vault reads of a pool what the registration reads. -/
theorem parseDbcPool_of_parsePool {d : Bytes} {pool : DbcPool}
    (h : parsePool d = .ok (some pool)) : parseDbcPool d = .ok (some pool.view) := by
  by_cases haccepted : d.length = dbcPoolLen ∧ slice d 0 8 = dbcPoolDiscriminator
  · obtain ⟨pool', hpool', hview⟩ := exists_parsePool_of_accepted haccepted.1 haccepted.2
    obtain rfl := Option.some.inj (Except.ok.inj (h.symm.trans hpool'))
    exact hview
  · rw [parsePool, if_pos (not_and_or.mp haccepted)] at h
    cases h

/-- **The vault of a registered curve opens once DBC has migrated the pool.**  If the pool
that the registration read still names its token and its config, and says that it has
graduated, whoever asks opens the vault: nothing else is asked for. -/
theorem registered_vault_opens {creator dbcConfig dbcPool feeRecipient : Bytes32}
    {bufferTokens : Address} {params : RegisterDbcParams} {pool pool' : DbcPool}
    (h : History P ls l)
    (hregister : perform P l (.registerDbcLaunch creator mint dbcConfig dbcPool bufferTokens
      feeRecipient params) = .ok l')
    (hpool : loadPool (l.accounts (.raw dbcPool)) = .ok (some pool))
    (hD : (l'.accounts (.launchConfig mint)).asLaunchConfig = some D.launchConfig)
    (hvault : HybridVault.History D vs w) (hclosed : w.vault.isOpen = false)
    (howner : (w.accounts (.raw dbcPool)).owner = .dbc)
    (hpool' : parsePool (w.accounts (.raw dbcPool)).data = .ok (some pool'))
    (hkeeps : pool'.baseMint = pool.baseMint ∧ pool'.config = pool.config)
    (hgraduated : pool'.graduated = true) (caller : Pubkey) (hcaller : caller.IsSigner) :
    ∃ w' es, HybridVault.perform D w (.openVault caller (.raw dbcPool)) = .ok (w', es) ∧
      w'.vault.isOpen = true := by
  obtain ⟨m, pool₀, cfg, amounts, hreg, -, -, -, haccounts⟩ :=
    handleRegisterDbcLaunch_eq_ok hregister
  obtain rfl := Option.some.inj (Except.ok.inj (hpool.symm.trans hreg.pool_eq))
  have hdata : (l'.accounts (.launchConfig mint)).data = .launchConfig (registeredConfig P creator
      mint dbcConfig dbcPool pool (params.launchParams m cfg) amounts l.unixTimestamp) := by
    simp [haccounts, registeredAccounts]
  have hrecord := eq_of_asLaunchConfig hD hdata
  have hdbcPool : D.launchConfig.dbcPool = dbcPool := by rw [hrecord]; rfl
  have hgraduate : Graduated D.launchConfig w.accounts := by
    refine ⟨?_, pool'.view, ?_, ?_, ?_, hgraduated⟩
    · rw [hdbcPool]
      rintro rfl
      exact h.sound.systemProgram (loadPool_eq_some hreg.pool_eq).1
    · rw [hdbcPool, loadDbcPool, if_neg (not_not.mpr howner)]
      exact parseDbcPool_of_parsePool hpool'
    · rw [hrecord]
      exact hkeeps.1.trans hreg.baseMint
    · rw [hrecord]
      exact hkeeps.2.trans hreg.config
  have hopen := hvault.openVault_of_graduated hclosed hcaller hgraduate
  rw [hdbcPool] at hopen
  exact ⟨_, _, hopen, rfl⟩

set_option maxRecDepth 20000 in
theorem registered_vault_opens_small :
    ∃ l c w w' es, perform devnet smallLedger smallRegisterIx = .ok l ∧
      (l.accounts (.launchConfig curveMint)).asLaunchConfig = some c ∧
      HybridVault.History (vaultOf c) [] w ∧ w.vault.isOpen = false ∧
      HybridVault.perform (vaultOf c) w (.openVault smallUser (.raw curvePool)) = .ok (w', es) ∧
      w'.vault.isOpen = true := by
  obtain ⟨l, hstep, hc⟩ := exists_smallRegistered
  obtain ⟨w, h, haccounts, hclosed⟩ := exists_created (c := registeredConfig devnet smallCreator
    curveMint platformDbcConfig curvePool curvePoolAccount smallParams smallAmounts
    smallLedger.unixTimestamp) rfl (by decide)
  have hpool : w.accounts (.raw curvePool)
      = ⟨.dbc, migratedPool.store (List.replicate dbcPoolLen 0)⟩ := by
    rw [haccounts]
    simp [vaultChain]
  have hmigrated : parsePool (w.accounts (.raw curvePool)).data = .ok (some migratedPool) := by
    rw [hpool]
    exact migratedPool.parsePool_store List.length_replicate
  obtain ⟨w', es, hopen, hisOpen⟩ := registered_vault_opens
    ⟨smallLedger, smallLedger_genesis, .nil _⟩ hstep curve_registrable.pool_eq hc h hclosed
    (by rw [hpool]) hmigrated ⟨rfl, rfl⟩ rfl smallUser trivial
  exact ⟨l, _, w, w', es, hstep, hc, h, hclosed, hopen, hisOpen⟩

end HybridVault.Launchpad
