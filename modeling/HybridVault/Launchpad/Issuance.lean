import HybridVault.Launchpad.Devnet

/-!
# What a launch can be relied on for

The vault program, and everyone who trades a launched token, reads a record and trusts what
it says for good.  Here is what that rests on, for every run of the launch program with
whatever else happens on the chain.

* Whatever account can be loaded as a record is one the vault accepts
  (`launch_records_sound`).
* There is one record a mint, and it never changes (`one_record_per_mint`).
* The supply of a native launch is fixed and out of reach (`native_supply_locked`); nobody
  adds to the supply of a curve, and its buffer only fills (`curve_supply_capped`).
* Nobody can stand in the way of a launch (`launch_never_blocked`) or of a registration
  (`registers_iff`).
-/

namespace HybridVault.Launchpad

open Foundations

variable {P : Platform} {ls ls' : List Label} {l l' : Ledger} {mint : Bytes32} {c : LaunchConfig}

/-! ## Records -/

/-- The vault's checks of a record all pass on one that `validate` accepted. -/
theorem Issued.econ (h : Issued P c) :
    HybridVault.econ c = .ok {
      ratioBase := c.ratioBase.toNat
      collectionSize := c.collectionSize.toNat
      storedFeeLamports := c.feeLamports.toNat
      ratioWholeTokens := c.ratioWholeTokens.toNat } := by
  obtain ⟨p, a, hvalidate, hfrom⟩ := h.accepted
  obtain ⟨⟨-, -, hratio, hmin, hmax⟩, fee, -, rfl⟩ := validate_eq_ok_iff.mp hvalidate
  have hsize : c.collectionSize.toNat ≤ maxCollectionSize := by
    rw [hfrom.collectionSize]
    exact (le_min_iff.mp hmax).2
  have hfits : c.collectionSize.toNat < u32Size := hsize.trans_lt (by decide)
  have hpos : 0 < c.collectionSize.toNat := by
    rw [hfrom.collectionSize]
    exact lt_of_lt_of_le (by decide) hmin
  have hbase : 0 < c.ratioBase.toNat := by
    rw [hfrom.ratioBase]
    exact Nat.mul_pos (allowedRatios_spec _ hratio).1 (Nat.pow_pos (by decide))
  simp only [HybridVault.econ, bind_eq_ok_iff, require_eq_ok_iff, expect_eq_ok_iff, pure_eq_ok_iff,
    toU32_eq_some_iff]
  exact ⟨(), hfrom.version, (), hsize, c.collectionSize.toNat, ⟨hfits, rfl⟩, (), ⟨hpos, hbase⟩, rfl⟩

/-- **Every record is one the vault accepts.**  Whatever account can be loaded as a record
is at the address of its mint, names the platform's fee recipient, carries the fee of its
tier, and passes the checks of the vault, on the way in and on the way out. -/
theorem launch_records_sound (h : History P ls l) {k : Address}
    (hc : (l.accounts k).asLaunchConfig = some c) :
    k = .launchConfig c.mint ∧ c.Accepted ∧ c.feeRecipient = P.feeRecipient ∧
      (∃ e, econ c = .ok e ∧ e.requestFee = .ok c.feeLamports.toNat ∧
        exitViewIn c.accountData
          = .ok { ratioBase := e.ratioBase, collectionSize := e.collectionSize }) := by
  obtain ⟨hk, hissued⟩ := h.sound.record hc
  refine ⟨hk, hissued.accepted, hissued.feeRecipient, _, hissued.econ, ?_,
    exitViewIn_of_econ hissued.econ⟩
  simp only [Econ.requestFee, requestFee, bind_eq_ok_iff, require_eq_ok_iff, pure_eq_ok_iff]
  exact ⟨(), hissued.fee, trivial⟩

theorem launch_records_sound_small :
    ∃ ls l c, History devnet ls l ∧
      (l.accounts (.launchConfig smallMint)).asLaunchConfig = some c ∧ c.mint = smallMint ∧
      c.Accepted ∧ c.feeRecipient = platformFeeRecipient := by
  obtain ⟨l, hstep, hc⟩ := exists_smallLaunched
  have h : History devnet [.instruction smallLaunchIx] l :=
    ⟨smallLedger, smallLedger_genesis, .single (.instruction hstep)⟩
  obtain ⟨hk, haccepted, hrecipient, -⟩ := launch_records_sound h hc
  exact ⟨_, l, _, h, hc, (Address.launchConfig.inj hk).symm, haccepted, hrecipient⟩

/-! ## One record a mint -/

/-- The steps that are instructions about a mint. -/
def Label.isFor (mint : Bytes32) : Label → Bool
  | .instruction ix => ix.mint = mint
  | .environment => false

theorem asLaunchConfig_written {a : Account} :
    ({ a with owner := .hybridLaunch, data := .launchConfig c } : Account).asLaunchConfig
      = some c :=
  Account.asLaunchConfig_eq_some_iff.mpr ⟨rfl, rfl⟩

/-- An instruction about a mint writes its record, which was not there; nothing else does
anything to it. -/
theorem Sound.record_step {label : Label} (hs : Sound P l) (h : Step P l label l')
    (mint : Bytes32) :
    (label.isFor mint = false ∧ (l'.accounts (.launchConfig mint)).asLaunchConfig
        = (l.accounts (.launchConfig mint)).asLaunchConfig) ∨
      (label.isFor mint = true ∧ (l.accounts (.launchConfig mint)).asLaunchConfig = none ∧
        ((l'.accounts (.launchConfig mint)).asLaunchConfig).isSome) := by
  cases h with
  | environment henv =>
      refine Or.inl ⟨rfl, ?_⟩
      rcases hs.derived (.launchConfig mint) trivial with hfree | hown
      · rw [hfree.asLaunchConfig,
          (henv.derived (.launchConfig mint) trivial hfree).asLaunchConfig]
      · rw [henv.owned _ hown]
  | @instruction _ ix h =>
      cases ix with
      | launch creator mint' launchDestination feeRecipient params =>
          obtain ⟨amounts, -, ⟨hconfig, -, -⟩, -, haccounts⟩ := handleLaunch_eq_ok h
          by_cases hsame : mint' = mint
          · subst hsame
            refine Or.inr ⟨decide_eq_true rfl, hconfig.asLaunchConfig, ?_⟩
            have hwritten : l'.accounts (.launchConfig mint')
                = launchedAccounts P l creator mint' params amounts (.launchConfig mint') := by
              rw [haccounts]
            simp [hwritten, launchedAccounts, asLaunchConfig_written]
          · refine Or.inl ⟨decide_eq_false hsame, ?_⟩
            simp [haccounts, launchedAccounts, Ne.symm hsame]
      | registerDbcLaunch creator mint' dbcConfig dbcPool bufferTokens feeRecipient params =>
          obtain ⟨m, pool, cfg, amounts, -, hconfig, -, -, haccounts⟩ :=
            handleRegisterDbcLaunch_eq_ok h
          by_cases hsame : mint' = mint
          · subst hsame
            refine Or.inr ⟨decide_eq_true rfl, hconfig.asLaunchConfig, ?_⟩
            simp [haccounts, registeredAccounts, asLaunchConfig_written]
          · refine Or.inl ⟨decide_eq_false hsame, ?_⟩
            simp [haccounts, registeredAccounts, Ne.symm hsame]

/-- A record is never changed, and no later instruction is about its mint. -/
theorem Sound.record_run (hs : Sound P l) (h : Run (Step P) l ls l')
    (hc : (l.accounts (.launchConfig mint)).asLaunchConfig = some c) :
    (l'.accounts (.launchConfig mint)).asLaunchConfig = some c ∧
      ls.countP (Label.isFor mint) = 0 := by
  induction h with
  | nil => exact ⟨hc, rfl⟩
  | cons hstep _ ih =>
      rcases hs.record_step hstep mint with ⟨hlabel, hsame⟩ | ⟨-, hnone, -⟩
      · obtain ⟨hfinal, hcount⟩ := ih (hs.step hstep) (hsame.trans hc)
        exact ⟨hfinal, by rw [List.countP_cons, hcount, hlabel]; rfl⟩
      · rw [hnone] at hc
        cases hc

/-- **One record a mint, for good.**  Of all instructions of a run, one at most is about a
given mint: the one that has written its record, if there is a record.  No later step
changes that record, and no later instruction is about the mint. -/
theorem one_record_per_mint (h : History P ls l) (mint : Bytes32) :
    ls.countP (Label.isFor mint)
        = ((l.accounts (.launchConfig mint)).asLaunchConfig.isSome).toNat ∧
      ∀ c, (l.accounts (.launchConfig mint)).asLaunchConfig = some c →
        ∀ ls' l', Run (Step P) l ls' l' →
          (l'.accounts (.launchConfig mint)).asLaunchConfig = some c ∧
            ls'.countP (Label.isFor mint) = 0 := by
  refine ⟨?_, fun c hc ls' l' hrun => h.sound.record_run hrun hc⟩
  obtain ⟨l₀, hgenesis, hrun⟩ := h
  refine hrun.history (P := fun ls l => ls.countP (Label.isFor mint)
    = ((l.accounts (.launchConfig mint)).asLaunchConfig.isSome).toNat) ?_ ?_
  · intro es s e t hrun' hcount hstep
    rw [List.countP_append, List.countP_singleton, hcount]
    rcases (hgenesis.sound.run hrun').record_step hstep mint with ⟨he, hsame⟩ | ⟨he, hnone, hsome⟩
    · rw [he, hsame]
      rfl
    · rw [he, hnone, hsome]
      rfl
  · rw [(hgenesis.derived (.launchConfig mint) trivial).asLaunchConfig]
    rfl

theorem one_record_per_mint_small :
    ∃ ls l c, History devnet ls l ∧
      (l.accounts (.launchConfig smallMint)).asLaunchConfig = some c ∧
      ls.countP (Label.isFor smallMint) = 1 := by
  obtain ⟨l, hstep, hc⟩ := exists_smallLaunched
  have h : History devnet [.instruction smallLaunchIx] l :=
    ⟨smallLedger, smallLedger_genesis, .single (.instruction hstep)⟩
  obtain ⟨hcount, -⟩ := one_record_per_mint h smallMint
  exact ⟨_, l, _, h, hc, by rw [hcount, hc]; rfl⟩

/-! ## Supply -/

/-- What a record says of its own address. -/
theorem Sound.vouched_at (hs : Sound P l)
    (hc : (l.accounts (.launchConfig mint)).asLaunchConfig = some c) :
    c.mint = mint ∧ Issued P c ∧ Vouched l c := by
  obtain ⟨hk, hissued⟩ := hs.record hc
  obtain rfl := Address.launchConfig.inj hk
  exact ⟨rfl, hissued, hs.vouched c hc⟩

/-- **The supply of a native launch is fixed and out of reach.**  As long as the chain
lives, its mint has all of its billion tokens and no authority, they are in the launch
destination, which nobody can sign for and nobody else has a say over, and no other account
has any. -/
theorem native_supply_locked (h : History P ls l)
    (hc : (l.accounts (.launchConfig mint)).asLaunchConfig = some c) (hnative : c.dbcPool = .zero) :
    ∃ m t, (l.accounts (.raw mint)).asMint = some m ∧
      (l.accounts (.launchDestination mint)).asToken = some t ∧
      m.supply = 10 ^ 9 * 10 ^ c.decimals.toNat ∧ m.decimals = c.decimals ∧
      m.mintAuthority = none ∧ m.freezeAuthority = none ∧
      Locked (.launchVault mint) mint t ∧ t.amount = m.supply ∧
      ∀ k, k ≠ .launchDestination mint → held l mint k = 0 := by
  obtain ⟨rfl, hissued, ⟨-, hlaunch⟩ | ⟨hpool, -⟩⟩ := h.sound.vouched_at hc
  · refine ⟨_, _, hlaunch.mint, hlaunch.tokens, hissued.supply, rfl, rfl, rfl,
      launchedTokens_locked .., rfl, ?_⟩
    intro k hk
    have hsum := h.sound.backed.supply c.mint hlaunch.not_wrapped {k, .launchDestination c.mint}
    have hall : held l c.mint (.launchDestination c.mint) = c.totalSupplyBase.toNat :=
      (held_of_asToken hlaunch.tokens).trans (if_pos rfl)
    rw [Finset.sum_pair hk, hall, supplyOf_of_asMint hlaunch.mint] at hsum
    have hle : held l c.mint k + c.totalSupplyBase.toNat ≤ c.totalSupplyBase.toNat := hsum
    omega
  · exact absurd hnative hpool

theorem native_supply_locked_small :
    ∃ ls l m t, History devnet ls l ∧ (l.accounts (.raw smallMint)).asMint = some m ∧
      (l.accounts (.launchDestination smallMint)).asToken = some t ∧
      m.supply = 10 ^ 15 ∧ t.amount = m.supply ∧ held l smallMint (.raw smallCreator) = 0 := by
  obtain ⟨l, hstep, hc⟩ := exists_smallLaunched
  have h : History devnet [.instruction smallLaunchIx] l :=
    ⟨smallLedger, smallLedger_genesis, .single (.instruction hstep)⟩
  obtain ⟨m, t, hm, ht, hsupply, -, -, -, -, hamount, hnone⟩ := native_supply_locked h hc rfl
  exact ⟨_, l, m, t, h, hm, ht, hsupply.trans rfl, hamount, hnone _ nofun⟩

/-- What a curve's accounts become, from a ledger on. -/
def CurveAfter (mint : Bytes32) (m : Mint) (t : TokenAccount) (l : Ledger) : Prop :=
  (∃ m', (l.accounts (.raw mint)).asMint = some m' ∧ m'.decimals = m.decimals ∧
    m'.mintAuthority = none ∧ m'.freezeAuthority = none ∧ m'.supply ≤ m.supply) ∧
  ∃ t', (l.accounts (.buffer mint)).asToken = some t' ∧ Locked .dbcBuffer mint t' ∧
    t.amount ≤ t'.amount

theorem CurveAfter.step {m : Mint} {t : TokenAccount} {label : Label}
    (h : CurveAfter mint m t l) (hstep : Step P l label l') : CurveAfter mint m t l' := by
  obtain ⟨⟨m', hm', hdecimals, hauthority, hfreeze, hsupply⟩, t', ht', hlocked, hamount⟩ := h
  cases hstep with
  | instruction h =>
      exact ⟨⟨m', perform_asMint h hm', hdecimals, hauthority, hfreeze, hsupply⟩, t',
        perform_asToken h ht', hlocked, hamount⟩
  | environment henv =>
      obtain ⟨m₂, hm₂, hdecimals₂, hauthority₂, hfreeze₂⟩ := henv.mints _ _ hm'
      obtain ⟨hnone, hle⟩ := hauthority₂ hauthority
      obtain ⟨t₂, ht₂, hlocked₂, hle₂⟩ := henv.locked _ .dbcBuffer _ _ trivial ht' hlocked
      exact ⟨⟨m₂, hm₂, hdecimals₂.trans hdecimals, hnone, hfreeze₂ hfreeze, hle.trans hsupply⟩, t₂,
        ht₂, hlocked₂, hamount.trans hle₂⟩

/-- **Nobody adds to the supply of a registered curve, and its buffer only fills.**  From
any moment after the registration on, the mint has no authority, its supply is within the
billion tokens of the record and only falls, and what has reached the buffer account stays
there. -/
theorem curve_supply_capped (h : History P ls l)
    (hc : (l.accounts (.launchConfig mint)).asLaunchConfig = some c) (hcurve : c.dbcPool ≠ .zero)
    (hrun : Run (Step P) l ls' l') :
    ∃ m m' t t', (l.accounts (.raw mint)).asMint = some m ∧
      (l'.accounts (.raw mint)).asMint = some m' ∧
      (l.accounts (.buffer mint)).asToken = some t ∧
      (l'.accounts (.buffer mint)).asToken = some t' ∧
      m.supply ≤ 10 ^ 9 * 10 ^ c.decimals.toNat ∧ m'.supply ≤ m.supply ∧
      m'.decimals = c.decimals ∧ m'.mintAuthority = none ∧ m'.freezeAuthority = none ∧
      Locked .dbcBuffer mint t' ∧ t.amount ≤ t'.amount := by
  obtain ⟨rfl, hissued, ⟨hpool, -⟩ | ⟨-, hlaunch⟩⟩ := h.sound.vouched_at hc
  · exact absurd hpool hcurve
  · obtain ⟨m, hm, hdecimals, hauthority, hfreeze, hsupply⟩ := hlaunch.mint
    obtain ⟨t, ht, hlocked⟩ := hlaunch.buffer
    have hafter : CurveAfter c.mint m t l' := hrun.invariant (fun _ _ _ hx hstep => hx.step hstep)
      ⟨⟨m, hm, rfl, hauthority, hfreeze, le_rfl⟩, t, ht, hlocked, le_rfl⟩
    obtain ⟨⟨m', hm', hdecimals', hauthority', hfreeze', hle⟩, t', ht', hlocked', hamount⟩ := hafter
    exact ⟨m, m', t, t', hm, hm', ht, ht', hissued.supply ▸ hsupply, hle,
      hdecimals'.trans hdecimals, hauthority', hfreeze', hlocked', hamount⟩

theorem curve_supply_capped_small :
    ∃ ls l l' m m' t', History devnet ls l ∧ perform devnet l smallLaunchIx = .ok l' ∧
      (l.accounts (.raw curveMint)).asMint = some m ∧ m.supply ≤ 10 ^ 15 ∧
      (l'.accounts (.raw curveMint)).asMint = some m' ∧ m'.supply ≤ m.supply ∧
      (l'.accounts (.buffer curveMint)).asToken = some t' ∧ Locked .dbcBuffer curveMint t' := by
  obtain ⟨l, hstep, hc⟩ := exists_smallRegistered
  obtain ⟨l', hlaunch⟩ := exists_launched_after hstep
  have h : History devnet [.instruction smallRegisterIx] l :=
    ⟨smallLedger, smallLedger_genesis, .single (.instruction hstep)⟩
  obtain ⟨m, m', -, t', hm, hm', -, ht', hsupply, hle, -, -, -, hlocked, -⟩ :=
    curve_supply_capped h hc (by decide) (.single (.instruction hlaunch))
  exact ⟨_, l, l', m, m', t', h, hlaunch, hm, hsupply.trans_eq rfl, hm', hle, ht', hlocked⟩

/-! ## Liveness -/

/-- While a mint is not there, neither is its record nor its launch destination. -/
theorem Sound.free_of_mint (hs : Sound P l) (hmint : (l.accounts (.raw mint)).Dataless) :
    (l.accounts (.launchConfig mint)).Dataless ∧
      (l.accounts (.launchDestination mint)).Dataless := by
  have hnone := hmint.asMint
  constructor
  · apply hs.dataless_of_asLaunchConfig
    cases hrecord : (l.accounts (.launchConfig mint)).asLaunchConfig with
    | none => rfl
    | some c =>
        obtain ⟨rfl, -, ⟨-, hlaunch⟩ | ⟨-, hlaunch⟩⟩ := hs.vouched_at hrecord
        · rw [hlaunch.mint] at hnone
          cases hnone
        · obtain ⟨m, hm, -⟩ := hlaunch.mint
          rw [hm] at hnone
          cases hnone
  · rcases hs.associated (.launchVault mint) mint trivial with hfree | ⟨t, ht, -, hmintEq, -⟩
    · exact hfree
    · have hsome := hs.backed.mint _ t ht
      rw [hmintEq, hnone] at hsome
      cases hsome

/-- **A launch is never blocked.**  Whatever has been done before and by whom, a key that is
not in use is launched with any parameters `validate` accepts, by whoever can pay for the
accounts.  Lamports that somebody has sent to the addresses of the launch only make it
cheaper. -/
theorem launch_never_blocked (h : History P ls l) {creator : Bytes32} {params : LaunchParams}
    {amounts : Machine.DerivedAmounts} (hvalidate : Machine.validate params = .ok amounts)
    (hready : Ready P l) (hmint : (l.accounts (.raw mint)).Dataless)
    (hexec : (l.accounts (.raw mint)).executable = false)
    (hcreator : (l.accounts (.raw creator)).Dataless) (hne : creator ≠ mint)
    (hcost : launchCost P l mint ≤ l.lamports (.raw creator)) :
    ∃ l', perform P l (.launch creator mint (.launchDestination mint) P.feeRecipient params)
        = .ok l' ∧
      (l'.accounts (.launchConfig mint)).asLaunchConfig
        = some (nativeConfig P creator mint params amounts l.unixTimestamp) := by
  obtain ⟨hconfig, hdest⟩ := h.sound.free_of_mint hmint
  obtain ⟨l', hlaunch⟩ := handleLaunch_of_free hvalidate hready hconfig hmint hexec hdest hcreator
    hne hcost
  refine ⟨l', hlaunch, ?_⟩
  obtain ⟨amounts', hvalidate', -, -, haccounts⟩ := handleLaunch_eq_ok hlaunch
  obtain rfl := Except.ok.inj (hvalidate.symm.trans hvalidate')
  simp [haccounts, launchedAccounts, asLaunchConfig_written]

theorem launch_never_blocked_small :
    ∃ l', perform devnet smallLedger smallLaunchIx = .ok l' ∧
      (l'.accounts (.launchConfig smallMint)).asLaunchConfig
        = some (nativeConfig devnet smallCreator smallMint smallParams smallAmounts
          smallLedger.unixTimestamp) := by
  have hcreator : (smallLedger.accounts (.raw smallCreator)).Dataless := by decide
  have hmint : (smallLedger.accounts (.raw smallMint)).Dataless := by decide
  exact launch_never_blocked ⟨smallLedger, smallLedger_genesis, .nil _⟩ validate_smallParams
    smallLedger_ready hmint (by decide) hcreator (by decide) (by decide)

/-- **A registration is never blocked, and never out of turn.**  Whatever has been done
before and by whom, a creator who can pay registers a curve exactly if the mint has no
record yet and the curve and its token are what the platform asks for. -/
theorem registers_iff (h : History P ls l) {creator dbcConfig dbcPool : Bytes32}
    {params : RegisterDbcParams} (hready : Ready P l)
    (hcreator : (l.accounts (.raw creator)).Dataless)
    (hcost : registerCost P l mint ≤ l.lamports (.raw creator)) :
    (∃ l', perform P l (.registerDbcLaunch creator mint dbcConfig dbcPool (.buffer mint)
        P.feeRecipient params) = .ok l') ↔
      (l.accounts (.launchConfig mint)).asLaunchConfig = none ∧
        ∃ m pool cfg amounts,
          Registrable P l creator mint dbcConfig dbcPool params m pool cfg amounts := by
  constructor
  · rintro ⟨l', hstep⟩
    obtain ⟨m, pool, cfg, amounts, hreg, hconfig, -⟩ := handleRegisterDbcLaunch_eq_ok hstep
    exact ⟨hconfig.asLaunchConfig, m, pool, cfg, amounts, hreg⟩
  · rintro ⟨hnone, m, pool, cfg, amounts, hreg⟩
    apply handleRegisterDbcLaunch_of_registrable hreg hready
      (h.sound.dataless_of_asLaunchConfig hnone) ?_ hcreator hcost
    rcases h.sound.associated .dbcBuffer mint trivial with hfree | ⟨t, ht, howner, hmint, -⟩
    · exact Or.inr hfree
    · exact Or.inl ⟨t, ht, howner, hmint⟩

theorem registers_iff_small : ∃ l', perform devnet smallLedger smallRegisterIx = .ok l' :=
  (registers_iff ⟨smallLedger, smallLedger_genesis, .nil _⟩ smallLedger_ready (by decide)
    (by decide)).mpr ⟨rfl, _, _, _, _, curve_registrable⟩

end HybridVault.Launchpad
