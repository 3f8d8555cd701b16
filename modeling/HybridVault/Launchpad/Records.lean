import HybridVault.Launchpad.Run

/-!
# What a launch record vouches for

A record is the only thing the vault program asks of a launch.  `Sound` says what there is
behind every record, at every moment of every run:

* the record is at the address of its mint, and says what `validate` accepted (`Issued`);
* behind the record of a native launch, a mint whose whole supply is in an account nobody
  can sign for (`NativeLaunch`);
* behind the record of a curve, a mint that nobody can mint or freeze, and a buffer account
  nobody can sign for (`CurveLaunch`).

Instructions make these accounts and then leave them alone; the environment can only burn
what its wallets own.
-/

namespace HybridVault.Launchpad

open Foundations

variable {P : Platform} {l l' : Ledger}

/-! ## Records -/

/-- What every record says, whichever instruction wrote it. -/
structure Issued (P : Platform) (c : LaunchConfig) : Prop where
  accepted : c.Accepted
  feeRecipient : c.feeRecipient = P.feeRecipient
  fee : isExactTierFee c.feeLamports.toNat c.ratioWholeTokens.toNat = true
  supply : c.totalSupplyBase.toNat = 10 ^ 9 * 10 ^ c.decimals.toNat

theorem nativeConfig_issued {creator mint : Bytes32} {params : LaunchParams}
    {amounts : Machine.DerivedAmounts} {launchedAt : Int64}
    (h : Machine.validate params = .ok amounts) :
    Issued P (nativeConfig P creator mint params amounts launchedAt) where
  accepted := Machine.accepted_iff.mpr
    ⟨params, amounts, h, ⟨rfl, rfl, rfl, rfl, rfl, rfl, rfl, rfl, rfl, rfl⟩⟩
  feeRecipient := rfl
  fee := isExactTierFee_of_validate h
  supply := (Machine.validate_amounts h).1

theorem registeredConfig_issued {creator mint dbcConfig dbcPool : Bytes32} {pool : DbcPool}
    {lp : LaunchParams} {amounts : Machine.DerivedAmounts} {launchedAt : Int64}
    (h : Machine.validate lp = .ok amounts) :
    Issued P (registeredConfig P creator mint dbcConfig dbcPool pool lp amounts launchedAt) where
  accepted := Machine.accepted_iff.mpr
    ⟨lp, amounts, h, ⟨rfl, rfl, rfl, rfl, rfl, rfl, rfl, rfl, rfl, rfl⟩⟩
  feeRecipient := rfl
  fee := isExactTierFee_of_validate h
  supply := (Machine.validate_amounts h).1

/-! ## What is behind a record -/

/-- The accounts behind the record of a native launch. -/
structure NativeLaunch (l : Ledger) (c : LaunchConfig) : Prop where
  not_wrapped : c.mint ≠ wrappedSolMint
  mint : (l.accounts (.raw c.mint)).asMint
    = some (launchedMint c.decimals c.totalSupplyBase.toNat)
  tokens : (l.accounts (.launchDestination c.mint)).asToken
    = some (launchedTokens c.mint c.totalSupplyBase.toNat)

/-- The accounts behind the record of a curve. -/
structure CurveLaunch (l : Ledger) (c : LaunchConfig) : Prop where
  mint : ∃ m, (l.accounts (.raw c.mint)).asMint = some m ∧ m.decimals = c.decimals ∧
    m.mintAuthority = none ∧ m.freezeAuthority = none ∧ m.supply ≤ c.totalSupplyBase.toNat
  buffer : ∃ t, (l.accounts (.buffer c.mint)).asToken = some t ∧ Locked .dbcBuffer c.mint t

/-- What is behind a record, of either kind.  A native launch records no pool. -/
def Vouched (l : Ledger) (c : LaunchConfig) : Prop :=
  (c.dbcPool = .zero ∧ NativeLaunch l c) ∨ (c.dbcPool ≠ .zero ∧ CurveLaunch l c)

theorem launchedTokens_locked (mint : Bytes32) (totalSupplyBase : ℕ) :
    Locked (.launchVault mint) mint (launchedTokens mint totalSupplyBase) :=
  ⟨rfl, rfl, rfl, rfl⟩

theorem NativeLaunch.perform {ix : Instruction} {c : LaunchConfig} (h : NativeLaunch l c)
    (hstep : perform P l ix = .ok l') : NativeLaunch l' c :=
  ⟨h.not_wrapped, perform_asMint hstep h.mint, perform_asToken hstep h.tokens⟩

theorem CurveLaunch.perform {ix : Instruction} {c : LaunchConfig} (h : CurveLaunch l c)
    (hstep : perform P l ix = .ok l') : CurveLaunch l' c := by
  obtain ⟨m, hm, hfields⟩ := h.mint
  obtain ⟨t, ht, hlocked⟩ := h.buffer
  exact ⟨⟨m, perform_asMint hstep hm, hfields⟩, t, perform_asToken hstep ht, hlocked⟩

theorem Vouched.perform {ix : Instruction} {c : LaunchConfig} (h : Vouched l c)
    (hstep : perform P l ix = .ok l') : Vouched l' c := by
  rcases h with ⟨hpool, hnative⟩ | ⟨hpool, hcurve⟩
  · exact Or.inl ⟨hpool, hnative.perform hstep⟩
  · exact Or.inr ⟨hpool, hcurve.perform hstep⟩

/-- The tokens of one account are part of the supply. -/
theorem Backed.held_le (h : Backed l) {mint : Bytes32} (hmint : mint ≠ wrappedSolMint)
    (k : Address) : held l mint k ≤ supplyOf l mint := by
  simpa using h.supply mint hmint {k}

/-- **Nothing moves of a native launch**: with the whole supply in its account, there is
nothing to burn. -/
theorem NativeLaunch.environment {c : LaunchConfig} (h : NativeLaunch l c) (hbacked : Backed l)
    (henv : EnvStep l l') : NativeLaunch l' c := by
  obtain ⟨m, hm, hdecimals, hauthority, hfreeze⟩ := henv.mints _ _ h.mint
  obtain ⟨hauthority', hsupply⟩ := hauthority rfl
  obtain ⟨t, ht, ⟨howner, hmint, hdelegate, hclose⟩, hamount⟩ :=
    henv.locked _ (.launchVault c.mint) _ _ trivial h.tokens (launchedTokens_locked ..)
  have hle := (henv.backed hbacked).held_le h.not_wrapped (.launchDestination c.mint)
  simp only [held, supplyOf, ht, hm, hmint, if_true] at hle
  simp only [launchedMint, launchedTokens] at hdecimals hsupply hamount hfreeze
  refine ⟨h.not_wrapped, ?_, ?_⟩
  · rw [hm]
    cases m with
    | mk supply decimals mintAuthority freezeAuthority =>
        simp only [launchedMint, Option.some.injEq, Mint.mk.injEq]
        exact ⟨by simp only at hle hsupply; omega, hdecimals, hauthority', hfreeze trivial⟩
  · rw [ht]
    cases t with
    | mk mint owner amount delegate closeAuthority =>
        simp only [launchedTokens, Option.some.injEq, TokenAccount.mk.injEq]
        exact ⟨hmint, howner, by simp only at hle hsupply hamount; omega, hdelegate, hclose⟩

theorem CurveLaunch.environment {c : LaunchConfig} (h : CurveLaunch l c) (henv : EnvStep l l') :
    CurveLaunch l' c := by
  obtain ⟨m, hm, hdecimals, hauthority, hfreeze, hsupply⟩ := h.mint
  obtain ⟨t, ht, hlocked⟩ := h.buffer
  obtain ⟨m', hm', hdecimals', hauthority', hfreeze'⟩ := henv.mints _ _ hm
  obtain ⟨t', ht', hlocked', -⟩ := henv.locked _ .dbcBuffer _ _ trivial ht hlocked
  obtain ⟨hnone, hle⟩ := hauthority' hauthority
  exact ⟨⟨m', hm', hdecimals'.trans hdecimals, hnone, hfreeze' hfreeze, hle.trans hsupply⟩, t', ht',
    hlocked'⟩

/-! ## The invariant -/

/-- What an account of `hybrid_launch` is: a record at the address of its mint, or zeros
somebody has given it. -/
def OwnedAccount (P : Platform) (k : Address) (data : AccountData) : Prop :=
  (∃ c, k = .launchConfig c.mint ∧ data = .launchConfig c ∧ Issued P c) ∨
    (¬ k.IsDerived ∧ ∃ space, data = .zeros space)

/-- **What holds of every reachable ledger.** -/
structure Sound (P : Platform) (l : Ledger) : Prop where
  owned : ∀ k, (l.accounts k).owner = .hybridLaunch → OwnedAccount P k (l.accounts k).data
  derived : ∀ k, k.IsDerived → (l.accounts k).Dataless ∨ (l.accounts k).owner = .hybridLaunch
  associated : ∀ wallet mint, wallet.IsDerived → AssociatedLocked l wallet mint
  vouched : ∀ c, (l.accounts (.launchConfig c.mint)).asLaunchConfig = some c → Vouched l c
  backed : Backed l
  systemProgram : (l.accounts (.raw .zero)).owner ≠ .dbc

theorem Genesis.sound (h : Genesis l) : Sound P l where
  owned := fun k hk => Or.inr (h.owned k hk)
  derived := fun k hk => Or.inl (h.derived k hk)
  associated := h.associated
  vouched := by
    intro c hc
    rw [(h.derived (.launchConfig c.mint) trivial).asLaunchConfig] at hc
    cases hc
  backed := h.backed
  systemProgram := h.systemProgram

namespace Sound

/-- The address of a record that is not there is free. -/
theorem dataless_of_asLaunchConfig (h : Sound P l) {mint : Bytes32}
    (hnone : (l.accounts (.launchConfig mint)).asLaunchConfig = none) :
    (l.accounts (.launchConfig mint)).Dataless := by
  rcases h.derived (.launchConfig mint) trivial with hfree | hown
  · exact hfree
  · rcases h.owned _ hown with ⟨c, -, hdata, -⟩ | ⟨hderived, -⟩
    · rw [Account.asLaunchConfig_eq_some_iff.mpr ⟨hown, hdata⟩] at hnone
      cases hnone
    · exact absurd trivial hderived

/-- A record is at the address of the mint it names. -/
theorem record (h : Sound P l) {k : Address} {c : LaunchConfig}
    (hc : (l.accounts k).asLaunchConfig = some c) : k = .launchConfig c.mint ∧ Issued P c := by
  obtain ⟨hown, hdata⟩ := Account.asLaunchConfig_eq_some_iff.mp hc
  rcases h.owned k hown with ⟨c', hk, hdata', hissued⟩ | ⟨-, space, hzeros⟩
  · rw [hdata] at hdata'
    cases hdata'
    exact ⟨hk, hissued⟩
  · rw [hdata] at hzeros
    cases hzeros

theorem environment (h : Sound P l) (henv : EnvStep l l') : Sound P l' where
  owned := by
    intro k hk
    by_cases hown : (l.accounts k).owner = .hybridLaunch
    · rw [henv.owned k hown]
      exact h.owned k hown
    · exact Or.inr (henv.given k hown hk)
  derived := by
    intro k hk
    rcases h.derived k hk with hfree | hown
    · exact Or.inl (henv.derived k hk hfree)
    · exact Or.inr (by rw [henv.owned k hown]; exact hown)
  associated := fun wallet mint hw => henv.associated wallet mint hw (h.associated wallet mint hw)
  vouched := by
    intro c hc
    have hold : (l.accounts (.launchConfig c.mint)).asLaunchConfig = some c := by
      by_cases hown : (l.accounts (.launchConfig c.mint)).owner = .hybridLaunch
      · rwa [henv.owned _ hown] at hc
      · have hnew := (Account.asLaunchConfig_eq_some_iff.mp hc).1
        exact absurd trivial (henv.given _ hown hnew).1
    rcases h.vouched c hold with ⟨hpool, hnative⟩ | ⟨hpool, hcurve⟩
    · exact Or.inl ⟨hpool, hnative.environment h.backed henv⟩
    · exact Or.inr ⟨hpool, hcurve.environment henv⟩
  backed := henv.backed h.backed
  systemProgram := by rw [henv.systemProgram]; exact h.systemProgram

end Sound

/-! ## Instructions keep it -/

section Launch

variable {creator mint : Bytes32} {params : LaunchParams} {amounts : Machine.DerivedAmounts}
  (haccounts : l'.accounts = launchedAccounts P l creator mint params amounts)
  (hconfig : (l.accounts (.launchConfig mint)).Dataless)
  (hmint : (l.accounts (.raw mint)).Dataless)
  (hdest : (l.accounts (.launchDestination mint)).Dataless)

include haccounts hconfig hmint in
/-- A launch makes one token account. -/
theorem launched_asToken (k : Address) :
    (l'.accounts k).asToken =
      if k = .launchDestination mint then some (launchedTokens mint amounts.totalSupplyBase.toNat)
      else (l.accounts k).asToken := by
  by_cases hk₁ : k = .launchDestination mint
  · subst hk₁
    simp [haccounts, launchedAccounts, Account.asToken]
  · rw [if_neg hk₁]
    by_cases hk₂ : k = .raw mint
    · subst hk₂
      rw [hmint.asToken]
      simp [haccounts, launchedAccounts, Account.asToken]
    · by_cases hk₃ : k = .launchConfig mint
      · subst hk₃
        rw [hconfig.asToken]
        simp [haccounts, launchedAccounts, Account.asToken]
      · simp [haccounts, launchedAccounts, hk₁, hk₂, hk₃]

include haccounts hconfig hdest in
/-- A launch makes one mint. -/
theorem launched_asMint (k : Address) :
    (l'.accounts k).asMint =
      if k = .raw mint then some (launchedMint params.decimals amounts.totalSupplyBase.toNat)
      else (l.accounts k).asMint := by
  by_cases hk₁ : k = .raw mint
  · subst hk₁
    simp [haccounts, launchedAccounts, Account.asMint]
  · rw [if_neg hk₁]
    by_cases hk₂ : k = .launchDestination mint
    · subst hk₂
      rw [hdest.asMint]
      simp [haccounts, launchedAccounts, Account.asMint]
    · by_cases hk₃ : k = .launchConfig mint
      · subst hk₃
        rw [hconfig.asMint]
        simp [haccounts, launchedAccounts, Account.asMint]
      · simp [haccounts, launchedAccounts, hk₁, hk₂, hk₃]

include haccounts in
/-- A launch writes one record. -/
theorem launched_owner {k : Address} (hk : (l'.accounts k).owner = .hybridLaunch) :
    (k = .launchConfig mint ∧ (l'.accounts k).data
      = .launchConfig (nativeConfig P creator mint params amounts l.unixTimestamp)) ∨
      l'.accounts k = l.accounts k := by
  rw [haccounts] at hk ⊢
  by_cases hk₁ : k = .launchDestination mint
  · subst hk₁
    simp [launchedAccounts] at hk
  · by_cases hk₂ : k = .raw mint
    · subst hk₂
      simp [launchedAccounts] at hk
    · by_cases hk₃ : k = .launchConfig mint
      · subst hk₃
        exact Or.inl ⟨rfl, by simp [launchedAccounts]⟩
      · exact Or.inr (by simp [launchedAccounts, hk₁, hk₂, hk₃])

include haccounts hconfig hmint hdest in
/-- **A launch keeps the books**: its mint had no tokens before, and has now what its
destination holds. -/
theorem Backed.launched (h : Backed l) : Backed l' := by
  have hnone : ∀ k t, (l.accounts k).asToken = some t → t.mint ≠ mint := by
    rintro k t ht rfl
    have hsome := h.mint k t ht
    rw [hmint.asMint] at hsome
    cases hsome
  have htoken := launched_asToken haccounts hconfig hmint
  have hmints := launched_asMint haccounts hconfig hdest
  refine ⟨?_, ?_, ?_⟩
  · intro k t ht
    rw [htoken] at ht
    split at ht
    · obtain rfl := Option.some.inj ht
      show ((l'.accounts (.raw mint)).asMint).isSome
      rw [hmints, if_pos rfl]
      rfl
    · rw [hmints, if_neg fun heq => hnone k t ht (Address.raw.inj heq)]
      exact h.mint k t ht
  · rw [hmints]
    split
    · rfl
    · exact h.native
  · intro mint' hmint' s
    by_cases hsame : mint' = mint
    · subst hsame
      have hheld : ∀ k, held l' mint' k
          = if k = .launchDestination mint' then amounts.totalSupplyBase.toNat else 0 := by
        intro k
        by_cases hk : k = .launchDestination mint'
        · rw [if_pos hk, held_of_asToken ((htoken k).trans (if_pos hk))]
          exact if_pos rfl
        · rw [if_neg hk, held_congr ((htoken k).trans (if_neg hk))]
          unfold held
          split
          · rename_i t ht
            exact if_neg (hnone k t ht)
          · rfl
      rw [Finset.sum_congr rfl fun k _ => hheld k, Finset.sum_ite_eq',
        supplyOf_of_asMint ((hmints _).trans (if_pos rfl))]
      split
      · exact le_rfl
      · exact Nat.zero_le _
    · have hheld : ∀ k, held l' mint' k = held l mint' k := by
        intro k
        by_cases hk : k = .launchDestination mint
        · subst hk
          rw [held_of_asToken ((htoken _).trans (if_pos rfl))]
          unfold held
          rw [hdest.asToken]
          exact if_neg (Ne.symm hsame)
        · exact held_congr ((htoken k).trans (if_neg hk))
      have hkeep := (hmints (.raw mint')).trans (if_neg fun heq => hsame (Address.raw.inj heq))
      rw [Finset.sum_congr rfl fun k _ => hheld k, supplyOf_congr hkeep]
      exact h.supply mint' hmint' s

end Launch

section Register

variable {creator mint dbcConfig dbcPool : Bytes32} {pool : DbcPool} {lp : LaunchParams}
  {amounts : Machine.DerivedAmounts}
  (haccounts : l'.accounts
    = registeredAccounts P l creator mint dbcConfig dbcPool pool lp amounts)
  (hconfig : (l.accounts (.launchConfig mint)).Dataless)

include haccounts hconfig in
/-- A registration makes no mint. -/
theorem registered_asMint (k : Address) : (l'.accounts k).asMint = (l.accounts k).asMint := by
  by_cases hk₁ : k = .buffer mint
  · subst hk₁
    by_cases hfree : (l.accounts (.buffer mint)).Dataless
    · rw [hfree.asMint]
      simp [haccounts, registeredAccounts, bufferAccount, hfree, Account.asMint]
    · simp [haccounts, registeredAccounts, bufferAccount, hfree]
  · by_cases hk₂ : k = .launchConfig mint
    · subst hk₂
      rw [hconfig.asMint]
      simp [haccounts, registeredAccounts, Account.asMint]
    · simp [haccounts, registeredAccounts, hk₁, hk₂]

include haccounts hconfig in
/-- It makes the buffer account, if that is missing. -/
theorem registered_asToken (k : Address) :
    (l'.accounts k).asToken =
      if k = .buffer mint ∧ (l.accounts k).Dataless then some ⟨mint, .dbcBuffer, 0, none, none⟩
      else (l.accounts k).asToken := by
  by_cases hk₁ : k = .buffer mint
  · subst hk₁
    by_cases hfree : (l.accounts (.buffer mint)).Dataless
    · simp [haccounts, registeredAccounts, bufferAccount, hfree, Account.asToken]
    · simp [haccounts, registeredAccounts, bufferAccount, hfree]
  · by_cases hk₂ : k = .launchConfig mint
    · subst hk₂
      rw [hconfig.asToken]
      simp [haccounts, registeredAccounts, Account.asToken]
    · simp [haccounts, registeredAccounts, hk₁, hk₂]

include haccounts in
/-- A registration writes one record. -/
theorem registered_owner {k : Address} (hk : (l'.accounts k).owner = .hybridLaunch) :
    (k = .launchConfig mint ∧ (l'.accounts k).data = .launchConfig
      (registeredConfig P creator mint dbcConfig dbcPool pool lp amounts l.unixTimestamp)) ∨
      l'.accounts k = l.accounts k := by
  rw [haccounts] at hk ⊢
  by_cases hk₁ : k = .buffer mint
  · subst hk₁
    by_cases hfree : (l.accounts (.buffer mint)).Dataless
    · simp [registeredAccounts, bufferAccount, hfree] at hk
    · exact Or.inr (by simp [registeredAccounts, bufferAccount, hfree])
  · by_cases hk₂ : k = .launchConfig mint
    · subst hk₂
      exact Or.inl ⟨rfl, by simp [registeredAccounts]⟩
    · exact Or.inr (by simp [registeredAccounts, hk₁, hk₂])

include haccounts hconfig in
/-- **A registration keeps the books**: it makes no tokens. -/
theorem Backed.registered (h : Backed l) (hmint : ((l.accounts (.raw mint)).asMint).isSome) :
    Backed l' := by
  have htoken := registered_asToken haccounts hconfig
  have hmints := registered_asMint haccounts hconfig
  refine ⟨?_, by rw [hmints]; exact h.native, ?_⟩
  · intro k t ht
    rw [htoken] at ht
    rw [hmints]
    split at ht
    · obtain rfl := Option.some.inj ht
      exact hmint
    · exact h.mint k t ht
  · intro mint' hmint' s
    have hheld : ∀ k, held l' mint' k = held l mint' k := by
      intro k
      by_cases hk : k = .buffer mint ∧ (l.accounts k).Dataless
      · rw [held_of_asToken ((htoken k).trans (if_pos hk))]
        unfold held
        rw [hk.2.asToken]
        exact ite_self 0
      · exact held_congr ((htoken k).trans (if_neg hk))
    rw [Finset.sum_congr rfl fun k _ => hheld k, supplyOf_congr (hmints _)]
    exact h.supply mint' hmint' s

end Register

/-! ## Every run keeps it -/

/-- A record read off an account written by an instruction. -/
theorem eq_of_asLaunchConfig {a : Account} {c c' : LaunchConfig} (h : a.asLaunchConfig = some c)
    (hdata : a.data = .launchConfig c') : c = c' := by
  rw [(Account.asLaunchConfig_eq_some_iff.mp h).2] at hdata
  exact AccountData.launchConfig.inj hdata

namespace Sound

variable {creator mint feeRecipient : Bytes32}

/-- **A launch keeps the invariant.** -/
theorem launch {launchDestination : Address} {params : LaunchParams} (hs : Sound P l)
    (h : handleLaunch P l creator mint launchDestination feeRecipient params = .ok l') :
    Sound P l' := by
  have hstep : perform P l (.launch creator mint launchDestination feeRecipient params)
      = .ok l' := h
  obtain ⟨amounts, hvalidate, ⟨hconfig, hmint, hdest⟩, -, haccounts⟩ := handleLaunch_eq_ok h
  have hother : ∀ k, k ≠ .launchConfig mint → k ≠ .raw mint → k ≠ .launchDestination mint →
      l'.accounts k = l.accounts k := by
    intro k h₁ h₂ h₃
    simp [haccounts, launchedAccounts, h₁, h₂, h₃]
  refine ⟨?_, ?_, ?_, ?_, hs.backed.launched haccounts hconfig hmint hdest, ?_⟩
  · intro k hk
    rcases launched_owner haccounts hk with ⟨rfl, hdata⟩ | hsame
    · exact Or.inl ⟨_, rfl, hdata, nativeConfig_issued hvalidate⟩
    · rw [hsame] at hk ⊢
      exact hs.owned k hk
  · intro k hk
    by_cases hrecord : k = .launchConfig mint
    · subst hrecord
      exact Or.inr (by simp [haccounts, launchedAccounts])
    · rw [hother k hrecord (by rintro rfl; exact hk) (by rintro rfl; exact hk)]
      exact hs.derived k hk
  · intro wallet mint' hwallet
    by_cases hnew : Address.associatedToken wallet mint' = .launchDestination mint
    · cases hnew
      refine Or.inr ⟨launchedTokens mint amounts.totalSupplyBase.toNat, ?_,
        launchedTokens_locked ..⟩
      exact (launched_asToken haccounts hconfig hmint _).trans (if_pos rfl)
    · unfold AssociatedLocked
      rw [hother (.associatedToken wallet mint') (by simp) (by simp) hnew]
      exact hs.associated wallet mint' hwallet
  · intro c hc
    by_cases hsame : c.mint = mint
    · have hdata : (l'.accounts (.launchConfig c.mint)).data
          = .launchConfig (nativeConfig P creator mint params amounts l.unixTimestamp) := by
        rw [hsame]
        simp [haccounts, launchedAccounts]
      obtain rfl := eq_of_asLaunchConfig hc hdata
      refine Or.inl ⟨rfl, ?_, ?_, ?_⟩
      · intro hwrapped
        have hnative := hs.backed.native
        rw [← hwrapped] at hnative
        change ((l.accounts (.raw mint)).asMint).isSome at hnative
        rw [hmint.asMint] at hnative
        cases hnative
      · exact (launched_asMint haccounts hconfig hdest _).trans (if_pos rfl)
      · exact (launched_asToken haccounts hconfig hmint _).trans (if_pos rfl)
    · rw [hother _ (fun heq => hsame (Address.launchConfig.inj heq)) (by simp) (by simp)] at hc
      exact (hs.vouched c hc).perform hstep
  · by_cases hzero : mint = .zero
    · simp [haccounts, launchedAccounts, hzero]
    · rw [hother (.raw .zero) (by simp) (fun heq => hzero (Address.raw.inj heq).symm) (by simp)]
      exact hs.systemProgram

/-- **A registration keeps it.** -/
theorem register {dbcConfig dbcPool : Bytes32} {bufferTokens : Address}
    {params : RegisterDbcParams} (hs : Sound P l)
    (h : handleRegisterDbcLaunch P l creator mint dbcConfig dbcPool bufferTokens feeRecipient params
      = .ok l') : Sound P l' := by
  have hstep : perform P l (.registerDbcLaunch creator mint dbcConfig dbcPool bufferTokens
    feeRecipient params) = .ok l' := h
  obtain ⟨m, pool, cfg, amounts, hreg, hconfig, -, -, haccounts⟩ := handleRegisterDbcLaunch_eq_ok h
  have hother : ∀ k, k ≠ .launchConfig mint → k ≠ .buffer mint →
      l'.accounts k = l.accounts k := by
    intro k h₁ h₂
    simp [haccounts, registeredAccounts, h₁, h₂]
  have hbuffer : ∃ t, (l'.accounts (.buffer mint)).asToken = some t ∧ Locked .dbcBuffer mint t := by
    by_cases hfree : (l.accounts (.buffer mint)).Dataless
    · exact ⟨_, (registered_asToken haccounts hconfig _).trans (if_pos ⟨rfl, hfree⟩),
        ⟨rfl, rfl, rfl, rfl⟩⟩
    · rcases hs.associated .dbcBuffer mint trivial with hfree' | ⟨t, ht, hlocked⟩
      · exact absurd hfree' hfree
      · exact ⟨t, perform_asToken hstep ht, hlocked⟩
  refine ⟨?_, ?_, ?_, ?_, hs.backed.registered haccounts hconfig (by rw [hreg.mint_eq]; rfl), ?_⟩
  · intro k hk
    rcases registered_owner haccounts hk with ⟨rfl, hdata⟩ | hsame
    · exact Or.inl ⟨_, rfl, hdata, registeredConfig_issued hreg.validated⟩
    · rw [hsame] at hk ⊢
      exact hs.owned k hk
  · intro k hk
    by_cases hrecord : k = .launchConfig mint
    · subst hrecord
      exact Or.inr (by simp [haccounts, registeredAccounts])
    · rw [hother k hrecord (by rintro rfl; exact hk)]
      exact hs.derived k hk
  · intro wallet mint' hwallet
    by_cases hnew : Address.associatedToken wallet mint' = .buffer mint
    · cases hnew
      exact Or.inr hbuffer
    · unfold AssociatedLocked
      rw [hother (.associatedToken wallet mint') (by simp) hnew]
      exact hs.associated wallet mint' hwallet
  · intro c hc
    by_cases hsame : c.mint = mint
    · have hdata : (l'.accounts (.launchConfig c.mint)).data = .launchConfig (registeredConfig P
          creator mint dbcConfig dbcPool pool (params.launchParams m cfg) amounts
          l.unixTimestamp) := by
        rw [hsame]
        simp [haccounts, registeredAccounts]
      obtain rfl := eq_of_asLaunchConfig hc hdata
      refine Or.inr ⟨?_, ⟨m, perform_asMint hstep hreg.mint_eq, rfl, hreg.mintAuthority,
        hreg.freezeAuthority, hreg.supply.le⟩, hbuffer⟩
      rintro (hzero : dbcPool = .zero)
      subst hzero
      exact hs.systemProgram (loadPool_eq_some hreg.pool_eq).1
    · rw [hother _ (fun heq => hsame (Address.launchConfig.inj heq)) (by simp)] at hc
      exact (hs.vouched c hc).perform hstep
  · rw [hother (.raw .zero) (by simp) (by simp)]
    exact hs.systemProgram

/-- **What a step does to the invariant**: it keeps it. -/
theorem step {label : Label} (hs : Sound P l) (h : Step P l label l') : Sound P l' := by
  cases h with
  | environment henv => exact hs.environment henv
  | @instruction _ ix h =>
      cases ix with
      | launch => exact hs.launch h
      | registerDbcLaunch => exact hs.register h

theorem run {ls : List Label} (hs : Sound P l) (h : Run (Step P) l ls l') : Sound P l' :=
  h.invariant (fun _ _ _ hx hstep => hx.step hstep) hs

end Sound

theorem History.sound {ls : List Label} (h : History P ls l) : Sound P l := by
  obtain ⟨l₀, hgenesis, hrun⟩ := h
  exact hgenesis.sound.run hrun

end HybridVault.Launchpad
