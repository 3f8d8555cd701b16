import HybridVault.Foundations.Containers
import HybridVault.Validation
import Mathlib.Logic.Function.Basic
import Mathlib.Tactic.Simps.Basic

/-!
# The accounts a launch touches

`hybrid_launch` creates accounts and has the Token program fill them.  An account here is
what the runtime keeps of one, and its data is typed: a mint, a token account, a launch
configuration, or bytes.  Lamports are kept beside the accounts, since the System program
moves them without looking at what it credits.

* `Address` — raw keys, and the addresses that are derived: those of `hybrid_launch`, and
  the associated token account of a wallet.  Derived addresses are symbolic, as the vault's
  are.
* `Platform` — what the program is compiled with and runs against.
* `Ledger` — the accounts, with the calls of the System, Token and Associated Token programs
  that a launch makes.  Each is a function that fails where the call does.
-/

namespace HybridVault.Launchpad

open Foundations

/-! ## Addresses -/

/-- Account addresses.  What is derived from a launch configuration is given the mint that
the configuration's own address is derived from. -/
inductive Address
  | raw (key : Bytes32)
  /-- `["launch_config", mint]` -/
  | launchConfig (mint : Bytes32)
  /-- `["mint_authority", launch_config]` -/
  | mintAuthority (mint : Bytes32)
  /-- `["launch_vault", mint, launch_config]` -/
  | launchVault (mint : Bytes32)
  /-- `["dbc_buffer"]` -/
  | dbcBuffer
  /-- `get_associated_token_address_with_program_id(wallet, mint, token)` -/
  | associatedToken (wallet : Address) (mint : Bytes32)
deriving DecidableEq

/-- The addresses that only `hybrid_launch` can sign for. -/
def Address.IsDerived : Address → Prop
  | .launchConfig _ => True
  | .mintAuthority _ => True
  | .launchVault _ => True
  | .dbcBuffer => True
  | _ => False

/-- What the program is compiled with, and the code and the sysvars it relies on. -/
structure Platform where
  /-- `PLATFORM_FEE_RECIPIENT`. -/
  feeRecipient : Bytes32
  /-- `APPROVED_DBC_CONFIGS`. -/
  approvedDbcConfigs : List Bytes32
  /-- The bytes of a derived address. -/
  derivedKey : Address → Bytes32
  /-- The canonical bump of a derived address. -/
  bump : Address → UInt8
  /-- `Rent::minimum_balance`. -/
  minimumBalance : ℕ → ℕ

/-- The 32 bytes of an address. -/
def Platform.key (P : Platform) : Address → Bytes32
  | .raw key => key
  | k => P.derivedKey k

/-! ## Faults -/

/-- The errors of `hybrid_launch` that its handlers raise beside those of `validate`. -/
inductive HandlerError
  | InvalidLaunchDestination
  | PostLaunchCheckFailed
  | MintAccountInUse
  | MintCostConstantStale
  | FeeRecipientInvalid
  | DbcAccountInvalid
  | DbcConfigRejected
  | DbcMintRejected
  | DbcCreatorMismatch
  | DbcAlreadyGraduated
  | DbcConfigNotApproved
  | FeeNotTier
deriving DecidableEq, Repr

/-- Why an instruction fails. -/
inductive Fault
  | params (e : Machine.LaunchFault)
  | launch (e : HandlerError)
  /-- An account is not what its type says. -/
  | anchor
  | system
  | token
  | associatedToken
  /-- A slice index or an `unwrap` failed. -/
  | panic
deriving DecidableEq, Repr

abbrev Res (α : Type) := Except Fault α

/-- `require!`: fail with an error of the program. -/
abbrev check (p : Prop) [Decidable p] (e : HandlerError) : Res Unit := require p (.launch e)

/-! ## Accounts -/

/-- A classic SPL mint. -/
structure Mint where
  supply : ℕ
  decimals : UInt8
  mintAuthority : Option Address
  freezeAuthority : Option Address
deriving DecidableEq

/-- A classic SPL token account. -/
structure TokenAccount where
  mint : Bytes32
  owner : Address
  amount : ℕ
  delegate : Option Address
  closeAuthority : Option Address
deriving DecidableEq

/-- What the data of an account is. -/
inductive AccountData
  | bytes (data : Bytes)
  | mint (mint : Mint)
  | token (account : TokenAccount)
  | launchConfig (config : LaunchConfig)
deriving DecidableEq

/-- Data of zeros, as the System program allocates it. -/
def AccountData.zeros (space : ℕ) : AccountData := .bytes (List.replicate space 0)

structure Account where
  owner : ProgramId
  executable : Bool
  data : AccountData
deriving DecidableEq

namespace Account

/-- A system-owned account without data, or none at all. -/
def Dataless (a : Account) : Prop := a.owner = .system ∧ a.data = .bytes []

instance (a : Account) : Decidable a.Dataless := inferInstanceAs (Decidable (_ ∧ _))

/-- `Account<Mint>`. -/
def asMint (a : Account) : Option Mint :=
  match a.data with
  | .mint m => if a.owner = .token then some m else none
  | _ => none

/-- `Account<TokenAccount>`. -/
def asToken (a : Account) : Option TokenAccount :=
  match a.data with
  | .token t => if a.owner = .token then some t else none
  | _ => none

/-- `Account<LaunchConfig>`. -/
def asLaunchConfig (a : Account) : Option LaunchConfig :=
  match a.data with
  | .launchConfig c => if a.owner = .hybridLaunch then some c else none
  | _ => none

/-- What becomes of it when it is made for a program. -/
def created (a : Account) (program : ProgramId) (space : ℕ) : Account :=
  { a with owner := program, data := .zeros space }

theorem asLaunchConfig_eq_some_iff {a : Account} {c : LaunchConfig} :
    a.asLaunchConfig = some c ↔ a.owner = .hybridLaunch ∧ a.data = .launchConfig c := by
  unfold asLaunchConfig
  cases a.data <;> simp

theorem Dataless.asMint {a : Account} (h : a.Dataless) : a.asMint = none := by
  simp [Account.asMint, h.2]

theorem Dataless.asToken {a : Account} (h : a.Dataless) : a.asToken = none := by
  simp [Account.asToken, h.2]

theorem Dataless.asLaunchConfig {a : Account} (h : a.Dataless) : a.asLaunchConfig = none := by
  simp [Account.asLaunchConfig, h.2]

end Account

/-- The chain, as far as a launch sees it. -/
@[ext]
structure Ledger where
  unixTimestamp : Int64
  accounts : Address → Account
  lamports : Address → ℕ

namespace Ledger

/-- Write one account. -/
@[simps]
def write (l : Ledger) (k : Address) (a : Account) : Ledger where
  unixTimestamp := l.unixTimestamp
  accounts := Function.update l.accounts k a
  lamports := l.lamports

/-! ## System -/

/-- `system_program::transfer`. -/
def systemTransfer (l : Ledger) (source dest : Address) (lamports : ℕ) : Res Ledger := do
  require ((l.accounts source).Dataless ∧ lamports ≤ l.lamports source) .system
  return { l with lamports := moveAmount l.lamports source dest lamports }

/-- `system_program::allocate`. -/
def systemAllocate (l : Ledger) (k : Address) (space : ℕ) : Res Ledger := do
  require (l.accounts k).Dataless .system
  return l.write k { l.accounts k with data := .zeros space }

/-- `system_program::assign`. -/
def systemAssign (l : Ledger) (k : Address) (program : ProgramId) : Res Ledger := do
  require ((l.accounts k).owner = .system) .system
  return l.write k { l.accounts k with owner := program }

/-- `system_program::create_account`. -/
def systemCreateAccount (l : Ledger) (payer k : Address) (lamports space : ℕ)
    (program : ProgramId) : Res Ledger := do
  require (l.lamports k = 0) .system
  let l ← l.systemAllocate k space
  let l ← l.systemAssign k program
  l.systemTransfer payer k lamports

/-- Transfer what an account lacks of `lamports`, if anything. -/
def topUp (l : Ledger) (payer k : Address) (lamports : ℕ) : Res Ledger :=
  if 0 < lamports - l.lamports k then l.systemTransfer payer k (lamports - l.lamports k)
  else return l

/-- How Anchor's `init` and the Associated Token program create an account: an address that
holds lamports already is topped up. -/
def createOrTopUp (l : Ledger) (payer k : Address) (lamports space : ℕ) (program : ProgramId) :
    Res Ledger :=
  if l.lamports k = 0 then
    l.systemCreateAccount payer k lamports space program
  else do
    let l ← l.topUp payer k lamports
    let l ← l.systemAllocate k space
    l.systemAssign k program

/-! ## Token -/

/-- `token::initialize_mint2`. -/
def initializeMint2 (P : Platform) (l : Ledger) (mint : Bytes32) (decimals : UInt8)
    (mintAuthority : Address) (freezeAuthority : Option Address) : Res Ledger := do
  let a := l.accounts (.raw mint)
  require (a.owner = .token ∧ a.data = .zeros 82 ∧ P.minimumBalance 82 ≤ l.lamports (.raw mint))
    .token
  return l.write (.raw mint) { a with data := .mint {
    supply := 0
    decimals := decimals
    mintAuthority := some mintAuthority
    freezeAuthority := freezeAuthority } }

/-- `token::mint_to`, signed by `authority`. -/
def mintTo (l : Ledger) (mint : Bytes32) (dest authority : Address) (amount : ℕ) :
    Res Ledger := do
  let m ← expect (l.accounts (.raw mint)).asMint .token
  let t ← expect (l.accounts dest).asToken .token
  require (t.mint = mint ∧ m.mintAuthority = some authority ∧ m.supply + amount < u64Size ∧
    t.amount + amount < u64Size) .token
  let l := l.write dest
    { l.accounts dest with data := .token { t with amount := t.amount + amount } }
  return l.write (.raw mint)
    { l.accounts (.raw mint) with data := .mint { m with supply := m.supply + amount } }

/-- `token::set_authority` of the authority over minting, signed by `current`. -/
def setMintAuthority (l : Ledger) (mint : Bytes32) (current : Address) (new : Option Address) :
    Res Ledger := do
  let m ← expect (l.accounts (.raw mint)).asMint .token
  require (m.mintAuthority = some current) .token
  return l.write (.raw mint)
    { l.accounts (.raw mint) with data := .mint { m with mintAuthority := new } }

/-! ## Associated Token -/

/-- `associated_token::create`. -/
def associatedTokenCreate (P : Platform) (l : Ledger) (payer associated wallet : Address)
    (mint : Bytes32) : Res Ledger := do
  require (associated = .associatedToken wallet mint) .associatedToken
  require ((l.accounts associated).owner = .system) .associatedToken
  let _ ← expect (l.accounts (.raw mint)).asMint .token
  let l ← l.createOrTopUp payer associated (max (P.minimumBalance 165) 1) 165 .token
  return l.write associated { l.accounts associated with data := .token {
    mint := mint
    owner := wallet
    amount := 0
    delegate := none
    closeAuthority := none } }

/-- `associated_token::create_idempotent`: an account that is there already will do, if it
is the wallet's. -/
def associatedTokenCreateIdempotent (P : Platform) (l : Ledger)
    (payer associated wallet : Address) (mint : Bytes32) : Res Ledger := do
  require (associated = .associatedToken wallet mint) .associatedToken
  match (l.accounts associated).asToken with
  | some t => do
      require (t.owner = wallet ∧ t.mint = mint) .associatedToken
      return l
  | none => l.associatedTokenCreate P payer associated wallet mint

/-! ## What the calls do

One lemma a call.  Of the calls that create an account there are two: what they have done
if they succeed, and when they do. -/

section Create

variable {l l' : Ledger} {payer k : Address} {lamports space : ℕ} {program : ProgramId}

/-- The ledger after `createOrTopUp`. -/
@[simps]
def created (l : Ledger) (payer k : Address) (lamports space : ℕ) (program : ProgramId) :
    Ledger where
  unixTimestamp := l.unixTimestamp
  accounts := Function.update l.accounts k ((l.accounts k).created program space)
  lamports := moveAmount l.lamports payer k (lamports - l.lamports k)

theorem topUp_eq_ok (h : l.topUp payer k lamports = .ok l') :
    l' = { l with lamports := moveAmount l.lamports payer k (lamports - l.lamports k) } := by
  unfold topUp at h
  split at h
  · simp only [systemTransfer, bind_eq_ok_iff, require_eq_ok_iff, pure_eq_ok_iff] at h
    obtain ⟨-, -, rfl⟩ := h
    rfl
  · rename_i hpos
    obtain rfl := pure_eq_ok_iff.mp h
    rw [Nat.eq_zero_of_not_pos hpos, moveAmount_zero]

theorem topUp_of_dataless (hpayer : (l.accounts payer).Dataless)
    (hlamports : lamports - l.lamports k ≤ l.lamports payer) :
    l.topUp payer k lamports
      = .ok { l with lamports := moveAmount l.lamports payer k (lamports - l.lamports k) } := by
  unfold topUp
  split
  · simp only [systemTransfer, bind_eq_ok_iff, require_eq_ok_iff, pure_eq_ok_iff]
    exact ⟨(), ⟨hpayer, hlamports⟩, trivial⟩
  · rename_i hpos
    rw [Nat.eq_zero_of_not_pos hpos, moveAmount_zero]
    rfl

/-- Only an address that is free is taken, and nothing else is written. -/
theorem createOrTopUp_eq_ok (h : l.createOrTopUp payer k lamports space program = .ok l') :
    (l.accounts k).Dataless ∧ l' = l.created payer k lamports space program := by
  unfold createOrTopUp at h
  split at h
  · rename_i hzero
    simp only [systemCreateAccount, systemAllocate, systemAssign, systemTransfer, bind_eq_ok_iff,
      require_eq_ok_iff, pure_eq_ok_iff] at h
    obtain ⟨-, -, _, ⟨-, hfree, rfl⟩, _, ⟨-, -, rfl⟩, -, -, rfl⟩ := h
    exact ⟨hfree, by simp [created, write, Account.created, hzero]⟩
  · simp only [systemAllocate, systemAssign, bind_eq_ok_iff, require_eq_ok_iff,
      pure_eq_ok_iff] at h
    obtain ⟨l₁, htopUp, _, ⟨-, hfree, rfl⟩, -, -, rfl⟩ := h
    obtain rfl := topUp_eq_ok htopUp
    exact ⟨hfree, by simp [created, write, Account.created]⟩

/-- A free address is taken whatever lamports it holds, if the payer can make up for what
is missing. -/
theorem createOrTopUp_of_dataless (hk : (l.accounts k).Dataless)
    (hpayer : (l.accounts payer).Dataless) (hne : payer ≠ k)
    (hlamports : lamports - l.lamports k ≤ l.lamports payer) :
    l.createOrTopUp payer k lamports space program
      = .ok (l.created payer k lamports space program) := by
  unfold createOrTopUp
  split
  · rename_i hzero
    simp only [systemCreateAccount, systemAllocate, systemAssign, systemTransfer, bind_eq_ok_iff,
      require_eq_ok_iff, pure_eq_ok_iff]
    refine ⟨(), hzero, _, ⟨(), hk, rfl⟩, _, ⟨(), by simp [hk.1], rfl⟩, (), ?_, ?_⟩
    · simp only [write_accounts, write_lamports, Function.update_of_ne hne]
      exact ⟨hpayer, by simpa [hzero] using hlamports⟩
    · simp [created, write, hzero, Account.created]
  · simp only [systemAllocate, systemAssign, bind_eq_ok_iff, require_eq_ok_iff, pure_eq_ok_iff]
    exact ⟨_, topUp_of_dataless hpayer hlamports, _, ⟨(), hk, rfl⟩, (), by simp [hk.1],
      by simp [created, write, Account.created]⟩

/-- What a created account has cost, and whom. -/
structure CreatedFor (l : Ledger) (payer k : Address) (lamports space : ℕ) (program : ProgramId)
    (l' : Ledger) : Prop where
  accounts : l'.accounts = Function.update l.accounts k ((l.accounts k).created program space)
  paid : l'.lamports payer = l.lamports payer - (lamports - l.lamports k)
  funded : lamports ≤ l'.lamports k
  others : ∀ j, j ≠ payer → j ≠ k → l'.lamports j = l.lamports j

theorem created_createdFor (hne : payer ≠ k) :
    CreatedFor l payer k lamports space program (l.created payer k lamports space program) where
  accounts := rfl
  paid := moveAmount_source hne
  funded := by
    have hdest : (l.created payer k lamports space program).lamports k
        = l.lamports k + (lamports - l.lamports k) := moveAmount_dest hne
    omega
  others := fun _ hpayer hk => moveAmount_of_ne hpayer hk

theorem CreatedFor.accounts_of_ne (h : CreatedFor l payer k lamports space program l')
    (j : Address) (hj : j ≠ k) : l'.accounts j = l.accounts j := by
  rw [h.accounts, Function.update_of_ne hj]

end Create

section Token

variable {P : Platform} {l l' : Ledger} {mint : Bytes32} {decimals : UInt8} {dest authority payer
  associated wallet : Address} {new freezeAuthority : Option Address} {amount : ℕ}

theorem initializeMint2_eq_ok_iff :
    l.initializeMint2 P mint decimals authority freezeAuthority = .ok l' ↔
      ((l.accounts (.raw mint)).owner = .token ∧ (l.accounts (.raw mint)).data = .zeros 82 ∧
        P.minimumBalance 82 ≤ l.lamports (.raw mint)) ∧
      l.write (.raw mint) { l.accounts (.raw mint) with
        data := .mint ⟨0, decimals, some authority, freezeAuthority⟩ } = l' := by
  simp [initializeMint2]

theorem mintTo_eq_ok_iff :
    l.mintTo mint dest authority amount = .ok l' ↔
      ∃ m t, (l.accounts (.raw mint)).asMint = some m ∧ (l.accounts dest).asToken = some t ∧
        (t.mint = mint ∧ m.mintAuthority = some authority ∧ m.supply + amount < u64Size ∧
          t.amount + amount < u64Size) ∧
        (l.write dest { l.accounts dest with
          data := .token { t with amount := t.amount + amount } }).write (.raw mint)
            { (l.write dest { l.accounts dest with
              data := .token { t with amount := t.amount + amount } }).accounts (.raw mint) with
              data := .mint { m with supply := m.supply + amount } } = l' := by
  simp [mintTo]

theorem setMintAuthority_eq_ok_iff :
    l.setMintAuthority mint authority new = .ok l' ↔
      ∃ m, (l.accounts (.raw mint)).asMint = some m ∧ m.mintAuthority = some authority ∧
        l.write (.raw mint) { l.accounts (.raw mint) with
          data := .mint { m with mintAuthority := new } } = l' := by
  simp [setMintAuthority]

/-- The ledger after `associatedTokenCreate`. -/
def associatedTokenCreated (P : Platform) (l : Ledger) (payer wallet : Address) (mint : Bytes32) :
    Ledger :=
  (l.created payer (.associatedToken wallet mint) (max (P.minimumBalance 165) 1) 165 .token).write
    (.associatedToken wallet mint)
    { l.accounts (.associatedToken wallet mint) with
      owner := .token
      data := .token ⟨mint, wallet, 0, none, none⟩ }

theorem associatedTokenCreate_eq_ok
    (h : l.associatedTokenCreate P payer associated wallet mint = .ok l') :
    associated = .associatedToken wallet mint ∧
      (l.accounts (.associatedToken wallet mint)).Dataless ∧
      l' = l.associatedTokenCreated P payer wallet mint := by
  simp only [associatedTokenCreate, bind_eq_ok_iff, require_eq_ok_iff, pure_eq_ok_iff] at h
  obtain ⟨-, rfl, -, -, m, -, l₁, hcreate, rfl⟩ := h
  obtain ⟨hfree, rfl⟩ := createOrTopUp_eq_ok hcreate
  exact ⟨rfl, hfree, by simp [associatedTokenCreated, Account.created]⟩

theorem associatedTokenCreate_of_dataless
    (hfree : (l.accounts (.associatedToken wallet mint)).Dataless)
    (hmint : (l.accounts (.raw mint)).asMint.isSome) (hpayer : (l.accounts payer).Dataless)
    (hne : payer ≠ .associatedToken wallet mint)
    (hlamports : max (P.minimumBalance 165) 1 - l.lamports (.associatedToken wallet mint)
      ≤ l.lamports payer) :
    l.associatedTokenCreate P payer (.associatedToken wallet mint) wallet mint
      = .ok (l.associatedTokenCreated P payer wallet mint) := by
  obtain ⟨m, hm⟩ := Option.isSome_iff_exists.mp hmint
  simp only [associatedTokenCreate, bind_eq_ok_iff, require_eq_ok_iff, pure_eq_ok_iff,
    expect_eq_ok_iff]
  exact ⟨(), trivial, (), hfree.1, m, hm, _, createOrTopUp_of_dataless hfree hpayer hne hlamports,
    by simp [associatedTokenCreated, Account.created]⟩

/-- The associated token account of a wallet is there, or its address is free. -/
def AssociatedReady (l : Ledger) (wallet : Address) (mint : Bytes32) : Prop :=
  (∃ t, (l.accounts (.associatedToken wallet mint)).asToken = some t ∧ t.owner = wallet ∧
    t.mint = mint) ∨ (l.accounts (.associatedToken wallet mint)).Dataless

theorem associatedTokenCreateIdempotent_eq_ok
    (h : l.associatedTokenCreateIdempotent P payer associated wallet mint = .ok l') :
    associated = .associatedToken wallet mint ∧ l.AssociatedReady wallet mint ∧
      l' = if (l.accounts (.associatedToken wallet mint)).Dataless
        then l.associatedTokenCreated P payer wallet mint else l := by
  simp only [associatedTokenCreateIdempotent, bind_eq_ok_iff, require_eq_ok_iff] at h
  obtain ⟨-, rfl, h⟩ := h
  cases ht : (l.accounts (.associatedToken wallet mint)).asToken with
  | some t =>
      simp only [ht, bind_eq_ok_iff, require_eq_ok_iff, pure_eq_ok_iff] at h
      obtain ⟨-, hown, rfl⟩ := h
      refine ⟨rfl, Or.inl ⟨t, ht, hown⟩, ?_⟩
      rw [if_neg]
      intro hfree
      rw [hfree.asToken] at ht
      cases ht
  | none =>
      simp only [ht] at h
      obtain ⟨-, hfree, rfl⟩ := associatedTokenCreate_eq_ok h
      exact ⟨rfl, Or.inr hfree, by rw [if_pos hfree]⟩

theorem associatedTokenCreateIdempotent_of_ready (hready : l.AssociatedReady wallet mint)
    (hmint : (l.accounts (.raw mint)).asMint.isSome) (hpayer : (l.accounts payer).Dataless)
    (hne : payer ≠ .associatedToken wallet mint)
    (hlamports : (l.accounts (.associatedToken wallet mint)).Dataless →
      max (P.minimumBalance 165) 1 - l.lamports (.associatedToken wallet mint)
        ≤ l.lamports payer) :
    ∃ l', l.associatedTokenCreateIdempotent P payer (.associatedToken wallet mint) wallet mint
      = .ok l' := by
  simp only [associatedTokenCreateIdempotent, exists_bind_eq_ok_iff, require_eq_ok_iff]
  refine ⟨(), trivial, ?_⟩
  rcases hready with ⟨t, ht, hown⟩ | hfree
  · simp only [ht, exists_bind_eq_ok_iff, require_eq_ok_iff]
    exact ⟨(), hown, l, rfl⟩
  · simp only [hfree.asToken]
    exact ⟨_, associatedTokenCreate_of_dataless hfree hmint hpayer hne (hlamports hfree)⟩

end Token

end Ledger

end HybridVault.Launchpad
