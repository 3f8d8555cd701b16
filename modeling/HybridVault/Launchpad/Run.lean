import HybridVault.Foundations.Transition
import HybridVault.Launchpad.Register
import Mathlib.Algebra.BigOperators.Group.Finset.Piecewise
import Mathlib.Algebra.Order.BigOperators.Group.Finset

/-!
# Runs of the launch program

A step is one instruction of `hybrid_launch`, by anybody with any accounts, or one move of
the environment (`EnvStep`): every other program and every wallet.

The environment may do what the runtime and the Token program let it do:

* accounts of `hybrid_launch` are written by `hybrid_launch` alone, and what is given to it
  arrives zeroed, never at an address it derives;
* a mint keeps its decimals, an authority that is given up stays given up, and without an
  authority over minting the supply only falls;
* tokens are taken from an account only for its owner, its delegate or its close authority;
* the balances of a mint add up to no more than its supply (`Backed`).

`History P ls l` says that the steps `ls` lead from a chain without a launch to `l`.

Both instructions take free addresses only, so an account that is not free is left alone
(`perform_frame`).  Every fact about what a launch has made then has two parts: it holds
when the accounts are made, and the environment keeps it.
-/

namespace HybridVault.Launchpad

open Foundations

/-! ## Instructions -/

/-- The instructions, with the accounts and arguments their caller is free to choose. -/
inductive Instruction
  | launch (creator mint : Bytes32) (launchDestination : Address) (feeRecipient : Bytes32)
      (params : LaunchParams)
  | registerDbcLaunch (creator mint dbcConfig dbcPool : Bytes32) (bufferTokens : Address)
      (feeRecipient : Bytes32) (params : RegisterDbcParams)

/-- The mint an instruction is about. -/
def Instruction.mint : Instruction → Bytes32
  | .launch _ mint _ _ _ => mint
  | .registerDbcLaunch _ mint _ _ _ _ _ => mint

/-- The entry points of the program. -/
def perform (P : Platform) (l : Ledger) : Instruction → Res Ledger
  | .launch creator mint launchDestination feeRecipient params =>
      handleLaunch P l creator mint launchDestination feeRecipient params
  | .registerDbcLaunch creator mint dbcConfig dbcPool bufferTokens feeRecipient params =>
      handleRegisterDbcLaunch P l creator mint dbcConfig dbcPool bufferTokens feeRecipient params

/-! ## The Token program's books -/

/-- The tokens of a mint an account holds. -/
def held (l : Ledger) (mint : Bytes32) (k : Address) : ℕ :=
  match (l.accounts k).asToken with
  | some t => if t.mint = mint then t.amount else 0
  | none => 0

/-- The supply of a mint. -/
def supplyOf (l : Ledger) (mint : Bytes32) : ℕ :=
  match (l.accounts (.raw mint)).asMint with
  | some m => m.supply
  | none => 0

theorem held_congr {l l' : Ledger} {mint : Bytes32} {k : Address}
    (h : (l'.accounts k).asToken = (l.accounts k).asToken) : held l' mint k = held l mint k := by
  unfold held
  rw [h]

theorem held_of_asToken {l : Ledger} {mint : Bytes32} {k : Address} {t : TokenAccount}
    (h : (l.accounts k).asToken = some t) :
    held l mint k = if t.mint = mint then t.amount else 0 := by
  unfold held
  rw [h]

theorem supplyOf_congr {l l' : Ledger} {mint : Bytes32}
    (h : (l'.accounts (.raw mint)).asMint = (l.accounts (.raw mint)).asMint) :
    supplyOf l' mint = supplyOf l mint := by
  unfold supplyOf
  rw [h]

theorem supplyOf_of_asMint {l : Ledger} {mint : Bytes32} {m : Mint}
    (h : (l.accounts (.raw mint)).asMint = some m) : supplyOf l mint = m.supply := by
  unfold supplyOf
  rw [h]

/-- **What the Token program guarantees of the whole ledger.**  The balances of wrapped SOL
are lamports, so its mint does not count them. -/
structure Backed (l : Ledger) : Prop where
  mint : ∀ k t, (l.accounts k).asToken = some t → ((l.accounts (.raw t.mint)).asMint).isSome
  native : ((l.accounts (.raw wrappedSolMint)).asMint).isSome
  supply : ∀ mint ≠ wrappedSolMint, ∀ s : Finset Address, ∑ k ∈ s, held l mint k ≤ supplyOf l mint

/-- A token account of a wallet that cannot sign, over which nobody else has a say. -/
def Locked (wallet : Address) (mint : Bytes32) (t : TokenAccount) : Prop :=
  t.owner = wallet ∧ t.mint = mint ∧ t.delegate = none ∧ t.closeAuthority = none

/-- The associated token account of a wallet that cannot sign is locked, if there is one. -/
def AssociatedLocked (l : Ledger) (wallet : Address) (mint : Bytes32) : Prop :=
  (l.accounts (.associatedToken wallet mint)).Dataless ∨
    ∃ t, (l.accounts (.associatedToken wallet mint)).asToken = some t ∧ Locked wallet mint t

/-! ## The environment -/

/-- **A move of the environment.** -/
structure EnvStep (l l' : Ledger) : Prop where
  owned : ∀ k, (l.accounts k).owner = .hybridLaunch → l'.accounts k = l.accounts k
  given : ∀ k, (l.accounts k).owner ≠ .hybridLaunch → (l'.accounts k).owner = .hybridLaunch →
    ¬ k.IsDerived ∧ ∃ space, (l'.accounts k).data = .zeros space
  derived : ∀ k, k.IsDerived → (l.accounts k).Dataless → (l'.accounts k).Dataless
  associated : ∀ wallet mint, wallet.IsDerived → AssociatedLocked l wallet mint →
    AssociatedLocked l' wallet mint
  locked : ∀ k wallet mint t, wallet.IsDerived → (l.accounts k).asToken = some t →
    Locked wallet mint t →
    ∃ t', (l'.accounts k).asToken = some t' ∧ Locked wallet mint t' ∧ t.amount ≤ t'.amount
  mints : ∀ mint m, (l.accounts (.raw mint)).asMint = some m →
    ∃ m', (l'.accounts (.raw mint)).asMint = some m' ∧ m'.decimals = m.decimals ∧
      (m.mintAuthority = none → m'.mintAuthority = none ∧ m'.supply ≤ m.supply) ∧
      (m.freezeAuthority = none → m'.freezeAuthority = none)
  backed : Backed l → Backed l'
  systemProgram : l'.accounts (.raw .zero) = l.accounts (.raw .zero)

/-! ## Runs -/

/-- A step of a run. -/
inductive Label
  | instruction (ix : Instruction)
  | environment

inductive Step (P : Platform) : Ledger → Label → Ledger → Prop
  | instruction {l l' : Ledger} {ix : Instruction} (h : perform P l ix = .ok l') :
      Step P l (.instruction ix) l'
  | environment {l l' : Ledger} (h : EnvStep l l') : Step P l .environment l'

/-- The chain before the first launch: what is derived is free, and what has been given to
`hybrid_launch` is zeroed. -/
structure Genesis (l : Ledger) : Prop where
  owned : ∀ k, (l.accounts k).owner = .hybridLaunch →
    ¬ k.IsDerived ∧ ∃ space, (l.accounts k).data = .zeros space
  derived : ∀ k, k.IsDerived → (l.accounts k).Dataless
  associated : ∀ wallet mint, wallet.IsDerived → AssociatedLocked l wallet mint
  backed : Backed l
  systemProgram : (l.accounts (.raw .zero)).owner ≠ .dbc

/-- **The steps `ls` lead from a chain without a launch to `l`.** -/
def History (P : Platform) (ls : List Label) (l : Ledger) : Prop :=
  ∃ l₀, Genesis l₀ ∧ Run (Step P) l₀ ls l

namespace History

variable {P : Platform} {ls ls' : List Label} {l l' : Ledger}

theorem run (h : History P ls l) (h' : Run (Step P) l ls' l') : History P (ls ++ ls') l' := by
  obtain ⟨l₀, hgenesis, hrun⟩ := h
  exact ⟨l₀, hgenesis, hrun.append h'⟩

end History

/-! ## What an instruction leaves alone -/

variable {P : Platform} {l l' : Ledger} {ix : Instruction}

/-- **An account that is not free is left alone.** -/
theorem perform_frame (h : perform P l ix = .ok l') {k : Address}
    (hk : ¬ (l.accounts k).Dataless) : l'.accounts k = l.accounts k := by
  cases ix with
  | launch creator mint launchDestination feeRecipient params =>
      obtain ⟨amounts, -, ⟨hconfig, hmint, hdest⟩, -, haccounts⟩ := handleLaunch_eq_ok h
      have hne₁ : k ≠ .launchConfig mint := by
        rintro rfl
        exact hk hconfig
      have hne₂ : k ≠ .raw mint := by
        rintro rfl
        exact hk hmint
      have hne₃ : k ≠ .launchDestination mint := by
        rintro rfl
        exact hk hdest
      rw [haccounts, launchedAccounts, Function.update_of_ne hne₃, Function.update_of_ne hne₂,
        Function.update_of_ne hne₁]
  | registerDbcLaunch creator mint dbcConfig dbcPool bufferTokens feeRecipient params =>
      obtain ⟨m, pool, cfg, amounts, -, hconfig, -, -, haccounts⟩ :=
        handleRegisterDbcLaunch_eq_ok h
      have hne : k ≠ .launchConfig mint := by
        rintro rfl
        exact hk hconfig
      rw [haccounts, registeredAccounts]
      by_cases hbuffer : k = .buffer mint
      · subst hbuffer
        rw [Function.update_self, bufferAccount, if_neg hk]
      · rw [Function.update_of_ne hbuffer, Function.update_of_ne hne]

theorem perform_asMint (h : perform P l ix = .ok l') {k : Address} {m : Mint}
    (hk : (l.accounts k).asMint = some m) : (l'.accounts k).asMint = some m := by
  rwa [perform_frame h]
  intro hfree
  rw [hfree.asMint] at hk
  cases hk

theorem perform_asToken (h : perform P l ix = .ok l') {k : Address} {t : TokenAccount}
    (hk : (l.accounts k).asToken = some t) : (l'.accounts k).asToken = some t := by
  rwa [perform_frame h]
  intro hfree
  rw [hfree.asToken] at hk
  cases hk

end HybridVault.Launchpad
