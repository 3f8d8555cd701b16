import HybridVault.Instructions.Expire
import HybridVault.Instructions.Lifecycle
import HybridVault.Instructions.Release
import HybridVault.Foundations.Transition

/-!
# Runs of a vault

A vault lives among programs and wallets that act between its instructions.  A step
is one instruction of the vault program, by any caller with any accounts, or one
move of the environment (`EnvStep`).

The environment is everything else on the chain: other vaults, other programs, all
wallets.  It may do what their code lets it do, and no more:

* accounts of this vault are written by the vault program only, and its derived
  addresses cannot be created by anyone else;
* Switchboard changes a randomness account only for its authority;
* Core moves or burns an asset only for its owner, and mints into a collection only
  for the collection's authority;
* the Token program takes tokens from `vault_tokens` only for its owner, while
  anyone may send tokens in;
* slots do not decrease, and their numbers stay in 64 bits.

All else — the clock, the oracle and queue accounts, other token accounts, lamports
of wallets — it changes at will.

`History D ls w` says that the steps `ls` lead from the creation of the vault to
`w`.
-/

namespace HybridVault

open Foundations

/-! ## Instructions -/

/-- The instructions of a vault, with the accounts and arguments their caller is free
to choose. -/
inductive Instruction
  | initRandomness (randomness : Pubkey)
  | openVault (caller graduationProof : Pubkey)
  | requestCapture (user userToken randomness queue oracle : Pubkey) (staleProofs : List Pubkey)
  | requestReroll (user randomness queue oracle : Pubkey) (index : ℕ) (staleProofs : List Pubkey)
  | revealRandomness (request randomness : Pubkey) (value : Bytes32)
  | recommitRandomness (request randomness queue oracle : Pubkey) (staleProofs : List Pubkey)
  | settleCapture (settler request randomness asset user : Pubkey) (mint : Option MintArgs)
  | settleReroll (settler request randomness asset user : Pubkey) (mint : Option MintArgs)
  | unwrap (user userToken : Pubkey) (index : ℕ)
  | expireRequest (caller request randomness user userToken asset : Pubkey)
  | expireRequests (caller : Pubkey) (remaining : List Pubkey) (count : ℕ)
  | mergeIncoming (max : ℕ)

/-- The entry points of the program. -/
def perform (D : Deployment) (w : World) : Instruction → Res (World × List PoolEvent)
  | .initRandomness randomness => handleInitRandomness D w randomness
  | .openVault caller graduationProof => handleOpenVault D w caller graduationProof
  | .requestCapture user userToken randomness queue oracle staleProofs =>
      handleRequestCapture D w user userToken randomness queue oracle staleProofs
  | .requestReroll user randomness queue oracle index staleProofs =>
      handleRequestReroll D w user randomness queue oracle index staleProofs
  | .revealRandomness request randomness value =>
      handleRevealRandomness D w request randomness value
  | .recommitRandomness request randomness queue oracle staleProofs =>
      handleRecommitRandomness D w request randomness queue oracle staleProofs
  | .settleCapture settler request randomness asset user mint =>
      handleSettle D w settler request randomness asset user .capture mint
  | .settleReroll settler request randomness asset user mint =>
      handleSettle D w settler request randomness asset user .reroll mint
  | .unwrap user userToken index => handleUnwrap D w user userToken index
  | .expireRequest caller request randomness user userToken asset =>
      handleExpire D w caller request randomness user userToken asset
  | .expireRequests caller remaining count => handleExpireBatch D w caller remaining count
  | .mergeIncoming max => handleMergeIncoming D w max

/-! ## The environment -/

/-- An address that only the vault program can create something at. -/
def Deployment.Owns (D : Deployment) (k : Pubkey) : Prop :=
  (∃ i, k = D.assetAddress i) ∨ ∃ seq, k = D.mintEscrowAddress seq

/-- What may become of what is at an asset's address without the vault: an asset that
the vault does not hold may change hands or be burned. -/
inductive AssetMove (D : Deployment) : AssetAccount → AssetAccount → Prop
  | keep (s : AssetAccount) : AssetMove D s s
  | transfer {a : BaseAsset} (newOwner : Pubkey) (h : a.owner ≠ D.vaultAuthority) :
      AssetMove D (.live a) (.live { a with owner := newOwner })
  | burn {a : BaseAsset} (h : a.owner ≠ D.vaultAuthority) : AssetMove D (.live a) .burned

/-- **A move of the environment** that sends `donated` tokens to `vault_tokens`. -/
structure EnvStep (D : Deployment) (donated : ℕ) (w w' : World) : Prop where
  slot : w.slot ≤ w'.slot
  slot_lt : w'.slot < u64Size
  vault : w'.vault = w.vault
  pool : w'.pool = w.pool
  requests : ∀ k r, r.vault = D.vault → (w'.requests k = some r ↔ w.requests k = some r)
  request_addresses : ∀ seq, w'.requests (D.requestAddress seq) = w.requests (D.requestAddress seq)
  randLocks : ∀ k l, l.vault = D.vault → (w'.randLocks k = some l ↔ w.randLocks k = some l)
  randomness : ∀ k s, s.authority = D.randomnessAuthority →
    (w'.randomness k = some s ↔ w.randomness k = some s)
  assets : ∀ k, D.Owns k → AssetMove D (w.assets k) (w'.assets k)
  accounts : ∀ k, D.Owns k → w'.accounts k = w.accounts k
  collection : ∀ col, w.collection = some col →
    ∃ n ≤ col.currentSize, w'.collection = some { col with currentSize := n }
  vaultTokens : w'.tokens D.vaultTokens
    = (w.tokens D.vaultTokens).map fun t => { t with amount := t.amount + donated }
  escrows : ∀ seq, w.lamports (D.mintEscrowAddress seq) ≤ w'.lamports (D.mintEscrowAddress seq)

/-- A move of the clock and of accounts that are not the vault's. -/
theorem EnvStep.of_accounts {D : Deployment} {w : World} {slot : ℕ} {accounts : Pubkey → RawAccount}
    (hslot : w.slot ≤ slot) (hlt : slot < u64Size)
    (haccounts : ∀ k, D.Owns k → accounts k = w.accounts k) :
    EnvStep D 0 w ⟨{ w.toChain with slot := slot, accounts := accounts }, w.vault⟩ where
  slot := hslot
  slot_lt := hlt
  vault := rfl
  pool := rfl
  requests := fun _ _ _ => Iff.rfl
  request_addresses := fun _ => rfl
  randLocks := fun _ _ _ => Iff.rfl
  randomness := fun _ _ _ => Iff.rfl
  assets := fun k _ => .keep _
  accounts := haccounts
  collection := fun col hcol => ⟨col.currentSize, le_rfl, hcol⟩
  vaultTokens := by simp
  escrows := fun _ => le_rfl

/-! ## Runs -/

/-- A step of a run: an instruction with what it shows, or a move of the
environment. -/
inductive Label
  | instruction (ix : Instruction) (events : List PoolEvent)
  | environment (donated : ℕ)

inductive Step (D : Deployment) : World → Label → World → Prop
  | instruction {w w' : World} {ix : Instruction} {events : List PoolEvent}
      (h : perform D w ix = .ok (w', events)) : Step D w (.instruction ix events) w'
  | environment {w w' : World} {donated : ℕ} (h : EnvStep D donated w w') :
      Step D w (.environment donated) w'

/-- The pool events of a step. -/
def Label.events : Label → List PoolEvent
  | .instruction _ events => events
  | .environment _ => []

/-- The tokens a step donates. -/
def Label.donated : Label → ℕ
  | .instruction _ _ => 0
  | .environment donated => donated

/-- The pool events of a run, in order. -/
def poolEvents (ls : List Label) : List PoolEvent := ls.flatMap Label.events

/-- All tokens donated in a run. -/
def donations (ls : List Label) : ℕ := (ls.map Label.donated).sum

/-- The chain before a vault is created: its pool account is zeroed, and nothing is at
the addresses that need the vault to be created. -/
structure Fresh (D : Deployment) (c : Chain) : Prop where
  slot_lt : c.slot < u64Size
  pool : c.pool = List.replicate (poolAccountSize D.size) 0
  requests : ∀ k r, c.requests k = some r → r.vault ≠ D.vault
  request_addresses : ∀ seq, c.requests (D.requestAddress seq) = none
  randLocks : ∀ k l, c.randLocks k = some l → l.vault ≠ D.vault
  randomness : ∀ k s, c.randomness k = some s → s.authority ≠ D.randomnessAuthority
  dataless : ∀ k, D.Owns k → c.Dataless k

/-- A vault created by `init_vault` on a fresh chain. -/
def Created (D : Deployment) (w : World) : Prop :=
  ∃ c creator params, Fresh D c ∧ handleInitVault D c creator params = .ok w

/-- **The steps `ls` lead from the creation of a vault to `w`.** -/
def History (D : Deployment) (ls : List Label) (w : World) : Prop :=
  ∃ w₀, Created D w₀ ∧ Run (Step D) w₀ ls w

namespace History

variable {D : Deployment} {ls ls' : List Label} {w w' : World}

theorem run (h : History D ls w) (h' : Run (Step D) w ls' w') : History D (ls ++ ls') w' := by
  obtain ⟨w₀, hcreated, hrun⟩ := h
  exact ⟨w₀, hcreated, hrun.append h'⟩

theorem snoc {l : Label} (h : History D ls w) (h' : Step D w l w') : History D (ls ++ [l]) w' :=
  h.run (.single h')

end History

@[simp] theorem poolEvents_append (ls ls' : List Label) :
    poolEvents (ls ++ ls') = poolEvents ls ++ poolEvents ls' :=
  List.flatMap_append

@[simp] theorem poolEvents_singleton (l : Label) : poolEvents [l] = l.events := by
  simp [poolEvents]

end HybridVault
