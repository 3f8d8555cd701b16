import HybridVault.State
import HybridVault.Merkle

/-!
# Calls into other programs

The System, Token, Metaplex Core and Switchboard instructions the vault program
invokes, as functions of the chain that fail where their own preconditions do:
balance and ownership for transfers, existence for creation, the authority's
signature for randomness.  Each has one lemma that says when it returns and what
it returns.

Lamports that a call charges a signer's own wallet for its own fees are left out:
what wallets hold is not determined by the vault (`HybridVault.Run` lets it vary).
-/

namespace HybridVault

open Foundations

/-! ## System -/

/-- `system_program::transfer`. -/
def systemTransfer (c : Chain) (source dest : Pubkey) (amount : ℕ) : Res Chain := do
  require (c.Dataless source ∧ amount ≤ c.lamports source) (.cpi .system)
  return c.setLamports (moveAmount c.lamports source dest amount)

theorem systemTransfer_eq_ok_iff {c c' : Chain} {source dest : Pubkey} {amount : ℕ} :
    systemTransfer c source dest amount = .ok c' ↔
      c.Dataless source ∧ amount ≤ c.lamports source ∧
        c.setLamports (moveAmount c.lamports source dest amount) = c' := by
  simp [systemTransfer, and_assoc]

/-- The lamports side of Anchor's `init`: top the new account up to its rent. -/
def fundAccount (D : Deployment) (c : Chain) (payer account : Pubkey) (space : ℕ) : Res Chain :=
  systemTransfer c payer account (D.minimumBalance space - c.lamports account)

/-- The lamports side of Anchor's `close`. -/
def closeAccount (c : Chain) (account dest : Pubkey) : Chain :=
  c.setLamports (moveAmount c.lamports account dest (c.lamports account))

/-! ## Token -/

/-- Move tokens between two accounts that hold `s` and `d`. -/
def moveTokens (tokens : Pubkey → Option TokenAccount) (source dest : Pubkey) (s d : TokenAccount)
    (amount : ℕ) : Pubkey → Option TokenAccount :=
  Function.update (Function.update tokens source (some { s with amount := s.amount - amount }))
    dest (some { d with amount := d.amount + amount })

/-- `token::transfer_checked`. -/
def tokenTransfer (c : Chain) (source dest mint authority : Pubkey) (amount : ℕ) : Res Chain := do
  let s ← expect (c.tokens source) (.cpi .token)
  let d ← expect (c.tokens dest) (.cpi .token)
  require (s.mint = mint ∧ d.mint = mint ∧ s.owner = authority ∧ amount ≤ s.amount) (.cpi .token)
  if source = dest then
    return c
  else
    return c.setTokens (moveTokens c.tokens source dest s d amount)

theorem tokenTransfer_eq_ok_iff {c c' : Chain} {source dest mint authority : Pubkey} {amount : ℕ}
    (hne : source ≠ dest) :
    tokenTransfer c source dest mint authority amount = .ok c' ↔
      ∃ s d, c.tokens source = some s ∧ c.tokens dest = some d ∧ s.mint = mint ∧ d.mint = mint ∧
        s.owner = authority ∧ amount ≤ s.amount ∧
        c.setTokens (moveTokens c.tokens source dest s d amount) = c' := by
  simp [tokenTransfer, hne, and_assoc]

/-- `vault_tokens -> dest`, signed by `vault_authority`. -/
def payOut (D : Deployment) (c : Chain) (dest : Pubkey) (amount : ℕ) : Res Chain :=
  tokenTransfer c D.vaultTokens dest D.mint D.vaultAuthority amount

/-- `user -> dest`; the user signs. -/
def userPays (D : Deployment) (c : Chain) (userToken dest user : Pubkey) (amount : ℕ) :
    Res Chain :=
  if amount = 0 then return c else tokenTransfer c userToken dest D.mint user amount

/-- Flat SOL fee by system transfer. -/
def solFee (c : Chain) (user dest : Pubkey) (lamports : ℕ) : Res Chain :=
  if lamports = 0 then return c else systemTransfer c user dest lamports

/-! ## Metaplex Core -/

/-- `CreateV2`: the asset account is new, and the payer has what it costs. -/
def coreCreate (D : Deployment) (c : Chain) (asset collection authority payer owner : Pubkey)
    (name uri : Bytes) : Res Chain := do
  let col ← expect c.collection (.cpi .mplCore)
  let cost := D.coreCreateCost name uri
  require (col.updateAuthority = authority ∧ c.Dataless asset ∧ c.lamports asset = 0 ∧
    c.Dataless payer ∧ cost ≤ c.lamports payer) (.cpi .mplCore)
  let c := c.setAssets (Function.update c.assets asset (.live {
    owner := owner, updateAuthority := .collection collection, name := name, uri := uri }))
  let c := c.setCollection (some { col with
    numMinted := col.numMinted + 1
    currentSize := col.currentSize + 1 })
  return c.setLamports (moveAmount c.lamports payer asset cost)

/-- `TransferV1`, by the asset's owner. -/
def coreTransfer (c : Chain) (asset collection authority newOwner : Pubkey) : Res Chain :=
  match c.assets asset with
  | .live a => do
      require (a.owner = authority ∧ a.updateAuthority = .collection collection) (.cpi .mplCore)
      return c.setAssets (Function.update c.assets asset (.live { a with owner := newOwner }))
  | _ => .error (.cpi .mplCore)

/-- After a transfer or a mint: the asset is a Core asset of `collection` owned by
`owner`. -/
def assertAssetState (c : Chain) (asset collection owner : Pubkey) : Res Unit :=
  match c.assets asset with
  | .live a => do
      check (a.owner = owner) .AssetStateMismatch
      check (a.updateAuthority = .collection collection) .AssetStateMismatch
  | _ => .error (.vault .AssetStateMismatch)

theorem coreTransfer_eq_ok_iff {c c' : Chain} {asset collection authority newOwner : Pubkey} :
    coreTransfer c asset collection authority newOwner = .ok c' ↔
      ∃ a, c.assets asset = .live a ∧ a.owner = authority ∧
        a.updateAuthority = .collection collection ∧
        c.setAssets (Function.update c.assets asset (.live { a with owner := newOwner })) = c' := by
  unfold coreTransfer
  cases h : c.assets asset <;> simp [and_assoc]

/-! ## Switchboard -/

/-- `randomness::read`. -/
def readRandomness (c : Chain) (randomness : Pubkey) : Res RandomnessSnapshot :=
  expect (c.randomness randomness) (.vault .InvalidRandomnessAccount)

def RandomnessSnapshot.isRevealed (snap : RandomnessSnapshot) (expectedSeedSlot : ℕ) : Bool :=
  snap.seedSlot = expectedSeedSlot && snap.seedSlot < snap.revealSlot

theorem RandomnessSnapshot.isRevealed_iff {snap : RandomnessSnapshot} {expectedSeedSlot : ℕ} :
    snap.isRevealed expectedSeedSlot = true ↔
      snap.seedSlot = expectedSeedSlot ∧ snap.seedSlot < snap.revealSlot := by
  simp [isRevealed]

/-- `randomness_init`: a new account, with nothing committed. -/
def switchboardInit (c : Chain) (randomness authority queue : Pubkey) : Res Chain := do
  require (c.randomness randomness = none) (.cpi .switchboard)
  return c.setRandomness (Function.update c.randomness randomness (some {
    authority := authority, queue := queue, seedSlot := 0, revealSlot := 0,
    value := Bytes32.zero }))

/-- `randomness_commit`, signed by `authority`. -/
def switchboardCommit (c : Chain) (randomness authority : Pubkey) : Res Chain := do
  let snap ← expect (c.randomness randomness) (.cpi .switchboard)
  require (snap.authority = authority) (.cpi .switchboard)
  return c.setRandomness (Function.update c.randomness randomness
    (some { snap with seedSlot := c.slot - 1 }))

/-- `randomness_reveal`, signed by `authority`, of a value the committed oracle
signed. -/
def switchboardReveal (c : Chain) (randomness authority : Pubkey) (value : Bytes32) :
    Res Chain := do
  let snap ← expect (c.randomness randomness) (.cpi .switchboard)
  require (snap.authority = authority) (.cpi .switchboard)
  return c.setRandomness (Function.update c.randomness randomness
    (some { snap with revealSlot := c.slot, value := value }))

end HybridVault
