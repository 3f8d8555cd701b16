import HybridVault.PoolSpec
import HybridVault.Programs

/-!
# The closing check

The on-chain invariants, asserted at the end of every instruction that moves
tokens or assets: the vault holds `ratio` tokens for every asset that is out and
every pending request, the four index counts add up to the collection, and what is
out or handed in has been minted.

`ClosingCheck` is the conjunction the check computes; the arithmetic that could
overflow is part of it.
-/

namespace HybridVault

open Foundations

/-- The assets the vault owes tokens for. -/
def Vault.owedUnits (v : Vault) : ℕ := v.assetsOutside + v.pendingCaptures + v.pendingRerolls

def requiredVaultTokens (v : Vault) (ratioBase : ℕ) : Res ℕ := do
  let owedUnits ← expect
    ((checkedAdd v.assetsOutside v.pendingCaptures).bind fun x => checkedAdd x v.pendingRerolls)
    (.vault .MathOverflow)
  expect (checkedMul ratioBase owedUnits) (.vault .MathOverflow)

/-- `invariants::check`. -/
def invariantsCheck (v : Vault) (ratioBase collectionSize : ℕ) (p : PoolView)
    (vaultTokensAmount : ℕ) : Res Unit := do
  let required ← requiredVaultTokens v ratioBase
  check (required ≤ vaultTokensAmount) .InsolventVault
  let poolLen ← p.poolLen
  let incomingLen ← p.incomingLen
  let accounted ← expect
    (((checkedAdd poolLen incomingLen).bind fun x => checkedAdd x v.pendingRerolls).bind
      fun x => checkedAdd x v.assetsOutside) (.vault .MathOverflow)
  check (accounted = collectionSize) .AssetAccountingBroken
  check (p.cap = collectionSize) .AssetAccountingBroken
  check (v.mintedCount ≤ collectionSize) .AssetAccountingBroken
  let heldOrOut ← expect (checkedAdd v.assetsOutside v.pendingRerolls) (.vault .MathOverflow)
  check (heldOrOut ≤ v.mintedCount) .AssetAccountingBroken

/-- The vault's pool account, loaded. -/
def loadPool (D : Deployment) (c : Chain) : Res PoolView := PoolView.load c.pool D.vaultKey

/-- The balance of `vault_tokens`, as the account is loaded. -/
def vaultTokensAmount (D : Deployment) (c : Chain) : Res ℕ := do
  let t ← expect (c.tokens D.vaultTokens) (.anchor .AccountNotInitialized)
  return t.amount

/-- The last lines of a handler: reload the balance and the pool, and check. -/
def closingCheck (D : Deployment) (c : Chain) (v : Vault) (ratioBase collectionSize : ℕ) :
    Res Unit := do
  let amount ← vaultTokensAmount D c
  let p ← loadPool D c
  invariantsCheck v ratioBase collectionSize p amount

/-- What the closing check computes, of the vault record, the pool buffer and the
balance. -/
structure ClosingCheck (v : Vault) (ratioBase collectionSize : ℕ) (d : Bytes) (amount : ℕ) :
    Prop where
  units_lt : v.owedUnits < u64Size
  tokens_lt : ratioBase * v.owedUnits < u64Size
  solvent : ratioBase * v.owedUnits ≤ amount
  accounted : readLE d 44 4 + readLE d 52 4 + v.pendingRerolls + v.assetsOutside = collectionSize
  minted_le : v.mintedCount ≤ collectionSize
  held_le : v.assetsOutside + v.pendingRerolls ≤ v.mintedCount

section ClosingCheck

variable {D : Deployment} {cap ratioBase amount : ℕ} {d : Bytes} {v : Vault}

theorem requiredVaultTokens_eq_ok_iff {n : ℕ} :
    requiredVaultTokens v ratioBase = .ok n ↔
      v.owedUnits < u64Size ∧ ratioBase * v.owedUnits < u64Size ∧
        ratioBase * v.owedUnits = n := by
  simp only [requiredVaultTokens, bind_eq_ok_iff, expect_eq_ok_iff, Option.bind_eq_some_iff,
    checkedAdd_eq_some_iff, checkedMul_eq_some_iff, Vault.owedUnits]
  constructor
  · rintro ⟨_, ⟨_, ⟨-, rfl⟩, hlt, rfl⟩, hmul, rfl⟩
    exact ⟨hlt, hmul, rfl⟩
  · rintro ⟨hlt, hmul, rfl⟩
    exact ⟨_, ⟨_, ⟨by omega, rfl⟩, hlt, rfl⟩, hmul, rfl⟩

theorem WellFormed.invariantsCheck_eq_ok_iff (h : WellFormed D.vaultKey cap d) {u : Unit} :
    invariantsCheck v ratioBase cap ⟨d, cap⟩ amount = .ok u ↔
      ClosingCheck v ratioBase cap d amount := by
  have hcap := h.cap_le
  simp only [invariantsCheck, bind_eq_ok_iff, require_eq_ok_iff, requiredVaultTokens_eq_ok_iff,
    h.poolLen_eq, h.incomingLen_eq, expect_eq_ok_iff, Option.bind_eq_some_iff,
    checkedAdd_eq_some_iff, Except.ok.injEq]
  constructor
  · rintro ⟨_, ⟨hunits, htokens, rfl⟩, -, hsolvent, _, rfl, _, rfl, _,
      ⟨_, ⟨_, ⟨-, rfl⟩, -, rfl⟩, -, rfl⟩, -, haccounted, -, -, -, hminted, _, ⟨-, rfl⟩, hheld⟩
    exact ⟨hunits, htokens, hsolvent, haccounted, hminted, hheld⟩
  · rintro ⟨hunits, htokens, hsolvent, haccounted, hminted, hheld⟩
    have hsmall : cap < u64Size := by
      simp only [maxCapacity, u64Size] at *
      omega
    have hheld' : v.assetsOutside + v.pendingRerolls < u64Size := by
      rw [Vault.owedUnits] at hunits
      omega
    exact ⟨_, ⟨hunits, htokens, rfl⟩, (), hsolvent, _, rfl, _, rfl, _,
      ⟨_, ⟨_, ⟨by omega, rfl⟩, by omega, rfl⟩, by omega, rfl⟩, (), haccounted, (), trivial, (),
      hminted, _, ⟨hheld', rfl⟩, hheld⟩

/-- What a handler's closing check has checked. -/
theorem WellFormed.closingCheck_eq_ok {c : Chain} {u : Unit} (h : WellFormed D.vaultKey cap d)
    (hcheck : closingCheck D c v ratioBase cap = .ok u) (hpool : c.pool = d) :
    ∃ t, c.tokens D.vaultTokens = some t ∧ ClosingCheck v ratioBase cap d t.amount := by
  simp only [closingCheck, vaultTokensAmount, loadPool, bind_eq_ok_iff, expect_eq_ok_iff,
    pure_eq_ok_iff, hpool, h.load_eq, Except.ok.injEq] at hcheck
  obtain ⟨_, ⟨t, ht, rfl⟩, _, rfl, hcheck⟩ := hcheck
  exact ⟨t, ht, h.invariantsCheck_eq_ok_iff.mp hcheck⟩

/-- When a handler's closing check passes. -/
theorem WellFormed.closingCheck_ok {c : Chain} {t : TokenAccount} (h : WellFormed D.vaultKey cap d)
    (hpool : c.pool = d) (ht : c.tokens D.vaultTokens = some t)
    (hcheck : ClosingCheck v ratioBase cap d t.amount) :
    closingCheck D c v ratioBase cap = .ok () := by
  simp only [closingCheck, vaultTokensAmount, loadPool, bind_eq_ok_iff, expect_eq_ok_iff,
    pure_eq_ok_iff, hpool, h.load_eq, Except.ok.injEq]
  exact ⟨_, ⟨t, ht, rfl⟩, _, rfl, h.invariantsCheck_eq_ok_iff.mpr hcheck⟩

end ClosingCheck

end HybridVault
