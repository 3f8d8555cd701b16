import HybridVault.Devnet
import HybridVault.Instructions.Expire
import HybridVault.Instructions.Release

/-!
# Upgrades of the launch program

The exit paths do not deserialise the launch configuration.  They read two numbers at
frozen offsets and check the discriminator and the length.  So a later version of the
launch program may change anything else in the record and append to it: what an exit does
depends on those two numbers alone (`exit_paths_stable`), and they are the ones that the
paths which open positions read (`exitViewIn_append_of_econ`).

The handlers take the account of the launch configuration as an argument here
(`handleUnwrapWith` and its siblings).  The record a vault was created for stays in the
deployment.
-/

namespace HybridVault

open Foundations

/-- Two account contents that an exit path cannot tell apart: both hold the stable prefix,
with one discriminator and one pair of economics. -/
structure SameEconomics (data data' : Bytes) : Prop where
  prefix_le : lcStablePrefixLen ≤ data.length
  prefix_le' : lcStablePrefixLen ≤ data'.length
  discriminator : slice data 0 lcDiscriminatorLen = slice data' 0 lcDiscriminatorLen
  ratioBase : slice data lcOffRatioBase 8 = slice data' lcOffRatioBase 8
  collectionSize : slice data lcOffCollectionSize 8 = slice data' lcOffCollectionSize 8

/-- The offsets lie in the stable prefix. -/
theorem rdU64_stable {data : Bytes} (h : lcStablePrefixLen ≤ data.length) {o : ℕ}
    (ho : o + 8 ≤ lcStablePrefixLen) : rdU64 data o = .ok (readLE data o 8) :=
  rdU64_eq (ho.trans h)

theorem SameEconomics.exitViewIn_eq {data data' : Bytes} (h : SameEconomics data data') :
    exitViewIn data = exitViewIn data' := by
  have hguard : check (lcStablePrefixLen ≤ data.length ∧
        slice data 0 lcDiscriminatorLen = lcDiscriminator) .UnsupportedLaunchConfig
      = check (lcStablePrefixLen ≤ data'.length ∧
        slice data' 0 lcDiscriminatorLen = lcDiscriminator) .UnsupportedLaunchConfig :=
    require_congr (by simp only [h.prefix_le, h.prefix_le', h.discriminator])
  have hratio : readLE data lcOffRatioBase 8 = readLE data' lcOffRatioBase 8 := by
    rw [readLE, h.ratioBase, readLE]
  have hsize : readLE data lcOffCollectionSize 8 = readLE data' lcOffCollectionSize 8 := by
    rw [readLE, h.collectionSize, readLE]
  rw [exitViewIn, hguard, rdU64_stable h.prefix_le (by decide), hratio,
    rdU64_stable h.prefix_le (by decide), hsize, exitViewIn, rdU64_stable h.prefix_le' (by decide),
    rdU64_stable h.prefix_le' (by decide)]

/-- Appended fields change nothing. -/
theorem SameEconomics.append {data : Bytes} (h : lcStablePrefixLen ≤ data.length) (suffix : Bytes) :
    SameEconomics (data ++ suffix) data where
  prefix_le := by rw [List.length_append]; omega
  prefix_le' := h
  discriminator := slice_append_left (le_trans (by decide) h)
  ratioBase := slice_append_left (le_trans (by decide) h)
  collectionSize := slice_append_left (le_trans (by decide) h)

theorem LaunchConfig.stablePrefixLen_le (c : LaunchConfig) :
    lcStablePrefixLen ≤ c.accountData.length := by
  rw [c.length_accountData]
  decide

/-- Whatever is appended to a record, its two numbers are read. -/
theorem LaunchConfig.exitViewIn_append {c : LaunchConfig} (hratio : 0 < c.ratioBase.toNat)
    (hsize : 0 < c.collectionSize.toNat) (hu32 : c.collectionSize.toNat < u32Size)
    (suffix : Bytes) :
    exitViewIn (c.accountData ++ suffix)
      = .ok { ratioBase := c.ratioBase.toNat, collectionSize := c.collectionSize.toNat } := by
  rw [(SameEconomics.append c.stablePrefixLen_le suffix).exitViewIn_eq]
  exact exitViewIn_accountData hratio hsize hu32

/-- The two readers agree, whatever is appended. -/
theorem exitViewIn_append_of_econ {c : LaunchConfig} {e : Econ} (h : econ c = .ok e)
    (suffix : Bytes) :
    exitViewIn (c.accountData ++ suffix)
      = .ok { ratioBase := e.ratioBase, collectionSize := e.collectionSize } := by
  rw [(SameEconomics.append c.stablePrefixLen_le suffix).exitViewIn_eq]
  exact exitViewIn_of_econ h

/-- **The exit paths read the economics, and nothing else.**  They read the two numbers of
the record, whatever follows it, as `econ` does where it succeeds; and two accounts of one
owner with the same discriminator and the same two numbers give every release, settle and
expiry the same result. -/
theorem exit_paths_stable (D : Deployment) :
    (∀ (c : LaunchConfig) (suffix : Bytes),
      (0 < c.ratioBase.toNat → 0 < c.collectionSize.toNat → c.collectionSize.toNat < u32Size →
        exitViewIn (c.accountData ++ suffix)
          = .ok { ratioBase := c.ratioBase.toNat, collectionSize := c.collectionSize.toNat }) ∧
      ∀ e, econ c = .ok e →
        exitViewIn (c.accountData ++ suffix)
          = .ok { ratioBase := e.ratioBase, collectionSize := e.collectionSize }) ∧
    ∀ data data', SameEconomics data data' →
      exitViewIn data = exitViewIn data' ∧
      ∀ (owner : ProgramId) (w : World),
        (∀ user userToken index,
          handleUnwrapWith D ⟨owner, data⟩ w user userToken index
            = handleUnwrapWith D ⟨owner, data'⟩ w user userToken index) ∧
        (∀ settler request randomness asset user kind mint,
          handleSettleWith D ⟨owner, data⟩ w settler request randomness asset user kind mint
            = handleSettleWith D ⟨owner, data'⟩ w settler request randomness asset user kind mint) ∧
        (∀ caller request randomness user userToken asset,
          handleExpireWith D ⟨owner, data⟩ w caller request randomness user userToken asset
            = handleExpireWith D ⟨owner, data'⟩ w caller request randomness user userToken asset) ∧
        ∀ caller remaining count,
          handleExpireBatchWith D ⟨owner, data⟩ w caller remaining count
            = handleExpireBatchWith D ⟨owner, data'⟩ w caller remaining count := by
  refine ⟨fun c suffix => ⟨?_, ?_⟩, ?_⟩
  · intro hratio hsize hu32
    exact LaunchConfig.exitViewIn_append hratio hsize hu32 suffix
  · intro e he
    exact exitViewIn_append_of_econ he suffix
  · intro data data' h
    refine ⟨h.exitViewIn_eq, fun owner w => ?_⟩
    have hview : exitView ⟨owner, data⟩ = exitView ⟨owner, data'⟩ := by
      rw [exitView, h.exitViewIn_eq, exitView]
    refine ⟨?_, ?_, ?_, ?_⟩ <;> intros
    · rw [handleUnwrapWith, hview, handleUnwrapWith]
    · rw [handleSettleWith, hview, handleSettleWith]
    · rw [handleExpireWith, hview, handleExpireWith]
    · rw [handleExpireBatchWith, hview, handleExpireBatchWith]

/-- A later record of the small launch: a new version, fee and recipient, and 64 bytes of
new fields. -/
def upgradedData : Bytes :=
  { smallLaunch with version := 5, feeLamports := 1, feeRecipient := Bytes32.fill 99 }.accountData
    ++ List.replicate 64 255

theorem exit_paths_stable_upgraded :
    exitViewIn upgradedData = .ok { ratioBase := 50_000_000_000, collectionSize := 100 } ∧
      ∀ w user userToken index,
        handleUnwrapWith smallVault ⟨.hybridLaunch, upgradedData⟩ w user userToken index
          = handleUnwrap smallVault w user userToken index := by
  obtain ⟨hread, hsame⟩ := exit_paths_stable smallVault
  refine ⟨(hread _ _).1 (by decide) (by decide) (by decide), ?_⟩
  intro w user userToken index
  have hecon : SameEconomics upgradedData smallLaunch.accountData := by
    constructor <;> decide +kernel
  exact ((hsame _ _ hecon).2 .hybridLaunch w).1 user userToken index

end HybridVault
