import HybridVault.Foundations.Words
import HybridVault.Launch

/-!
# Launch validation in machine words

`HybridVault.validate` reads the launch parameters as numbers.  The source reads them as
`u8` and `u64`: a product of three accepted parameters can exceed 64 bits, and a remainder
and a division have divisors that the guards before them keep from being zero.  Here is
`validation.rs` at that width, with a panic wherever the machine has one.

* `validate_refines` — the machine returns the same amounts and the same errors as the
  numbers.
* `validation_exact` — the parameters accepted are those a creator is meant to choose
  from, by the bound that `max_collection_size` computes in whole tokens.
-/

namespace HybridVault

open Foundations

namespace Machine

/-- Why a call into `hybrid_launch` fails. -/
inductive LaunchFault
  | launch (e : LaunchError)
  /-- An unchecked operation failed. -/
  | panic
deriving DecidableEq, Repr

/-- Values derived from validated parameters. -/
structure DerivedAmounts where
  totalSupplyBase : UInt64
  ratioBase : UInt64
  maxTokensInNftForm : UInt64
  feeLamports : UInt64
  graduationSlicePct : UInt8
deriving DecidableEq

/-! ## The checks -/

/-- `ALLOWED_RATIOS`. -/
def allowedRatios : List UInt64 := HybridVault.allowedRatios.map .ofNat

/-- `FEE_TIERS`. -/
def feeTiers : List (UInt64 × UInt64) :=
  HybridVault.feeTiers.map fun tier => (.ofNat tier.1, .ofNat tier.2)

/-- Flat SOL fee for a ratio; `none` for a ratio outside the table. -/
def feeForRatio (ratioWholeTokens : UInt64) : Option UInt64 :=
  (feeTiers.find? fun tier => tier.1 = ratioWholeTokens).map Prod.snd

def tierFeeLamports (ratioWholeTokens : UInt64) : Option UInt64 :=
  match feeForRatio ratioWholeTokens with
  | some f =>
      if f ≠ 0 ∧ .ofNat minFeeLamports ≤ f ∧ f ≤ .ofNat maxFeeLamports then some f else none
  | none => none

def checkedFeeForRatio (ratioWholeTokens : UInt64) : Except LaunchFault UInt64 := do
  let _ ← expect (feeForRatio ratioWholeTokens) (.launch .RatioNotAllowed)
  expect (tierFeeLamports ratioWholeTokens) (.launch .SolFeeOutOfRange)

def checkGraduationThreshold (thresholdLamports : UInt64) : Except LaunchFault Unit :=
  require (.ofNat minGraduationThresholdLamports ≤ thresholdLamports ∧
    thresholdLamports ≤ .ofNat maxGraduationThresholdLamports)
    (.launch .GraduationThresholdOutOfRange)

def validate (p : LaunchParams) : Except LaunchFault DerivedAmounts := do
  require (p.decimals ≤ .ofNat maxDecimals) (.launch .InvalidDecimals)
  require (p.ratioWholeTokens ∈ allowedRatios) (.launch .RatioNotAllowed)
  require (1 ≤ p.collectionSize) (.launch .ZeroCollectionSize)
  require (.ofNat minCollectionSize ≤ p.collectionSize) (.launch .CollectionBelowMinimum)
  require (p.collectionSize ≤ .ofNat maxCollectionSize) (.launch .CollectionAboveCap)
  let feeLamports ← checkedFeeForRatio p.ratioWholeTokens
  checkGraduationThreshold p.graduationThresholdLamports
  let scale ← expect (Word.checkedPow 10 p.decimals.toNat) (.launch .MathOverflow)
  let totalSupplyBase ←
    expect (Word.checkedMul (.ofNat totalSupplyWholeTokens) scale) (.launch .MathOverflow)
  let ratioBase ← expect (Word.checkedMul p.ratioWholeTokens scale) (.launch .MathOverflow)
  let rest ← expect (Word.checkedRem totalSupplyBase ratioBase) .panic
  require (rest = 0) (.launch .RatioNotAllowed)
  let maxTokensInNftForm ←
    expect (Word.checkedMul p.collectionSize ratioBase) (.launch .CollectionTooLargeForSupply)
  require (maxTokensInNftForm ≤ totalSupplyBase) (.launch .CollectionTooLargeForSupply)
  return {
    totalSupplyBase := totalSupplyBase
    ratioBase := ratioBase
    maxTokensInNftForm := maxTokensInNftForm
    feeLamports := feeLamports
    graduationSlicePct := 0 }

/-- `max_collection_size`: the largest allowed collection size for a ratio. -/
def maxCollectionSizeOf (ratioWholeTokens : UInt64) : Except LaunchFault (Option UInt64) :=
  if ratioWholeTokens ∈ allowedRatios then do
    let size ← expect (Word.checkedDiv (.ofNat totalSupplyWholeTokens) ratioWholeTokens) .panic
    return some (min size (.ofNat maxCollectionSize))
  else
    return none

end Machine

/-! ## The tables -/

/-- What the two tables say of an allowed ratio: it divides the supply, and it has a fee
within the bounds. -/
theorem allowedRatios_spec :
    ∀ ratio ∈ allowedRatios, 0 < ratio ∧ ratio ∣ totalSupplyWholeTokens ∧
      (tierFeeLamports ratio).isSome ∧ tierFeeLamports ratio = feeForRatio ratio := by
  decide

/-! ## What is accepted -/

/-- The amounts that belong to some parameters and a fee. -/
def LaunchParams.amounts (p : LaunchParams) (fee : ℕ) : DerivedAmounts where
  totalSupplyBase := totalSupplyWholeTokens * 10 ^ p.decimals.toNat
  ratioBase := p.ratioWholeTokens.toNat * 10 ^ p.decimals.toNat
  maxTokensInNftForm :=
    p.collectionSize.toNat * (p.ratioWholeTokens.toNat * 10 ^ p.decimals.toNat)
  feeLamports := fee
  graduationSlicePct := 0

/-- The bound on the collection, in base units and in whole tokens. -/
theorem mul_le_supply_iff {ratio size scale : ℕ} (hratio : 0 < ratio) (hscale : 0 < scale) :
    size * (ratio * scale) ≤ totalSupplyWholeTokens * scale
      ↔ size ≤ totalSupplyWholeTokens / ratio := by
  rw [← Nat.mul_assoc, Nat.mul_le_mul_right_iff hscale, Nat.le_div_iff_mul_le hratio]

/-- Up to nine decimals the supply takes 60 bits. -/
theorem supply_le {decimals : ℕ} (h : decimals ≤ maxDecimals) :
    totalSupplyWholeTokens * 10 ^ decimals ≤ 10 ^ 18 := by
  calc totalSupplyWholeTokens * 10 ^ decimals ≤ totalSupplyWholeTokens * 10 ^ maxDecimals :=
        Nat.mul_le_mul_left _ (Nat.pow_le_pow_right (by decide) h)
    _ = 10 ^ 18 := by decide

/-- **What `validate` accepts**, in whole tokens: none of the products in base units
overflows for such parameters. -/
theorem validate_eq_ok_iff {p : LaunchParams} {a : DerivedAmounts} :
    validate p = .ok a ↔
      (p.decimals.toNat ≤ maxDecimals ∧
        (minGraduationThresholdLamports ≤ p.graduationThresholdLamports.toNat ∧
          p.graduationThresholdLamports.toNat ≤ maxGraduationThresholdLamports) ∧
        p.ratioWholeTokens.toNat ∈ allowedRatios ∧
        minCollectionSize ≤ p.collectionSize.toNat ∧
        p.collectionSize.toNat
          ≤ min (totalSupplyWholeTokens / p.ratioWholeTokens.toNat) maxCollectionSize) ∧
      ∃ fee, tierFeeLamports p.ratioWholeTokens.toNat = some fee ∧ a = p.amounts fee := by
  have hscale : 0 < 10 ^ p.decimals.toNat := Nat.pow_pos (by decide)
  simp only [validate, checkedFeeForRatio, checkGraduationThreshold, checkedPow10, bind_eq_ok_iff,
    require_eq_ok_iff, expect_eq_ok_iff, pure_eq_ok_iff, checkedMul_eq_some_iff, le_min_iff,
    Option.ite_none_right_eq_some, Option.some.injEq]
  constructor
  · rintro ⟨-, hdec, -, hratio, -, -, -, hmin, -, hmax, fee, ⟨-, -, htier⟩, -, hgrad, _, ⟨-, rfl⟩,
      _, ⟨-, rfl⟩, _, ⟨-, rfl⟩, -, -, _, ⟨-, rfl⟩, -, hle, rfl⟩
    obtain ⟨hpos, -⟩ := allowedRatios_spec _ hratio
    exact ⟨⟨hdec, hgrad, hratio, hmin, (mul_le_supply_iff hpos hscale).mp hle, hmax⟩, fee, htier,
      rfl⟩
  · rintro ⟨⟨hdec, hgrad, hratio, hmin, hdiv, hmax⟩, fee, htier, rfl⟩
    obtain ⟨hpos, hdvd, -, hsame⟩ := allowedRatios_spec _ hratio
    have hsupply := supply_le hdec
    have hfits : totalSupplyWholeTokens * 10 ^ p.decimals.toNat < u64Size :=
      hsupply.trans_lt (by decide)
    have hone : 1 ≤ p.collectionSize.toNat := le_trans (by decide) hmin
    have hscaleFits : 10 ^ p.decimals.toNat < u64Size :=
      (Nat.le_mul_of_pos_left _ (by decide)).trans_lt hfits
    have hbaseFits : p.ratioWholeTokens.toNat * 10 ^ p.decimals.toNat < u64Size :=
      (Nat.mul_le_mul_right _ (Nat.le_of_dvd (by decide) hdvd)).trans_lt hfits
    have hle := (mul_le_supply_iff hpos hscale).mpr hdiv
    have hmod := Nat.mod_eq_zero_of_dvd (Nat.mul_dvd_mul_right hdvd (10 ^ p.decimals.toNat))
    exact ⟨(), hdec, (), hratio, (), hone, (), hmin, (), hmax, fee, ⟨fee, hsame ▸ htier, htier⟩, (),
      hgrad, _, ⟨hscaleFits, rfl⟩, _, ⟨hfits, rfl⟩, _, ⟨hbaseFits, rfl⟩, (), hmod, _,
      ⟨hle.trans_lt hfits, rfl⟩, (), hle, rfl⟩

namespace Machine

theorem mem_allowedRatios {ratio : UInt64} :
    ratio ∈ allowedRatios ↔ ratio.toNat ∈ HybridVault.allowedRatios := by
  have hfits : ∀ v ∈ HybridVault.allowedRatios, v < 2 ^ 64 := by decide
  rw [allowedRatios, List.mem_map]
  constructor
  · rintro ⟨v, hv, rfl⟩
    rwa [UInt64.toNat_ofNat_of_lt' (hfits v hv)]
  · intro h
    exact ⟨ratio.toNat, h, UInt64.ofNat_toNat⟩

/-- A table of words is looked up as the table of their numbers is. -/
theorem map_toNat_lookup (r : UInt64) {tiers : List (ℕ × ℕ)}
    (hfits : ∀ tier ∈ tiers, tier.1 < 2 ^ 64 ∧ tier.2 < 2 ^ 64) :
    (((tiers.map fun tier => (UInt64.ofNat tier.1, UInt64.ofNat tier.2)).find?
      fun tier => tier.1 = r).map Prod.snd).map UInt64.toNat
      = (tiers.find? fun tier => tier.1 = r.toNat).map Prod.snd := by
  induction tiers with
  | nil => rfl
  | cons tier tiers ih =>
      obtain ⟨hratio, hfee⟩ := hfits tier List.mem_cons_self
      rw [List.map_cons]
      by_cases h : tier.1 = r.toNat
      · rw [List.find?_cons_of_pos (by simpa [Word.ofNat_eq_iff hratio] using h),
          List.find?_cons_of_pos (by simpa using h)]
        simp only [Option.map_some, UInt64.toNat_ofNat_of_lt' hfee]
      · rw [List.find?_cons_of_neg (by simpa [Word.ofNat_eq_iff hratio] using h),
          List.find?_cons_of_neg (by simpa using h)]
        exact ih fun tier ht => hfits tier (List.mem_cons_of_mem _ ht)

theorem map_toNat_feeForRatio (ratio : UInt64) :
    (feeForRatio ratio).map UInt64.toNat = HybridVault.feeForRatio ratio.toNat :=
  map_toNat_lookup ratio (by decide)

theorem map_toNat_tierFeeLamports (ratio : UInt64) :
    (tierFeeLamports ratio).map UInt64.toNat = HybridVault.tierFeeLamports ratio.toNat := by
  have hlow : minFeeLamports < 2 ^ 64 := by decide
  have hhigh : maxFeeLamports < 2 ^ 64 := by decide
  rw [tierFeeLamports, HybridVault.tierFeeLamports, ← map_toNat_feeForRatio]
  cases feeForRatio ratio with
  | none => rfl
  | some f =>
      simp only [Option.map_some, ne_eq, Word.eq_zero_iff, Word.ofNat_le_iff hlow,
        Word.le_ofNat_iff hhigh]
      split <;> rfl

/-! ## The two levels agree -/

/-- The numbers a machine's amounts hold. -/
def DerivedAmounts.value (a : DerivedAmounts) : HybridVault.DerivedAmounts where
  totalSupplyBase := a.totalSupplyBase.toNat
  ratioBase := a.ratioBase.toNat
  maxTokensInNftForm := a.maxTokensInNftForm.toNat
  feeLamports := a.feeLamports.toNat
  graduationSlicePct := a.graduationSlicePct.toNat

theorem checkedFeeForRatio_refines (ratio : UInt64) :
    Refines (fun f c => f.toNat = c) (checkedFeeForRatio ratio)
      ((HybridVault.checkedFeeForRatio ratio.toNat).mapError .launch) := by
  simp only [checkedFeeForRatio, HybridVault.checkedFeeForRatio, mapError_bind, mapError_expect]
  exact .bind (.expect (map_toNat_feeForRatio ratio)) fun _ _ _ _ =>
    .expect (map_toNat_tierFeeLamports ratio)

theorem checkGraduationThreshold_refines (threshold : UInt64) :
    Refines (fun _ _ => True) (checkGraduationThreshold threshold)
      ((HybridVault.checkGraduationThreshold threshold.toNat).mapError .launch) := by
  have hlow : minGraduationThresholdLamports < 2 ^ 64 := by decide
  have hhigh : maxGraduationThresholdLamports < 2 ^ 64 := by decide
  simp only [checkGraduationThreshold, HybridVault.checkGraduationThreshold, mapError_require]
  exact .require (by rw [Word.ofNat_le_iff hlow, Word.le_ofNat_iff hhigh])

/-- **The machine validates what the numbers do**, with the same errors. -/
theorem validate_refines (p : LaunchParams) :
    Refines (fun a c => a.value = c) (validate p) ((HybridVault.validate p).mapError .launch) := by
  have hmin : minCollectionSize < 2 ^ 64 := by decide
  have hmax : maxCollectionSize < 2 ^ 64 := by decide
  simp only [validate, HybridVault.validate, mapError_bind, mapError_require, mapError_expect,
    mapError_pure]
  refine .bind (.require ?_) fun _ _ _ _ => ?_
  · exact UInt8.le_iff_toNat_le
  refine .bind (.require mem_allowedRatios) fun _ _ hratio _ => ?_
  refine .bind (.require UInt64.le_iff_toNat_le) fun _ _ _ _ => ?_
  refine .bind (.require (Word.ofNat_le_iff hmin)) fun _ _ _ _ => ?_
  refine .bind (.require (Word.le_ofNat_iff hmax)) fun _ _ _ _ => ?_
  refine .bind (checkedFeeForRatio_refines p.ratioWholeTokens) fun fee _ _ hfee => ?_
  refine .bind (checkGraduationThreshold_refines _) fun _ _ _ _ => ?_
  refine .bind (.expect Word.map_toNat_checkedPow) fun scale _ hpow hscale => ?_
  subst hscale
  refine .bind (.expect Word.map_toNat_checkedMul) fun total _ _ htotal => ?_
  subst htotal
  refine .bind (.expect Word.map_toNat_checkedMul) fun base _ hmul hbase => ?_
  subst hbase
  -- An allowed ratio is not zero and neither is the scale, so the remainder has a divisor.
  have hpos : 0 < base.toNat := by
    have hallowed := mem_allowedRatios.mp (require_eq_ok_iff.mp hratio)
    rw [Word.toNat_of_checkedMul (expect_eq_ok_iff.mp hmul),
      Word.toNat_of_checkedPow (expect_eq_ok_iff.mp hpow)]
    exact Nat.mul_pos (allowedRatios_spec _ hallowed).1 (Nat.pow_pos (by decide))
  obtain ⟨rest, hrest, hvalue⟩ := Word.exists_checkedRem (a := total) hpos
  rw [expect_eq_ok_iff.mpr hrest, ok_bind]
  refine .bind (.require ?_) fun _ _ _ _ => ?_
  · rw [Word.eq_zero_iff, hvalue]
  refine .bind (.expect Word.map_toNat_checkedMul) fun tokens _ _ htokens => ?_
  subst htokens
  refine .bind (.require UInt64.le_iff_toNat_le) fun _ _ _ _ => ?_
  exact .of_ok rfl rfl (by rw [← hfee]; rfl)

theorem validate_eq_ok {p : LaunchParams} {a : DerivedAmounts} (h : validate p = .ok a) :
    HybridVault.validate p = .ok a.value := by
  have hrefines := validate_refines p
  rw [h] at hrefines
  obtain ⟨_, hvalue, rfl⟩ := hrefines.exists_ok_right
  exact mapError_eq_ok_iff.mp hvalue

theorem exists_validate_eq_ok {p : LaunchParams} {c : HybridVault.DerivedAmounts}
    (h : HybridVault.validate p = .ok c) : ∃ a, validate p = .ok a ∧ a.value = c := by
  have hrefines := validate_refines p
  rw [mapError_eq_ok_iff.mpr h] at hrefines
  exact hrefines.exists_ok

theorem exists_validate_eq_ok_iff {p : LaunchParams} :
    (∃ a, validate p = .ok a) ↔ ∃ c, HybridVault.validate p = .ok c := by
  constructor
  · rintro ⟨a, h⟩
    exact ⟨a.value, validate_eq_ok h⟩
  · rintro ⟨c, h⟩
    obtain ⟨a, ha, -⟩ := exists_validate_eq_ok h
    exact ⟨a, ha⟩

/-- The launch configurations a vault may rely on are those the machine's validation
leads to. -/
theorem accepted_iff {c : LaunchConfig} :
    c.Accepted ↔ ∃ p a, validate p = .ok a ∧ LaunchedFrom p a.value c := by
  constructor
  · rintro ⟨p, _, h, hfrom⟩
    obtain ⟨a, ha, rfl⟩ := exists_validate_eq_ok h
    exact ⟨p, a, ha, hfrom⟩
  · rintro ⟨p, a, h, hfrom⟩
    exact ⟨p, a.value, validate_eq_ok h, hfrom⟩

/-! ## The bound on the size -/

theorem maxCollectionSizeOf_of_mem {ratio : UInt64} (h : ratio ∈ allowedRatios) :
    ∃ m, maxCollectionSizeOf ratio = .ok (some m) ∧
      m.toNat = min (totalSupplyWholeTokens / ratio.toNat) maxCollectionSize := by
  obtain ⟨hpos, -⟩ := allowedRatios_spec _ (mem_allowedRatios.mp h)
  obtain ⟨size, hsize, hvalue⟩ := Word.exists_checkedDiv (a := .ofNat totalSupplyWholeTokens) hpos
  have hsupply : (UInt64.ofNat totalSupplyWholeTokens).toNat = totalSupplyWholeTokens := rfl
  refine ⟨min size (.ofNat maxCollectionSize), ?_, ?_⟩
  · rw [maxCollectionSizeOf, if_pos h, expect_eq_ok_iff.mpr hsize]
    rfl
  · rw [hsupply] at hvalue
    rw [UInt64.toNat_min, hvalue]
    rfl

theorem maxCollectionSizeOf_of_not_mem {ratio : UInt64} (h : ratio ∉ allowedRatios) :
    maxCollectionSizeOf ratio = .ok none := by
  rw [maxCollectionSizeOf, if_neg h]
  rfl

/-- The size a ratio allows, as `max_collection_size` returns it. -/
theorem exists_maxCollectionSizeOf_iff {ratio size : UInt64} :
    (∃ m, maxCollectionSizeOf ratio = .ok (some m) ∧ size ≤ m) ↔
      ratio.toNat ∈ HybridVault.allowedRatios ∧
        size.toNat ≤ min (totalSupplyWholeTokens / ratio.toNat) maxCollectionSize := by
  rw [← mem_allowedRatios]
  by_cases h : ratio ∈ allowedRatios
  · obtain ⟨m, hm, hvalue⟩ := maxCollectionSizeOf_of_mem h
    simp only [hm, Except.ok.injEq, Option.some.injEq, exists_eq_left', h, true_and, ← hvalue,
      UInt64.le_iff_toNat_le]
  · simp [maxCollectionSizeOf_of_not_mem h, h]

theorem maxCollectionSizeOf_avoids (ratio : UInt64) :
    Avoids .panic (maxCollectionSizeOf ratio) := by
  by_cases h : ratio ∈ allowedRatios
  · obtain ⟨m, hm, -⟩ := maxCollectionSizeOf_of_mem h
    rw [hm]
    exact avoids_ok
  · rw [maxCollectionSizeOf_of_not_mem h]
    exact avoids_ok

/-- Every allowed ratio has a fee tier, and its fee is within the bounds. -/
theorem exists_tierFeeLamports {ratio : UInt64} (h : ratio ∈ allowedRatios) :
    ∃ f, feeForRatio ratio = some f ∧ tierFeeLamports ratio = some f := by
  obtain ⟨-, -, hsome, hsame⟩ := allowedRatios_spec _ (mem_allowedRatios.mp h)
  rw [← map_toNat_tierFeeLamports, ← map_toNat_feeForRatio] at hsame
  rw [← map_toNat_tierFeeLamports, Option.isSome_map] at hsome
  obtain ⟨f, hf⟩ := Option.isSome_iff_exists.mp hsome
  refine ⟨f, ?_, hf⟩
  rw [hf] at hsame
  obtain ⟨g, hg, hgf⟩ := Option.map_eq_some_iff.mp hsame.symm
  rw [hg, UInt64.toNat_inj.mp hgf]

/-- The acceptance set, by the bound in whole tokens. -/
theorem exists_validate_iff {p : LaunchParams} :
    (∃ a, validate p = .ok a) ↔
      p.decimals.toNat ≤ maxDecimals ∧
        (minGraduationThresholdLamports ≤ p.graduationThresholdLamports.toNat ∧
          p.graduationThresholdLamports.toNat ≤ maxGraduationThresholdLamports) ∧
        ∃ m, maxCollectionSizeOf p.ratioWholeTokens = .ok (some m) ∧
          minCollectionSize ≤ p.collectionSize.toNat ∧ p.collectionSize ≤ m := by
  rw [exists_validate_eq_ok_iff]
  constructor
  · rintro ⟨c, hc⟩
    obtain ⟨⟨hdec, hgrad, hratio, hmin, hsize⟩, -⟩ := validate_eq_ok_iff.mp hc
    obtain ⟨m, hm, hle⟩ := exists_maxCollectionSizeOf_iff.mpr ⟨hratio, hsize⟩
    exact ⟨hdec, hgrad, m, hm, hmin, hle⟩
  · rintro ⟨hdec, hgrad, m, hm, hmin, hle⟩
    obtain ⟨hratio, hsize⟩ := exists_maxCollectionSizeOf_iff.mp ⟨m, hm, hle⟩
    obtain ⟨-, -, hsome, -⟩ := allowedRatios_spec _ hratio
    obtain ⟨fee, hfee⟩ := Option.isSome_iff_exists.mp hsome
    exact ⟨p.amounts fee,
      validate_eq_ok_iff.mpr ⟨⟨hdec, hgrad, hratio, hmin, hsize⟩, fee, hfee, rfl⟩⟩

/-- What the derived amounts of accepted parameters are. -/
theorem validate_amounts {p : LaunchParams} {a : DerivedAmounts} (h : validate p = .ok a) :
    a.totalSupplyBase.toNat = 10 ^ 9 * 10 ^ p.decimals.toNat ∧
      a.ratioBase.toNat = p.ratioWholeTokens.toNat * 10 ^ p.decimals.toNat ∧
      a.ratioBase.toNat ∣ a.totalSupplyBase.toNat ∧
      a.maxTokensInNftForm.toNat = p.collectionSize.toNat * a.ratioBase.toNat ∧
      a.maxTokensInNftForm ≤ a.totalSupplyBase ∧
      a.totalSupplyBase.toNat ≤ 10 ^ 18 ∧ 10 ^ 18 < u64Size ∧
      feeForRatio p.ratioWholeTokens = some a.feeLamports ∧
      tierFeeLamports p.ratioWholeTokens = some a.feeLamports := by
  obtain ⟨⟨hdec, -, hratio, -, hsize⟩, fee, htier, hamounts⟩ :=
    validate_eq_ok_iff.mp (validate_eq_ok h)
  obtain ⟨hpos, hdvd, -⟩ := allowedRatios_spec _ hratio
  have htotal : a.totalSupplyBase.toNat = totalSupplyWholeTokens * 10 ^ p.decimals.toNat :=
    congrArg HybridVault.DerivedAmounts.totalSupplyBase hamounts
  have hbase : a.ratioBase.toNat = p.ratioWholeTokens.toNat * 10 ^ p.decimals.toNat :=
    congrArg HybridVault.DerivedAmounts.ratioBase hamounts
  have htokens : a.maxTokensInNftForm.toNat
      = p.collectionSize.toNat * (p.ratioWholeTokens.toNat * 10 ^ p.decimals.toNat) :=
    congrArg HybridVault.DerivedAmounts.maxTokensInNftForm hamounts
  have hfee : a.feeLamports.toNat = fee :=
    congrArg HybridVault.DerivedAmounts.feeLamports hamounts
  obtain ⟨f, hf, hft⟩ := exists_tierFeeLamports (mem_allowedRatios.mpr hratio)
  have hsame : f = a.feeLamports := by
    rw [← map_toNat_tierFeeLamports, hft, Option.map_some, ← hfee] at htier
    exact UInt64.toNat_inj.mp (Option.some.inj htier)
  subst hsame
  refine ⟨htotal, hbase, ?_, by rw [htokens, hbase], ?_, ?_, by decide, hf, hft⟩
  · rw [htotal, hbase]
    exact Nat.mul_dvd_mul_right hdvd _
  · rw [UInt64.le_iff_toNat_le, htokens, htotal, mul_le_supply_iff hpos (Nat.pow_pos (by decide))]
    exact (le_min_iff.mp hsize).1
  · rw [htotal]
    exact supply_le hdec

end Machine

/-- **Launch validation accepts exactly the intended parameters.**  Whatever the
parameters: they are accepted exactly if the decimals and the graduation threshold are
within their bounds and the size is between the minimum and what `max_collection_size`
allows for the ratio; then the derived amounts are the products they should be, the base
units of a ratio divide the supply, all assets at once take no more than the supply, which
is far below `2 ^ 64`, and the fee is the tier of the ratio.  Neither function panics on
any input, and no allowed ratio is without a tier. -/
theorem validation_exact (p : LaunchParams) :
    ((∃ a, Machine.validate p = .ok a) ↔
      p.decimals.toNat ≤ maxDecimals ∧
        (minGraduationThresholdLamports ≤ p.graduationThresholdLamports.toNat ∧
          p.graduationThresholdLamports.toNat ≤ maxGraduationThresholdLamports) ∧
        ∃ m, Machine.maxCollectionSizeOf p.ratioWholeTokens = .ok (some m) ∧
          minCollectionSize ≤ p.collectionSize.toNat ∧ p.collectionSize ≤ m) ∧
    (∀ a, Machine.validate p = .ok a →
      a.totalSupplyBase.toNat = 10 ^ 9 * 10 ^ p.decimals.toNat ∧
        a.ratioBase.toNat = p.ratioWholeTokens.toNat * 10 ^ p.decimals.toNat ∧
        a.ratioBase.toNat ∣ a.totalSupplyBase.toNat ∧
        a.maxTokensInNftForm.toNat = p.collectionSize.toNat * a.ratioBase.toNat ∧
        a.maxTokensInNftForm ≤ a.totalSupplyBase ∧
        a.totalSupplyBase.toNat ≤ 10 ^ 18 ∧ 10 ^ 18 < u64Size ∧
        Machine.feeForRatio p.ratioWholeTokens = some a.feeLamports ∧
        Machine.tierFeeLamports p.ratioWholeTokens = some a.feeLamports) ∧
    Avoids .panic (Machine.validate p) ∧
    Avoids .panic (Machine.maxCollectionSizeOf p.ratioWholeTokens) ∧
    ∀ ratio ∈ Machine.allowedRatios,
      ∃ f, Machine.feeForRatio ratio = some f ∧ Machine.tierFeeLamports ratio = some f := by
  refine ⟨Machine.exists_validate_iff, ?_, ?_, Machine.maxCollectionSizeOf_avoids _, ?_⟩
  · intro a ha
    exact Machine.validate_amounts ha
  · -- every error of the machine is one of the numbers', and those are no panics
    refine (Machine.validate_refines p).avoids_of_mapError ?_
    intro e
    simp
  · intro ratio h
    exact Machine.exists_tierFeeLamports h

/-- At nine decimals, the largest collection of the largest ratio takes the whole supply;
the products of one that is too large exceed 64 bits. -/
example :
    returns (Machine.validate ⟨9, 5_000_000, 200, 85_000_000_000⟩)
        (fun a => a.maxTokensInNftForm = a.totalSupplyBase) = true ∧
      Machine.validate ⟨9, 5_000_000, 10_000, 85_000_000_000⟩
        = .error (.launch .CollectionTooLargeForSupply) := by
  decide

end HybridVault
