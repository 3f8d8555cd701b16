import HybridVault.Foundations.Rejection
import HybridVault.Foundations.Words
import HybridVault.Selection

/-!
# `uniform_below` in machine words

`HybridVault.uniformBelow` computes with natural numbers.  The source computes with
`u64` and `u32`, where an addition can overflow, a subtraction can fall below zero, a
remainder can have no divisor, and a cast can lose bits.  Here is the same function at
the width of the machine, panicking wherever the release profile does, and what relates
the two.

* `zone_spec` — the zone is computed without a panic, and `zone + 1` words are
  accepted.
* `uniformBelow_refines` — the machine returns what the numbers say, and never
  panics.
-/

namespace HybridVault.Machine

open Foundations

/-- `u64::MAX`. -/
def u64Max : UInt64 := 0xffffffffffffffff

/-- `u64::MAX - (u64::MAX % n64 + 1) % n64`. -/
def zone (n64 : UInt64) : Res UInt64 := do
  let rest ← expect (Word.checkedRem u64Max n64) .panic
  let next ← expect (Word.checkedAdd rest 1) .panic
  let excess ← expect (Word.checkedRem next n64) .panic
  expect (Word.checkedSub u64Max excess) .panic

/-- `block.chunks_exact(8)`, each read by `u64::from_le_bytes`. -/
def chunks (block : Bytes32) : List UInt64 :=
  [0, 8, 16, 24].map fun o => UInt64.ofNat (readLE block.bytes o 8)

/-- The loop over the words of a block: the first accepted one, reduced. -/
def scan (zone n64 : UInt64) : List UInt64 → Res (Option UInt32)
  | [] => return none
  | x :: xs =>
      if x ≤ zone then do
        let k ← expect (Word.checkedRem x n64) .panic
        return some k.toUInt32
      else
        scan zone n64 xs

/-- The outer loop, on the blocks the compute budget still allows. -/
def uniformLoop (D : Deployment) (zone n64 : UInt64) : ℕ → Bytes32 → Res UInt32
  | 0, _ => .error .outOfCompute
  | rounds + 1, block => do
      match ← scan zone n64 (chunks block) with
      | some k => return k
      | none => uniformLoop D zone n64 rounds (resample D block)

/-- Uniform position in `[0, n)`. -/
def uniformBelow (D : Deployment) (r : Bytes32) (n : UInt32) : Res UInt32 := do
  require (0 < n) .panic
  let n64 := n.toUInt64
  let zone ← zone n64
  uniformLoop D zone n64 D.selectionRounds r

/-! ## The zone -/

/-- One more than the zone is the number of accepted words. -/
theorem zone_add_one {n : ℕ} (hn : 0 < n) (hle : n ≤ 2 ^ 64) :
    HybridVault.zone n + 1 = Rejection.cutoff (2 ^ 64) n := by
  have hmod : ((2 ^ 64 - 1) % n + 1) % n = 2 ^ 64 % n := Nat.mod_add_mod ..
  have hlt := Nat.mod_lt (2 ^ 64) hn
  rw [HybridVault.zone, Rejection.cutoff, hmod]
  omega

variable {n : UInt32} {z : UInt64}

/-- **No step of the zone overflows.** -/
theorem zone_spec (hn : 0 < n) :
    ∃ z, zone n.toUInt64 = .ok z ∧ z.toNat = HybridVault.zone n.toNat := by
  have hmax : u64Max.toNat = 2 ^ 64 - 1 := rfl
  have h64 : n.toUInt64.toNat = n.toNat := UInt32.toNat_toUInt64 n
  have hpos : 0 < n.toUInt64.toNat := h64.symm ▸ hn
  have hlt := n.toNat_lt
  obtain ⟨rest, hrest, hrestv⟩ := Word.exists_checkedRem (a := u64Max) hpos
  have hrestlt : rest.toNat < n.toUInt64.toNat := hrestv ▸ Nat.mod_lt _ hpos
  obtain ⟨next, hnext, hnextv⟩ := Word.exists_checkedAdd (a := rest) (b := 1)
    (show rest.toNat + 1 < 2 ^ 64 by omega)
  obtain ⟨excess, hexcess, hexcessv⟩ := Word.exists_checkedRem (a := next) hpos
  have hexcesslt : excess.toNat < n.toUInt64.toNat := hexcessv ▸ Nat.mod_lt _ hpos
  obtain ⟨z, hz, hzv⟩ := Word.exists_checkedSub (a := u64Max) (b := excess) (by omega)
  refine ⟨z, ?_, ?_⟩
  · simp only [zone, bind_eq_ok_iff, expect_eq_ok_iff]
    exact ⟨rest, hrest, next, hnext, excess, hexcess, hz⟩
  · rw [hzv, hexcessv, hnextv, hrestv, hmax, h64]
    rfl

/-! ## The words of a block -/

theorem map_toNat_chunks (block : Bytes32) :
    (chunks block).map UInt64.toNat = blockWords block := by
  rw [chunks, blockWords, List.map_map]
  apply List.map_congr_left
  intro o _
  exact UInt64.toNat_ofNat_of_lt' (readLE_lt block.bytes o 8)

/-- A rejected word is passed over. -/
theorem scan_cons_of_lt {n64 x : UInt64} {xs : List UInt64} (h : z < x) :
    scan z n64 (x :: xs) = scan z n64 xs := by
  rw [scan, if_neg (UInt64.not_le.mpr h)]

/-- The loop ends at an accepted word, and the cast to `u32` keeps its remainder. -/
theorem scan_cons_of_le (hn : 0 < n) {x : UInt64} (h : x ≤ z) :
    ∃ k : UInt32, k.toNat = x.toNat % n.toNat ∧
      ∀ xs, scan z n.toUInt64 (x :: xs) = .ok (some k) := by
  have h64 : n.toUInt64.toNat = n.toNat := UInt32.toNat_toUInt64 n
  obtain ⟨k, hk, hkv⟩ := Word.exists_checkedRem (a := x) (b := n.toUInt64) (h64.symm ▸ hn)
  rw [h64] at hkv
  have hklt : k.toNat < 2 ^ 32 := hkv ▸ (Nat.mod_lt _ hn).trans n.toNat_lt
  refine ⟨k.toUInt32, ?_, ?_⟩
  · rw [UInt64.toNat_toUInt32, Nat.mod_eq_of_lt hklt, hkv]
  · intro xs
    rw [scan, if_pos h, hk]
    rfl

/-- The loop over a block returns the first accepted word of it, reduced. -/
theorem scan_eq_ok (hn : 0 < n) (z : UInt64) (xs : List UInt64) :
    ∃ o, scan z n.toUInt64 xs = .ok o ∧
      o.map UInt32.toNat = ((xs.map UInt64.toNat).find? (· ≤ z.toNat)).map (· % n.toNat) := by
  induction xs with
  | nil => exact ⟨none, rfl, rfl⟩
  | cons x xs ih =>
      by_cases h : x ≤ z
      · obtain ⟨k, hk, hscan⟩ := scan_cons_of_le hn h
        refine ⟨some k, hscan xs, ?_⟩
        rw [List.map_cons, List.find?_cons_of_pos (by simpa [UInt64.le_iff_toNat_le] using h),
          Option.map_some, hk]
        rfl
      · rw [scan_cons_of_lt (UInt64.not_le.mp h), List.map_cons,
          List.find?_cons_of_neg (by simpa [UInt64.le_iff_toNat_le] using h)]
        exact ih

/-! ## The two levels agree -/

theorem uniformLoop_refines (hn : 0 < n) (hz : z.toNat = HybridVault.zone n.toNat) (D : Deployment)
    (rounds : ℕ) (block : Bytes32) :
    Refines (fun k j => k.toNat = j) (uniformLoop D z n.toUInt64 rounds block)
      (HybridVault.uniformLoop D n.toNat rounds block) := by
  induction rounds generalizing block with
  | zero => exact .of_error rfl rfl
  | succ rounds ih =>
      obtain ⟨o, hscan, ho⟩ := scan_eq_ok hn z (chunks block)
      rw [map_toNat_chunks, hz] at ho
      rw [uniformLoop, hscan, ok_bind, HybridVault.uniformLoop]
      cases hfind : (blockWords block).find? (· ≤ HybridVault.zone n.toNat) with
      | some x =>
          rw [hfind, Option.map_some] at ho
          obtain ⟨k, rfl, hk⟩ := Option.map_eq_some_iff.mp ho
          exact .of_ok rfl rfl hk
      | none =>
          rw [hfind, Option.map_none, Option.map_eq_none_iff] at ho
          subst ho
          exact ih (resample D block)

/-- For some entries, the function is its loop with the zone. -/
theorem uniformBelow_eq (hn : 0 < n) (hzone : zone n.toUInt64 = .ok z) (D : Deployment)
    (r : Bytes32) :
    uniformBelow D r n = uniformLoop D z n.toUInt64 D.selectionRounds r := by
  simp only [uniformBelow, require_of hn, hzone, ok_bind]

/-- **The machine computes what the numbers say.** -/
theorem uniformBelow_refines (D : Deployment) (r : Bytes32) (n : UInt32) :
    Refines (fun k j => k.toNat = j) (uniformBelow D r n)
      (HybridVault.uniformBelow D r n.toNat) := by
  by_cases hn : 0 < n
  · have hpos : 0 < n.toNat := hn
    obtain ⟨z, hzone, hz⟩ := zone_spec hn
    rw [uniformBelow_eq hn hzone, HybridVault.uniformBelow, require_of hpos, ok_bind]
    exact uniformLoop_refines hn hz D D.selectionRounds r
  · have hpos : ¬ 0 < n.toNat := hn
    rw [uniformBelow, HybridVault.uniformBelow, require_of_not hn, require_of_not hpos]
    exact .of_error rfl rfl

end HybridVault.Machine
