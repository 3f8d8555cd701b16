import Mathlib.Data.Nat.Bitwise
import Mathlib.Tactic.Ring

/-!
# Checked words

The operations on 64-bit words that return nothing instead of a wrong value: where the
true result does not fit, and where the divisor is zero.  Each computes with the word
operation, and its specification is over the natural numbers — the result is the word
of the true value.  A chain of checked operations is thereby a chain of equations
between natural numbers, in which nothing wraps.
-/

namespace Foundations.Word

/-! ## The operations -/

/-- The sum, if it fits. -/
def checkedAdd (a b : UInt64) : Option UInt64 :=
  if a.toNat + b.toNat < 2 ^ 64 then some (a + b) else none

/-- The difference, if it is not negative. -/
def checkedSub (a b : UInt64) : Option UInt64 := if b ≤ a then some (a - b) else none

/-- The product, if it fits. -/
def checkedMul (a b : UInt64) : Option UInt64 :=
  if a.toNat * b.toNat < 2 ^ 64 then some (a * b) else none

/-- The power, if it fits. -/
def checkedPow (a : UInt64) (e : ℕ) : Option UInt64 :=
  if a.toNat ^ e < 2 ^ 64 then some (a ^ e) else none

/-- The quotient, if there is one. -/
def checkedDiv (a b : UInt64) : Option UInt64 := if b = 0 then none else some (a / b)

/-- The remainder, if there is one. -/
def checkedRem (a b : UInt64) : Option UInt64 := if b = 0 then none else some (a % b)

/-! ## What they compute -/

theorem toNat_pow (a : UInt64) (e : ℕ) : (a ^ e).toNat = a.toNat ^ e % 2 ^ 64 := by
  induction e with
  | zero => rfl
  | succ e ih =>
      have hsucc : a ^ (e + 1) = a ^ e * a := rfl
      rw [hsucc, UInt64.toNat_mul, ih, Nat.mod_mul_mod, ← pow_succ]

variable {a b : UInt64}

theorem eq_zero_iff : a = 0 ↔ a.toNat = 0 := UInt64.toNat_inj.symm

theorem map_toNat_checkedAdd : (checkedAdd a b).map UInt64.toNat
    = if a.toNat + b.toNat < 2 ^ 64 then some (a.toNat + b.toNat) else none := by
  unfold checkedAdd
  split
  case isTrue h => rw [Option.map_some, UInt64.toNat_add, Nat.mod_eq_of_lt h]
  case isFalse => rfl

theorem map_toNat_checkedSub : (checkedSub a b).map UInt64.toNat
    = if b.toNat ≤ a.toNat then some (a.toNat - b.toNat) else none := by
  unfold checkedSub
  simp only [UInt64.le_iff_toNat_le]
  split
  case isTrue h =>
    rw [Option.map_some, UInt64.toNat_sub_of_le a b (UInt64.le_iff_toNat_le.mpr h)]
  case isFalse => rfl

theorem map_toNat_checkedMul : (checkedMul a b).map UInt64.toNat
    = if a.toNat * b.toNat < 2 ^ 64 then some (a.toNat * b.toNat) else none := by
  unfold checkedMul
  split
  case isTrue h => rw [Option.map_some, UInt64.toNat_mul, Nat.mod_eq_of_lt h]
  case isFalse => rfl

theorem map_toNat_checkedPow {e : ℕ} : (checkedPow a e).map UInt64.toNat
    = if a.toNat ^ e < 2 ^ 64 then some (a.toNat ^ e) else none := by
  unfold checkedPow
  split
  case isTrue h => rw [Option.map_some, toNat_pow, Nat.mod_eq_of_lt h]
  case isFalse => rfl

theorem map_toNat_checkedDiv : (checkedDiv a b).map UInt64.toNat
    = if b.toNat = 0 then none else some (a.toNat / b.toNat) := by
  unfold checkedDiv
  simp only [eq_zero_iff]
  split
  case isTrue => rfl
  case isFalse => rw [Option.map_some, UInt64.toNat_div]

theorem map_toNat_checkedRem : (checkedRem a b).map UInt64.toNat
    = if b.toNat = 0 then none else some (a.toNat % b.toNat) := by
  unfold checkedRem
  simp only [eq_zero_iff]
  split
  case isTrue => rfl
  case isFalse => rw [Option.map_some, UInt64.toNat_mod]

/-- A result is the word of the value it stands for. -/
theorem toNat_of_map_eq {o : Option UInt64} {p : Prop} [Decidable p] {v : ℕ} {c : UInt64}
    (h : o = some c) (hmap : o.map UInt64.toNat = if p then some v else none) : c.toNat = v := by
  rw [h, Option.map_some] at hmap
  split at hmap
  case isTrue => exact Option.some.inj hmap
  case isFalse => cases hmap

theorem toNat_of_checkedMul {c : UInt64} (h : checkedMul a b = some c) :
    c.toNat = a.toNat * b.toNat :=
  toNat_of_map_eq h map_toNat_checkedMul

theorem toNat_of_checkedPow {e : ℕ} {c : UInt64} (h : checkedPow a e = some c) :
    c.toNat = a.toNat ^ e :=
  toNat_of_map_eq h map_toNat_checkedPow

/-! ## When they succeed -/

theorem exists_checkedAdd (h : a.toNat + b.toNat < 2 ^ 64) :
    ∃ c, checkedAdd a b = some c ∧ c.toNat = a.toNat + b.toNat :=
  Option.map_eq_some_iff.mp (map_toNat_checkedAdd.trans (if_pos h))

theorem exists_checkedSub (h : b.toNat ≤ a.toNat) :
    ∃ c, checkedSub a b = some c ∧ c.toNat = a.toNat - b.toNat :=
  Option.map_eq_some_iff.mp (map_toNat_checkedSub.trans (if_pos h))

theorem exists_checkedDiv (h : 0 < b.toNat) :
    ∃ c, checkedDiv a b = some c ∧ c.toNat = a.toNat / b.toNat :=
  Option.map_eq_some_iff.mp (map_toNat_checkedDiv.trans (if_neg (Nat.ne_of_gt h)))

theorem exists_checkedRem (h : 0 < b.toNat) :
    ∃ c, checkedRem a b = some c ∧ c.toNat = a.toNat % b.toNat :=
  Option.map_eq_some_iff.mp (map_toNat_checkedRem.trans (if_neg (Nat.ne_of_gt h)))

/-! ## Constants -/

theorem ofNat_le_iff {v : ℕ} (h : v < 2 ^ 64) : UInt64.ofNat v ≤ a ↔ v ≤ a.toNat := by
  rw [UInt64.le_iff_toNat_le, UInt64.toNat_ofNat_of_lt' h]

theorem le_ofNat_iff {v : ℕ} (h : v < 2 ^ 64) : a ≤ UInt64.ofNat v ↔ a.toNat ≤ v := by
  rw [UInt64.le_iff_toNat_le, UInt64.toNat_ofNat_of_lt' h]

theorem ofNat_eq_iff {v : ℕ} (h : v < 2 ^ 64) : UInt64.ofNat v = a ↔ v = a.toNat := by
  rw [← UInt64.toNat_inj, UInt64.toNat_ofNat_of_lt' h]

end Foundations.Word
