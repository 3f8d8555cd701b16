import Mathlib.Data.Int.CardIntervalMod
import Mathlib.Data.Set.Card

/-!
# Rejection sampling

A draw among `n` things by a number below `N`: the numbers from the last multiple of
`n` on are rejected, and the others are reduced modulo `n`.

* `isGreatest_cutoff` — rejecting fewer is impossible: the accepted numbers are as many
  as a multiple of `n` can be.
* `uniform_draw` — each residue is drawn by equally many accepted numbers.

`Uniform` is what is proved about a draw, and it is carried along what is done with
one: representing the numbers in another type (`Uniform.comp_injective`), and looking the
result up in a list without repetition (`Uniform.lookup`).
-/

namespace Foundations.Rejection

universe u v w

variable {α : Type u} {β : Type v}

/-! ## Uniform draws -/

/-- Every point of `s` is drawn by exactly `c` arguments. -/
def Uniform (f : β → Option α) (s : Set α) (c : ℕ) : Prop :=
  ∀ a ∈ s, {x | f x = some a}.ncard = c

section Uniform

variable {f : β → Option α} {s : Set α} {c : ℕ}

/-- Restricting the arguments to a type that has all the accepted ones. -/
theorem Uniform.comp_injective {γ : Type w} (h : Uniform f s c) {t : γ → β} (ht : t.Injective)
    (hrange : ∀ x a, f x = some a → x ∈ Set.range t) : Uniform (f ∘ t) s c := by
  intro a ha
  have himage : t '' {y | (f ∘ t) y = some a} = {x | f x = some a} := by
    ext x
    constructor
    · rintro ⟨y, hy, rfl⟩
      exact hy
    · intro hx
      obtain ⟨y, rfl⟩ := hrange x a hx
      exact ⟨y, hx, rfl⟩
  rw [← h a ha, ← himage, Set.ncard_image_of_injective _ ht]

/-- Drawing an entry by its position. -/
theorem Uniform.lookup {f : β → Option ℕ} {l : List α} (hl : l.Nodup)
    (h : Uniform f {k | k < l.length} c) :
    Uniform (fun x => (f x).bind (l[·]?)) {a | a ∈ l} c := by
  intro a ha
  obtain ⟨k, hk, rfl⟩ := List.mem_iff_getElem.mp ha
  rw [← h k hk]
  congr 1
  ext x
  simp only [Set.mem_ofPred_eq, Option.bind_eq_some_iff]
  constructor
  · rintro ⟨j, hj, hget⟩
    obtain ⟨hlt, heq⟩ := List.getElem?_eq_some_iff.mp hget
    rw [hj, (hl.getElem_inj_iff).mp heq]
  · intro hx
    exact ⟨k, hx, List.getElem?_eq_getElem hk⟩

end Uniform

/-! ## The cutoff -/

variable {N n : ℕ}

/-- How many of the numbers below `N` are accepted. -/
def cutoff (N n : ℕ) : ℕ := N - N % n

theorem cutoff_le : cutoff N n ≤ N := Nat.sub_le _ _

theorem dvd_cutoff : n ∣ cutoff N n := Nat.dvd_sub_mod N

/-- **As many are accepted as can be.** -/
theorem isGreatest_cutoff : IsGreatest {m | n ∣ m ∧ m ≤ N} (cutoff N n) := by
  refine ⟨⟨dvd_cutoff, cutoff_le⟩, ?_⟩
  rintro _ ⟨⟨q, rfl⟩, hle⟩
  have hsplit := Nat.div_add_mod N n
  have hq : n * q ≤ n * (N / n) := by
    rcases Nat.eq_zero_or_pos n with rfl | hn
    · simp
    · exact Nat.mul_le_mul_left n ((Nat.le_div_iff_mul_le hn).mpr (by rwa [Nat.mul_comm]))
  rw [cutoff]
  omega

/-- The draw among `n` by the number `x`. -/
def draw (N n x : ℕ) : Option ℕ := if x < cutoff N n then some (x % n) else none

theorem draw_eq_some_iff {x k : ℕ} : draw N n x = some k ↔ x < cutoff N n ∧ x % n = k := by
  simp [draw]

/-- **Each of the `n` is drawn by equally many numbers.** -/
theorem uniform_draw (N n : ℕ) : Uniform (draw N n) {k | k < n} (cutoff N n / n) := by
  intro k hk
  have hn : 0 < n := Nat.zero_lt_of_lt hk
  have hset : {x | draw N n x = some k}
      = ↑((Finset.range (cutoff N n)).filter (· ≡ k [MOD n])) := by
    ext x
    simp [draw_eq_some_iff, Nat.ModEq, Nat.mod_eq_of_lt hk]
  have hmod : cutoff N n % n = 0 := Nat.mod_eq_zero_of_dvd dvd_cutoff
  rw [hset, Set.ncard_coe_finset, ← Nat.count_eq_card_filter_range, Nat.count_modEq_card _ hn, hmod,
    if_neg (Nat.not_lt_zero _), Nat.add_zero]

end Foundations.Rejection
