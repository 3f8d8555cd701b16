import Mathlib.Data.List.Basic
import Mathlib.Data.Nat.Bitwise
import Mathlib.Data.Nat.Log

/-!
# Positional pair trees

A list is folded to one value by pairing neighbours, level by level; an odd last
entry is paired with itself.  A path holds, for one position, the neighbour at
each level below the top, and climbing it recomputes the top: the position's bits
say on which side the neighbour stands.

The combining function is a parameter.  With a hash for it this is the usual
Merkle tree over a list of any length, and `climb_path` is its completeness: the
honest path of every position climbs to the top.  Its length depends on the
length of the list alone (`length_path`).  `climb_inj_or` is its binding: two
climbs from one position to one top are the same climb, or somewhere on them two
different pairs combine to the same value.
-/

namespace Foundations.PairTree

universe u

variable {α : Type u} (node : α → α → α)

/-- The next level up. -/
def parents : List α → List α
  | [] => []
  | [a] => [node a a]
  | a :: b :: rest => node a b :: parents rest

/-- The levels from the leaves to the top.  The first argument bounds their
number. -/
def levels : ℕ → List α → List (List α)
  | 0, l => [l]
  | fuel + 1, l => if 1 < l.length then l :: levels fuel (parents node l) else [l]

/-- The neighbour of position `i`, or the entry itself where it has none. -/
def sibling? (level : List α) (i : ℕ) : Option α := level[i ^^^ 1]?.or level[i]?

/-- The neighbours of position `i` along the levels. -/
def path : List (List α) → ℕ → List α
  | [], _ => []
  | level :: rest, i => (sibling? level i).toList ++ path rest (i >>> 1)

/-- Recompute the top from an entry at position `i`. -/
def climb : List α → ℕ → α → α
  | [], _, x => x
  | sib :: rest, i, x => climb rest (i >>> 1) (if i &&& 1 = 0 then node x sib else node sib x)

/-! ## One level -/

@[simp] theorem length_parents (l : List α) : (parents node l).length = (l.length + 1) / 2 := by
  induction l using parents.induct with
  | case1 => simp [parents]
  | case2 => simp [parents]
  | case3 a b rest ih => simp only [parents, List.length_cons, ih]; omega

theorem xor_one_add_two (i : ℕ) : (i + 2) ^^^ 1 = (i ^^^ 1) + 2 := by
  rcases Nat.mod_two_eq_zero_or_one i with h | h
  · have h2 : (i + 2) % 2 = 0 := by omega
    rw [Nat.xor_one_of_even (Nat.even_iff.mpr h), Nat.xor_one_of_even (Nat.even_iff.mpr h2)]
  · have h2 : (i + 2) % 2 = 1 := by omega
    rw [Nat.xor_one_of_odd (Nat.odd_iff.mpr h), Nat.xor_one_of_odd (Nat.odd_iff.mpr h2)]
    omega

/-- Combining an entry with its neighbour gives the entry above. -/
theorem parents_getElem? {l : List α} {i : ℕ} {x : α} (hx : l[i]? = some x) :
    ∃ sib, sibling? l i = some sib ∧
      (parents node l)[i >>> 1]? = some (if i &&& 1 = 0 then node x sib else node sib x) := by
  induction l using parents.induct generalizing i with
  | case1 => simp at hx
  | case2 a =>
      obtain ⟨rfl, rfl⟩ : i = 0 ∧ a = x := by
        rw [List.getElem?_singleton] at hx
        split at hx <;> simp_all
      exact ⟨a, rfl, rfl⟩
  | case3 a b rest ih =>
      match i with
      | 0 => exact ⟨b, rfl, by simp_all [parents]⟩
      | 1 => exact ⟨a, rfl, by simp_all [parents]⟩
      | i + 2 =>
          obtain ⟨sib, hsib, hparent⟩ := ih (i := i) (by simpa using hx)
          have hshift : (i + 2) >>> 1 = (i >>> 1) + 1 := by
            simp only [Nat.shiftRight_one]; omega
          have hbit : (i + 2) &&& 1 = i &&& 1 := by
            simp only [Nat.and_one_is_mod]; omega
          refine ⟨sib, ?_, ?_⟩
          · simpa [sibling?, xor_one_add_two] using hsib
          · rw [hshift, hbit, parents, List.getElem?_cons_succ, hparent]

/-! ## All levels -/

theorem levels_ne_nil (fuel : ℕ) (l : List α) : levels node fuel l ≠ [] := by
  cases fuel with
  | zero => simp [levels]
  | succ fuel => rw [levels]; split <;> simp

/-- **Completeness.**  The path of a position climbs from its entry to the top. -/
theorem climb_path {fuel : ℕ} {l : List α} {i : ℕ} {x : α} (hfuel : l.length ≤ 2 ^ fuel)
    (hx : l[i]? = some x) :
    ∃ top, (levels node fuel l).getLast? = some [top] ∧
      climb node (path (levels node fuel l).dropLast i) i x = top := by
  have hi : i < l.length := (List.getElem?_eq_some_iff.mp hx).1
  have hsingle : l.length ≤ 1 → l = [x] ∧ i = 0 := by
    intro hone
    obtain ⟨a, rfl⟩ := List.length_eq_one_iff.mp (by omega : l.length = 1)
    obtain rfl : i = 0 := by simpa using hi
    exact ⟨by simpa using hx, rfl⟩
  induction fuel generalizing l i x with
  | zero =>
      obtain ⟨rfl, rfl⟩ := hsingle (by simpa using hfuel)
      exact ⟨x, rfl, rfl⟩
  | succ fuel ih =>
      by_cases hlong : 1 < l.length
      · obtain ⟨sib, hsib, hparent⟩ := parents_getElem? node hx
        have hlen : (parents node l).length ≤ 2 ^ fuel := by
          rw [length_parents]
          rw [Nat.pow_succ] at hfuel
          omega
        have hi' : i >>> 1 < (parents node l).length := (List.getElem?_eq_some_iff.mp hparent).1
        obtain ⟨top, htop, hclimb⟩ := ih hlen hparent hi' fun hone => by
          obtain ⟨a, ha⟩ := List.length_eq_one_iff.mp (by omega : (parents node l).length = 1)
          rw [ha] at hparent hi'
          obtain h0 : i >>> 1 = 0 := by simpa using hi'
          rw [h0] at hparent
          exact ⟨by rw [ha]; simpa using hparent, h0⟩
        refine ⟨top, ?_, ?_⟩
        · rw [levels, if_pos hlong, List.getLast?_cons_of_ne_nil (levels_ne_nil node _ _), htop]
        · rw [levels, if_pos hlong, List.dropLast_cons_of_ne_nil (levels_ne_nil node _ _), path,
            hsib, Option.toList_some, List.singleton_append, climb, hclimb]
      · obtain ⟨rfl, rfl⟩ := hsingle (by omega)
        exact ⟨x, by simp [levels], by simp [levels, path, climb]⟩

theorem length_levels {fuel : ℕ} {l : List α} (hfuel : l.length ≤ 2 ^ fuel) :
    (levels node fuel l).length = Nat.clog 2 l.length + 1 := by
  induction fuel generalizing l with
  | zero =>
      have hone : l.length ≤ 1 := by simpa using hfuel
      rw [levels, Nat.clog_of_right_le_one hone]
      rfl
  | succ fuel ih =>
      by_cases hlong : 1 < l.length
      · have hlen : (parents node l).length ≤ 2 ^ fuel := by
          rw [length_parents]
          rw [Nat.pow_succ] at hfuel
          omega
        have hclog : Nat.clog 2 l.length = Nat.clog 2 ((l.length + 1) / 2) + 1 :=
          Nat.clog_of_two_le (by omega) (by omega)
        rw [levels, if_pos hlong, List.length_cons, ih hlen, length_parents, hclog]
      · rw [levels, if_neg hlong, Nat.clog_of_right_le_one (by omega)]
        rfl

/-- A path has one entry for each level below the top. -/
theorem length_path {fuel : ℕ} {l : List α} {i : ℕ} (hfuel : l.length ≤ 2 ^ fuel)
    (hi : i < l.length) :
    (path (levels node fuel l).dropLast i).length = Nat.clog 2 l.length := by
  have main : ∀ (fuel : ℕ) (l : List α) (i : ℕ), i < l.length →
      (path (levels node fuel l).dropLast i).length = (levels node fuel l).dropLast.length := by
    intro fuel
    induction fuel with
    | zero => intros; rfl
    | succ fuel ih =>
        intro l i hi
        by_cases hlong : 1 < l.length
        · obtain ⟨sib, hsib, hparent⟩ := parents_getElem? node (List.getElem?_eq_getElem hi)
          have hi' := (List.getElem?_eq_some_iff.mp hparent).1
          rw [levels, if_pos hlong, List.dropLast_cons_of_ne_nil (levels_ne_nil node _ _), path,
            hsib, Option.toList_some, List.singleton_append, List.length_cons, List.length_cons,
            ih _ _ hi']
        · rw [levels, if_neg hlong]
          rfl
  rw [main fuel l i hi, List.length_dropLast, length_levels node hfuel, Nat.add_sub_cancel]

/-! ## Binding -/

/-- An entry and its neighbour, in the order their parent takes them. -/
def ordered (i : ℕ) (x sib : α) : α × α := if i &&& 1 = 0 then (x, sib) else (sib, x)

/-- The pairs a climb combines, from the bottom to the top. -/
def combined : List α → ℕ → α → List (α × α)
  | [], _, _ => []
  | sib :: rest, i, x =>
      ordered i x sib :: combined rest (i >>> 1) (node (ordered i x sib).1 (ordered i x sib).2)

theorem climb_cons (sib : α) (rest : List α) (i : ℕ) (x : α) :
    climb node (sib :: rest) i x
      = climb node rest (i >>> 1) (node (ordered i x sib).1 (ordered i x sib).2) := by
  rw [climb, ordered]
  split <;> rfl

theorem ordered_inj {i : ℕ} {x x' sib sib' : α} (h : ordered i x sib = ordered i x' sib') :
    x = x' ∧ sib = sib' := by
  rw [ordered, ordered] at h
  split at h <;> obtain ⟨rfl, rfl⟩ := Prod.mk.inj h <;> exact ⟨rfl, rfl⟩

/-- **Binding.**  Two climbs from one position to one top are equal, or combine two
different pairs to the same value. -/
theorem climb_inj_or {p p' : List α} {i : ℕ} {x x' : α} (hlen : p.length = p'.length)
    (h : climb node p i x = climb node p' i x') :
    (x = x' ∧ p = p') ∨ ∃ a ∈ combined node p i x, ∃ b ∈ combined node p' i x',
      a ≠ b ∧ node a.1 a.2 = node b.1 b.2 := by
  induction p generalizing p' i x x' with
  | nil =>
      obtain rfl := List.length_eq_zero_iff.mp hlen.symm
      exact Or.inl ⟨h, rfl⟩
  | cons sib rest ih =>
      obtain ⟨sib', rest', rfl⟩ := List.exists_cons_of_length_eq_add_one hlen.symm
      rw [climb_cons, climb_cons] at h
      rcases ih (by simpa using hlen) h with ⟨hnode, rfl⟩ | ⟨a, ha, b, hb, hcollide⟩
      · -- the parents agree: so do the pairs below, or they collide
        by_cases hpair : ordered i x sib = ordered i x' sib'
        · obtain ⟨rfl, rfl⟩ := ordered_inj hpair
          exact Or.inl ⟨rfl, rfl⟩
        · exact Or.inr ⟨_, List.mem_cons_self .., _, List.mem_cons_self .., hpair, hnode⟩
      · exact Or.inr ⟨a, List.mem_cons_of_mem _ ha, b, List.mem_cons_of_mem _ hb, hcollide⟩

end Foundations.PairTree
