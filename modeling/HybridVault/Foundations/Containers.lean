import Mathlib.Data.List.Basic
import Mathlib.Data.List.Perm.Basic
import Mathlib.Data.Int.ModEq

/-!
# Swap-remove arrays, ring buffers and prefix splits

Three list-level data structures that fixed-capacity containers are usually
built from, each with the equations its client needs and no others:

* `swapRemove` — drop one position of an array by moving the last entry into
  it.  As a multiset nothing else happens (`cons_swapRemove_perm`).
* `ringList` — the contents of a ring buffer, read off an addressing function.
  Writing the cell behind the last one appends (`ringList_push`); advancing
  the head drops the first (`ringList_pop`).
* maps written at one key (`update_eq_some_iff`), maps that differ at entries of one
  kind only (`DifferAt`), and amounts moved between two keys (`moveAmount`).
* splits at a threshold — `takeWhile`/`dropWhile` for two predicates of which
  one implies the other.  A threshold that rises from `p` to `q` releases
  exactly the next block (`takeWhile_eq_append`).
-/

namespace Foundations

universe u

variable {α : Type u}

/-! ## Swap-remove -/

/-- Remove position `i` by overwriting it with the last entry. -/
def swapRemove (l : List α) (i : ℕ) : List α :=
  match l.getLast? with
  | none => []
  | some z => (l.set i z).dropLast

@[simp] theorem length_swapRemove (l : List α) (i : ℕ) :
    (swapRemove l i).length = l.length - 1 := by
  unfold swapRemove
  cases h : l.getLast? with
  | none => simp [List.getLast?_eq_none_iff.mp h]
  | some z => simp

/-- Swap-remove takes out the entry at `i` and nothing else. -/
theorem cons_swapRemove_perm {l : List α} {i : ℕ} (h : i < l.length) :
    (l[i] :: swapRemove l i).Perm l := by
  obtain ⟨init, z, rfl⟩ : ∃ init z, l = init ++ [z] :=
    ⟨l.dropLast, l.getLast (by rintro rfl; simp at h),
      (List.dropLast_append_getLast _).symm⟩
  have hlast : (init ++ [z]).getLast? = some z := by simp
  simp only [swapRemove, hlast]
  by_cases hi : i < init.length
  · obtain ⟨a, b, hinit, hlen⟩ : ∃ a b, init = a ++ init[i] :: b ∧ a.length = i :=
      ⟨init.take i, init.drop (i + 1), by simp, by simp; omega⟩
    have hset : (init ++ [z]).set i z = (a ++ z :: b) ++ [z] := by
      rw [List.set_append_left _ _ hi]
      congr 1
      conv_lhs => rw [hinit]
      rw [List.set_append_right _ _ (by omega)]
      simp [hlen]
    rw [hset, List.dropLast_concat, List.getElem_append_left hi]
    conv_rhs => rw [hinit]
    generalize init[i] = x
    rw [List.append_assoc, List.cons_append]
    refine (List.perm_middle.symm).trans ?_
    refine List.Perm.append_left a (List.Perm.cons x ?_)
    exact (List.perm_append_singleton z b).symm
  · have hi' : i = init.length := by
      simp only [List.length_append, List.length_singleton] at h
      omega
    subst hi'
    have hset : (init ++ [z]).set init.length z = init ++ [z] := by simp
    rw [hset, List.dropLast_concat]
    simpa using (List.perm_append_singleton z init).symm

/-- Swap-remove of a tabulated array: one cell is overwritten by the last. -/
theorem swapRemove_map_range (f : ℕ → α) {n i : ℕ} (hi : i < n) :
    swapRemove ((List.range n).map f) i
      = (List.range (n - 1)).map fun j => if j = i then f (n - 1) else f j := by
  obtain ⟨m, rfl⟩ : ∃ m, n = m + 1 := ⟨n - 1, by omega⟩
  have hlast : ((List.range (m + 1)).map f).getLast? = some (f m) := by
    simp [List.range_succ]
  simp only [swapRemove, hlast, Nat.add_sub_cancel]
  apply List.ext_getElem?
  intro j
  by_cases hj : j < m
  · rw [List.getElem?_dropLast, List.getElem?_set]
    simp only [List.length_map, List.length_range, List.getElem?_map, List.length_set]
    rw [List.getElem?_range (by omega : j < m + 1), List.getElem?_range hj]
    by_cases hij : i = j
    · subst hij; simp [hi, hj]
    · simp [hij, Ne.symm hij, hj]
  · rw [List.getElem?_eq_none (by simp; omega), List.getElem?_eq_none (by simp; omega)]

/-! ## Ring buffers -/

/-- The `len` cells of a ring of `cap` cells from `head`, in FIFO order. -/
def ringList (cell : ℕ → α) (cap head len : ℕ) : List α :=
  (List.range len).map fun j => cell ((head + j) % cap)

@[simp] theorem length_ringList (cell : ℕ → α) (cap head len : ℕ) :
    (ringList cell cap head len).length = len := by
  simp [ringList]

/-- Distinct places of one ring segment are distinct cells. -/
theorem ring_index_ne {cap head i j : ℕ} (hi : i < cap) (hj : j < cap) (h : i ≠ j) :
    (head + i) % cap ≠ (head + j) % cap := by
  intro he
  have hmod : i % cap = j % cap := Nat.ModEq.add_left_cancel' head he
  rw [Nat.mod_eq_of_lt hi, Nat.mod_eq_of_lt hj] at hmod
  exact h hmod

/-- Writing the cell behind the last one appends. -/
theorem ringList_push {cell cell' : ℕ → α} {cap head len : ℕ} {x : α}
    (hlen : len < cap) (hx : cell' ((head + len) % cap) = x)
    (hold : ∀ k, k ≠ (head + len) % cap → k < cap → cell' k = cell k) :
    ringList cell' cap head (len + 1) = ringList cell cap head len ++ [x] := by
  simp only [ringList, List.range_succ, List.map_append, List.map_cons, List.map_nil, hx]
  congr 1
  apply List.map_congr_left
  intro j hj
  have hj' : j < len := List.mem_range.mp hj
  exact hold _ (ring_index_ne (by omega) hlen (by omega)) (Nat.mod_lt _ (by omega))

/-- Advancing the head drops the first entry. -/
theorem ringList_pop {cell : ℕ → α} {cap head len : ℕ} :
    ringList cell cap head (len + 1)
      = cell (head % cap) :: ringList cell cap ((head + 1) % cap) len := by
  simp only [ringList, List.range_succ_eq_map, List.map_cons, List.map_map, Nat.add_zero]
  congr 1
  apply List.map_congr_left
  intro j _
  simp only [Function.comp_apply, Nat.mod_add_mod]
  congr 2
  omega

/-! ## Splits at a rising threshold -/

/-- Raising the threshold from `p` to `q` releases the next block. -/
theorem takeWhile_eq_append {p q : α → Bool} (hpq : ∀ x, p x → q x) (l : List α) :
    l.takeWhile q = l.takeWhile p ++ (l.dropWhile p).takeWhile q := by
  induction l with
  | nil => rfl
  | cons x l ih =>
      by_cases hp : p x
      · simp [hp, hpq x hp, ih]
      · simp [hp]

theorem dropWhile_dropWhile_of_imp {p q : α → Bool} (hpq : ∀ x, p x → q x) (l : List α) :
    (l.dropWhile p).dropWhile q = l.dropWhile q := by
  induction l with
  | nil => rfl
  | cons x l ih =>
      by_cases hp : p x
      · simp [hp, hpq x hp, ih]
      · simp [hp]

theorem takeWhile_takeWhile_of_imp {p q : α → Bool} (hpq : ∀ x, p x → q x) (l : List α) :
    (l.takeWhile q).takeWhile p = l.takeWhile p := by
  induction l with
  | nil => rfl
  | cons x l ih =>
      by_cases hp : p x
      · simp [hp, hpq x hp, ih]
      · by_cases hq : q x <;> simp [hp, hq]

theorem takeWhile_dropWhile_comm {p q : α → Bool} (hpq : ∀ x, p x → q x) (l : List α) :
    (l.dropWhile p).takeWhile q = (l.takeWhile q).dropWhile p := by
  induction l with
  | nil => rfl
  | cons x l ih =>
      by_cases hp : p x
      · simp [hp, hpq x hp, ih]
      · by_cases hq : q x <;> simp [hp, hq]

/-- A refused last entry is invisible to `takeWhile`. -/
theorem takeWhile_concat_of_not {p : α → Bool} {x : α} (hx : ¬ p x) (l : List α) :
    (l ++ [x]).takeWhile p = l.takeWhile p := by
  induction l with
  | nil => simp [hx]
  | cons y l ih => by_cases hy : p y <;> simp [hy, ih]

theorem dropWhile_concat_of_not {p : α → Bool} {x : α} (hx : ¬ p x) (l : List α) :
    (l ++ [x]).dropWhile p = l.dropWhile p ++ [x] := by
  induction l with
  | nil => simp [hx]
  | cons y l ih => by_cases hy : p y <;> simp [hy, ih]

/-- Dropping part of the accepted prefix leaves the rest of it. -/
theorem takeWhile_drop {p : α → Bool} {l : List α} {n : ℕ} (h : n ≤ (l.takeWhile p).length) :
    (l.drop n).takeWhile p = (l.takeWhile p).drop n := by
  induction n generalizing l with
  | zero => rfl
  | succ n ih =>
      cases l with
      | nil => simp
      | cons x l =>
          by_cases hp : p x
          · simp only [hp, List.takeWhile_cons_of_pos, List.length_cons,
              Nat.add_le_add_iff_right, List.drop_succ_cons] at h ⊢
            exact ih h
          · simp [hp] at h

theorem dropWhile_drop {p : α → Bool} {l : List α} {n : ℕ} (h : n ≤ (l.takeWhile p).length) :
    (l.drop n).dropWhile p = l.dropWhile p := by
  induction n generalizing l with
  | zero => rfl
  | succ n ih =>
      cases l with
      | nil => simp
      | cons x l =>
          by_cases hp : p x
          · simp only [hp, List.takeWhile_cons_of_pos, List.length_cons,
              Nat.add_le_add_iff_right, List.drop_succ_cons] at h ⊢
            simpa [hp] using ih h
          · simp [hp] at h

theorem take_eq_take_takeWhile {p : α → Bool} {l : List α} {n : ℕ}
    (h : n ≤ (l.takeWhile p).length) : l.take n = (l.takeWhile p).take n := by
  conv_lhs => rw [← List.takeWhile_append_dropWhile (p := p) (l := l)]
  exact List.take_append_of_le_length h

theorem take_length_takeWhile (p : α → Bool) (l : List α) :
    l.take (l.takeWhile p).length = l.takeWhile p :=
  calc l.take (l.takeWhile p).length
      = (l.takeWhile p ++ l.dropWhile p).take (l.takeWhile p).length := by
        rw [List.takeWhile_append_dropWhile]
    _ = l.takeWhile p := List.take_left

theorem drop_length_takeWhile (p : α → Bool) (l : List α) :
    l.drop (l.takeWhile p).length = l.dropWhile p :=
  calc l.drop (l.takeWhile p).length
      = (l.takeWhile p ++ l.dropWhile p).drop (l.takeWhile p).length := by
        rw [List.takeWhile_append_dropWhile]
    _ = l.dropWhile p := List.drop_left

/-- Where refusal is hereditary, the accepted prefix is the accepted part. -/
theorem takeWhile_eq_filter_of_pairwise {p : α → Bool} {l : List α}
    (h : l.Pairwise fun x y => p y → p x) : l.takeWhile p = l.filter p := by
  induction l with
  | nil => rfl
  | cons x l ih =>
      obtain ⟨hx, hl⟩ := List.pairwise_cons.mp h
      by_cases hp : p x
      · simp [hp, ih hl]
      · have hnone : l.filter p = [] :=
          List.filter_eq_nil_iff.mpr fun y hy hpy => hp (hx y hy hpy)
        simp [hp, hnone]

/-! ## Maps written at one key -/

section Update

universe v

variable {κ : Type v} [DecidableEq κ] {f : κ → Option α} {key k : κ} {o : Option α} {b : α}

/-- What a map holds after one write: what was written, or at another key what it held. -/
theorem update_eq_some_iff :
    Function.update f key o k = some b ↔ k = key ∧ o = some b ∨ k ≠ key ∧ f k = some b := by
  by_cases hk : k = key
  · simp [hk]
  · simp [hk]

/-- A map with one key removed. -/
theorem update_none_eq_some_iff :
    Function.update f key none k = some b ↔ k ≠ key ∧ f k = some b := by
  simp [update_eq_some_iff]

/-- Two maps differ only at entries that satisfy `P`. -/
def DifferAt (P : α → Prop) (f g : κ → Option α) : Prop :=
  ∀ k, g k = f k ∨ (∀ a, f k = some a → P a) ∧ ∀ a, g k = some a → P a

namespace DifferAt

variable {P : α → Prop} {g h : κ → Option α}

omit [DecidableEq κ] in
theorem refl (P : α → Prop) (f : κ → Option α) : DifferAt P f f := fun _ => Or.inl rfl

/-- A write over an entry that satisfies `P`, of one that does. -/
theorem update (hold : ∀ a, f key = some a → P a) (hnew : ∀ a, o = some a → P a) :
    DifferAt P f (Function.update f key o) := by
  intro k
  by_cases hk : k = key
  · subst hk
    exact Or.inr ⟨hold, by simpa using hnew⟩
  · exact Or.inl (Function.update_of_ne hk _ _)

omit [DecidableEq κ] in
theorem trans (hfg : DifferAt P f g) (hgh : DifferAt P g h) : DifferAt P f h := by
  intro k
  rcases hfg k with hg | ⟨hold, hmid⟩
  · rw [← hg]
    exact hgh k
  · rcases hgh k with hh | ⟨-, hnew⟩
    · exact Or.inr ⟨hold, by rw [hh]; exact hmid⟩
    · exact Or.inr ⟨hold, hnew⟩

omit [DecidableEq κ] in
/-- An entry that does not satisfy `P` is in both maps or in neither. -/
theorem eq_some_iff (h : DifferAt P f g) (hb : ¬ P b) : g k = some b ↔ f k = some b := by
  rcases h k with heq | ⟨hold, hnew⟩
  · rw [heq]
  · exact ⟨fun hg => absurd (hnew b hg) hb, fun hf => absurd (hold b hf) hb⟩

end DifferAt

/-- Move an amount between two entries, also from an entry to itself. -/
def moveAmount (f : κ → ℕ) (source dest : κ) (amount : ℕ) : κ → ℕ :=
  let debited := Function.update f source (f source - amount)
  Function.update debited dest (debited dest + amount)

section MoveAmount

variable {f : κ → ℕ} {source dest : κ} {amount : ℕ}

theorem moveAmount_of_ne (hs : k ≠ source) (hd : k ≠ dest) :
    moveAmount f source dest amount k = f k := by
  simp [moveAmount, hs, hd]

theorem moveAmount_source (h : source ≠ dest) :
    moveAmount f source dest amount source = f source - amount := by
  simp [moveAmount, h]

theorem moveAmount_dest (h : source ≠ dest) :
    moveAmount f source dest amount dest = f dest + amount := by
  simp [moveAmount, h.symm]

@[simp] theorem moveAmount_zero (f : κ → ℕ) (source dest : κ) : moveAmount f source dest 0 = f := by
  simp [moveAmount]

/-- Only the source loses. -/
theorem le_moveAmount (hs : k ≠ source) : f k ≤ moveAmount f source dest amount k := by
  by_cases hd : k = dest
  · subst hd
    rw [moveAmount_dest hs.symm]
    exact Nat.le_add_right _ _
  · exact (moveAmount_of_ne hs hd).ge

/-- Nothing loses more than the amount. -/
theorem le_moveAmount_add (f : κ → ℕ) (source dest k : κ) (amount : ℕ) :
    f k ≤ moveAmount f source dest amount k + amount := by
  by_cases hs : k = source
  · subst hs
    by_cases hd : k = dest
    · subst hd
      simp only [moveAmount, Function.update_self]
      omega
    · rw [moveAmount_source hd]
      omega
  · exact (le_moveAmount hs).trans (Nat.le_add_right _ _)

end MoveAmount

end Update

/-! ## Counting a predicate that gains one index -/

theorem countP_range_or {p : ℕ → Bool} {n i : ℕ} (hi : i < n) (hp : p i = false) :
    (List.range n).countP (fun j => p j || decide (j = i)) = (List.range n).countP p + 1 := by
  induction n with
  | zero => omega
  | succ n ih =>
      simp only [List.range_succ, List.countP_append, List.countP_singleton]
      by_cases hlast : i = n
      · subst hlast
        have hsame : (List.range i).countP (fun j => p j || decide (j = i))
            = (List.range i).countP p := by
          apply List.countP_congr
          intro j hj
          have hne : j ≠ i := (List.mem_range.mp hj).ne
          simp [hne]
        simp [hsame, hp]
      · have hne : n ≠ i := fun h => hlast h.symm
        simp only [ih (by omega), hne, decide_false, Bool.or_false]
        omega

end Foundations
