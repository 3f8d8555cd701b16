import Mathlib.Data.List.TakeWhile

/-!
# First fit with revocable refusals

A selector walks a list and takes the first entry that is not refused, where
part of the refusals are evidence that a caller may or may not supply.  Two
questions about it have answers that depend on nothing else:

* **Who chooses?**  If evidence is only ever true of refused entries, every
  evidence under which the selector takes an acceptable entry makes it take the
  same one (`firstFit_eq_find?`).
* **Can a good entry be reached?**  Exactly if every entry before the first
  acceptable one is refused by someone (`exists_evidence_iff`).

Both are statements about `List.find?`.
-/

namespace Foundations

universe u

variable {α : Type u}

/-- If `q` allows no more than `p`, and the entry `p` finds passes `q`, then `q`
finds it too. -/
theorem find?_of_imp {p q : α → Bool} {l : List α} {k : α} (hqp : ∀ x ∈ l, q x → p x)
    (hp : l.find? p = some k) (hk : q k) : l.find? q = some k := by
  induction l with
  | nil => simp at hp
  | cons x l ih =>
      by_cases hpx : p x
      · have hxk : x = k := by simpa [hpx] using hp
        subst hxk
        simp [hk]
      · have hqx : ¬ q x := fun h => hpx (hqp x (List.mem_cons_self ..) h)
        simp only [hpx, List.find?_cons_of_neg, Bool.not_eq_true, hqx] at hp ⊢
        exact ih (fun y hy => hqp y (List.mem_cons_of_mem _ hy)) hp

/-- What stands in front of the entry found was not acceptable. -/
theorem takeWhile_not_of_find? [DecidableEq α] {p : α → Bool} {l : List α} {k x : α}
    (h : l.find? p = some k) (hx : x ∈ l.takeWhile (· ≠ k)) : ¬ p x := by
  induction l with
  | nil => simp at hx
  | cons y l ih =>
      by_cases hpy : p y
      · have hyk : y = k := by simpa [hpy] using h
        simp [hyk] at hx
      · by_cases hyk : y = k
        · simp [hyk] at hx
        · simp only [hpy, Bool.false_eq_true, not_false_iff, List.find?_cons_of_neg] at h
          rw [List.takeWhile_cons_of_pos (by simpa using hyk)] at hx
          rcases List.mem_cons.mp hx with rfl | hx
          · exact hpy
          · exact ih h hx

variable {candidate refusable live : α → Bool}

/-- What the selector takes when the refusals supplied are `evidence`. -/
def firstFit (candidate : α → Bool) (l evidence : List α) [DecidableEq α] : Option α :=
  l.find? fun x => candidate x && !decide (x ∈ evidence)

variable [DecidableEq α]

/-- **The caller never chooses.**  Where only entries that are not acceptable can
be refused, an acceptable entry taken is the first candidate that cannot be
refused at all. -/
theorem firstFit_eq_find? (refusable : α → Bool) {l evidence : List α} {k : α}
    (hevidence : ∀ x ∈ evidence, refusable x)
    (h : firstFit candidate l evidence = some k) (hk : ¬ refusable k) :
    l.find? (fun x => candidate x && !refusable x) = some k := by
  refine find?_of_imp (fun x _ hx => ?_) h ?_
  · simp only [Bool.and_eq_true, Bool.not_eq_true', decide_eq_false_iff_not] at hx ⊢
    refine ⟨hx.1, ?_⟩
    intro hmem
    simp [hevidence x hmem] at hx
  · have := List.find?_some h
    simp only [Bool.and_eq_true] at this ⊢
    exact ⟨this.1, by simpa using hk⟩

/-- **When a good entry can be reached.**  Some refusals make the selector take a
live entry exactly if the first candidate that cannot be refused is live. -/
theorem exists_evidence_iff {l : List α} (hlive : ∀ x, live x → ¬ refusable x) :
    (∃ evidence : List α, (∀ x ∈ evidence, refusable x) ∧
        ∃ k, firstFit candidate l evidence = some k ∧ live k) ↔
      ∃ k, l.find? (fun x => candidate x && !refusable x) = some k ∧ live k := by
  constructor
  · rintro ⟨evidence, hevidence, k, hfit, hk⟩
    exact ⟨k, firstFit_eq_find? refusable hevidence hfit (hlive k hk), hk⟩
  · rintro ⟨k, hfind, hk⟩
    -- supply every refusal there is
    refine ⟨l.filter refusable, fun x hx => (List.mem_filter.mp hx).2, k, ?_, hk⟩
    have hsame : ∀ x ∈ l, (candidate x && !decide (x ∈ l.filter refusable))
        = (candidate x && !refusable x) := fun x hx => by simp [hx]
    refine find?_of_imp (fun x hx h => by rwa [hsame x hx] at h) hfind ?_
    rw [hsame k (List.mem_of_find?_eq_some hfind)]
    exact List.find?_some (p := fun x => candidate x && !refusable x) hfind

omit [DecidableEq α] in
/-- The first candidate that cannot be refused is live exactly if, of the
candidates before the first live one, each can be refused. -/
theorem find?_live_iff {l : List α} (hlive : ∀ x, live x → ¬ refusable x)
    (hsome : ∃ x ∈ l, candidate x ∧ live x) :
    (∃ k, l.find? (fun x => candidate x && !refusable x) = some k ∧ live k) ↔
      ∀ x ∈ l.takeWhile (fun x => !(candidate x && live x)), candidate x → refusable x := by
  induction l with
  | nil => simp at hsome
  | cons x l ih =>
      by_cases hgood : candidate x ∧ live x
      · have hnot := hlive x hgood.2
        simp only [Bool.not_eq_true] at hnot
        simp [hgood.1, hgood.2, hnot]
      · have hrest : ∃ y ∈ l, candidate y ∧ live y := by
          obtain ⟨y, hy, hc⟩ := hsome
          rcases List.mem_cons.mp hy with rfl | hy
          · exact absurd hc hgood
          · exact ⟨y, hy, hc⟩
        have hstop : (fun x => !(candidate x && live x)) x = true := by
          rw [Bool.not_eq_true', ← Bool.not_eq_true, Bool.and_eq_true]
          exact hgood
        rw [List.takeWhile_cons_of_pos (p := fun x => !(candidate x && live x)) hstop,
          List.forall_mem_cons, ← ih hrest]
        by_cases hc : candidate x
        · by_cases hr : refusable x
          · simp [hc, hr]
          · have hdead : ¬ live x := fun h => hgood ⟨hc, h⟩
            simp [hc, hr, hdead]
        · simp [hc]

end Foundations
