import Mathlib.Logic.Basic
import Mathlib.Data.Nat.Notation

/-!
# Guarded computations

A fallible handler is a computation in `Except ε`: a sequence of guards, reads
and writes, the first failing one of which ends it.  Every fact about such a
handler is a fact about the runs that return, and those are read off one
constructor at a time:

* `require` — a guard, and `expect` — a read of a partial value;
* `bind_eq_ok_iff` and its relatives — a sequence returns exactly if each part
  does.

Unfolding a handler and rewriting with this simp set turns "the handler
returns `b`" into the conjunction of everything it checked, in order, in both
directions.
-/

namespace Foundations

universe u v w

variable {ε : Type u} {α : Type v} {β : Type v}

/-- Fail with `e` unless `p`. -/
def require (p : Prop) [Decidable p] (e : ε) : Except ε Unit :=
  if p then .ok () else .error e

/-- Read a partial value, or fail with `e`. -/
def expect (o : Option α) (e : ε) : Except ε α :=
  match o with
  | some a => .ok a
  | none => .error e

@[simp] theorem bind_eq_ok_iff {x : Except ε α} {f : α → Except ε β} {b : β} :
    (x >>= f) = .ok b ↔ ∃ a, x = .ok a ∧ f a = .ok b := by
  cases x with
  | error e => simp [Bind.bind, Except.bind]
  | ok a => simp [Bind.bind, Except.bind]

@[simp] theorem map_eq_ok_iff {x : Except ε α} {f : α → β} {b : β} :
    (f <$> x) = .ok b ↔ ∃ a, x = .ok a ∧ f a = b := by
  cases x with
  | error e => simp [Functor.map, Except.map]
  | ok a => simp [Functor.map, Except.map]

@[simp] theorem pure_eq_ok_iff {a b : α} : (pure a : Except ε α) = .ok b ↔ a = b := by
  simp [pure, Except.pure]

@[simp] theorem require_eq_ok_iff {p : Prop} [Decidable p] {e : ε} {u : Unit} :
    require p e = .ok u ↔ p := by
  simp [require]

@[simp] theorem expect_eq_ok_iff {o : Option α} {e : ε} {a : α} :
    expect o e = .ok a ↔ o = some a := by
  cases o <;> simp [expect]

/-- A sequence returns something exactly if each part does. -/
theorem exists_bind_eq_ok_iff {x : Except ε α} {f : α → Except ε β} :
    (∃ b, (x >>= f) = .ok b) ↔ ∃ a, x = .ok a ∧ ∃ b, f a = .ok b := by
  simp only [bind_eq_ok_iff]
  rw [exists_comm]
  simp only [exists_and_left]

/-- A bind whose first part returns is its second part. -/
theorem ok_bind (a : α) (f : α → Except ε β) : ((Except.ok a : Except ε α) >>= f) = f a :=
  rfl

/-- A bind whose first part fails fails with it. -/
theorem error_bind (e : ε) (f : α → Except ε β) :
    ((Except.error e : Except ε α) >>= f) = .error e :=
  rfl

theorem require_of {p : Prop} [Decidable p] {e : ε} (h : p) : require p e = .ok () := if_pos h

theorem require_of_not {p : Prop} [Decidable p] {e : ε} (h : ¬ p) : require p e = .error e :=
  if_neg h

theorem require_congr {p q : Prop} [Decidable p] [Decidable q] {e : ε} (h : p ↔ q) :
    require p e = require q e := by
  simp [require, h]

/-- A branch returns exactly if the branch taken does. -/
theorem ite_eq_ok_iff {p : Prop} [Decidable p] {x y : Except ε α} {b : α} :
    (if p then x else y) = .ok b ↔ (p ∧ x = .ok b) ∨ (¬ p ∧ y = .ok b) := by
  by_cases h : p <;> simp [h]

/-! ## Errors that cannot occur -/

/-- The computation does not fail with `e`. -/
def Avoids (e : ε) (x : Except ε α) : Prop := x ≠ .error e

@[simp] theorem avoids_ok {e : ε} {a : α} : Avoids e (.ok a) := by simp [Avoids]

@[simp] theorem avoids_pure {e : ε} {a : α} : Avoids e (pure a : Except ε α) := avoids_ok

@[simp] theorem avoids_error_iff {e e' : ε} : Avoids e (.error e' : Except ε α) ↔ e' ≠ e := by
  simp [Avoids]

@[simp] theorem avoids_require_iff {p : Prop} [Decidable p] {e e' : ε} :
    Avoids e (require p e') ↔ (e' = e → p) := by
  by_cases h : p <;> simp [require, h]

@[simp] theorem avoids_expect_iff {o : Option α} {e e' : ε} :
    Avoids e (expect o e') ↔ (e' = e → o.isSome) := by
  cases o <;> simp [expect]

/-- A sequence avoids an error exactly if each part does where it is reached. -/
theorem avoids_bind_iff {x : Except ε α} {f : α → Except ε β} {e : ε} :
    Avoids e (x >>= f) ↔ Avoids e x ∧ ∀ a, x = .ok a → Avoids e (f a) := by
  cases x with
  | error e' => simp [error_bind]
  | ok a => simp [ok_bind]

@[simp] theorem avoids_map_iff {x : Except ε α} {f : α → β} {e : ε} :
    Avoids e (f <$> x) ↔ Avoids e x := by
  cases x <;> simp [Functor.map, Except.map]

theorem avoids_ite_iff {p : Prop} [Decidable p] {x y : Except ε α} {e : ε} :
    Avoids e (if p then x else y) ↔ (p → Avoids e x) ∧ (¬ p → Avoids e y) := by
  by_cases h : p <;> simp [h]

/-! ## Refinement -/

/-- One computation does what the other does: they fail with the same error, or return
related results. -/
def Refines {γ : Type w} (R : α → γ → Prop) : Except ε α → Except ε γ → Prop
  | .ok a, .ok c => R a c
  | .error e, .error e' => e = e'
  | _, _ => False

theorem Refines.of_ok {γ : Type w} {R : α → γ → Prop} {x : Except ε α} {y : Except ε γ} {a : α}
    {c : γ} (hx : x = .ok a) (hy : y = .ok c) (h : R a c) : Refines R x y := by
  rw [hx, hy]
  exact h

theorem Refines.of_error {γ : Type w} {R : α → γ → Prop} {x : Except ε α} {y : Except ε γ} {e : ε}
    (hx : x = .error e) (hy : y = .error e) : Refines R x y := by
  rw [hx, hy]
  exact rfl

theorem Refines.exists_ok {γ : Type w} {R : α → γ → Prop} {x : Except ε α} {c : γ}
    (h : Refines R x (.ok c)) : ∃ a, x = .ok a ∧ R a c := by
  cases x with
  | error e => exact h.elim
  | ok a => exact ⟨a, rfl, h⟩

theorem Refines.exists_ok_right {γ : Type w} {R : α → γ → Prop} {y : Except ε γ} {a : α}
    (h : Refines R (.ok a) y) : ∃ c, y = .ok c ∧ R a c := by
  cases y with
  | error e => exact h.elim
  | ok c => exact ⟨c, rfl, h⟩

/-- Sequences refine part by part, each from what the parts before have returned. -/
theorem Refines.bind {α' β' : Type v} {R : α → α' → Prop} {S : β → β' → Prop} {x : Except ε α}
    {y : Except ε α'} {f : α → Except ε β} {g : α' → Except ε β'} (h : Refines R x y)
    (hf : ∀ a c, x = .ok a → R a c → Refines S (f a) (g c)) : Refines S (x >>= f) (y >>= g) := by
  match x, y, h with
  | .ok a, .ok c, h => exact hf a c rfl h
  | .error e, .error e', h =>
      obtain rfl : e = e' := h
      exact .of_error rfl rfl

theorem Refines.require {p q : Prop} [Decidable p] [Decidable q] {e : ε} (h : p ↔ q) :
    Refines (fun _ _ => True) (require p e) (Foundations.require q e) := by
  rw [require_congr h]
  by_cases hq : q
  · exact .of_ok (require_of hq) (require_of hq) trivial
  · exact .of_error (require_of_not hq) (require_of_not hq)

theorem Refines.expect {γ : Type v} {f : α → γ} {o : Option α} {o' : Option γ} {e : ε}
    (h : o.map f = o') : Refines (fun a c => f a = c) (expect o e) (Foundations.expect o' e) := by
  subst h
  cases o with
  | none => exact .of_error rfl rfl
  | some a => exact .of_ok rfl rfl rfl

/-! ## Errors of another type -/

section MapError

variable {ε' : Type u} {t : ε → ε'}

@[simp] theorem mapError_bind {x : Except ε α} {f : α → Except ε β} :
    (x >>= f).mapError t = x.mapError t >>= fun a => (f a).mapError t := by
  cases x <;> rfl

@[simp] theorem mapError_pure {a : α} : (pure a : Except ε α).mapError t = pure a := rfl

@[simp] theorem mapError_require {p : Prop} [Decidable p] {e : ε} :
    (require p e).mapError t = require p (t e) := by
  by_cases h : p
  · rw [require_of h, require_of h]
    rfl
  · rw [require_of_not h, require_of_not h]
    rfl

@[simp] theorem mapError_expect {o : Option α} {e : ε} :
    (expect o e).mapError t = expect o (t e) := by
  cases o <;> rfl

@[simp] theorem mapError_eq_ok_iff {x : Except ε α} {a : α} :
    x.mapError t = .ok a ↔ x = .ok a := by
  cases x with
  | error e =>
      constructor
      · intro h
        cases h
      · intro h
        cases h
  | ok b =>
      show (Except.ok b : Except ε' α) = .ok a ↔ _
      rw [Except.ok.injEq, Except.ok.injEq]

/-- An error that no error is translated to does not occur. -/
theorem Refines.avoids_of_mapError {γ : Type w} {R : γ → α → Prop} {x : Except ε' γ}
    {y : Except ε α} (h : Refines R x (y.mapError t)) {e : ε'} (he : ∀ e₀, t e₀ ≠ e) :
    Avoids e x := by
  match x, y, h with
  | .ok a, .ok c, _ => exact avoids_ok
  | .error e₁, .error e₀, h =>
      obtain rfl : e₁ = t e₀ := h
      exact avoids_error_iff.mpr (he e₀)

end MapError

/-! ## Evaluating -/

/-- The computation returns, and what it returns passes a test. -/
def returns (x : Except ε α) (p : α → Bool) : Bool :=
  match x with
  | .ok a => p a
  | .error _ => false

theorem exists_of_returns {x : Except ε α} {p : α → Bool} (h : returns x p = true) :
    ∃ a, x = .ok a ∧ p a = true := by
  cases x with
  | error e => simp [returns] at h
  | ok a => exact ⟨a, rfl, h⟩

end Foundations
