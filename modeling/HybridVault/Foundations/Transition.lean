import Mathlib.Data.List.Basic

/-!
# Runs of a labelled transition relation

A step relation `step : σ → ε → σ → Prop` says what one labelled step may do.
`Run step s es t` is the reflexive-transitive closure that keeps the labels.
`Takes step s es t x e y` says that the run from `s` to `t` takes step `e` from `x`
to `y` on its way.  Every result about whole runs goes through one of six rules, and
none of them is specific to a system:

* `Run.invariant` — a predicate preserved by steps is preserved by runs;
* `Run.history` — the same for a predicate of the state *and the labels so
  far*, along a run from a fixed start;
* `Run.under` — a run of one relation, read as a run of another under an invariant;
* `Run.turns` — what steps never lose came true in one step;
* `Run.snoc`, `Run.append` — runs compose;
* `Run.simulate` — a step-by-step simulation, in which one concrete step may be
  any number of abstract ones, lifts to runs.
-/

namespace Foundations

universe u v w z

variable {σ : Type u} {ε : Type v} {τ : Type w} {δ : Type z}

/-- The labelled runs of a step relation. -/
inductive Run (step : σ → ε → σ → Prop) : σ → List ε → σ → Prop
  | nil (s : σ) : Run step s [] s
  | cons {s t u : σ} {e : ε} {es : List ε} (hstep : step s e t) (hrun : Run step t es u) :
      Run step s (e :: es) u

namespace Run

variable {step : σ → ε → σ → Prop} {s t u : σ} {e : ε} {es fs : List ε}

theorem single (h : step s e t) : Run step s [e] t := .cons h (.nil t)

theorem step_of_single (h : Run step s [e] t) : step s e t := by
  cases h with
  | cons hstep hrest => cases hrest; exact hstep

theorem append (h : Run step s es t) (h' : Run step t fs u) : Run step s (es ++ fs) u := by
  induction h with
  | nil => exact h'
  | cons hstep _ ih => exact .cons hstep (ih h')

theorem snoc (h : Run step s es t) (h' : step t e u) : Run step s (es ++ [e]) u :=
  h.append (.single h')

/-- A predicate that every step preserves holds along every run. -/
theorem invariant {P : σ → Prop} (hP : ∀ s e t, P s → step s e t → P t)
    (h : Run step s es t) (hs : P s) : P t := by
  induction h with
  | nil => exact hs
  | cons hstep _ ih => exact ih (hP _ _ _ hs hstep)

/-- Under an invariant, a run of one relation is a run of another that its steps satisfy. -/
theorem under {step' : σ → ε → σ → Prop} {I : σ → Prop} (hI : ∀ s e t, I s → step s e t → I t)
    (hstep : ∀ s e t, I s → step s e t → step' s e t) (h : Run step s es t) (hs : I s) :
    Run step' s es t := by
  induction h with
  | nil => exact .nil _
  | cons h _ ih => exact .cons (hstep _ _ _ hs h) (ih (hI _ _ _ hs h))

theorem weaken {step' : σ → ε → σ → Prop} (hstep : ∀ s e t, step s e t → step' s e t)
    (h : Run step s es t) : Run step' s es t :=
  h.under (I := fun _ => True) (fun _ _ _ _ _ => trivial) (fun s e t _ => hstep s e t) trivial

/-- A run whose labels are of a kind is a run of steps of that kind. -/
theorem restrict {Q : ε → Prop} (h : Run step s es t) (hQ : ∀ e ∈ es, Q e) :
    Run (fun a e b => step a e b ∧ Q e) s es t := by
  induction h with
  | nil => exact .nil _
  | cons hstep _ ih =>
      exact .cons ⟨hstep, hQ _ (List.mem_cons_self ..)⟩
        (ih fun e he => hQ e (List.mem_cons_of_mem _ he))

/-- What is not true at first, true at last, and never lost again came true in one step:
the states before it lack it, the states after it have it. -/
theorem turns {I Q : σ → Prop} (hI : ∀ s e t, I s → step s e t → I t)
    (hQ : ∀ s e t, I s → Q s → step s e t → Q t) (h : Run step s es t) (hs : I s) (hn : ¬ Q s)
    (ht : Q t) :
    ∃ es₁ e es₂ x y, es = es₁ ++ e :: es₂ ∧ Run (fun a l b => step a l b ∧ ¬ Q b) s es₁ x ∧
      I x ∧ ¬ Q x ∧ step x e y ∧ Q y ∧ Run (fun a l b => step a l b ∧ Q b) y es₂ t := by
  induction h with
  | nil => exact absurd ht hn
  | @cons s m t e es hstep hrun ih =>
      by_cases hm : Q m
      · have hkeep : Run (fun a l b => step a l b ∧ Q b) m es t := hrun.under
          (I := fun a => I a ∧ Q a)
          (fun a l b hab hl => ⟨hI a l b hab.1 hl, hQ a l b hab.1 hab.2 hl⟩)
          (fun a l b hab hl => ⟨hl, hQ a l b hab.1 hab.2 hl⟩) ⟨hI s e m hs hstep, hm⟩
        exact ⟨[], e, es, s, m, rfl, .nil s, hs, hn, hstep, hm, hkeep⟩
      · obtain ⟨es₁, e', es₂, x, y, rfl, h₁, hx⟩ := ih (hI s e m hs hstep) hm ht
        exact ⟨e :: es₁, e', es₂, x, y, rfl, .cons ⟨hstep, hm⟩ h₁, hx⟩

/-- A predicate of the labels so far and the current state, from a fixed start. -/
theorem history {P : List ε → σ → Prop}
    (hP : ∀ es t e u, Run step s es t → P es t → step t e u → P (es ++ [e]) u)
    (h : Run step s es t) (hs : P [] s) : P es t := by
  have main : ∀ {m t : σ} {fs : List ε}, Run step m fs t →
      ∀ ps, Run step s ps m → P ps m → P (ps ++ fs) t := by
    intro m t fs hrun
    induction hrun with
    | nil m => intro ps _ hp; simpa using hp
    | cons hstep _ ih =>
        intro ps hps hp
        have := ih (ps ++ [_]) (hps.snoc hstep) (hP ps _ _ _ hps hp hstep)
        simpa using this
  simpa using main h [] (.nil s) hs

/-- A label of a run was taken somewhere: the run splits there. -/
theorem split_of_mem (h : Run step s es t) (he : e ∈ es) :
    ∃ es₁ es₂ x y, es = es₁ ++ e :: es₂ ∧ Run step s es₁ x ∧ step x e y ∧ Run step y es₂ t := by
  induction h with
  | nil => simp at he
  | @cons s m t e' es' hstep hrun ih =>
      rcases List.mem_cons.mp he with rfl | he
      · exact ⟨[], es', s, m, rfl, .nil s, hstep, hrun⟩
      · obtain ⟨es₁, es₂, x, y, rfl, h₁, hxy, h₂⟩ := ih he
        exact ⟨e' :: es₁, es₂, x, y, rfl, .cons hstep h₁, hxy, h₂⟩

/-- A simulation of single steps by runs lifts to runs. -/
theorem simulate {step' : τ → δ → τ → Prop} {R : σ → τ → Prop} {labels : ε → List δ}
    (hsim : ∀ s e t x, R s x → step s e t → ∃ y, Run step' x (labels e) y ∧ R t y)
    (h : Run step s es t) {x : τ} (hx : R s x) :
    ∃ y, Run step' x (es.flatMap labels) y ∧ R t y := by
  induction h generalizing x with
  | nil => exact ⟨x, .nil x, hx⟩
  | cons hstep _ ih =>
      obtain ⟨y, hxy, hy⟩ := hsim _ _ _ _ hx hstep
      obtain ⟨z, hyz, hz⟩ := ih hy
      exact ⟨z, by simpa using hxy.append hyz, hz⟩

end Run

/-! ## The steps of a run -/

/-- The run from `s` to `t` takes the step `e` from `x` to `y`. -/
def Takes (step : σ → ε → σ → Prop) (s : σ) (es : List ε) (t x : σ) (e : ε) (y : σ) : Prop :=
  ∃ es₁ es₂, es = es₁ ++ e :: es₂ ∧ Run step s es₁ x ∧ step x e y ∧ Run step y es₂ t

namespace Takes

variable {step : σ → ε → σ → Prop} {s t u x y : σ} {e f : ε} {es : List ε}

/-- A run takes its last step. -/
theorem last (h : Run step s es t) (h' : step t e u) : Takes step s (es ++ [e]) u t e u :=
  ⟨es, [], rfl, h, h', .nil u⟩

/-- A longer run takes the same steps. -/
theorem snoc (h : Takes step s es t x e y) (h' : step t f u) :
    Takes step s (es ++ [f]) u x e y := by
  obtain ⟨es₁, es₂, rfl, hx, hxy, hy⟩ := h
  exact ⟨es₁, es₂ ++ [f], by simp, hx, hxy, hy.snoc h'⟩

end Takes

end Foundations
