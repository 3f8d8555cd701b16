import HybridVault.Foundations.SequencedPool
import Mathlib.Data.List.Nodup

/-!
# What a draw depends on

The list a ticket draws from is a mutable array that other tickets, returns and
merges rearrange between the ticket's issue and its draw.  This file says what
of all that a draw can depend on.

**Noninterference.**  For a bound `b` between the head and the next ticket
number, the *view* of a state is its head, what the head draws from, the waiting
items stamped below `b`, and the tickets below `b`.  Issuing, returning and
merging leave the view alone; resolving the head changes it by a function of the
view and of the outcome (`View.advance`).  So the list a ticket below `b` draws
from is computed from the view and the outcomes of the tickets ahead of it
(`candidates_eq_after`), and two runs from one state that agree on those
outcomes agree on the draw (`draw_eq_of_outcome_eq`).

**The candidate set.**  As a set, what a ticket draws from is what was in the
pool when it was issued, plus the items of earlier tickets that were drawn for,
minus what those draws took (`mem_candidates_iff`).  The load-bearing invariant
is `EligibleSpec`, which tracks the items stamped at most `u` rather than the
pool itself: merging does not change them, and later returns never enter them.
-/

namespace Foundations.SequencedPool

open Foundations

universe u v

variable {ι : Type u} {ν : Type v}

/-! ## Outcomes -/

/-- How a ticket was resolved: drawn for with a value, or dropped. -/
inductive Outcome (ν : Type v)
  | drawn (value : ν)
  | dropped
deriving DecidableEq, Repr

/-- The ticket an event resolves, and how. -/
def Event.resolution : Event ι ν → Option (ℕ × Outcome ν)
  | .settled seq v _ _ => some (seq, .drawn v)
  | .expired seq _ => some (seq, .dropped)
  | _ => none

/-- The outcome an event records for ticket `u`. -/
def Event.outcomeOf (u : ℕ) (e : Event ι ν) : Option (Outcome ν) :=
  match e.resolution with
  | some (seq, o) => if seq = u then some o else none
  | none => none

/-- The outcome of ticket `u` in a run, if it was resolved. -/
def outcome (es : List (Event ι ν)) (u : ℕ) : Option (Outcome ν) :=
  es.findSome? (Event.outcomeOf u)

theorem outcome_cons_of_none {e : Event ι ν} (he : e.resolution = none)
    (es : List (Event ι ν)) : outcome (e :: es) = outcome es := by
  funext u
  simp [outcome, Event.outcomeOf, he]

theorem outcome_cons_of_some {e : Event ι ν} {k : ℕ} {o : Outcome ν}
    (he : e.resolution = some (k, o)) (es : List (Event ι ν)) (u : ℕ) :
    outcome (e :: es) u = if k = u then some o else outcome es u := by
  by_cases hk : k = u <;> simp [outcome, Event.outcomeOf, he, hk]

/-! ## Views -/

/-- What a state shows of itself below a bound. -/
@[ext]
structure View (ι : Type u) where
  head : ℕ
  candidates : List ι
  later : List (ι × ℕ)
  tickets : List (Option ι)

/-- The view of a state below `b`. -/
def State.view (b : ℕ) (s : State ι) : View ι where
  head := s.head
  candidates := s.candidates
  later := s.waiting.takeWhile fun e => e.2 < b
  tickets := s.queue.take (b - s.head)

namespace View

/-- Move to the next ticket, with `rest` left of the candidates. -/
def openNext (V : View ι) (rest : List ι) : View ι where
  head := V.head + 1
  candidates := rest ++ (V.later.takeWhile fun e => e.2 ≤ V.head + 1).map Prod.fst
  later := V.later.dropWhile fun e => e.2 ≤ V.head + 1
  tickets := V.tickets.tail

/-- The view after the head ticket's outcome. -/
def advance (choose : ℕ → ν → ℕ → ℕ) (V : View ι) : Option (Outcome ν) → View ι
  | some (.drawn v) =>
      V.openNext (swapRemove V.candidates (choose V.head v V.candidates.length)
        ++ V.tickets.head?.join.toList)
  | _ => V.openNext V.candidates

/-- The view after the outcomes of the next `n` tickets. -/
def after (choose : ℕ → ν → ℕ → ℕ) (f : ℕ → Option (Outcome ν)) : ℕ → View ι → View ι
  | 0, V => V
  | n + 1, V => after choose f n (V.advance choose (f V.head))

variable {choose : ℕ → ν → ℕ → ℕ}

@[simp] theorem head_advance (V : View ι) (o : Option (Outcome ν)) :
    (V.advance choose o).head = V.head + 1 := by
  rcases o with _ | ⟨v⟩ | _ <;> rfl

/-- Only the outcomes of the tickets passed matter. -/
theorem after_congr {f g : ℕ → Option (Outcome ν)} {n : ℕ} {V : View ι}
    (h : ∀ k < n, f (V.head + k) = g (V.head + k)) :
    V.after choose f n = V.after choose g n := by
  induction n generalizing V with
  | zero => rfl
  | succ n ih =>
      have h0 : f V.head = g V.head := by simpa using h 0 (by omega)
      simp only [after, h0]
      apply ih
      intro k hk
      have := h (k + 1) (by omega)
      simpa [Nat.add_assoc, Nat.add_comm 1 k] using this

end View

variable [DecidableEq ι] {floor : ℕ} {choose : ℕ → ν → ℕ → ℕ} {s t : State ι} {e : Event ι ν}
  {es : List (Event ι ν)}

/-! ## Steps and views -/

omit [DecidableEq ι] in
theorem waiting_snoc_returned (s : State ι) (i : ι) (n : ℕ) (hn : s.head < n) :
    ((s.incoming ++ [(i, n)]).takeWhile fun e => decide (e.2 ≤ s.head)) = s.ready ∧
      ((s.incoming ++ [(i, n)]).dropWhile fun e => decide (e.2 ≤ s.head))
        = s.waiting ++ [(i, n)] := by
  have hlate : ¬ (decide ((i, n).2 ≤ s.head) = true) := by simp; omega
  exact ⟨takeWhile_concat_of_not (p := fun e : ι × ℕ => decide (e.2 ≤ s.head)) hlate _,
    dropWhile_concat_of_not (p := fun e : ι × ℕ => decide (e.2 ≤ s.head)) hlate _⟩

omit [DecidableEq ι] in
/-- The items that become ready when the head moves on. -/
theorem ready_succ (s : State ι) (b : ℕ) (hb : s.head + 1 < b) :
    (s.waiting.takeWhile fun e => e.2 ≤ s.head + 1)
      = (s.waiting.takeWhile fun e => e.2 < b).takeWhile fun e => e.2 ≤ s.head + 1 := by
  refine (takeWhile_takeWhile_of_imp ?_ _).symm
  intro x hx
  simp only [decide_eq_true_eq] at hx ⊢
  omega

omit [DecidableEq ι] in
theorem waiting_succ (s : State ι) (b : ℕ) (hb : s.head + 1 < b) :
    ((s.waiting.dropWhile fun e => e.2 ≤ s.head + 1).takeWhile fun e => e.2 < b)
      = (s.waiting.takeWhile fun e => e.2 < b).dropWhile fun e => e.2 ≤ s.head + 1 := by
  refine takeWhile_dropWhile_comm ?_ _
  intro x hx
  simp only [decide_eq_true_eq] at hx ⊢
  omega

/-- **One step, seen from below a bound**: it resolves nothing and leaves the
view alone, or it resolves the head and advances the view by the outcome. -/
theorem Step.view (h : Step floor choose s e t) :
    (e.resolution = none ∧ t.head = s.head ∧
        ∀ b, s.head < b → b ≤ s.next → t.view b = s.view b) ∨
      ∃ o, e.resolution = some (s.head, o) ∧ t.head = s.head + 1 ∧
        ∀ b, s.head + 1 < b → t.view b = (s.view b).advance choose (some o) := by
  cases h with
  | request =>
      refine Or.inl ⟨rfl, rfl, ?_⟩
      intro b hb hle
      have hlen : b - s.head ≤ s.queue.length := by simp only [State.next] at hle; omega
      exact View.ext rfl rfl rfl (List.take_append_of_le_length hlen)
  | @giveBack i =>
      refine Or.inl ⟨rfl, rfl, ?_⟩
      intro b hb hle
      obtain ⟨hready, hwaiting⟩ := waiting_snoc_returned s i s.next (by omega)
      have hlater : ¬ (decide ((i, s.next).2 < b) = true) := by simpa using hle
      refine View.ext rfl ?_ ?_ rfl
      · exact congrArg (fun l => s.drawable ++ List.map Prod.fst l) hready
      · exact (congrArg (List.takeWhile _) hwaiting).trans
          (takeWhile_concat_of_not (p := fun e : ι × ℕ => decide (e.2 < b)) hlater _)
  | @merge n hn =>
      refine Or.inl ⟨rfl, rfl, ?_⟩
      intro b hb hle
      refine View.ext rfl ?_ ?_ rfl
      · simp only [State.view, State.candidates, State.ready]
        rw [takeWhile_drop hn, take_eq_take_takeWhile hn, List.append_assoc, ← List.map_append,
          List.take_append_drop]
      · exact congrArg (List.takeWhile _) (dropWhile_drop hn)
  | @settle o q v p hqueue hpick =>
      refine Or.inr ⟨.drawn v, rfl, rfl, ?_⟩
      intro b hb
      have hticket : (s.queue.take (b - s.head)).head?.join = o := by
        rw [hqueue, show b - s.head = (b - s.head - 1) + 1 by omega]
        rfl
      have htail : (s.queue.take (b - s.head)).tail = q.take (b - (s.head + 1)) := by
        rw [hqueue, show b - s.head = (b - (s.head + 1)) + 1 by omega]
        rfl
      refine View.ext rfl ?_ (waiting_succ s b hb) htail.symm
      calc _ = swapRemove s.candidates (choose s.head v s.candidates.length) ++ o.toList
              ++ (s.waiting.takeWhile fun e => e.2 ≤ s.head + 1).map Prod.fst := rfl
        _ = _ := by rw [ready_succ s b hb, ← hticket]; rfl
  | @expire o q hqueue =>
      refine Or.inr ⟨.dropped, rfl, rfl, ?_⟩
      intro b hb
      have htail : (s.queue.take (b - s.head)).tail = q.take (b - (s.head + 1)) := by
        rw [hqueue, show b - s.head = (b - (s.head + 1)) + 1 by omega]
        rfl
      have himp : ∀ x : ι × ℕ, decide (x.2 ≤ s.head) = true → decide (x.2 ≤ s.head + 1) = true := by
        intro x hx
        simp only [decide_eq_true_eq] at hx ⊢
        omega
      refine View.ext rfl ?_ ?_ htail.symm
      · calc _ = s.drawable ++ (s.incoming.takeWhile fun e => e.2 ≤ s.head + 1).map Prod.fst := rfl
          _ = s.candidates ++ (s.waiting.takeWhile fun e => e.2 ≤ s.head + 1).map Prod.fst := by
              rw [takeWhile_eq_append himp, List.map_append, ← List.append_assoc]
              rfl
          _ = _ := by rw [ready_succ s b hb]; rfl
      · calc
          _ = ((s.incoming.dropWhile fun e => e.2 ≤ s.head + 1).takeWhile fun e => e.2 < b) := rfl
          _ = ((s.waiting.dropWhile fun e => e.2 ≤ s.head + 1).takeWhile fun e => e.2 < b) := by
              rw [State.waiting, dropWhile_dropWhile_of_imp himp]
          _ = _ := waiting_succ s b hb

/-! ## Noninterference -/

/-- **A draw is a function of the view and of the outcomes ahead of it.** -/
theorem candidates_eq_after (h : Run (Step floor choose) s es t) {b u : ℕ} {v : ν} {cs : List ι}
    {p : ι} (hmem : Event.settled u v cs p ∈ es) (hub : u < b) (hb : b ≤ s.next) :
    s.head ≤ u ∧ outcome es u = some (.drawn v) ∧
      cs = ((s.view b).after choose (outcome es) (u - s.head)).candidates ∧
      cs[choose u v cs.length]? = some p := by
  induction h with
  | nil => simp at hmem
  | @cons s m t e es hstep hrun ih =>
      rcases List.mem_cons.mp hmem with rfl | hmem
      · cases hstep with
        | settle hqueue hpick =>
            refine ⟨le_rfl, ?_, ?_, hpick⟩
            · simp [outcome, Event.outcomeOf, Event.resolution]
            · simp [View.after, State.view]
      · obtain ⟨hle, hout, hc, hp⟩ := ih hmem (hb.trans hstep.head_next.2)
        rcases hstep.view with ⟨hres, hhead, hview⟩ | ⟨o, hres, hhead, hview⟩
        · rw [outcome_cons_of_none hres]
          rw [hhead] at hle hc
          exact ⟨hle, hout, by rw [hc, hview b (by omega) hb], hp⟩
        · rw [hhead] at hle hc
          have hsplit : u - s.head = (u - (s.head + 1)) + 1 := by omega
          have hhere : outcome (e :: es) s.head = some o := by
            rw [outcome_cons_of_some hres, if_pos rfl]
          refine ⟨by omega, ?_, ?_, hp⟩
          · rw [outcome_cons_of_some hres, if_neg (by omega), hout]
          · rw [hc, hsplit, View.after, hview b (by omega),
              show outcome (e :: es) (s.view b).head = some o from hhere]
            refine congrArg View.candidates (View.after_congr ?_)
            intro k _
            have hne : s.head ≠ (s.view b).head + 1 + k := by
              show s.head ≠ s.head + 1 + k
              omega
            rw [View.head_advance, outcome_cons_of_some hres, if_neg hne]

/-- **Draws cannot be steered by scheduling.**  Two runs from one state that
agree on the outcomes of the tickets up to `u` draw for `u` from the same list
and pick the same item, whatever else happens in either. -/
theorem draw_eq_of_outcome_eq {t₁ t₂ : State ι} {es₁ es₂ : List (Event ι ν)}
    (h₁ : Run (Step floor choose) s es₁ t₁) (h₂ : Run (Step floor choose) s es₂ t₂)
    {u : ℕ} {v₁ v₂ : ν} {c₁ c₂ : List ι} {p₁ p₂ : ι} (hu : u < s.next)
    (hmem₁ : Event.settled u v₁ c₁ p₁ ∈ es₁) (hmem₂ : Event.settled u v₂ c₂ p₂ ∈ es₂)
    (hout : ∀ k, s.head ≤ k → k ≤ u → outcome es₁ k = outcome es₂ k) :
    c₁ = c₂ ∧ p₁ = p₂ := by
  obtain ⟨hle, hv₁, hc₁, hp₁⟩ := candidates_eq_after h₁ hmem₁ (Nat.lt_succ_self u) hu
  obtain ⟨-, hv₂, hc₂, hp₂⟩ := candidates_eq_after h₂ hmem₂ (Nat.lt_succ_self u) hu
  have hv : v₁ = v₂ := by
    have := (hv₁.symm.trans (hout u hle le_rfl)).trans hv₂
    simpa using this
  have hc : c₁ = c₂ := by
    rw [hc₁, hc₂]
    refine congrArg View.candidates (View.after_congr ?_)
    intro k hk
    exact hout _ (by simp only [State.view]; omega) (by simp only [State.view]; omega)
  subst hv hc
  exact ⟨rfl, Option.some.inj (hp₁.symm.trans hp₂)⟩

omit [DecidableEq ι] in
/-- A ticket whose outcome is a draw was drawn for. -/
theorem exists_settled_of_outcome {u : ℕ} {v : ν} (h : outcome es u = some (.drawn v)) :
    ∃ c p, Event.settled u v c p ∈ es := by
  obtain ⟨e, he, hout⟩ := List.exists_of_findSome?_eq_some h
  cases e with
  | settled seq v' c p =>
      simp only [Event.outcomeOf, Event.resolution] at hout
      split at hout
      · next hseq =>
          obtain rfl : v' = v := by simpa using hout
          exact ⟨c, p, hseq ▸ he⟩
      · simp at hout
  | expired seq o =>
      simp only [Event.outcomeOf, Event.resolution] at hout
      split at hout <;> simp at hout
  | requested | returned | merged => simp [Event.outcomeOf, Event.resolution] at hout

/-- **Runs that agree on the outcomes agree on the draws**, event for event. -/
theorem settled_mem_of_outcome_eq {t₁ t₂ : State ι} {es₁ es₂ : List (Event ι ν)}
    (h₁ : Run (Step floor choose) s es₁ t₁) (h₂ : Run (Step floor choose) s es₂ t₂)
    {u : ℕ} {v : ν} {c : List ι} {p : ι} (hu : u < s.next)
    (hout : ∀ k, s.head ≤ k → k ≤ u → outcome es₁ k = outcome es₂ k)
    (hmem : Event.settled u v c p ∈ es₁) : Event.settled u v c p ∈ es₂ := by
  obtain ⟨hle, hv, -, -⟩ := candidates_eq_after h₁ hmem (Nat.lt_succ_self u) hu
  obtain ⟨c', p', hmem'⟩ := exists_settled_of_outcome ((hout u hle le_rfl).symm.trans hv)
  obtain ⟨rfl, rfl⟩ := draw_eq_of_outcome_eq h₁ h₂ hu hmem hmem' hout
  exact hmem'

/-! ## The candidate set -/

/-- The items ticket `u` may draw, before the draws ahead of it. -/
def State.eligible (u : ℕ) (s : State ι) : List ι :=
  s.drawable ++ (s.incoming.filter fun e => e.2 ≤ u).map Prod.fst

/-- The item pending ticket `k` carries. -/
def State.ticket (s : State ι) (k : ℕ) : Option ι := s.queue[k - s.head]?.join

/-- Item `i` was carried into the pool by a ticket before `u` that was pending
in `s` and drawn for since. -/
def HandedIn (s : State ι) (es : List (Event ι ν)) (u : ℕ) (i : ι) : Prop :=
  ∃ k, s.head ≤ k ∧ k < u ∧ s.ticket k = some i ∧ ∃ v c p, Event.settled k v c p ∈ es

/-- Item `i` was drawn by a ticket before `u`. -/
def PickedBefore (es : List (Event ι ν)) (u : ℕ) (i : ι) : Prop :=
  ∃ k v c, k < u ∧ Event.settled k v c i ∈ es

/-- What the items eligible for `u` are in a state `x` reached from `s`. -/
structure EligibleSpec (s : State ι) (u : ℕ) (es : List (Event ι ν)) (x : State ι) : Prop where
  mem_iff : ∀ i, i ∈ x.eligible u ↔
    (i ∈ s.eligible u ∨ HandedIn s es u i) ∧ ¬ PickedBefore es u i
  ticket_eq : ∀ k, x.head ≤ k → k ≤ u → x.ticket k = s.ticket k
  not_picked : ∀ k i, x.head ≤ k → k ≤ u → x.ticket k = some i → ¬ PickedBefore es u i

omit [DecidableEq ι] in
/-- An event that draws nothing leaves a specification of the same eligible
items and tickets alone. -/
theorem EligibleSpec.of_not_settled {u : ℕ} {x y : State ι} (h : EligibleSpec s u es x)
    (he : ∀ k v c p, e ≠ Event.settled k v c p)
    (hmem : ∀ i, i ∈ y.eligible u ↔ i ∈ x.eligible u)
    (hticket : ∀ k, y.head ≤ k → k ≤ u → x.head ≤ k ∧ y.ticket k = x.ticket k) :
    EligibleSpec s u (es ++ [e]) y := by
  have hset : ∀ k v c p, Event.settled k v c p ∈ es ++ [e] ↔ Event.settled k v c p ∈ es := by
    intro k v c p
    simp only [List.mem_append, List.mem_singleton, or_iff_left_iff_imp]
    exact fun h => absurd h.symm (he k v c p)
  have hpick : ∀ i, PickedBefore (es ++ [e]) u i ↔ PickedBefore es u i := by
    simp only [PickedBefore, hset, implies_true]
  have hhand : ∀ i, HandedIn s (es ++ [e]) u i ↔ HandedIn s es u i := by
    simp only [HandedIn, hset, implies_true]
  refine ⟨?_, ?_, ?_⟩
  · intro i
    rw [hmem, h.mem_iff, hpick, hhand]
  · intro k hk hku
    obtain ⟨hx, heq⟩ := hticket k hk hku
    rw [heq, h.ticket_eq k hx hku]
  · intro k i hk hku hi
    obtain ⟨hx, heq⟩ := hticket k hk hku
    rw [hpick]
    exact h.not_picked k i hx hku (heq ▸ hi)

omit [DecidableEq ι] in
theorem eligible_of_merge (x : State ι) {n u : ℕ} (hn : n ≤ x.ready.length) (hu : x.head ≤ u)
    (i : ι) :
    i ∈ (x.drawable ++ (x.incoming.take n).map Prod.fst)
        ++ ((x.incoming.drop n).filter fun e => e.2 ≤ u).map Prod.fst ↔ i ∈ x.eligible u := by
  have htake : ((x.incoming.take n).filter fun e => e.2 ≤ u) = x.incoming.take n := by
    rw [List.filter_eq_self]
    intro e he
    rw [take_eq_take_takeWhile hn] at he
    have : e.2 ≤ x.head := by simpa using List.mem_takeWhile_imp (List.mem_of_mem_take he)
    simpa using this.trans hu
  have hsplit : (x.incoming.filter fun e => e.2 ≤ u)
      = x.incoming.take n ++ (x.incoming.drop n).filter fun e => e.2 ≤ u := by
    conv_lhs => rw [← List.take_append_drop n x.incoming, List.filter_append, htake]
  rw [State.eligible, hsplit, List.map_append, List.append_assoc]

omit [DecidableEq ι] in
/-- The eligible items are the head's candidates and the waiting eligible ones. -/
theorem eligible_eq_candidates_append (x : State ι) {u : ℕ} (hu : x.head ≤ u) :
    x.eligible u = x.candidates ++ (x.waiting.filter fun e => e.2 ≤ u).map Prod.fst := by
  have hready : (x.ready.filter fun e => e.2 ≤ u) = x.ready := by
    rw [List.filter_eq_self]
    intro e he
    have : e.2 ≤ x.head := by simpa using List.mem_takeWhile_imp he
    simpa using this.trans hu
  rw [State.eligible, ← x.ready_append_waiting, List.filter_append, hready, List.map_append,
    State.candidates, List.append_assoc]

omit [DecidableEq ι] in
theorem ticket_eq_head {x : State ι} {o : Option ι} {q : List (Option ι)}
    (hq : x.queue = o :: q) : x.ticket x.head = o := by
  simp [State.ticket, hq]

omit [DecidableEq ι] in
theorem ticket_tail {x y : State ι} {o : Option ι} {q : List (Option ι)}
    (hq : x.queue = o :: q) (hy : y.queue = q) (hhead : y.head = x.head + 1) {k : ℕ}
    (hk : y.head ≤ k) : y.ticket k = x.ticket k := by
  have hsucc : k - x.head = (k - y.head) + 1 := by omega
  simp [State.ticket, hq, hy, hsucc]

omit [DecidableEq ι] in
/-- A carried item is with its ticket, not among the eligible. -/
theorem ticket_not_mem_eligible {x : State ι} (hx : x.places.Nodup) {k u : ℕ} {i : ι}
    (hi : x.ticket k = some i) : i ∉ x.eligible u := by
  intro hmem
  have hqueue : i ∈ x.queue.reduceOption := by
    rw [List.reduceOption_mem_iff]
    simp only [State.ticket, Option.join_eq_some_iff] at hi
    exact List.mem_of_getElem? hi
  have hpool : i ∈ x.drawable ++ x.incoming.map Prod.fst := by
    simp only [State.eligible, List.mem_append, List.mem_map] at hmem ⊢
    exact hmem.imp_right fun ⟨e, he, h⟩ => ⟨e, List.mem_of_mem_filter he, h⟩
  exact List.disjoint_of_nodup_append (List.Nodup.of_append_left hx) hpool hqueue

/-- **What is eligible after a draw**: what was, without the pick, and the item
the ticket carried. -/
theorem mem_eligible_settle_iff {x y : State ι} (hx : x.places.Nodup) {u k : ℕ} {p : ι}
    {o : Option ι} (hu : x.head ≤ u) (hpick : x.candidates[k]? = some p)
    (hdrawable : y.drawable = swapRemove x.candidates k ++ o.toList)
    (hincoming : y.incoming = x.waiting) (i : ι) :
    i ∈ y.eligible u ↔ (i ∈ x.eligible u ∧ i ≠ p) ∨ o = some i := by
  have hcand := (candidates_perm_of_pick hpick).append_right
    ((x.waiting.filter fun e => e.2 ≤ u).map Prod.fst)
  rw [← eligible_eq_candidates_append x hu, List.cons_append] at hcand
  have hnodup : (x.eligible u).Nodup := by
    refine (List.Nodup.of_append_left (List.Nodup.of_append_left hx)).sublist ?_
    exact (List.Sublist.refl _).append (List.filter_sublist.map _)
  obtain ⟨hp, -⟩ := List.nodup_cons.mp (hcand.nodup_iff.mpr hnodup)
  have hmem : i ∈ x.eligible u ↔ i = p ∨ i ∈ swapRemove x.candidates k
      ++ (x.waiting.filter fun e => e.2 ≤ u).map Prod.fst := by
    rw [← hcand.mem_iff, List.mem_cons]
  have hne : i ∈ swapRemove x.candidates k
      ++ (x.waiting.filter fun e => e.2 ≤ u).map Prod.fst → i ≠ p := by
    rintro hi rfl
    exact hp hi
  rw [hmem, State.eligible, hdrawable, hincoming]
  simp only [List.mem_append, Option.mem_toList] at hne ⊢
  tauto

omit [DecidableEq ι] in
theorem pickedBefore_snoc_settled {u k : ℕ} {v : ν} {c : List ι} {p : ι} (hk : k < u) (i : ι) :
    PickedBefore (es ++ [.settled k v c p]) u i ↔ PickedBefore es u i ∨ i = p := by
  simp only [PickedBefore, List.mem_append, List.mem_singleton, Event.settled.injEq]
  constructor
  · rintro ⟨k', v', c', hk', hmem | ⟨rfl, rfl, rfl, rfl⟩⟩
    · exact Or.inl ⟨k', v', c', hk', hmem⟩
    · exact Or.inr rfl
  · rintro (⟨k', v', c', hk', hmem⟩ | rfl)
    · exact ⟨k', v', c', hk', Or.inl hmem⟩
    · exact ⟨k, v, c, hk, Or.inr ⟨rfl, rfl, rfl, rfl⟩⟩

omit [DecidableEq ι] in
theorem handedIn_snoc_settled {u k : ℕ} {v : ν} {c : List ι} {p : ι} (hsk : s.head ≤ k)
    (hk : k < u) (i : ι) :
    HandedIn s (es ++ [.settled k v c p]) u i ↔ HandedIn s es u i ∨ s.ticket k = some i := by
  simp only [HandedIn, List.mem_append, List.mem_singleton, Event.settled.injEq]
  constructor
  · rintro ⟨k', hk', hku, hi, v', c', p', hmem | ⟨rfl, rfl, rfl, rfl⟩⟩
    · exact Or.inl ⟨k', hk', hku, hi, v', c', p', hmem⟩
    · exact Or.inr hi
  · rintro (⟨k', hk', hku, hi, v', c', p', hmem⟩ | hi)
    · exact ⟨k', hk', hku, hi, v', c', p', Or.inl hmem⟩
    · exact ⟨k, hsk, hk, hi, v, c, p, Or.inr ⟨rfl, rfl, rfl, rfl⟩⟩

/-- **One step keeps the specification of the eligible items**, as long as the
ticket in question is still pending. -/
theorem EligibleSpec.step {univ : List ι} (hu : univ.Nodup) {u : ℕ} {x y : State ι}
    (hs : s.head ≤ x.head) (hxu : u < x.next) (hx : Invariant floor univ x)
    (h : EligibleSpec s u es x) (hstep : Step floor choose x e y) (hy : y.head ≤ u) :
    EligibleSpec s u (es ++ [e]) y := by
  have hnodup := hx.places_nodup hu
  cases hstep with
  | @request o =>
      refine h.of_not_settled (by simp) (fun i => Iff.rfl) fun k hk hku => ⟨hk, ?_⟩
      have hlt : k - x.head < x.queue.length := by
        have hk' : x.head ≤ k := hk
        simp only [State.next] at hxu
        omega
      simp only [State.ticket]
      rw [List.getElem?_append_left hlt]
  | @giveBack i =>
      refine h.of_not_settled (by simp) ?_ fun k hk hku => ⟨hk, rfl⟩
      intro j
      have hlate : ¬ x.next ≤ u := by omega
      simp [State.eligible, List.filter_append, hlate]
  | @merge n hn =>
      refine h.of_not_settled (by simp) ?_ fun k hk hku => ⟨hk, rfl⟩
      intro i
      exact eligible_of_merge x hn hy i
  | @expire o q hqueue =>
      refine h.of_not_settled (by simp) (fun i => Iff.rfl) fun k hk hku => ⟨?_, ?_⟩
      · exact (Nat.le_succ _).trans hk
      · exact ticket_tail hqueue rfl rfl hk
  | @settle o q v p hqueue hpick =>
      have hxu : x.head < u := hy
      have hticket : s.ticket x.head = o := by
        rw [← h.ticket_eq x.head le_rfl hxu.le, ticket_eq_head hqueue]
      have hp : p ∈ x.eligible u := by
        rw [eligible_eq_candidates_append x hxu.le]
        exact List.mem_append_left _ (List.mem_of_getElem? hpick)
      -- a carried item was never picked, and is not the one being picked
      have hcarried : ∀ k i, x.head ≤ k → k ≤ u → x.ticket k = some i →
          ¬ PickedBefore (es ++ [.settled x.head v x.candidates p]) u i := by
        intro k i hk hku hi
        rw [pickedBefore_snoc_settled hxu]
        rintro (hpicked | rfl)
        · exact h.not_picked k i hk hku hi hpicked
        · exact ticket_not_mem_eligible hnodup hi hp
      refine ⟨?_, ?_, ?_⟩
      · intro i
        have hown := hcarried x.head i le_rfl hxu.le
        rw [ticket_eq_head hqueue, pickedBefore_snoc_settled hxu] at hown
        rw [mem_eligible_settle_iff hnodup hxu.le hpick rfl rfl, h.mem_iff,
          pickedBefore_snoc_settled hxu, handedIn_snoc_settled hs hxu, hticket]
        tauto
      · intro k hk hku
        rw [ticket_tail hqueue rfl rfl hk, h.ticket_eq k ((Nat.le_succ _).trans hk) hku]
      · intro k i hk hku hi
        rw [ticket_tail hqueue rfl rfl hk] at hi
        exact hcarried k i ((Nat.le_succ _).trans hk) hku hi

theorem eligibleSpec_of_run {univ : List ι} (hu : univ.Nodup) {u : ℕ}
    (hs : Invariant floor univ s) (hus : u < s.next) (h : Run (Step floor choose) s es t)
    (ht : t.head ≤ u) : EligibleSpec s u es t := by
  refine h.history (P := fun es x => x.head ≤ u → EligibleSpec s u es x) ?_ ?_ ht
  · intro es x e y hrun ih hstep hy
    have hmono := head_next_of_run hrun
    have hx := hstep.head_next.1.trans hy
    exact (ih hx).step hu hmono.1 (hus.trans_le hmono.2) (invariant_of_run hrun hs) hstep hy
  · intro _
    exact ⟨fun i => by simp [HandedIn, PickedBefore], fun _ _ _ => rfl,
      fun _ _ _ _ _ => by simp [PickedBefore]⟩

/-- The tickets resolved in a run, in the order of their resolution. -/
def resolvedTickets (es : List (Event ι ν)) : List ℕ := (es.filterMap Event.resolution).map Prod.fst

/-- A step resolves the head, or nothing. -/
theorem Step.resolution_eq (h : Step floor choose s e t) :
    (e.resolution = none ∧ t.head = s.head) ∨
      ∃ o, e.resolution = some (s.head, o) ∧ t.head = s.head + 1 := by
  cases h with
  | request => exact Or.inl ⟨rfl, rfl⟩
  | giveBack => exact Or.inl ⟨rfl, rfl⟩
  | merge => exact Or.inl ⟨rfl, rfl⟩
  | settle => exact Or.inr ⟨_, rfl, rfl⟩
  | expire => exact Or.inr ⟨_, rfl, rfl⟩

/-- **Tickets are resolved one by one, in order.** -/
theorem resolvedTickets_of_run (h : Run (Step floor choose) s es t) :
    resolvedTickets es = List.range' s.head (t.head - s.head) := by
  induction h with
  | nil s => simp [resolvedTickets]
  | @cons s m t e es hstep hrun ih =>
      have hle := (head_next_of_run hrun).1
      rcases hstep.resolution_eq with ⟨he, hhead⟩ | ⟨o, he, hhead⟩
      · rw [resolvedTickets, List.filterMap_cons_none he, ← hhead]
        exact ih
      · have hsplit : t.head - s.head = (t.head - m.head) + 1 := by omega
        rw [resolvedTickets, List.filterMap_cons_some he, List.map_cons, hsplit, List.range'_succ,
          ← hhead]
        exact congrArg (s.head :: ·) ih

/-- No ticket below the head is resolved. -/
theorem head_le_of_settled_mem (h : Run (Step floor choose) s es t) {k : ℕ} {v : ν} {c : List ι}
    {p : ι} (hmem : Event.settled k v c p ∈ es) : s.head ≤ k := by
  obtain ⟨es₁, es₂, x, y, rfl, h₁, hxy, -⟩ := h.split_of_mem hmem
  cases hxy with
  | settle => exact (head_next_of_run h₁).1

/-- **The candidate set of a draw.**  What ticket `u` draws from is what was in
the pool when it was issued, plus the items of earlier pending tickets drawn for
since, minus what those draws took. -/
theorem mem_candidates_iff {univ : List ι} (hu : univ.Nodup) {s₀ : State ι} {u : ℕ}
    {o : Option ι} (h₀ : Invariant floor univ s₀)
    (hreq : Step floor choose s₀ (.requested u o : Event ι ν) s)
    (h : Run (Step floor choose) s es t) {v : ν} {c : List ι} {p : ι}
    (hmem : Event.settled u v c p ∈ es) (i : ι) :
    i ∈ c ↔ (i ∈ s.drawable ++ s.incoming.map Prod.fst ∨ HandedIn s es u i) ∧
      ¬ PickedBefore es u i := by
  have hs := hreq.invariant h₀
  obtain ⟨es₁, es₂, x, y, rfl, h₁, hxy, h₂⟩ := h.split_of_mem hmem
  have hus : u < s.next := by
    cases hreq with
    | request => simp only [State.next, List.length_append, List.length_singleton]; omega
  have hbase : s.eligible u = s.drawable ++ s.incoming.map Prod.fst := by
    have hall : (s.incoming.filter fun e => e.2 ≤ u) = s.incoming := by
      rw [List.filter_eq_self]
      cases hreq with
      | request => exact fun e he => by simpa using h₀.stamped.le_next e he
    rw [State.eligible, hall]
  have hx := invariant_of_run h₁ hs
  cases hxy with
  | @settle o' q _ _ hqueue hpick =>
      have hspec := eligibleSpec_of_run hu hs hus h₁ le_rfl
      have hcand : x.eligible x.head = x.candidates := by
        rw [State.eligible, ← hx.stamped.takeWhile_eq_filter, State.candidates, State.ready]
      -- draws after this one are for later tickets
      have hlater : ∀ k v' c' p', k < x.head →
          (Event.settled k v' c' p' ∈ es₁ ++ .settled x.head v x.candidates p :: es₂ ↔
            Event.settled k v' c' p' ∈ es₁) := by
        intro k v' c' p' hk
        simp only [List.mem_append, List.mem_cons, Event.settled.injEq]
        refine ⟨?_, Or.inl⟩
        rintro (hold | ⟨rfl, -⟩ | hnew)
        · exact hold
        · omega
        · have hle : x.head + 1 ≤ k := head_le_of_settled_mem h₂ hnew
          omega
      have hhand : HandedIn s (es₁ ++ .settled x.head v x.candidates p :: es₂) x.head i ↔
          HandedIn s es₁ x.head i :=
        exists_congr fun k => and_congr_right fun _ => and_congr_right fun hk =>
          and_congr_right fun _ => by simp only [hlater k _ _ _ hk]
      have hpicked : PickedBefore (es₁ ++ .settled x.head v x.candidates p :: es₂) x.head i ↔
          PickedBefore es₁ x.head i :=
        exists_congr fun k => exists_congr fun _ => exists_congr fun _ =>
          and_congr_right fun hk => hlater k _ _ _ hk
      rw [hhand, hpicked, ← hbase, ← hspec.mem_iff, hcand]

/-- **Nobody's own item.**  An item that was out when ticket `u` was issued, or
that the ticket carries, is not among what it draws from. -/
theorem not_mem_candidates_of_outside {univ : List ι} (hu : univ.Nodup) {s₀ : State ι} {u : ℕ}
    {o : Option ι} (h₀ : Invariant floor univ s₀)
    (hreq : Step floor choose s₀ (.requested u o : Event ι ν) s)
    (h : Run (Step floor choose) s es t) {v : ν} {c : List ι} {p : ι}
    (hmem : Event.settled u v c p ∈ es) {i : ι} (hi : i ∈ s₀.outside) : i ∉ c := by
  have hdisj := List.disjoint_of_nodup_append (h₀.places_nodup hu)
  rw [mem_candidates_iff hu h₀ hreq h hmem]
  rintro ⟨hpool | ⟨k, hk, hku, hticket, -⟩, -⟩
  · cases hreq with
    | request => exact hdisj (List.mem_append_left _ hpool) hi
  · cases hreq with
    | request =>
        refine hdisj (List.mem_append_right _ ?_) hi
        have hlt : k - s₀.head < s₀.queue.length := by
          have hk' : s₀.head ≤ k := hk
          simp only [State.next] at hku
          omega
        simp only [State.ticket, List.getElem?_append_left hlt, Option.join_eq_some_iff] at hticket
        exact List.reduceOption_mem_iff.mpr (List.mem_of_getElem? hticket)

end Foundations.SequencedPool
