import HybridVault.Foundations.Containers
import HybridVault.Foundations.Transition
import Mathlib.Data.List.ReduceOption
import Mathlib.Data.List.TakeWhile

/-!
# The sequenced pool

A pool of distinguishable items from which strictly ordered tickets draw one
item each, while items come back at any time.  The difficulty is fairness: an
item that comes back after a ticket was issued must not be drawable by it,
although the draw happens much later and other tickets draw in between.

The machine solves this with two regions and one number.  Items that come back
wait in `incoming`, stamped with the next ticket number; a draw for ticket `t`
first moves every waiting item with stamp at most `t` into `drawable` and draws
from the result, by position and swap-remove.  A ticket may carry an item of
its own (an exchange); it enters `drawable` only after the ticket's own draw.
A ticket may also be dropped, which hands its item back.

Moving waiting items early (`merge`) is allowed at any time but never beyond
the stamp bound of the current head, which is what makes it unobservable.

This file has the machine and its three state invariants:

* `Balanced` — every item is in exactly one place;
* `Stamped` — stamps are sorted and never in the future;
* `Reserved` — after the draws ahead of it, a pending ticket always finds more
  than `floor` items it may draw from.

What two runs can be told apart by is the subject of
`HybridVault.Foundations.SequencedPoolDraws`.
-/

namespace Foundations.SequencedPool

open Foundations

universe u v

/-- The pool, the waiting items with their stamps, the pending tickets with
the item each carries, the number of the first pending ticket, and the items
that are out. -/
structure State (ι : Type u) where
  drawable : List ι
  incoming : List (ι × ℕ)
  queue : List (Option ι)
  head : ℕ
  outside : List ι

/-- What a step lets an observer see. -/
inductive Event (ι : Type u) (ν : Type v)
  /-- Ticket `seq` was issued, carrying `handIn`. -/
  | requested (seq : ℕ) (handIn : Option ι)
  /-- An item came back. -/
  | returned (item : ι)
  /-- `count` waiting items became drawable. -/
  | merged (count : ℕ)
  /-- Ticket `seq` drew `picked` from `candidates` with `value`. -/
  | settled (seq : ℕ) (value : ν) (candidates : List ι) (picked : ι)
  /-- Ticket `seq` was dropped and its item handed back. -/
  | expired (seq : ℕ) (handIn : Option ι)
deriving DecidableEq, Repr

variable {ι : Type u} {ν : Type v}

namespace State

/-- The number the next ticket gets. -/
def next (s : State ι) : ℕ := s.head + s.queue.length

/-- The waiting items the head ticket may draw. -/
def ready (s : State ι) : List (ι × ℕ) := s.incoming.takeWhile fun e => e.2 ≤ s.head

/-- The waiting items the head ticket may not draw. -/
def waiting (s : State ι) : List (ι × ℕ) := s.incoming.dropWhile fun e => e.2 ≤ s.head

/-- What the head ticket draws from. -/
def candidates (s : State ι) : List ι := s.drawable ++ s.ready.map Prod.fst

theorem ready_append_waiting (s : State ι) : s.ready ++ s.waiting = s.incoming :=
  List.takeWhile_append_dropWhile

theorem head_le_next (s : State ι) : s.head ≤ s.next := Nat.le_add_right _ _

end State

/-- The items out after an event. -/
def outsideAfter [DecidableEq ι] (out : List ι) : Event ι ν → List ι
  | .requested _ (some i) => out.erase i
  | .requested _ none => out
  | .returned i => out.erase i
  | .merged _ => out
  | .settled _ _ _ p => p :: out
  | .expired _ (some i) => i :: out
  | .expired _ none => out

/-- The steps of the machine.  `floor` is the reserve a new ticket must leave
behind and `choose` the position a ticket's value selects. -/
inductive Step [DecidableEq ι] (floor : ℕ) (choose : ℕ → ν → ℕ → ℕ) :
    State ι → Event ι ν → State ι → Prop
  | request {s : State ι} {o : Option ι} (hheld : ∀ i ∈ o, i ∈ s.outside)
      (hroom : floor + s.queue.length < s.drawable.length + s.incoming.length) :
      Step floor choose s (.requested s.next o)
        { s with
          queue := s.queue ++ [o]
          outside := outsideAfter s.outside (.requested s.next o : Event ι ν) }
  | giveBack {s : State ι} {i : ι} (hheld : i ∈ s.outside) :
      Step floor choose s (.returned i)
        { s with
          incoming := s.incoming ++ [(i, s.next)]
          outside := s.outside.erase i }
  | merge {s : State ι} {n : ℕ} (hn : n ≤ s.ready.length) :
      Step floor choose s (.merged n)
        { s with
          drawable := s.drawable ++ (s.incoming.take n).map Prod.fst
          incoming := s.incoming.drop n }
  | settle {s : State ι} {o : Option ι} {q : List (Option ι)} {v : ν} {p : ι}
      (hqueue : s.queue = o :: q)
      (hpick : s.candidates[choose s.head v s.candidates.length]? = some p) :
      Step floor choose s (.settled s.head v s.candidates p)
        { drawable := swapRemove s.candidates (choose s.head v s.candidates.length) ++ o.toList
          incoming := s.waiting
          queue := q
          head := s.head + 1
          outside := p :: s.outside }
  | expire {s : State ι} {o : Option ι} {q : List (Option ι)} (hqueue : s.queue = o :: q) :
      Step floor choose s (.expired s.head o)
        { s with
          queue := q
          head := s.head + 1
          outside := outsideAfter s.outside (.expired s.head o : Event ι ν) }

variable [DecidableEq ι] {floor : ℕ} {choose : ℕ → ν → ℕ → ℕ} {s t : State ι} {e : Event ι ν}
  {es : List (Event ι ν)}

/-- The initial state: every item drawable, no ticket. -/
def State.initial (univ : List ι) : State ι where
  drawable := univ
  incoming := []
  queue := []
  head := 0
  outside := []

/-! ## What a step does to the counters -/

/-- A step issues at most one ticket and retires at most one. -/
theorem Step.head_next (h : Step floor choose s e t) :
    s.head ≤ t.head ∧ s.next ≤ t.next := by
  cases h with
  | request => simp only [State.next, List.length_append]; omega
  | giveBack => simp [State.next]
  | merge => simp [State.next]
  | settle hqueue => simp only [State.next, hqueue, List.length_cons]; omega
  | expire hqueue => simp only [State.next, hqueue, List.length_cons]; omega

theorem head_next_of_run (h : Run (Step floor choose) s es t) :
    s.head ≤ t.head ∧ s.next ≤ t.next := by
  induction h with
  | nil => exact ⟨le_rfl, le_rfl⟩
  | cons hstep _ ih =>
      exact ⟨hstep.head_next.1.trans ih.1, hstep.head_next.2.trans ih.2⟩

theorem Step.outside_eq (h : Step floor choose s e t) :
    t.outside = outsideAfter s.outside e := by
  cases h <;> rfl

/-- The items out are a fold over the events. -/
theorem outside_of_run (h : Run (Step floor choose) s es t) :
    t.outside = es.foldl outsideAfter s.outside := by
  induction h with
  | nil => rfl
  | cons hstep _ ih => rw [ih, hstep.outside_eq, List.foldl_cons]

/-! ## Every item is in exactly one place -/

/-- The four places an item can be. -/
def State.places (s : State ι) : List ι :=
  s.drawable ++ s.incoming.map Prod.fst ++ s.queue.reduceOption ++ s.outside

/-- Every item of `univ` is in exactly one place, once. -/
def Balanced (univ : List ι) (s : State ι) : Prop := s.places.Perm univ

omit [DecidableEq ι] in
theorem balanced_initial (univ : List ι) : Balanced univ (State.initial univ) := by
  simp [Balanced, State.places, State.initial, List.reduceOption]

omit [DecidableEq ι] in
/-- Drawing replaces the candidates by the pick and the rest. -/
theorem candidates_perm_of_pick {cs : List ι} {k : ℕ} {p : ι} (h : cs[k]? = some p) :
    (p :: swapRemove cs k).Perm cs := by
  obtain ⟨hk, rfl⟩ := List.getElem?_eq_some_iff.mp h
  exact cons_swapRemove_perm hk

theorem Step.places_perm (h : Step floor choose s e t) : t.places.Perm s.places := by
  rw [List.perm_iff_count]
  intro x
  cases h with
  | request hheld hroom =>
      rename_i o
      cases o with
      | none => simp [State.places, outsideAfter, List.reduceOption]
      | some i =>
          have hi : i ∈ s.outside := hheld i rfl
          have hpos : 0 < s.outside.count i := List.count_pos_iff.mpr hi
          simp only [State.places, outsideAfter, List.reduceOption_append,
            List.count_append, List.count_erase, List.reduceOption_cons_of_some,
            List.reduceOption_nil, List.count_cons, List.count_nil]
          by_cases hx : i = x
          · subst hx; simp; omega
          · simp [hx]
  | giveBack hheld =>
      rename_i i
      have hpos : 0 < s.outside.count i := List.count_pos_iff.mpr hheld
      simp only [State.places, List.map_append, List.map_cons, List.map_nil,
        List.count_append, List.count_erase, List.count_cons, List.count_nil]
      by_cases hx : i = x
      · subst hx; simp; omega
      · simp [hx]
  | merge hn =>
      rename_i n
      have hsplit : (s.incoming.map Prod.fst).count x
          = ((s.incoming.take n).map Prod.fst).count x
            + ((s.incoming.drop n).map Prod.fst).count x := by
        rw [← List.count_append, ← List.map_append, List.take_append_drop]
      simp only [State.places, List.count_append, hsplit]
      omega
  | settle hqueue hpick =>
      rename_i o q v p
      -- the candidates are the pool and the ready part of the ring
      have hcand := (candidates_perm_of_pick hpick).count_eq x
      have hsplit : (s.incoming.map Prod.fst).count x
          = (s.ready.map Prod.fst).count x + (s.waiting.map Prod.fst).count x := by
        rw [← List.count_append, ← List.map_append, s.ready_append_waiting]
      have hqc : s.queue.reduceOption.count x = o.toList.count x + q.reduceOption.count x := by
        rw [hqueue]; cases o <;> simp [List.count_cons, Nat.add_comm]
      simp only [State.candidates, List.count_append, List.count_cons] at hcand
      simp only [State.places, State.candidates, List.count_append, List.count_cons, hsplit, hqc]
      omega
  | expire hqueue =>
      rename_i o q
      cases o with
      | none => simp [State.places, outsideAfter, hqueue]
      | some i =>
          simp only [State.places, outsideAfter, hqueue, List.reduceOption_cons_of_some,
            List.count_append, List.count_cons]
          omega

theorem Step.balanced {univ : List ι} (h : Step floor choose s e t) (hs : Balanced univ s) :
    Balanced univ t :=
  h.places_perm.trans hs

/-! ## Stamps -/

/-- Stamps are sorted and at most the next ticket number. -/
structure Stamped (s : State ι) : Prop where
  sorted : s.incoming.Pairwise fun x y => x.2 ≤ y.2
  le_next : ∀ x ∈ s.incoming, x.2 ≤ s.next

omit [DecidableEq ι] in
theorem stamped_initial (univ : List ι) : Stamped (State.initial univ) :=
  ⟨List.Pairwise.nil, by simp [State.initial]⟩

theorem Step.stamped (h : Step floor choose s e t) (hs : Stamped s) : Stamped t := by
  have hnext := h.head_next.2
  cases h with
  | request => exact ⟨hs.sorted, fun x hx => (hs.le_next x hx).trans hnext⟩
  | giveBack =>
      refine ⟨?_, ?_⟩
      · refine List.pairwise_append.mpr ⟨hs.sorted, List.pairwise_singleton _ _, ?_⟩
        intro x hx y hy
        rw [List.mem_singleton.mp hy]
        exact hs.le_next x hx
      · intro x hx
        rcases List.mem_append.mp hx with hx | hx
        · exact hs.le_next x hx
        · rw [List.mem_singleton.mp hx]
          exact le_rfl
  | merge =>
      exact ⟨hs.sorted.sublist (List.drop_sublist _ _),
        fun x hx => hs.le_next x (List.mem_of_mem_drop hx)⟩
  | settle =>
      refine ⟨hs.sorted.sublist (List.dropWhile_sublist _), ?_⟩
      intro x hx
      exact (hs.le_next x ((List.dropWhile_sublist _).subset hx)).trans hnext
  | expire => exact ⟨hs.sorted, fun x hx => (hs.le_next x hx).trans hnext⟩

omit [DecidableEq ι] in
/-- Where stamps are sorted, the prefix within a bound is the part within it. -/
theorem Stamped.takeWhile_eq_filter (hs : Stamped s) (b : ℕ) :
    (s.incoming.takeWhile fun e => e.2 ≤ b) = s.incoming.filter fun e => e.2 ≤ b := by
  refine takeWhile_eq_filter_of_pairwise (hs.sorted.imp fun {x y} hxy => ?_)
  simp only [decide_eq_true_eq]
  exact fun hy => hxy.trans hy

/-! ## The reserve -/

/-- The number of items ticket number `b` may draw from, before earlier draws. -/
def State.eligibleCount (s : State ι) (b : ℕ) : ℕ :=
  s.drawable.length + s.incoming.countP fun e => e.2 ≤ b

/-- The `k`-th pending ticket finds more than `floor` items after the `k` draws
ahead of it. -/
def Reserved (floor : ℕ) (s : State ι) : Prop :=
  ∀ k < s.queue.length, floor + k < s.eligibleCount (s.head + k)

omit [DecidableEq ι] in
theorem reserved_initial (univ : List ι) : Reserved floor (State.initial univ) := by
  intro k hk
  simp [State.initial] at hk

omit [DecidableEq ι] in
theorem countP_ready (s : State ι) (b : ℕ) (hb : s.head ≤ b) :
    (s.incoming.countP fun e => e.2 ≤ b)
      = s.ready.length + s.waiting.countP fun e => e.2 ≤ b := by
  conv_lhs => rw [← s.ready_append_waiting, List.countP_append]
  congr 1
  rw [List.countP_eq_length]
  intro e he
  have : e.2 ≤ s.head := by simpa using List.mem_takeWhile_imp he
  simpa using this.trans hb

omit [DecidableEq ι] in
theorem length_take_incoming {n : ℕ} (hn : n ≤ s.ready.length) :
    (s.incoming.take n).length = n := by
  have hle : s.ready.length ≤ s.incoming.length := (List.takeWhile_sublist _).length_le
  rw [List.length_take, Nat.min_eq_left (hn.trans hle)]

theorem Step.reserved (h : Step floor choose s e t) (hst : Stamped s) (hs : Reserved floor s) :
    Reserved floor t := by
  cases h with
  | request hheld hroom =>
      intro k hk
      simp only [List.length_append, List.length_singleton] at hk
      by_cases hlast : k < s.queue.length
      · exact hs k hlast
      · -- every stamp is at most the number of the ticket being issued
        have hall : (s.incoming.countP fun e => e.2 ≤ s.head + k) = s.incoming.length := by
          rw [List.countP_eq_length]
          intro e he
          have := hst.le_next e he
          simp only [State.next] at this
          simp only [decide_eq_true_eq]
          omega
        simp only [State.eligibleCount, hall]
        omega
  | giveBack =>
      intro k hk
      refine (hs k hk).trans_le ?_
      simp only [State.eligibleCount, List.countP_append]
      omega
  | merge hn =>
      rename_i n
      intro k hk
      have hold := hs k hk
      -- what is merged now was eligible for every ticket
      have htake : ((s.incoming.take n).countP fun e => e.2 ≤ s.head + k) = n := by
        rw [List.countP_eq_length.mpr, length_take_incoming hn]
        intro e he
        rw [take_eq_take_takeWhile hn] at he
        have : e.2 ≤ s.head := by
          simpa using List.mem_takeWhile_imp (List.mem_of_mem_take he)
        simp only [decide_eq_true_eq]
        omega
      have hsplit : (s.incoming.countP fun e => e.2 ≤ s.head + k)
          = n + (s.incoming.drop n).countP fun e => e.2 ≤ s.head + k := by
        conv_lhs => rw [← List.take_append_drop n s.incoming, List.countP_append, htake]
      have hlen : ((s.incoming.take n).map Prod.fst).length = n := by
        rw [List.length_map, length_take_incoming hn]
      simp only [State.eligibleCount, hsplit] at hold
      simp only [State.eligibleCount, List.length_append, hlen]
      omega
  | settle hqueue hpick =>
      -- one item leaves and one ticket does, and the tickets behind move up by one
      intro k hk
      have hold := hs (k + 1) (by rw [hqueue]; exact Nat.succ_lt_succ hk)
      rw [State.eligibleCount, countP_ready s _ (by omega)] at hold
      have hshift : s.head + 1 + k = s.head + (k + 1) := by omega
      simp only [State.eligibleCount, State.candidates, List.length_append, length_swapRemove,
        List.length_map, hshift]
      omega
  | expire hqueue =>
      intro k hk
      have hold := hs (k + 1) (by rw [hqueue]; exact Nat.succ_lt_succ hk)
      have hshift : s.head + 1 + k = s.head + (k + 1) := by omega
      simp only [State.eligibleCount, hshift] at hold ⊢
      omega

omit [DecidableEq ι] in
/-- While tickets are pending, there is an item for each of them and the floor besides. -/
theorem Reserved.floor_add_le (hs : Reserved floor s) (hq : s.queue ≠ []) :
    floor + s.queue.length ≤ s.drawable.length + s.incoming.length := by
  have hpos := List.length_pos_iff.mpr hq
  have hres := hs (s.queue.length - 1) (by omega)
  simp only [State.eligibleCount] at hres
  have hle := List.countP_le_length
    (p := fun e : ι × ℕ => decide (e.2 ≤ s.head + (s.queue.length - 1))) (l := s.incoming)
  omega

omit [DecidableEq ι] in
/-- A pending head ticket draws from more than `floor` items. -/
theorem Reserved.floor_lt_candidates (hs : Reserved floor s) (hst : Stamped s)
    (hq : s.queue ≠ []) : floor < s.candidates.length := by
  have h := hs 0 (List.length_pos_iff.mpr hq)
  rw [State.eligibleCount, Nat.add_zero, Nat.add_zero, List.countP_eq_length_filter,
    ← hst.takeWhile_eq_filter] at h
  simpa [State.candidates, State.ready] using h

/-! ## The three invariants together -/

/-- The invariants of every reachable state. -/
structure Invariant (floor : ℕ) (univ : List ι) (s : State ι) : Prop where
  balanced : Balanced univ s
  stamped : Stamped s
  reserved : Reserved floor s

omit [DecidableEq ι] in
theorem invariant_initial (univ : List ι) : Invariant floor univ (State.initial univ) :=
  ⟨balanced_initial univ, stamped_initial univ, reserved_initial univ⟩

theorem Step.invariant {univ : List ι} (h : Step floor choose s e t)
    (hs : Invariant floor univ s) : Invariant floor univ t :=
  ⟨h.balanced hs.balanced, h.stamped hs.stamped, h.reserved hs.stamped hs.reserved⟩

theorem invariant_of_run {univ : List ι} (h : Run (Step floor choose) s es t)
    (hs : Invariant floor univ s) : Invariant floor univ t :=
  h.invariant (fun _ _ _ hs hstep => hstep.invariant hs) hs

variable {univ : List ι}

omit [DecidableEq ι] in
/-- Items out and tickets pending never outnumber the items: every ticket has
an item reserved for it. -/
theorem Invariant.outside_add_queue_le (hs : Invariant floor univ s) :
    s.outside.length + s.queue.length ≤ univ.length := by
  have hlen := hs.balanced.length_eq
  simp only [State.places, List.length_append, List.length_map] at hlen
  by_cases hq : s.queue = []
  · rw [hq] at hlen ⊢
    simp only [List.length_nil] at *
    omega
  · have hres := hs.reserved.floor_add_le hq
    omega

omit [DecidableEq ι] in
theorem Invariant.places_nodup (hs : Invariant floor univ s) (hu : univ.Nodup) :
    s.places.Nodup :=
  hs.balanced.nodup_iff.mpr hu

end Foundations.SequencedPool
