import HybridVault.Foundations.SequencedPoolDraws
import HybridVault.Partition

/-!
# Fair draws

What a draw can depend on.  The list a settle picks from is a mutable array that
merges, releases, other draws and returned hand-ins rearrange between the request and
its settle; nobody can use that.

* `draws_noninterference` — two continuations of one state that agree on how the
  pending requests up to `s` were resolved agree on every draw up to `s`: on the
  ordered list picked from and on the index picked.
* `candidate_set` — as a set, the list is determined by what was in the pool when the
  request was made and by the draws ahead of it; what a user held at that moment is
  never in it.

Both are properties of the sequenced pool, carried over by the refinement.
-/

namespace HybridVault

open Foundations

variable {D : Deployment} {w₀ w w₁ w₂ w' : World} {x : SequencedPool.State ℕ}
  {ls₀ ls ls₁ ls₂ : List Label} {ix : Instruction}

/-- The worlds before and after a request, with the states of the pool they track. -/
theorem History.tracks_request (h : History D ls₀ w₀) {s : ℕ} {o : Option ℕ}
    (hreq : Step D w₀ (.instruction ix [.requested s o]) w) :
    ∃ x₀ x, x₀.outside = releasedIndices (poolEvents ls₀) ∧ Tracks D w₀ x₀ ∧
      PoolStep D x₀ (.requested s o) x ∧ Tracks D w x := by
  obtain ⟨x₀, hrun₀, h₀⟩ := h.tracks
  obtain ⟨x, hstep, hx⟩ := h₀.step hreq
  exact ⟨x₀, x, outside_eq_releasedIndices hrun₀, h₀, hstep.step_of_single, hx⟩

/-- **Draws cannot be steered by scheduling.**  `w` is a reachable state immediately
after request `s` was made, and the two continuations agree on the outcome of every
pending request up to `s`: settled with which value, expired, or still pending.  Then
they agree on every draw up to `s`, on the list picked from, in its order, and on the
index picked. -/
theorem draws_noninterference (h : History D ls₀ w₀) {s : ℕ} {o : Option ℕ}
    (hreq : Step D w₀ (.instruction ix [.requested s o]) w)
    (h₁ : Run (Step D) w ls₁ w₁) (h₂ : Run (Step D) w ls₂ w₂)
    (hout : ∀ t, w.vault.nextSettleSeq ≤ t → t ≤ s →
      SequencedPool.outcome (poolEvents ls₁) t = SequencedPool.outcome (poolEvents ls₂) t) :
    ∀ t ≤ s, ∀ value candidates picked,
      SequencedPool.Event.settled t value candidates picked ∈ poolEvents ls₁ ↔
        SequencedPool.Event.settled t value candidates picked ∈ poolEvents ls₂ := by
  obtain ⟨x₀, x, -, -, hstep, hx⟩ := h.tracks_request hreq
  obtain ⟨y₁, hrun₁, -⟩ := hx.run h₁
  obtain ⟨y₂, hrun₂, -⟩ := hx.run h₂
  have hnext : s < x.next := by
    cases hstep with
    | request =>
        simp only [SequencedPool.State.next, List.length_append, List.length_singleton]
        omega
  rw [hx.head] at hout
  intro t ht value candidates picked
  have hle : ∀ k, x.head ≤ k → k ≤ t →
      SequencedPool.outcome (poolEvents ls₁) k = SequencedPool.outcome (poolEvents ls₂) k :=
    fun k hk hkt => hout k hk (hkt.trans ht)
  constructor
  · exact SequencedPool.settled_mem_of_outcome_eq hrun₁ hrun₂ (ht.trans_lt hnext) hle
  · exact SequencedPool.settled_mem_of_outcome_eq hrun₂ hrun₁ (ht.trans_lt hnext)
      fun k hk hkt => (hle k hk hkt).symm

/-- The last capture of the busy run, and the two ways on from it. -/
theorem draws_noninterference_small :
    ∃ ls₀ w₀ w ls₁ w₁ ls₂ w₂, History smallVault ls₀ w₀ ∧
      Step smallVault w₀
        (.instruction (busyCapture 4 smallUser smallUserToken) [.requested 4 none]) w ∧
      (Run (Step smallVault) w ls₁ w₁ ∧ poolEvents ls₁ = busyDraws) ∧
      (Run (Step smallVault) w ls₂ w₂ ∧ poolEvents ls₂ = busyDrawsAmongMerges) ∧
      ∀ t ≤ 4, ∀ value candidates picked,
        SequencedPool.Event.settled t value candidates picked ∈ poolEvents ls₁ ↔
          SequencedPool.Event.settled t value candidates picked ∈ poolEvents ls₂ := by
  obtain ⟨-, -, ls₀, w₀, w, ls₁, w₁, ls₂, w₂, -, -, h, hreq, hhead, ⟨hrun₁, h₁⟩, hrun₂, h₂⟩ :=
    exists_busyRun
  refine ⟨ls₀, w₀, w, ls₁, w₁, ls₂, w₂, h, hreq, ⟨hrun₁, h₁⟩, ⟨hrun₂, h₂⟩,
    draws_noninterference h hreq hrun₁ hrun₂ ?_⟩
  intro t hge hle
  rw [hhead] at hge
  rw [h₁, h₂]
  obtain rfl | rfl : t = 3 ∨ t = 4 := by omega
  · rfl
  · rfl

/-- A pending request's hand-in, on the chain and in the pool. -/
theorem Tracks.ticket_eq_some_iff (h : Tracks D w x) {k i : ℕ} (hk : k < x.next) :
    (x.head ≤ k ∧ x.ticket k = some i) ↔
      ∃ r, w.requests (D.requestAddress k) = some r ∧ r.handIn = some i := by
  constructor
  · rintro ⟨hge, hticket⟩
    obtain ⟨r, hr, -, hqueue⟩ := h.tickets.record k hge hk
    rw [SequencedPool.State.ticket, hqueue] at hticket
    exact ⟨r, hr, hticket⟩
  · rintro ⟨r, hr, hhand⟩
    obtain ⟨-, -, hseq, hge, -⟩ := h.tickets.own _ r hr (Or.inr ⟨k, rfl⟩)
    rw [requestAddress_inj] at hseq
    rw [← hseq] at hge
    obtain ⟨r', hr', -, hqueue⟩ := h.tickets.record k hge hk
    obtain rfl := Option.some.inj (hr.symm.trans hr')
    exact ⟨hge, by rw [SequencedPool.State.ticket, hqueue]; exact hhand⟩

/-- **The exact candidate set of a draw.**  `w` is a reachable state immediately after
request `t` was made, and `t` is settled in a continuation.  What it drew from is what
was in the pool and the ring then, plus the hand-ins of the re-rolls before `t` that
were pending then and were settled since, minus what requests before `t` have picked
since.  So nothing a user held when `t` was made is in it, and neither is `t`'s own
hand-in. -/
theorem candidate_set (h : History D ls₀ w₀) {t : ℕ} {o : Option ℕ}
    (hreq : Step D w₀ (.instruction ix [.requested t o]) w) (hrun : Run (Step D) w ls w')
    {value : Bytes32} {candidates : List ℕ} {picked : ℕ}
    (hmem : SequencedPool.Event.settled t value candidates picked ∈ poolEvents ls) :
    (∀ i, i ∈ candidates ↔
        (i ∈ drawableOf w.pool ++ (incomingOf D.size w.pool).map Prod.fst ∨
            ∃ s < t, (∃ r, w.requests (D.requestAddress s) = some r ∧ r.handIn = some i) ∧
              ∃ v c p, SequencedPool.Event.settled s v c p ∈ poolEvents ls) ∧
          ¬ ∃ s < t, ∃ v c, SequencedPool.Event.settled s v c i ∈ poolEvents ls) ∧
      picked ∈ candidates ∧ (∀ i ∈ releasedIndices (poolEvents ls₀), i ∉ candidates) ∧
      ∀ i ∈ o, i ∉ candidates := by
  obtain ⟨x₀, x, hout, h₀, hstep, hx⟩ := h.tracks_request hreq
  obtain ⟨y, hpool, -⟩ := hx.run hrun
  have ht : t < x.next ∧ ∀ i ∈ o, i ∈ x₀.outside := by
    cases hstep with
    | request hheld =>
        refine ⟨?_, hheld⟩
        simp only [SequencedPool.State.next, List.length_append, List.length_singleton]
        omega
  have houtside : ∀ i ∈ x₀.outside, i ∉ candidates := fun i hi =>
    SequencedPool.not_mem_candidates_of_outside List.nodup_range h₀.invariant hstep hpool hmem hi
  refine ⟨?_, ?_, by rwa [← hout], fun i hi => houtside i (ht.2 i hi)⟩
  · intro i
    rw [SequencedPool.mem_candidates_iff List.nodup_range h₀.invariant hstep hpool hmem i,
      hx.drawable, hx.incoming]
    have hhand : SequencedPool.HandedIn x (poolEvents ls) t i ↔
        ∃ s < t, (∃ r, w.requests (D.requestAddress s) = some r ∧ r.handIn = some i) ∧
          ∃ v c p, SequencedPool.Event.settled s v c p ∈ poolEvents ls := by
      refine exists_congr fun s => ?_
      constructor
      · rintro ⟨hge, hlt, hticket, hsettled⟩
        exact ⟨hlt, (hx.ticket_eq_some_iff (hlt.trans ht.1)).mp ⟨hge, hticket⟩, hsettled⟩
      · rintro ⟨hlt, hr, hsettled⟩
        obtain ⟨hge, hticket⟩ := (hx.ticket_eq_some_iff (hlt.trans ht.1)).mpr hr
        exact ⟨hge, hlt, hticket, hsettled⟩
    have hpicked : SequencedPool.PickedBefore (poolEvents ls) t i ↔
        ∃ s < t, ∃ v c, SequencedPool.Event.settled s v c i ∈ poolEvents ls := by
      refine exists_congr fun s => ?_
      constructor
      · rintro ⟨v, c, hlt, hsettled⟩
        exact ⟨hlt, v, c, hsettled⟩
      · rintro ⟨hlt, v, c, hsettled⟩
        exact ⟨v, c, hlt, hsettled⟩
    rw [hhand, hpicked]
  · obtain ⟨-, -, -, hpick⟩ :=
      SequencedPool.candidates_eq_after hpool hmem (Nat.lt_succ_self t) ht.1
    exact List.mem_of_getElem? hpick

/-- The last capture of the busy run draws the asset that was handed in before it. -/
theorem candidate_set_small :
    ∃ ls₀ w₀ w ls w', History smallVault ls₀ w₀ ∧
      Step smallVault w₀
        (.instruction (busyCapture 4 smallUser smallUserToken) [.requested 4 none]) w ∧
      (Run (Step smallVault) w ls w' ∧ poolEvents ls = busyDrawsAmongMerges) ∧
      27 ∈ busyEntries ++ [27, 24] ∧
      ∀ i, i ∈ busyEntries ++ [27, 24] ↔
        (i ∈ drawableOf w.pool ++ (incomingOf smallVault.size w.pool).map Prod.fst ∨
            ∃ s < 4, (∃ r, w.requests (smallVault.requestAddress s) = some r ∧ r.handIn = some i) ∧
              ∃ v c p, SequencedPool.Event.settled s v c p ∈ poolEvents ls) ∧
          ¬ ∃ s < 4, ∃ v c, SequencedPool.Event.settled s v c i ∈ poolEvents ls := by
  obtain ⟨-, -, ls₀, w₀, w, -, -, ls, w', -, -, h, hreq, -, -, hrun, hevents⟩ := exists_busyRun
  have hmem : SequencedPool.Event.settled 4 (busyValue 4) (busyEntries ++ [27, 24]) 27
      ∈ poolEvents ls := by
    rw [hevents]
    simp [busyDrawsAmongMerges]
  obtain ⟨hset, hpicked, -⟩ := candidate_set h hreq hrun hmem
  exact ⟨ls₀, w₀, w, ls, w', h, hreq, ⟨hrun, hevents⟩, hpicked, hset⟩

end HybridVault
