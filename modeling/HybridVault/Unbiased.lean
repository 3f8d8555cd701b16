import HybridVault.Reachability
import HybridVault.UniformBelow

/-!
# Unbiased draws

How many 64-bit words lead to each outcome of a draw.

* `Yields` — the position a word yields, by the loop of `uniform_below` as the machine
  runs it: exactly the words up to the zone yield one, and each position is yielded by
  equally many (`ncard_yields`).
* `FirstAccepted` — the word a draw comes to: the first of a block that the zone accepts,
  or, where it accepts none, that of the block after it.
* `Picks` — the index a word picks from a pool account.  Where the entries of the pool
  are distinct, which they are in every reachable state, each is picked by equally many
  words, whether its asset was ever minted or not (`Unbiased`).

The counts are those of rejection sampling in general, at `N = 2 ^ 64`.
-/

namespace HybridVault

open Foundations

/-- The loop over the words of a block, having come to the word `x`, returns `k`. -/
def Yields (z : UInt64) (n : UInt32) (x : UInt64) (k : UInt32) : Prop :=
  ∀ xs, Machine.scan z n.toUInt64 (x :: xs) = .ok (some k)

/-- **The first accepted word** of a block, or of the blocks it is resampled to. -/
inductive FirstAccepted (D : Deployment) (z : UInt64) : Bytes32 → UInt64 → Prop
  | here {block : Bytes32} {x : UInt64}
      (h : (Machine.chunks block).find? (fun x => decide (x ≤ z)) = some x) :
      FirstAccepted D z block x
  | resampled {block : Bytes32} {x : UInt64}
      (h : (Machine.chunks block).find? (fun x => decide (x ≤ z)) = none)
      (hx : FirstAccepted D z (resample D block) x) : FirstAccepted D z block x

/-- The word `x` picks the index `i` from the pool `p`. -/
def Picks (z : UInt64) (n : UInt32) (p : PoolView) (x : UInt64) (i : ℕ) : Prop :=
  ∃ k p', Yields z n x k ∧ p.poolSwapRemove k.toNat = .ok (i, p')

/-- **A draw from the pool is unbiased**: its entries are distinct, and each is picked by
the same number of words. -/
structure Unbiased (z : UInt64) (n : UInt32) (p : PoolView) : Prop where
  nodup : (drawableOf p.d).Nodup
  length : (drawableOf p.d).length = n.toNat
  picks : ∀ i ∈ drawableOf p.d, {x | Picks z n p x i}.ncard = (z.toNat + 1) / n.toNat

/-! ## Positions -/

variable {z : UInt64} {n : UInt32}

/-- The zone of `n`, as the machine computes it. -/
theorem exists_zone (hn : 0 < n) :
    ∃ z, Machine.zone n.toUInt64 = .ok z ∧
      z.toNat + 1 = Rejection.cutoff (2 ^ 64) n.toNat := by
  have hpos : 0 < n.toNat := hn
  have hlt := n.toNat_lt
  obtain ⟨z, hzone, hz⟩ := Machine.zone_spec hn
  refine ⟨z, hzone, ?_⟩
  rw [hz, Machine.zone_add_one hpos (by omega)]

/-- An accepted word yields its remainder. -/
theorem yields_of_le (hn : 0 < n) {x : UInt64} (h : x ≤ z) :
    ∃ k, Yields z n x k ∧ k.toNat = x.toNat % n.toNat := by
  obtain ⟨k, hk, hscan⟩ := Machine.scan_cons_of_le hn h
  exact ⟨k, hscan, hk⟩

/-- The loop over the words of a block returns what the first accepted one yields, if there
is one. -/
theorem scan_spec (hn : 0 < n) (z : UInt64) (xs : List UInt64) :
    (xs.find? (fun x => decide (x ≤ z)) = none ∧ Machine.scan z n.toUInt64 xs = .ok none) ∨
      ∃ x k, xs.find? (fun x => decide (x ≤ z)) = some x ∧ Yields z n x k ∧
        Machine.scan z n.toUInt64 xs = .ok (some k) := by
  induction xs with
  | nil => exact Or.inl ⟨rfl, rfl⟩
  | cons x xs ih =>
      by_cases hx : x ≤ z
      · obtain ⟨k, hk, -⟩ := yields_of_le hn hx
        exact Or.inr ⟨x, k, List.find?_cons_of_pos (by simpa using hx), hk, hk xs⟩
      · rw [Machine.scan_cons_of_lt (UInt64.not_le.mp hx),
          List.find?_cons_of_neg (by simpa using hx)]
        exact ih

theorem le_iff_lt_cutoff (hz : z.toNat + 1 = Rejection.cutoff (2 ^ 64) n.toNat) {x : UInt64} :
    x ≤ z ↔ x.toNat < Rejection.cutoff (2 ^ 64) n.toNat := by
  rw [← hz, UInt64.le_iff_toNat_le]
  omega

/-- The draws by words are uniform, as those by the numbers of 64 bits are. -/
theorem uniform_word (hz : z.toNat + 1 = Rejection.cutoff (2 ^ 64) n.toNat) :
    Rejection.Uniform (Rejection.draw (2 ^ 64) n.toNat ∘ UInt64.toNat) {k | k < n.toNat}
      ((z.toNat + 1) / n.toNat) := by
  rw [hz]
  refine (Rejection.uniform_draw (2 ^ 64) n.toNat).comp_injective ?_ ?_
  · intro x y hxy
    exact UInt64.toNat_inj.mp hxy
  · intro x k hk
    have hlt : x < 2 ^ 64 := (Rejection.draw_eq_some_iff.mp hk).1.trans_le Rejection.cutoff_le
    exact ⟨UInt64.ofNat x, UInt64.toNat_ofNat_of_lt' hlt⟩

section Positions

variable (hn : 0 < n) (hz : z.toNat + 1 = Rejection.cutoff (2 ^ 64) n.toNat)

include hn hz

/-- What a word yields is the draw by its number. -/
theorem yields_iff {x : UInt64} {k : UInt32} :
    Yields z n x k ↔ Rejection.draw (2 ^ 64) n.toNat x.toNat = some k.toNat := by
  rw [Rejection.draw_eq_some_iff, ← le_iff_lt_cutoff hz]
  constructor
  · intro h
    have hle : x ≤ z := by
      by_contra hgt
      have hnil := h []
      rw [Machine.scan_cons_of_lt (UInt64.not_le.mp hgt)] at hnil
      cases hnil
    obtain ⟨j, hj, hjv⟩ := yields_of_le hn hle
    have hkj : k = j := Option.some.inj (Except.ok.inj ((h []).symm.trans (hj [])))
    exact ⟨hle, by rw [hkj, hjv]⟩
  · rintro ⟨hle, hk⟩
    obtain ⟨j, hj, hjv⟩ := yields_of_le hn hle
    rwa [UInt32.toNat_inj.mp (hk.symm.trans hjv.symm)]

/-- The words below the zone are all accepted, and no others. -/
theorem exists_yields_iff {x : UInt64} : (∃ k, Yields z n x k) ↔ x ≤ z := by
  constructor
  · rintro ⟨k, hk⟩
    exact (le_iff_lt_cutoff hz).mpr (Rejection.draw_eq_some_iff.mp ((yields_iff hn hz).mp hk)).1
  · intro h
    obtain ⟨k, hk, -⟩ := yields_of_le hn h
    exact ⟨k, hk⟩

theorem Yields.lt {x : UInt64} {k : UInt32} (h : Yields z n x k) : k < n := by
  obtain ⟨-, hk⟩ := Rejection.draw_eq_some_iff.mp ((yields_iff hn hz).mp h)
  have hmod := Nat.mod_lt x.toNat (show 0 < n.toNat from hn)
  rwa [hk] at hmod

/-- **Each position is yielded by equally many words.** -/
theorem ncard_yields {k : UInt32} (hk : k < n) :
    {x | Yields z n x k}.ncard = (z.toNat + 1) / n.toNat := by
  rw [← uniform_word hz k.toNat hk]
  congr 1
  ext x
  exact yields_iff hn hz

end Positions

/-! ## The machine's draw -/

theorem uniformLoop_spec (hn : 0 < n) (D : Deployment) (rounds : ℕ) (block : Bytes32) :
    Avoids .panic (Machine.uniformLoop D z n.toUInt64 rounds block) ∧
      ∀ k, Machine.uniformLoop D z n.toUInt64 rounds block = .ok k →
        ∃ x, FirstAccepted D z block x ∧ Yields z n x k := by
  induction rounds generalizing block with
  | zero => simp [Machine.uniformLoop]
  | succ rounds ih =>
      rcases scan_spec hn z (Machine.chunks block) with ⟨hnone, hscan⟩ | ⟨x, k, hfirst, hx, hscan⟩
      · rw [Machine.uniformLoop, hscan, ok_bind]
        obtain ⟨havoids, hreturns⟩ := ih (resample D block)
        refine ⟨havoids, ?_⟩
        intro k hk
        obtain ⟨x, hfirst, hx⟩ := hreturns k hk
        exact ⟨x, .resampled hnone hfirst, hx⟩
      · rw [Machine.uniformLoop, hscan, ok_bind]
        refine ⟨avoids_pure, ?_⟩
        intro j hj
        obtain rfl := pure_eq_ok_iff.mp hj
        exact ⟨x, .here hfirst, hx⟩

/-- The machine does not panic, and returns what the first accepted word yields. -/
theorem uniformBelow_spec (hn : 0 < n) (hzone : Machine.zone n.toUInt64 = .ok z) (D : Deployment)
    (r : Bytes32) :
    Avoids .panic (Machine.uniformBelow D r n) ∧
      ∀ k, Machine.uniformBelow D r n = .ok k → ∃ x, FirstAccepted D z r x ∧ Yields z n x k := by
  rw [Machine.uniformBelow_eq hn hzone]
  exact uniformLoop_spec hn D D.selectionRounds r

/-! ## Pools -/

section Pools

variable {D : Deployment} {cap : ℕ} {d : Bytes}

/-- What a word picks is the entry at the position its number draws. -/
theorem WellFormed.picks_iff (h : WellFormed D.vaultKey cap d) (hn : 0 < n)
    (hz : z.toNat + 1 = Rejection.cutoff (2 ^ 64) n.toNat)
    (hlen : (drawableOf d).length = n.toNat) {x : UInt64} {i : ℕ} :
    Picks z n ⟨d, cap⟩ x i ↔
      (Rejection.draw (2 ^ 64) n.toNat x.toNat).bind ((drawableOf d)[·]?) = some i := by
  constructor
  · rintro ⟨k, p', hk, hremove⟩
    have hlt : k.toNat < (drawableOf d).length := hlen.symm ▸ hk.lt hn hz
    obtain ⟨d', hremove', -⟩ := h.poolSwapRemove_spec hlt
    obtain ⟨rfl, -⟩ := Prod.mk.inj (Except.ok.inj (hremove.symm.trans hremove'))
    rw [(yields_iff hn hz).mp hk, Option.bind_some, List.getElem?_eq_getElem hlt]
  · intro hpick
    obtain ⟨k, hdraw, hget⟩ := Option.bind_eq_some_iff.mp hpick
    obtain ⟨hlt, rfl⟩ := List.getElem?_eq_some_iff.mp hget
    have hfits : (drawableOf d).length < 2 ^ 32 := hlen.symm ▸ n.toNat_lt
    have hk : (UInt32.ofNat k).toNat = k := UInt32.toNat_ofNat_of_lt' (hlt.trans hfits)
    obtain ⟨d', hremove, -⟩ := h.poolSwapRemove_spec hlt
    exact ⟨UInt32.ofNat k, ⟨d', cap⟩, (yields_iff hn hz).mpr (by rw [hk, hdraw]),
      by rw [hk]; exact hremove⟩

/-- **A draw from distinct entries is unbiased.** -/
theorem WellFormed.unbiased (h : WellFormed D.vaultKey cap d) (hn : 0 < n)
    (hz : z.toNat + 1 = Rejection.cutoff (2 ^ 64) n.toNat) (hnodup : (drawableOf d).Nodup)
    (hlen : (drawableOf d).length = n.toNat) : Unbiased z n ⟨d, cap⟩ where
  nodup := hnodup
  length := hlen
  picks := by
    intro i hi
    have huniform := uniform_word hz
    rw [← hlen] at huniform
    rw [← hlen, ← huniform.lookup hnodup i hi]
    congr 1
    ext x
    exact (h.picks_iff hn hz hlen).trans (by rw [← hlen]; rfl)

/-- The indices in a reachable pool and its ring are distinct. -/
theorem Tracks.entries_nodup {w : World} {x : SequencedPool.State ℕ} (h : Tracks D w x) :
    (drawableOf w.pool ++ (incomingOf D.size w.pool).map Prod.fst).Nodup := by
  rw [h.drawable, h.incoming]
  have hplaces := h.invariant.places_nodup List.nodup_range
  rw [SequencedPool.State.places, List.append_assoc] at hplaces
  exact hplaces.of_append_left

/-- However much of its ring is merged first, a reachable pool is drawn from without
bias. -/
theorem Tracks.unbiased {w : World} {x : SequencedPool.State ℕ} (h : Tracks D w x) (hn : 0 < n)
    (hz : z.toNat + 1 = Rejection.cutoff (2 ^ 64) n.toNat) {t m moved : ℕ} {p : PoolView}
    (hmerge : PoolView.merge ⟨w.pool, D.size⟩ t m = .ok (moved, p))
    (hlen : p.poolLen = .ok n.toNat) : Unbiased z n p := by
  obtain ⟨k, d, hmerge', hwf, -, habs⟩ := h.pool.merge_spec t m
  obtain ⟨-, rfl⟩ := Prod.mk.inj (Except.ok.inj (hmerge.symm.trans hmerge'))
  have hdrawable : drawableOf d
      = drawableOf w.pool ++ ((incomingOf D.size w.pool).take k).map Prod.fst :=
    congrArg PoolAbs.drawable habs
  have hlength := Except.ok.inj (hwf.poolLen_eq.symm.trans hlen)
  refine hwf.unbiased hn hz ?_ (by rw [length_drawableOf, hlength])
  have hsub := ((List.take_sublist k (incomingOf D.size w.pool)).map Prod.fst).append_left
    (drawableOf w.pool)
  rw [hdrawable]
  exact h.entries_nodup.sublist hsub

/-- What a selection returns, the first accepted word of the request's randomness picks from
the pool it merged. -/
theorem Tracks.selectAsset_picks {w : World} {x : SequencedPool.State ℕ} (h : Tracks D w x)
    (hn : 0 < n) (hzone : Machine.zone n.toUInt64 = .ok z) {req : Request} {candidates : List ℕ}
    {picked : ℕ} {p' : PoolView}
    (hsel : selectAsset D ⟨w.pool, D.size⟩ req = .ok (candidates, picked, p'))
    (hlen : candidates.length = n.toNat) :
    ∃ moved p, PoolView.merge ⟨w.pool, D.size⟩ req.seq maxMergePerIx = .ok (moved, p) ∧
      p.poolLen = .ok n.toNat ∧ ∃ y,
        FirstAccepted D z (requestRandomness D req.value req.seq) y ∧ Picks z n p y picked := by
  simp only [selectAsset, bind_eq_ok_iff, require_eq_ok_iff, pure_eq_ok_iff, Prod.mk.injEq] at hsel
  obtain ⟨⟨moved, p⟩, hmerge, -, -, len, hpool, -, -, pos, hpos, ⟨_, after⟩, hremove, _, -, rfl,
    rfl, -⟩ := hsel
  obtain ⟨k, d, hmerge', hwf, -⟩ := h.pool.merge_spec req.seq maxMergePerIx
  obtain ⟨-, rfl⟩ := Prod.mk.inj (Except.ok.inj (hmerge.symm.trans hmerge'))
  obtain rfl : readLE d 44 4 = len := Except.ok.inj (hwf.poolLen_eq.symm.trans hpool)
  rw [length_drawableOf] at hlen
  rw [hlen] at hpool hpos
  refine ⟨moved, ⟨d, D.size⟩, hmerge, hpool, ?_⟩
  have hmachine := Machine.uniformBelow_refines D (requestRandomness D req.value req.seq) n
  rw [hpos] at hmachine
  obtain ⟨j, hj, rfl⟩ := hmachine.exists_ok
  obtain ⟨y, hfirst, hy⟩ := (uniformBelow_spec hn hzone D _).2 j hj
  exact ⟨y, hfirst, j, after, hy, hremove⟩

end Pools

/-- A settle selects what its event says. -/
theorem Effect.exists_selectAsset {D : Deployment} {w w' : World} {seq : ℕ} {value : Bytes32}
    {candidates : List ℕ} {picked : ℕ}
    (h : Effect D w (.pool (.settled seq value candidates picked)) w') :
    ∃ r, r.seq = seq ∧ ∃ d,
      selectAsset D ⟨w.pool, D.size⟩ r = .ok (candidates, picked, ⟨d, D.size⟩) := by
  generalize hact : Act.pool (.settled seq value candidates picked) = act at h
  cases h with
  | settled heff =>
      simp only [Act.pool.injEq, SequencedPool.Event.settled.injEq] at hact
      obtain ⟨rfl, -, rfl, rfl⟩ := hact
      exact ⟨_, rfl, _, heff.selected⟩
  | _ => simp at hact

/-- **Selection is exactly unbiased.**  For every number `n` of entries the machine
computes the zone without a panic, one more than it is the largest multiple of `n` up to
`2 ^ 64`, a word is accepted exactly if it does not exceed the zone, and each position
is yielded by equally many words; so the machine's draw does not panic, and what it
returns is the position below `n` that the first accepted word of the block yields, or of
the blocks it is resampled to.  In every reachable state, whatever is merged first, the
entries of a pool of `n` are distinct and each is picked by equally many words; and what a
settle draws from `n` entries is what the first accepted word of its randomness picks. -/
theorem unbiased_selection (n : UInt32) (hn : 0 < n) :
    ∃ z, Machine.zone n.toUInt64 = .ok z ∧
      IsGreatest {m | n.toNat ∣ m ∧ m ≤ 2 ^ 64} (z.toNat + 1) ∧
      (∀ x, (∃ k, Yields z n x k) ↔ x ≤ z) ∧
      (∀ k < n, {x | Yields z n x k}.ncard = (z.toNat + 1) / n.toNat) ∧
      (∀ D r, Avoids .panic (Machine.uniformBelow D r n) ∧
        ∀ k, Machine.uniformBelow D r n = .ok k →
          k < n ∧ ∃ x, FirstAccepted D z r x ∧ Yields z n x k) ∧
      ∀ D ls w, History D ls w →
        (∀ t m moved p, PoolView.merge ⟨w.pool, D.size⟩ t m = .ok (moved, p) →
          p.poolLen = .ok n.toNat → Unbiased z n p) ∧
        ∀ req candidates picked p',
          selectAsset D ⟨w.pool, D.size⟩ req = .ok (candidates, picked, p') →
          candidates.length = n.toNat →
          ∃ moved p, PoolView.merge ⟨w.pool, D.size⟩ req.seq maxMergePerIx = .ok (moved, p) ∧
            p.poolLen = .ok n.toNat ∧ ∃ x,
              FirstAccepted D z (requestRandomness D req.value req.seq) x ∧
              Picks z n p x picked := by
  obtain ⟨z, hzone, hz⟩ := exists_zone hn
  refine ⟨z, hzone, hz ▸ Rejection.isGreatest_cutoff, ?_, ?_, ?_, ?_⟩
  · intro x
    exact exists_yields_iff hn hz
  · intro k hk
    exact ncard_yields hn hz hk
  · intro D r
    obtain ⟨havoids, hyields⟩ := uniformBelow_spec hn hzone D r
    refine ⟨havoids, ?_⟩
    intro k hk
    obtain ⟨x, hfirst, hx⟩ := hyields k hk
    exact ⟨hx.lt hn hz, x, hfirst, hx⟩
  · intro D ls w h
    obtain ⟨x, -, hx⟩ := h.tracks
    refine ⟨?_, ?_⟩
    · intro t m moved p hmerge hlen
      exact hx.unbiased hn hz hmerge hlen
    · intro req candidates picked p' hsel hlen
      exact hx.selectAsset_picks hn hzone hsel hlen

/-- The settle of the revealed capture picks 26 of the 100 indices of its pool, each of
which equally many words pick. -/
theorem unbiased_selection_small :
    ∃ z ls w moved p x, Machine.zone 100 = .ok z ∧ History smallVault ls w ∧
      PoolView.merge ⟨w.pool, smallVault.size⟩ 0 maxMergePerIx = .ok (moved, p) ∧
      Unbiased z 100 p ∧ Picks z 100 p x 26 := by
  obtain ⟨z, hzone, -, -, -, -, hpools⟩ := unbiased_selection 100 (by decide)
  obtain ⟨ls₀, w₀, w₁, w₂, w₃, h, hcapture, -, -, ⟨es, hreveal⟩, -, hsettle, -⟩ :=
    exists_smallStory
  have hreached := (h.snoc (.instruction hcapture)).snoc (.instruction hreveal)
  obtain ⟨x, -, hx⟩ := hreached.tracks
  obtain ⟨r, hseq, d, hselected⟩ :=
    (hx.effects_of_step (.instruction hsettle)).step_of_single.exists_selectAsset
  obtain ⟨hunbiased, hpicks⟩ := hpools smallVault _ w₂ hreached
  obtain ⟨moved, p, hmerge, hlen, y, -, hy⟩ := hpicks _ _ _ _ hselected (by simp)
  rw [hseq] at hmerge
  exact ⟨z, _, w₂, moved, p, y, hzone, hreached, hmerge, hunbiased _ _ _ _ hmerge hlen, hy⟩

end HybridVault
