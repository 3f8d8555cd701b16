import HybridVault.Deployment

/-!
# Selection

The position a draw takes: a hash of the revealed value, the vault and the
sequence number, reduced to `[0, n)` by rejection sampling on 64-bit words.  A
block of four rejected words is hashed again.

Nothing bounds the number of blocks in the source but the transaction's compute
budget.  Here `selectionRounds` of the deployment stands for it: a selection that
would hash more blocks fails with `outOfCompute`, and `AcceptsWithin` says that one does
not.
-/

namespace HybridVault

open Foundations

/-- `b"hybrid_vault:select"`. -/
def selectDomain : Bytes :=
  [104, 121, 98, 114, 105, 100, 95, 118, 97, 117, 108, 116, 58, 115, 101, 108, 101, 99, 116]

/-- `b"hybrid_vault:resample"`. -/
def resampleDomain : Bytes :=
  [104, 121, 98, 114, 105, 100, 95, 118, 97, 117, 108, 116, 58, 114, 101, 115, 97, 109, 112, 108,
    101]

/-- Domain-separated per-request randomness. -/
def requestRandomness (D : Deployment) (value : Bytes32) (seq : ℕ) : Bytes32 :=
  D.sha256 (selectDomain ++ value.bytes ++ D.vaultKey.bytes ++ leBytes 8 seq)

/-- The largest accepted word. -/
def zone (n : ℕ) : ℕ := (2 ^ 64 - 1) - ((2 ^ 64 - 1) % n + 1) % n

/-- The four 64-bit words of a block. -/
def blockWords (block : Bytes32) : List ℕ := [0, 8, 16, 24].map fun o => readLE block.bytes o 8

/-- The block after a block of rejected words. -/
def resample (D : Deployment) (block : Bytes32) : Bytes32 :=
  D.sha256 (resampleDomain ++ block.bytes)

/-- The loop of `uniform_below`, on the blocks the compute budget still allows. -/
def uniformLoop (D : Deployment) (n : ℕ) : ℕ → Bytes32 → Res ℕ
  | 0, _ => .error .outOfCompute
  | rounds + 1, block =>
      match (blockWords block).find? (· ≤ zone n) with
      | some x => return x % n
      | none => uniformLoop D n rounds (resample D block)

/-- Uniform position in `[0, n)`. -/
def uniformBelow (D : Deployment) (r : Bytes32) (n : ℕ) : Res ℕ := do
  require (0 < n) .panic
  uniformLoop D n D.selectionRounds r

/-- Some word of the first `rounds` blocks from `block` is accepted for `n`. -/
def AcceptsWithin (D : Deployment) (n : ℕ) : ℕ → Bytes32 → Prop
  | 0, _ => False
  | rounds + 1, block =>
      (∃ x ∈ blockWords block, x ≤ zone n) ∨ AcceptsWithin D n rounds (resample D block)

/-- The compute budget suffices for the selection from `r` among any number of
entries up to `bound`. -/
def SelectionEnds (D : Deployment) (r : Bytes32) (bound : ℕ) : Prop :=
  ∀ n, 0 < n → n ≤ bound → AcceptsWithin D n D.selectionRounds r

variable {D : Deployment} {n : ℕ}

theorem uniformLoop_lt (hn : 0 < n) {rounds : ℕ} {block : Bytes32} {k : ℕ}
    (h : uniformLoop D n rounds block = .ok k) : k < n := by
  induction rounds generalizing block with
  | zero => simp [uniformLoop] at h
  | succ rounds ih =>
      rw [uniformLoop] at h
      split at h
      · obtain rfl := pure_eq_ok_iff.mp h
        exact Nat.mod_lt _ hn
      · exact ih h

/-- The position is one of the `n`. -/
theorem uniformBelow_lt {r : Bytes32} {k : ℕ} (h : uniformBelow D r n = .ok k) : k < n := by
  simp only [uniformBelow, bind_eq_ok_iff, require_eq_ok_iff] at h
  obtain ⟨-, hn, h⟩ := h
  exact uniformLoop_lt hn h

theorem uniformLoop_ok {rounds : ℕ} {block : Bytes32} (h : AcceptsWithin D n rounds block) :
    ∃ k, uniformLoop D n rounds block = .ok k := by
  induction rounds generalizing block with
  | zero => exact h.elim
  | succ rounds ih =>
      rw [uniformLoop]
      cases hfind : (blockWords block).find? (· ≤ zone n) with
      | some x => exact ⟨x % n, rfl⟩
      | none =>
          refine ih (h.resolve_left ?_)
          rintro ⟨x, hx, hle⟩
          simpa [hle] using List.find?_eq_none.mp hfind x hx

theorem uniformBelow_ok {r : Bytes32} {bound : ℕ} (hends : SelectionEnds D r bound) (hn : 0 < n)
    (hle : n ≤ bound) : ∃ k, uniformBelow D r n = .ok k ∧ k < n := by
  obtain ⟨k, hk⟩ := uniformLoop_ok (hends n hn hle)
  refine ⟨k, ?_, uniformLoop_lt hn hk⟩
  simp only [uniformBelow, bind_eq_ok_iff, require_eq_ok_iff]
  exact ⟨(), hn, hk⟩

/-- A first word that far from the top is accepted whatever the number of
entries. -/
theorem selectionEnds_of_first_word {r : Bytes32} {bound : ℕ} (hrounds : 0 < D.selectionRounds)
    (hword : readLE r.bytes 0 8 + bound < 2 ^ 64) : SelectionEnds D r bound := by
  intro n hn hle
  obtain ⟨m, hm⟩ : ∃ m, D.selectionRounds = m + 1 := ⟨D.selectionRounds - 1, by omega⟩
  rw [hm]
  refine Or.inl ⟨readLE r.bytes 0 8, by simp [blockWords], ?_⟩
  have := Nat.mod_lt ((2 ^ 64 - 1) % n + 1) hn
  rw [zone]
  omega

/-- The position the draw of request `seq` takes among `n` candidates, given its
revealed value. -/
def pickPosition (D : Deployment) (seq : ℕ) (value : Bytes32) (n : ℕ) : ℕ :=
  match uniformBelow D (requestRandomness D value seq) n with
  | .ok k => k
  | .error _ => 0

theorem pickPosition_of_ok {seq : ℕ} {value : Bytes32} {k : ℕ}
    (h : uniformBelow D (requestRandomness D value seq) n = .ok k) :
    pickPosition D seq value n = k := by
  rw [pickPosition, h]

end HybridVault
