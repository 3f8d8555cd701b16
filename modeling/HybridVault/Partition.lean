import HybridVault.Reachability
import Mathlib.Data.List.Nodup

/-!
# The index partition

Every index of the collection is in exactly one place: a pool slot, the ring, a pending
re-roll, or with a user.  The on-chain check compares lengths only; this is the law
about identities, from which the lengths follow.

It is the balance invariant of the sequenced pool, read through the refinement: the
pending requests are the tickets, so their hand-ins are the items the tickets carry,
and what is out is a fold over the events of the run.
-/

namespace HybridVault

open Foundations

variable {D : Deployment} {w : World} {x : SequencedPool.State ℕ} {ls : List Label}

/-- The requests at the addresses between the head of the queue and the next
request. -/
def pendingRequests (D : Deployment) (w : World) : List Request :=
  (List.range' w.vault.nextSettleSeq (w.vault.nextSeq - w.vault.nextSettleSeq)).filterMap
    fun seq => w.requests (D.requestAddress seq)

/-- The `handed_in_index` fields of the pending re-rolls. -/
def pendingHandIns (D : Deployment) (w : World) : List ℕ :=
  (pendingRequests D w).filterMap Request.handIn

/-- The indices released to users: delivered or minted by a settle, or given back by an
expired re-roll, and not since returned or handed in. -/
def releasedIndices (es : List PoolEvent) : List ℕ := es.foldl SequencedPool.outsideAfter []

/-- The pending requests carry what the tickets carry. -/
theorem Tracks.map_handIn_pendingRequests (h : Tracks D w x) :
    (pendingRequests D w).map Request.handIn = x.queue := by
  have hlen : w.vault.nextSeq - w.vault.nextSettleSeq = x.queue.length := by
    rw [h.next, h.head, SequencedPool.State.next]
    omega
  rw [pendingRequests, hlen, h.head]
  -- ticket by ticket: each address holds the request of its ticket
  have key : ∀ n ≤ x.queue.length, (((List.range' x.head n).filterMap
      fun seq => w.requests (D.requestAddress seq)).map Request.handIn) = x.queue.take n := by
    intro n
    induction n with
    | zero => simp
    | succ n ih =>
        intro hn
        obtain ⟨r, hr, -, hticket⟩ := h.tickets.record (x.head + n) (Nat.le_add_right _ _) (by
          simp only [SequencedPool.State.next]
          omega)
        rw [Nat.add_sub_cancel_left] at hticket
        rw [List.range'_1_concat, List.filterMap_append, List.map_append, ih (by omega),
          List.take_add_one, hticket]
        simp [hr]
  rw [key _ le_rfl, List.take_length]

theorem Tracks.pendingHandIns_eq (h : Tracks D w x) :
    pendingHandIns D w = x.queue.reduceOption := by
  rw [pendingHandIns, ← h.map_handIn_pendingRequests, List.reduceOption, List.filterMap_map]
  rfl

theorem Tracks.mem_pendingRequests (h : Tracks D w x) {k : Pubkey} {r : Request}
    (hr : w.requests k = some r) (hvault : r.vault = D.vault) : r ∈ pendingRequests D w := by
  obtain ⟨-, -, hk, hge, hlt⟩ := h.tickets.own k r hr (Or.inl hvault)
  rw [pendingRequests, List.mem_filterMap]
  refine ⟨r.seq, ?_, hk ▸ hr⟩
  rw [List.mem_range'_1, h.head, h.next]
  omega

/-- What is out is what the events released. -/
theorem outside_eq_releasedIndices
    (h : Run (PoolStep D) (SequencedPool.State.initial (List.range D.size)) (poolEvents ls) x) :
    x.outside = releasedIndices (poolEvents ls) :=
  SequencedPool.outside_of_run h

/-- **The index partition.**  In every reachable state, every index of the collection
occurs exactly once in the disjoint union of the pool slots, the ring entries, the
hand-ins of the pending re-rolls and the indices released to users; the last two parts
have as many elements as the vault counts; and what is in the first three and exists
is owned by the vault.  Every request of the vault is among the pending ones. -/
theorem index_partition (h : History D ls w) :
    (drawableOf w.pool ++ (incomingOf D.size w.pool).map Prod.fst ++ pendingHandIns D w
        ++ releasedIndices (poolEvents ls)).Perm (List.range D.size) ∧
      (pendingHandIns D w).length = w.vault.pendingRerolls ∧
      (releasedIndices (poolEvents ls)).length = w.vault.assetsOutside ∧
      (∀ i ∈ drawableOf w.pool ++ (incomingOf D.size w.pool).map Prod.fst ++ pendingHandIns D w,
        w.assets (D.assetAddress i) = .absent ∨
          ∃ a, w.assets (D.assetAddress i) = .live a ∧ a.owner = D.vaultAuthority) ∧
      ∀ k r, w.requests k = some r → r.vault = D.vault → r ∈ pendingRequests D w := by
  obtain ⟨x, hrun, htracks⟩ := h.tracks
  have hout := outside_eq_releasedIndices hrun
  have hhand := htracks.pendingHandIns_eq
  rw [← hout, hhand, htracks.drawable, htracks.incoming]
  have hbalanced : (x.drawable ++ x.incoming.map Prod.fst ++ x.queue.reduceOption
      ++ x.outside).Perm (List.range D.size) := htracks.invariant.balanced
  refine ⟨hbalanced, htracks.rerolls.symm, htracks.outside.symm, ?_,
    fun k r hr hvault => htracks.mem_pendingRequests hr hvault⟩
  intro i hi
  have hlt : i < D.size :=
    List.mem_range.mp (hbalanced.mem_iff.mp (List.mem_append_left _ hi))
  have hin : i ∉ x.outside :=
    List.disjoint_of_nodup_append (htracks.invariant.places_nodup List.nodup_range) hi
  by_cases hbit : mintedOf D.size w.pool i = true
  · exact Or.inr (htracks.custody.held i hlt hin hbit)
  · left
    by_contra habsent
    exact hbit ((htracks.custody.minted_iff i hlt).mpr habsent)

/-! ### A busy run

Two users of the small vault draw three assets, which are all minted; one is released, and
one handed in for another.  Then the third is released too, and a capture waits behind the
re-roll. -/

/-- The randomness account of request `seq`. -/
def busyRandomness (seq : ℕ) : Pubkey := .raw (Bytes32.fill (UInt8.ofNat (60 + seq)))

/-- The value revealed for request `seq`. -/
def busyValue (seq : ℕ) : Bytes32 := Bytes32.fill ([9, 71, 41, 193, 112].getD seq 0)

def busyLeaf (i : ℕ) : Bytes32 := leafOf smallVault (Bytes32.fill 50) i smallLeaf

/-- The paths of three leaves in a tree with no others. -/
def busyProof : ℕ → List Bytes32
  | 24 => Bytes32.zero :: nodeHash smallVault (busyLeaf 26) (busyLeaf 27)
      :: List.replicate 5 Bytes32.zero
  | 26 => busyLeaf 27 :: nodeHash smallVault (busyLeaf 24) Bytes32.zero
      :: List.replicate 5 Bytes32.zero
  | 27 => busyLeaf 26 :: nodeHash smallVault (busyLeaf 24) Bytes32.zero
      :: List.replicate 5 Bytes32.zero
  | _ => []

def busyRoot : Bytes32 := PairTree.climb (nodeHash smallVault) (busyProof 26) 26 (busyLeaf 26)

def busyCapture (seq : ℕ) (user userToken : Pubkey) : Instruction :=
  .requestCapture user userToken (busyRandomness seq) smallQueue (.raw (Bytes32.fill 22))
    [.raw (Bytes32.fill 21)]

def busyReroll (seq : ℕ) (user : Pubkey) (index : ℕ) : Instruction :=
  .requestReroll user (busyRandomness seq) smallQueue (.raw (Bytes32.fill 22)) index
    [.raw (Bytes32.fill 21)]

def busyReveal (seq : ℕ) : Instruction :=
  .revealRandomness (smallVault.requestAddress seq) (busyRandomness seq) (busyValue seq)

/-- Settle a capture with an asset that does not exist yet. -/
def busyMint (seq index : ℕ) (user : Pubkey) : Instruction :=
  .settleCapture smallUser (smallVault.requestAddress seq) (busyRandomness seq)
    (smallVault.assetAddress index) user (some { leaf := smallLeaf, proof := busyProof index })

/-- Three captures are settled, one asset is released, and one handed in. -/
def busyOpening : List Instruction :=
  .openVault smallUser (.raw smallLaunch.dbcPool) ::
    (List.range 5).map (fun seq => .initRandomness (busyRandomness seq)) ++ [
    busyCapture 0 smallUser smallUserToken, busyReveal 0, busyMint 0 26 smallUser,
    busyCapture 1 otherUser otherUserToken, busyReveal 1, busyMint 1 27 otherUser,
    busyCapture 2 smallUser smallUserToken, busyReveal 2, busyMint 2 24 smallUser,
    .unwrap smallUser smallUserToken 26, busyReroll 3 otherUser 27]

/-- Settle the re-roll with the asset that was released. -/
def busySettleReroll : Instruction :=
  .settleReroll smallUser (smallVault.requestAddress 3) (busyRandomness 3)
    (smallVault.assetAddress 26) otherUser none

/-- Settle the last capture with the asset that was handed in. -/
def busySettleCapture : Instruction :=
  .settleCapture smallUser (smallVault.requestAddress 4) (busyRandomness 4)
    (smallVault.assetAddress 27) smallUser none

/-- The pool after three draws. -/
def busyEntries : List ℕ := List.range 24 ++ [97, 25, 99, 98] ++ List.range' 28 69

/-- The last two draws. -/
def busyDraws : List PoolEvent := [
  .settled 3 (busyValue 3) (busyEntries ++ [26]) 26,
  .settled 4 (busyValue 4) (busyEntries ++ [27, 24]) 27]

/-- The same draws among merges and a release. -/
def busyDrawsAmongMerges : List PoolEvent := [
  .merged 1, .settled 3 (busyValue 3) (busyEntries ++ [26]) 26, .merged 1, .returned 26,
  .settled 4 (busyValue 4) (busyEntries ++ [27, 24]) 27]

set_option maxRecDepth 20000 in
theorem busyRun_returns :
    returns (smallRun busyRoot busyOpening) (fun r₀ =>
      decide (drawableOf r₀.1.pool = busyEntries) &&
      decide (incomingOf smallVault.size r₀.1.pool = [(26, 3)]) &&
      decide (pendingHandIns smallVault r₀.1 = [27]) &&
      decide (releasedIndices (poolEvents r₀.2) = [24]) &&
      returns (performAll smallVault r₀.1 [.unwrap smallUser smallUserToken 24]) fun r₁ =>
        returns (perform smallVault r₁.1 (busyCapture 4 smallUser smallUserToken)) fun r₂ =>
          decide (r₂.2 = [.requested 4 none]) && decide (r₂.1.vault.nextSettleSeq = 3) &&
          returns (performAll smallVault r₂.1
            [busyReveal 3, busyReveal 4, busySettleReroll, busySettleCapture])
            (fun r₃ => decide (poolEvents r₃.2 = busyDraws)) &&
          returns (performAll smallVault r₂.1
            [busyReveal 4, .mergeIncoming 5, busyReveal 3, busySettleReroll, .mergeIncoming 1,
              .unwrap otherUser otherUserToken 26, busySettleCapture])
            (fun r₃ => decide (poolEvents r₃.2 = busyDrawsAmongMerges)))
      = true := by
  decide +kernel

/-- The worlds of `busyRun_returns`. -/
theorem exists_busyRun :
    ∃ ls₀ w₀ ls₁ w₁ w ls₂ w₂ ls₃ w₃, History smallVault ls₀ w₀ ∧
      (drawableOf w₀.pool = busyEntries ∧ incomingOf smallVault.size w₀.pool = [(26, 3)] ∧
        pendingHandIns smallVault w₀ = [27] ∧ releasedIndices (poolEvents ls₀) = [24]) ∧
      History smallVault ls₁ w₁ ∧
      Step smallVault w₁ (.instruction (busyCapture 4 smallUser smallUserToken) [.requested 4 none])
        w ∧
      w.vault.nextSettleSeq = 3 ∧
      (Run (Step smallVault) w ls₂ w₂ ∧ poolEvents ls₂ = busyDraws) ∧
      Run (Step smallVault) w ls₃ w₃ ∧ poolEvents ls₃ = busyDrawsAmongMerges := by
  obtain ⟨⟨w₀, ls₀⟩, hopening, h⟩ := exists_of_returns busyRun_returns
  simp only [Bool.and_eq_true, decide_eq_true_eq] at h
  obtain ⟨⟨⟨⟨hpool, hring⟩, hhanded⟩, hreleased⟩, h⟩ := h
  obtain ⟨⟨w₁, ls⟩, hunwrap, h⟩ := exists_of_returns h
  obtain ⟨⟨w, es⟩, hcapture, h⟩ := exists_of_returns h
  simp only [Bool.and_eq_true, decide_eq_true_eq] at h
  obtain ⟨⟨⟨rfl, hhead⟩, hdraws⟩, hmerges⟩ := h
  obtain ⟨⟨w₂, ls₂⟩, hdraws, h₂⟩ := exists_of_returns hdraws
  obtain ⟨⟨w₃, ls₃⟩, hmerges, h₃⟩ := exists_of_returns hmerges
  have h₀ := smallRun_history hopening
  exact ⟨ls₀, w₀, _, w₁, w, ls₂, w₂, ls₃, w₃, h₀, ⟨hpool, hring, hhanded, hreleased⟩,
    h₀.run (performAll_eq_ok hunwrap), .instruction hcapture, hhead,
    ⟨performAll_eq_ok hdraws, by simpa using h₂⟩, performAll_eq_ok hmerges, by simpa using h₃⟩

/-- The partition in the middle of a busy run, with no part empty. -/
theorem index_partition_small :
    ∃ ls w, History smallVault ls w ∧ incomingOf smallVault.size w.pool = [(26, 3)] ∧
      pendingHandIns smallVault w = [27] ∧ releasedIndices (poolEvents ls) = [24] ∧
      (drawableOf w.pool ++ [26] ++ [27] ++ [24]).Perm (List.range smallVault.size) := by
  obtain ⟨ls, w, -, -, -, -, -, -, -, h, ⟨-, hring, hhanded, hreleased⟩, -⟩ := exists_busyRun
  have hpartition := (index_partition h).1
  rw [hring, hhanded, hreleased] at hpartition
  exact ⟨ls, w, h, hring, hhanded, hreleased, hpartition⟩

end HybridVault
