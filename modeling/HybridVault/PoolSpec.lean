import HybridVault.Foundations.Containers
import HybridVault.Pool

/-!
# What the pool account means

A well-formed buffer denotes a list of drawable indices, a FIFO list of
returning indices with their tags, and a set of minted indices
(`PoolAbs`).  Each operation of `PoolView` then has one specification lemma,
which says that it succeeds, what it does to the denotation, and that the
buffer stays well formed; every caller uses these and never the bytes.

The two encodings that make this more than bookkeeping are the lazy slots
(`entryAt`: `0` means the slot's own position, so that a zeroed buffer denotes
`[0, 1, …]`) and the wrapping ring (`ringCell`, read through `ringList`).  All
regions share one buffer; that writes to one are invisible to the others is
linear arithmetic on offsets (`readLE_writeLE_of_disjoint`).
-/

namespace HybridVault

open Foundations

/-- The largest capacity: `hybrid_launch::MAX_COLLECTION_SIZE`. -/
def maxCapacity : ℕ := 10000

/-! ## The denotation of a buffer -/

/-- The index slot `i` holds. -/
def entryAt (d : Bytes) (i : ℕ) : ℕ :=
  if readLE d (poolHeader + 4 * i) 4 = 0 then i else readLE d (poolHeader + 4 * i) 4 - 1

/-- The ring cell `k`. -/
def ringCell (cap : ℕ) (d : Bytes) (k : ℕ) : ℕ × ℕ :=
  (readLE d (poolHeader + 4 * cap + incomingEntry * k) 4,
    readLE d (poolHeader + 4 * cap + incomingEntry * k + 4) 8)

/-- `pool_get(0..pool_len)`. -/
def drawableOf (d : Bytes) : List ℕ := (List.range (readLE d 44 4)).map (entryAt d)

/-- The ring entries, oldest first. -/
def incomingOf (cap : ℕ) (d : Bytes) : List (ℕ × ℕ) :=
  ringList (ringCell cap d) cap (readLE d 48 4) (readLE d 52 4)

/-- Whether the minted bit of `i` is set. -/
def mintedOf (cap : ℕ) (d : Bytes) (i : ℕ) : Bool :=
  decide (i < cap) && (readLE d (poolHeader + 16 * cap + i / 8) 1).testBit (i % 8)

/-- What a pool account denotes. -/
structure PoolAbs where
  drawable : List ℕ
  incoming : List (ℕ × ℕ)
  minted : ℕ → Bool

/-- The denotation of a buffer. -/
def poolAbs (cap : ℕ) (d : Bytes) : PoolAbs where
  drawable := drawableOf d
  incoming := incomingOf cap d
  minted := mintedOf cap d

/-- The header of a pool account of this vault. -/
structure Layout (vault : Bytes32) (cap : ℕ) (d : Bytes) : Prop where
  size : d.length = poolAccountSize cap
  discriminator : slice d 0 8 = poolDiscriminator
  owner : slice d 8 32 = vault.bytes
  capacity : readLE d 40 4 = cap
  cap_pos : 0 < cap
  cap_le : cap ≤ maxCapacity
  head_lt : readLE d 48 4 < cap

/-- A denotation that fits `cap` indices. -/
structure PoolAbs.Valid (cap : ℕ) (P : PoolAbs) : Prop where
  room : P.drawable.length + P.incoming.length ≤ cap
  drawable_lt : ∀ i ∈ P.drawable, i < cap
  incoming_lt : ∀ e ∈ P.incoming, e.1 < cap
  sorted : P.incoming.Pairwise fun x y => x.2 ≤ y.2

/-- A buffer that a pool account of this vault can hold. -/
structure WellFormed (vault : Bytes32) (cap : ℕ) (d : Bytes) : Prop
    extends Layout vault cap d where
  valid : (poolAbs cap d).Valid cap

@[simp] theorem length_drawableOf (d : Bytes) : (drawableOf d).length = readLE d 44 4 := by
  simp [drawableOf]

@[simp] theorem length_incomingOf (cap : ℕ) (d : Bytes) :
    (incomingOf cap d).length = readLE d 52 4 := by
  simp [incomingOf]

/-! ## Two buffers with the same parts denote the same -/

theorem drawableOf_congr {d d' : Bytes} (hlen : readLE d' 44 4 = readLE d 44 4)
    (hslot : ∀ i < readLE d 44 4,
      readLE d' (poolHeader + 4 * i) 4 = readLE d (poolHeader + 4 * i) 4) :
    drawableOf d' = drawableOf d := by
  rw [drawableOf, drawableOf, hlen]
  apply List.map_congr_left
  intro i hi
  rw [entryAt, entryAt, hslot i (List.mem_range.mp hi)]

theorem ringCell_congr {cap : ℕ} {d d' : Bytes} {k : ℕ}
    (hidx : readLE d' (poolHeader + 4 * cap + incomingEntry * k) 4
      = readLE d (poolHeader + 4 * cap + incomingEntry * k) 4)
    (htag : readLE d' (poolHeader + 4 * cap + incomingEntry * k + 4) 8
      = readLE d (poolHeader + 4 * cap + incomingEntry * k + 4) 8) :
    ringCell cap d' k = ringCell cap d k := by
  rw [ringCell, ringCell, hidx, htag]

theorem incomingOf_congr {cap : ℕ} {d d' : Bytes} (hcap : 0 < cap)
    (hhead : readLE d' 48 4 = readLE d 48 4) (hlen : readLE d' 52 4 = readLE d 52 4)
    (hcell : ∀ k < cap, ringCell cap d' k = ringCell cap d k) :
    incomingOf cap d' = incomingOf cap d := by
  rw [incomingOf, incomingOf, hhead, hlen, ringList, ringList]
  exact List.map_congr_left fun j _ => hcell _ (Nat.mod_lt _ hcap)

theorem mintedOf_congr {cap : ℕ} {d d' : Bytes}
    (hbyte : ∀ j < (cap + 7) / 8, readLE d' (poolHeader + 16 * cap + j) 1
      = readLE d (poolHeader + 16 * cap + j) 1) :
    mintedOf cap d' = mintedOf cap d := by
  funext i
  by_cases hi : i < cap
  · rw [mintedOf, mintedOf, hbyte (i / 8) (by omega)]
  · simp [mintedOf, hi]

/-! ## Initialisation and loading -/

section WellFormedReads

variable {vault : Bytes32} {cap : ℕ} {d : Bytes}

theorem WellFormed.size_eq (h : WellFormed vault cap d) :
    d.length = 64 + 16 * cap + (cap + 7) / 8 := by
  rw [h.size, poolAccountSize, poolHeader]

theorem WellFormed.load_eq (h : WellFormed vault cap d) :
    PoolView.load d vault = .ok ⟨d, cap⟩ := by
  have hsize := h.size_eq
  simp only [PoolView.load, bind_eq_ok_iff, require_eq_ok_iff, pure_eq_ok_iff]
  refine ⟨(), by rw [hsize]; simp only [poolHeader]; omega, (), h.discriminator, (), h.owner, cap,
    ?_, (), h.size, rfl⟩
  rw [rdU32_eq (by omega), h.capacity]

theorem WellFormed.poolLen_eq (h : WellFormed vault cap d) :
    PoolView.poolLen ⟨d, cap⟩ = .ok (readLE d 44 4) :=
  rdU32_eq (by have := h.size_eq; dsimp only; omega)

theorem WellFormed.incomingLen_eq (h : WellFormed vault cap d) :
    PoolView.incomingLen ⟨d, cap⟩ = .ok (readLE d 52 4) :=
  rdU32_eq (by have := h.size_eq; dsimp only; omega)

theorem WellFormed.incomingHead_eq (h : WellFormed vault cap d) :
    PoolView.incomingHead ⟨d, cap⟩ = .ok (readLE d 48 4) :=
  rdU32_eq (by have := h.size_eq; dsimp only; omega)

theorem WellFormed.lens_le (h : WellFormed vault cap d) :
    readLE d 44 4 + readLE d 52 4 ≤ cap := by
  simpa [poolAbs] using h.valid.room

theorem WellFormed.total_eq (h : WellFormed vault cap d) :
    PoolView.total ⟨d, cap⟩ = .ok (readLE d 44 4 + readLE d 52 4) := by
  have hle := h.lens_le
  have hcap := h.cap_le
  have hlt : readLE d 44 4 + readLE d 52 4 < u32Size := by
    simp only [maxCapacity, u32Size] at *
    omega
  simp [PoolView.total, h.poolLen_eq, h.incomingLen_eq, hlt]

theorem WellFormed.poolGet_eq (h : WellFormed vault cap d) {i : ℕ} (hi : i < cap) :
    PoolView.poolGet ⟨d, cap⟩ i = .ok (entryAt d i) := by
  have hsize := h.size_eq
  simp only [PoolView.poolGet, bind_eq_ok_iff, pure_eq_ok_iff]
  refine ⟨_, rdU32_eq ?_, rfl⟩
  simp only [PoolView.poolOff, poolHeader]
  omega

theorem WellFormed.isMinted_eq (h : WellFormed vault cap d) (i : ℕ) :
    PoolView.isMinted ⟨d, cap⟩ i = .ok (mintedOf cap d i) := by
  have hsize := h.size_eq
  by_cases hi : i < cap
  · simp only [PoolView.isMinted, PoolView.bitmapOff, poolHeader, hi, if_true, bind_eq_ok_iff,
      pure_eq_ok_iff, mintedOf, decide_true, Bool.true_and]
    refine ⟨_, rdByte_eq (by omega), ?_⟩
    rw [Bool.eq_iff_iff, decide_eq_true_iff]
    exact and_shiftLeft_ne_zero_iff _ _
  · simp [PoolView.isMinted, hi, mintedOf, pure, Except.pure]

theorem getElem?_drawableOf {i : ℕ} (hi : i < readLE d 44 4) :
    (drawableOf d)[i]? = some (entryAt d i) := by
  simp [drawableOf, hi]

/-- Every decoded slot of the pool fits its encoding. -/
theorem WellFormed.entryAt_lt (h : WellFormed vault cap d) {i : ℕ} (hi : i < readLE d 44 4) :
    entryAt d i < cap :=
  h.valid.drawable_lt _ (List.mem_of_getElem? (getElem?_drawableOf hi))

end WellFormedReads

/-- What the writes of `poolInit` leave: the header fields, and zeros behind them. -/
structure Initialised (vault : Bytes32) (cap : ℕ) (d : Bytes) : Prop where
  size : d.length = poolAccountSize cap
  disc : slice d 0 8 = poolDiscriminator
  owner : slice d 8 32 = vault.bytes
  capacity : readLE d 40 4 = cap
  poolLen : readLE d 44 4 = cap
  incomingHead : readLE d 48 4 = 0
  incomingLen : readLE d 52 4 = 0
  rest : ∀ o n, poolHeader ≤ o → readLE d o n = 0

theorem poolInit_eq_ok (vault : Bytes32) {cap : ℕ} (hle : cap ≤ maxCapacity) :
    ∃ d, poolInit (List.replicate (poolAccountSize cap) 0) vault cap = .ok d ∧
      Initialised vault cap d := by
  have hle' : cap ≤ 10000 := hle
  obtain ⟨z, hz⟩ : ∃ z : Bytes, z = List.replicate (poolAccountSize cap) 0 := ⟨_, rfl⟩
  obtain ⟨d₁, hd₁⟩ : ∃ d₁, d₁ = splice z 0 poolDiscriminator := ⟨_, rfl⟩
  obtain ⟨d₂, hd₂⟩ : ∃ d₂, d₂ = splice d₁ 8 vault.bytes := ⟨_, rfl⟩
  obtain ⟨d₃, hd₃⟩ : ∃ d₃, d₃ = writeLE d₂ 40 4 cap := ⟨_, rfl⟩
  obtain ⟨d₄, hd₄⟩ : ∃ d₄, d₄ = writeLE d₃ 44 4 cap := ⟨_, rfl⟩
  obtain ⟨d₅, hd₅⟩ : ∃ d₅, d₅ = writeLE d₄ 48 4 0 := ⟨_, rfl⟩
  obtain ⟨d₆, hd₆⟩ : ∃ d₆, d₆ = writeLE d₅ 52 4 0 := ⟨_, rfl⟩
  have hzlen : z.length = 64 + 16 * cap + (cap + 7) / 8 := by
    rw [hz, List.length_replicate, poolAccountSize, poolHeader]
  have hdlen : poolDiscriminator.length = 8 := rfl
  have hvlen := vault.length_eq
  have h₁ : d₁.length = z.length := by rw [hd₁]; exact length_splice (by omega)
  have h₂ : d₂.length = z.length := by rw [hd₂, length_splice (by omega), h₁]
  have h₃ : d₃.length = z.length := by rw [hd₃, length_writeLE (by omega), h₂]
  have h₄ : d₄.length = z.length := by rw [hd₄, length_writeLE (by omega), h₃]
  have h₅ : d₅.length = z.length := by rw [hd₅, length_writeLE (by omega), h₄]
  have h₆ : d₆.length = z.length := by rw [hd₆, length_writeLE (by omega), h₅]
  -- each window reads the last write into it, past the writes behind
  have hcap : readLE d₆ 40 4 = cap := by
    rw [hd₆, readLE_writeLE_of_disjoint (by omega) (by omega), hd₅,
      readLE_writeLE_of_disjoint (by omega) (by omega), hd₄,
      readLE_writeLE_of_disjoint (by omega) (by omega), hd₃,
      readLE_writeLE_same (by omega) (by omega)]
  have hlen : readLE d₆ 44 4 = cap := by
    rw [hd₆, readLE_writeLE_of_disjoint (by omega) (by omega), hd₅,
      readLE_writeLE_of_disjoint (by omega) (by omega), hd₄,
      readLE_writeLE_same (by omega) (by omega)]
  have hhead : readLE d₆ 48 4 = 0 := by
    rw [hd₆, readLE_writeLE_of_disjoint (by omega) (by omega), hd₅,
      readLE_writeLE_same (by omega) (by omega)]
  have hinc : readLE d₆ 52 4 = 0 := by
    rw [hd₆, readLE_writeLE_same (by omega) (by omega)]
  have hrest : ∀ o n, poolHeader ≤ o → readLE d₆ o n = 0 := by
    intro o n ho
    simp only [poolHeader] at ho
    rw [hd₆, readLE_writeLE_of_disjoint (by omega) (by omega), hd₅,
      readLE_writeLE_of_disjoint (by omega) (by omega), hd₄,
      readLE_writeLE_of_disjoint (by omega) (by omega), hd₃,
      readLE_writeLE_of_disjoint (by omega) (by omega), readLE, hd₂,
      slice_splice_of_disjoint (by omega) (by omega), hd₁,
      slice_splice_of_disjoint (by omega) (by omega), ← readLE, hz, readLE_replicate_zero]
  have hdisc : slice d₆ 0 8 = poolDiscriminator := by
    rw [hd₆, slice_writeLE_of_disjoint (by omega) (by omega), hd₅,
      slice_writeLE_of_disjoint (by omega) (by omega), hd₄,
      slice_writeLE_of_disjoint (by omega) (by omega), hd₃,
      slice_writeLE_of_disjoint (by omega) (by omega), hd₂,
      slice_splice_of_disjoint (by omega) (by omega), hd₁]
    exact slice_splice_same (b := poolDiscriminator) (by omega)
  have howner : slice d₆ 8 32 = vault.bytes := by
    have hsame : slice (splice d₁ 8 vault.bytes) 8 vault.bytes.length = vault.bytes :=
      slice_splice_same (by omega)
    rw [hvlen] at hsame
    rw [hd₆, slice_writeLE_of_disjoint (by omega) (by omega), hd₅,
      slice_writeLE_of_disjoint (by omega) (by omega), hd₄,
      slice_writeLE_of_disjoint (by omega) (by omega), hd₃,
      slice_writeLE_of_disjoint (by omega) (by omega), hd₂, hsame]
  -- the buffer is fresh, as the program checks
  have hzero : slice z 0 8 = List.replicate 8 0 := by
    have hsize : min 8 (poolAccountSize cap) = 8 := by
      simp only [poolAccountSize, poolHeader]
      omega
    rw [hz, slice, List.drop_zero, List.take_replicate, hsize]
  refine ⟨d₆, ?_, by rw [h₆, hzlen, poolAccountSize, poolHeader], hdisc, howner, hcap, hlen, hhead,
    hinc, hrest⟩
  simp only [poolInit, bind_eq_ok_iff, require_eq_ok_iff]
  rw [← hz, ← hd₁, ← hd₂]
  refine ⟨(), by rw [hzlen, poolAccountSize, poolHeader], (), hzero, d₃, ?_, d₄, ?_, d₅, ?_, ?_⟩
  · rw [wrU32_eq (by omega), hd₃]
  · rw [wrU32_eq (by omega), hd₄]
  · rw [wrU32_eq (by omega), hd₅]
  · rw [wrU32_eq (by omega), hd₆]

/-- **Initialisation.**  A zeroed buffer of the right size becomes a pool in
which every index is drawable, nothing is returning and nothing is minted. -/
theorem poolInit_spec (vault : Bytes32) {cap : ℕ} (hpos : 0 < cap) (hle : cap ≤ maxCapacity) :
    ∃ d, poolInit (List.replicate (poolAccountSize cap) 0) vault cap = .ok d ∧
      WellFormed vault cap d ∧ drawableOf d = List.range cap ∧ incomingOf cap d = [] ∧
      (∀ i, mintedOf cap d i = false) ∧ ∀ o n, poolHeader ≤ o → readLE d o n = 0 := by
  obtain ⟨d, hinit, hd⟩ := poolInit_eq_ok vault hle
  -- a slot that reads zero is an index that never moved
  have hdrawable : drawableOf d = List.range cap := by
    rw [drawableOf, hd.poolLen]
    conv_rhs => rw [← List.map_id (List.range cap)]
    apply List.map_congr_left
    intro i _
    rw [entryAt, hd.rest _ _ (by omega), if_pos rfl, id]
  have hincoming : incomingOf cap d = [] := by
    rw [incomingOf, hd.incomingLen, ringList, List.range_zero, List.map_nil]
  refine ⟨d, hinit, ⟨?_, ?_⟩, hdrawable, hincoming, ?_, hd.rest⟩
  · exact ⟨hd.size, hd.disc, hd.owner, hd.capacity, hpos, hle, by rwa [hd.incomingHead]⟩
  · rw [poolAbs, hdrawable, hincoming]
    exact ⟨by simp, fun i hi => List.mem_range.mp hi, by simp, List.Pairwise.nil⟩
  · intro i
    rw [mintedOf, hd.rest _ _ (by omega)]
    simp

/-! ## The operations -/

section Operations

variable {vault : Bytes32} {cap : ℕ} {d : Bytes}

theorem Layout.size_eq (h : Layout vault cap d) : d.length = 64 + 16 * cap + (cap + 7) / 8 := by
  rw [h.size, poolAccountSize, poolHeader]

theorem Layout.cap_lt (h : Layout vault cap d) : cap ≤ 10000 := h.cap_le

/-- A write behind the capacity field leaves the header in order. -/
theorem Layout.writeLE (h : Layout vault cap d) {o n v : ℕ} (ho : 44 ≤ o) (hn : o + n ≤ d.length)
    (hhead : readLE (writeLE d o n v) 48 4 < cap) : Layout vault cap (writeLE d o n v) where
  size := by rw [length_writeLE hn, h.size]
  discriminator := by rw [slice_writeLE_of_disjoint hn (by omega), h.discriminator]
  owner := by rw [slice_writeLE_of_disjoint hn (by omega), h.owner]
  capacity := by rw [readLE_writeLE_of_disjoint hn (by omega), h.capacity]
  cap_pos := h.cap_pos
  cap_le := h.cap_le
  head_lt := hhead

/-- A write outside the head field leaves the header in order. -/
theorem Layout.writeLE_of_ne_head (h : Layout vault cap d) {o n v : ℕ} (ho : 44 ≤ o)
    (hn : o + n ≤ d.length) (hne : o + n ≤ 48 ∨ 52 ≤ o) :
    Layout vault cap (Foundations.writeLE d o n v) :=
  h.writeLE ho hn (by rw [readLE_writeLE_of_disjoint hn (by omega)]; exact h.head_lt)

/-- Writing a slot and the length: the pool denotes the new slots, the other
regions denote what they did. -/
theorem poolSet_then_len (h : Layout vault cap d) {i x n : ℕ} (hi : i < cap) (hx : x < cap)
    (hn : n ≤ cap) :
    let d' := Foundations.writeLE (Foundations.writeLE d (poolHeader + 4 * i) 4 (x + 1)) 44 4 n
    Layout vault cap d' ∧
      poolAbs cap d' =
        { poolAbs cap d with
          drawable := (List.range n).map fun j => if j = i then x else entryAt d j } := by
  have hsize := h.size_eq
  have hcap := h.cap_lt
  obtain ⟨d₁, hd₁⟩ : ∃ d₁, d₁ = Foundations.writeLE d (poolHeader + 4 * i) 4 (x + 1) := ⟨_, rfl⟩
  obtain ⟨d₂, hd₂⟩ : ∃ d₂, d₂ = Foundations.writeLE d₁ 44 4 n := ⟨_, rfl⟩
  simp only [poolHeader] at hd₁
  have h₁ : d₁.length = d.length := by rw [hd₁, length_writeLE (by omega)]
  have hl₁ : Layout vault cap d₁ := by
    rw [hd₁]
    exact h.writeLE_of_ne_head (by omega) (by omega) (by omega)
  have hl₂ : Layout vault cap d₂ := by
    rw [hd₂]
    exact hl₁.writeLE_of_ne_head (by omega) (by omega) (by omega)
  have hread : ∀ o m, 64 ≤ o → (o + m ≤ 64 + 4 * i ∨ 64 + 4 * i + 4 ≤ o) →
      readLE d₂ o m = readLE d o m := by
    intro o m ho hdisj
    rw [hd₂, readLE_writeLE_of_disjoint (by omega) (by omega), hd₁,
      readLE_writeLE_of_disjoint (by omega) (by omega)]
  have hheader : ∀ o, 48 ≤ o → o + 4 ≤ 64 → readLE d₂ o 4 = readLE d o 4 := by
    intro o ho hle
    rw [hd₂, readLE_writeLE_of_disjoint (by omega) (by omega), hd₁,
      readLE_writeLE_of_disjoint (by omega) (by omega)]
  have hentry : ∀ j < cap, entryAt d₂ j = if j = i then x else entryAt d j := by
    intro j hj
    by_cases hij : j = i
    · subst hij
      have : readLE d₂ (64 + 4 * j) 4 = x + 1 := by
        rw [hd₂, readLE_writeLE_of_disjoint (by omega) (by omega), hd₁,
          readLE_writeLE_same (by omega) (by omega)]
      simp [entryAt, poolHeader, this]
    · have : readLE d₂ (poolHeader + 4 * j) 4 = readLE d (poolHeader + 4 * j) 4 :=
        hread _ _ (by simp only [poolHeader]; omega) (by simp only [poolHeader]; omega)
      simp only [entryAt, this, hij, if_false]
  simp only [← hd₁, ← hd₂, poolHeader]
  refine ⟨hl₂, ?_⟩
  simp only [poolAbs, PoolAbs.mk.injEq]
  refine ⟨?_, ?_, ?_⟩
  · rw [drawableOf, show readLE d₂ 44 4 = n by
      rw [hd₂, readLE_writeLE_same (by omega) (by omega)]]
    exact List.map_congr_left fun j hj => hentry j (by have := List.mem_range.mp hj; omega)
  · refine incomingOf_congr h.cap_pos (hheader 48 (by omega) (by omega))
      (hheader 52 (by omega) (by omega)) fun k hk => ringCell_congr ?_ ?_
    · exact hread _ _ (by simp only [poolHeader]; omega)
        (by simp only [poolHeader, incomingEntry]; omega)
    · exact hread _ _ (by simp only [poolHeader]; omega)
        (by simp only [poolHeader, incomingEntry]; omega)
  · exact mintedOf_congr fun j _ => hread _ _ (by simp only [poolHeader]; omega)
      (by simp only [poolHeader]; omega)

theorem Layout.poolSet_eq (h : Layout vault cap d) {i x : ℕ} (hi : i < cap) (hx : x < cap) :
    PoolView.poolSet ⟨d, cap⟩ i x
      = .ok ⟨Foundations.writeLE d (poolHeader + 4 * i) 4 (x + 1), cap⟩ := by
  have hsize := h.size_eq
  have hcap := h.cap_lt
  simp only [PoolView.poolSet, bind_eq_ok_iff, pure_eq_ok_iff]
  exact ⟨x + 1, addU32_eq (by simp only [u32Size]; omega), _,
    wrU32_eq (by simp only [PoolView.poolOff, poolHeader]; omega), rfl⟩

/-- **Push.**  The index is appended to the pool. -/
theorem WellFormed.poolPush_spec (h : WellFormed vault cap d) {i : ℕ} (hi : i < cap)
    (hroom : (drawableOf d).length + (incomingOf cap d).length < cap) :
    ∃ d', PoolView.poolPush ⟨d, cap⟩ i = .ok ⟨d', cap⟩ ∧ WellFormed vault cap d' ∧
      poolAbs cap d' = { poolAbs cap d with drawable := drawableOf d ++ [i] } := by
  have hsize := h.size_eq
  have hcap := h.toLayout.cap_lt
  simp only [length_drawableOf, length_incomingOf] at hroom
  obtain ⟨hlayout, habs⟩ :=
    poolSet_then_len h.toLayout (i := readLE d 44 4) (n := readLE d 44 4 + 1) (by omega) hi
      (by omega)
  have hlist : ((List.range (readLE d 44 4 + 1)).map
      fun j => if j = readLE d 44 4 then i else entryAt d j) = drawableOf d ++ [i] := by
    rw [List.range_succ, List.map_append, drawableOf]
    congr 1
    · apply List.map_congr_left
      intro j hj
      rw [if_neg (by have := List.mem_range.mp hj; omega)]
    · simp
  rw [hlist] at habs
  refine ⟨_, ?_, ⟨hlayout, ?_⟩, habs⟩
  · have hlen₁ : (Foundations.writeLE d (poolHeader + 4 * readLE d 44 4) 4 (i + 1)).length
        = d.length := length_writeLE (by simp only [poolHeader]; omega)
    simp only [PoolView.poolPush, bind_eq_ok_iff, require_eq_ok_iff, pure_eq_ok_iff]
    exact ⟨_, h.total_eq, (), by omega, (), hi, _, h.poolLen_eq, _,
      h.poolSet_eq (by omega) hi, readLE d 44 4 + 1, addU32_eq (by simp only [u32Size]; omega), _,
      wrU32_eq (by rw [hlen₁]; omega), rfl⟩
  · rw [habs]
    refine ⟨?_, ?_, h.valid.incoming_lt, h.valid.sorted⟩
    · simp [poolAbs]; omega
    · intro j hj
      rcases List.mem_append.mp hj with hj | hj
      · exact h.valid.drawable_lt j hj
      · rwa [List.mem_singleton.mp hj]

/-- **Swap-remove.**  The entry at `i` is returned and replaced by the last. -/
theorem WellFormed.poolSwapRemove_spec (h : WellFormed vault cap d) {i : ℕ}
    (hi : i < (drawableOf d).length) :
    ∃ d', PoolView.poolSwapRemove ⟨d, cap⟩ i = .ok ((drawableOf d)[i], ⟨d', cap⟩) ∧
      WellFormed vault cap d' ∧
      poolAbs cap d' = { poolAbs cap d with drawable := swapRemove (drawableOf d) i } := by
  have hsize := h.size_eq
  have hcap := h.toLayout.cap_lt
  have hlens := h.lens_le
  have hpick : (drawableOf d)[i] = entryAt d i := by simp [drawableOf]
  rw [length_drawableOf] at hi
  have hlast := h.entryAt_lt (i := readLE d 44 4 - 1) (by omega)
  obtain ⟨hlayout, habs⟩ :=
    poolSet_then_len h.toLayout (i := i) (x := entryAt d (readLE d 44 4 - 1))
      (n := readLE d 44 4 - 1) (by omega) hlast (by omega)
  have hlist : ((List.range (readLE d 44 4 - 1)).map
      fun j => if j = i then entryAt d (readLE d 44 4 - 1) else entryAt d j)
        = swapRemove (drawableOf d) i := by
    rw [drawableOf, swapRemove_map_range _ hi]
  rw [hlist] at habs
  rw [hpick]
  refine ⟨_, ?_, ⟨hlayout, ?_⟩, habs⟩
  · have hlen₁ : (Foundations.writeLE d (poolHeader + 4 * i) 4
        (entryAt d (readLE d 44 4 - 1) + 1)).length = d.length :=
      length_writeLE (by simp only [poolHeader]; omega)
    simp only [PoolView.poolSwapRemove, bind_eq_ok_iff, require_eq_ok_iff, pure_eq_ok_iff]
    exact ⟨_, h.poolLen_eq, (), hi, _, h.poolGet_eq (by omega), readLE d 44 4 - 1,
      subU32_eq (by omega), _, h.poolGet_eq (by omega), _, h.poolSet_eq (by omega) hlast,
      readLE d 44 4 - 1, subU32_eq (by omega), _, wrU32_eq (by rw [hlen₁]; omega), rfl⟩
  · rw [habs]
    have hperm := cons_swapRemove_perm (l := drawableOf d) (i := i) (by simpa using hi)
    refine ⟨?_, ?_, h.valid.incoming_lt, h.valid.sorted⟩
    · simp [poolAbs]; omega
    · exact fun j hj => h.valid.drawable_lt j (hperm.subset (List.mem_cons_of_mem _ hj))

theorem mem_incomingOf {j : ℕ} (hj : j < readLE d 52 4) :
    ringCell cap d ((readLE d 48 4 + j) % cap) ∈ incomingOf cap d :=
  List.mem_map.mpr ⟨j, List.mem_range.mpr hj, rfl⟩

theorem WellFormed.checkBackTag_eq (h : WellFormed vault cap d) {tag : ℕ}
    (hback : ∀ e ∈ incomingOf cap d, e.2 ≤ tag) :
    PoolView.checkBackTag ⟨d, cap⟩ (readLE d 52 4) tag = .ok () := by
  have hsize := h.size_eq
  have hcap := h.toLayout.cap_lt
  have hlens := h.lens_le
  have hhead := h.head_lt
  have hpos := h.cap_pos
  by_cases hlen : 0 < readLE d 52 4
  · have hmod := Nat.mod_lt (readLE d 48 4 + (readLE d 52 4 - 1)) hpos
    have hlast : readLE d 52 4 - 1 < readLE d 52 4 := by omega
    have hmem := hback _ (mem_incomingOf hlast)
    have hassoc : readLE d 48 4 + readLE d 52 4 - 1 = readLE d 48 4 + (readLE d 52 4 - 1) := by
      omega
    simp only [PoolView.checkBackTag, hlen, if_true, bind_eq_ok_iff, require_eq_ok_iff]
    refine ⟨_, h.incomingHead_eq, _, addU32_eq (by simp only [u32Size]; omega), _,
      subU32_eq (by omega), _, rdU64_eq ?_, ?_⟩
    · rw [hassoc]
      simp only [PoolView.incOff, poolHeader, incomingEntry]
      omega
    · rw [hassoc]
      exact hmem
  · simp [PoolView.checkBackTag, hlen, pure, Except.pure]

/-- The tag check of a push bounds every tag in the ring. -/
theorem WellFormed.le_of_checkBackTag (h : WellFormed vault cap d) {tag : ℕ} {u : Unit}
    (hcheck : PoolView.checkBackTag ⟨d, cap⟩ (readLE d 52 4) tag = .ok u) :
    ∀ e ∈ incomingOf cap d, e.2 ≤ tag := by
  intro e he
  obtain ⟨j, hj, rfl⟩ := List.mem_map.mp he
  have hj : j < readLE d 52 4 := List.mem_range.mp hj
  simp only [PoolView.checkBackTag, show 0 < readLE d 52 4 by omega, if_true, bind_eq_ok_iff,
    require_eq_ok_iff, h.incomingHead_eq, addU32, subU32, rdU64, expect_eq_ok_iff,
    checkedAdd32_eq_some_iff, checkedSub_eq_some_iff, pure_eq_ok_iff, Except.ok.injEq] at hcheck
  obtain ⟨_, rfl, _, ⟨-, rfl⟩, _, ⟨-, rfl⟩, _, ⟨-, -, rfl⟩, hback⟩ := hcheck
  have hassoc : readLE d 48 4 + readLE d 52 4 - 1 = readLE d 48 4 + (readLE d 52 4 - 1) := by omega
  rw [hassoc] at hback
  refine le_trans ?_ hback
  -- the entry behind the last one has the greatest tag
  by_cases hlast : j = readLE d 52 4 - 1
  · rw [← hlast]
    exact le_rfl
  · have hpair := List.pairwise_map.mp h.valid.sorted
    exact List.pairwise_iff_getElem.mp hpair j (readLE d 52 4 - 1) (by simpa using hj)
      (by simp; omega) (by omega) |>.trans_eq' (by simp) |>.trans_eq (by
        simp [ringCell, PoolView.incOff])

/-- **Return.**  The index and its tag are appended to the FIFO. -/
theorem WellFormed.incomingPush_spec (h : WellFormed vault cap d) {i tag : ℕ} (hi : i < cap)
    (htag : tag < u64Size) (hroom : (drawableOf d).length + (incomingOf cap d).length < cap)
    (hback : ∀ e ∈ incomingOf cap d, e.2 ≤ tag) :
    ∃ d', PoolView.incomingPush ⟨d, cap⟩ i tag = .ok ⟨d', cap⟩ ∧ WellFormed vault cap d' ∧
      poolAbs cap d' = { poolAbs cap d with incoming := incomingOf cap d ++ [(i, tag)] } := by
  have hsize := h.size_eq
  have hcap := h.toLayout.cap_lt
  have hhead := h.head_lt
  have hroom' := hroom
  simp only [length_drawableOf, length_incomingOf] at hroom'
  have hslot := Nat.mod_lt (readLE d 48 4 + readLE d 52 4) h.cap_pos
  obtain ⟨k, hk⟩ : ∃ k, k = (readLE d 48 4 + readLE d 52 4) % cap := ⟨_, rfl⟩
  obtain ⟨d₁, hd₁⟩ : ∃ d₁, d₁ = Foundations.writeLE d (64 + 4 * cap + 12 * k) 4 i := ⟨_, rfl⟩
  obtain ⟨d₂, hd₂⟩ : ∃ d₂, d₂ = Foundations.writeLE d₁ (64 + 4 * cap + 12 * k + 4) 8 tag := ⟨_, rfl⟩
  obtain ⟨d₃, hd₃⟩ : ∃ d₃, d₃ = Foundations.writeLE d₂ 52 4 (readLE d 52 4 + 1) := ⟨_, rfl⟩
  rw [← hk] at hslot
  have h₁ : d₁.length = d.length := by rw [hd₁, length_writeLE (by omega)]
  have h₂ : d₂.length = d.length := by rw [hd₂, length_writeLE (by omega), h₁]
  have hl₁ : Layout vault cap d₁ := by
    rw [hd₁]; exact h.toLayout.writeLE_of_ne_head (by omega) (by omega) (by omega)
  have hl₂ : Layout vault cap d₂ := by
    rw [hd₂]; exact hl₁.writeLE_of_ne_head (by omega) (by omega) (by omega)
  have hl₃ : Layout vault cap d₃ := by
    rw [hd₃]; exact hl₂.writeLE_of_ne_head (by omega) (by omega) (by omega)
  -- only the cell written and the count read differently
  have hread : ∀ o m, (o + m ≤ 52 ∨ 56 ≤ o) →
      (o + m ≤ 64 + 4 * cap + 12 * k ∨ 64 + 4 * cap + 12 * k + 12 ≤ o) →
      readLE d₃ o m = readLE d o m := by
    intro o m hlen hdisj
    rw [hd₃, readLE_writeLE_of_disjoint (by omega) (by omega), hd₂,
      readLE_writeLE_of_disjoint (by omega) (by omega), hd₁,
      readLE_writeLE_of_disjoint (by omega) (by omega)]
  have hcell : ringCell cap d₃ k = (i, tag) := by
    have hidx : readLE d₃ (64 + 4 * cap + 12 * k) 4 = i := by
      rw [hd₃, readLE_writeLE_of_disjoint (by omega) (by omega), hd₂,
        readLE_writeLE_of_disjoint (by omega) (by omega), hd₁,
        readLE_writeLE_same (by omega) (by omega)]
    have htag' : readLE d₃ (64 + 4 * cap + 12 * k + 4) 8 = tag := by
      rw [hd₃, readLE_writeLE_of_disjoint (by omega) (by omega), hd₂,
        readLE_writeLE_same (by omega) (by simpa [u64Size] using htag)]
    simp only [ringCell, poolHeader, incomingEntry, hidx, htag']
  have hother : ∀ j, j ≠ k → j < cap → ringCell cap d₃ j = ringCell cap d j := by
    intro j hjk hj
    refine ringCell_congr ?_ ?_
    · simp only [poolHeader, incomingEntry]
      exact hread _ _ (by omega) (by omega)
    · simp only [poolHeader, incomingEntry]
      exact hread _ _ (by omega) (by omega)
  have hincoming : incomingOf cap d₃ = incomingOf cap d ++ [(i, tag)] := by
    have hhead₃ : readLE d₃ 48 4 = readLE d 48 4 := hread _ _ (by omega) (by omega)
    have hlen₃ : readLE d₃ 52 4 = readLE d 52 4 + 1 := by
      rw [hd₃, readLE_writeLE_same (by omega) (by omega)]
    rw [incomingOf, hhead₃, hlen₃, incomingOf]
    exact ringList_push (by omega) (hk ▸ hcell) fun j hj hlt => hother j (hk ▸ hj) hlt
  have habs :
      poolAbs cap d₃ = { poolAbs cap d with incoming := incomingOf cap d ++ [(i, tag)] } := by
    simp only [poolAbs, PoolAbs.mk.injEq]
    refine ⟨?_, hincoming, ?_⟩
    · refine drawableOf_congr (hread _ _ (by omega) (by omega)) ?_
      intro j hj
      simp only [poolHeader]
      exact hread _ _ (by omega) (by omega)
    · apply mintedOf_congr
      intro j _
      simp only [poolHeader]
      exact hread _ _ (by omega) (by omega)
  refine ⟨d₃, ?_, ⟨hl₃, ?_⟩, habs⟩
  · simp only [PoolView.incomingPush, bind_eq_ok_iff, require_eq_ok_iff, pure_eq_ok_iff,
      PoolView.incOff, poolHeader, incomingEntry]
    refine ⟨_, h.total_eq, (), hroom', _, h.incomingLen_eq, (), h.checkBackTag_eq hback, _,
      h.incomingHead_eq, _, addU32_eq (by simp only [u32Size]; omega), d₁, ?_, d₂, ?_,
      readLE d 52 4 + 1, addU32_eq (by simp only [u32Size]; omega), d₃, ?_, rfl⟩
    · rw [← hk, wrU32_eq (by omega), hd₁]
    · rw [← hk, wrU64_eq (by omega), hd₂]
    · rw [wrU32_eq (by omega), hd₃]
  · rw [habs]
    refine ⟨?_, h.valid.drawable_lt, ?_, ?_⟩
    · simp [poolAbs]; omega
    · intro e he
      rcases List.mem_append.mp he with he | he
      · exact h.valid.incoming_lt e he
      · rwa [List.mem_singleton.mp he]
    · refine List.pairwise_append.mpr ⟨h.valid.sorted, List.pairwise_singleton _ _, ?_⟩
      intro x hx y hy
      rw [List.mem_singleton.mp hy]
      exact hback x hx

/-- The tag of the oldest returning index. -/
theorem WellFormed.incomingFrontTag_eq (h : WellFormed vault cap d) :
    PoolView.incomingFrontTag ⟨d, cap⟩ = .ok ((incomingOf cap d).head?.map Prod.snd) := by
  have hsize := h.size_eq
  have hhead := h.head_lt
  by_cases hlen : readLE d 52 4 = 0
  · have hnil : incomingOf cap d = [] := by rw [incomingOf, hlen]; rfl
    simp only [PoolView.incomingFrontTag, bind_eq_ok_iff, h.incomingLen_eq, Except.ok.injEq,
      exists_eq_left', hlen, if_true, hnil, pure_eq_ok_iff]
    rfl
  · have hcons : (incomingOf cap d).head? = some (ringCell cap d (readLE d 48 4)) := by
      obtain ⟨m, hm⟩ : ∃ m, readLE d 52 4 = m + 1 := ⟨readLE d 52 4 - 1, by omega⟩
      rw [incomingOf, hm, ringList_pop, List.head?_cons, Nat.mod_eq_of_lt hhead]
    simp only [PoolView.incomingFrontTag, bind_eq_ok_iff, h.incomingLen_eq, Except.ok.injEq,
      exists_eq_left', hlen, if_false, hcons, pure_eq_ok_iff]
    refine ⟨_, h.incomingHead_eq, _, rdU64_eq ?_, rfl⟩
    simp only [PoolView.incOff, poolHeader, incomingEntry]
    omega

/-- **One merge step.**  The oldest returning index becomes drawable. -/
theorem WellFormed.mergeOne_spec (h : WellFormed vault cap d) {e : ℕ × ℕ} {rest : List (ℕ × ℕ)}
    (hinc : incomingOf cap d = e :: rest) :
    ∃ d', PoolView.mergeOne ⟨d, cap⟩ = .ok ⟨d', cap⟩ ∧ WellFormed vault cap d' ∧
      poolAbs cap d' =
        { poolAbs cap d with drawable := drawableOf d ++ [e.1], incoming := rest } := by
  have hsize := h.size_eq
  have hcap := h.toLayout.cap_lt
  have hhead := h.head_lt
  have hlens := h.lens_le
  have hpos := h.cap_pos
  obtain ⟨m, hm⟩ : ∃ m, readLE d 52 4 = m + 1 := by
    have : (incomingOf cap d).length ≠ 0 := by rw [hinc]; simp
    rw [length_incomingOf] at this
    exact ⟨readLE d 52 4 - 1, by omega⟩
  -- the cell at the head is the oldest entry
  obtain ⟨he, hrest⟩ : ringCell cap d (readLE d 48 4) = e ∧
      ringList (ringCell cap d) cap ((readLE d 48 4 + 1) % cap) m = rest := by
    rw [incomingOf, hm, ringList_pop, Nat.mod_eq_of_lt hhead] at hinc
    exact List.cons.inj hinc
  have hnew := Nat.mod_lt (readLE d 48 4 + 1) hpos
  obtain ⟨d₁, hd₁⟩ : ∃ d₁, d₁ = Foundations.writeLE d 48 4 ((readLE d 48 4 + 1) % cap) := ⟨_, rfl⟩
  obtain ⟨d₂, hd₂⟩ : ∃ d₂, d₂ = Foundations.writeLE d₁ 52 4 m := ⟨_, rfl⟩
  have h₁ : d₁.length = d.length := by rw [hd₁, length_writeLE (by omega)]
  have hl₁ : Layout vault cap d₁ := by
    rw [hd₁]
    exact h.toLayout.writeLE (by omega) (by omega)
      (by rw [readLE_writeLE_same (by omega) (by omega)]; exact hnew)
  have hl₂ : Layout vault cap d₂ := by
    rw [hd₂]; exact hl₁.writeLE_of_ne_head (by omega) (by omega) (by omega)
  have hread : ∀ o n, (o + n ≤ 48 ∨ 56 ≤ o) → readLE d₂ o n = readLE d o n := by
    intro o n hdisj
    rw [hd₂, readLE_writeLE_of_disjoint (by omega) (by omega), hd₁,
      readLE_writeLE_of_disjoint (by omega) (by omega)]
  have habs₂ : poolAbs cap d₂ = { poolAbs cap d with incoming := rest } := by
    simp only [poolAbs, PoolAbs.mk.injEq]
    refine ⟨?_, ?_, ?_⟩
    · exact drawableOf_congr (hread _ _ (by omega)) fun j hj =>
        hread _ _ (by simp only [poolHeader]; omega)
    · have hhead₂ : readLE d₂ 48 4 = (readLE d 48 4 + 1) % cap := by
        rw [hd₂, readLE_writeLE_of_disjoint (by omega) (by omega), hd₁,
          readLE_writeLE_same (by omega) (by omega)]
      have hlen₂ : readLE d₂ 52 4 = m := by
        rw [hd₂, readLE_writeLE_same (by omega) (by omega)]
      rw [incomingOf, hhead₂, hlen₂, ← hrest, ringList, ringList]
      refine List.map_congr_left fun j _ => ringCell_congr ?_ ?_
      · exact hread _ _ (by simp only [poolHeader]; omega)
      · exact hread _ _ (by simp only [poolHeader]; omega)
    · exact mintedOf_congr fun j _ => hread _ _ (by simp only [poolHeader]; omega)
  -- the entry is off the ring, so there is room for it in the pool
  have hwf₂ : WellFormed vault cap d₂ := by
    refine ⟨hl₂, ?_⟩
    have hincv := h.valid.incoming_lt
    have hsorted := h.valid.sorted
    simp only [poolAbs, hinc] at hincv hsorted
    rw [habs₂]
    refine ⟨?_, h.valid.drawable_lt, fun x hx => hincv x (List.mem_cons_of_mem _ hx),
      (List.pairwise_cons.mp hsorted).2⟩
    simp only [poolAbs, length_drawableOf, ← hrest, length_ringList]
    omega
  have hidx : e.1 < cap :=
    h.valid.incoming_lt e (by simp only [poolAbs, hinc, List.mem_cons, true_or])
  have hdrawable₂ : drawableOf d₂ = drawableOf d := congrArg PoolAbs.drawable habs₂
  have hincoming₂ : incomingOf cap d₂ = rest := congrArg PoolAbs.incoming habs₂
  have hroom₂ : (drawableOf d₂).length + (incomingOf cap d₂).length < cap := by
    rw [hdrawable₂, hincoming₂, ← hrest, length_drawableOf, length_ringList]
    omega
  obtain ⟨d₃, hpush, hwf₃, habs₃⟩ := hwf₂.poolPush_spec hidx hroom₂
  refine ⟨d₃, ?_, hwf₃, ?_⟩
  · simp only [PoolView.mergeOne, bind_eq_ok_iff, PoolView.incOff, poolHeader, incomingEntry]
    refine ⟨_, h.incomingHead_eq, _, rdU32_eq (by omega), _, h.incomingLen_eq,
      readLE d 48 4 + 1, addU32_eq (by simp only [u32Size]; omega), d₁, ?_, m, ?_, d₂, ?_, ?_⟩
    · rw [wrU32_eq (by omega), hd₁]
    · rw [subU32_eq (by omega), hm, Nat.add_sub_cancel]
    · rw [wrU32_eq (by omega), hd₂]
    · rw [← hpush, ← he]
      rfl
  · rw [habs₃, habs₂, hdrawable₂]

/-- **Merge.**  It never fails, and moves the longest prefix of at most `m`
entries with tag at most `t` to the end of the pool, in order. -/
theorem WellFormed.merge_spec (h : WellFormed vault cap d) (t m : ℕ) :
    ∃ k d', PoolView.merge ⟨d, cap⟩ t m = .ok (k, ⟨d', cap⟩) ∧ WellFormed vault cap d' ∧
      k = min m ((incomingOf cap d).takeWhile fun e => e.2 ≤ t).length ∧
      poolAbs cap d' =
        { poolAbs cap d with
          drawable := drawableOf d ++ ((incomingOf cap d).take k).map Prod.fst
          incoming := (incomingOf cap d).drop k } := by
  induction m generalizing d with
  | zero =>
      refine ⟨0, d, rfl, h, by simp, ?_⟩
      simp [poolAbs]
  | succ m ih =>
      cases hinc : incomingOf cap d with
      | nil =>
          refine ⟨0, d, ?_, h, by simp, ?_⟩
          · simp only [PoolView.merge, bind_eq_ok_iff]
            exact ⟨_, h.incomingFrontTag_eq, by rw [hinc]; rfl⟩
          · simp [poolAbs, hinc]
      | cons e rest =>
          by_cases he : e.2 ≤ t
          · obtain ⟨d₁, hone, hwf₁, habs₁⟩ := h.mergeOne_spec hinc
            obtain ⟨k, d₂, hmerge, hwf₂, hk, habs₂⟩ := ih hwf₁
            have hinc₁ : incomingOf cap d₁ = rest := congrArg PoolAbs.incoming habs₁
            have hdrawable₁ : drawableOf d₁ = drawableOf d ++ [e.1] :=
              congrArg PoolAbs.drawable habs₁
            refine ⟨k + 1, d₂, ?_, hwf₂, ?_, ?_⟩
            · simp only [PoolView.merge, bind_eq_ok_iff]
              refine ⟨_, h.incomingFrontTag_eq, ?_⟩
              simp only [hinc, List.head?_cons, Option.map_some, he, if_true, bind_eq_ok_iff,
                pure_eq_ok_iff]
              exact ⟨_, hone, _, hmerge, rfl⟩
            · rw [hk, hinc₁]
              simp [he, Nat.succ_min_succ]
            · rw [habs₂, hinc₁, hdrawable₁, habs₁]
              simp
          · refine ⟨0, d, ?_, h, by simp [he], ?_⟩
            · simp only [PoolView.merge, bind_eq_ok_iff]
              refine ⟨_, h.incomingFrontTag_eq, ?_⟩
              simp [hinc, he, pure, Except.pure]
            · simp [poolAbs, hinc]

/-- **Mint.**  The bit of an index that is not minted is set, and no other. -/
theorem WellFormed.markMinted_spec (h : WellFormed vault cap d) {i : ℕ} (hi : i < cap)
    (hfresh : mintedOf cap d i = false) :
    ∃ d', PoolView.markMinted ⟨d, cap⟩ i = .ok ⟨d', cap⟩ ∧ WellFormed vault cap d' ∧
      poolAbs cap d' =
        { poolAbs cap d with minted := fun j => mintedOf cap d j || decide (j = i) } := by
  have hsize := h.size_eq
  have hcap := h.toLayout.cap_lt
  have hbyte := readLE_lt d (64 + 16 * cap + i / 8) 1
  have hmask : readLE d (64 + 16 * cap + i / 8) 1 ||| (1 <<< (i % 8)) < 256 :=
    or_shiftLeft_lt (by simpa using hbyte) (Nat.mod_lt _ (by omega))
  obtain ⟨d₁, hd₁⟩ : ∃ d₁, d₁ = Foundations.writeLE d (64 + 16 * cap + i / 8) 1
      (readLE d (64 + 16 * cap + i / 8) 1 ||| (1 <<< (i % 8))) := ⟨_, rfl⟩
  have hl₁ : Layout vault cap d₁ := by
    rw [hd₁]; exact h.toLayout.writeLE_of_ne_head (by omega) (by omega) (by omega)
  have hread : ∀ o n, o + n ≤ 64 + 16 * cap → readLE d₁ o n = readLE d o n := by
    intro o n hdisj
    rw [hd₁, readLE_writeLE_of_disjoint (by omega) (by omega)]
  have hminted : mintedOf cap d₁ = fun j => mintedOf cap d j || decide (j = i) := by
    funext j
    by_cases hj : j < cap
    · by_cases hsame : j / 8 = i / 8
      · -- the byte written, of which one bit changes
        have hval : readLE d₁ (64 + 16 * cap + i / 8) 1
            = readLE d (64 + 16 * cap + i / 8) 1 ||| (1 <<< (i % 8)) := by
          rw [hd₁, readLE_writeLE_same (by omega) (by simpa using hmask)]
        have hbit : decide (i % 8 = j % 8) = decide (j = i) := by
          congr 1
          rw [eq_iff_iff]
          omega
        simp only [mintedOf, poolHeader, hsame, hval, testBit_or_shiftLeft, hj, decide_true,
          Bool.true_and, hbit]
      · have hval : readLE d₁ (64 + 16 * cap + j / 8) 1 = readLE d (64 + 16 * cap + j / 8) 1 := by
          rw [hd₁, readLE_writeLE_of_disjoint (by omega) (by omega)]
        have hne : j ≠ i := by rintro rfl; exact hsame rfl
        simp only [mintedOf, poolHeader, hval, hne, decide_false, Bool.or_false]
    · have hne : j ≠ i := by omega
      simp [mintedOf, hj, hne]
  have habs : poolAbs cap d₁ =
      { poolAbs cap d with minted := fun j => mintedOf cap d j || decide (j = i) } := by
    simp only [poolAbs, PoolAbs.mk.injEq]
    refine ⟨?_, ?_, hminted⟩
    · refine drawableOf_congr (hread _ _ (by omega)) fun j hj => hread _ _ ?_
      have hlens := h.lens_le
      simp only [poolHeader]
      omega
    · refine incomingOf_congr h.cap_pos (hread _ _ (by omega)) (hread _ _ (by omega))
        fun k hk => ringCell_congr (hread _ _ ?_) (hread _ _ ?_)
      · simp only [poolHeader, incomingEntry]; omega
      · simp only [poolHeader, incomingEntry]; omega
  refine ⟨d₁, ?_, ⟨hl₁, by rw [habs]; exact ⟨h.valid.room, h.valid.drawable_lt,
    h.valid.incoming_lt, h.valid.sorted⟩⟩, habs⟩
  simp only [PoolView.markMinted, bind_eq_ok_iff, require_eq_ok_iff, pure_eq_ok_iff]
  refine ⟨(), hi, false, ?_, (), rfl, readLE d (64 + 16 * cap + i / 8) 1, ?_, d₁, ?_, rfl⟩
  · rw [h.isMinted_eq, hfresh]
  · exact rdByte_eq (by simp only [PoolView.bitmapOff, poolHeader]; omega)
  · rw [wrByte_eq (by simp only [PoolView.bitmapOff, poolHeader]; omega), hd₁]
    rfl

end Operations

end HybridVault
