import HybridVault.PoolSpec

/-!
# The pool account refines an abstract pool

The abstract pool is a list of drawable indices, a FIFO list of returning indices with
their tags, and a set of minted indices (`PoolAbs`).  Its operations say what the account
is for; those of `PoolView` do exactly that on what the bytes denote
(`poolView_refines`): the same result or the same error for every argument, never a
panic.

What an operation does not touch it leaves in place.  The operations on the two queues
write the header's counters, the slots and the ring (`KeepsBitmap`); minting writes one
byte of the bitmap (`KeepsQueues`).
-/

namespace HybridVault

open Foundations

/-! ## The abstract pool -/

namespace PoolAbs

/-- What a pool starts as: every index drawable, none minted. -/
def initial (cap : ℕ) : PoolAbs where
  drawable := List.range cap
  incoming := []
  minted := fun _ => false

def total (P : PoolAbs) : ℕ := P.drawable.length + P.incoming.length

/-- Append to the drawable indices. -/
def push (cap : ℕ) (P : PoolAbs) (i : ℕ) : Res PoolAbs := do
  check (P.total < cap) .AssetAccountingBroken
  check (i < cap) .IndexOutOfRange
  return { P with drawable := P.drawable ++ [i] }

/-- Take out position `i`; the last entry replaces it. -/
def swapRemove (P : PoolAbs) (i : ℕ) : Res (ℕ × PoolAbs) := do
  let picked ← expect P.drawable[i]? (.vault .NoAssetAvailable)
  return (picked, { P with drawable := Foundations.swapRemove P.drawable i })

/-- Append to the returning indices, with a tag not below the last one. -/
def incomingPush (cap : ℕ) (P : PoolAbs) (i tag : ℕ) : Res PoolAbs := do
  check (P.total < cap) .AssetAccountingBroken
  check (∀ e ∈ P.incoming.getLast?, e.2 ≤ tag) .AssetAccountingBroken
  return { P with incoming := P.incoming ++ [(i, tag)] }

/-- The returning indices that a merge moves: the longest prefix of at most `m` entries
with tag at most `t`. -/
def merged (P : PoolAbs) (t m : ℕ) : List (ℕ × ℕ) := (P.incoming.takeWhile fun e => e.2 ≤ t).take m

/-- Move them to the end of the drawable indices, in order. -/
def merge (P : PoolAbs) (t m : ℕ) : Res (ℕ × PoolAbs) :=
  return ((P.merged t m).length,
    { P with
      drawable := P.drawable ++ (P.merged t m).map Prod.fst
      incoming := P.incoming.drop (P.merged t m).length })

/-- Add to the minted indices, once. -/
def markMinted (cap : ℕ) (P : PoolAbs) (i : ℕ) : Res PoolAbs := do
  check (i < cap) .IndexOutOfRange
  check (P.minted i = false) .AlreadyMinted
  return { P with minted := fun j => P.minted j || decide (j = i) }

end PoolAbs

/-! ## What an operation leaves in place -/

/-- The discriminator, the vault key, the capacity, the reserved bytes and the bitmap are
the same. -/
def KeepsBitmap (cap : ℕ) (d d' : Bytes) : Prop :=
  ∀ o n, o + n ≤ 44 ∨ (56 ≤ o ∧ o + n ≤ 64) ∨ 64 + 16 * cap ≤ o → slice d' o n = slice d o n

/-- Everything before the bitmap is the same. -/
def KeepsQueues (cap : ℕ) (d d' : Bytes) : Prop :=
  ∀ o n, o + n ≤ 64 + 16 * cap → slice d' o n = slice d o n

theorem KeepsBitmap.refl (cap : ℕ) (d : Bytes) : KeepsBitmap cap d d := fun _ _ _ => rfl

theorem KeepsBitmap.trans {cap : ℕ} {d d' d'' : Bytes} (h : KeepsBitmap cap d d')
    (h' : KeepsBitmap cap d' d'') : KeepsBitmap cap d d'' :=
  fun o n hw => (h' o n hw).trans (h o n hw)

/-- A write to the counters, the slots or the ring. -/
theorem KeepsBitmap.writeLE {cap : ℕ} {d d' : Bytes} (h : KeepsBitmap cap d d') {o n v : ℕ}
    (hn : o + n ≤ d'.length) (hw : 44 ≤ o ∧ o + n ≤ 56 ∨ 64 ≤ o ∧ o + n ≤ 64 + 16 * cap) :
    KeepsBitmap cap d (Foundations.writeLE d' o n v) := fun o' n' hw' => by
  rw [slice_writeLE_of_disjoint hn (by omega), h o' n' hw']

section Frames

variable {vault : Bytes32} {cap : ℕ} {d : Bytes} {p : PoolView}

theorem poolLen_eq_ok_iff {n : ℕ} :
    p.poolLen = .ok n ↔ 48 ≤ p.d.length ∧ readLE p.d 44 4 = n := by
  simp [PoolView.poolLen, rdU32]

theorem le_of_total {n : ℕ} (htotal : p.total = .ok n) : readLE p.d 44 4 ≤ n := by
  simp only [PoolView.total, bind_eq_ok_iff, expect_eq_ok_iff, checkedAdd32_eq_some_iff,
    poolLen_eq_ok_iff] at htotal
  obtain ⟨_, ⟨-, rfl⟩, _, -, -, rfl⟩ := htotal
  exact Nat.le_add_right _ _

theorem poolPush_keeps {i : ℕ} (hok : PoolView.poolPush ⟨d, cap⟩ i = .ok p) :
    KeepsBitmap cap d p.d := by
  simp only [PoolView.poolPush, PoolView.poolSet, wrU32_eq_ok_iff, bind_eq_ok_iff,
    require_eq_ok_iff, pure_eq_ok_iff, poolLen_eq_ok_iff] at hok
  obtain ⟨total, htotal, -, hroom, -, -, _, ⟨-, rfl⟩, _, ⟨_, -, _, ⟨hslot, rfl⟩, rfl⟩, _, -, _,
    ⟨hlen, rfl⟩, rfl⟩ := hok
  have hle : readLE d 44 4 ≤ total := le_of_total htotal
  simp only [PoolView.poolOff, poolHeader] at hslot hlen ⊢
  exact ((KeepsBitmap.refl cap d).writeLE hslot (by omega)).writeLE hlen (by omega)

theorem WellFormed.poolSwapRemove_keeps (h : WellFormed vault cap d) {i x : ℕ}
    (hok : PoolView.poolSwapRemove ⟨d, cap⟩ i = .ok (x, p)) : KeepsBitmap cap d p.d := by
  have hlens := h.lens_le
  simp only [PoolView.poolSwapRemove, PoolView.poolSet, wrU32_eq_ok_iff, bind_eq_ok_iff,
    require_eq_ok_iff, pure_eq_ok_iff, h.poolLen_eq, Except.ok.injEq, Prod.mk.injEq] at hok
  obtain ⟨_, rfl, -, hi, _, -, _, -, _, -, _, ⟨_, -, _, ⟨hslot, rfl⟩, rfl⟩, _, -, _, ⟨hlen, rfl⟩,
    -, rfl⟩ := hok
  simp only [PoolView.poolOff, poolHeader] at hslot hlen ⊢
  exact ((KeepsBitmap.refl cap d).writeLE hslot (by omega)).writeLE hlen (by omega)

theorem incomingPush_keeps (hcap : 0 < cap) {i tag : ℕ}
    (hok : PoolView.incomingPush ⟨d, cap⟩ i tag = .ok p) : KeepsBitmap cap d p.d := by
  simp only [PoolView.incomingPush, wrU32_eq_ok_iff, wrU64_eq_ok_iff, bind_eq_ok_iff,
    require_eq_ok_iff, pure_eq_ok_iff] at hok
  obtain ⟨_, -, -, -, _, -, -, -, _, -, slot, -, _, ⟨hidx, rfl⟩, _, ⟨htag, rfl⟩, _, -, _,
    ⟨hlen, rfl⟩, rfl⟩ := hok
  have hcell := Nat.mod_lt slot hcap
  simp only [PoolView.incOff, poolHeader, incomingEntry] at hidx htag hlen ⊢
  exact (((KeepsBitmap.refl cap d).writeLE hidx (by omega)).writeLE htag (by omega)).writeLE hlen
    (by omega)

theorem mergeOne_keeps (hok : PoolView.mergeOne ⟨d, cap⟩ = .ok p) : KeepsBitmap cap d p.d := by
  simp only [PoolView.mergeOne, wrU32_eq_ok_iff, bind_eq_ok_iff] at hok
  obtain ⟨_, -, _, -, _, -, _, -, _, ⟨hhead, rfl⟩, _, -, _, ⟨hlen, rfl⟩, hpush⟩ := hok
  exact (((KeepsBitmap.refl cap d).writeLE hhead (by omega)).writeLE hlen (by omega)).trans
    (poolPush_keeps hpush)

/-- The induction follows the merge loop. -/
theorem WellFormed.merge_keeps (h : WellFormed vault cap d) {t m k : ℕ}
    (hok : PoolView.merge ⟨d, cap⟩ t m = .ok (k, p)) : KeepsBitmap cap d p.d := by
  induction m generalizing d k with
  | zero =>
      obtain ⟨-, rfl⟩ := Prod.mk.inj (Except.ok.inj hok)
      exact KeepsBitmap.refl cap d
  | succ m ih =>
      cases hinc : incomingOf cap d with
      | nil =>
          simp only [PoolView.merge, h.incomingFrontTag_eq, hinc, ok_bind, List.head?_nil,
            Option.map_none, pure_eq_ok_iff, Prod.mk.injEq] at hok
          obtain ⟨-, rfl⟩ := hok
          exact KeepsBitmap.refl cap d
      | cons e rest =>
          obtain ⟨d₁, hone, hwf₁, -⟩ := h.mergeOne_spec hinc
          simp only [PoolView.merge, h.incomingFrontTag_eq, hinc, ok_bind, List.head?_cons,
            Option.map_some, ite_eq_ok_iff, hone, bind_eq_ok_iff, pure_eq_ok_iff,
            Prod.mk.injEq] at hok
          rcases hok with ⟨-, ⟨k', q⟩, hrest, -, rfl⟩ | ⟨-, -, rfl⟩
          · exact (mergeOne_keeps hone).trans (ih hwf₁ hrest)
          · exact KeepsBitmap.refl cap d

theorem markMinted_keeps {i : ℕ} (hok : PoolView.markMinted ⟨d, cap⟩ i = .ok p) :
    KeepsQueues cap d p.d := by
  simp only [PoolView.markMinted, wrByte_eq_ok_iff, bind_eq_ok_iff, pure_eq_ok_iff] at hok
  obtain ⟨-, -, _, -, -, -, _, -, _, ⟨hbyte, rfl⟩, rfl⟩ := hok
  simp only [PoolView.bitmapOff, poolHeader] at hbyte ⊢
  exact fun o n hw => slice_writeLE_of_disjoint (by omega) (by omega)

end Frames

/-! ## The refinement -/

/-- A view of a well-formed account that denotes `P`. -/
structure Represents (vault : Bytes32) (cap : ℕ) (p : PoolView) (P : PoolAbs) : Prop where
  capacity : p.cap = cap
  wellFormed : WellFormed vault cap p.d
  denotes : poolAbs cap p.d = P

section Simulation

variable {vault : Bytes32} {cap : ℕ} {d : Bytes}

theorem WellFormed.poolPush_refines (h : WellFormed vault cap d) (i : ℕ) :
    Refines (fun p P => Represents vault cap p P ∧ KeepsBitmap cap d p.d)
      (PoolView.poolPush ⟨d, cap⟩ i) ((poolAbs cap d).push cap i) := by
  have htotal : PoolView.total ⟨d, cap⟩ = .ok (poolAbs cap d).total := by
    rw [h.total_eq, PoolAbs.total, poolAbs, length_drawableOf, length_incomingOf]
  by_cases hroom : (poolAbs cap d).total < cap
  · by_cases hi : i < cap
    · obtain ⟨d', hpush, hwf, habs⟩ := h.poolPush_spec hi hroom
      exact .of_ok hpush (by simp [PoolAbs.push, require_of hroom, require_of hi, ok_bind]; rfl)
        ⟨⟨rfl, hwf, habs⟩, poolPush_keeps hpush⟩
    · refine .of_error (e := .vault .IndexOutOfRange) ?_ ?_
      · simp only [PoolView.poolPush, htotal, ok_bind, require_of hroom, require_of_not hi,
          error_bind]
      · simp only [PoolAbs.push, require_of hroom, ok_bind, require_of_not hi, error_bind]
  · refine .of_error (e := .vault .AssetAccountingBroken) ?_ ?_
    · simp only [PoolView.poolPush, htotal, ok_bind, require_of_not hroom, error_bind]
    · simp only [PoolAbs.push, require_of_not hroom, error_bind]

theorem WellFormed.poolSwapRemove_refines (h : WellFormed vault cap d) (i : ℕ) :
    Refines (fun r s => r.1 = s.1 ∧ Represents vault cap r.2 s.2 ∧ KeepsBitmap cap d r.2.d)
      (PoolView.poolSwapRemove ⟨d, cap⟩ i) ((poolAbs cap d).swapRemove i) := by
  by_cases hi : i < (drawableOf d).length
  · obtain ⟨d', hremove, hwf, habs⟩ := h.poolSwapRemove_spec hi
    have hpick : (poolAbs cap d).swapRemove i = .ok ((drawableOf d)[i],
        { poolAbs cap d with drawable := Foundations.swapRemove (drawableOf d) i }) := by
      simp only [PoolAbs.swapRemove, poolAbs, List.getElem?_eq_getElem hi]
      rfl
    exact .of_ok hremove hpick ⟨rfl, ⟨rfl, hwf, habs⟩, h.poolSwapRemove_keeps hremove⟩
  · refine .of_error (e := .vault .NoAssetAvailable) ?_ ?_
    · have hlen : ¬ i < readLE d 44 4 := by simpa using hi
      simp only [PoolView.poolSwapRemove, h.poolLen_eq, ok_bind, require_of_not hlen, error_bind]
    · simp only [PoolAbs.swapRemove, poolAbs, List.getElem?_eq_none (not_lt.mp hi)]
      rfl

/-- The tag check compares with the last entry of the ring. -/
theorem WellFormed.checkBackTag_eq_check (h : WellFormed vault cap d) (tag : ℕ) :
    PoolView.checkBackTag ⟨d, cap⟩ (readLE d 52 4) tag
      = check (∀ e ∈ (incomingOf cap d).getLast?, e.2 ≤ tag) .AssetAccountingBroken := by
  have hcap := h.toLayout.cap_lt
  have hlens := h.lens_le
  have hhead := h.head_lt
  have hsize := h.size_eq
  cases hlen : readLE d 52 4 with
  | zero =>
      have hnil : incomingOf cap d = [] := by rw [incomingOf, hlen]; rfl
      rw [hnil]
      rfl
  | succ m =>
      have hlast :
          (incomingOf cap d).getLast? = some (ringCell cap d ((readLE d 48 4 + m) % cap)) := by
        rw [incomingOf, hlen, ringList, List.range_succ, List.map_append]
        simp
      have hmod := Nat.mod_lt (readLE d 48 4 + m) h.cap_pos
      have hread : rdU64 d (PoolView.incOff ⟨d, cap⟩ ((readLE d 48 4 + m) % cap) + 4)
          = .ok (ringCell cap d ((readLE d 48 4 + m) % cap)).2 := by
        apply rdU64_eq
        simp only [PoolView.incOff, poolHeader, incomingEntry]
        omega
      have hadd : addU32 (readLE d 48 4) (m + 1) = .ok (readLE d 48 4 + m + 1) :=
        addU32_eq (by simp only [u32Size]; omega)
      have hsub : subU32 (readLE d 48 4 + m + 1) 1 = .ok (readLE d 48 4 + m) :=
        subU32_eq (Nat.le_add_left 1 _)
      simp only [PoolView.checkBackTag, Nat.succ_pos, if_true, h.incomingHead_eq, ok_bind, hadd,
        hsub, hread, hlast]
      exact require_congr (by simp)

theorem WellFormed.incomingPush_refines (h : WellFormed vault cap d) {i tag : ℕ} (hi : i < cap)
    (htag : tag < u64Size) :
    Refines (fun p P => Represents vault cap p P ∧ KeepsBitmap cap d p.d)
      (PoolView.incomingPush ⟨d, cap⟩ i tag) ((poolAbs cap d).incomingPush cap i tag) := by
  have htotal : PoolView.total ⟨d, cap⟩ = .ok (poolAbs cap d).total := by
    rw [h.total_eq, PoolAbs.total, poolAbs, length_drawableOf, length_incomingOf]
  by_cases hroom : (poolAbs cap d).total < cap
  · by_cases hback : ∀ e ∈ (poolAbs cap d).incoming.getLast?, e.2 ≤ tag
    · have hcheck := (h.checkBackTag_eq_check tag).trans (require_of hback)
      obtain ⟨d', hpush, hwf, habs⟩ :=
        h.incomingPush_spec hi htag hroom (h.le_of_checkBackTag hcheck)
      refine .of_ok hpush ?_ ⟨⟨rfl, hwf, habs⟩, incomingPush_keeps h.cap_pos hpush⟩
      simp only [PoolAbs.incomingPush, require_of hroom, require_of hback, ok_bind]
      rfl
    · have hcheck := (h.checkBackTag_eq_check tag).trans (require_of_not hback)
      refine .of_error (e := .vault .AssetAccountingBroken) ?_ ?_
      · simp only [PoolView.incomingPush, htotal, ok_bind, require_of hroom, h.incomingLen_eq,
          hcheck, error_bind]
      · simp only [PoolAbs.incomingPush, require_of hroom, ok_bind, require_of_not hback,
          error_bind]
  · refine .of_error (e := .vault .AssetAccountingBroken) ?_ ?_
    · simp only [PoolView.incomingPush, htotal, ok_bind, require_of_not hroom, error_bind]
    · simp only [PoolAbs.incomingPush, require_of_not hroom, error_bind]

theorem WellFormed.merge_refines (h : WellFormed vault cap d) (t m : ℕ) :
    Refines (fun r s => r.1 = s.1 ∧ Represents vault cap r.2 s.2 ∧ KeepsBitmap cap d r.2.d)
      (PoolView.merge ⟨d, cap⟩ t m) ((poolAbs cap d).merge t m) := by
  obtain ⟨k, d', hmerge, hwf, hk, habs⟩ := h.merge_spec t m
  have hprefix := List.prefix_iff_eq_take.mp
    (List.takeWhile_prefix (l := incomingOf cap d) fun e => decide (e.2 ≤ t))
  have hmerged : (poolAbs cap d).merged t m = (incomingOf cap d).take k := by
    rw [PoolAbs.merged, poolAbs, hprefix, List.take_take, ← hk]
  have hlen : ((incomingOf cap d).take k).length = k := by
    have := (List.takeWhile_prefix (l := incomingOf cap d) fun e => decide (e.2 ≤ t)).length_le
    rw [List.length_take]
    omega
  refine .of_ok hmerge rfl ⟨?_, ⟨rfl, hwf, ?_⟩, h.merge_keeps hmerge⟩
  · simp only [hmerged, hlen]
  · simp only [hmerged, hlen, habs]
    rfl

theorem WellFormed.markMinted_refines (h : WellFormed vault cap d) (i : ℕ) :
    Refines (fun p P => Represents vault cap p P ∧ KeepsQueues cap d p.d)
      (PoolView.markMinted ⟨d, cap⟩ i) ((poolAbs cap d).markMinted cap i) := by
  by_cases hi : i < cap
  · by_cases hfresh : (poolAbs cap d).minted i = false
    · obtain ⟨d', hmark, hwf, habs⟩ := h.markMinted_spec hi hfresh
      refine .of_ok hmark ?_ ⟨⟨rfl, hwf, habs⟩, markMinted_keeps hmark⟩
      simp only [PoolAbs.markMinted, require_of hi, require_of hfresh, ok_bind]
      rfl
    · refine .of_error (e := .vault .AlreadyMinted) ?_ ?_
      · have hset : ¬ mintedOf cap d i = false := hfresh
        simp only [PoolView.markMinted, require_of hi, ok_bind, h.isMinted_eq,
          require_of_not hset, error_bind]
      · simp only [PoolAbs.markMinted, require_of hi, ok_bind, require_of_not hfresh, error_bind]
  · refine .of_error (e := .vault .IndexOutOfRange) ?_ ?_
    · simp only [PoolView.markMinted, require_of_not hi, error_bind]
    · simp only [PoolAbs.markMinted, require_of_not hi, error_bind]

end Simulation

/-- **The pool account refines the abstract pool.**  A zeroed account becomes the initial
pool; from every well-formed account each operation does what it does on the abstract
pool, with the same errors, and leaves what it does not name in place. -/
theorem poolView_refines (vault : Bytes32) (cap : ℕ) (hpos : 0 < cap) (hle : cap ≤ maxCapacity) :
    (∃ d, poolInit (List.replicate (poolAccountSize cap) 0) vault cap = .ok d ∧
      Represents vault cap ⟨d, cap⟩ (PoolAbs.initial cap)) ∧
    ∀ d, WellFormed vault cap d →
      (∀ i, Refines (fun p P => Represents vault cap p P ∧ KeepsBitmap cap d p.d)
        (PoolView.poolPush ⟨d, cap⟩ i) ((poolAbs cap d).push cap i)) ∧
      (∀ i, Refines (fun r s => r.1 = s.1 ∧ Represents vault cap r.2 s.2 ∧ KeepsBitmap cap d r.2.d)
        (PoolView.poolSwapRemove ⟨d, cap⟩ i) ((poolAbs cap d).swapRemove i)) ∧
      (∀ i tag, i < cap → tag < u64Size →
        Refines (fun p P => Represents vault cap p P ∧ KeepsBitmap cap d p.d)
          (PoolView.incomingPush ⟨d, cap⟩ i tag) ((poolAbs cap d).incomingPush cap i tag)) ∧
      (∀ t m, Refines
        (fun r s => r.1 = s.1 ∧ Represents vault cap r.2 s.2 ∧ KeepsBitmap cap d r.2.d)
        (PoolView.merge ⟨d, cap⟩ t m) ((poolAbs cap d).merge t m)) ∧
      (∀ i, Refines (fun p P => Represents vault cap p P ∧ KeepsQueues cap d p.d)
        (PoolView.markMinted ⟨d, cap⟩ i) ((poolAbs cap d).markMinted cap i)) := by
  constructor
  · obtain ⟨d, hinit, hwf, hdrawable, hincoming, hminted, -⟩ := poolInit_spec vault hpos hle
    refine ⟨d, hinit, rfl, hwf, ?_⟩
    rw [poolAbs, PoolAbs.initial, hdrawable, hincoming, show mintedOf cap d = fun _ => false from
      funext hminted]
  · intro d h
    exact ⟨h.poolPush_refines, h.poolSwapRemove_refines,
      fun i tag hi htag => h.incomingPush_refines hi htag, h.merge_refines, h.markMinted_refines⟩

/-- Drawing the middle one of three. -/
theorem poolView_refines_three :
    ∃ d d', poolInit (List.replicate (poolAccountSize 3) 0) Bytes32.zero 3 = .ok d ∧
      PoolView.poolSwapRemove ⟨d, 3⟩ 1 = .ok (1, ⟨d', 3⟩) ∧ drawableOf d' = [0, 2] := by
  obtain ⟨⟨d, hinit, hrep⟩, hops⟩ := poolView_refines Bytes32.zero 3 (by decide) (by decide)
  have hremove := (hops d hrep.wellFormed).2.1 1
  rw [hrep.denotes] at hremove
  obtain ⟨⟨picked, d', cap⟩, hok, rfl, ⟨rfl, -, hdenotes⟩, -⟩ := hremove.exists_ok
  exact ⟨d, d', hinit, hok, congrArg PoolAbs.drawable hdenotes⟩

end HybridVault
