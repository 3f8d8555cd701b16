import Mathlib.Data.Nat.Bitwise
import Mathlib.Tactic.Ring

/-!
# Fixed-offset byte codecs

A buffer is a `List UInt8`.  Raw account layouts read and write it at fixed
offsets, so the whole theory is two operations on lists and two on numbers:

* `slice` — the `n` entries from offset `o`;
* `splice` — overwrite from offset `o`, in place;
* `leBytes` / `leValue` — little-endian encoding on a fixed number of bytes;
* `readLE` / `writeLE` — the two compositions.

A write is visible to a read of the same window (`readLE_writeLE_same`) and
invisible to a read of any window disjoint from it
(`readLE_writeLE_of_disjoint`).  Nothing else is ever needed of a layout: its
fields are windows, and disjointness of windows is linear arithmetic.  Windows
filled together are all read back if none overlaps another (`slice_writeAll`).
-/

namespace Foundations

universe u

variable {α : Type u}

/-- A raw byte buffer. -/
abbrev Bytes := List UInt8

/-- The `n` entries of `d` from offset `o`. -/
def slice (d : List α) (o n : ℕ) : List α := (d.drop o).take n

/-- Overwrite `d` with `b` from offset `o`. -/
def splice (d : List α) (o : ℕ) (b : List α) : List α :=
  d.take o ++ b ++ d.drop (o + b.length)

/-! ## Windows -/

theorem length_slice {d : List α} {o n : ℕ} (h : o + n ≤ d.length) :
    (slice d o n).length = n := by
  simp only [slice, List.length_take, List.length_drop]
  omega

theorem getElem?_slice (d : List α) (o n i : ℕ) :
    (slice d o n)[i]? = if i < n then d[o + i]? else none := by
  simp [slice, List.getElem?_take, List.getElem?_drop]

theorem length_splice {d b : List α} {o : ℕ} (h : o + b.length ≤ d.length) :
    (splice d o b).length = d.length := by
  simp only [splice, List.length_append, List.length_take, List.length_drop]
  omega

theorem getElem?_splice {d b : List α} {o : ℕ} (h : o + b.length ≤ d.length)
    (i : ℕ) :
    (splice d o b)[i]? =
      if i < o then d[i]? else if i < o + b.length then b[i - o]? else d[i]? := by
  have hlen : (d.take o).length = o := by simp; omega
  rw [splice, List.append_assoc, List.getElem?_append, hlen]
  by_cases hi : i < o
  · simp [hi]
  · rw [if_neg hi, if_neg hi, List.getElem?_append]
    by_cases hb : i < o + b.length
    · rw [if_pos (by omega), if_pos hb]
    · rw [if_neg (by omega), if_neg hb, List.getElem?_drop]
      congr 1
      omega

/-- A write is read back from its own window. -/
theorem slice_splice_same {d b : List α} {o : ℕ} (h : o + b.length ≤ d.length) :
    slice (splice d o b) o b.length = b := by
  apply List.ext_getElem?
  intro i
  rw [getElem?_slice, getElem?_splice h]
  by_cases hi : i < b.length
  · rw [if_pos hi, if_neg (by omega), if_pos (by omega)]
    congr 1
    omega
  · rw [if_neg hi, List.getElem?_eq_none (by omega)]

/-- A write is invisible to a read of a disjoint window. -/
theorem slice_splice_of_disjoint {d b : List α} {o o' n : ℕ}
    (h : o + b.length ≤ d.length) (hd : o' + n ≤ o ∨ o + b.length ≤ o') :
    slice (splice d o b) o' n = slice d o' n := by
  apply List.ext_getElem?
  intro i
  rw [getElem?_slice, getElem?_slice, getElem?_splice h]
  by_cases hi : i < n
  · rw [if_pos hi, if_pos hi]
    rcases hd with hd | hd
    · rw [if_pos (by omega)]
    · rw [if_neg (by omega), if_neg (by omega)]
  · rw [if_neg hi, if_neg hi]

/-- A window of a concatenation that lies inside the middle part. -/
theorem slice_append_middle (a b c : List α) :
    slice (a ++ b ++ c) a.length b.length = b := by
  simp [slice]

/-- A window of a concatenation that lies inside the first part. -/
theorem slice_append_left {a b : List α} {o n : ℕ} (h : o + n ≤ a.length) :
    slice (a ++ b) o n = slice a o n := by
  rw [slice, slice, List.drop_append_of_le_length (by omega), List.take_append_of_le_length]
  rw [List.length_drop]
  omega

/-- Of several parts in a row, each is in the window behind those before it. -/
theorem slice_flatten_append {parts : List (List α)} {i : ℕ} {part : List α}
    (hi : parts[i]? = some part) (rest : List α) :
    slice (parts.flatten ++ rest) ((parts.map List.length).take i).sum part.length = part := by
  obtain ⟨hlt, rfl⟩ := List.getElem?_eq_some_iff.mp hi
  have hflat : parts.flatten ++ rest
      = (parts.take i).flatten ++ parts[i] ++ ((parts.drop (i + 1)).flatten ++ rest) := by
    nth_rewrite 1 [← List.take_append_drop i parts]
    rw [List.drop_eq_getElem_cons hlt, List.flatten_append, List.flatten_cons]
    simp only [List.append_assoc]
  have hlen : ((parts.map List.length).take i).sum = (parts.take i).flatten.length := by
    rw [List.length_flatten, List.map_take]
  rw [hflat, hlen]
  exact slice_append_middle ..

/-- A concatenation of blocks of one length determines the blocks. -/
theorem flatMap_inj {β : Type u} {f : β → List α} {n : ℕ} (hlen : ∀ b, (f b).length = n)
    (hinj : Function.Injective f) {l l' : List β} (hl : l.length = l'.length)
    (h : l.flatMap f = l'.flatMap f) : l = l' := by
  induction l generalizing l' with
  | nil => exact (List.length_eq_zero_iff.mp hl.symm).symm
  | cons b l ih =>
      obtain ⟨b', l', rfl⟩ := List.exists_cons_of_length_eq_add_one hl.symm
      rw [List.flatMap_cons, List.flatMap_cons] at h
      obtain ⟨hb, hrest⟩ := List.append_inj h (by rw [hlen, hlen])
      rw [hinj hb, ih (by simpa using hl) hrest]

/-! ## Several windows -/

/-- Two windows, with what is to be written there, do not overlap. -/
def Apart (w v : ℕ × List α) : Prop := w.1 + w.2.length ≤ v.1 ∨ v.1 + v.2.length ≤ w.1

/-- Fill several windows. -/
def writeAll (d : List α) : List (ℕ × List α) → List α
  | [] => d
  | w :: ws => writeAll (splice d w.1 w.2) ws

/-- Windows inside a buffer of `n` entries that do not overlap. -/
structure Fits (n : ℕ) (ws : List (ℕ × List α)) : Prop where
  inside : ∀ w ∈ ws, w.1 + w.2.length ≤ n
  apart : ws.Pairwise Apart

theorem Fits.tail {n : ℕ} {w : ℕ × List α} {ws : List (ℕ × List α)} (h : Fits n (w :: ws)) :
    Fits n ws :=
  ⟨fun v hv => h.inside v (List.mem_cons_of_mem w hv), (List.pairwise_cons.mp h.apart).2⟩

theorem length_writeAll {d : List α} {ws : List (ℕ × List α)} (h : Fits d.length ws) :
    (writeAll d ws).length = d.length := by
  induction ws generalizing d with
  | nil => rfl
  | cons w ws ih =>
      have hlen := length_splice (h.inside w (List.mem_cons_self ..))
      rw [writeAll, ih (by rw [hlen]; exact h.tail), hlen]

/-- What is apart from every window is left alone. -/
theorem slice_writeAll_of_apart {d : List α} {ws : List (ℕ × List α)} {o n : ℕ}
    (h : Fits d.length ws) (ho : ∀ w ∈ ws, w.1 + w.2.length ≤ o ∨ o + n ≤ w.1) :
    slice (writeAll d ws) o n = slice d o n := by
  induction ws generalizing d with
  | nil => rfl
  | cons w ws ih =>
      have hinside := h.inside w (List.mem_cons_self ..)
      have htail : Fits (splice d w.1 w.2).length ws := by
        rw [length_splice hinside]
        exact h.tail
      rw [writeAll, ih htail fun v hv => ho v (List.mem_cons_of_mem w hv),
        slice_splice_of_disjoint hinside (ho w (List.mem_cons_self ..)).symm]

/-- **Each window holds what was written there**, whatever the buffer held before. -/
theorem slice_writeAll {d : List α} {ws : List (ℕ × List α)} {w : ℕ × List α}
    (h : Fits d.length ws) (hw : w ∈ ws) : slice (writeAll d ws) w.1 w.2.length = w.2 := by
  induction ws generalizing d with
  | nil => cases hw
  | cons v ws ih =>
      have hinside := h.inside v (List.mem_cons_self ..)
      have htail : Fits (splice d v.1 v.2).length ws := by
        rw [length_splice hinside]
        exact h.tail
      rcases List.mem_cons.mp hw with rfl | hw
      · rw [writeAll, slice_writeAll_of_apart htail, slice_splice_same hinside]
        intro u hu
        exact ((List.pairwise_cons.mp h.apart).1 u hu).symm
      · rw [writeAll]
        exact ih htail hw

/-! ## Little-endian numbers -/

/-- The number a byte string denotes, least significant byte first. -/
def leValue : Bytes → ℕ
  | [] => 0
  | b :: bs => b.toNat + 256 * leValue bs

/-- The first `n` little-endian bytes of `v`. -/
def leBytes : ℕ → ℕ → Bytes
  | 0, _ => []
  | n + 1, v => UInt8.ofNat (v % 256) :: leBytes n (v / 256)

@[simp] theorem length_leBytes (n v : ℕ) : (leBytes n v).length = n := by
  induction n generalizing v with
  | zero => rfl
  | succ n ih => simp [leBytes, ih]

theorem leValue_lt (b : Bytes) : leValue b < 256 ^ b.length := by
  induction b with
  | nil => simp [leValue]
  | cons x b ih =>
      have hx : x.toNat < 256 := x.toNat_lt
      have hpow : 256 ^ (x :: b).length = 256 * 256 ^ b.length := by
        rw [List.length_cons, pow_succ]; ring
      rw [hpow]
      simp only [leValue]
      omega

theorem leValue_leBytes {n v : ℕ} (h : v < 256 ^ n) : leValue (leBytes n v) = v := by
  induction n generalizing v with
  | zero =>
      have : v = 0 := by simpa using h
      simp [leBytes, leValue, this]
  | succ n ih =>
      have hdiv : v / 256 < 256 ^ n := by
        rw [Nat.div_lt_iff_lt_mul (by norm_num)]
        simpa [pow_succ] using h
      have hbyte : (UInt8.ofNat (v % 256)).toNat = v % 256 := by
        simp [UInt8.toNat_ofNat']
      simp only [leBytes, leValue, ih hdiv, hbyte]
      omega

theorem leBytes_inj {n v w : ℕ} (hv : v < 256 ^ n) (hw : w < 256 ^ n)
    (h : leBytes n v = leBytes n w) : v = w := by
  rw [← leValue_leBytes hv, h, leValue_leBytes hw]

/-! ## Numbers in a window -/

/-- Read `n` little-endian bytes at offset `o`. -/
def readLE (d : Bytes) (o n : ℕ) : ℕ := leValue (slice d o n)

/-- Write `v` on `n` little-endian bytes at offset `o`. -/
def writeLE (d : Bytes) (o n v : ℕ) : Bytes := splice d o (leBytes n v)

theorem readLE_lt (d : Bytes) (o n : ℕ) : readLE d o n < 256 ^ n := by
  refine lt_of_lt_of_le (leValue_lt _) (Nat.pow_le_pow_right (by norm_num) ?_)
  simp [slice]

theorem length_writeLE {d : Bytes} {o n v : ℕ} (h : o + n ≤ d.length) :
    (writeLE d o n v).length = d.length :=
  length_splice (by simpa using h)

theorem readLE_writeLE_same {d : Bytes} {o n v : ℕ} (h : o + n ≤ d.length)
    (hv : v < 256 ^ n) : readLE (writeLE d o n v) o n = v := by
  have hs := slice_splice_same (d := d) (b := leBytes n v) (o := o) (by simpa using h)
  rw [length_leBytes] at hs
  rw [readLE, writeLE, hs, leValue_leBytes hv]

theorem readLE_writeLE_of_disjoint {d : Bytes} {o n v o' n' : ℕ}
    (h : o + n ≤ d.length) (hd : o' + n' ≤ o ∨ o + n ≤ o') :
    readLE (writeLE d o n v) o' n' = readLE d o' n' := by
  rw [readLE, readLE, writeLE, slice_splice_of_disjoint (by simpa using h) (by simpa using hd)]

theorem slice_writeLE_of_disjoint {d : Bytes} {o n v o' n' : ℕ}
    (h : o + n ≤ d.length) (hd : o' + n' ≤ o ∨ o + n ≤ o') :
    slice (writeLE d o n v) o' n' = slice d o' n' := by
  rw [writeLE, slice_splice_of_disjoint (by simpa using h) (by simpa using hd)]

/-- A window of zeros denotes zero. -/
theorem readLE_replicate_zero (len o n : ℕ) : readLE (List.replicate len 0) o n = 0 := by
  rw [readLE, slice, List.drop_replicate, List.take_replicate]
  generalize min n (len - o) = k
  induction k with
  | zero => rfl
  | succ k ih => simp [List.replicate_succ, leValue, ih]

/-! ## One bit of a byte -/

/-- The mask test on a byte reads one bit. -/
theorem and_shiftLeft_ne_zero_iff (b k : ℕ) : b &&& (1 <<< k) ≠ 0 ↔ b.testBit k := by
  rw [Nat.one_shiftLeft, Nat.and_two_pow]
  cases h : b.testBit k <;> simp

/-- Setting a bit of a byte changes that bit only. -/
theorem testBit_or_shiftLeft (b k j : ℕ) :
    (b ||| (1 <<< k)).testBit j = (b.testBit j || decide (k = j)) := by
  rw [Nat.one_shiftLeft, Nat.testBit_or, Nat.testBit_two_pow]

theorem or_shiftLeft_lt {b k : ℕ} (hb : b < 256) (hk : k < 8) : b ||| (1 <<< k) < 256 := by
  have h : 1 <<< k < 2 ^ 8 := by
    rw [Nat.one_shiftLeft]
    exact Nat.pow_lt_pow_right (by norm_num) hk
  exact Nat.or_lt_two_pow (n := 8) hb h

/-- `u8::count_ones`. -/
def countOnes (b : UInt8) : ℕ := (List.range 8).countP fun k => b.toNat.testBit k

/-- **The ones of a window of bytes are the bits set in it.** -/
theorem sum_countOnes_slice {d : Bytes} {o n : ℕ} (h : o + n ≤ d.length) :
    ((slice d o n).map countOnes).sum
      = (List.range (8 * n)).countP fun j => (readLE d (o + j / 8) 1).testBit (j % 8) := by
  induction n with
  | zero => simp [slice]
  | succ n ih =>
      have hlt : o + n < d.length := by omega
      have hslice : slice d o (n + 1) = slice d o n ++ [d[o + n]] := by
        have hdrop : (d.drop o)[n]? = some d[o + n] := by
          rw [List.getElem?_drop, List.getElem?_eq_getElem hlt]
        rw [slice, List.take_add_one, hdrop]
        rfl
      have hbyte : readLE d (o + n) 1 = d[o + n].toNat := by
        rw [readLE, slice, List.drop_eq_getElem_cons hlt, List.take_succ_cons, List.take_zero,
          leValue]
        rfl
      rw [hslice, List.map_append, List.sum_append, ih (by omega), Nat.mul_succ, List.range_add,
        List.countP_append, List.countP_map]
      congr 1
      simp only [List.map_cons, List.map_nil, List.sum_singleton, countOnes]
      apply List.countP_congr
      intro k hk
      have hk : k < 8 := List.mem_range.mp hk
      have hdiv : (8 * n + k) / 8 = n := by omega
      have hmod : (8 * n + k) % 8 = k := by omega
      simp only [Function.comp_apply, hdiv, hmod, hbyte]

end Foundations
