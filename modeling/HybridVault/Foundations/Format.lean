import HybridVault.Foundations.Codec
import Mathlib.Logic.Equiv.Defs

/-!
# Formats

A format is a writer and a reader of one type.  The reader takes its value off the front
of a string and leaves the rest.  One law covers both directions (`read_eq_some_iff`): it
reads a value off a string exactly if the string starts with what the writer writes for
that value.  So a value written is read back whatever follows, and nothing else is ever read
as that value.

Records are formats put one after the other (`seq`), read into another type (`map`) and
put behind a tag (`tagged`); each keeps the law.
-/

namespace Foundations

universe u v w

/-- A writer and a reader that agree. -/
structure Format (σ : Type u) (α : Type v) where
  write : α → List σ
  read : List σ → Option (α × List σ)
  read_eq_some_iff : ∀ {d : List σ} {a : α} {rest : List σ},
    read d = some (a, rest) ↔ d = write a ++ rest

namespace Format

variable {σ : Type u} {α : Type v} {β : Type w}

theorem read_write (f : Format σ α) (a : α) (rest : List σ) :
    f.read (f.write a ++ rest) = some (a, rest) :=
  f.read_eq_some_iff.mpr rfl

/-- What is read, when the rest is not asked for. -/
theorem map_fst_read_eq_some_iff (f : Format σ α) {d : List σ} {a : α} :
    (f.read d).map Prod.fst = some a ↔ ∃ rest, d = f.write a ++ rest := by
  constructor
  · intro h
    obtain ⟨⟨a', rest⟩, hread, rfl⟩ := Option.map_eq_some_iff.mp h
    exact ⟨rest, f.read_eq_some_iff.mp hread⟩
  · rintro ⟨rest, rfl⟩
    rw [f.read_write]
    rfl

/-! ## The parts of a record -/

/-- One symbol. -/
def symbol : Format σ σ where
  write a := [a]
  read
    | [] => none
    | a :: rest => some (a, rest)
  read_eq_some_iff := by
    intro d a rest
    cases d <;> simp

/-- A string of `n` symbols. -/
def block (n : ℕ) : Format σ {b : List σ // b.length = n} where
  write b := b.val
  read d := if h : n ≤ d.length then some (⟨d.take n, List.length_take_of_le h⟩, d.drop n) else none
  read_eq_some_iff := by
    rintro d ⟨b, rfl⟩ rest
    constructor
    · intro h
      split at h
      · obtain ⟨hb, rfl⟩ := Prod.mk.inj (Option.some.inj h)
        have hb : d.take b.length = b := congrArg Subtype.val hb
        show d = b ++ d.drop b.length
        nth_rewrite 1 [← List.take_append_drop b.length d]
        rw [hb]
      · cases h
    · rintro rfl
      simp

/-- One value after another. -/
def seq (f : Format σ α) (g : Format σ β) : Format σ (α × β) where
  write p := f.write p.1 ++ g.write p.2
  read d := (f.read d).bind fun (a, d) => (g.read d).map fun (b, d) => ((a, b), d)
  read_eq_some_iff := by
    rintro d ⟨a, b⟩ rest
    simp only [Option.bind_eq_some_iff, Option.map_eq_some_iff, Prod.mk.injEq, Prod.exists]
    constructor
    · rintro ⟨a', d', ha, b', rest', hb, ⟨rfl, rfl⟩, rfl⟩
      rw [f.read_eq_some_iff.mp ha, g.read_eq_some_iff.mp hb, List.append_assoc]
    · rintro rfl
      refine ⟨a, g.write b ++ rest, ?_, b, rest, g.read_write b rest, ⟨rfl, rfl⟩, rfl⟩
      rw [List.append_assoc]
      exact f.read_write a _

/-- The same strings, for another type. -/
def map (f : Format σ α) (e : α ≃ β) : Format σ β where
  write b := f.write (e.symm b)
  read d := (f.read d).map fun (a, d) => (e a, d)
  read_eq_some_iff := by
    intro d b rest
    simp only [Option.map_eq_some_iff, Prod.mk.injEq, Prod.exists]
    constructor
    · rintro ⟨a, rest', ha, rfl, rfl⟩
      rw [f.read_eq_some_iff.mp ha, Equiv.symm_apply_apply]
    · rintro rfl
      exact ⟨e.symm b, rest, f.read_write _ rest, e.apply_symm_apply b, rfl⟩

/-- Behind a fixed tag. -/
def tagged [DecidableEq σ] (tag : List σ) (f : Format σ α) : Format σ α where
  write a := tag ++ f.write a
  read d := if d.take tag.length = tag then f.read (d.drop tag.length) else none
  read_eq_some_iff := by
    intro d a rest
    constructor
    · intro h
      split at h
      · rename_i htag
        rw [List.append_assoc, ← f.read_eq_some_iff.mp h]
        nth_rewrite 1 [← List.take_append_drop tag.length d]
        rw [htag]
      · cases h
    · rintro rfl
      simp [f.read_write]

end Format

/-! ## Little-endian numbers -/

/-- Every byte string is the encoding of the number it denotes. -/
theorem leBytes_leValue (b : Bytes) : leBytes b.length (leValue b) = b := by
  induction b with
  | nil => rfl
  | cons x b ih =>
      have hx : x.toNat < 256 := x.toNat_lt
      have hlow : (x.toNat + 256 * leValue b) % 256 = x.toNat := by omega
      have hhigh : (x.toNat + 256 * leValue b) / 256 = leValue b := by omega
      rw [List.length_cons, leValue, leBytes, hlow, hhigh, ih, UInt8.ofNat_toNat]

/-- The numbers of `n` bytes. -/
def leEquiv (n : ℕ) : {b : Bytes // b.length = n} ≃ Fin (256 ^ n) where
  toFun b := ⟨leValue b.val, by
    have hlt := leValue_lt b.val
    rwa [b.property] at hlt⟩
  invFun v := ⟨leBytes n v, length_leBytes n v⟩
  left_inv := by
    rintro ⟨b, rfl⟩
    exact Subtype.ext (leBytes_leValue b)
  right_inv v := Fin.ext (leValue_leBytes v.isLt)

namespace Format

def u64 : Format UInt8 UInt64 :=
  ((block 8).map (leEquiv 8)).map
    ⟨fun v => UInt64.ofNatLT v.val v.isLt, fun v => ⟨v.toNat, v.toNat_lt⟩,
      fun _ => rfl, fun _ => rfl⟩

def i64 : Format UInt8 Int64 :=
  u64.map ⟨Int64.ofUInt64, Int64.toUInt64, fun _ => rfl, fun _ => rfl⟩

end Format

end Foundations
