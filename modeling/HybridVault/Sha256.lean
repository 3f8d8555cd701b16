import HybridVault.Ledger

/-!
# SHA-256

The hash behind `solana_sha256_hasher`, on byte lists: padding to 64-byte
blocks, the message schedule, and 64 rounds of compression on eight 32-bit words.
No result of the development depends on it — every theorem takes the hash as a
parameter of the deployment — but a concrete deployment needs a hash that
evaluates.
-/

namespace HybridVault.Sha256

open Foundations

/-- Rotate a 32-bit word right. -/
def rotr (x n : ℕ) : ℕ := (x >>> n) ||| ((x <<< (32 - n)) % u32Size)

/-- Addition of 32-bit words. -/
def add (x y : ℕ) : ℕ := (x + y) % u32Size

/-- The eight working words. -/
structure Words where
  a : ℕ
  b : ℕ
  c : ℕ
  d : ℕ
  e : ℕ
  f : ℕ
  g : ℕ
  h : ℕ

/-- The round constants. -/
def roundConstants : List ℕ := [
  0x428a2f98, 0x71374491, 0xb5c0fbcf, 0xe9b5dba5, 0x3956c25b, 0x59f111f1, 0x923f82a4, 0xab1c5ed5,
  0xd807aa98, 0x12835b01, 0x243185be, 0x550c7dc3, 0x72be5d74, 0x80deb1fe, 0x9bdc06a7, 0xc19bf174,
  0xe49b69c1, 0xefbe4786, 0x0fc19dc6, 0x240ca1cc, 0x2de92c6f, 0x4a7484aa, 0x5cb0a9dc, 0x76f988da,
  0x983e5152, 0xa831c66d, 0xb00327c8, 0xbf597fc7, 0xc6e00bf3, 0xd5a79147, 0x06ca6351, 0x14292967,
  0x27b70a85, 0x2e1b2138, 0x4d2c6dfc, 0x53380d13, 0x650a7354, 0x766a0abb, 0x81c2c92e, 0x92722c85,
  0xa2bfe8a1, 0xa81a664b, 0xc24b8b70, 0xc76c51a3, 0xd192e819, 0xd6990624, 0xf40e3585, 0x106aa070,
  0x19a4c116, 0x1e376c08, 0x2748774c, 0x34b0bcb5, 0x391c0cb3, 0x4ed8aa4a, 0x5b9cca4f, 0x682e6ff3,
  0x748f82ee, 0x78a5636f, 0x84c87814, 0x8cc70208, 0x90befffa, 0xa4506ceb, 0xbef9a3f7, 0xc67178f2]

/-- The initial working words. -/
def initial : Words :=
  ⟨0x6a09e667, 0xbb67ae85, 0x3c6ef372, 0xa54ff53a, 0x510e527f, 0x9b05688c, 0x1f83d9ab, 0x5be0cd19⟩

/-- Extend the message schedule by `n` words; the latest word is at the front. -/
def schedule : ℕ → List ℕ → List ℕ
  | 0, w => w.reverse
  | n + 1, w =>
      let x := w.getD 14 0
      let y := w.getD 1 0
      let s₀ := rotr x 7 ^^^ rotr x 18 ^^^ (x >>> 3)
      let s₁ := rotr y 17 ^^^ rotr y 19 ^^^ (y >>> 10)
      schedule n (((w.getD 15 0 + s₀ + w.getD 6 0 + s₁) % u32Size) :: w)

def round (s : Words) (k w : ℕ) : Words :=
  let s₁ := rotr s.e 6 ^^^ rotr s.e 11 ^^^ rotr s.e 25
  let ch := (s.e &&& s.f) ^^^ ((u32Size - 1 ^^^ s.e) &&& s.g)
  let t₁ := s.h + s₁ + ch + k + w
  let s₀ := rotr s.a 2 ^^^ rotr s.a 13 ^^^ rotr s.a 22
  let maj := (s.a &&& s.b) ^^^ (s.a &&& s.c) ^^^ (s.b &&& s.c)
  { a := add t₁ (s₀ + maj), b := s.a, c := s.b, d := s.c, e := add s.d t₁, f := s.e, g := s.f,
    h := s.g }

def rounds : Words → List ℕ → List ℕ → Words
  | s, k :: ks, w :: ws => rounds (round s k w) ks ws
  | s, _, _ => s

/-- Big-endian reading. -/
def beValue (b : Bytes) : ℕ := b.foldl (fun acc x => acc * 256 + x.toNat) 0

/-- Big-endian writing. -/
def beBytes (n v : ℕ) : Bytes := (leBytes n v).reverse

/-- The first `n` big-endian 32-bit words of a block. -/
def words : ℕ → Bytes → List ℕ
  | 0, _ => []
  | n + 1, b => beValue (b.take 4) :: words n (b.drop 4)

def compress (s : Words) (block : Bytes) : Words :=
  let t := rounds s roundConstants (schedule 48 (words 16 block).reverse)
  { a := add s.a t.a, b := add s.b t.b, c := add s.c t.c, d := add s.d t.d, e := add s.e t.e,
    f := add s.f t.f, g := add s.g t.g, h := add s.h t.h }

def compressAll : ℕ → Words → Bytes → Words
  | 0, s, _ => s
  | n + 1, s, b => compressAll n (compress s (b.take 64)) (b.drop 64)

/-- Pad to a multiple of 64 bytes, with the bit length at the end. -/
def pad (m : Bytes) : Bytes :=
  m ++ [0x80] ++ List.replicate ((119 - m.length % 64) % 64) 0 ++ beBytes 8 (8 * m.length)

/-- SHA-256. -/
def hash (m : Bytes) : Bytes32 :=
  let s := compressAll ((pad m).length / 64) initial (pad m)
  ⟨beBytes 4 s.a ++ beBytes 4 s.b ++ beBytes 4 s.c ++ beBytes 4 s.d ++ beBytes 4 s.e
    ++ beBytes 4 s.f ++ beBytes 4 s.g ++ beBytes 4 s.h, by simp [beBytes]⟩

/-- The digest of `"abc"`, from the standard. -/
example : beValue ((hash [97, 98, 99]).bytes.take 8) = 0xba7816bf8f01cfea := by decide +kernel

end HybridVault.Sha256
