import HybridVault.Ledger

/-!
# The raw pool account

The pool lives in one byte buffer with hand-computed offsets:

* `[0..8)` discriminator, `[8..40)` vault key, `[40..44)` capacity,
  `[44..48)` pool length, `[48..52)` ring head, `[52..56)` ring length;
* `[64 .. 64+4*cap)` the pool slots, `u32`, where `0` stands for the slot's own
  position and any other value for that value minus one;
* `[64+4*cap .. 64+16*cap)` the incoming ring of `(u32 index, u64 tag)`;
* `[64+16*cap ..)` the minted bitmap.

The operations below are those of `PoolView`, byte for byte, panics included.
What they mean is the subject of `HybridVault.PoolSpec`.
-/

namespace HybridVault

open Foundations

/-- `b"hvpool02"`. -/
def poolDiscriminator : Bytes := [104, 118, 112, 111, 111, 108, 48, 50]

def poolHeader : ℕ := 64

def incomingEntry : ℕ := 12

/-- Header, 16 bytes for each index, and one bit for each index. -/
def poolAccountSize (capacity : ℕ) : ℕ := poolHeader + 16 * capacity + (capacity + 7) / 8

/-- `pool::init`: initialise a zeroed, correctly sized buffer. -/
def poolInit (d : Bytes) (vault : Bytes32) (capacity : ℕ) : Res Bytes := do
  check (d.length = poolAccountSize capacity) .InvalidPoolAccount
  check (slice d 0 8 = List.replicate 8 0) .InvalidPoolAccount
  let d := splice d 0 poolDiscriminator
  let d := splice d 8 vault.bytes
  let d ← wrU32 d 40 capacity
  let d ← wrU32 d 44 capacity
  let d ← wrU32 d 48 0
  wrU32 d 52 0

/-- A loaded pool account. -/
structure PoolView where
  d : Bytes
  cap : ℕ
deriving DecidableEq

namespace PoolView

/-- Validate discriminator, owning vault and size. -/
def load (d : Bytes) (vault : Bytes32) : Res PoolView := do
  check (poolHeader ≤ d.length) .InvalidPoolAccount
  check (slice d 0 8 = poolDiscriminator) .InvalidPoolAccount
  check (slice d 8 32 = vault.bytes) .PoolMismatch
  let cap ← rdU32 d 40
  check (d.length = poolAccountSize cap) .InvalidPoolAccount
  return ⟨d, cap⟩

def poolLen (p : PoolView) : Res ℕ := rdU32 p.d 44

def incomingLen (p : PoolView) : Res ℕ := rdU32 p.d 52

def incomingHead (p : PoolView) : Res ℕ := rdU32 p.d 48

def poolOff (i : ℕ) : ℕ := poolHeader + 4 * i

def incOff (p : PoolView) (ringI : ℕ) : ℕ := poolHeader + 4 * p.cap + incomingEntry * ringI

def bitmapOff (p : PoolView) : ℕ := poolHeader + 16 * p.cap

/-- The number of indices in the pool and in the ring. -/
def total (p : PoolView) : Res ℕ := do
  expect (checkedAdd32 (← p.poolLen) (← p.incomingLen)) (.vault .MathOverflow)

def poolGet (p : PoolView) (i : ℕ) : Res ℕ := do
  let v ← rdU32 p.d (poolOff i)
  return if v = 0 then i else v - 1

def poolSet (p : PoolView) (i assetIndex : ℕ) : Res PoolView := do
  let v ← addU32 assetIndex 1
  return { p with d := ← wrU32 p.d (poolOff i) v }

def isMinted (p : PoolView) (index : ℕ) : Res Bool :=
  if index < p.cap then do
    let b ← rdByte p.d (p.bitmapOff + index / 8)
    return b &&& (1 <<< (index % 8)) ≠ 0
  else
    return false

/-- Set the minted bit of `index`; each index is minted at most once. -/
def markMinted (p : PoolView) (index : ℕ) : Res PoolView := do
  check (index < p.cap) .IndexOutOfRange
  let minted ← p.isMinted index
  check (minted = false) .AlreadyMinted
  let o := p.bitmapOff + index / 8
  let b ← rdByte p.d o
  return { p with d := ← wrByte p.d o (b ||| (1 <<< (index % 8))) }

/-- Population count of the bitmap. -/
def mintedPopcount (p : PoolView) : Res ℕ := do
  require (p.bitmapOff + (p.cap + 7) / 8 ≤ p.d.length) .panic
  return ((slice p.d p.bitmapOff ((p.cap + 7) / 8)).map countOnes).sum

def poolPush (p : PoolView) (assetIndex : ℕ) : Res PoolView := do
  check ((← p.total) < p.cap) .AssetAccountingBroken
  check (assetIndex < p.cap) .IndexOutOfRange
  let len ← p.poolLen
  let p ← p.poolSet len assetIndex
  return { p with d := ← wrU32 p.d 44 (← addU32 len 1) }

/-- Remove and return the entry at position `i` (swap with last). -/
def poolSwapRemove (p : PoolView) (i : ℕ) : Res (ℕ × PoolView) := do
  let len ← p.poolLen
  check (i < len) .NoAssetAvailable
  let picked ← p.poolGet i
  let last ← p.poolGet (← subU32 len 1)
  let p ← p.poolSet i last
  let d ← wrU32 p.d 44 (← subU32 len 1)
  return (picked, { p with d := d })

/-- The slot behind the last ring entry must not have a smaller tag. -/
def checkBackTag (p : PoolView) (len tag : ℕ) : Res Unit :=
  if 0 < len then do
    let back := (← subU32 (← addU32 (← p.incomingHead) len) 1) % p.cap
    let backTag ← rdU64 p.d (p.incOff back + 4)
    check (backTag ≤ tag) .AssetAccountingBroken
  else
    return ()

/-- Append to the incoming FIFO.  Tags must be non-decreasing. -/
def incomingPush (p : PoolView) (assetIndex tag : ℕ) : Res PoolView := do
  check ((← p.total) < p.cap) .AssetAccountingBroken
  let len ← p.incomingLen
  p.checkBackTag len tag
  let slot := (← addU32 (← p.incomingHead) len) % p.cap
  let o := p.incOff slot
  let d ← wrU32 p.d o assetIndex
  let d ← wrU64 d (o + 4) tag
  let d ← wrU32 d 52 (← addU32 len 1)
  return { p with d := d }

/-- Tag of the oldest incoming entry, if any. -/
def incomingFrontTag (p : PoolView) : Res (Option ℕ) := do
  let len ← p.incomingLen
  if len = 0 then
    return none
  else do
    let tag ← rdU64 p.d (p.incOff (← p.incomingHead) + 4)
    return some tag

/-- One iteration of the merge loop: move the front entry into the pool. -/
def mergeOne (p : PoolView) : Res PoolView := do
  let head ← p.incomingHead
  let idx ← rdU32 p.d (p.incOff head)
  let len ← p.incomingLen
  let d ← wrU32 p.d 48 ((← addU32 head 1) % p.cap)
  let d ← wrU32 d 52 (← subU32 len 1)
  poolPush { p with d := d } idx

/-- Move up to `max` incoming entries with `tag ≤ maxTag` into the pool.  The
recursion is the source's `while moved < max`, on what is left of `max`. -/
def merge (p : PoolView) (maxTag : ℕ) : ℕ → Res (ℕ × PoolView)
  | 0 => return (0, p)
  | max + 1 => do
      match ← p.incomingFrontTag with
      | some t =>
          if t ≤ maxTag then do
            let p ← p.mergeOne
            let (moved, p) ← merge p maxTag max
            return (moved + 1, p)
          else
            return (0, p)
      | none => return (0, p)

end PoolView

end HybridVault
