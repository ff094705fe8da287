import MonitoringAgent.Model.Codec.Raw
import MonitoringAgent.Model.Tier

/-! # The rollup chunk

One series' buckets of one tier, at most one span's worth: a format byte, a header (bucket
count, first index, first average), then per bucket the index's delta of deltas and the
average's step (not for the first), the distances of minimum and maximum from the average
and the point count. -/

namespace MonitoringAgent.HubStore

def rollupFormatV1 : UInt8 := 0x02

/-- One closed bucket: its index (its start over the bucket length) and the average,
minimum, maximum and number of the points in it. -/
structure Bucket where
  index : ℕ
  avg : ℤ
  min : ℤ
  max : ℤ
  count : ℕ
  deriving DecidableEq, Repr

/-- An open rollup chunk, buckets pushed in index order. -/
structure RollupChunk where
  tier : RollupTier
  /-- The first and last buckets, once there is one. -/
  ends : Option (Bucket × Bucket)
  /-- The last index step, which the next delta of deltas starts from. -/
  indexStep : ℤ
  count : ℕ
  bits : BitWriter
  deriving DecidableEq, Repr

/-- A bucket's minimum and maximum as their distances from its average, then its count. -/
def writeSpread (w : BitWriter) (bucket : Bucket) : BitWriter :=
  let w := writeValue w (asU64 (wrapI64 (bucket.avg - bucket.min)))
  let w := writeValue w (asU64 (wrapI64 (bucket.max - bucket.avg)))
  writeBitVarint w bucket.count

namespace RollupChunk

def new (tier : RollupTier) : RollupChunk := ⟨tier, none, 1, 0, {}⟩

/-- Appends a bucket, or refuses it; the second component is the chunk afterwards. -/
def push (c : RollupChunk) (bucket : Bucket) : Except PushRefused Unit × RollupChunk :=
  if ¬ (bucket.min ≤ bucket.avg ∧ bucket.avg ≤ bucket.max ∧ bucket.count > 0) then
    (.error .invalidBucket, c)
  else
    match c.ends with
    | none =>
        (.ok (), { c with
          bits := writeSpread c.bits bucket, ends := some (bucket, bucket), count := 1 })
    | some (first, last) =>
        if bucket.index ≤ last.index then (.error .notAfterLast, c)
        else if c.count ≥ c.tier.maxBuckets then (.error .full, c)
        else if bucket.index - last.index ≥ 2 ^ 63 then (.error .full, c)
        else
          let indexStep : ℤ := (bucket.index - last.index : ℕ)
          match writeDod c.bits (indexStep - c.indexStep) with
          | (false, bits) => (.error .full, { c with bits })
          | (true, bits) =>
              let bits := writeValue bits (zigzag (wrapI64 (bucket.avg - last.avg)))
              (.ok (), { c with
                bits := writeSpread bits bucket
                ends := some (first, bucket)
                indexStep := indexStep, count := c.count + 1 })

def len (c : RollupChunk) : ℕ := c.count

def isEmpty (c : RollupChunk) : Bool := c.count = 0

def last (c : RollupChunk) : Option Bucket := c.ends.map (·.2)

def encodedLen (c : RollupChunk) : ℕ :=
  match c.ends with
  | none => 2
  | some (first, _) =>
      1 + varintLen c.count + varintLen first.index + varintLen (zigzag first.avg) +
        c.bits.asBytes.length

/-- The chunk's bytes, format byte first; an empty chunk encodes as a count of zero, which
no decoder accepts. -/
def encode (c : RollupChunk) : List UInt8 :=
  let out := writeVarint [rollupFormatV1] c.count
  match c.ends with
  | none => out
  | some (first, _) => writeVarint (writeVarint out first.index)
      (zigzag first.avg) ++ c.bits.asBytes

end RollupChunk

/-- The bucket count, the first index and average, and where the bit stream starts. -/
def decodeRollupHeader (bytes : List UInt8) (tier : RollupTier) :
    Except DecodeError (ℕ × ℕ × ℤ × ℕ) := do
  match bytes.head? with
  | none => .error .truncated
  | some format =>
      if format ≠ rollupFormatV1 then .error (.unknownFormat format)
      else
        let (count, pos) ← readVarint bytes 1
        if count = 0 then .error .malformed
        else if count > tier.maxBuckets then .error .tooLong
        else
          let (index, pos) ← readVarint bytes pos
          let (code, pos) ← readVarint bytes pos
          .ok (count, index, unzigzag code, pos)

/-- `checked_sub_unsigned` and `checked_add_unsigned` around an average. -/
def readSpread (r : BitReader) (index : ℕ) (avg : ℤ) : Except DecodeError (Bucket × BitReader) := do
  let (below, r) ← readValue r
  let (above, r) ← readValue r
  let (count, r) ← readBitVarint r
  if count ≥ 2 ^ 32 then .error .malformed
  else
    let min ← checkedAddI64 avg (-below)
    let max ← checkedAddI64 avg above
    if count = 0 then .error .malformed
    else .ok (⟨index, avg, min, max, count⟩, r)

/-- The buckets after the first, `left` of them, after index `index` and average `avg`. -/
def decodeBuckets : ℕ → ℕ → ℤ → ℤ → BitReader → Except DecodeError (List Bucket × BitReader)
  | 0, _, _, _, r => .ok ([], r)
  | left + 1, index, avg, indexStep, r => do
      let (dod, r) ← readDod r
      let indexStep ← checkedAddI64 indexStep dod
      let step ← positiveStep indexStep
      let index ← checkedAddU64 index step
      let (code, r) ← readValue r
      let avg := wrapI64 (avg + unzigzag code)
      let (bucket, r) ← readSpread r index avg
      let (buckets, r) ← decodeBuckets left index avg indexStep r
      .ok (bucket :: buckets, r)

/-- The buckets of an encoded rollup chunk, in index order. -/
def decodeRollup (bytes : List UInt8) (tier : RollupTier) : Except DecodeError (List Bucket) := do
  let (count, index, avg, pos) ← decodeRollupHeader bytes tier
  let (first, r) ← readSpread (.new (bytes.drop pos)) index avg
  let (buckets, r) ← decodeBuckets (count - 1) index avg 1 r
  if pos + r.bytesRead ≠ bytes.length then .error .malformed
  else .ok (first :: buckets)

namespace RollupChunk

/-- The chunk's buckets, in index order; what does not decode has none. -/
def buckets (c : RollupChunk) : List Bucket :=
  match decodeRollup c.encode c.tier with
  | .ok buckets => buckets
  | .error _ => []

def reopen (bytes : List UInt8) (tier : RollupTier) : Except DecodeError RollupChunk := do
  pushAll push (new tier) (← decodeRollup bytes tier)

end RollupChunk

end MonitoringAgent.HubStore
