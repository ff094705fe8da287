import MonitoringAgent.Model.Codec.Rollup

/-! # Rollup accumulators

The open bucket of a series in a rollup tier. Its sum is an `i128`, which no domain
overflows; its count is a `u32` that saturates. -/

namespace MonitoringAgent.HubStore

/-- The points of one open bucket so far. -/
structure Accumulator where
  index : ℕ
  sum : ℤ
  count : ℕ
  min : ℤ
  max : ℤ
  deriving DecidableEq, Repr

namespace Accumulator

/-- A bucket opened by its first point, at hub time `ts`. -/
def «open» (tier : RollupTier) (ts : ℕ) (value : ℤ) : Accumulator :=
  ⟨ts / tier.bucketSecs, value, 1, value, value⟩

/-- Whether a point at `ts` belongs to this bucket. -/
def holds (a : Accumulator) (tier : RollupTier) (ts : ℕ) : Bool := ts / tier.bucketSecs = a.index

/-- Adds a point of this bucket; the count saturates. -/
def add (a : Accumulator) (value : ℤ) : Accumulator :=
  { a with
    sum := a.sum + value
    count := Min.min (a.count + 1) (2 ^ 32 - 1)
    min := Min.min a.min value
    max := Max.max a.max value }

/-- The closed bucket: the average rounded half away from zero, the minimum, the maximum and
the count. -/
def close (a : Accumulator) : Bucket :=
  let count : ℤ := a.count
  let half := count / 2 + count % 2
  let rounded := if a.sum ≥ 0 then (a.sum + count - half).tdiv count
    else (a.sum - count + half).tdiv count
  let avg := Max.max a.min (Min.min rounded a.max)
  ⟨a.index, avg, a.min, a.max, a.count⟩

/-- An accumulator read back from a tail, if its parts are consistent. -/
def fromParts (index : ℕ) (sum : ℤ) (count : ℕ) (min max : ℤ) : Option Accumulator :=
  if count > 0 ∧ min ≤ max ∧ count * min ≤ sum ∧ sum ≤ count * max then
    some ⟨index, sum, count, min, max⟩
  else none

end Accumulator

end MonitoringAgent.HubStore
