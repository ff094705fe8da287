import Mathlib.Tactic

/-! # Tiers, spans and buckets

Raw points, one-minute rollups and one-hour rollups, each kept in spans that no chunk
crosses. Hub times are seconds, as natural numbers; `u64` bounds are stated where the code
depends on them. -/

namespace MonitoringAgent.HubStore

/-- One resolution of a series' history. -/
inductive Tier where
  | raw
  | minute
  | hour
  deriving DecidableEq, Repr

/-- A tier of rollups: buckets of one minute or one hour. -/
inductive RollupTier where
  | minute
  | hour
  deriving DecidableEq, Repr

/-- The start of a span, in hub-time seconds: a multiple of its tier's span length. -/
abbrev SpanStart := ℕ

/-- The sweep's interval: it closes quiet series' buckets. -/
def sweepSecs : ℕ := 60

namespace Tier

def all : List Tier := [raw, minute, hour]

/-- The length of the tier's spans, in seconds. -/
def spanSecs : Tier → ℕ
  | raw | minute => 3600
  | hour => 86400

/-- The span holding a hub time. -/
def spanOf (tier : Tier) (ts : ℕ) : SpanStart := ts - ts % tier.spanSecs

/-- How long after its end a span stays open: one bucket (raw: one minute) plus one sweep
interval. -/
def graceSecs (tier : Tier) : ℕ :=
  let bucket := match tier with
    | raw | minute => 60
    | hour => 3600
  bucket + sweepSecs

/-- The longest retention a policy may set for the tier. -/
def maxRetentionSecs : Tier → ℕ
  | raw => 30 * 86400
  | minute => 400 * 86400
  | hour => 3650 * 86400

/-- The shortest retention a policy may set for the tier. -/
def minRetentionSecs : Tier → ℕ
  | raw => 3600
  | minute => 86400
  | hour => 7 * 86400

/-- The tier's rollups, if it holds rollups. -/
def rollup : Tier → Option RollupTier
  | raw => none
  | minute => some .minute
  | hour => some .hour

/-- The tier's persisted code. -/
def code : Tier → ℕ
  | raw => 0
  | minute => 1
  | hour => 2

def fromCode (code : ℕ) : Option Tier := all.find? fun tier => tier.code = code

end Tier

namespace RollupTier

/-- The length of one bucket, in seconds. -/
def bucketSecs : RollupTier → ℕ
  | minute => 60
  | hour => 3600

def tier : RollupTier → Tier
  | minute => .minute
  | hour => .hour

/-- The most buckets one chunk holds: one span's worth. -/
def maxBuckets (r : RollupTier) : ℕ := r.tier.spanSecs / r.bucketSecs

end RollupTier

namespace SpanStart

/-- The span starting at `start`, if it is a multiple of the tier's span length. -/
def new (tier : Tier) (start : ℕ) : Option SpanStart :=
  if start % tier.spanSecs = 0 then some start else none

/-- The first second after the span: `saturating_add` on `u64`. -/
def spanEnd (span : SpanStart) (tier : Tier) : ℕ :=
  min (span + tier.spanSecs) (2 ^ 64 - 1)

/-- Whether the span is closed at `hubNow`: hub time past its end plus its tier's grace. -/
def isClosed (span : SpanStart) (tier : Tier) (hubNow : ℕ) : Bool :=
  hubNow > min (spanEnd span tier + tier.graceSecs) (2 ^ 64 - 1)

end SpanStart

end MonitoringAgent.HubStore
