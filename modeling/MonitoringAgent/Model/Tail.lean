import MonitoringAgent.Model.Bytes
import MonitoringAgent.Model.State

/-! # A series' tail

Its state in the head as persisted: version, kind code, last time, the three open chunks
with their spans and next seqs, the two open buckets. A tail read back is checked whole. -/

namespace MonitoringAgent.HubStore

open MonitoringAgent.Library

def tailV1 : ℕ := 1

/-- Bytes that are no tail. -/
inductive TailError where
  | unknownVersion (version : ℕ)
  | malformed
  /-- A stored value outside the series' kind's domain. -/
  | outOfDomain
  deriving DecidableEq, Repr

/-- A field that ends early is a malformed tail. -/
def orMalformed {α : Type} : Except Short α → Except TailError α
  | .ok a => .ok a
  | .error _ => .error .malformed

/-! ### Writing -/

def putOptionalU64 : Option ℕ → List UInt8
  | none => [0]
  | some value => 1 :: beBytes 8 value

/-- An open chunk: its span, its next seq and its bytes, none for an empty chunk. -/
def putOpen {C Item : Type} [OpenChunk C Item] (o : Open C) : List UInt8 :=
  let bytes := if OpenChunk.isEmpty o.chunk then [] else OpenChunk.encode o.chunk
  putOptionalU64 o.span ++ beBytes 2 o.nextSeq ++ putU16Prefixed bytes

def putBucket : Option Accumulator → List UInt8
  | none => [0]
  | some a =>
      1 :: (beBytes 8 a.index ++ beBytesInt 16 a.sum ++ beBytes 4 a.count ++ beBytesInt 8 a.min ++
        beBytesInt 8 a.max)

/-- The series' tail. -/
def SeriesState.toTail (s : SeriesState) : List UInt8 :=
  beBytes 1 tailV1 ++ beBytes 1 s.kind.code ++ putOptionalU64 s.lastTs ++ putOpen s.raw ++
    putOpen s.minute.open ++ putOpen s.hour.open ++ putBucket s.minute.bucket ++
    putBucket s.hour.bucket

/-! ### Reading -/

def readOptionalU64 (r : Reader) : Except TailError (Option ℕ × Reader) := do
  let (presence, r) ← orMalformed r.u8
  match presence with
  | 0 => .ok (none, r)
  | 1 =>
      let (value, r) ← orMalformed r.u64
      .ok (some value, r)
  | _ => .error .malformed

/-- A span read back, on its tier's grid. -/
def readSpan (r : Reader) (tier : Tier) : Except TailError (Option SpanStart × Reader) := do
  let (start, r) ← readOptionalU64 r
  match start with
  | none => .ok (none, r)
  | some start =>
      match SpanStart.new tier start with
      | none => .error .malformed
      | some span => .ok (some span, r)

/-- An open chunk: `empty` when the tail stores no bytes, else `reopen` of its bytes. -/
def readOpen {C : Type} (r : Reader) (tier : Tier) (empty : C)
    (reopen : List UInt8 → Except DecodeError C) : Except TailError (Open C × Reader) := do
  let (span, r) ← readSpan r tier
  let (nextSeq, r) ← orMalformed r.u16
  let (bytes, r) ← orMalformed r.u16Prefixed
  if bytes = [] then .ok (⟨empty, span, nextSeq⟩, r)
  else
    match reopen bytes with
    | .ok chunk => .ok (⟨chunk, span, nextSeq⟩, r)
    | .error _ => .error .malformed

def readBucket (r : Reader) : Except TailError (Option Accumulator × Reader) := do
  let (presence, r) ← orMalformed r.u8
  match presence with
  | 0 => .ok (none, r)
  | 1 =>
      let (index, r) ← orMalformed r.u64
      let (sum, r) ← orMalformed r.i128
      let (count, r) ← orMalformed r.u32
      let (min, r) ← orMalformed r.i64
      let (max, r) ← orMalformed r.i64
      match Accumulator.fromParts index sum count min max with
      | none => .error .malformed
      | some a => .ok (some a, r)
  | _ => .error .malformed

/-- Whether every time lies in the open chunk's span; an empty chunk needs none. -/
def timesInSpan (tier : Tier) (span : Option SpanStart) (times : List ℕ) : Bool :=
  times = [] ∨ span.any fun s => times.all (tier.spanOf · = s)

namespace RollupState

/-- The start times of the tier's unsealed closed buckets. -/
def closedTimes (s : RollupState) : List ℕ :=
  s.open.chunk.buckets.map (·.index * s.tier.bucketSecs)

/-- The tier's buckets in its chunk's span, its open bucket after the closed ones. -/
def coherent (s : RollupState) : Bool :=
  timesInSpan s.tier.tier s.open.span s.closedTimes &&
    s.bucket.all fun a => s.closedTimes.getLast?.all (· < a.index * s.tier.bucketSecs)

/-- The start times of all the tier's buckets. -/
def times (s : RollupState) : List ℕ :=
  (s.bucket.toList.map (·.index * s.tier.bucketSecs)) ++ s.closedTimes

end RollupState

namespace SeriesState

/-- The fields against each other: every point and bucket in its chunk's span, none after
the series' last time, each open bucket after its tier's closed ones. -/
def checkCoherence (s : SeriesState) : Except TailError Unit :=
  let raw := s.raw.chunk.points.map RawPoint.ts
  let times := raw ++ s.minute.times ++ s.hour.times
  let coherent := timesInSpan .raw s.raw.span raw && s.minute.coherent && s.hour.coherent &&
    match s.lastTs with
    | none => times.isEmpty
    | some last => times.all (· ≤ last)
  if coherent then .ok () else .error .malformed

/-- Every value the state holds, against its kind's domain. -/
def checkDomain (s : SeriesState) : Except TailError Unit :=
  let points := s.raw.chunk.points.map RawPoint.value
  let buckets := (s.unsealedBuckets .minute ++ s.unsealedBuckets .hour).flatMap
    fun b => [b.min, b.avg, b.max]
  let «open» := (s.minute.bucket.toList ++ s.hour.bucket.toList).flatMap fun a => [a.min, a.max]
  if (points ++ buckets ++ «open»).all fun v => (s.kind.checkScaled v).isSome then .ok ()
  else .error .outOfDomain

/-- A series reopened from its tail. -/
def fromTail (bytes : List UInt8) : Except TailError SeriesState := do
  let (version, r) ← orMalformed (Reader.new bytes).u8
  if version ≠ tailV1 then .error (.unknownVersion version)
  else
    let (code, r) ← orMalformed r.u8
    match ValueKind.fromCode code with
    | none => .error .malformed
    | some kind =>
        let (lastTs, r) ← readOptionalU64 r
        let (raw, r) ← readOpen r .raw (.new kind.encoding) (RawChunk.reopen · kind.encoding)
        let (minute, r) ← readOpen r .minute (.new .minute) (RollupChunk.reopen · .minute)
        let (hour, r) ← readOpen r .hour (.new .hour) (RollupChunk.reopen · .hour)
        let (minuteBucket, r) ← readBucket r
        let (hourBucket, r) ← readBucket r
        let _ ← orMalformed r.finish
        let state : SeriesState :=
          ⟨kind, lastTs, raw, ⟨.minute, minuteBucket, minute⟩, ⟨.hour, hourBucket, hour⟩⟩
        let _ ← state.checkDomain
        let _ ← state.checkCoherence
        .ok state

end SeriesState

end MonitoringAgent.HubStore
