import MonitoringAgent.Model.Rollup

/-! # One series' state in the head

Its open raw chunk, its open rollup buckets and chunks, and the chunks they seal: a state
machine over hub time. A method that changes the state in place returns its answer and the
state afterwards. -/

namespace MonitoringAgent.HubStore

/-- A chunk the series sealed: the writer inserts it into `chunks` at the next commit. -/
structure Sealed where
  tier : Tier
  span : SpanStart
  seq : ℕ
  bytes : List UInt8
  deriving DecidableEq, Repr

/-- A point at or before the series' last one. -/
inductive NotAfterLast where
  | notAfterLast
  deriving DecidableEq, Repr

/-- The open chunk of one tier: its span and the seq its next seal takes there. -/
structure Open (C : Type) where
  chunk : C
  span : Option SpanStart
  nextSeq : ℕ
  deriving DecidableEq, Repr

/-- A rollup tier's open bucket and open chunk. -/
structure RollupState where
  tier : RollupTier
  bucket : Option Accumulator
  «open» : Open RollupChunk
  deriving DecidableEq, Repr

/-- One series in the head. -/
structure SeriesState where
  kind : ValueKind
  lastTs : Option ℕ
  raw : Open RawChunk
  minute : RollupState
  hour : RollupState
  deriving DecidableEq, Repr

/-- What the head needs of an open chunk, raw or rollup. -/
class OpenChunk (C : Type) (Item : outParam Type) where
  tier : C → Tier
  fresh : C → C
  push : C → Item → Except PushRefused Unit × C
  isEmpty : C → Bool
  encode : C → List UInt8

instance : OpenChunk RawChunk RawPoint where
  tier _ := .raw
  fresh c := .new c.encoding
  push := RawChunk.push
  isEmpty := RawChunk.isEmpty
  encode := RawChunk.encode

instance : OpenChunk RollupChunk Bucket where
  tier c := c.tier.tier
  fresh c := .new c.tier
  push := RollupChunk.push
  isEmpty := RollupChunk.isEmpty
  encode := RollupChunk.encode

namespace Open

variable {C Item : Type} [OpenChunk C Item]

/-- Seals the open chunk, if it holds anything, at the next seq of its span; the `u16` seq
saturates. -/
def «seal» (o : Open C) : Option Sealed × Open C :=
  match o.span with
  | none => (none, o)
  | some span =>
      if OpenChunk.isEmpty o.chunk then (none, o)
      else
        (some ⟨OpenChunk.tier o.chunk, span, o.nextSeq, OpenChunk.encode o.chunk⟩,
          { o with
            chunk := OpenChunk.fresh o.chunk
            nextSeq := min (o.nextSeq + 1) (2 ^ 16 - 1) })

/-- The first half of `pushIn`: a new span seals the open chunk and restarts the seqs. -/
def enterSpan (o : Open C) (span : SpanStart) : List Sealed × Open C :=
  if o.span ≠ some span then
    let (sealed, o) := o.seal
    (sealed.toList, { o with span := some span, nextSeq := 0 })
  else ([], o)

/-- The second half of `pushIn`: a full chunk is sealed and the item starts the next one,
whose own answer is dropped. -/
def pushOrSeal (o : Open C) (item : Item) : List Sealed × Open C :=
  match OpenChunk.push o.chunk item with
  | (.ok (), chunk) => ([], { o with chunk })
  | (.error _, chunk) =>
      let (sealed, o) := { o with chunk }.seal
      (sealed.toList, { o with chunk := (OpenChunk.push o.chunk item).2 })

/-- Adds an item of the span starting at `span`: a new span seals the open chunk first, and
a full chunk is sealed and the item starts the next one. -/
def pushIn (o : Open C) (span : SpanStart) (item : Item) : List Sealed × Open C :=
  let (entered, o) := o.enterSpan span
  let (filled, o) := o.pushOrSeal item
  (entered ++ filled, o)

def sealIfIn (o : Open C) (span : SpanStart) : Option Sealed × Open C :=
  if o.span = some span then o.seal else (none, o)

/-- Seals the open chunk if its span is closed at `hubNow`. -/
def sealIfClosed (o : Open C) (hubNow : ℕ) : Option Sealed × Open C :=
  if o.span.any (·.isClosed (OpenChunk.tier o.chunk) hubNow) then o.seal else (none, o)

/-- Whether the open chunk holds anything of `span`. -/
def holds (o : Open C) (span : SpanStart) : Bool :=
  o.span = some span ∧ OpenChunk.isEmpty o.chunk = false

end Open

/-- Adds a raw point to its span. -/
def Open.pushPoint (o : Open RawChunk) (point : RawPoint) : List Sealed × Open RawChunk :=
  o.pushIn (Tier.raw.spanOf point.ts) point

namespace RollupState

def new (tier : RollupTier) : RollupState := ⟨tier, none, ⟨.new tier, none, 0⟩⟩

def closeBucket (s : RollupState) : List Sealed × RollupState :=
  match s.bucket with
  | none => ([], s)
  | some a =>
      let bucket := a.close
      let span := s.tier.tier.spanOf (bucket.index * s.tier.bucketSecs)
      let (sealed, o) := s.open.pushIn span bucket
      (sealed, { s with bucket := none, «open» := o })

/-- Adds a point: a point of a later bucket closes the open one first. -/
def add (s : RollupState) (ts : ℕ) (value : ℤ) : List Sealed × RollupState :=
  match s.bucket.filter (·.holds s.tier ts) with
  | some a => ([], { s with bucket := some (a.add value) })
  | none =>
      let (sealed, s) := s.closeBucket
      (sealed, { s with bucket := some (.open s.tier ts value) })

/-- The span the open bucket will close into. -/
def bucketSpan (s : RollupState) (a : Accumulator) : SpanStart :=
  s.tier.tier.spanOf (a.index * s.tier.bucketSecs)

/-- Whether the tier holds `span` open: closed buckets of it unsealed, or its open bucket. -/
def holdsOpen (s : RollupState) (span : SpanStart) : Bool :=
  s.open.holds span || s.bucket.any (s.bucketSpan · = span)

/-- Closes the open bucket if its end is more than one bucket length before `hubNow`; the
bucket's end is computed on `u64`. -/
def sweep (s : RollupState) (hubNow : ℕ) : List Sealed × RollupState :=
  let len := s.tier.bucketSecs
  if s.bucket.any fun a => hubNow - (a.index + 1) * len % 2 ^ 64 > len then s.closeBucket
  else ([], s)

end RollupState

namespace SeriesState

def new (kind : ValueKind) : SeriesState :=
  ⟨kind, none, ⟨.new kind.encoding, none, 0⟩, .new .minute, .new .hour⟩

/-- Adds a point after the series' last one, answering what it sealed. -/
def append (s : SeriesState) (ts : ℕ) (value : Scaled) :
    Except NotAfterLast (List Sealed) × SeriesState :=
  if s.lastTs.any (ts ≤ ·) then (.error .notAfterLast, s)
  else
    let point : RawPoint := ⟨ts, value.get⟩
    let (sealedRaw, raw) := s.raw.pushPoint point
    let (sealedMinute, minute) := s.minute.add ts point.value
    let (sealedHour, hour) := s.hour.add ts point.value
    (.ok (sealedRaw ++ sealedMinute ++ sealedHour),
      { s with raw, minute, hour, lastTs := some ts })

/-- Closes the open buckets whose end is more than one bucket length before `hubNow`. -/
def sweep (s : SeriesState) (hubNow : ℕ) : List Sealed × SeriesState :=
  let (sealedMinute, minute) := s.minute.sweep hubNow
  let (sealedHour, hour) := s.hour.sweep hubNow
  (sealedMinute ++ sealedHour, { s with minute, hour })

/-- Seals the tier's open chunk if it holds part of `span`. -/
def sealSpan (s : SeriesState) (tier : Tier) (span : SpanStart) : Option Sealed × SeriesState :=
  match tier with
  | .raw =>
      let (sealed, raw) := s.raw.sealIfIn span
      (sealed, { s with raw })
  | .minute =>
      let (sealed, o) := s.minute.open.sealIfIn span
      (sealed, { s with minute := { s.minute with «open» := o } })
  | .hour =>
      let (sealed, o) := s.hour.open.sealIfIn span
      (sealed, { s with hour := { s.hour with «open» := o } })

/-- Seals every tier's open chunk whose span is closed at `hubNow`. -/
def sealClosed (s : SeriesState) (hubNow : ℕ) : List Sealed × SeriesState :=
  let (sealedRaw, raw) := s.raw.sealIfClosed hubNow
  let (sealedMinute, minute) := s.minute.open.sealIfClosed hubNow
  let (sealedHour, hour) := s.hour.open.sealIfClosed hubNow
  (sealedRaw.toList ++ sealedMinute.toList ++ sealedHour.toList,
    { s with
      raw := raw
      minute := { s.minute with «open» := minute }
      hour := { s.hour with «open» := hour } })

/-- Whether the series still holds something of `span` open in `tier`. -/
def holdsOpen (s : SeriesState) (tier : Tier) (span : SpanStart) : Bool :=
  match tier with
  | .raw => s.raw.holds span
  | .minute => s.minute.holdsOpen span
  | .hour => s.hour.holdsOpen span

/-- The raw points not yet sealed, in time order. -/
def unsealedPoints (s : SeriesState) : List RawPoint := s.raw.chunk.points

/-- The rollup tier's part of the state. -/
def rollup (s : SeriesState) : RollupTier → RollupState
  | .minute => s.minute
  | .hour => s.hour

/-- The closed buckets of a rollup tier not yet sealed, in time order. -/
def unsealedBuckets (s : SeriesState) (tier : RollupTier) : List Bucket :=
  (s.rollup tier).open.chunk.buckets

end SeriesState

end MonitoringAgent.HubStore
