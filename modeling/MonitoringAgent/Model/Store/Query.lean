import MonitoringAgent.Model.Retention.Policy
import MonitoringAgent.Model.Store.Blocks

/-! # Queries

Run on the caller's thread. The head is copied under its lock before the read transaction begins, so
a chunk that commits in between is in both and de-duplicates by its key. The spans are then read one
by one from the snapshot, or from the block files its rows name, while the writer goes on. -/

namespace MonitoringAgent.HubStore

open MonitoringAgent.Library

/-- Which end of the range a limit keeps. -/
inductive Order where
  | earliest
  | latest
  deriving DecidableEq, Repr

structure Query where
  tier : Tier
  «from» : ℕ
  «until» : ℕ
  order : Order
  limit : ℕ

/-- A series' samples of one tier. -/
inductive Samples where
  | raw (points : List RawPoint)
  | rollup (buckets : List Bucket)
  deriving DecidableEq, Repr

/-- What a query copies of a series in the head. -/
structure HeadView where
  id : SeriesId
  kind : ValueKind
  lastSpan : Option SpanStart
  pending : List Sealed
  unsealed : Samples

def HeadEntry.unsealed (entry : HeadEntry) (tier : Tier) : Samples :=
  match tier.rollup with
  | none => .raw entry.state.unsealedPoints
  | some rollup => .rollup (entry.state.unsealedBuckets rollup)

def headView (head : Table SeriesKey HeadEntry) (key : SeriesKey) (tier : Tier) : Option HeadView :=
  (head.get? key).map fun entry =>
    ⟨entry.id, entry.state.kind, entry.lastSpans tier, entry.pending, entry.unsealed tier⟩

/-! ### The spans read -/

/-- What decides whether a span of the queried series is live: its owner, the policies, the
tombstones, and the retention clock as the query's read transaction holds it. -/
structure Alive where
  tier : Tier
  owner : Owner
  policies : Policies
  tombstones : Tombstones
  retentionNow : ℕ

namespace Alive

def span (alive : Alive) (span : SpanStart) : Liveness :=
  chunkLiveness alive.tier span
    (some alive.owner) alive.policies alive.tombstones alive.retentionNow

/-- Whether the span holding `ts` is live. -/
def «at» (alive : Alive) (ts : ℕ) : Bool := alive.span (alive.tier.spanOf ts) = .live

/-- The samples of live spans only. -/
def onlyLive (alive : Alive) : Samples → Samples
  | .raw points => .raw (points.filter fun p => alive.at p.ts)
  | .rollup buckets =>
      let secs := (alive.tier.rollup.map RollupTier.bucketSecs).getD 1
      .rollup (buckets.filter fun b => alive.at (min (b.index * secs) (2 ^ 64 - 1)))

end Alive

/-- The oldest span a query looks at: the tier's longest retention before the series' last span. -/
def lookBack (tier : Tier) (last : SpanStart) : SpanStart := last - tier.maxRetentionSecs

/-- The spans a query visits, in order; none for a series without chunks. -/
def spansVisited (view : HeadView) (q : Query) : List SpanStart :=
  match view.lastSpan with
  | none => []
  | some last =>
      let first := max (lookBack q.tier last) (q.tier.spanOf q.from)
      let last := min last (q.tier.spanOf q.until)
      List.range' first ((last + q.tier.spanSecs - first) / q.tier.spanSecs) q.tier.spanSecs

/-- A visited span is read if it is on its tier's grid and live: a dead one's file may be being
unlinked. -/
def spansRead (view : HeadView) (q : Query) (alive : Alive) : List SpanStart :=
  (spansVisited view q).filter fun span => (SpanStart.new q.tier span).any fun s =>
    alive.span s = .live

/-- A series' chunks of a span still in `chunks`, by seq. -/
def fromChunks (chunks : Table ChunkKey (List UInt8)) (tier : Tier)
    (span : SpanStart) (id : SeriesId) : List (ℕ × List UInt8) :=
  chunks.entries.filterMap fun (key, bytes) =>
    if key.tier = tier ∧ key.span = span ∧ key.id = id then some (key.seq, bytes) else none

/-! ### A span's chunks in a block file -/

/-- Where a read of a block file is: each step of it is one lock of the block map or one open of the
file. -/
inductive FileRead where
  /-- Looks the file up in memory. -/
  | look
  /-- Memory doesn't know it: its summary is read. -/
  | summary
  /-- The summary, or that it failed its check, is kept. -/
  | install (known : Known)
  | again
  /-- The series' chunks are read. -/
  | series (known : Known)
  | done (answer : Except StoreError (List (ℕ × List UInt8)))

def FileRead.isDone : FileRead → Bool
  | .done _ => true
  | _ => false

/-- One step of `seriesChunks` on the block map; `file` is what opening the file finds, none when it
is missing or damaged. -/
def FileRead.step (name : BlockName) (id : SeriesId) (known : Table SpanKey Known)
    (file : Option Held) :
    FileRead → FileRead × Table SpanKey Known
  | .look =>
      match known.get? name.spanKey with
      | some current => (if current.rewrite = name.rewrite then .series current
          else .summary, known)
      | none => (.summary, known)
  | .summary =>
      (.install (if file.isSome then .readable name.rewrite else .unreadable name.rewrite), known)
  | .install found => (.again, known.insert name.spanKey found)
  | .again =>
      match known.get? name.spanKey with
      | some current => (.series current, known)
      | none => (.done (.error .io), known)
  | .series (.unreadable _) => (.done (.error (.corrupt name.tier name.span)), known)
  | .series (.readable _) =>
      match file with
      | none => (.done (.error (.corrupt name.tier name.span)), known)
      | some held =>
          (.done (.ok (held.filterMap fun (owner, seq, bytes) => if owner = id then some
            (seq, bytes) else none)), known)
  | .done answer => (.done answer, known)

end MonitoringAgent.HubStore
