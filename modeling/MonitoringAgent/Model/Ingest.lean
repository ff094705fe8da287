import MonitoringAgent.Model.Tables

/-! # Ingestion on the writer thread

Points stamped at hub time, checked against their series and applied to the head; series
interned, or brought back into the head from their tail; and what the next commit must write
because of it. -/

namespace MonitoringAgent.HubStore

open MonitoringAgent.Library

/-- Why a call failed. -/
inductive StoreError where
  /-- `close` was called. -/
  | closed
  /-- The writer thread failed: the hub must exit. -/
  | failed
  /-- An I/O error on a read. -/
  | io
  /-- A chunk that doesn't decode, or holds a value outside its kind's domain. -/
  | corrupt (tier : Tier) (span : SpanStart)
  deriving DecidableEq, Repr

/-- Why a point was not stored. -/
inductive Rejected where
  | outOfDomain
  | kindMismatch
  | notAfterLast
  | seriesCapReached
  deriving DecidableEq, Repr

/-- One active series. -/
structure HeadEntry where
  id : SeriesId
  state : SeriesState
  /-- Per tier, the last span holding a chunk of the series (sealed, committed or not). -/
  lastSpans : LastSpans
  /-- Points appended since the series' tail was last written. -/
  dirty : Bool
  /-- Chunks sealed and not yet committed: queries read them from here until the commit. -/
  pending : List Sealed

/-- A series with no point yet. -/
def HeadEntry.fresh (id : SeriesId) (kind : ValueKind) : HeadEntry :=
  ⟨id, .new kind, fun _ => none, true, []⟩

/-- A recorded series, as its tail left it. -/
def HeadEntry.reopened (id : SeriesId) (record : SeriesRecord) (state : SeriesState) : HeadEntry :=
  ⟨id, state, record.lastSpans, false, []⟩

/-- The writer's state between commits: everything a commit writes beside the catalog. -/
structure Core where
  /-- The hub clock: the last time issued. -/
  clock : ℕ
  /-- The next `SeriesId` to give. -/
  nextId : ℕ
  /-- Every series in the head, by id. -/
  index : Table SeriesId SeriesKey
  head : Table SeriesKey HeadEntry
  points : List LoggedPoint
  /-- Series interned since the last commit: their rows are written with their first points. -/
  newSeries : Finset SeriesId
  sealed : List (SeriesId × Sealed)
  /-- Series whose tail and record the next commit rewrites (they sealed, or are new). -/
  touched : Finset SeriesId

/-- What an append answers. -/
structure AppendReport where
  «at» : ℕ
  accepted : ℕ
  rejected : List (List UInt8 × Rejected)

/-- One point of an append: its metric, its kind and its stored value. -/
structure IncomingPoint where
  metric : List UInt8
  kind : ValueKind
  value : ℤ
  deriving DecidableEq, Repr

/-- The report of points and their answers; the `u16` count saturates. -/
def AppendReport.of («at» : ℕ) (answered : List (IncomingPoint × Except Rejected Unit)) :
    AppendReport :=
  answered.foldl
    (fun report (p, answer) => match answer with
      | .ok () => { report with accepted := min (report.accepted + 1) (2 ^ 16 - 1) }
      | .error refusal => { report with rejected := report.rejected ++ [(p.metric, refusal)] })
    ⟨«at», 0, []⟩

/-- A series the table already holds, and its tail, if it was ever written. -/
structure Interned where
  id : SeriesId
  record : SeriesRecord
  tail : Option (List UInt8)

/-- The series of `key`, if the table holds it. -/
def interned (txn : Tables) (key : SeriesKey) : Option Interned := do
  let id ← txn.seriesKey.get? key
  let record ← txn.series.get? id
  some ⟨id, record, txn.tails.get? id⟩

/-- Records one span in a series' last spans. -/
def LastSpans.raise (spans : LastSpans) (tier : Tier) (span : SpanStart) : LastSpans :=
  Function.update spans tier (some (((spans tier).map (max · span)).getD span))

namespace Core

def new (clock nextId : ℕ) : Core :=
  ⟨clock, nextId, .empty, .empty, [], ∅, [], ∅⟩

/-- Hub time now: never runs backwards. -/
def hubNow (c : Core) (systemNow : ℕ) : ℕ × Core :=
  let now := max c.clock systemNow
  (now, { c with clock := now })

/-- Records one chunk a series sealed. -/
def keepChunk (c : Core) (entry : HeadEntry) (chunk : Sealed) : Core × HeadEntry :=
  ({ c with
      sealed := c.sealed ++ [(entry.id, chunk)]
      touched := insert entry.id c.touched },
    { entry with
      lastSpans := entry.lastSpans.raise chunk.tier chunk.span
      pending := entry.pending ++ [chunk] })

/-- Records chunks a series sealed: kept in its entry for queries until they commit. -/
def keepSealed (c : Core) (entry : HeadEntry) : List Sealed → Core × HeadEntry
  | [] => (c, entry)
  | chunk :: sealed =>
      let (c, entry) := c.keepChunk entry chunk
      c.keepSealed entry sealed

/-- Puts a changed entry back in the head, recording what it sealed. -/
def putEntry (c : Core) (key : SeriesKey) (entry : HeadEntry) (sealed : List Sealed) : Core :=
  let (c, entry) := c.keepSealed entry sealed
  { c with head := c.head.insert key entry }

/-- Puts a series into the head. -/
def addEntry (c : Core) (key : SeriesKey) (entry : HeadEntry) : Core :=
  { c with index := c.index.insert entry.id key, head := c.head.insert key entry }

/-- Brings a series into the head: interned and reopened from its tail, or new. -/
def activate (c : Core) (txn : Tables) (key : SeriesKey) (kind : ValueKind) :
    Except StoreError (Except Rejected Unit × Core) :=
  match interned txn key with
  | some ⟨id, record, tail⟩ => do
      let state ← match tail with
        | some bytes =>
            match SeriesState.fromTail bytes with
            | .ok state => .ok state
            | .error _ => .error .failed
        | none => .ok (.new record.kind)
      .ok (.ok (), c.addEntry key (.reopened id record state))
  | none =>
      if c.nextId + 1 < 2 ^ 32 then
        let id := c.nextId
        let c := { c with
          nextId := c.nextId + 1
          newSeries := insert id c.newSeries
          touched := insert id c.touched }
        .ok (.ok (), c.addEntry key (.fresh id kind))
      else .ok (.error .seriesCapReached, c)

/-- The part of `appendPoint` after the series is in the head. -/
def appendEntry (c : Core) (key : SeriesKey) (entry : HeadEntry) (kind : ValueKind) (value : ℤ)
    (scaled : Scaled) («at» : ℕ) : Except Rejected Unit × Core :=
  if entry.state.kind ≠ kind then (.error .kindMismatch, c)
  else
    match entry.state.append «at» scaled with
    | (.error _, _) => (.error .notAfterLast, c)
    | (.ok sealed, state) =>
        let c := c.putEntry key { entry with state, dirty := true } sealed
        (.ok (), { c with points := c.points ++ [⟨entry.id, «at», value⟩] })

def appendPoint (c : Core) (txn : Tables) (key : SeriesKey) (kind : ValueKind) (value : ℤ)
    («at» : ℕ) : Except StoreError (Except Rejected Unit × Core) :=
  match kind.checkScaled value with
  | none => .ok (.error .outOfDomain, c)
  | some scaled => do
      let (active, c) ←
        if c.head.contains key then .ok (.ok (), c) else c.activate txn key kind
      match active with
      | .error refusal => .ok (.error refusal, c)
      | .ok () =>
          match c.head.get? key with
          | none => .error .failed
          | some entry => .ok (c.appendEntry key entry kind value scaled «at»)

/-- The loop of `appendPoints`: each point's answer, in order. -/
def appendEach (c : Core) (txn : Tables) (system : List UInt8) (generation : ℕ) («at» : ℕ) :
    List IncomingPoint → Except StoreError (List (Except Rejected Unit) × Core)
  | [] => .ok ([], c)
  | p :: points => do
      let (answer, c) ← c.appendPoint txn ⟨system, generation, p.metric⟩ p.kind p.value «at»
      let (answers, c) ← c.appendEach txn system generation «at» points
      .ok (answer :: answers, c)

/-- Stamps points at `«at»` and applies them to the head. -/
def appendPoints (c : Core) (txn : Tables) (system : List UInt8) (generation : ℕ)
    (points : List IncomingPoint) («at» : ℕ) : Except StoreError (AppendReport × Core) := do
  let (answers, c) ← c.appendEach txn system generation «at» points
  .ok (.of «at» (points.zip answers), c)

/-- Closes the buckets of one quiet series, then seals its open chunks of closed spans. -/
def sweepEntry (hubNow : ℕ) (c : Core) (key : SeriesKey) : Core :=
  match c.head.get? key with
  | none => c
  | some entry =>
      let (swept, state) := entry.state.sweep hubNow
      let (closed, state) := state.sealClosed hubNow
      c.putEntry key { entry with state } (swept ++ closed)

/-- Closes the buckets of quiet series, then seals every open chunk of a closed span, so the
span is whole in `chunks` before its handoff. -/
def sweep (c : Core) (hubNow : ℕ) : Core := c.head.keys.foldl (sweepEntry hubNow) c

end Core

end MonitoringAgent.HubStore
